import Mathlib.Algebra.Order.Ring.Int
import DisastrOS.Library.IndexChain
import DisastrOS.Machine.PoolAllocator

/-!
# The pool allocator hands out disjoint blocks

`FreeList` ties the threaded index array to the list of free indices. Both
operations keep it, whatever pointer a caller returns, so the blocks in use are
exactly the indices marked as detached.
-/
namespace DisastrOS.Pool.BlockContract

open DisastrOS.Machine
open DisastrOS.Library.IndexChain

/-- The free list visits exactly `free`; every other index is detached. -/
structure FreeList (a : PoolAllocator) (free : List Int) : Prop where
  chain : Chain a.freeList NullIdx a.firstIdx free
  nodup : free.Nodup
  size : a.size = free.length
  bound : ∀ i ∈ free, 0 ≤ i ∧ i < a.sizeMax
  detached : ∀ i, 0 ≤ i → i < a.sizeMax → (a.freeList i = DetachedIdx ↔ i ∉ free)

/-- The block at index `i` is in use. -/
def HandedOut (a : PoolAllocator) (i : Int) : Prop :=
  0 ≤ i ∧ i < a.sizeMax ∧ a.freeList i = DetachedIdx

instance (a : PoolAllocator) (i : Int) : Decidable (HandedOut a i) :=
  inferInstanceAs (Decidable (_ ∧ _ ∧ _))

/-- The start address of the block at index `i`. -/
def blockAddress (a : PoolAllocator) (i : Int) : Int := a.buffer + i * a.itemSize

theorem linkAscending_apply (n : Nat) (f : Int → Int) (i : Int) :
    PoolAllocator.linkAscending n f i = if 0 ≤ i ∧ i < n then i + 1 else f i := by
  induction n with
  | zero =>
    rw [if_neg (by omega)]
    rfl
  | succ n ih =>
    rw [PoolAllocator.linkAscending, Function.update_apply, ih]
    split <;> split <;> try split
    all_goals omega

/-- The indices `k, k+1, …` up to `k+n-1`, in ascending order. -/
def ascending (k : Int) : Nat → List Int
  | 0 => []
  | n + 1 => k :: ascending (k + 1) n

theorem mem_ascending (k : Int) (n : Nat) (i : Int) :
    i ∈ ascending k n ↔ k ≤ i ∧ i < k + n := by
  induction n generalizing k with
  | zero => simp [ascending]
  | succ n ih =>
    rw [ascending, List.mem_cons, ih]
    push_cast
    omega

theorem length_ascending (k : Int) (n : Nat) : (ascending k n).length = n := by
  induction n generalizing k with
  | zero => rfl
  | succ n ih => rw [ascending, List.length_cons, ih]

theorem nodup_ascending (k : Int) (n : Nat) : (ascending k n).Nodup := by
  induction n generalizing k with
  | zero => exact List.nodup_nil
  | succ n ih =>
    refine List.nodup_cons.mpr ⟨?_, ih (k + 1)⟩
    rw [mem_ascending]
    omega

theorem ascending_succ (k : Int) (n : Nat) : ascending k (n + 1) = ascending k n ++ [k + n] := by
  induction n generalizing k with
  | zero => simp [ascending]
  | succ n ih =>
    rw [ascending, ih (k + 1), ascending, List.cons_append]
    congr 3
    push_cast
    omega

/-- A run of ascending successors that ends in the sentinel is a chain. -/
theorem chain_ascending (f : Int → Int) (k : Int) (n : Nat) (hk : 0 ≤ k)
    (hf : ∀ i, k ≤ i → i < k + n → f i = if i = k + n - 1 then NullIdx else i + 1)
    (hn : 0 < n) : Chain f NullIdx k (ascending k n) := by
  induction n generalizing k with
  | zero => omega
  | succ n ih =>
    refine ⟨rfl, by unfold NullIdx; omega, ?_⟩
    have hfk := hf k (Int.le_refl k) (by omega)
    cases n with
    | zero =>
      rw [hfk, if_pos (by omega)]
      rfl
    | succ m =>
      rw [hfk, if_neg (by omega)]
      refine ih (k + 1) (by omega) (fun i hi hlt => ?_) (by omega)
      rw [hf i (by omega) (by omega)]
      congr 1
      simp only [eq_iff_iff]
      omega

/-- Initialisation with enough memory links all blocks. -/
theorem init_freeList (a : PoolAllocator) (itemSize numItems memoryBlock memorySize : Int)
    (hi : 1 ≤ itemSize) (hn : 1 ≤ numItems) (hm : numItems * (itemSize + SIZEOF_INT) ≤ memorySize)
    (hint : memorySize < 2 ^ 31) :
    ∃ a', PoolAllocator.init a itemSize numItems memoryBlock memorySize = (.Success, a') ∧
      a'.buffer = memoryBlock ∧ a'.itemSize = itemSize ∧ a'.sizeMax = numItems ∧
      FreeList a' (ascending 0 numItems.toNat) := by
  have hpos : 0 ≤ numItems * (itemSize + SIZEOF_INT) :=
    Int.mul_nonneg (by omega) (by unfold SIZEOF_INT; omega)
  have hreq : toInt (numItems * (itemSize + SIZEOF_INT)) = numItems * (itemSize + SIZEOF_INT) :=
    toInt_of_fits (by omega) (by omega)
  have hfit : ¬ memorySize < toInt (numItems * (itemSize + SIZEOF_INT)) := by
    rw [hreq]
    omega
  refine ⟨_, by rw [PoolAllocator.init, if_neg hfit], rfl, rfl, rfl, ?_⟩
  have hcast : ((numItems.toNat : Nat) : Int) = numItems := Int.toNat_of_nonneg (by omega)
  have hlink : ∀ i, 0 ≤ i → i < numItems →
      Function.update (PoolAllocator.linkAscending (numItems - 1).toNat a.freeList)
        (numItems - 1) NullIdx i = if i = numItems - 1 then NullIdx else i + 1 := by
    intro i h0 hlt
    rw [Function.update_apply, linkAscending_apply]
    split
    · rfl
    · rw [if_pos (by omega)]
  constructor
  · refine chain_ascending _ 0 _ (Int.le_refl 0) (fun i h0 hlt => ?_) (by omega)
    change Function.update _ _ _ i = _
    rw [hlink i h0 (by omega)]
    congr 1
    simp only [eq_iff_iff]
    omega
  · exact nodup_ascending 0 _
  · rw [length_ascending]
    exact hcast.symm
  · intro i hmem
    rw [mem_ascending] at hmem
    constructor
    · exact hmem.1
    · have := hmem.2
      change i < numItems
      omega
  · intro i h0 hlt
    change i < numItems at hlt
    rw [mem_ascending]
    change Function.update _ _ _ i = _ ↔ _
    rw [hlink i h0 hlt]
    unfold NullIdx DetachedIdx
    constructor
    · intro h
      split at h <;> omega
    · intro h
      omega

variable {a : PoolAllocator} {free : List Int}

theorem handedOut_iff (h : FreeList a free) (i : Int) :
    HandedOut a i ↔ 0 ≤ i ∧ i < a.sizeMax ∧ i ∉ free := by
  constructor
  · rintro ⟨h0, hlt, hd⟩
    exact ⟨h0, hlt, (h.detached i h0 hlt).mp hd⟩
  · rintro ⟨h0, hlt, hout⟩
    exact ⟨h0, hlt, (h.detached i h0 hlt).mpr hout⟩

theorem getBlock_none (h : FreeList a free) (hf : free = []) : a.getBlock = (none, a) := by
  have hidx : a.firstIdx = -1 := (chain_eq_nil_iff h.chain).mpr hf
  rw [PoolAllocator.getBlock, if_pos hidx]

/-- Taking a block detaches the first free index and nothing else. -/
theorem getBlock_some (h : FreeList a free) (hf : free ≠ []) :
    ∃ i rest, free = i :: rest ∧ a.getBlock.1 = some (blockAddress a i) ∧
      a.getBlock.2.buffer = a.buffer ∧ a.getBlock.2.itemSize = a.itemSize ∧
      a.getBlock.2.sizeMax = a.sizeMax ∧
      a.getBlock.2.freeList = Function.update a.freeList i DetachedIdx ∧
      FreeList a.getBlock.2 rest := by
  have hne : a.firstIdx ≠ -1 := fun he => hf ((chain_eq_nil_iff h.chain).mp he)
  obtain ⟨rest, rfl, _⟩ := chain_cons_of_ne h.chain hne
  have hget : a.getBlock = (some (blockAddress a a.firstIdx),
      { a with
        firstIdx := a.freeList a.firstIdx
        size := a.size - 1
        freeList := Function.update a.freeList a.firstIdx DetachedIdx }) := by
    rw [PoolAllocator.getBlock, if_neg hne]
    rfl
  rw [hget]
  have hnotin := (List.nodup_cons.mp h.nodup).1
  refine ⟨a.firstIdx, rest, rfl, rfl, rfl, rfl, rfl, rfl, ?_⟩
  constructor
  · exact chain_pop h.nodup h.chain
  · exact (List.nodup_cons.mp h.nodup).2
  · have hs := h.size
    rw [List.length_cons] at hs
    change a.size - 1 = _
    omega
  · exact fun i hi => h.bound i (List.mem_cons_of_mem _ hi)
  · intro i h0 hlt
    change Function.update _ _ _ i = _ ↔ _
    rw [Function.update_apply]
    by_cases hi : i = a.firstIdx
    · subst hi
      simp [hnotin]
    · rw [if_neg hi, h.detached i h0 hlt, List.mem_cons]
      simp [hi]

/-- A returned pointer falls into exactly one of four classes. -/
theorem releaseBlock_eq (block : Int) (hsize : 1 ≤ a.itemSize)
    (hint : -2 ^ 31 ≤ block - a.buffer ∧ block - a.buffer < 2 ^ 31) :
    (∃ i, block = blockAddress a i ∧ HandedOut a i ∧
      a.releaseBlock block = (.Success,
        { a with
          freeList := Function.update a.freeList i a.firstIdx
          firstIdx := i
          size := a.size + 1 })) ∨
    ((∀ i, block = blockAddress a i → ¬ HandedOut a i) ∧
      ∃ r, a.releaseBlock block = (r, a) ∧
        (r = .UnalignedFree ∨ r = .OutOfRange ∨ r = .DoubleFree)) := by
  have hoff : toInt (block - a.buffer) = block - a.buffer :=
    toInt_of_fits hint.1 hint.2
  unfold PoolAllocator.releaseBlock
  simp only [hoff]
  by_cases hmod : (block - a.buffer).tmod a.itemSize = 0
  · -- the quotient is the only index whose block could start at `block`
    have hmul : block = blockAddress a ((block - a.buffer).tdiv a.itemSize) := by
      have hd := Int.tmod_add_mul_tdiv (block - a.buffer) a.itemSize
      rw [hmod, Int.mul_comm] at hd
      unfold blockAddress
      omega
    have huniq : ∀ i, block = blockAddress a i → i = (block - a.buffer).tdiv a.itemSize := by
      intro i hi
      have he : i * a.itemSize = (block - a.buffer).tdiv a.itemSize * a.itemSize := by
        unfold blockAddress at hi hmul
        omega
      exact Int.eq_of_mul_eq_mul_right (by omega) he
    generalize (block - a.buffer).tdiv a.itemSize = q at hmul huniq
    rw [if_neg (by simpa using hmod)]
    by_cases hr : q < 0 ∨ q ≥ a.sizeMax
    · rw [if_pos hr]
      refine .inr ⟨fun i hi hh => ?_, _, rfl, .inr (.inl rfl)⟩
      obtain rfl := huniq i hi
      have := hh.1
      have := hh.2.1
      omega
    · rw [if_neg hr]
      by_cases hd : a.freeList q = DetachedIdx
      · rw [if_neg (by simpa using hd)]
        exact .inl ⟨q, hmul, ⟨by omega, by omega, hd⟩, rfl⟩
      · rw [if_pos hd]
        refine .inr ⟨fun i hi hh => ?_, _, rfl, .inr (.inr rfl)⟩
        obtain rfl := huniq i hi
        exact hd hh.2.2
  · rw [if_pos hmod]
    refine .inr ⟨fun i hi _ => hmod ?_, _, rfl, .inl rfl⟩
    unfold blockAddress at hi
    have he : block - a.buffer = i * a.itemSize := by omega
    rw [he]
    exact Int.mul_tmod_left i a.itemSize

/-- Returning a block that is in use makes it the first free one. -/
theorem release_freeList (h : FreeList a free) {i : Int} (hi : HandedOut a i) :
    FreeList { a with
        freeList := Function.update a.freeList i a.firstIdx
        firstIdx := i
        size := a.size + 1 } (i :: free) := by
  have hnotin : i ∉ free := (h.detached i hi.1 hi.2.1).mp hi.2.2
  constructor
  · exact chain_push hnotin (by have := hi.1; unfold NullIdx; omega) h.chain
  · exact List.nodup_cons.mpr ⟨hnotin, h.nodup⟩
  · rw [List.length_cons]
    have := h.size
    push_cast
    change a.size + 1 = _
    omega
  · intro j hj
    rcases List.mem_cons.mp hj with rfl | hj
    · exact ⟨hi.1, hi.2.1⟩
    · exact h.bound j hj
  · intro j h0 hlt
    change Function.update _ _ _ j = _ ↔ _
    rw [Function.update_apply]
    by_cases hj : j = i
    · -- the new successor is a free index or the end mark, never the detached mark
      have hfirst : a.firstIdx ≠ DetachedIdx := by
        unfold DetachedIdx
        by_cases hn : a.firstIdx = NullIdx
        · unfold NullIdx at hn
          omega
        · obtain ⟨rest, rfl, _⟩ := chain_cons_of_ne h.chain hn
          have := (h.bound a.firstIdx List.mem_cons_self).1
          omega
      simp [hj, hfirst]
    · rw [if_neg hj, h.detached j h0 hlt, List.mem_cons]
      simp [hj]

/-! ## Whole runs -/

/-- One call on the allocator, as its clients make it. -/
inductive Call where
  | getBlock
  | releaseBlock (block : Int)
  deriving DecidableEq

/-- A call, together with the addresses its clients hold. An address is held from
the `getBlock` that returned it to the `releaseBlock` that accepted it. -/
def apply (s : PoolAllocator × List Int) : Call → PoolAllocator × List Int
  | .getBlock =>
      match s.1.getBlock with
      | (none, a) => (a, s.2)
      | (some block, a) => (a, block :: s.2)
  | .releaseBlock block =>
      match s.1.releaseBlock block with
      | (.Success, a) => (a, s.2.erase block)
      | (_, a) => (a, s.2)

/-- The allocator and its clients agree on which blocks are in use. -/
structure Accounted (a : PoolAllocator) (live : List Int) : Prop where
  free : ∃ free, FreeList a free
  itemSize : 1 ≤ a.itemSize
  nodup : live.Nodup
  live : ∀ b, b ∈ live ↔ ∃ i, HandedOut a i ∧ b = blockAddress a i

/-- What a client may rely on in a state with the addresses `live` in use. -/
structure Contract (a : PoolAllocator) (live : List Int)
    (memoryBlock itemSize numItems : Int) : Prop where
  /-- the threaded list visits the free indices once each and ends at the sentinel -/
  freeList : ∃ free, Chain a.freeList NullIdx a.firstIdx free ∧ free.Nodup ∧
    (free.length : Int) = a.size ∧ (∀ i ∈ free, 0 ≤ i ∧ i < numItems) ∧
    (∀ i, 0 ≤ i → i < numItems → (i ∉ free ↔ a.freeList i = DetachedIdx))
  getBlock_null : a.getBlock.1 = none ↔
    ∀ i, 0 ≤ i → i < numItems → memoryBlock + i * itemSize ∈ live
  getBlock_fresh : ∀ b, a.getBlock.1 = some b →
    b ∉ live ∧ ∃ i, 0 ≤ i ∧ i < numItems ∧ b = memoryBlock + i * itemSize
  live_nodup : live.Nodup
  live_inside : ∀ b ∈ live, memoryBlock ≤ b ∧ b + itemSize ≤ memoryBlock + itemSize * numItems
  live_disjoint : ∀ b ∈ live, ∀ b' ∈ live, b ≠ b' → b + itemSize ≤ b' ∨ b' + itemSize ≤ b
  release_success : ∀ b, -2 ^ 31 ≤ b - memoryBlock → b - memoryBlock < 2 ^ 31 →
    ((a.releaseBlock b).1 = .Success ↔ b ∈ live)
  release_failure : ∀ b, -2 ^ 31 ≤ b - memoryBlock → b - memoryBlock < 2 ^ 31 → b ∉ live →
    (a.releaseBlock b).2 = a ∧ ((a.releaseBlock b).1 = .UnalignedFree ∨
      (a.releaseBlock b).1 = .OutOfRange ∨ (a.releaseBlock b).1 = .DoubleFree)

theorem blockAddress_injective (hs : 1 ≤ a.itemSize) {i j : Int}
    (h : blockAddress a i = blockAddress a j) : i = j := by
  unfold blockAddress at h
  exact Int.eq_of_mul_eq_mul_right (by omega : a.itemSize ≠ 0) (by omega)

/-- Blocks at different indices do not overlap. -/
theorem blockAddress_apart (hs : 1 ≤ a.itemSize) {i j : Int} (h : i < j) :
    blockAddress a i + a.itemSize ≤ blockAddress a j := by
  have hm : (i + 1) * a.itemSize ≤ j * a.itemSize :=
    Int.mul_le_mul_of_nonneg_right (by omega) (by omega)
  rw [Int.add_mul] at hm
  unfold blockAddress
  omega

theorem accounted_getBlock {live : List Int} (h : Accounted a live) :
    Accounted (apply (a, live) .getBlock).1 (apply (a, live) .getBlock).2 ∧
      (apply (a, live) .getBlock).1.buffer = a.buffer ∧
      (apply (a, live) .getBlock).1.itemSize = a.itemSize ∧
      (apply (a, live) .getBlock).1.sizeMax = a.sizeMax := by
  obtain ⟨free, hf⟩ := h.free
  by_cases hnil : free = []
  · have hget := getBlock_none hf hnil
    have happ : apply (a, live) .getBlock = (a, live) := by simp only [apply, hget]
    rw [happ]
    exact ⟨h, rfl, rfl, rfl⟩
  · obtain ⟨i, rest, hcons, hb, hbuf, hitem, hmax, hlist, hrest⟩ := getBlock_some hf hnil
    have hpair : a.getBlock = (some (blockAddress a i), a.getBlock.2) := by rw [← hb]
    have happ : apply (a, live) .getBlock = (a.getBlock.2, blockAddress a i :: live) := by
      simp only [apply]
      rw [hpair]
    have hmem : i ∈ free := by simp [hcons]
    have hi := hf.bound i hmem
    have hfree : ¬ HandedOut a i := fun hh => ((hf.detached i hi.1 hi.2).mp hh.2.2) hmem
    have hiff : ∀ j, HandedOut a.getBlock.2 j ↔ j = i ∨ HandedOut a j := by
      intro j
      unfold HandedOut
      rw [hmax, hlist, Function.update_apply]
      by_cases hj : j = i
      · simp [hj, hi]
      · simp [hj]
    have haddr : ∀ j, blockAddress a.getBlock.2 j = blockAddress a j := by
      intro j
      unfold blockAddress
      rw [hbuf, hitem]
    rw [happ]
    refine ⟨⟨⟨rest, hrest⟩, by rw [hitem]; exact h.itemSize, ?_, ?_⟩, hbuf, hitem, hmax⟩
    · refine List.nodup_cons.mpr ⟨fun hl => ?_, h.nodup⟩
      obtain ⟨j, hj, he⟩ := (h.live _).mp hl
      exact hfree (blockAddress_injective h.itemSize he ▸ hj)
    · intro b
      simp only [List.mem_cons, h.live b, hiff, haddr]
      constructor
      · rintro (rfl | ⟨j, hj, rfl⟩)
        · exact ⟨i, .inl rfl, rfl⟩
        · exact ⟨j, .inr hj, rfl⟩
      · rintro ⟨j, rfl | hj, rfl⟩
        · exact .inl rfl
        · exact .inr ⟨j, hj, rfl⟩

theorem accounted_releaseBlock {live : List Int} (h : Accounted a live) (b : Int)
    (hint : -2 ^ 31 ≤ b - a.buffer ∧ b - a.buffer < 2 ^ 31) :
    Accounted (apply (a, live) (.releaseBlock b)).1 (apply (a, live) (.releaseBlock b)).2 ∧
      (apply (a, live) (.releaseBlock b)).1.buffer = a.buffer ∧
      (apply (a, live) (.releaseBlock b)).1.itemSize = a.itemSize ∧
      (apply (a, live) (.releaseBlock b)).1.sizeMax = a.sizeMax := by
  obtain ⟨free, hf⟩ := h.free
  rcases releaseBlock_eq b h.itemSize hint with ⟨i, hb, hi, heq⟩ | ⟨_, r, heq, hr⟩
  · have happ : apply (a, live) (.releaseBlock b) = ({ a with
        freeList := Function.update a.freeList i a.firstIdx
        firstIdx := i
        size := a.size + 1 }, live.erase b) := by simp only [apply, heq]
    rw [happ]
    refine ⟨⟨⟨i :: free, release_freeList hf hi⟩, h.itemSize, h.nodup.erase b, ?_⟩,
      rfl, rfl, rfl⟩
    intro c
    have hiff : ∀ j, HandedOut { a with
        freeList := Function.update a.freeList i a.firstIdx
        firstIdx := i
        size := a.size + 1 } j ↔ j ≠ i ∧ HandedOut a j := by
      intro j
      have hmem := (release_freeList hf hi).detached j
      unfold HandedOut
      constructor
      · rintro ⟨h0, hlt, hd⟩
        have hj := (hmem h0 hlt).mp hd
        rw [List.mem_cons, not_or] at hj
        exact ⟨hj.1, h0, hlt, (hf.detached j h0 hlt).mpr hj.2⟩
      · rintro ⟨hne, h0, hlt, hd⟩
        refine ⟨h0, hlt, (hmem h0 hlt).mpr ?_⟩
        rw [List.mem_cons, not_or]
        exact ⟨hne, (hf.detached j h0 hlt).mp hd⟩
    rw [h.nodup.mem_erase_iff, h.live c]
    constructor
    · rintro ⟨hne, j, hj, rfl⟩
      refine ⟨j, (hiff j).mpr ⟨?_, hj⟩, rfl⟩
      rintro rfl
      exact hne hb.symm
    · rintro ⟨j, hj, rfl⟩
      obtain ⟨hne, hj⟩ := (hiff j).mp hj
      refine ⟨fun he => hne ?_, j, hj, rfl⟩
      rw [hb] at he
      exact blockAddress_injective h.itemSize he
  · have happ : apply (a, live) (.releaseBlock b) = (a, live) := by
      simp only [apply, heq]
      rcases hr with rfl | rfl | rfl <;> rfl
    rw [happ]
    exact ⟨h, rfl, rfl, rfl⟩

/-- Agreement on the blocks in use is all a client needs. -/
theorem contract_of_accounted {live : List Int} (h : Accounted a live) :
    Contract a live a.buffer a.itemSize a.sizeMax := by
  obtain ⟨free, hf⟩ := h.free
  have hmem : ∀ i, 0 ≤ i → i < a.sizeMax → (a.buffer + i * a.itemSize ∈ live ↔ i ∉ free) := by
    intro i h0 hlt
    rw [h.live, ← hf.detached i h0 hlt]
    constructor
    · rintro ⟨j, hj, he⟩
      exact (blockAddress_injective h.itemSize (i := i) he) ▸ hj.2.2
    · exact fun hd => ⟨i, ⟨h0, hlt, hd⟩, rfl⟩
  constructor
  · refine ⟨free, hf.chain, hf.nodup, hf.size.symm, hf.bound, fun i h0 hlt => ?_⟩
    exact (hf.detached i h0 hlt).symm
  · constructor
    · intro hnone i h0 hlt
      rw [hmem i h0 hlt]
      by_cases hnil : free = []
      · simp [hnil]
      · obtain ⟨j, rest, _, hb, _⟩ := getBlock_some hf hnil
        rw [hnone] at hb
        cases hb
    · intro hall
      by_cases hnil : free = []
      · rw [getBlock_none hf hnil]
      · obtain ⟨j, rest, hcons, _⟩ := getBlock_some hf hnil
        have hj : j ∈ free := by simp [hcons]
        have hb := hf.bound j hj
        exact absurd hj ((hmem j hb.1 hb.2).mp (hall j hb.1 hb.2))
  · intro b hb
    by_cases hnil : free = []
    · rw [getBlock_none hf hnil] at hb
      cases hb
    · obtain ⟨j, rest, hcons, hj, _⟩ := getBlock_some hf hnil
      obtain rfl : blockAddress a j = b := by rw [hj] at hb; exact Option.some.inj hb
      have hjf : j ∈ free := by simp [hcons]
      have hbound := hf.bound j hjf
      exact ⟨fun hl => (hmem j hbound.1 hbound.2).mp hl hjf, j, hbound.1, hbound.2, rfl⟩
  · exact h.nodup
  · intro b hb
    obtain ⟨i, hi, rfl⟩ := (h.live b).mp hb
    have h0 : 0 ≤ i * a.itemSize :=
      Int.mul_nonneg hi.1 (by have := h.itemSize; omega)
    have hlast : blockAddress a i + a.itemSize ≤ blockAddress a a.sizeMax :=
      blockAddress_apart h.itemSize hi.2.1
    unfold blockAddress at hlast ⊢
    rw [Int.mul_comm a.itemSize a.sizeMax]
    omega
  · intro b hb b' hb' hne
    obtain ⟨i, hi, rfl⟩ := (h.live b).mp hb
    obtain ⟨j, hj, rfl⟩ := (h.live b').mp hb'
    rcases Int.lt_trichotomy i j with hlt | rfl | hlt
    · exact .inl (blockAddress_apart h.itemSize hlt)
    · exact absurd rfl hne
    · exact .inr (blockAddress_apart h.itemSize hlt)
  · intro b h0 hlt
    rw [h.live]
    rcases releaseBlock_eq b h.itemSize ⟨h0, hlt⟩ with ⟨i, hb, hi, heq⟩ | ⟨hno, r, heq, hr⟩
    · rw [heq]
      exact iff_of_true rfl ⟨i, hi, hb⟩
    · rw [heq]
      refine iff_of_false ?_ ?_
      · rcases hr with rfl | rfl | rfl <;> exact fun he => nomatch he
      · rintro ⟨i, hi, hb⟩
        exact hno i hb hi
  · intro b h0 hlt hb
    rcases releaseBlock_eq b h.itemSize ⟨h0, hlt⟩ with ⟨i, hbi, hi, _⟩ | ⟨_, r, heq, hr⟩
    · exact absurd ((h.live b).mpr ⟨i, hi, hbi⟩) hb
    · rw [heq]
      exact ⟨rfl, hr⟩

/-- Over every history of calls, including hostile releases, the allocator hands
out disjoint blocks, never one that is in use, and takes back exactly those. -/
theorem allocator_contract (a : PoolAllocator) (itemSize numItems memoryBlock memorySize : Int)
    (hi : 1 ≤ itemSize) (hn : 1 ≤ numItems)
    (hm : numItems * (itemSize + SIZEOF_INT) ≤ memorySize) (hint : memorySize < 2 ^ 31)
    (calls : List Call)
    (hcalls : ∀ b, .releaseBlock b ∈ calls → -2 ^ 31 ≤ b - memoryBlock ∧ b - memoryBlock < 2 ^ 31) :
    let start := PoolAllocator.init a itemSize numItems memoryBlock memorySize
    start.1 = .Success ∧
      Contract (calls.foldl apply (start.2, [])).1 (calls.foldl apply (start.2, [])).2
        memoryBlock itemSize numItems := by
  obtain ⟨a₀, hinit, hbuf, hitem, hmax, hfree⟩ :=
    init_freeList a itemSize numItems memoryBlock memorySize hi hn hm hint
  have hstart : Accounted a₀ [] := by
    refine ⟨⟨_, hfree⟩, by omega, List.nodup_nil, fun b => ?_⟩
    simp only [List.not_mem_nil, false_iff, not_exists, not_and]
    rintro i ⟨h0, hlt, hd⟩
    exact absurd ((mem_ascending 0 _ i).mpr ⟨h0, by omega⟩) ((hfree.detached i h0 hlt).mp hd)
  -- induction over the calls, with the geometry of the pool kept fixed
  have hrun : ∀ (cs : List Call) (s : PoolAllocator × List Int),
      (∀ b, .releaseBlock b ∈ cs → -2 ^ 31 ≤ b - memoryBlock ∧ b - memoryBlock < 2 ^ 31) →
      Accounted s.1 s.2 → s.1.buffer = memoryBlock → s.1.itemSize = itemSize →
      s.1.sizeMax = numItems →
      Contract (cs.foldl apply s).1 (cs.foldl apply s).2 memoryBlock itemSize numItems := by
    intro cs
    induction cs with
    | nil =>
      rintro s - hs rfl rfl rfl
      exact contract_of_accounted hs
    | cons c cs ih =>
      rintro ⟨a₁, live⟩ hc hs hb hz hx
      rw [List.foldl_cons]
      have hkeep : Accounted (apply (a₁, live) c).1 (apply (a₁, live) c).2 ∧
          (apply (a₁, live) c).1.buffer = a₁.buffer ∧
          (apply (a₁, live) c).1.itemSize = a₁.itemSize ∧
          (apply (a₁, live) c).1.sizeMax = a₁.sizeMax := by
        cases c with
        | getBlock => exact accounted_getBlock hs
        | releaseBlock b =>
          refine accounted_releaseBlock hs b ?_
          change a₁.buffer = memoryBlock at hb
          rw [hb]
          exact hc b List.mem_cons_self
      obtain ⟨hs', hb', hz', hx'⟩ := hkeep
      exact ih _ (fun b hbm => hc b (List.mem_cons_of_mem _ hbm)) hs' (hb'.trans hb)
        (hz'.trans hz) (hx'.trans hx)
  rw [hinit]
  exact ⟨rfl, hrun calls (a₀, []) hcalls hstart hbuf hitem hmax⟩

theorem allocator_contract_three_blocks :
    Contract
      ([Call.getBlock, .getBlock, .releaseBlock 1000, .releaseBlock 1003, .getBlock].foldl apply
        ((PoolAllocator.init {} 8 3 1000 36).2, [])).1
      ([Call.getBlock, .getBlock, .releaseBlock 1000, .releaseBlock 1003, .getBlock].foldl apply
        ((PoolAllocator.init {} 8 3 1000 36).2, [])).2
      1000 8 3 :=
  (allocator_contract {} 8 3 1000 36 (by decide) (by decide) (by decide) (by decide) _
    (by simp)).2

end DisastrOS.Pool.BlockContract
