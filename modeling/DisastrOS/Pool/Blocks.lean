import Mathlib.Data.Finset.Card
import Mathlib.Data.Finset.Range
import DisastrOS.Library.Outcome
import DisastrOS.Machine.System
import DisastrOS.Pool.BlockContract

/-!
# The blocks of the kernel's pools

The fourteen pools of the kernel satisfy the allocator contract, with blocks
addressed by their index.
-/
namespace DisastrOS.Pool.Blocks

open DisastrOS.Machine
open DisastrOS.Pool.BlockContract

/-- A pool whose block addresses are the indices below `n`. -/
structure Indexed (a : PoolAllocator) (n : Int) : Prop where
  free : ∃ free, FreeList a free
  buffer : a.buffer = 0
  itemSize : a.itemSize = 1
  sizeMax : a.sizeMax = n

/-- All pools are as the kernel start has set them up, up to the blocks in use. -/
def Pooled (k : Kernel) : Prop := ∀ kind, Indexed (k.pool kind) (Kernel.numItems kind)

/-- The block `i` of a pool is in use. -/
def Allocated (k : Kernel) (kind : Kind) (i : Nat) : Prop := HandedOut (k.pool kind) i

variable {k k' : Kernel} {kind kind' : Kind} {i j : Nat}

theorem numItems_le (kind : Kind) : Kernel.numItems kind ≤ 1024 := by
  cases kind <;> decide

theorem allocated_bound (h : Pooled k) (hi : Allocated k kind i) : i < 1024 := by
  have hlt := hi.2.1
  rw [(h kind).sizeMax] at hlt
  have hle := numItems_le kind
  omega

theorem allocated_of_pool (h : k'.pool kind = k.pool kind) :
    Allocated k' kind i ↔ Allocated k kind i := by
  unfold Allocated
  rw [h]

theorem allocated_congr (hpool : k'.pool = k.pool) :
    Allocated k' kind i ↔ Allocated k kind i :=
  allocated_of_pool (by rw [hpool])

theorem pooled_congr (hpool : k'.pool = k.pool) (h : Pooled k) : Pooled k' := by
  unfold Pooled
  rwa [hpool]

/-! ## Taking a block -/

theorem indexed_getBlock_none {a : PoolAllocator} {n : Int} (h : Indexed a n) :
    a.getBlock.1 = none ↔ a.size = 0 := by
  obtain ⟨free, hf⟩ := h.free
  by_cases hnil : free = []
  · rw [getBlock_none hf hnil, hf.size, hnil]
    simp
  · obtain ⟨i, rest, hcons, hb, _⟩ := getBlock_some hf hnil
    rw [hb, hf.size, hcons]
    simp
    omega

/-- The block taken was free, and is the only one whose state changes. -/
theorem indexed_getBlock {a : PoolAllocator} {n b : Int} (h : Indexed a n)
    (hb : a.getBlock.1 = some b) :
    0 ≤ b ∧ b < n ∧ a.firstIdx = b ∧ ¬ HandedOut a b ∧ Indexed a.getBlock.2 n ∧
      a.getBlock.2.size = a.size - 1 ∧
      ∀ i, HandedOut a.getBlock.2 i ↔ i = b ∨ HandedOut a i := by
  obtain ⟨free, hf⟩ := h.free
  by_cases hnil : free = []
  · rw [getBlock_none hf hnil] at hb
    cases hb
  · obtain ⟨i, rest, hcons, haddr, hbuf, hitem, hmax, hlist, hrest⟩ := getBlock_some hf hnil
    have hi : b = i := by
      rw [hb, Option.some.injEq] at haddr
      rw [haddr, blockAddress, h.buffer, h.itemSize]
      omega
    subst hi
    have hmem : b ∈ free := by simp [hcons]
    have hbound := hf.bound b hmem
    rw [h.sizeMax] at hbound
    refine ⟨hbound.1, hbound.2, ?_, ?_, ?_, ?_, fun j => ?_⟩
    · unfold PoolAllocator.getBlock at hb
      split at hb
      · cases hb
      · rw [Option.some.injEq, h.buffer, h.itemSize] at hb
        omega
    · intro hh
      exact (hf.detached b hh.1 hh.2.1).mp hh.2.2 hmem
    · exact ⟨⟨rest, hrest⟩, hbuf.trans h.buffer, hitem.trans h.itemSize, hmax.trans h.sizeMax⟩
    · rw [hrest.size, hf.size, hcons, List.length_cons]
      omega
    · unfold HandedOut
      rw [hmax, hlist, h.sizeMax, Function.update_apply]
      by_cases hj : j = b
      · simp [hj, hbound]
      · simp [hj]

theorem getBlock_eq_some {b : Nat} (hget : k.getBlock kind = some (b, k')) :
    ∃ x, (k.pool kind).getBlock.1 = some x ∧ b = x.toNat ∧
      k' = { k with pool := Function.update k.pool kind (k.pool kind).getBlock.2 } := by
  unfold Kernel.getBlock at hget
  split at hget
  · cases hget
  · next x a heq =>
    cases hget
    rw [heq]
    exact ⟨x, rfl, rfl, rfl⟩

/-- What taking a block does to the kernel. -/
structure Took (k : Kernel) (kind : Kind) (i : Nat) (k' : Kernel) : Prop where
  fresh : ¬ Allocated k kind i
  eq : k' = { k with pool := Function.update k.pool kind (k.pool kind).getBlock.2 }
  pooled : Pooled k'
  size : (k'.pool kind).size = (k.pool kind).size - 1
  allocated : ∀ kind' j, Allocated k' kind' j ↔ (kind' = kind ∧ j = i) ∨ Allocated k kind' j
  first : (k.pool kind).firstIdx = i

theorem getBlock_took (h : Pooled k) (hget : k.getBlock kind = some (i, k')) :
    Took k kind i k' := by
  obtain ⟨x, hx, rfl, rfl⟩ := getBlock_eq_some hget
  obtain ⟨h0, hlt, hfirst, hfresh, hind, hsize, hiff⟩ := indexed_getBlock (h kind) hx
  have hcast : ((x.toNat : Nat) : Int) = x := Int.toNat_of_nonneg h0
  refine ⟨?_, rfl, ?_, ?_, ?_, hfirst.trans hcast.symm⟩
  · unfold Allocated
    rwa [hcast]
  · intro kind'
    change Indexed (Function.update k.pool kind _ kind') _
    by_cases he : kind' = kind
    · subst he
      rwa [Function.update_self]
    · rw [Function.update_of_ne he]
      exact h kind'
  · change (Function.update k.pool kind _ kind).size = _
    rw [Function.update_self, hsize]
  · intro kind' j
    change HandedOut (Function.update k.pool kind _ kind') j ↔ _
    by_cases he : kind' = kind
    · subst he
      rw [Function.update_self, hiff]
      unfold Allocated
      constructor
      · rintro (hj | hj)
        · exact .inl ⟨rfl, by omega⟩
        · exact .inr hj
      · rintro (⟨-, hj⟩ | hj)
        · exact .inl (by omega)
        · exact .inr hj
    · rw [Function.update_of_ne he]
      simp [he, Allocated]

/-- Whether a block is free depends on the pools only. -/
theorem getBlock_isSome_congr (hpool : k'.pool = k.pool) :
    (k'.getBlock kind).isSome = (k.getBlock kind).isSome := by
  unfold Kernel.getBlock
  rw [hpool]
  rcases (k.pool kind).getBlock with ⟨_ | block, a⟩ <;> rfl

theorem getBlock_eq_none (h : Pooled k) : k.getBlock kind = none ↔ (k.pool kind).size = 0 := by
  rw [← indexed_getBlock_none (h kind)]
  unfold Kernel.getBlock
  split
  · next heq => simp [heq]
  · next heq => simp [heq]

/-! ## Counting the blocks in use -/

/-- The blocks of a pool in use. -/
def inUse (k : Kernel) (kind : Kind) : Finset Nat :=
  (Finset.range (k.pool kind).sizeMax.toNat).filter fun i => HandedOut (k.pool kind) i

@[simp]
theorem mem_inUse : i ∈ inUse k kind ↔ Allocated k kind i := by
  unfold inUse Allocated
  rw [Finset.mem_filter, Finset.mem_range, and_iff_right_iff_imp]
  rintro ⟨_, hlt, _⟩
  omega

/-- A block of a pool is either in use or free. -/
theorem card_inUse (h : Pooled k) (kind : Kind) :
    ((inUse k kind).card : Int) + (k.pool kind).size = Kernel.numItems kind := by
  obtain ⟨free, hf⟩ := (h kind).free
  have hmax := (h kind).sizeMax
  have hfree : (Finset.range (k.pool kind).sizeMax.toNat).filter
      (fun i : Nat => ¬ HandedOut (k.pool kind) i) = (free.map Int.toNat).toFinset := by
    ext i
    rw [Finset.mem_filter, Finset.mem_range, List.mem_toFinset, List.mem_map]
    constructor
    · rintro ⟨hlt, hout⟩
      have hi : (i : Int) < (k.pool kind).sizeMax := by omega
      refine ⟨i, ?_, Int.toNat_natCast i⟩
      by_contra hn
      exact hout ⟨by omega, hi, (hf.detached i (by omega) hi).mpr hn⟩
    · rintro ⟨j, hj, rfl⟩
      have hb := hf.bound j hj
      have hcast : ((j.toNat : Nat) : Int) = j := Int.toNat_of_nonneg hb.1
      refine ⟨by omega, fun hh => ?_⟩
      rw [hcast] at hh
      exact (hf.detached j hb.1 hb.2).mp hh.2.2 hj
  have hnodup : (free.map Int.toNat).Nodup := by
    refine List.Nodup.map_on (fun i hi j hj he => ?_) hf.nodup
    have := (hf.bound i hi).1
    have := (hf.bound j hj).1
    omega
  have hsplit := Finset.card_filter_add_card_filter_not
    (s := Finset.range (k.pool kind).sizeMax.toNat) fun i : Nat => HandedOut (k.pool kind) i
  rw [hfree, List.toFinset_card_of_nodup hnodup, List.length_map, Finset.card_range] at hsplit
  rw [hf.size, ← hmax]
  have hpos : 0 ≤ Kernel.numItems kind := by cases kind <;> decide
  unfold inUse
  omega

/-- A pool is empty exactly when all of its blocks are in use. -/
theorem size_nonneg (h : Pooled k) (kind : Kind) : 0 ≤ (k.pool kind).size := by
  obtain ⟨free, hf⟩ := (h kind).free
  rw [hf.size]
  exact Int.natCast_nonneg _

theorem size_eq_zero_iff (h : Pooled k) (kind : Kind) :
    (k.pool kind).size = 0 ↔ ∀ i : Nat, (i : Int) < Kernel.numItems kind → Allocated k kind i := by
  have hsum := card_inUse h kind
  have hpos : 0 ≤ Kernel.numItems kind := by cases kind <;> decide
  have hsub : inUse k kind ⊆ Finset.range (Kernel.numItems kind).toNat := by
    intro i hi
    have hlt := (mem_inUse.mp hi).2.1
    rw [(h kind).sizeMax] at hlt
    exact Finset.mem_range.mpr (by omega)
  have hle := Finset.card_le_card hsub
  rw [Finset.card_range] at hle
  constructor
  · intro hz i hi
    have heq := Finset.eq_of_subset_of_card_le hsub (by rw [Finset.card_range]; omega)
    refine mem_inUse.mp ?_
    rw [heq, Finset.mem_range]
    omega
  · intro hall
    have hsup : Finset.range (Kernel.numItems kind).toNat ⊆ inUse k kind := fun i hi =>
      mem_inUse.mpr (hall i (by have := Finset.mem_range.mp hi; omega))
    have hge := Finset.card_le_card hsup
    rw [Finset.card_range] at hge
    omega

theorem getBlock_ne_none (h : Pooled k) (hcard : ((inUse k kind).card : Int) < Kernel.numItems kind) :
    k.getBlock kind ≠ none := by
  intro hget
  have hsize := (getBlock_eq_none h).mp hget
  have hsum := card_inUse h kind
  omega

/-! ## Returning a block -/

/-- What returning a block does to the kernel. -/
structure Returned (k : Kernel) (kind : Kind) (i : Nat) (k' : Kernel) : Prop where
  pooled : Pooled k'
  size : (k'.pool kind).size = (k.pool kind).size + 1
  allocated : ∀ kind' j, Allocated k' kind' j ↔ ¬ (kind' = kind ∧ j = i) ∧ Allocated k kind' j
  first : (k'.pool kind).firstIdx = i

/-- A pool stays a pool, whatever address is returned to it. -/
theorem indexed_releaseBlock {a : PoolAllocator} {n : Int} (h : Indexed a n) (block : Int) :
    Indexed (a.releaseBlock block).2 n := by
  obtain ⟨free, hf⟩ := h.free
  unfold PoolAllocator.releaseBlock
  simp only
  split
  · exact h
  · split
    · exact h
    · next hrange =>
      split
      · exact h
      · next hd =>
        have hi : HandedOut a ((toInt (block - a.buffer)).tdiv a.itemSize) :=
          ⟨by omega, by omega, by simpa using hd⟩
        exact ⟨⟨_, release_freeList hf hi⟩, h.buffer, h.itemSize, h.sizeMax⟩

theorem releaseBlock_pool (k : Kernel) (i : Nat) (hne : kind' ≠ kind) :
    (k.releaseBlock kind i).pool kind' = k.pool kind' :=
  Function.update_of_ne hne _ _

theorem releaseBlock_returned (kind : Kind) (i : Nat) (h : Pooled k) (hi : Allocated k kind i) :
    Returned k kind i (k.releaseBlock kind i) := by
  have hind := h kind
  obtain ⟨free, hf⟩ := hind.free
  have hbound := allocated_bound h hi
  rcases releaseBlock_eq (a := k.pool kind) (i : Int) (by have := hind.itemSize; omega)
    (by rw [hind.buffer]; omega) with ⟨x, hx, _, heq⟩ | ⟨hno, _⟩
  · have hxi : x = i := by
      rw [blockAddress, hind.buffer, hind.itemSize] at hx
      omega
    subst hxi
    have hpool : (k.releaseBlock kind i).pool = Function.update k.pool kind
        { k.pool kind with
          freeList := Function.update (k.pool kind).freeList i (k.pool kind).firstIdx
          firstIdx := i
          size := (k.pool kind).size + 1 } := by
      unfold Kernel.releaseBlock
      rw [heq]
    refine ⟨?_, ?_, ?_, by rw [hpool, Function.update_self]⟩
    · intro kind'
      rw [hpool]
      by_cases he : kind' = kind
      · subst he
        rw [Function.update_self]
        exact ⟨⟨_, release_freeList hf hi⟩, hind.buffer, hind.itemSize, hind.sizeMax⟩
      · rw [Function.update_of_ne he]
        exact h kind'
    · rw [hpool, Function.update_self]
    · intro kind' j
      unfold Allocated
      rw [hpool]
      by_cases he : kind' = kind
      · subst he
        rw [Function.update_self, handedOut_iff (release_freeList hf hi), handedOut_iff hf]
        have hc : (j : Int) = i ↔ j = i := by omega
        simp only [List.mem_cons, not_or, hc]
        tauto
      · rw [Function.update_of_ne he]
        simp [he]
  · refine absurd hi (hno i ?_)
    rw [blockAddress, hind.buffer, hind.itemSize]
    omega

end DisastrOS.Pool.Blocks
