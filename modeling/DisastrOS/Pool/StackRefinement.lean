import DisastrOS.Library.Simulation
import DisastrOS.Pool.BlockContract

/-!
# The allocator is a stack

To its clients the allocator is a stack of free indices: the first index is handed out, and a
block taken back goes on top. The threaded array cannot be told apart from it.
-/
namespace DisastrOS.Pool.StackRefinement

open DisastrOS.Machine
open DisastrOS.Library.GuardedRun
open DisastrOS.Pool.BlockContract

/-- What a call on the allocator answers. -/
inductive Reply where
  | block (b : Option Int)
  | result (r : PoolAllocatorResult)
  deriving DecidableEq

/-- A call on the C allocator. -/
def allocatorCall (a : PoolAllocator) : Call → Reply × PoolAllocator
  | .getBlock => (.block a.getBlock.1, a.getBlock.2)
  | .releaseBlock block => (.result (a.releaseBlock block).1, (a.releaseBlock block).2)

/-- The same call on a stack of free indices, for `n` blocks of `size` bytes at `base`. The
pointer taken back is any integer. Its offset is an `int`. -/
def stackCall (base size n : Int) (free : List Int) : Call → Reply × List Int
  | .getBlock => (.block (free.head?.map fun i => base + i * size), free.tail)
  | .releaseBlock block =>
      let offset := toInt (block - base)
      if ¬ size ∣ offset then (.result .UnalignedFree, free)
      else if offset / size < 0 ∨ n ≤ offset / size then (.result .OutOfRange, free)
      else if offset / size ∈ free then (.result .DoubleFree, free)
      else (.result .Success, offset / size :: free)

/-- The stack `free` is what the allocator's array stands for. -/
structure Represents (base size n : Int) (a : PoolAllocator) (free : List Int) : Prop where
  free : FreeList a free
  buffer : a.buffer = base
  itemSize : a.itemSize = size
  sizeMax : a.sizeMax = n

variable {a : PoolAllocator} {free : List Int} {base size n : Int}

theorem represents_getBlock (h : Represents base size n a free) :
    (allocatorCall a .getBlock).1 = (stackCall base size n free .getBlock).1 ∧
      Represents base size n (allocatorCall a .getBlock).2
        (stackCall base size n free .getBlock).2 := by
  cases free with
  | nil =>
    have hnone := getBlock_none h.free rfl
    unfold allocatorCall stackCall
    rw [hnone]
    exact ⟨rfl, h⟩
  | cons j js =>
    obtain ⟨i, rest, hcons, hblock, hbuffer, hitem, hmax, -, hrest⟩ :=
      getBlock_some h.free (List.cons_ne_nil j js)
    obtain ⟨rfl, rfl⟩ := List.cons.inj hcons
    constructor
    · show Reply.block a.getBlock.1 = _
      rw [hblock, blockAddress, h.buffer, h.itemSize]
      rfl
    · exact ⟨hrest, hbuffer.trans h.buffer, hitem.trans h.itemSize, hmax.trans h.sizeMax⟩

/-- Truncated and floored division agree where a pointer is aligned. -/
theorem aligned_iff (offset : Int) : offset.tmod size ≠ 0 ↔ ¬ size ∣ offset :=
  not_congr Int.dvd_iff_tmod_eq_zero.symm

theorem represents_releaseBlock (h : Represents base size n a free) (block : Int) :
    (allocatorCall a (.releaseBlock block)).1 =
        (stackCall base size n free (.releaseBlock block)).1 ∧
      Represents base size n (allocatorCall a (.releaseBlock block)).2
        (stackCall base size n free (.releaseBlock block)).2 := by
  obtain ⟨hf, rfl, rfl, rfl⟩ := h
  have h : Represents a.buffer a.itemSize a.sizeMax a free := ⟨hf, rfl, rfl, rfl⟩
  unfold allocatorCall stackCall PoolAllocator.releaseBlock
  simp only [aligned_iff]
  generalize toInt (block - a.buffer) = offset
  by_cases haligned : a.itemSize ∣ offset
  · rw [if_neg (not_not_intro haligned), if_neg (not_not_intro haligned),
      Int.tdiv_eq_ediv_of_dvd haligned]
    generalize offset / a.itemSize = i
    by_cases hrange : i < 0 ∨ a.sizeMax ≤ i
    · rw [if_pos hrange, if_pos hrange]
      exact ⟨rfl, h⟩
    · rw [if_neg hrange, if_neg hrange]
      have h0 : 0 ≤ i := by omega
      have hlt : i < a.sizeMax := by omega
      by_cases hfree : i ∈ free
      · have hlinked : a.freeList i ≠ DetachedIdx := fun he =>
          (hf.detached i h0 hlt).mp he hfree
        rw [if_pos hlinked, if_pos hfree]
        exact ⟨rfl, h⟩
      · have hdetached : a.freeList i = DetachedIdx := (hf.detached i h0 hlt).mpr hfree
        rw [if_neg (not_not_intro hdetached), if_neg hfree]
        exact ⟨rfl, release_freeList hf ⟨h0, hlt, hdetached⟩, rfl, rfl, rfl⟩
  · rw [if_pos haligned, if_pos haligned]
    exact ⟨rfl, h⟩

/-- However it is called, the allocator answers as the stack does that starts with all indices
in ascending order, and its array stands for that stack. -/
theorem allocator_refines_stack (a : PoolAllocator)
    (itemSize numItems memoryBlock memorySize : Int)
    (hi : 1 ≤ itemSize) (hn : 1 ≤ numItems)
    (hm : numItems * (itemSize + SIZEOF_INT) ≤ memorySize) (hint : memorySize < 2 ^ 31)
    (calls : List Call) :
    let start := PoolAllocator.init a itemSize numItems memoryBlock memorySize
    let stack := stackCall memoryBlock itemSize numItems
    (answers allocatorCall start.2 calls).1 =
        (answers stack (ascending 0 numItems.toNat) calls).1 ∧
      FreeList (answers allocatorCall start.2 calls).2
        (answers stack (ascending 0 numItems.toNat) calls).2 := by
  obtain ⟨a₀, hinit, hbuffer, hitem, hmax, hfree⟩ :=
    init_freeList a itemSize numItems memoryBlock memorySize hi hn hm hint
  have hstart : Represents memoryBlock itemSize numItems a₀ (ascending 0 numItems.toNat) :=
    ⟨hfree, hbuffer, hitem, hmax⟩
  have hstep : ∀ a free c, Represents memoryBlock itemSize numItems a free →
      (allocatorCall a c).1 = (stackCall memoryBlock itemSize numItems free c).1 ∧
        Represents memoryBlock itemSize numItems (allocatorCall a c).2
          (stackCall memoryBlock itemSize numItems free c).2 := by
    intro a free c h
    cases c with
    | getBlock => exact represents_getBlock h
    | releaseBlock block => exact represents_releaseBlock h block
  rw [hinit]
  obtain ⟨hanswers, hfinal⟩ := answers_eq hstep calls hstart
  exact ⟨hanswers, hfinal.free⟩

/-- Three blocks run out, one is taken back in vain, one for good, and comes again. -/
theorem allocator_refines_stack_three :
    let calls := [Call.getBlock, .getBlock, .getBlock, .getBlock, .releaseBlock 1009,
      .releaseBlock 984, .releaseBlock 1008, .releaseBlock 1008, .getBlock]
    let start := (PoolAllocator.init {} 8 3 1000 36).2
    (answers allocatorCall start calls).1 =
        [.block (some 1000), .block (some 1008), .block (some 1016), .block none,
          .result .UnalignedFree, .result .OutOfRange, .result .Success, .result .DoubleFree,
          .block (some 1008)] ∧
      FreeList (answers allocatorCall start calls).2 [] := by
  intro calls start
  obtain ⟨hanswers, hfree⟩ := allocator_refines_stack {} 8 3 1000 36 (by decide) (by decide)
    (by decide) (by decide) calls
  exact ⟨hanswers.trans (by decide), hfree⟩

end DisastrOS.Pool.StackRefinement
