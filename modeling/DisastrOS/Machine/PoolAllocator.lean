import Mathlib.Algebra.Order.Ring.Int

/-!
# The pool allocator

One contiguous buffer is cut into `size_max` blocks of `item_size` bytes. The
unused blocks form a list threaded through an index array that is stored behind
the buffer. Addresses are integers; a NULL result is `none`.
-/
namespace DisastrOS.Machine

def NullIdx : Int := -1
def DetachedIdx : Int := -2

/-- `sizeof(int)`. -/
def SIZEOF_INT : Int := 4

/-- Conversion of a wider integer to a 32-bit `int`. -/
def toInt (x : Int) : Int := x.bmod (2 ^ 32)

theorem toInt_of_fits {x : Int} (h : -2 ^ 31 ≤ x) (h' : x < 2 ^ 31) : toInt x = x := by
  unfold toInt
  exact Int.bmod_eq_of_le (by omega) (by omega)

inductive PoolAllocatorResult where
  | Success | NotEnoughMemory | UnalignedFree | OutOfRange | DoubleFree
  deriving DecidableEq

structure PoolAllocator where
  /-- address of the managed buffer -/
  buffer : Int := 0
  /-- successor of every free block, or a sentinel -/
  freeList : Int → Int := fun _ => 0
  bufferSize : Int := 0
  /-- number of free blocks -/
  size : Int := 0
  sizeMax : Int := 0
  itemSize : Int := 0
  /-- first free block -/
  firstIdx : Int := 0

namespace PoolAllocator

/-- `for (i=0; i<n; ++i) free_list[i]=i+1;` -/
def linkAscending : Nat → (Int → Int) → Int → Int
  | 0, freeList => freeList
  | n + 1, freeList => Function.update (linkAscending n freeList) n (n + 1)

/-- `PoolAllocator_init`. The size check is computed in `size_t` and stored in an
`int`; the array behind the buffer keeps whatever it held beyond the blocks. -/
def init (a : PoolAllocator) (itemSize numItems memoryBlock memorySize : Int) :
    PoolAllocatorResult × PoolAllocator :=
  let requestedSize := toInt (numItems * (itemSize + SIZEOF_INT))
  if memorySize < requestedSize then (.NotEnoughMemory, a)
  else
    let linked := linkAscending (numItems - 1).toNat a.freeList
    (.Success,
      { buffer := memoryBlock
        freeList := Function.update linked (numItems - 1) NullIdx
        bufferSize := itemSize * numItems
        size := numItems
        sizeMax := numItems
        itemSize := itemSize
        firstIdx := 0 })

/-- `PoolAllocator_getBlock`. -/
def getBlock (a : PoolAllocator) : Option Int × PoolAllocator :=
  if a.firstIdx = -1 then (none, a)
  else
    let detachedIdx := a.firstIdx
    (some (a.buffer + detachedIdx * a.itemSize),
      { a with
        firstIdx := a.freeList a.firstIdx
        size := a.size - 1
        freeList := Function.update a.freeList detachedIdx DetachedIdx })

/-- `PoolAllocator_releaseBlock`. Division and remainder round towards zero. -/
def releaseBlock (a : PoolAllocator) (block : Int) : PoolAllocatorResult × PoolAllocator :=
  let offset := toInt (block - a.buffer)
  if offset.tmod a.itemSize ≠ 0 then (.UnalignedFree, a)
  else
    let idx := offset.tdiv a.itemSize
    if idx < 0 ∨ idx ≥ a.sizeMax then (.OutOfRange, a)
    else if a.freeList idx ≠ DetachedIdx then (.DoubleFree, a)
    else
      (.Success,
        { a with
          freeList := Function.update a.freeList idx a.firstIdx
          firstIdx := idx
          size := a.size + 1 })

end PoolAllocator

end DisastrOS.Machine
