import DisastrOS.Machine.Constants
import DisastrOS.Machine.LinkedList
import DisastrOS.Machine.PoolAllocator

/-!
# The kernel state

Objects live in the blocks of fourteen pools and are named by their block index.
The list item at the start of every object and the list heads stored inside the
objects are kept in one list memory. User memory is a map from addresses to bytes.
-/
namespace DisastrOS.Machine

open DisastrOS.Library.LinkedSequence

/-- Why a kernel step does not complete. -/
inductive Fault where
  /-- a pointer of the kernel is NULL -/
  | nullDereference
  /-- user memory is accessed through NULL -/
  | badAddress
  | assertionFailed
  | endlessLoop
  /-- an object is accessed through a pointer to another structure type -/
  | typeConfusion
  /-- overflow of a signed addition, which C leaves undefined -/
  | signedOverflow
  /-- an index beyond a static array -/
  | outOfBounds
  /-- a switch to a `cpu_state` in which there has never been a context -/
  | noContext
  /-- control went back to `main_context` to end the program -/
  | shutdown
  /-- control cannot go back to `main_context`, since a process runs -/
  | notIdle
  deriving DecidableEq

/-- The pools, one for each object type. -/
inductive Kind where
  | pcb | pcbPtr | timerItem | resource | descriptor | descriptorPtr
  | semaphore | semDescriptor | semDescriptorPtr
  | messageQueue | queue | message | mqDescriptor | mqDescriptorPtr
  deriving DecidableEq

/-- The value of a `ListItem*`: the object that starts with the item. -/
structure Node where
  kind : Kind
  idx : Nat
  deriving DecidableEq

/-- The three descriptor tables. They have the same shape: a process lists its
descriptors, an object lists pointers to the descriptors opened on it. -/
inductive Table where
  | resource | semaphore | mq
  deriving DecidableEq

/-- The value of a `ListHead*`: a global variable or a field of an object. -/
inductive HeadAddr where
  | readyList | waitingList | zombieList | timerList
  | resourcesList | semaphoresList | messageQueuesList
  /-- `children` of a PCB -/
  | children (p : Nat)
  /-- `descriptors`, `sem_descriptors` or `mq_descriptors` of a PCB -/
  | opened (t : Table) (p : Nat)
  /-- `descriptors` of a `Resource`, `Semaphore` or `MessageQueue` -/
  | users (t : Table) (o : Nat)
  /-- `waiting_descriptors` of a `Semaphore` -/
  | waitingDescriptors (s : Nat)
  /-- `queues` of a `MessageQueue` -/
  | queues (mq : Nat)
  /-- `messages` of a `Queue` -/
  | messages (q : Nat)
  deriving DecidableEq

/-- The pool of the descriptors of a table. -/
def Table.descriptorKind : Table → Kind
  | .resource => .descriptor
  | .semaphore => .semDescriptor
  | .mq => .mqDescriptor

/-- The pool of the descriptor pointers of a table. -/
def Table.pointerKind : Table → Kind
  | .resource => .descriptorPtr
  | .semaphore => .semDescriptorPtr
  | .mq => .mqDescriptorPtr

/-- The type of the objects that the kernel puts in a list. -/
def HeadAddr.nodeKind : HeadAddr → Kind
  | .readyList | .waitingList | .zombieList => .pcb
  | .timerList => .timerItem
  | .resourcesList => .resource
  | .semaphoresList => .semaphore
  | .messageQueuesList => .messageQueue
  | .children _ => .pcbPtr
  | .opened t _ => t.descriptorKind
  | .users t _ => t.pointerKind
  | .waitingDescriptors _ => .semDescriptorPtr
  | .queues _ => .queue
  | .messages _ => .message

inductive ProcessStatus where
  | Invalid | Created | Running | Ready | Waiting | Suspended | Zombie
  deriving DecidableEq

/-- A process, without its list item, its list heads, its stack and what its saved
context holds. -/
structure PCB where
  pid : Int := 0
  returnValue : Int := 0
  status : ProcessStatus := .Created
  signals : BitVec 32 := 0
  signalsMask : BitVec 32 := 0
  parent : Option Nat := none
  /-- a context has been made in `cpu_state` -/
  cpuState : Bool := false
  timer : Option Nat := none
  lastFd : Int := 0
  lastSemFd : Int := 0
  lastMqFd : Int := 0
  syscallNum : Int := 0
  syscallArgs : Nat → Int := fun _ => 0
  syscallRetvalue : Int := 0

structure TimerItem where
  awakeningTime : Int := 0
  pcb : Option Nat := none

structure Resource where
  id : Int := 0
  type : Int := 0

structure Semaphore where
  id : Int := 0
  count : Int := 0

structure MessageQueue where
  id : Int := 0
  priority : Int := 0
  numMessages : Int := 0

structure Queue where
  priority : Int := 0

structure Message where
  textLength : Int := 0
  /-- address of the text in user memory -/
  text : Int := 0

/-- `Descriptor`, `SemDescriptor` or `MQDescriptor`; `object` is the field
`resource`, `semaphore` or `mq`. -/
structure Descriptor where
  pcb : Option Nat := none
  object : Option Nat := none
  fd : Int := 0
  ptr : Option Nat := none

structure Kernel where
  lists : ListMem Node HeadAddr
  pool : Kind → PoolAllocator
  pcb : Nat → PCB
  /-- the field `pcb` of a `PCBPtr` -/
  pcbPtr : Nat → Option Nat
  timerItem : Nat → TimerItem
  resource : Nat → Resource
  semaphore : Nat → Semaphore
  messageQueue : Nat → MessageQueue
  queue : Nat → Queue
  message : Nat → Message
  descriptor : Table → Nat → Descriptor
  /-- the field `descriptor` of a descriptor pointer -/
  descriptorPtr : Table → Nat → Option Nat
  running : Option Nat
  initPcb : Option Nat
  lastPid : Int
  disastrOSTime : Int
  /-- user memory; the address 0 is NULL -/
  mem : Int → UInt8

/-- Static storage before `disastrOS_start`. -/
def Kernel.zeroed (mem : Int → UInt8) : Kernel where
  lists := { item := fun _ => ⟨none, none⟩, head := fun _ => ⟨none, none, 0⟩ }
  pool _ := {}
  pcb _ := {}
  pcbPtr _ := none
  timerItem _ := {}
  resource _ := {}
  semaphore _ := {}
  messageQueue _ := {}
  queue _ := {}
  message _ := {}
  descriptor _ _ := {}
  descriptorPtr _ _ := none
  running := none
  initPcb := none
  lastPid := 0
  disastrOSTime := 0
  mem := mem

/-- Reading through a pointer that may be NULL. -/
def deref {α : Type} : Option α → Except Fault α
  | none => .error .nullDereference
  | some a => .ok a

/-- `a + b` in `int`. -/
def addInt (a b : Int) : Except Fault Int :=
  if -2 ^ 31 ≤ a + b ∧ a + b < 2 ^ 31 then .ok (a + b) else .error .signedOverflow

/-- Using a list item as the object of type `kind` that it starts. -/
def castTo (kind : Kind) (n : Node) : Except Fault Nat :=
  if n.kind = kind then .ok n.idx else .error .typeConfusion

theorem deref_eq_ok {α : Type} {o : Option α} {a : α} : deref o = .ok a ↔ o = some a := by
  cases o <;> simp [deref]

theorem addInt_eq_ok {a b c : Int} :
    addInt a b = .ok c ↔ (-2 ^ 31 ≤ a + b ∧ a + b < 2 ^ 31) ∧ a + b = c := by
  unfold addInt
  split
  · next h => rw [Except.ok.injEq, and_iff_right h]
  · next h => exact iff_of_false (fun he => nomatch he) fun hc => h hc.1

theorem castTo_eq_ok {kind : Kind} {n : Node} {i : Nat} :
    castTo kind n = .ok i ↔ n = ⟨kind, i⟩ := by
  unfold castTo
  cases n
  split <;> simp_all

/-- More iterations than there are blocks in all pools: a loop that visits or
consumes a new list item each time and reaches this bound never ends. -/
def LOOP_BOUND : Nat := 20000

namespace Kernel

/-! ## List operations -/

def head (k : Kernel) (l : HeadAddr) : Ends Node := k.lists.head l

def initList (k : Kernel) (l : HeadAddr) : Kernel := { k with lists := listInit k.lists l }

/-- `List_insert`; every caller ignores the result. -/
def insert (k : Kernel) (l : HeadAddr) (prev : Option Node) (item : Node) : Kernel :=
  { k with lists := (listInsert k.lists l prev item).2 }

/-- `List_insert(head, head->last, item)`. -/
def append (k : Kernel) (l : HeadAddr) (item : Node) : Kernel :=
  k.insert l (k.head l).last item

/-- `List_detach`. -/
def detach (k : Kernel) (l : HeadAddr) (item : Node) : Kernel :=
  { k with lists := listDetach k.lists l item }

/-- `(T*) List_detach(head, head->first)`, used as an object of the list's type. -/
def detachFirst (k : Kernel) (l : HeadAddr) : Except Fault (Nat × Kernel) := do
  let item ← deref (k.head l).first
  let i ← castTo l.nodeKind item
  return (i, k.detach l item)

/-- `while (aux) { if (p(aux)) return aux; aux=aux->next; }` over objects of the
type `kind`. -/
def searchFrom (k : Kernel) (kind : Kind) (p : Nat → Except Fault Bool) :
    Nat → Option Node → Except Fault (Option Nat)
  | 0, _ => .error .endlessLoop
  | _ + 1, none => .ok none
  | fuel + 1, some item => do
    let i ← castTo kind item
    if ← p i then return some i
    searchFrom k kind p fuel (k.lists.item item).next

/-- The search loop from the first item of a list. -/
def search (k : Kernel) (l : HeadAddr) (p : Nat → Except Fault Bool) :
    Except Fault (Option Nat) :=
  k.searchFrom l.nodeKind p LOOP_BOUND (k.head l).first

/-! ## Blocks -/

/-- `PoolAllocator_getBlock` on the pool of a type, addresses counted in blocks. -/
def getBlock (k : Kernel) (kind : Kind) : Option (Nat × Kernel) :=
  match (k.pool kind).getBlock with
  | (none, _) => none
  | (some block, a) => some (block.toNat, { k with pool := Function.update k.pool kind a })

/-- `PoolAllocator_releaseBlock`; every caller ignores the result. -/
def releaseBlock (k : Kernel) (kind : Kind) (i : Nat) : Kernel :=
  { k with pool := Function.update k.pool kind ((k.pool kind).releaseBlock i).2 }

/-- `x->list.prev = x->list.next = 0;` -/
def clearItem (k : Kernel) (n : Node) : Kernel :=
  { k with lists := { k.lists with item := Function.update k.lists.item n ⟨none, none⟩ } }

/-- A block with `x->list.prev = x->list.next = 0`: how every object is allocated. -/
def newItem (k : Kernel) (kind : Kind) : Option (Nat × Kernel) :=
  match k.getBlock kind with
  | none => none
  | some (i, k) => some (i, k.clearItem ⟨kind, i⟩)

/-! ## Fields -/

def modPcb (k : Kernel) (p : Nat) (f : PCB → PCB) : Kernel :=
  { k with pcb := Function.update k.pcb p (f (k.pcb p)) }

def setStatus (k : Kernel) (p : Nat) (s : ProcessStatus) : Kernel :=
  k.modPcb p fun q => { q with status := s }

def setRetvalue (k : Kernel) (p : Nat) (v : Int) : Kernel :=
  k.modPcb p fun q => { q with syscallRetvalue := v }

@[simp]
theorem setRetvalue_self (k : Kernel) (p : Nat) (v : Int) :
    ((k.setRetvalue p v).pcb p).syscallRetvalue = v := by
  simp [setRetvalue, modPcb]

/-- `p->signals |= (sig & p->signals_mask);` -/
def signal (k : Kernel) (p : Nat) (sig : BitVec 32) : Kernel :=
  k.modPcb p fun q => { q with signals := q.signals ||| (sig &&& q.signalsMask) }

def modSemaphore (k : Kernel) (s : Nat) (f : Semaphore → Semaphore) : Kernel :=
  { k with semaphore := Function.update k.semaphore s (f (k.semaphore s)) }

def modMessageQueue (k : Kernel) (m : Nat) (f : MessageQueue → MessageQueue) : Kernel :=
  { k with messageQueue := Function.update k.messageQueue m (f (k.messageQueue m)) }

def setDescriptor (k : Kernel) (t : Table) (d : Nat) (v : Descriptor) : Kernel :=
  { k with
    descriptor := Function.update k.descriptor t (Function.update (k.descriptor t) d v) }

def setDescriptorPtr (k : Kernel) (t : Table) (d : Nat) (v : Option Nat) : Kernel :=
  { k with
    descriptorPtr := Function.update k.descriptorPtr t (Function.update (k.descriptorPtr t) d v) }

/-! ## User memory -/

/-- `*addr = v;` for a `char`. -/
def storeChar (k : Kernel) (addr : Int) (v : UInt8) : Except Fault Kernel :=
  if addr = 0 then .error .badAddress
  else .ok { k with mem := Function.update k.mem addr v }

/-- `*addr` for a `char`. -/
def loadChar (k : Kernel) (addr : Int) : Except Fault UInt8 :=
  if addr = 0 then .error .badAddress else .ok (k.mem addr)

/-- Byte `j` of the 32-bit representation of `v`. -/
def byteOf (v : Int) (j : Nat) : UInt8 := UInt8.ofNat ((v / 256 ^ j) % 256).toNat

/-- `*addr = v;` for an `int`, least significant byte first. -/
def storeInt (k : Kernel) (addr v : Int) : Except Fault Kernel :=
  if addr = 0 then .error .badAddress
  else .ok { k with mem := fun a =>
    if addr ≤ a ∧ a < addr + 4 then byteOf v (a - addr).toNat else k.mem a }

theorem loadChar_eq_ok {k : Kernel} {addr : Int} {c : UInt8} :
    k.loadChar addr = .ok c ↔ addr ≠ 0 ∧ k.mem addr = c := by
  unfold loadChar
  split
  · next h => simp [h]
  · next h => simp [h]

theorem storeChar_eq_ok {k k' : Kernel} {addr : Int} {v : UInt8} :
    k.storeChar addr v = .ok k' ↔
      addr ≠ 0 ∧ { k with mem := Function.update k.mem addr v } = k' := by
  unfold storeChar
  split
  · next h => simp [h]
  · next h => simp [h]

theorem storeInt_eq_ok {k k' : Kernel} {addr v : Int} :
    k.storeInt addr v = .ok k' ↔ addr ≠ 0 ∧ { k with
      mem := fun a =>
        if addr ≤ a ∧ a < addr + 4 then byteOf v (a - addr).toNat else k.mem a } = k' := by
  unfold storeInt
  split
  · next h => simp [h]
  · next h => simp [h]

/-- `if (result) *result = v;` -/
def storeResult (k : Kernel) (result v : Int) : Except Fault Kernel :=
  if result ≠ 0 then k.storeInt result v else .ok k

/-- The `int` stored at `addr`. -/
def intAt (k : Kernel) (addr : Int) : Int :=
  toInt ((k.mem addr).toNat + 256 * (k.mem (addr + 1)).toNat +
    65536 * (k.mem (addr + 2)).toNat + 16777216 * (k.mem (addr + 3)).toNat)

theorem toNat_byteOf {v : Int} (j : Nat) : ((byteOf v j).toNat : Int) = v / 256 ^ j % 256 := by
  have h0 : 0 ≤ v / 256 ^ j % 256 := Int.emod_nonneg _ (by decide)
  have hlt : v / 256 ^ j % 256 < 256 := Int.emod_lt_of_pos _ (by decide)
  have hnat : (v / 256 ^ j % 256).toNat < UInt8.size := by
    unfold UInt8.size
    omega
  rw [byteOf, UInt8.toNat_ofNat_of_lt' hnat]
  exact Int.toNat_of_nonneg h0

/-- Reading back the bytes of a non-negative `int`. -/
theorem intAt_of_bytes {k : Kernel} {addr v : Int} (h0 : 0 ≤ v) (hlt : v < 2 ^ 31)
    (h : ∀ j : Nat, j < 4 → k.mem (addr + j) = byteOf v j) : k.intAt addr = v := by
  have b0 : k.mem addr = byteOf v 0 := by simpa using h 0 (by decide)
  have b1 : k.mem (addr + 1) = byteOf v 1 := h 1 (by decide)
  have b2 : k.mem (addr + 2) = byteOf v 2 := h 2 (by decide)
  have b3 : k.mem (addr + 3) = byteOf v 3 := h 3 (by decide)
  unfold intAt
  rw [b0, b1, b2, b3, toNat_byteOf, toNat_byteOf, toNat_byteOf, toNat_byteOf,
    toInt_of_fits (by omega) (by omega)]
  omega

end Kernel

end DisastrOS.Machine
