import DisastrOS.Machine.State

/-!
# Allocation and lookup of kernel objects

Fields that an allocation function does not write keep what the block held before.
-/
namespace DisastrOS.Machine

/-- `last_fd`, `last_sem_fd` or `last_mq_fd`. -/
def PCB.fdCounter (p : PCB) : Table → Int
  | .resource => p.lastFd
  | .semaphore => p.lastSemFd
  | .mq => p.lastMqFd

def PCB.setFdCounter (p : PCB) (t : Table) (v : Int) : PCB :=
  match t with
  | .resource => { p with lastFd := v }
  | .semaphore => { p with lastSemFd := v }
  | .mq => { p with lastMqFd := v }

namespace Kernel

/-- `syscall_args[i]` of a process. -/
def arg (k : Kernel) (p i : Nat) : Int := (k.pcb p).syscallArgs i

/-! ## Processes -/

/-- `PCB_alloc`. It writes through the block before any caller can test it for
NULL, empties `descriptors` twice and leaves `sem_descriptors` as it was. -/
def pcbAlloc (k : Kernel) : Except Fault (Nat × Kernel) := do
  let (p, k) ← deref (k.newItem .pcb)
  let next ← addInt k.lastPid 1
  let k := k.modPcb p fun q =>
    { q with
      pid := k.lastPid
      returnValue := 0
      lastFd := 0
      signals := 0
      signalsMask := 0xFFFFFFFF
      status := .Invalid
      parent := none
      timer := none
      lastSemFd := 0
      lastMqFd := 0 }
  let k := k.initList (.opened .resource p)
  let k := k.initList (.children p)
  let k := k.initList (.opened .resource p)
  let k := k.initList (.opened .mq p)
  return (p, { k with lastPid := next })

/-- `PCBPtr_alloc`, with the same missing test. -/
def pcbPtrAlloc (k : Kernel) (pcb : Nat) : Except Fault (Nat × Kernel) := do
  let (i, k) ← deref (k.newItem .pcbPtr)
  return (i, { k with pcbPtr := Function.update k.pcbPtr i (some pcb) })

/-- `PCBPtr_byPID`. -/
def pcbPtrByPID (k : Kernel) (l : HeadAddr) (pid : Int) : Except Fault (Option Nat) :=
  k.search l fun i => do
    let p ← deref (k.pcbPtr i)
    return (k.pcb p).pid = pid

/-- `TimerItem_alloc`. -/
def timerItemAlloc (k : Kernel) (awakeningTime : Int) (pcb : Nat) : Option (Nat × Kernel) :=
  match k.newItem .timerItem with
  | none => none
  | some (i, k) =>
    some (i, { k with
      timerItem := Function.update k.timerItem i ⟨awakeningTime, some pcb⟩ })

/-! ## Resources, semaphores, message queues -/

/-- `Resource_alloc`. -/
def resourceAlloc (k : Kernel) (id type : Int) : Option (Nat × Kernel) :=
  match k.newItem .resource with
  | none => none
  | some (i, k) =>
    let k := { k with resource := Function.update k.resource i ⟨id, type⟩ }
    some (i, k.initList (.users .resource i))

/-- `Semaphore_alloc`. Only `descriptors` is initialised, `waiting_descriptors` is not. -/
def semaphoreAlloc (k : Kernel) (id count : Int) : Option (Nat × Kernel) :=
  match k.newItem .semaphore with
  | none => none
  | some (i, k) =>
    let k := { k with semaphore := Function.update k.semaphore i ⟨id, count⟩ }
    some (i, k.initList (.users .semaphore i))

/-- `MessageQueue_alloc`. -/
def messageQueueAlloc (k : Kernel) (id priority : Int) : Option (Nat × Kernel) :=
  match k.newItem .messageQueue with
  | none => none
  | some (i, k) =>
    let k := { k with messageQueue := Function.update k.messageQueue i ⟨id, priority, 0⟩ }
    some (i, (k.initList (.queues i)).initList (.users .mq i))

/-- `Queue_alloc`. -/
def queueAlloc (k : Kernel) (priority : Int) : Option (Nat × Kernel) :=
  match k.newItem .queue with
  | none => none
  | some (i, k) =>
    let k := { k with queue := Function.update k.queue i ⟨priority⟩ }
    some (i, k.initList (.messages i))

/-- `Message_alloc`. The text is not copied, the block keeps the caller's pointer. -/
def messageAlloc (k : Kernel) (text textLength : Int) : Option (Nat × Kernel) :=
  match k.newItem .message with
  | none => none
  | some (i, k) =>
    some (i, { k with message := Function.update k.message i ⟨textLength, text⟩ })

/-- The assertions of `Resource_free`, `Semaphore_free` and `MessageQueue_free`
before they release the block. -/
def freeUnused (k : Kernel) (l : HeadAddr) (kind : Kind) (i : Nat) : Except Fault Kernel :=
  if (k.head l).first = none ∧ (k.head l).last = none then .ok (k.releaseBlock kind i)
  else .error .assertionFailed

/-- `Resource_free`. -/
def resourceFree (k : Kernel) (i : Nat) : Except Fault Kernel :=
  k.freeUnused (.users .resource i) .resource i

/-- `Semaphore_free`. -/
def semaphoreFree (k : Kernel) (i : Nat) : Except Fault Kernel :=
  k.freeUnused (.users .semaphore i) .semaphore i

/-- `MessageQueue_free`. -/
def messageQueueFree (k : Kernel) (i : Nat) : Except Fault Kernel :=
  k.freeUnused (.users .mq i) .messageQueue i

/-- `Queue_free`. -/
def queueFree (k : Kernel) (i : Nat) : Except Fault Kernel :=
  k.freeUnused (.messages i) .queue i

/-- `ResourceList_byId`. -/
def resourceListById (k : Kernel) (l : HeadAddr) (id : Int) : Except Fault (Option Nat) :=
  k.search l fun i => .ok ((k.resource i).id = id)

/-- `SemaphoreList_byId`. -/
def semaphoreListById (k : Kernel) (l : HeadAddr) (id : Int) : Except Fault (Option Nat) :=
  k.search l fun i => .ok ((k.semaphore i).id = id)

/-- The int at the offset of `id` in a `MessageQueue`, which is that of `priority` in a
`Queue`. -/
def intAtId (k : Kernel) (x : Node) : Except Fault Int :=
  match x.kind with
  | .messageQueue => .ok (k.messageQueue x.idx).id
  | .queue => .ok (k.queue x.idx).priority
  | _ => .error .typeConfusion

/-- The loop of `MessageQueueList_byId`. -/
def findById (k : Kernel) (id : Int) : Nat → Option Node → Except Fault (Option Node)
  | 0, _ => .error .endlessLoop
  | _ + 1, none => .ok none
  | fuel + 1, some item => do
    if (← k.intAtId item) = id then return some item
    findById k id fuel (k.lists.item item).next

/-- `MessageQueueList_byId`. What it returns may be a queue, as `internal_mqOpen` links
queues into the list of message queues. -/
def messageQueueListById (k : Kernel) (l : HeadAddr) (id : Int) : Except Fault (Option Node) :=
  k.findById id LOOP_BOUND (k.head l).first

/-- `QueueList_byPriority`. -/
def queueListByPriority (k : Kernel) (l : HeadAddr) (priority : Int) :
    Except Fault (Option Nat) :=
  k.search l fun i => .ok ((k.queue i).priority = priority)

/-! ## Descriptors -/

/-- `Descriptor_alloc`, `SemDescriptor_alloc` and `MQDescriptor_alloc`. The field
`ptr` keeps its old value. -/
def descriptorAlloc (k : Kernel) (t : Table) (fd : Int) (object pcb : Nat) :
    Option (Nat × Kernel) :=
  match k.newItem t.descriptorKind with
  | none => none
  | some (d, k) =>
    some (d, k.setDescriptor t d
      { pcb := some pcb, object := some object, fd := fd, ptr := (k.descriptor t d).ptr })

/-- `DescriptorPtr_alloc`, `SemDescriptorPtr_alloc` and `MQDescriptorPtr_alloc`. -/
def descriptorPtrAlloc (k : Kernel) (t : Table) (d : Nat) : Option (Nat × Kernel) :=
  match k.newItem t.pointerKind with
  | none => none
  | some (i, k) => some (i, k.setDescriptorPtr t i (some d))

/-- `DescriptorList_byFd`, `SemDescriptorList_byFd` and `MQDescriptorList_byFd`. -/
def descriptorListByFd (k : Kernel) (t : Table) (l : HeadAddr) (fd : Int) :
    Except Fault (Option Nat) :=
  k.search l fun d => .ok ((k.descriptor t d).fd = fd)

/-- The descriptor that `fd` names in process `p`, with the object it is bound to;
`none` where the callers report an error. -/
def boundTo (k : Kernel) (t : Table) (p : Nat) (fd : Int) : Except Fault (Option (Nat × Nat)) := do
  match ← k.descriptorListByFd t (.opened t p) fd with
  | none => return none
  | some d => return (k.descriptor t d).object.map fun o => (d, o)

/-- The common end of `internal_semOpen` and `internal_mqOpen`: a descriptor and its
pointer for an object that is there. -/
def openDescriptor (k : Kernel) (t : Table) (p object : Nat) (err : Int) : Kernel :=
  match k.descriptorAlloc t ((k.pcb p).fdCounter t) object p with
  | none => k.setRetvalue p err
  | some (d, k) =>
    match k.descriptorPtrAlloc t d with
    | none => k.setRetvalue p err
    | some (ptr, k) =>
      let k := k.setDescriptor t d { k.descriptor t d with ptr := some ptr }
      let k := k.append (.opened t p) ⟨t.descriptorKind, d⟩
      let k := k.append (.users t object) ⟨t.pointerKind, ptr⟩
      let k := k.modPcb p fun q => q.setFdCounter t (q.fdCounter t + 1)
      k.setRetvalue p ((k.pcb p).fdCounter t - 1)

/-- The common part of `internal_semClose` and `internal_mqClose`: the descriptor
`d` on `object` is taken out of both lists and freed. The flag is false on the
error exit. -/
def closeDescriptor (k : Kernel) (t : Table) (p d object : Nat) : Bool × Kernel :=
  let k := k.detach (.opened t p) ⟨t.descriptorKind, d⟩
  match (k.descriptor t d).ptr with
  | none => (false, k)
  | some ptr =>
    let k := k.detach (.users t object) ⟨t.pointerKind, ptr⟩
    let k := k.releaseBlock t.descriptorKind d
    let k := k.releaseBlock t.pointerKind ptr
    (true, k.modPcb p fun q => q.setFdCounter t (q.fdCounter t - 1))

end Kernel

end DisastrOS.Machine
