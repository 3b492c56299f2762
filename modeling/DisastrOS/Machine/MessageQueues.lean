import DisastrOS.Machine.Semaphores

/-!
# Message queue system calls
-/
namespace DisastrOS.Machine.Kernel

/-- The loop of `internal_mqOpen` that gives the message queue its queues, with `n`
priorities left from `i` on. It inserts behind the last *message queue*. The flag is
false when an allocation fails; what was allocated before stays. -/
def addQueues (mq : Nat) : Int → Nat → Kernel → Bool × Kernel
  | _, 0, k => (true, k)
  | i, n + 1, k =>
    match k.queueAlloc i with
    | none => (false, k)
    | some (q, k) =>
      addQueues mq (i + 1) n (k.insert (.queues mq) (k.head .messageQueuesList).last ⟨.queue, q⟩)

/-- The end of `internal_mqOpen` for what `MessageQueueList_byId` has found. A queue has no
list of descriptors that the new one could go to. -/
def openFound (k : Kernel) (r : Nat) (x : Node) : Except Fault Kernel :=
  match castTo .messageQueue x, k.newItem .mqDescriptor, k.newItem .mqDescriptorPtr with
  | .error fault, some _, some _ => .error fault
  | _, _, _ => .ok (k.openDescriptor .mq r x.idx DSOS_EMQOPEN)

/-- `internal_mqOpen`. -/
def internalMqOpen (k : Kernel) : Except Fault Kernel := do
  let r ← deref k.running
  let id := toInt (k.arg r 0)
  let flags := toInt (k.arg r 1)
  let priority := toInt (k.arg r 2)
  if (k.pcb r).lastMqFd + 1 > MAX_NUM_MQDESCRIPTORS_PER_PROCESS then
    return k.setRetvalue r DSOS_EMQOPEN
  else if id < 0 then
    return k.setRetvalue r DSOS_EMQOPEN
  else
    match ← k.messageQueueListById .messageQueuesList id with
    | some x =>
      if hasFlag flags DSOS_CREATE ∧ hasFlag flags DSOS_EXCL then
        return k.setRetvalue r DSOS_EMQOPEN
      else
        k.openFound r x
    | none =>
      if hasFlag flags DSOS_CREATE then
        if (k.head .messageQueuesList).size + 1 > MAX_NUM_MQS then
          return k.setRetvalue r DSOS_EMQOPEN
        else if priority < 0 ∨ priority > MAX_NUM_QUEUES then
          return k.setRetvalue r DSOS_EMQOPEN
        else
          match k.messageQueueAlloc id priority with
          | none => return k.setRetvalue r DSOS_EMQOPEN
          | some (mq, k) =>
            match addQueues mq 0 (priority + 1).toNat k with
            | (false, k) => return k.setRetvalue r DSOS_EMQOPEN
            | (true, k) =>
              let k := k.append .messageQueuesList ⟨.messageQueue, mq⟩
              return k.openDescriptor .mq r mq DSOS_EMQOPEN
      else
        return k.setRetvalue r DSOS_EMQOPEN

/-- `internal_mqClose`. -/
def internalMqClose (k : Kernel) : Except Fault Kernel := do
  let r ← deref k.running
  let fd := toInt (k.arg r 0)
  if fdOutOfBounds fd MAX_NUM_MQDESCRIPTORS_PER_PROCESS then
    return k.setRetvalue r DSOS_EMQCLOSE
  else
    match ← k.boundTo .mq r fd with
    | none => return k.setRetvalue r DSOS_EMQCLOSE
    | some (d, mq) =>
      match k.closeDescriptor .mq r d mq with
      | (false, k) => return k.setRetvalue r DSOS_EMQCLOSE
      | (true, k) => return k.setRetvalue r 0

/-- The priority class a write goes to: every priority outside `0..max-1` is
normalised to `max`. -/
def effectivePriority (priority max : Int) : Int :=
  if priority < 0 ∨ priority > max - 1 then max else priority

/-- `internal_mqWrite`. -/
def internalMqWrite (k : Kernel) : Except Fault Kernel := do
  let r ← deref k.running
  let fd := toInt (k.arg r 0)
  let buf := k.arg r 1
  let bufSize := toInt (k.arg r 2)
  let priority := toInt (k.arg r 3)
  if fdOutOfBounds fd MAX_NUM_MQDESCRIPTORS_PER_PROCESS then
    return k.setRetvalue r DSOS_EMQWRITE
  else if buf = 0 then
    return k.setRetvalue r DSOS_EMQWRITE
  else if bufSize < 0 ∨ bufSize > MAX_MESSAGE_LENGTH then
    return k.setRetvalue r DSOS_EMQWRITE
  else
    match ← k.boundTo .mq r fd with
    | none => return k.setRetvalue r DSOS_EMQWRITE
    | some (_, mq) =>
      if (k.messageQueue mq).numMessages + 1 > MAX_NUM_MESSAGES_PER_MQ then
        return k.setRetvalue r 0
      else
        let priority := effectivePriority priority (k.messageQueue mq).priority
        match ← k.queueListByPriority (.queues mq) priority with
        | none => return k.setRetvalue r DSOS_EMQWRITE
        | some q =>
          match k.messageAlloc buf bufSize with
          | none => return k.setRetvalue r DSOS_EMQWRITE
          | some (m, k) =>
            let k := k.append (.messages q) ⟨.message, m⟩
            let k := k.modMessageQueue mq fun x => { x with numMessages := x.numMessages + 1 }
            return k.setRetvalue r priority

/-- The branch of `internal_mqRead` for a message that fits. One byte is copied. -/
def deliver (k : Kernel) (r mq m : Nat) (i buf priority : Int) : Except Fault Kernel := do
  let k := k.modMessageQueue mq fun x => { x with numMessages := x.numMessages - 1 }
  let c ← k.loadChar (k.message m).text
  let k ← k.storeChar buf c
  let k := k.releaseBlock .message m
  let k ← k.storeInt priority i
  return k.setRetvalue r (k.message m).textLength

/-- The loop of `internal_mqRead`, with `n` priorities left from `i` on. A message is
detached before its length is compared with the buffer. -/
def readClasses (r mq : Nat) (buf bufSize priority : Int) : Int → Nat → Kernel →
    Except Fault Kernel
  | _, 0, k => .ok (k.setRetvalue r 0)
  | i, n + 1, k => do
    match ← k.queueListByPriority (.queues mq) i with
    | none => return k.setRetvalue r DSOS_EMQREAD
    | some q =>
      if (k.head (.messages q)).size ≠ 0 then
        let (m, k) ← k.detachFirst (.messages q)
        if bufSize ≥ (k.message m).textLength then
          k.deliver r mq m i buf priority
        else
          readClasses r mq buf bufSize priority (i + 1) n k
      else
        readClasses r mq buf bufSize priority (i + 1) n k

/-- `internal_mqRead`. The loop runs over `0..mq.priority-1`. -/
def internalMqRead (k : Kernel) : Except Fault Kernel := do
  let r ← deref k.running
  let fd := toInt (k.arg r 0)
  let buf := k.arg r 1
  let bufSize := toInt (k.arg r 2)
  let priority := k.arg r 3
  if fdOutOfBounds fd MAX_NUM_MQDESCRIPTORS_PER_PROCESS then
    return k.setRetvalue r DSOS_EMQREAD
  else
    match ← k.boundTo .mq r fd with
    | none => return k.setRetvalue r DSOS_EMQREAD
    | some (_, mq) =>
      if (k.messageQueue mq).numMessages = 0 then
        return k.setRetvalue r 0
      else
        readClasses r mq buf bufSize priority 0 (k.messageQueue mq).priority.toNat k

/-- The loop of `internal_mqUnlink` that dismantles the queues. -/
def removeQueues (mq : Nat) : Nat → Kernel → Except Fault Kernel
  | 0, k => .ok k
  | n + 1, k => do
    let (q, k) ← k.detachFirst (.queues mq)
    if (k.head (.messages q)).size = 0 then
      let k ← k.queueFree q
      removeQueues mq n k
    else
      removeQueues mq n k

/-- `internal_mqUnlink`. -/
def internalMqUnlink (k : Kernel) : Except Fault Kernel := do
  let r ← deref k.running
  let id := toInt (k.arg r 0)
  match ← k.messageQueueListById .messageQueuesList id with
  | none => return k.setRetvalue r DSOS_EMQUNLINK
  | some x =>
    let mq ← castTo .messageQueue x
    if (k.messageQueue mq).numMessages ≠ 0 then
      return k.setRetvalue r DSOS_EMQUNLINK
    else if (k.head (.users .mq mq)).size ≠ 0 then
      return k.setRetvalue r DSOS_EMQUNLINK
    else
      let k := k.detach .messageQueuesList ⟨.messageQueue, mq⟩
      let k ← removeQueues mq ((k.messageQueue mq).priority + 1).toNat k
      let k ← k.messageQueueFree mq
      return k.setRetvalue r 0

end DisastrOS.Machine.Kernel
