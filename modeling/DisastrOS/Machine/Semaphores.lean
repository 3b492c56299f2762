import DisastrOS.Machine.Objects

/-!
# Semaphore system calls
-/
namespace DisastrOS.Machine.Kernel

/-- The bounds test on a file descriptor that the semaphore and message queue
calls start with. -/
def fdOutOfBounds (fd max : Int) : Bool := fd < 0 ∨ fd > max

/-- `internal_semOpen`. The count is an `unsigned int`, which makes its sign test
vacuous, and becomes an `int` in `Semaphore_alloc`. -/
def internalSemOpen (k : Kernel) : Except Fault Kernel := do
  let r ← deref k.running
  let id := toInt (k.arg r 0)
  let flags := toInt (k.arg r 1)
  let count := k.arg r 2 % 2 ^ 32
  if (k.pcb r).lastSemFd + 1 > MAX_NUM_SEMDESCRIPTORS_PER_PROCESS then
    return k.setRetvalue r DSOS_ESEMAPHOREOPEN
  else if id < 0 then
    return k.setRetvalue r DSOS_ESEMAPHOREOPEN
  else if count < 0 then
    return k.setRetvalue r DSOS_ESEMAPHOREOPEN
  else
    match ← k.semaphoreListById .semaphoresList id with
    | some sem =>
      if hasFlag flags DSOS_CREATE ∧ hasFlag flags DSOS_EXCL then
        return k.setRetvalue r DSOS_ESEMAPHOREOPEN
      else
        return k.openDescriptor .semaphore r sem DSOS_ESEMAPHOREOPEN
    | none =>
      if hasFlag flags DSOS_CREATE then
        if (k.head .semaphoresList).size + 1 > MAX_NUM_SEMAPHORES then
          return k.setRetvalue r DSOS_ESEMAPHOREOPEN
        else
          match k.semaphoreAlloc id (toInt count) with
          | none => return k.setRetvalue r DSOS_ESEMAPHOREOPEN
          | some (sem, k) =>
            let k := k.append .semaphoresList ⟨.semaphore, sem⟩
            return k.openDescriptor .semaphore r sem DSOS_ESEMAPHOREOPEN
      else
        return k.setRetvalue r DSOS_ESEMAPHOREOPEN

/-- `internal_semWait`. A caller that blocks keeps its status, and gets no return
value here. -/
def internalSemWait (k : Kernel) : Except Fault Kernel := do
  let r ← deref k.running
  let fd := toInt (k.arg r 0)
  if fdOutOfBounds fd MAX_NUM_SEMDESCRIPTORS_PER_PROCESS then
    return k.setRetvalue r DSOS_ESEMAPHOREWAIT
  else
    match ← k.boundTo .semaphore r fd with
    | none => return k.setRetvalue r DSOS_ESEMAPHOREWAIT
    | some (d, sem) =>
      if (k.semaphore sem).count > 0 then
        let k := k.modSemaphore sem fun s => { s with count := s.count - 1 }
        return k.setRetvalue r 0
      else
        match (k.descriptor .semaphore d).ptr with
        | none => return k.setRetvalue r DSOS_ESEMAPHOREWAIT
        | some ptr =>
          let k := k.detach (.users .semaphore sem) ⟨.semDescriptorPtr, ptr⟩
          let k := k.append (.waitingDescriptors sem) ⟨.semDescriptorPtr, ptr⟩
          let (next, k) ← k.detachFirst .readyList
          let k := k.append .waitingList ⟨.pcb, r⟩
          return { k with running := some next }

/-- `internal_semPost`. When it wakes a process, neither caller gets a return value. -/
def internalSemPost (k : Kernel) : Except Fault Kernel := do
  let r ← deref k.running
  let fd := toInt (k.arg r 0)
  if fdOutOfBounds fd MAX_NUM_SEMDESCRIPTORS_PER_PROCESS then
    return k.setRetvalue r DSOS_ESEMAPHOREPOST
  else
    match ← k.boundTo .semaphore r fd with
    | none => return k.setRetvalue r DSOS_ESEMAPHOREPOST
    | some (_, sem) =>
      let count ← addInt (k.semaphore sem).count 1
      let k := k.modSemaphore sem fun s => { s with count := count }
      if count > 0 then
        if (k.head (.waitingDescriptors sem)).size ≠ 0 then
          let k := k.modSemaphore sem fun s => { s with count := s.count - 1 }
          let (ptr, k) ← k.detachFirst (.waitingDescriptors sem)
          let d ← deref (k.descriptorPtr .semaphore ptr)
          match (k.descriptor .semaphore d).pcb with
          | none => return k.setRetvalue r DSOS_ESEMAPHOREPOST
          | some awakening =>
            let k := k.detach .waitingList ⟨.pcb, awakening⟩
            let k := k.append .readyList ⟨.pcb, awakening⟩
            return k.append (.users .semaphore sem) ⟨.semDescriptorPtr, ptr⟩
        else
          return k.setRetvalue r 0
      else
        return k.setRetvalue r 0

/-- `internal_semClose`. The semaphore goes when `descriptors` is empty, whether or
not `waiting_descriptors` is. -/
def internalSemClose (k : Kernel) : Except Fault Kernel := do
  let r ← deref k.running
  let fd := toInt (k.arg r 0)
  if fdOutOfBounds fd MAX_NUM_SEMDESCRIPTORS_PER_PROCESS then
    return k.setRetvalue r DSOS_ESEMAPHORECLOSE
  else
    match ← k.boundTo .semaphore r fd with
    | none => return k.setRetvalue r DSOS_ESEMAPHORECLOSE
    | some (d, sem) =>
      match k.closeDescriptor .semaphore r d sem with
      | (false, k) => return k.setRetvalue r DSOS_ESEMAPHORECLOSE
      | (true, k) =>
        if (k.head (.users .semaphore sem)).size = 0 then
          let k := k.detach .semaphoresList ⟨.semaphore, sem⟩
          let k ← k.semaphoreFree sem
          return k.setRetvalue r 0
        else
          return k.setRetvalue r 0

end DisastrOS.Machine.Kernel
