import DisastrOS.Machine.Objects

/-!
# Process control and timers

`spawn`, `fork`, `exit`, `wait`, `sleep` and the scheduler, with the timer list.
-/
namespace DisastrOS.Machine.Kernel

/-! ## Timers -/

/-- The scan of `TimerList_add`: the last item whose time is not larger. -/
def timerPosition (k : Kernel) (awakeningTime : Int) :
    Nat → Option Node → Option Node → Except Fault (Option Node)
  | 0, _, _ => .error .endlessLoop
  | _ + 1, none, previous => .ok previous
  | fuel + 1, some item, previous => do
    let i ← castTo .timerItem item
    if awakeningTime < (k.timerItem i).awakeningTime then return previous
    timerPosition k awakeningTime fuel (k.lists.item item).next (some item)

/-- `TimerList_add`; the result is `none` when no item can be allocated. -/
def timerListAdd (k : Kernel) (awakeningTime : Int) (pcb : Nat) :
    Except Fault (Option Kernel) := do
  let previous ← k.timerPosition awakeningTime LOOP_BOUND (k.head .timerList).first none
  match k.timerItemAlloc awakeningTime pcb with
  | none => return none
  | some (i, k) => return some (k.insert .timerList previous ⟨.timerItem, i⟩)

/-- `TimerList_current`. -/
def timerListCurrent (k : Kernel) (currentTime : Int) : Except Fault (Option Nat) :=
  match (k.head .timerList).first with
  | none => .ok none
  | some item => do
    let i ← castTo .timerItem item
    return if currentTime ≥ (k.timerItem i).awakeningTime then some i else none

/-- `TimerList_removeCurrent`. -/
def timerListRemoveCurrent (k : Kernel) : Except Fault Kernel := do
  let (i, k) ← k.detachFirst .timerList
  return k.releaseBlock .timerItem i

/-! ## The scheduler -/

/-- The loop of `internal_schedule` over the elapsed timers. The awakened
processes go to the front of the ready list, behind `previous`. -/
def wakeElapsed : Nat → Option Node → Kernel → Except Fault Kernel
  | 0, _, _ => .error .endlessLoop
  | fuel + 1, previous, k => do
    match ← k.timerListCurrent k.disastrOSTime with
    | none => return k
    | some timer =>
      let p ← deref (k.timerItem timer).pcb
      let k := k.detach .waitingList ⟨.pcb, p⟩
      let k := k.modPcb p fun q => { q with status := .Ready, timer := none }
      let k := k.insert .readyList previous ⟨.pcb, p⟩
      let k ← k.timerListRemoveCurrent
      wakeElapsed fuel (some ⟨.pcb, p⟩) k

/-- `internal_schedule`. -/
def internalSchedule (k : Kernel) : Except Fault Kernel := do
  let k ← wakeElapsed LOOP_BOUND none k
  match (k.head .readyList).first with
  | none => return k
  | some _ =>
    let (next, k) ← k.detachFirst .readyList
    let r ← deref k.running
    let k := k.setStatus r .Ready
    let k := k.append .readyList ⟨.pcb, r⟩
    let k := k.setStatus next .Running
    return { k with running := some next }

/-- `internal_preempt`. -/
def internalPreempt (k : Kernel) : Except Fault Kernel := k.internalSchedule

/-- `internal_sleep`. -/
def internalSleep (k : Kernel) : Except Fault Kernel := do
  let r ← deref k.running
  if (k.pcb r).timer.isSome then
    return k.setRetvalue r DSOS_ESLEEP
  else
    let cyclesToSleep := toInt (k.arg r 0)
    let wakeTime ← addInt k.disastrOSTime cyclesToSleep
    match ← k.timerListAdd wakeTime r with
    | none => return k.setRetvalue r DSOS_ESLEEP
    | some k =>
      let k := k.setStatus r .Waiting
      let k := k.append .waitingList ⟨.pcb, r⟩
      match (k.head .readyList).first with
      | none => return { k with running := none }
      | some _ =>
        let (next, k) ← k.detachFirst .readyList
        return { k with running := some next }

/-! ## Creation -/

/-- The steps of `internal_spawn` and of `internal_fork`. The test of the new block for NULL
comes after `PCB_alloc` has written to it. With `context`, a context is made in `cpu_state`; else
what an earlier process has left in the block stays there. -/
def createProcess (context : Bool) (k : Kernel) : Except Fault Kernel := do
  let r ← deref k.running
  let (p, k) ← k.pcbAlloc
  let k := k.modPcb p fun q =>
    { q with status := .Ready, parent := some r, cpuState := context || q.cpuState }
  let (ptr, k) ← k.pcbPtrAlloc p
  let k := k.append (.children r) ⟨.pcbPtr, ptr⟩
  let k := k.append .readyList ⟨.pcb, p⟩
  return k.setRetvalue r (k.pcb p).pid

/-- `internal_spawn`. -/
def internalSpawn (k : Kernel) : Except Fault Kernel := k.createProcess true

/-- `internal_fork`. The source makes no context for the new process. -/
def internalFork (k : Kernel) : Except Fault Kernel := k.createProcess false

/-! ## Termination -/

/-- The loop of `internal_exit` that hands the children to init. -/
def reparentChildren (r init : Nat) : Nat → Kernel → Except Fault Kernel
  | 0, _ => .error .endlessLoop
  | fuel + 1, k =>
    match (k.head (.children r)).first with
    | none => .ok k
    | some item => do
      let k := k.detach (.children r) item
      let k := k.append (.children init) item
      let ptr ← castTo .pcbPtr item
      let child ← deref (k.pcbPtr ptr)
      reparentChildren r init fuel (k.signal child DSOS_SIGHUP)

/-- The loop of `internal_exit` that removes the timers of the process. -/
def releaseTimers (r : Nat) : Nat → Option Node → Kernel → Except Fault Kernel
  | 0, _, _ => .error .endlessLoop
  | _ + 1, none, k => .ok k
  | fuel + 1, some item, k => do
    let timer ← castTo .timerItem item
    let aux := (k.lists.item item).next
    if (k.timerItem timer).pcb = some r then
      releaseTimers r fuel aux ((k.detach .timerList item).releaseBlock .timerItem timer)
    else
      releaseTimers r fuel aux k

/-- The loop of `internal_exit` that closes the resources of the process. -/
def releaseDescriptors (r : Nat) : Nat → Kernel → Except Fault Kernel
  | 0, _ => .error .endlessLoop
  | fuel + 1, k =>
    match (k.head (.opened .resource r)).first with
    | none => .ok k
    | some item => do
      let d ← castTo .descriptor item
      let k := k.detach (.opened .resource r) item
      let res ← deref (k.descriptor .resource d).object
      let ptr ← deref (k.descriptor .resource d).ptr
      let k := k.detach (.users .resource res) ⟨.descriptorPtr, ptr⟩
      let k := k.releaseBlock .descriptorPtr ptr
      releaseDescriptors r fuel (k.releaseBlock .descriptor d)

/-- The branch of `internal_exit` for a parent that waits for this process. -/
def reportToParent (k : Kernel) (r parent : Nat) : Except Fault Kernel := do
  let k := k.detach .waitingList ⟨.pcb, parent⟩
  let k := k.setStatus parent .Running
  let self ← deref (← k.pcbPtrByPID (.children parent) (k.pcb r).pid)
  let k := k.detach (.children parent) ⟨.pcbPtr, self⟩
  let k := k.setRetvalue parent (k.pcb r).pid
  let k ← k.storeResult (k.arg parent 1) (k.pcb r).returnValue
  let k ← releaseTimers r LOOP_BOUND (k.head .timerList).first k
  let k ← releaseDescriptors r LOOP_BOUND k
  let k := k.detach .zombieList ⟨.pcb, r⟩
  let k := k.releaseBlock .pcb r
  return { k with running := some parent }

/-- `internal_exit`. -/
def internalExit (k : Kernel) : Except Fault Kernel := do
  let r ← deref k.running
  let k := k.modPcb r fun q => { q with returnValue := toInt (q.syscallArgs 0) }
  match k.initPcb with
  | none => .error .assertionFailed
  | some init =>
    let k ← reparentChildren r init LOOP_BOUND k
    let k := k.setStatus r .Zombie
    let k := k.append .zombieList ⟨.pcb, r⟩
    let parent ← deref (k.pcb r).parent
    let k := k.signal parent DSOS_SIGCHLD
    if (k.pcb parent).status = .Waiting ∧ (k.pcb parent).syscallNum = DSOS_CALL_WAIT ∧
        (k.arg parent 0 = 0 ∨ k.arg parent 0 = (k.pcb r).pid) then
      k.reportToParent r parent
    else
      let (next, k) ← k.detachFirst .readyList
      let k := k.setStatus next .Running
      return { k with running := some next }

/-! ## Waiting -/

/-- The scan of `internal_wait`. It stops at the awaited child, and otherwise ends
with the last child it visited. -/
def awaitedChild (k : Kernel) (pidToWait : Int) :
    Nat → Option Node → Option (Nat × Nat) → Except Fault (Option (Nat × Nat))
  | 0, _, _ => .error .endlessLoop
  | _ + 1, none, awaited => .ok awaited
  | fuel + 1, some item, _ => do
    let ptr ← castTo .pcbPtr item
    let child ← deref (k.pcbPtr ptr)
    if pidToWait = 0 ∧ (k.pcb child).status = .Zombie then return some (ptr, child)
    if pidToWait ≠ 0 ∧ (k.pcb child).pid = pidToWait then return some (ptr, child)
    awaitedChild k pidToWait fuel (k.lists.item item).next (some (ptr, child))

/-- The end of `internal_wait`: nobody to report yet, the next process runs. -/
def blockInWait (k : Kernel) (r : Nat) : Except Fault Kernel := do
  let k := k.setStatus r .Waiting
  let k := k.append .waitingList ⟨.pcb, r⟩
  let (next, k) ← k.detachFirst .readyList
  return { k with running := some next }

/-- `internal_wait`. -/
def internalWait (k : Kernel) : Except Fault Kernel := do
  let r ← deref k.running
  let pidToWait := toInt (k.arg r 0)
  let result := k.arg r 1
  match (k.head (.children r)).first with
  | none => return k.setRetvalue r DSOS_EWAIT
  | some first =>
    let awaited ← k.awaitedChild pidToWait LOOP_BOUND (some first) none
    match awaited with
    | none =>
      if pidToWait > 0 then return k.setRetvalue r DSOS_EWAIT
      else k.blockInWait r
    | some (ptr, child) =>
      if (k.pcb child).status = .Zombie then
        let k := k.detach (.children r) ⟨.pcbPtr, ptr⟩
        let k := k.releaseBlock .pcbPtr ptr
        let k := k.detach .zombieList ⟨.pcb, child⟩
        let k := k.setRetvalue r (k.pcb child).pid
        let k ← k.storeResult result (k.pcb child).returnValue
        return k.releaseBlock .pcb child
      else k.blockInWait r

end DisastrOS.Machine.Kernel
