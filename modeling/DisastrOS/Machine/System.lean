import DisastrOS.Library.Outcome
import DisastrOS.Machine.MessageQueues
import DisastrOS.Machine.Processes
import DisastrOS.Machine.Resources

/-!
# System start, traps and timer ticks

The state `disastrOS_start` builds, the dispatch of a system call to its handler,
and the actions a run of the system is made of. Without a log file, unless an action says so.
-/
namespace DisastrOS.Machine.Kernel

open DisastrOS.Library.Outcome

/-- The number of blocks each pool is initialised with. -/
def numItems : Kind → Int
  | .resource => MAX_NUM_RESOURCES
  | .semaphore => MAX_NUM_SEMAPHORES
  | .messageQueue => MAX_NUM_MQS
  | .queue => MAX_NUM_QUEUES
  | .message => MAX_NUM_MESSAGES
  | _ => MAX_NUM_PROCESSES

/-- The number of blocks the static buffer of a pool has room for. -/
def bufferItems : Kind → Int
  | .descriptor | .descriptorPtr => MAX_NUM_DESCRIPTORS_PER_PROCESS * MAX_NUM_PROCESSES
  | .semDescriptor | .semDescriptorPtr =>
      MAX_NUM_SEMDESCRIPTORS_PER_PROCESS * MAX_NUM_PROCESSES
  | .mqDescriptor | .mqDescriptorPtr => MAX_NUM_MQDESCRIPTORS_PER_PROCESS * MAX_NUM_PROCESSES
  | kind => numItems kind

/-- The call of `PoolAllocator_init` for one pool, and the assertion behind it. The
buffer starts at 0 and a block has size 1, so that addresses are block indices. -/
def initPool (kind : Kind) (k : Kernel) : Except Fault Kernel :=
  match PoolAllocator.init (k.pool kind) 1 (numItems kind) 0
      (bufferItems kind * (1 + SIZEOF_INT)) with
  | (.Success, a) => .ok { k with pool := Function.update k.pool kind a }
  | _ => .error .assertionFailed

/-- `disastrOS_start` in front of `getcontext(&main_context)`: pools, globals and lists. -/
def initSystem (k : Kernel) : Except Fault Kernel := do
  let k ← initPool .pcb k
  let k ← initPool .pcbPtr k
  let k ← initPool .timerItem k
  let k ← initPool .resource k
  let k ← initPool .descriptor k
  let k ← initPool .descriptorPtr k
  let k ← initPool .semaphore k
  let k ← initPool .semDescriptor k
  let k ← initPool .semDescriptorPtr k
  let k ← initPool .messageQueue k
  let k ← initPool .mqDescriptor k
  let k ← initPool .mqDescriptorPtr k
  let k ← initPool .queue k
  let k ← initPool .message k
  let k := { k with initPcb := none, running := none }
  let k := k.initList .readyList
  let k := k.initList .waitingList
  let k := k.initList .zombieList
  let k := k.initList .resourcesList
  let k := k.initList .semaphoresList
  let k := k.initList .messageQueuesList
  return k.initList .timerList

/-- `disastrOS_start` behind `getcontext(&main_context)`, up to the switch to the first
process. -/
def startFirstProcess (k : Kernel) : Except Fault Kernel := do
  let (p, k) ← k.pcbAlloc
  let k := k.modPcb p fun q => { q with status := .Running, cpuState := true }
  return { k with running := some p, initPcb := some p }

/-- `disastrOS_start`, up to the switch to the first process. -/
def disastrOSStart (k : Kernel) : Except Fault Kernel := do
  let k ← initSystem k
  k.startFirstProcess

/-- The entries of `syscall_vector`. -/
def syscallVector (num : Int) : Option (Kernel → Except Fault Kernel) :=
  if num = DSOS_CALL_PREEMPT then some internalPreempt
  else if num = DSOS_CALL_FORK then some internalFork
  else if num = DSOS_CALL_WAIT then some internalWait
  else if num = DSOS_CALL_EXIT then some internalExit
  else if num = DSOS_CALL_SPAWN then some internalSpawn
  else if num = DSOS_CALL_SLEEP then some internalSleep
  else if num = DSOS_CALL_OPEN_RESOURCE then some internalOpenResource
  else if num = DSOS_CALL_CLOSE_RESOURCE then some internalCloseResource
  else if num = DSOS_CALL_DESTROY_RESOURCE then some internalDestroyResource
  else if num = DSOS_CALL_SHUTDOWN then some fun _ => .error .shutdown
  else if num = DSOS_CALL_SEMOPEN then some internalSemOpen
  else if num = DSOS_CALL_SEMCLOSE then some internalSemClose
  else if num = DSOS_CALL_SEMWAIT then some internalSemWait
  else if num = DSOS_CALL_SEMPOST then some internalSemPost
  else if num = DSOS_CALL_MQOPEN then some internalMqOpen
  else if num = DSOS_CALL_MQCLOSE then some internalMqClose
  else if num = DSOS_CALL_MQREAD then some internalMqRead
  else if num = DSOS_CALL_MQWRITE then some internalMqWrite
  else if num = DSOS_CALL_MQUNLINK then some internalMqUnlink
  else none

/-- The entries of `syscall_numarg`. -/
def syscallNumarg (num : Int) : Nat :=
  if num = DSOS_CALL_MQREAD ∨ num = DSOS_CALL_MQWRITE then 4
  else if num = DSOS_CALL_OPEN_RESOURCE ∨ num = DSOS_CALL_SEMOPEN ∨ num = DSOS_CALL_MQOPEN then 3
  else if num = DSOS_CALL_SPAWN ∨ num = DSOS_CALL_WAIT then 2
  else if num = DSOS_CALL_EXIT ∨ num = DSOS_CALL_SLEEP ∨ num = DSOS_CALL_CLOSE_RESOURCE ∨
      num = DSOS_CALL_DESTROY_RESOURCE ∨ num = DSOS_CALL_SEMCLOSE ∨
      num = DSOS_CALL_SEMPOST ∨ num = DSOS_CALL_SEMWAIT ∨ num = DSOS_CALL_MQCLOSE ∨
      num = DSOS_CALL_MQUNLINK then 1
  else 0

/-- The registers of the running process after `disastrOS_syscall` has filled them. -/
def setCall (k : Kernel) (p : Nat) (num : Int) (args : List Int) : Kernel :=
  k.modPcb p fun q =>
    { q with
      syscallArgs := fun i => if i < syscallNumarg num then args.getD i 0 else q.syscallArgs i
      syscallNum := num }

theorem arg_setCall {k : Kernel} {p i : Nat} {num : Int} {args : List Int}
    (h : i < syscallNumarg num) : (k.setCall p num args).arg p i = args.getD i 0 := by
  simp [arg, setCall, modPcb, h]

/-- Only the registers of a system call are filled in. -/
theorem status_setCall {k : Kernel} {p q : Nat} {num : Int} {args : List Int} :
    ((k.setCall p num args).pcb q).status = (k.pcb q).status := by
  show (Function.update k.pcb p _ q).status = _
  rw [Function.update_apply]
  split
  · next he => rw [he]
  · rfl

theorem pid_setCall {k : Kernel} {p q : Nat} {num : Int} {args : List Int} :
    ((k.setCall p num args).pcb q).pid = (k.pcb q).pid := by
  show (Function.update k.pcb p _ q).pid = _
  rw [Function.update_apply]
  split
  · next he => rw [he]
  · rfl

/-- `setcontext(&running->cpu_state)` behind a call or a tick that has interrupted `r`, whose own
context `swapcontext` has saved. With nobody running there is no switch. -/
def setcontext (k : Kernel) (r : Nat) : Except Fault Kernel :=
  match k.running with
  | none => .ok k
  | some p => if p = r ∨ (k.pcb p).cpuState then .ok k else .error .noContext

/-- A switch changes nothing. -/
theorem setcontext_eq_ok {k k' : Kernel} {r : Nat} : k.setcontext r = .ok k' ↔
    k' = k ∧ ∀ p, k.running = some p → p = r ∨ (k.pcb p).cpuState = true := by
  unfold setcontext
  cases hr : k.running with
  | none =>
    refine ⟨fun h => ?_, fun h => by rw [h.1]⟩
    cases h
    exact ⟨rfl, nofun⟩
  | some p =>
    simp only
    split
    · next hp =>
      refine ⟨fun h => ?_, fun h => by rw [h.1]⟩
      cases h
      exact ⟨rfl, fun q hq => Option.some.inj hq ▸ hp⟩
    · next hp => exact ⟨nofun, fun h => absurd (h.2 p rfl) hp⟩

theorem ensures_setcontext {P : Kernel → Prop} {k : Kernel} {r : Nat} (h : P k) :
    Ensures (k.setcontext r) P :=
  fun _ hk => (setcontext_eq_ok.mp hk).1 ▸ h

/-- `disastrOS_trap`, with the bounds test it repeats left to the caller. Where nobody runs it
returns, see `resumeMain`. -/
def disastrOSTrap (k : Kernel) (num : Int) : Except Fault Kernel := do
  let r ← deref k.running
  let k ← (match syscallVector num with
    | none => .ok (k.setRetvalue r DSOS_ESYSCALL_NOT_IMPLEMENTED)
    | some mySyscall => mySyscall k)
  k.setcontext r

/-- `disastrOS_syscall`. A number out of range is answered without a trap; the
number `DSOS_MAX_SYSCALLS` passes the test and indexes behind both tables. -/
def disastrOSSyscall (k : Kernel) (num : Int) (args : List Int) : Except Fault Kernel :=
  match k.running with
  | none => .error .assertionFailed
  | some r =>
    if num < 0 ∨ num > DSOS_MAX_SYSCALLS then .ok k
    else if num = DSOS_MAX_SYSCALLS then .error .outOfBounds
    else (k.setCall r num args).disastrOSTrap num

/-- `timerHandler` and `timerInterrupt`. -/
def timerInterrupt (k : Kernel) : Except Fault Kernel := do
  let r ← deref k.running
  let time ← addInt k.disastrOSTime 1
  let k ← internalSchedule { k with disastrOSTime := time }
  let _ ← deref k.running
  k.setcontext r

/-- What follows a trap that has left nobody running: it returns, its `uc_link` is
`main_context`, and `disastrOS_start` goes on with another first process. -/
def resumeMain (k : Kernel) : Except Fault Kernel :=
  match k.running with
  | some _ => .error .notIdle
  | none => k.startFirstProcess

/-- What can happen next in the system. -/
inductive Action where
  /-- the running process makes a system call -/
  | syscall (num : Int) (args : List Int)
  /-- a timer tick -/
  | timer
  /-- the trap that has left nobody running returns to `disastrOS_start` -/
  | restart
  /-- the running process writes a byte of its memory -/
  | store (addr : Int) (v : UInt8)
  /-- the processor is given to process `p`, by whatever scheduling this takes -/
  | dispatch (p : Nat)
  deriving DecidableEq

/-- One action on the kernel. -/
def act (k : Kernel) : Action → Except Fault Kernel
  | .syscall num args => k.disastrOSSyscall num args
  | .timer => k.timerInterrupt
  | .restart => k.resumeMain
  | .store addr v => k.storeChar addr v
  | .dispatch p => .ok { k with running := some p }

end DisastrOS.Machine.Kernel
