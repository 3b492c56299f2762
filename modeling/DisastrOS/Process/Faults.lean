import DisastrOS.MessageQueue.MessageFrame
import DisastrOS.Process.Contexts
import DisastrOS.Process.Reparenting
import DisastrOS.Process.SchedulerStep
import DisastrOS.Process.Spawning
import DisastrOS.Process.WaitAnswers
import DisastrOS.Semaphore.Completion

/-!
# Faults of the handlers

What a handler needs in order not to work on a NULL item, fail an assertion, loop for ever,
or take one structure for another. The calls that give the CPU up look for the next process
without a test.
-/
namespace DisastrOS.Process.Faults

open DisastrOS.Machine
open DisastrOS.Machine.Kernel
open DisastrOS.Lists.Sequences
open DisastrOS.Lists.Wiring
open DisastrOS.Lists.RegularLists
open DisastrOS.Lists.QueueChains
open DisastrOS.Pool.Blocks
open DisastrOS.Descriptors.Bindings
open DisastrOS.Descriptors.Tables
open DisastrOS.Process.Table
open DisastrOS.Process.Steps
open DisastrOS.Process.View
open DisastrOS.Process.Coherence
open DisastrOS.Process.Contexts
open DisastrOS.Process.Exit
open DisastrOS.Process.Kinship
open DisastrOS.Process.Scheduling
open DisastrOS.Process.SchedulerStep
open DisastrOS.Process.Creation
open DisastrOS.Process.Spawning
open DisastrOS.Process.Transitions
open DisastrOS.MessageQueue.CoherentCalls
open DisastrOS.MessageQueue.MessageFrame
open DisastrOS.Process.Handles
open DisastrOS.Process.Waiting
open DisastrOS.Process.WaitAnswers
open DisastrOS.Semaphore.Calls
open DisastrOS.Semaphore.Completion
open DisastrOS.Library.LinkedSequence
open DisastrOS.Library.Outcome

variable {k k' : Kernel} {L : HeadAddr → List Node} {r p c : Nat} {l : HeadAddr}
  {bad : Fault → Prop}

/-- No message in use has a NULL text. -/
def Texts (k : Kernel) : Prop := ∀ m, Allocated k .message m → (k.message m).text ≠ 0

/-- The running process gives the CPU up with the call, to the next ready one. A process that
goes to sleep may leave it to nobody. -/
def GivesUp (k : Kernel) (r : Nat) (num : Int) : Prop :=
  (num = DSOS_CALL_WAIT ∧ ∃ ptr c, k.awaitedChild (toInt (k.arg r 0)) LOOP_BOUND
    (k.head (.children r)).first none = .ok (some (ptr, c)) ∧ (k.pcb c).status ≠ .Zombie) ∨
  (num = DSOS_CALL_SEMWAIT ∧
    fdOutOfBounds (toInt (k.arg r 0)) MAX_NUM_SEMDESCRIPTORS_PER_PROCESS = false ∧
    ∃ d sem, k.boundTo .semaphore r (toInt (k.arg r 0)) = .ok (some (d, sem)) ∧
      (k.semaphore sem).count ≤ 0) ∨
  (num = DSOS_CALL_EXIT ∧ ∀ p, (k.pcb r).parent = some p → ¬ Awaits k p r)

/-- What the handler of a call of the running process `r` takes for granted, with the registers
filled in: a number that is in the vector or out of range, somebody to give the CPU to, the
blocks that are taken without a test, a parent, which has `r` among its children if it waits for
`r`, message queues only in their table, and a queue for each priority of a message queue that
is removed. -/
structure Provided (k : Kernel) (r : Nat) (num : Int) : Prop where
  number : num ≠ DSOS_MAX_SYSCALLS
  ready : GivesUp k r num → (k.head .readyList).first ≠ none
  process : num = DSOS_CALL_SPAWN ∨ num = DSOS_CALL_FORK →
    (k.pool .pcb).size ≠ 0 ∧ (k.pool .pcbPtr).size ≠ 0
  resource : num = DSOS_CALL_OPEN_RESOURCE →
    (k.pool .resource).size ≠ 0 ∧ (k.pool .descriptorPtr).size ≠ 0
  first : num = DSOS_CALL_EXIT → (k.pcb r).parent ≠ none
  family : num = DSOS_CALL_EXIT → ∀ p, (k.pcb r).parent = some p → Awaits k p r → ChildOf k p r
  found : num = DSOS_CALL_MQOPEN ∨ num = DSOS_CALL_MQUNLINK → ∀ x,
    k.messageQueueListById .messageQueuesList (toInt (k.arg r 0)) = .ok (some x) →
      x.kind = .messageQueue
  queues : num = DSOS_CALL_MQUNLINK → ∀ mq, k.messageQueueListById .messageQueuesList
    (toInt (k.arg r 0)) = .ok (some ⟨.messageQueue, mq⟩) → (k.messageQueue mq).numMessages = 0 →
    (k.head (.users .mq mq)).size = 0 → ∀ n : Nat, (n : Int) ≤ (k.messageQueue mq).priority →
    follow k.lists.item n (k.head (.queues mq)).first ≠ none

end DisastrOS.Process.Faults
