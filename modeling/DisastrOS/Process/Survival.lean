import DisastrOS.Process.Faults
import DisastrOS.Process.SystemRuns

/-!
# Runs without a fatal fault

As long as every action finds what it needs, somebody runs and no message has lost its
text, so the next action does not bring the system down either.
-/
namespace DisastrOS.Process.Survival

open DisastrOS.Machine
open DisastrOS.Machine.Kernel
open DisastrOS.Machine.Runs
open DisastrOS.Lists.Wiring
open DisastrOS.Lists.RegularLists
open DisastrOS.Lists.QueueChains
open DisastrOS.Lists.Boot
open DisastrOS.Pool.Blocks
open DisastrOS.Process.Table
open DisastrOS.Process.Steps
open DisastrOS.Process.View
open DisastrOS.Process.Coherence
open DisastrOS.Process.Contexts
open DisastrOS.Process.Faults
open DisastrOS.Process.Waiting
open DisastrOS.Process.Transitions
open DisastrOS.Process.SystemRuns
open DisastrOS.MessageQueue.Calls
open DisastrOS.MessageQueue.CoherentCalls
open DisastrOS.MessageQueue.MessageFrame
open DisastrOS.Library.GuardedRun
open DisastrOS.Library.Outcome

variable {mem : Int → UInt8} {k k' k₀ : Kernel} {L L' : HeadAddr → List Node} {r : Nat} {a : Action}
  {as : List Action}

/-! ## Somebody runs -/

theorem schedules_running {s s' : ProcessTable} (h : Schedules s s') (hr : s.running ≠ none) :
    s'.running ≠ none := by
  cases h with
  | alone h _ => rwa [wakes_running h]
  | rotate _ _ _ => exact Option.some_ne_none _

theorem runNext_running {s : ProcessTable} (h : s.ready ≠ []) : s.runNext.running ≠ none := by
  show s.ready.head? ≠ none
  rwa [Ne, List.head?_eq_none_iff]

/-- The processor is left to nobody only by a process that goes to sleep while no other is ready. -/
theorem step_running {s s' : ProcessTable} (h : Step s a s')
    (hsleep : ∀ args, a = .syscall DSOS_CALL_SLEEP args → s.ready ≠ [])
    (hr : a = .restart ∨ s.running ≠ none) : s'.running ≠ none := by
  cases h with
  | refused _ hrun => exact hr.resolve_left nofun
  | store => exact hr.resolve_left nofun
  | restart => exact Option.some_ne_none _
  | tick _ h => exact schedules_running h (hr.resolve_left nofun)
  | @call r num args _ hrun h =>
    have hruns : s.running ≠ none := hr.resolve_left nofun
    cases h with
    | quiet => exact hruns
    | preempt h => exact schedules_running h hruns
    | spawn => exact hruns
    | sleep => exact runNext_running (hsleep args rfl)
    | waitBlock _ _ _ hready => exact runNext_running hready
    | waitCollect => exact hruns
    | exitNext _ _ _ hn =>
      refine runNext_running ?_
      show s.ready ≠ []
      rw [show s.ready = _ from hn]
      exact List.cons_ne_nil _ _
    | exitReport => exact Option.some_ne_none _
    | semBlock _ hready => exact runNext_running hready
    | semWake => exact hruns

/-! ## Texts -/

/-- The texts of the messages are there, and whoever is not ready has a context. -/
structure Alive (k : Kernel) : Prop where
  coherent : ∃ L, Coherent k L ∧ ContextsMade (view k L)
  texts : Texts k

end DisastrOS.Process.Survival
