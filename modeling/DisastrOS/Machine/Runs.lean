import DisastrOS.Library.GuardedRun
import DisastrOS.Machine.System

/-!
# Runs of the kernel

Runs start in the state that `disastrOS_start` leaves to the first process.
-/
namespace DisastrOS.Machine.Runs

open DisastrOS.Machine.Kernel
open DisastrOS.Library.GuardedRun

/-- `k` is the state after `disastrOS_start`, with user memory `mem`. -/
def Started (mem : Int → UInt8) (k : Kernel) : Prop :=
  disastrOSStart (Kernel.zeroed mem) = .ok k

/-- A run check that admits only system calls. -/
def onCalls (check : Kernel → Int → List Int → Bool) (k : Kernel) : Action → Bool
  | .syscall num args => check k num args
  | _ => false

theorem onCalls_eq_true {check : Kernel → Int → List Int → Bool} {k : Kernel} {a : Action}
    (h : onCalls check k a = true) :
    ∃ num args, a = .syscall num args ∧ check k num args = true := by
  cases a with
  | syscall num args => exact ⟨num, args, rfl, h⟩
  | timer => cases h
  | restart => cases h
  | store addr v => cases h
  | dispatch p => cases h

/-- The state that a guarded run from the start reaches, with zeroed user memory. -/
def startExec (check : Kernel → Action → Bool) (as : List Action) : Option Kernel :=
  match disastrOSStart (Kernel.zeroed fun _ => 0) with
  | .ok k => exec act check k as
  | .error _ => none

/-- A test passed by the evaluated run is passed by a run in the sense of `Run`. -/
theorem exists_run_from_start (guard : Kernel → Action → Prop) (check : Kernel → Action → Bool)
    (as : List Action) (test : Kernel → Bool) (hcheck : ∀ k a, check k a = true → guard k a)
    (h : (startExec check as).any test = true) :
    ∃ k₀ k, Started (fun _ => 0) k₀ ∧ Run act guard k₀ as k ∧ test k = true := by
  unfold startExec at h
  split at h
  · next k₀ hk₀ =>
    obtain ⟨k, hrun, htest⟩ := exists_run guard hcheck h
    exact ⟨k₀, k, hk₀, hrun, htest⟩
  · cases h

/-- A test on the state after an action that completes. -/
theorem exists_of_any {x : Except Fault Kernel} {p : Kernel → Prop} [DecidablePred p]
    (h : (x.toOption.any fun k => p k) = true) : ∃ k, x = .ok k ∧ p k := by
  cases x with
  | error e => cases h
  | ok k => exact ⟨k, rfl, of_decide_eq_true h⟩

end DisastrOS.Machine.Runs
