import DisastrOS.Process.Survival

/-!
# Tests that are missing

The calls that give the CPU up take the first ready process without a test whether there is
one, `internal_exit` its own link in the list of a parent that waits, and `internal_mqUnlink` a
queue for each priority. `disastrOS_syscall` lets one number too many pass. As long as an action
finds what is taken for granted, no fault of this kind is raised.
-/
namespace DisastrOS.Process.MissingTests

open DisastrOS.Machine
open DisastrOS.Machine.Kernel
open DisastrOS.Machine.Runs
open DisastrOS.Lists.Wiring
open DisastrOS.Process.View
open DisastrOS.Process.Coherence
open DisastrOS.Process.Contexts
open DisastrOS.Process.Faults
open DisastrOS.Process.Survival
open DisastrOS.Process.SystemRuns
open DisastrOS.Process.Transitions
open DisastrOS.Library.GuardedRun
open DisastrOS.Library.Outcome

variable {mem : Int → UInt8} {k k' k₀ : Kernel} {L : HeadAddr → List Node} {a : Action}
  {as : List Action} {logFile : Bool}

end DisastrOS.Process.MissingTests
