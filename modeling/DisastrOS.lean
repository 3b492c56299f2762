import DisastrOS.Pool.Blocks
import DisastrOS.Pool.StackRefinement
import DisastrOS.Descriptors.Bindings
import DisastrOS.Lists.Boot
import DisastrOS.Lists.Contract
import DisastrOS.MessageQueue.Accounting
import DisastrOS.MessageQueue.Conservation
import DisastrOS.MessageQueue.Draining
import DisastrOS.MessageQueue.OpenAtomic
import DisastrOS.MessageQueue.OpenFlags
import DisastrOS.MessageQueue.Removal
import DisastrOS.MessageQueue.RoundTrip
import DisastrOS.MessageQueue.ShortReads
import DisastrOS.MessageQueue.WriteResults
import DisastrOS.Process.FdNumbers
import DisastrOS.Process.Fairness
import DisastrOS.Process.Idle
import DisastrOS.Process.MissingTests
import DisastrOS.Process.OpenHandles
import DisastrOS.Process.Response
import DisastrOS.Process.TableRuns
import DisastrOS.Process.ExitValues
import DisastrOS.Process.Signals
import DisastrOS.Process.FreshStart
import DisastrOS.Process.OpenFailures
import DisastrOS.Process.ReturnRegisters
import DisastrOS.Process.Placement
import DisastrOS.Process.Quotas
import DisastrOS.Process.ChildLinks
import DisastrOS.Process.DeadHandles
import DisastrOS.Process.ExitWait
import DisastrOS.Process.Reparenting
import DisastrOS.Process.SchedulerStep
import DisastrOS.Process.Sleepers
import DisastrOS.Process.Spawning
import DisastrOS.Process.Statuses
import DisastrOS.Process.TimerList
import DisastrOS.Process.WaitAnswers
import DisastrOS.Process.Wakeups
import DisastrOS.Machine.System
import DisastrOS.Resource.TableInvariant
import DisastrOS.Semaphore.Counts
import DisastrOS.Semaphore.CriticalSections
import DisastrOS.Semaphore.Returns
import DisastrOS.Semaphore.Waiters
import DisastrOS.Semaphore.TableInvariant
