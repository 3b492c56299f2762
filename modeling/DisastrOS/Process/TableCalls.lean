import DisastrOS.Process.Transitions

/-!
# What the calls on semaphores, resources and message queues leave alone

They work on descriptor tables and may block or wake a process, but they create and free
no process, no child link and no timer.
-/
namespace DisastrOS.Process.TableCalls

open DisastrOS.Machine
open DisastrOS.Machine.Kernel
open DisastrOS.Lists.RegularLists
open DisastrOS.Descriptors.Bindings
open DisastrOS.Descriptors.Tables
open DisastrOS.Process.Coherence
open DisastrOS.Process.Handles
open DisastrOS.Process.Transitions
open DisastrOS.Semaphore.Calls
open DisastrOS.Resource.Calls
open DisastrOS.MessageQueue.CoherentCalls

variable {k k' k'' : Kernel} {L L' L'' : HeadAddr → List Node} {t : Table} {p o d ptr r : Nat}

/-- The types of processes, child links and timers. -/
def Control (kind : Kind) : Prop := kind = .pcb ∨ kind = .pcbPtr ∨ kind = .timerItem

/-- The lists of child links, timers and zombies. -/
def ControlHead : HeadAddr → Prop
  | .children _ | .timerList | .zombieList => True
  | _ => False

/-- Processes, child links and timers in use are as before. -/
structure Undisturbed (k : Kernel) (L : HeadAddr → List Node) (k' : Kernel)
    (L' : HeadAddr → List Node) : Prop where
  pool : ∀ kind, Control kind → k'.pool kind = k.pool kind
  lists : ∀ l, ControlHead l → L' l = L l
  pcbPtr : k'.pcbPtr = k.pcbPtr
  timerItem : k'.timerItem = k.timerItem

theorem Undisturbed.trans (h : Undisturbed k L k' L') (h' : Undisturbed k' L' k'' L'') :
    Undisturbed k L k'' L'' :=
  ⟨fun kind hk => (h'.pool kind hk).trans (h.pool kind hk),
    fun l hl => (h'.lists l hl).trans (h.lists l hl), h'.pcbPtr.trans h.pcbPtr,
    h'.timerItem.trans h.timerItem⟩

theorem undisturbed_same (hpool : k'.pool = k.pool) (hptr : k'.pcbPtr = k.pcbPtr)
    (htimer : k'.timerItem = k.timerItem) : Undisturbed k L k' L :=
  ⟨fun _ _ => by rw [hpool], fun _ _ => rfl, hptr, htimer⟩

theorem control_ne_table {kind : Kind} (h : Control kind) :
    kind ≠ t.descriptorKind ∧ kind ≠ t.pointerKind ∧ kind ≠ (objects t).nodeKind := by
  rcases h with rfl | rfl | rfl <;> cases t <;> decide

theorem control_ne_head {l : HeadAddr} (h : ControlHead l) :
    l ≠ .opened t p ∧ l ≠ .users t o ∧ l ≠ objects t := by
  cases l with
  | children q => exact ⟨nofun, nofun, by cases t <;> nofun⟩
  | timerList | zombieList => exact ⟨nofun, nofun, by cases t <;> nofun⟩
  | _ => exact h.elim

theorem undisturbed_added (h : Added Regular Retained k L t p o d ptr k') :
    Undisturbed k L k' (withOpened L t p o d ptr) := by
  refine ⟨fun kind hk => ?_, fun l hl => ?_, by rw [h.rest], by rw [h.rest]⟩
  · obtain ⟨h₁, h₂, _⟩ := control_ne_table (t := t) hk
    exact h.pool kind h₁ h₂
  · obtain ⟨h₁, h₂, _⟩ := control_ne_head (t := t) (p := p) (o := o) hl
    unfold withOpened
    rw [Function.update_of_ne h₂, Function.update_of_ne h₁]

theorem undisturbed_removed (h : Removed Regular Retained k L t p o d ptr k') :
    Undisturbed k L k' (withClosed L t p o d ptr) := by
  refine ⟨fun kind hk => ?_, fun l hl => ?_, by rw [h.rest], by rw [h.rest]⟩
  · obtain ⟨h₁, h₂, _⟩ := control_ne_table (t := t) hk
    exact h.pool kind h₁ h₂
  · obtain ⟨h₁, h₂, _⟩ := control_ne_head (t := t) (p := p) (o := o) hl
    unfold withClosed
    rw [Function.update_of_ne h₂, Function.update_of_ne h₁]

theorem undisturbed_created (h : Created t k L o k' L') : Undisturbed k L k' L' := by
  refine ⟨fun kind hk => h.pool kind (control_ne_table hk).2.2, fun l hl => ?_, by rw [h.rest],
    by rw [h.rest]⟩
  rw [h.lists, Function.update_of_ne (control_ne_head (p := 0) (o := 0) hl).2.2]

theorem undisturbed_destroyed (h : Destroyed t k L o k' L') : Undisturbed k L k' L' := by
  refine ⟨fun kind hk => h.pool kind (control_ne_table hk).2.2, fun l hl => ?_, by rw [h.rest],
    by rw [h.rest]⟩
  rw [h.lists, Function.update_of_ne (control_ne_head (p := 0) (o := 0) hl).2.2]

/-- A change of return values and counters. -/
theorem undisturbed_modPcb (f : PCB → PCB) : Undisturbed k L (k.modPcb p f) L :=
  undisturbed_same rfl rfl rfl

theorem undisturbed_semOpen (h : SemOpened k L r k' L') : Undisturbed k L k' L' := by
  cases h with
  | refused => exact undisturbed_modPcb _
  | opened _ h => exact undisturbed_added h
  | created hnew h => exact (undisturbed_created hnew.created).trans (undisturbed_added h)
  | createdOnly hnew _ => exact (undisturbed_created hnew.created).trans (undisturbed_modPcb _)

theorem undisturbed_semWait (h : SemWaited k L r k' L') : Undisturbed k L k' L' := by
  cases h with
  | refused => exact undisturbed_modPcb _
  | granted => exact undisturbed_same rfl rfl rfl
  | blocked _ _ _ h =>
    refine ⟨fun _ _ => by rw [h.rest], fun l hl => ?_, by rw [h.rest], by rw [h.rest]⟩
    cases l with
    | children | timerList | zombieList => exact waitLists_of_ne nofun nofun nofun nofun
    | _ => exact hl.elim

theorem undisturbed_semPost (h : SemPosted k L r k' L') : Undisturbed k L k' L' := by
  cases h with
  | refused => exact undisturbed_modPcb _
  | posted => exact undisturbed_same rfl rfl rfl
  | woken _ _ h =>
    refine ⟨fun _ _ => by rw [h.rest], fun l hl => ?_, by rw [h.rest], by rw [h.rest]⟩
    cases l with
    | children | timerList | zombieList => exact postLists_of_ne nofun nofun nofun nofun
    | _ => exact hl.elim

theorem undisturbed_semClose (h : SemClosed k L r k' L') : Undisturbed k L k' L' := by
  cases h with
  | refused => exact undisturbed_modPcb _
  | closed _ _ _ _ h _ =>
    exact ((undisturbed_removed h).trans (undisturbed_modPcb _)).trans (undisturbed_modPcb _)
  | destroyed _ _ _ _ h hd =>
    exact (((undisturbed_removed h).trans (undisturbed_modPcb _)).trans
      (undisturbed_destroyed hd)).trans (undisturbed_modPcb _)

theorem undisturbed_openResource (h : ResOpened k L r k' L') : Undisturbed k L k' L' := by
  cases h with
  | refused => exact undisturbed_modPcb _
  | opened _ h => exact undisturbed_added h
  | created hnew h => exact (undisturbed_created hnew.created).trans (undisturbed_added h)
  | createdOnly hnew _ => exact (undisturbed_created hnew.created).trans (undisturbed_modPcb _)

theorem undisturbed_closeResource (h : ResClosed k L r k' L') : Undisturbed k L k' L' := by
  cases h with
  | refused => exact undisturbed_modPcb _
  | closed _ _ _ h => exact (undisturbed_removed h).trans (undisturbed_modPcb _)

theorem undisturbed_destroyResource (h : ResDestroyed k L r k' L') : Undisturbed k L k' L' := by
  cases h with
  | refused => exact undisturbed_modPcb _
  | destroyed h => exact (undisturbed_destroyed h).trans (undisturbed_modPcb _)

theorem undisturbed_queued (h : Queued k L k' L') : Undisturbed k L k' L' := by
  refine ⟨fun kind hk => h.pool kind ?_, fun l hl => h.lists l ?_, by rw [h.rest], by rw [h.rest]⟩
  · rcases hk with rfl | rfl | rfl <;> decide
  · cases l with
    | children q => exact (by decide : ¬ QueueKind .pcbPtr)
    | timerList => exact (by decide : ¬ QueueKind .timerItem)
    | zombieList => exact (by decide : ¬ QueueKind .pcb)
    | _ => exact hl.elim

theorem undisturbed_mqOpen (h : MqOpened k L r k' L') : Undisturbed k L k' L' := by
  cases h with
  | unopened h => exact undisturbed_queued h
  | opened hq _ _ h => exact (undisturbed_queued hq).trans (undisturbed_added h)

theorem undisturbed_mqClose (h : MqClosed k L r k' L') : Undisturbed k L k' L' := by
  cases h with
  | refused => exact undisturbed_modPcb _
  | closed _ _ _ _ _ h =>
    exact ((undisturbed_removed h).trans (undisturbed_modPcb _)).trans (undisturbed_modPcb _)

end DisastrOS.Process.TableCalls
