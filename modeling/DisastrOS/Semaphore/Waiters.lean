import DisastrOS.Process.Resumption
import DisastrOS.Semaphore.Ledger
import Mathlib.Data.List.Find

/-!
# Who waits for a semaphore

A process that is blocked in `semWait` is behind `waiting_descriptors` of a semaphore in the
list, and nobody waits while there are permits. Both hold as long as no `semClose` destroys a
semaphore with waiters, whose list would come back with the next semaphore in its block.
-/
namespace DisastrOS.Semaphore.Waiters

open DisastrOS.Machine
open DisastrOS.Machine.Kernel
open DisastrOS.Machine.Runs
open DisastrOS.Lists.Sequences
open DisastrOS.Lists.Wiring
open DisastrOS.Lists.RegularLists
open DisastrOS.Lists.Boot
open DisastrOS.Pool.Blocks
open DisastrOS.Descriptors.Bindings
open DisastrOS.Descriptors.Tables
open DisastrOS.Process.Steps
open DisastrOS.Process.View
open DisastrOS.Process.Coherence
open DisastrOS.Process.Creation
open DisastrOS.Process.Handles
open DisastrOS.Process.Resumption
open DisastrOS.Process.SystemRuns
open DisastrOS.Process.Transitions
open DisastrOS.MessageQueue.Calls
open DisastrOS.MessageQueue.CoherentCalls
open DisastrOS.Resource.Calls
open DisastrOS.Semaphore.Calls
open DisastrOS.Semaphore.Ledger
open DisastrOS.Library.CountingSemaphore
open DisastrOS.Library.GuardedRun
open DisastrOS.Library.LinkedSequence
open DisastrOS.Library.Outcome

variable {k k' k'' : Kernel} {L L' L'' : HeadAddr → List Node} {p r s sem d ptr : Nat} {num : Int}
  {args : List Int} {a : Action}

/-- The process `p` is blocked on a semaphore in use that has it in its second list. -/
def Attended (k : Kernel) (p : Nat) : Prop :=
  ∃ d s ptr, k.boundTo .semaphore p (toInt (k.arg p 0)) = .ok (some (d, s)) ∧
    Allocated k .semaphore s ∧ Listed k s ∧ (k.descriptor .semaphore d).ptr = some ptr ∧
    Linked k (.waitingDescriptors s) ⟨.semDescriptorPtr, ptr⟩

/-- No process that waits for a semaphore is forgotten. -/
structure NoForgottenWaiter (k : Kernel) : Prop where
  attended : ∀ p, Blocked k p → (k.pcb p).syscallNum = DSOS_CALL_SEMWAIT → Attended k p
  idle : ∀ s, 0 < (k.semaphore s).count → (k.head (.waitingDescriptors s)).size = 0
  created : ∀ args k' s, k.act (.syscall DSOS_CALL_SEMOPEN args) = .ok k' → Creates k k' s →
    (k'.head (.waitingDescriptors s)).size = 0

/-- The action closes the only descriptor in `descriptors` of a semaphore with waiters. -/
def StrandsWaiters (k : Kernel) : Action → Prop
  | .syscall num args => num = DSOS_CALL_SEMCLOSE ∧ ∃ r d s, k.running = some r ∧
      ValidFd k r (toInt (args.getD 0 0)) d s ∧ (k.head (.users .semaphore s)).size = 1 ∧
      (k.head (.waitingDescriptors s)).size ≠ 0
  | _ => False

/-! ## What other calls leave alone -/

/-- The lists of semaphores, of their waiters and of their descriptors. -/
def OfSemaphores : HeadAddr → Prop
  | .semaphoresList | .waitingDescriptors _ | .opened .semaphore _ => True
  | _ => False

/-- What belongs to semaphores is as before. -/
structure SemsKept (k : Kernel) (L : HeadAddr → List Node) (k' : Kernel)
    (L' : HeadAddr → List Node) : Prop where
  lists : ∀ l, OfSemaphores l → L' l = L l
  semaphore : k'.semaphore = k.semaphore
  descriptor : k'.descriptor .semaphore = k.descriptor .semaphore

theorem SemsKept.trans (h : SemsKept k L k' L') (h' : SemsKept k' L' k'' L'') :
    SemsKept k L k'' L'' :=
  ⟨fun l hl => (h'.lists l hl).trans (h.lists l hl), h'.semaphore.trans h.semaphore,
    h'.descriptor.trans h.descriptor⟩

theorem semsKept_setRetvalue {v : Int} : SemsKept k L (k.setRetvalue r v) L :=
  ⟨fun _ _ => rfl, rfl, rfl⟩

theorem not_processHead {l : HeadAddr} (h : OfSemaphores l) : ¬ ProcessHead l := by
  cases l with
  | semaphoresList | waitingDescriptors | opened => exact id
  | _ => exact h.elim

theorem semsKept_beside (h : Beside k L k' L') : SemsKept k L k' L' :=
  ⟨fun l hl => h.lists l (not_processHead hl), by rw [h.rest], by rw [h.rest]⟩

theorem semsKept_restarted {c : Nat} (h : Restarted k L c k' L') : SemsKept k L k' L' := by
  refine ⟨fun l hl => ?_, by rw [h.rest], by rw [h.rest]⟩
  rw [h.lists]
  cases l with
  | semaphoresList | waitingDescriptors =>
    exact allocLists_of_ne (by simp) (by simp) (by simp)
  | opened t q =>
    cases t with
    | semaphore => exact allocLists_of_ne (by simp) (by simp) (by simp)
    | _ => exact hl.elim
  | _ => exact hl.elim

/-- A list of semaphores is none of another table. -/
theorem ofSemaphores_ne {l : HeadAddr} {t : Table} {o : Nat} (h : OfSemaphores l)
    (ht : t ≠ .semaphore) : l ≠ .opened t p ∧ l ≠ .users t o ∧ l ≠ objects t := by
  cases l with
  | semaphoresList => exact ⟨by simp, by simp, by cases t <;> simp [objects] at ht ⊢⟩
  | waitingDescriptors s => exact ⟨by simp, by simp, by cases t <;> simp [objects]⟩
  | opened t' q =>
    refine ⟨?_, by simp, opened_ne_objects⟩
    intro he
    cases he
    cases t with
    | semaphore => exact ht rfl
    | resource => exact h
    | mq => exact h
  | _ => exact h.elim

theorem semsKept_added {t : Table} {o : Nat} (ht : t ≠ .semaphore)
    (h : Added Regular Retained k L t r o d ptr k') :
    SemsKept k L k' (withOpened L t r o d ptr) := by
  refine ⟨fun l hl => ?_, by rw [h.rest], ?_⟩
  · obtain ⟨h₁, h₂, _⟩ := ofSemaphores_ne (p := r) (o := o) hl ht
    unfold withOpened
    rw [Function.update_of_ne h₂, Function.update_of_ne h₁]
  · rw [h.descriptor, Function.update_of_ne ht.symm]

theorem semsKept_removed {t : Table} {o : Nat} (ht : t ≠ .semaphore)
    (h : Removed Regular Retained k L t r o d ptr k') :
    SemsKept k L k' (withClosed L t r o d ptr) := by
  refine ⟨fun l hl => ?_, by rw [h.rest], by rw [h.rest]⟩
  obtain ⟨h₁, h₂, _⟩ := ofSemaphores_ne (p := r) (o := o) hl ht
  unfold withClosed
  rw [Function.update_of_ne h₂, Function.update_of_ne h₁]

theorem semsKept_queued (h : Queued k L k' L') : SemsKept k L k' L' := by
  refine ⟨fun l hl => h.lists l ?_, by rw [h.rest], by rw [h.rest]⟩
  cases l with
  | semaphoresList => exact (by decide : ¬ QueueKind .semaphore)
  | waitingDescriptors s => exact (by decide : ¬ QueueKind .semDescriptorPtr)
  | opened t q => exact (not_queueKind_table t).1
  | _ => exact hl.elim

theorem semsKept_openResource (h : ResOpened k L r k' L') : SemsKept k L k' L' := by
  have hnew : ∀ {res : Nat} {k₁ : Kernel} {L₁ : HeadAddr → List Node},
      ResCreated k L r res k₁ L₁ → SemsKept k L k₁ L₁ := by
    intro res k₁ L₁ hcre
    refine ⟨fun l hl => ?_, by rw [hcre.rest], by rw [hcre.rest]⟩
    rw [hcre.created.lists,
      Function.update_of_ne (ofSemaphores_ne (p := 0) (o := 0) hl (by decide)).2.2]
  cases h with
  | refused => exact semsKept_setRetvalue
  | opened _ ha => exact semsKept_added (by decide) ha
  | created hcre ha => exact (hnew hcre).trans (semsKept_added (by decide) ha)
  | createdOnly hcre => exact (hnew hcre).trans semsKept_setRetvalue

/-- The four calls on semaphores. -/
def OnSemaphores (num : Int) : Prop :=
  num = DSOS_CALL_SEMOPEN ∨ num = DSOS_CALL_SEMWAIT ∨ num = DSOS_CALL_SEMPOST ∨
    num = DSOS_CALL_SEMCLOSE

instance : DecidablePred OnSemaphores := fun _ => inferInstanceAs (Decidable (_ ∨ _ ∨ _ ∨ _))

theorem semsKept_called (h : Called k L r num k' L') (hnum : ¬ OnSemaphores num) :
    SemsKept k L k' L' := by
  cases h with
  | refused => exact semsKept_setRetvalue
  | preempted hb => exact semsKept_beside hb.beside
  | slept hb => exact semsKept_beside hb.beside
  | waits _ _ hb => exact semsKept_beside hb.beside
  | exited _ _ hb => exact semsKept_beside hb
  | @spawned _ c _ _ _ _ hsp =>
    refine ⟨fun l hl => ?_, by rw [hsp.rest], by rw [hsp.rest]⟩
    have hne : l ≠ .opened .mq c := (ofSemaphores_ne (o := 0) hl (by decide)).1
    have hne' : l ≠ .opened .resource c := (ofSemaphores_ne (o := 0) hl (by decide)).1
    have hchildren : ∀ q, l ≠ .children q := fun q he => by rw [he] at hl; exact hl
    have hready : l ≠ .readyList := fun he => by rw [he] at hl; exact hl
    rw [hsp.lists, Function.update_of_ne hready, Function.update_of_ne (hchildren r),
      allocLists_of_ne hne' (hchildren c) hne]
  | collected _ _ _ _ hcol =>
    refine ⟨fun l hl => ?_, by rw [hcol.rest], by rw [hcol.rest]⟩
    have hchildren : l ≠ .children r := fun he => by rw [he] at hl; exact hl
    have hzombie : l ≠ .zombieList := fun he => by rw [he] at hl; exact hl
    rw [hcol.lists, Function.update_of_ne hzombie, Function.update_of_ne hchildren]
  | @reported i parent _ k₁ _ L₁ _ hd _ hrep =>
    refine (semsKept_beside hd.beside).trans ⟨fun l hl => ?_, by rw [hrep.rest], by rw [hrep.rest]⟩
    obtain ⟨hne, -, -⟩ := ofSemaphores_ne (p := r) (o := 0) hl (by decide : Table.resource ≠ .semaphore)
    exact hrep.lists l (fun he => by rw [he] at hl; exact hl) (fun he => by rw [he] at hl; exact hl)
      (fun he => by rw [he] at hl; exact hl) hne fun o => (ofSemaphores_ne (p := r) hl (by decide)).2.1
  | semOpen => exact absurd (.inl rfl) hnum
  | semWait => exact absurd (.inr (.inl rfl)) hnum
  | semPost => exact absurd (.inr (.inr (.inl rfl))) hnum
  | semClose => exact absurd (.inr (.inr (.inr rfl))) hnum
  | openResource h => exact semsKept_openResource h
  | closeResource h =>
    cases h with
    | refused => exact semsKept_setRetvalue
    | closed _ _ _ hrem => exact (semsKept_removed (by decide) hrem).trans semsKept_setRetvalue
  | destroyResource h =>
    cases h with
    | refused => exact semsKept_setRetvalue
    | destroyed hdes =>
      refine SemsKept.trans ⟨fun l hl => ?_, by rw [hdes.rest], by rw [hdes.rest]⟩
        semsKept_setRetvalue
      rw [hdes.lists,
        Function.update_of_ne (ofSemaphores_ne (p := 0) (o := 0) hl (by decide)).2.2]
  | mqOpen h =>
    cases h with
    | unopened hq => exact semsKept_queued hq
    | opened hq _ _ ha => exact (semsKept_queued hq).trans (semsKept_added (by decide) ha)
  | mqClose h =>
    cases h with
    | refused => exact semsKept_setRetvalue
    | closed _ _ _ _ _ hrem =>
      exact (semsKept_removed (by decide) hrem).trans ⟨fun _ _ => rfl, rfl, rfl⟩
  | mqUse _ hq => exact semsKept_queued hq

theorem semCall_cases (h : Called k L r num k' L') :
    SemsKept k L k' L' ∨ (num = DSOS_CALL_SEMOPEN ∧ SemOpened k L r k' L') ∨
      (num = DSOS_CALL_SEMWAIT ∧ SemWaited k L r k' L') ∨
      (num = DSOS_CALL_SEMPOST ∧ SemPosted k L r k' L') ∨
      (num = DSOS_CALL_SEMCLOSE ∧ SemClosed k L r k' L') := by
  by_cases hnum : OnSemaphores num
  · cases h with
    | refused => exact .inl semsKept_setRetvalue
    | semOpen h => exact .inr (.inl ⟨rfl, h⟩)
    | semWait h => exact .inr (.inr (.inl ⟨rfl, h⟩))
    | semPost h => exact .inr (.inr (.inr (.inl ⟨rfl, h⟩)))
    | semClose h => exact .inr (.inr (.inr (.inr ⟨rfl, h⟩)))
    | spawned hspawn => rcases hspawn with rfl | rfl <;> exact absurd hnum (by decide)
    | mqUse huse => rcases huse with rfl | rfl | rfl <;> exact absurd hnum (by decide)
    | _ => exact absurd hnum (by decide)
  · exact .inl (semsKept_called h hnum)

/-! ## What a wait hangs on -/

/-- A descriptor to which the first register of `p` is bound waits in the lists `L`. -/
def Attends (k : Kernel) (L : HeadAddr → List Node) (p : Nat) : Prop :=
  ∃ d s ptr, k.boundTo .semaphore p (toInt (k.arg p 0)) = .ok (some (d, s)) ∧
    (k.descriptor .semaphore d).ptr = some ptr ∧
    ⟨.semDescriptorPtr, ptr⟩ ∈ L (.waitingDescriptors s)

/-- The pointer of a descriptor of `p` leads back to `p`. -/
theorem waiterOf_bound {fd : Int} (hc : Coherent k L)
    (hbound : k.boundTo .semaphore p fd = .ok (some (d, sem)))
    (hptr : (k.descriptor .semaphore d).ptr = some ptr) : waiterOf k ptr = some p := by
  have hs := hc.tidy.strung
  obtain ⟨hm, _, _⟩ := boundTo_listed hs hbound
  obtain ⟨_, ptr', _, hptr', hback, _⟩ := (hc.tidy.tied .semaphore).bound d (allocated_of_opened hs hm)
  obtain rfl : ptr' = ptr := Option.some.inj (hptr'.symm.trans hptr)
  have howner := (hc.tidy.tied .semaphore).owner p d hm
  unfold waiterOf
  rw [hback, Option.bind_some, howner]

/-- The process `p` keeps its descriptors, and where it waits. -/
structure WaitKept (k : Kernel) (L : HeadAddr → List Node) (k' : Kernel)
    (L' : HeadAddr → List Node) (p : Nat) : Prop where
  opened : L' (.opened .semaphore p) = L (.opened .semaphore p)
  descriptor : ∀ d, ⟨.semDescriptor, d⟩ ∈ L (.opened .semaphore p) →
    k'.descriptor .semaphore d = k.descriptor .semaphore d
  waiting : ∀ s ptr, waiterOf k ptr = some p → ⟨.semDescriptorPtr, ptr⟩ ∈ L (.waitingDescriptors s) →
    ⟨.semDescriptorPtr, ptr⟩ ∈ L' (.waitingDescriptors s)

theorem SemsKept.waitKept (h : SemsKept k L k' L') : WaitKept k L k' L' p := by
  refine ⟨h.lists _ trivial, fun d _ => by rw [h.descriptor], fun s ptr _ hm => ?_⟩
  rwa [h.lists (.waitingDescriptors s) trivial]

theorem WaitKept.boundTo (h : WaitKept k L k' L' p) (hs : Strung Regular Retained k L)
    (hs' : Strung Regular Retained k' L') (fd : Int) :
    k'.boundTo .semaphore p fd = k.boundTo .semaphore p fd := by
  have hreg : Regular (HeadAddr.opened .semaphore p).nodeKind := regular_descriptorKind .semaphore
  have hkept : ∀ d ∈ (L (.opened .semaphore p)).map Node.idx,
      k'.descriptor .semaphore d = k.descriptor .semaphore d :=
    fun d hd => h.descriptor d (hs.mem_idx hreg hd)
  have hfind : ((L (.opened .semaphore p)).map Node.idx).find?
      (fun d => decide ((k'.descriptor .semaphore d).fd = fd)) =
      ((L (.opened .semaphore p)).map Node.idx).find?
        fun d => decide ((k.descriptor .semaphore d).fd = fd) := by
    refine List.find?_congr fun d hd => ?_
    rw [hkept d hd]
  unfold Kernel.boundTo descriptorListByFd
  rw [hs'.search_pure hreg, hs.search_pure hreg, h.opened, hfind]
  cases hf : ((L (.opened .semaphore p)).map Node.idx).find?
      fun d => decide ((k.descriptor .semaphore d).fd = fd) with
  | none => rfl
  | some d =>
    have hd := hkept d (List.mem_of_find?_eq_some hf)
    simp only [bind, Except.bind, hd]

theorem WaitKept.attends (h : WaitKept k L k' L' p) (hc : Coherent k L)
    (hs' : Strung Regular Retained k' L') (harg : k'.arg p 0 = k.arg p 0) (ha : Attends k L p) :
    Attends k' L' p := by
  obtain ⟨d, s, ptr, hbound, hptr, hwait⟩ := ha
  have hs := hc.tidy.strung
  obtain ⟨hm, _, _⟩ := boundTo_listed hs hbound
  refine ⟨d, s, ptr, ?_, ?_, h.waiting s ptr (waiterOf_bound hc hbound hptr) hwait⟩
  · rw [harg, h.boundTo hs hs']
    exact hbound
  · rw [h.descriptor d hm]
    exact hptr

theorem WaitKept.trans (h : WaitKept k L k' L' p) (h' : WaitKept k' L' k'' L'' p)
    (hwaiter : ∀ ptr, waiterOf k' ptr = waiterOf k ptr) : WaitKept k L k'' L'' p := by
  refine ⟨h'.opened.trans h.opened, fun d hd => ?_, fun s ptr hp hm => ?_⟩
  · rw [h'.descriptor d (by rw [h.opened]; exact hd), h.descriptor d hd]
  · exact h'.waiting s ptr ((hwaiter ptr).trans hp) (h.waiting s ptr hp hm)

/-! ## The calls on semaphores -/

/-- Another process opens a descriptor. -/
theorem waitKept_added {o : Nat} (hs : Strung Regular Retained k L) (hpr : p ≠ r)
    (h : Added Regular Retained k L .semaphore r o d ptr k') :
    WaitKept k L k' (withOpened L .semaphore r o d ptr) p := by
  refine ⟨?_, fun d' hd' => ?_, fun s ptr' _ hm => ?_⟩
  · unfold withOpened
    rw [Function.update_of_ne (by simp), Function.update_of_ne (by simpa using hpr)]
  · have hne : d' ≠ d := by
      rintro rfl
      exact h.freshDescriptor (allocated_of_opened hs hd')
    rw [h.descriptor, Function.update_self, Function.update_of_ne hne]
  · unfold withOpened
    rwa [Function.update_of_ne (by simp), Function.update_of_ne (by simp)]

/-- A new semaphore changes no other list. -/
theorem waitKept_created (h : SemCreated k L r sem k' L') : WaitKept k L k' L' p := by
  refine ⟨?_, fun d _ => by rw [h.rest], fun s ptr _ hm => ?_⟩
  · rw [h.created.lists, Function.update_of_ne opened_ne_objects]
  · rwa [h.created.lists, Function.update_of_ne (by simp [objects])]

theorem waitKept_removed {o : Nat} (hpr : p ≠ r)
    (h : Removed Regular Retained k L .semaphore r o d ptr k') :
    WaitKept k L k' (withClosed L .semaphore r o d ptr) p := by
  refine ⟨?_, fun d' _ => by rw [h.rest], fun s ptr' _ hm => ?_⟩
  · unfold withClosed
    rw [Function.update_of_ne (by simp), Function.update_of_ne (by simpa using hpr)]
  · unfold withClosed
    rwa [Function.update_of_ne (by simp), Function.update_of_ne (by simp)]

theorem waitKept_semOpen (hc : Coherent k L) (hpr : p ≠ r) (h : SemOpened k L r k' L') :
    WaitKept k L k' L' p := by
  cases h with
  | refused => exact semsKept_setRetvalue.waitKept
  | opened _ ha => exact waitKept_added hc.tidy.strung hpr ha
  | created hcre ha =>
    exact (waitKept_created hcre).trans (waitKept_added hcre.created.woven.strung hpr ha)
      fun ptr => by rw [hcre.rest]; rfl
  | createdOnly hcre =>
    exact (waitKept_created hcre).trans semsKept_setRetvalue.waitKept
      fun ptr => by rw [hcre.rest]; rfl

theorem waitKept_semWait (h : SemWaited k L r k' L') : WaitKept k L k' L' p := by
  cases h with
  | refused => exact semsKept_setRetvalue.waitKept
  | granted => exact ⟨rfl, fun _ _ => rfl, fun _ _ _ hm => hm⟩
  | blocked _ _ _ hb =>
    refine ⟨waitLists_of_ne (by simp) (by simp) (by simp) (by simp), fun _ _ => by rw [hb.rest],
      fun s ptr' _ hm => ?_⟩
    rw [waitLists_waiting]
    split
    · next he =>
      subst he
      exact List.mem_append_left _ hm
    · exact hm

/-- The process that a post wakes is the only one whose pointer leaves the list. -/
theorem waitKept_semPost (hc : Coherent k L) (h : SemPosted k L r k' L')
    (hp : p ∈ (view k' L').waiting) : WaitKept k L k' L' p := by
  cases h with
  | refused => exact semsKept_setRetvalue.waitKept
  | posted => exact ⟨rfl, fun _ _ => rfl, fun _ _ _ hm => hm⟩
  | @woken d q sem ptr rest _ _ _ hw =>
    have hpq : p ≠ q := by
      rw [hw.view_eq hc.tidy.strung] at hp
      have hp : p ∈ (view k L).waiting.erase q := hp
      exact (hc.sound.placed.nodup_waiting.mem_erase_iff.mp hp).1
    refine ⟨postLists_of_ne (by simp) (by simp) (by simp) (by simp), fun _ _ => by rw [hw.rest],
      fun s ptr' hwaiter hm => ?_⟩
    rw [postLists_waiting]
    split
    · next he =>
      subst he
      rw [hw.first, List.mem_cons] at hm
      refine hm.resolve_left fun he => hpq ?_
      cases he
      exact Option.some.inj (hwaiter.symm.trans hw.waiter)
    · exact hm

theorem waitKept_semClose (hpr : p ≠ r) (h : SemClosed k L r k' L') : WaitKept k L k' L' p := by
  cases h with
  | refused => exact semsKept_setRetvalue.waitKept
  | closed _ _ _ _ hrem =>
    have hkept := waitKept_removed hpr hrem
    exact ⟨hkept.opened, hkept.descriptor, hkept.waiting⟩
  | destroyed _ _ _ _ hrem hdes =>
    have hkept := waitKept_removed hpr hrem
    refine ⟨?_, fun d hd => ?_, fun s ptr hp hm => ?_⟩
    · rw [hdes.lists, Function.update_of_ne opened_ne_objects]
      exact hkept.opened
    · have hgone := congrFun (congrFun (congrArg Kernel.descriptor hdes.rest) .semaphore) d
      exact hgone.trans (hkept.descriptor d hd)
    · rw [hdes.lists, Function.update_of_ne (by simp [objects])]
      exact hkept.waiting s ptr hp hm

/-- Who waits before and after a call of another process keeps what the wait hangs on. -/
theorem waitKept_called (hc : Coherent k L) (hpr : p ≠ r) (h : Called k L r num k' L')
    (hp : p ∈ (view k' L').waiting) : WaitKept k L k' L' p := by
  rcases semCall_cases h with h | ⟨_, h⟩ | ⟨_, h⟩ | ⟨_, h⟩ | ⟨_, h⟩
  · exact h.waitKept
  · exact waitKept_semOpen hc hpr h
  · exact waitKept_semWait h
  · exact waitKept_semPost hc h hp
  · exact waitKept_semClose hpr h

/-! ## The lists of waiters -/

/-- Only a semaphore in the list gets waiters. -/
theorem waiters_called (h : Called k L r num k' L') (hw : L' (.waitingDescriptors s) ≠ []) :
    L (.waitingDescriptors s) ≠ [] ∨ ObjectListed L .semaphore s := by
  rcases semCall_cases h with h | ⟨_, h⟩ | ⟨_, h⟩ | ⟨_, h⟩ | ⟨_, h⟩
  · rw [h.lists (.waitingDescriptors s) trivial] at hw
    exact .inl hw
  · refine .inl ?_
    cases h with
    | refused => exact hw
    | opened => simpa [withOpened] using hw
    | created hcre => simpa [withOpened, hcre.created.lists, objects] using hw
    | createdOnly hcre => simpa [hcre.created.lists, objects] using hw
  · cases h with
    | refused => exact .inl hw
    | granted => exact .inl hw
    | blocked _ _ _ hb =>
      rw [waitLists_waiting] at hw
      split at hw
      · next he =>
        subst he
        exact .inr hb.listed
      · exact .inl hw
  · cases h with
    | refused => exact .inl hw
    | posted => exact .inl hw
    | woken _ _ hwoken =>
      rw [postLists_waiting] at hw
      split at hw
      · next he =>
        subst he
        exact .inr hwoken.listed
      · exact .inl hw
  · refine .inl ?_
    cases h with
    | refused => exact hw
    | closed => simpa [withClosed] using hw
    | destroyed _ _ _ _ _ hdes => simpa [withClosed, hdes.lists, objects] using hw

/-- The call closes the only descriptor of `s` that does not wait. -/
structure ClosesLast (k : Kernel) (r s : Nat) : Prop where
  bound : ∃ d, SemFd k r d s
  last : (k.head (.users .semaphore s)).size = 1

/-- A semaphore stays in the list until its last descriptor that does not wait is closed. -/
theorem listed_called (hs : Strung Regular Retained k L) (h : Called k L r num k' L')
    (hl : ObjectListed L .semaphore s) :
    ObjectListed L' .semaphore s ∨ (num = DSOS_CALL_SEMCLOSE ∧ ClosesLast k r s ∧
      L' (.waitingDescriptors s) = L (.waitingDescriptors s)) := by
  unfold ObjectListed objects at hl ⊢
  rcases semCall_cases h with h | ⟨_, h⟩ | ⟨_, h⟩ | ⟨_, h⟩ | ⟨hnum, h⟩
  · rw [h.lists .semaphoresList trivial]
    exact .inl hl
  · refine .inl ?_
    have hcreated : ∀ {sem : Nat} {k₁ : Kernel} {L₁ : HeadAddr → List Node},
        SemCreated k L r sem k₁ L₁ → ⟨.semaphore, s⟩ ∈ L₁ .semaphoresList := by
      intro sem k₁ L₁ hcre
      rw [hcre.created.lists, objects, Function.update_self]
      exact List.mem_append_left _ hl
    cases h with
    | refused => exact hl
    | opened => simpa [withOpened] using hl
    | created hcre =>
      unfold withOpened
      rw [Function.update_of_ne (by simp), Function.update_of_ne (by simp)]
      exact hcreated hcre
    | createdOnly hcre => exact hcreated hcre
  · refine .inl ?_
    cases h with
    | refused => exact hl
    | granted => exact hl
    | blocked => rwa [waitLists_of_ne (by simp) (by simp) (by simp) (by simp)]
  · refine .inl ?_
    cases h with
    | refused => exact hl
    | posted => exact hl
    | woken => rwa [postLists_of_ne (by simp) (by simp) (by simp) (by simp)]
  · cases h with
    | refused => exact .inl hl
    | closed => exact .inl (by simpa [withClosed] using hl)
    | @destroyed d sem ptr _ _ _ hfd _ _ hu _ hdes =>
      by_cases he : s = sem
      · subst he
        refine .inr ⟨hnum, ⟨⟨d, hfd⟩, ?_⟩, by simp [withClosed, hdes.lists, objects]⟩
        have hreg : Regular (HeadAddr.users .semaphore s).nodeKind := regular_pointerKind .semaphore
        have hempty : (L (.users .semaphore s)).erase ⟨.semDescriptorPtr, ptr⟩ = [] := by
          have hunused := hdes.unused
          unfold withClosed at hunused
          rwa [Function.update_self] at hunused
        rw [hs.size_eq hreg]
        have hlength := List.length_erase_of_mem hu
        rw [hempty, List.length_nil] at hlength
        have hpos := List.length_pos_of_mem hu
        omega
      · refine .inl ?_
        rw [hdes.lists, objects, Function.update_self]
        refine (List.mem_erase_of_ne fun hsame => he (congrArg Node.idx hsame)).mpr ?_
        simpa [withClosed] using hl

/-! ## Actions -/

theorem waiters_acted (h : Acted k L a k' L') (hw : L' (.waitingDescriptors s) ≠ []) :
    L (.waitingDescriptors s) ≠ [] ∨ ObjectListed L .semaphore s := by
  cases h with
  | ignored => exact .inl hw
  | called _ h => exact waiters_called h hw
  | ticked _ hb =>
    rw [(semsKept_beside hb.beside).lists (.waitingDescriptors s) trivial] at hw
    exact .inl hw
  | restarted hre =>
    rw [(semsKept_restarted hre).lists (.waitingDescriptors s) trivial] at hw
    exact .inl hw
  | stored => exact .inl hw

theorem validFd_of_closes (h : ClosesLast (k.setCall r DSOS_CALL_SEMCLOSE args) r s) :
    ∃ d, ValidFd k r (toInt (args.getD 0 0)) d s := by
  obtain ⟨d, hin, hbound⟩ := h.bound
  have harg : (k.setCall r DSOS_CALL_SEMCLOSE args).arg r 0 = args.getD 0 0 := arg_setCall (by decide)
  rw [harg] at hin hbound
  rw [boundTo_setCall] at hbound
  refine ⟨d, ?_, hbound⟩
  simp only [fdOutOfBounds, decide_eq_true_eq] at hin
  omega

/-- A semaphore with waiters stays in the list. -/
theorem listed_acted (hc : Coherent k L) (h : Acted k L a k' L') (hno : ¬ StrandsWaiters k a)
    (hl : ObjectListed L .semaphore s) (hw : L' (.waitingDescriptors s) ≠ []) :
    ObjectListed L' .semaphore s := by
  cases h with
  | ignored => exact hl
  | @called r num args _ _ hr h =>
    have hc₁ : Coherent (k.setCall r num args) L := coherent_setCall hc hr
    rcases listed_called hc₁.tidy.strung h hl with hl | ⟨rfl, hlast, hsame⟩
    · exact hl
    · obtain ⟨d, hfd⟩ := validFd_of_closes hlast
      rw [hsame] at hw
      refine absurd ⟨rfl, r, d, s, hr, hfd, hlast.last, fun he => hw ?_⟩ hno
      exact (hc.tidy.strung.size_zero_iff (l := .waitingDescriptors s)
        (regular_waitingDescriptors s)).mp he
  | ticked _ hb =>
    unfold ObjectListed objects
    rwa [(semsKept_beside hb.beside).lists .semaphoresList trivial]
  | restarted hre =>
    unfold ObjectListed objects
    rwa [(semsKept_restarted hre).lists .semaphoresList trivial]
  | stored => exact hl

theorem waitKept_acted (hc : Coherent k L) (h : Acted k L a k' L') (hp : p ∈ (view k L).waiting)
    (hp' : p ∈ (view k' L').waiting) : WaitKept k L k' L' p := by
  cases h with
  | ignored => exact ⟨rfl, fun _ _ => rfl, fun _ _ _ hm => hm⟩
  | @called r num args _ _ hr h =>
    have hpr : p ≠ r := by
      rintro rfl
      exact (hc.sound.placed.not_mem_of_running hr).2.1 hp
    have hc₁ : Coherent (k.setCall r num args) L := coherent_setCall hc hr
    have hkept := waitKept_called hc₁ hpr h hp'
    exact ⟨hkept.opened, hkept.descriptor, hkept.waiting⟩
  | ticked _ hb =>
    have hkept := (semsKept_beside hb.beside).waitKept (p := p)
    exact ⟨hkept.opened, hkept.descriptor, hkept.waiting⟩
  | restarted hre => exact (semsKept_restarted hre).waitKept
  | stored => exact ⟨rfl, fun _ _ => rfl, fun _ _ _ hm => hm⟩

/-! ## The invariant -/

/-- Who waits is attended to, nobody waits while there are permits, and what has waiters is in
the list. -/
structure Watched (k : Kernel) (L : HeadAddr → List Node) : Prop where
  attended : ∀ p ∈ (view k L).waiting, (k.pcb p).syscallNum = DSOS_CALL_SEMWAIT → Attends k L p
  idle : ∀ s, Idle (semOf k L s)
  listed : ∀ s, L (.waitingDescriptors s) ≠ [] → ObjectListed L .semaphore s

theorem Watched.waiter (hw : Watched k L) (hc : Coherent k L) (hp : p ∈ (view k L).waiting)
    (hnum : (k.pcb p).syscallNum = DSOS_CALL_SEMWAIT) :
    ∃ s, ObjectListed L .semaphore s ∧ some p ∈ (view k L).waiters s := by
  obtain ⟨d, s, ptr, hbound, hptr, hm⟩ := hw.attended p hp hnum
  exact ⟨s, hw.listed s (List.ne_nil_of_mem hm),
    List.mem_map.mpr ⟨_, hm, waiterOf_bound hc hbound hptr⟩⟩

/-- A process that `semWait` blocks waits with the descriptor its register names. -/
theorem attends_blocked (hc : Coherent k L) (hr : k.running = some r)
    (h : Called k L r DSOS_CALL_SEMWAIT k' L') (hs' : Strung Regular Retained k' L')
    (hp : r ∈ (view k' L').waiting) : Attends k' L' r := by
  have hout : r ∉ (view k L).waiting := (hc.sound.placed.not_mem_of_running hr).2.1
  generalize hnum : DSOS_CALL_SEMWAIT = num at h
  cases h with
  | refused => exact absurd hp hout
  | semWait h =>
    have hkept := (waitKept_semWait h (p := r)).boundTo hc.tidy.strung hs'
    cases h with
    | refused => exact absurd hp hout
    | granted => exact absurd hp hout
    | @blocked d sem ptr n rest _ hb _ hptr hblocked =>
      have harg : k'.arg r 0 = k.arg r 0 := by rw [hblocked.rest]; rfl
      refine ⟨d, sem, ptr, ?_, ?_, ?_⟩
      · rw [hkept, harg]
        exact hb
      · rw [hblocked.rest]
        exact hptr
      · rw [waitLists_waiting, if_pos rfl]
        exact List.mem_append_right _ List.mem_cons_self
  | spawned hspawn => rcases hspawn with rfl | rfl <;> exact absurd hnum (by decide)
  | mqUse huse => rcases huse with rfl | rfl | rfl <;> exact absurd hnum (by decide)
  | _ => exact absurd hnum (by decide)

theorem attends_acted (hc : Coherent k L) (hw : Watched k L) (h : Acted k L a k' L')
    (hstep : Step (view k L) a (view k' L')) (hc' : Coherent k' L')
    (hp : p ∈ (view k' L').waiting) (hnum : (k'.pcb p).syscallNum = DSOS_CALL_SEMWAIT) :
    Attends k' L' p := by
  rcases waiting_of_step hstep hc.sound hp with hold | ⟨hr, args, ha⟩
  · -- it waited before, and keeps its registers
    have hrun : (view k L).running ≠ some p := fun hr =>
      (hc.sound.placed.not_mem_of_running hr).2.1 hold
    obtain ⟨hsame, hargs⟩ := sameCall_step hstep (hc.sound.placed.live_of_waiting hold) hrun
    have hsame : (k'.pcb p).syscallNum = (k.pcb p).syscallNum := hsame
    have hargs : (k'.pcb p).syscallArgs = (k.pcb p).syscallArgs := hargs
    refine (waitKept_acted hc h hold hp).attends hc hc'.tidy.strung (congrFun hargs 0)
      (hw.attended p hold (hsame.symm.trans hnum))
  · have ha : a = .syscall (k'.pcb p).syscallNum args := ha
    rw [hnum] at ha
    subst ha
    generalize hact : Action.syscall DSOS_CALL_SEMWAIT args = act at h
    cases h with
    | ignored _ hout =>
      cases hact
      exact absurd hout (by decide)
    | called hr' h =>
      cases hact
      obtain rfl := Option.some.inj (hr'.symm.trans hr)
      exact attends_blocked (coherent_setCall hc hr) hr h hc'.tidy.strung hp
    | ticked => cases hact
    | restarted => cases hact
    | stored => cases hact

/-- A semaphore that is not in the list has no waiters, and gets none. -/
theorem unlisted_acted (hw : Watched k L) (h : Acted k L a k' L')
    (hl : ¬ ObjectListed L .semaphore s) : L' (.waitingDescriptors s) = [] := by
  by_contra hne
  rcases waiters_acted h hne with hne | hl'
  · exact hl (hw.listed s hne)
  · exact hl hl'

theorem idle_acted (hc : Coherent k L) (hw : Watched k L) (ha : Ordinary a)
    (hact : act k a = .ok k') (h : Acted k L a k' L') (hc' : Coherent k' L') :
    Idle (semOf k' L' s) := by
  by_cases hl : ObjectListed L .semaphore s
  · obtain ⟨L₁, hc₁, hmoves⟩ := sem_moves hc hl ha hact
    have hidle := hmoves.idle_kept (hw.idle s)
    unfold semOf at hidle ⊢
    rwa [waiters_unique hc'.tidy.strung hc₁.tidy.strung]
  · intro _
    show (L' (.waitingDescriptors s)).map _ = []
    rw [unlisted_acted hw h hl]
    rfl

theorem watched_acted (hc : Coherent k L) (hw : Watched k L) (ha : Ordinary a)
    (hno : ¬ StrandsWaiters k a) (hact : act k a = .ok k') (h : Acted k L a k' L')
    (hstep : Step (view k L) a (view k' L')) (hc' : Coherent k' L') : Watched k' L' := by
  refine ⟨fun p hp hnum => attends_acted hc hw h hstep hc' hp hnum,
    fun s => idle_acted hc hw ha hact h hc', fun s hne => ?_⟩
  exact listed_acted hc h hno ((waiters_acted h hne).elim (hw.listed s) id) hne

/-- What the invariant says of the kernel. -/
theorem Watched.forgets_nobody (hw : Watched k L) (hc : Coherent k L) : NoForgottenWaiter k := by
  have hs := hc.tidy.strung
  refine ⟨fun p hp hnum => ?_, fun s hpos => ?_, fun args k' s hact hnew => ?_⟩
  · obtain ⟨d, s, ptr, hbound, hptr, hm⟩ := hw.attended p ((blocked_iff hs).mp hp) hnum
    have hl := hw.listed s (List.ne_nil_of_mem hm)
    have hreg : Regular HeadAddr.semaphoresList.nodeKind := (by decide : Regular .semaphore)
    exact ⟨d, s, ptr, hbound, hs.allocated hreg hl, (listed_iff hs).mpr hl, hptr,
      (hs.linked_iff (l := .waitingDescriptors s) (regular_waitingDescriptors s)).mpr hm⟩
  · have hnone : (L (.waitingDescriptors s)).map (fun x => waiterOf k x.idx) = [] := hw.idle s hpos
    exact (hs.size_zero_iff (l := .waitingDescriptors s) (regular_waitingDescriptors s)).mpr
      (List.map_eq_nil_iff.mp hnone)
  · obtain ⟨L', hacted, hc', _⟩ :=
      act_done hc (a := .syscall DSOS_CALL_SEMOPEN args) trivial hact
    have hl : ¬ ObjectListed L .semaphore s := fun hl => hnew.before ((listed_iff hs).mpr hl)
    exact (hc'.tidy.strung.size_zero_iff (l := .waitingDescriptors s)
      (regular_waitingDescriptors s)).mpr (unlisted_acted hw hacted hl)

/-! ## Runs -/

theorem watched_noNodes : Watched k noNodes :=
  ⟨fun _ hp => (List.not_mem_nil hp).elim, fun _ _ => rfl, fun _ hne => absurd rfl hne⟩

/-- As long as no `semClose` destroys a semaphore with waiters, no waiter is forgotten. -/
theorem no_forgotten_waiter {mem : Int → UInt8} {k₀ : Kernel} {as : List Action}
    (hs : Started mem k₀)
    (hrun : Run act (fun k a => Ordinary a ∧ ¬ StrandsWaiters k a) k₀ as k) :
    NoForgottenWaiter k := by
  obtain ⟨L, hc, hw⟩ : ∃ L, Coherent k L ∧ Watched k L := by
    refine run_invariant (I := fun k => ∃ L, Coherent k L ∧ Watched k L) ?_
      ⟨noNodes, booted_coherent (start_booted hs), watched_noNodes⟩ hrun
    rintro k a k' ⟨L, hc, hw⟩ ⟨ha, hno⟩ hact
    obtain ⟨L', hacted, hc', hstep⟩ := act_done hc ha hact
    exact ⟨L', hc', watched_acted hc hw ha hno hact hacted hstep hc'⟩
  exact hw.forgets_nobody hc

/-- A test that passes when nothing is closed. -/
def closesNothing (_ : Kernel) (a : Action) : Bool :=
  match a with
  | .syscall num _ => decide (num ≠ DSOS_CALL_SEMCLOSE)
  | .dispatch _ => false
  | _ => true

theorem not_strands_of_closesNothing (k : Kernel) (a : Action) (h : closesNothing k a = true) :
    Ordinary a ∧ ¬ StrandsWaiters k a := by
  cases a with
  | syscall num args => exact ⟨trivial, fun hs => of_decide_eq_true h hs.1⟩
  | timer => exact ⟨trivial, id⟩
  | restart => exact ⟨trivial, id⟩
  | store => exact ⟨trivial, id⟩
  | dispatch => cases h

/-- Init waits for a semaphore without permits. -/
theorem no_forgotten_waiter_blocked :
    ∃ k₀ k, Started (fun _ => 0) k₀ ∧
      Run act (fun k a => Ordinary a ∧ ¬ StrandsWaiters k a) k₀
        [.syscall DSOS_CALL_SEMOPEN [7, 1, 0], .syscall DSOS_CALL_SPAWN [0, 0],
          .syscall DSOS_CALL_SEMWAIT [0]] k ∧
      Blocked k 0 ∧ NoForgottenWaiter k := by
  obtain ⟨k₀, k, hs, hrun, htest⟩ := exists_run_from_start _ closesNothing
    [.syscall DSOS_CALL_SEMOPEN [7, 1, 0], .syscall DSOS_CALL_SPAWN [0, 0],
      .syscall DSOS_CALL_SEMWAIT [0]]
    (fun k => (k.head .waitingList).first = some ⟨.pcb, 0⟩) not_strands_of_closesNothing
    (by decide +kernel)
  exact ⟨k₀, k, hs, hrun, linked_first (of_decide_eq_true htest), no_forgotten_waiter hs hrun⟩

/-- While init waits for a semaphore, its child opens it and closes it again: the semaphore is
gone and init still waits. The next semaphore that the child creates begins with a waiter. -/
theorem last_close_forgets_waiter :
    ∃ k₀ k k', Started (fun _ => 0) k₀ ∧
      Run act (fun _ a => Ordinary a) k₀
        [.syscall DSOS_CALL_SEMOPEN [7, 1, 0], .syscall DSOS_CALL_SPAWN [0, 0],
          .syscall DSOS_CALL_SEMWAIT [0], .syscall DSOS_CALL_SEMOPEN [7, 0, 0],
          .syscall DSOS_CALL_SEMCLOSE [0]] k ∧
      Blocked k 0 ∧ (k.pcb 0).syscallNum = DSOS_CALL_SEMWAIT ∧ ¬ Attended k 0 ∧
      k.act (.syscall DSOS_CALL_SEMOPEN [9, 1, 0]) = .ok k' ∧ Creates k k' 0 ∧
      (k'.head (.waitingDescriptors 0)).size = 1 ∧ ¬ NoForgottenWaiter k := by
  obtain ⟨k₀, k, hs, hrun, htest⟩ := exists_run_from_start (fun _ a => Ordinary a)
    (fun _ a => decide (Ordinary a))
    [.syscall DSOS_CALL_SEMOPEN [7, 1, 0], .syscall DSOS_CALL_SPAWN [0, 0],
      .syscall DSOS_CALL_SEMWAIT [0], .syscall DSOS_CALL_SEMOPEN [7, 0, 0],
      .syscall DSOS_CALL_SEMCLOSE [0]]
    (fun k => (k.head .waitingList).first = some ⟨.pcb, 0⟩ ∧
      (k.pcb 0).syscallNum = DSOS_CALL_SEMWAIT ∧ (k.head .semaphoresList).size = 0 ∧
      (k.act (.syscall DSOS_CALL_SEMOPEN [9, 1, 0])).toOption.any fun k' =>
        (k'.head .semaphoresList).first = some ⟨.semaphore, 0⟩ ∧
          (k'.head (.waitingDescriptors 0)).size = 1)
    (fun _ _ h => of_decide_eq_true h) (by decide +kernel)
  obtain ⟨hfirst, hnum, hempty, hany⟩ := of_decide_eq_true htest
  obtain ⟨k', hopen, hlisted, hsize⟩ := exists_of_any hany
  obtain ⟨L, hc⟩ := coherent_run hs hrun
  have hblocked : Blocked k 0 := linked_first hfirst
  have hno : ¬ Attended k 0 := by
    rintro ⟨_, s, _, _, _, hl, _⟩
    exact not_listed_of_empty hc hempty hl
  exact ⟨k₀, k, k', hs, hrun, hblocked, hnum, hno, hopen,
    ⟨not_listed_of_empty hc hempty, linked_first hlisted⟩, hsize,
    fun h => hno (h.attended 0 hblocked hnum)⟩

end DisastrOS.Semaphore.Waiters
