import DisastrOS.Process.SystemRuns
import DisastrOS.Process.TableCalls

/-!
# The descriptors of a process

What an action does to the descriptors that one process has open in one table: it opens one
under the number that the process counts, or it closes one. A new process starts counting
at 0.
-/
namespace DisastrOS.Process.FdTables

open DisastrOS.Machine
open DisastrOS.Machine.Kernel
open DisastrOS.Machine.Runs
open DisastrOS.Lists.Sequences
open DisastrOS.Lists.Wiring
open DisastrOS.Lists.RegularLists
open DisastrOS.Lists.Boot
open DisastrOS.Pool.Blocks
open DisastrOS.Descriptors.Bindings
open DisastrOS.Descriptors.Tables
open DisastrOS.Process.View
open DisastrOS.Process.Steps
open DisastrOS.Process.Coherence
open DisastrOS.Process.Creation
open DisastrOS.Process.Exit
open DisastrOS.Process.Handles
open DisastrOS.Process.Transitions
open DisastrOS.Process.TableCalls
open DisastrOS.Process.SystemRuns
open DisastrOS.Process.Waiting
open DisastrOS.Semaphore.Calls
open DisastrOS.Resource.Calls
open DisastrOS.MessageQueue.CoherentCalls
open DisastrOS.Library.GuardedRun

/-- The numbers of the open descriptors, and the number of the next one. -/
structure FdTable where
  fds : List Int
  next : Int

/-- The descriptors that process `p` has open in the table `t`. -/
def fdTable (t : Table) (k : Kernel) (L : HeadAddr → List Node) (p : Nat) : FdTable :=
  ⟨(L (.opened t p)).map fun x => (k.descriptor t x.idx).fd, (k.pcb p).fdCounter t⟩

/-- At most one descriptor is opened, when `opens` holds, or closed. A process goes on counting
its resources when it closes one. -/
inductive FdStep (t : Table) (opens : Prop) : FdTable → FdTable → Prop
  | kept (s : FdTable) : FdStep t opens s s
  | opened (ho : opens) (s : FdTable) : FdStep t opens s ⟨s.fds ++ [s.next], s.next + 1⟩
  | closed (as : List Int) (fd : Int) (bs : List Int) (next : Int) :
      FdStep t opens ⟨as ++ fd :: bs, next⟩ ⟨as ++ bs, if t = .resource then next else next - 1⟩

/-- The call that opens an object of a table. -/
def openCall : Table → Int
  | .resource => DSOS_CALL_OPEN_RESOURCE
  | .semaphore => DSOS_CALL_SEMOPEN
  | .mq => DSOS_CALL_MQOPEN

/-- The descriptors of `p` before and after an action. Only the semaphores of a dead process
are there when its block is used again, and only its resources are freed with it. -/
inductive FdMoved (t : Table) (opens : Prop) (k : Kernel) (L : HeadAddr → List Node) (k' : Kernel)
    (L' : HeadAddr → List Node) (p : Nat) : Prop
  | old (hp : Allocated k' .pcb p → Allocated k .pcb p)
      (h : FdStep t opens (fdTable t k L p) (fdTable t k' L' p))
  | new (hp : ¬ Allocated k .pcb p)
      (h : fdTable t k' L' p = ⟨if t = .semaphore then (fdTable t k L p).fds else [], 0⟩)
  | freed (ht : t = .resource) (hp : ¬ Allocated k' .pcb p)

variable {k k' k'' k₁ : Kernel} {L L' L'' L₁ : HeadAddr → List Node} {t t' : Table}
  {p r o d ptr : Nat} {num v : Int} {a : Action} {opens : Prop}

/-! ## Other tables -/

/-- Nothing is opened or closed in the table `t`. -/
structure FdsKept (t : Table) (k : Kernel) (L : HeadAddr → List Node) (k' : Kernel)
    (L' : HeadAddr → List Node) : Prop where
  descriptor : k'.descriptor t = k.descriptor t
  opened : ∀ p, L' (.opened t p) = L (.opened t p)
  counter : ∀ p, (k'.pcb p).fdCounter t = (k.pcb p).fdCounter t

theorem FdsKept.eq (h : FdsKept t k L k' L') (p : Nat) : fdTable t k' L' p = fdTable t k L p := by
  unfold fdTable
  rw [h.opened, h.descriptor, h.counter]

theorem FdsKept.trans (h : FdsKept t k L k' L') (h' : FdsKept t k' L' k'' L'') :
    FdsKept t k L k'' L'' :=
  ⟨h'.descriptor.trans h.descriptor, fun p => (h'.opened p).trans (h.opened p),
    fun p => (h'.counter p).trans (h.counter p)⟩

theorem fdsKept_same (hdescriptor : k'.descriptor = k.descriptor) (hpcb : k'.pcb = k.pcb) :
    FdsKept t k L k' L :=
  ⟨by rw [hdescriptor], fun _ => rfl, fun _ => by rw [hpcb]⟩

theorem fdsKept_setRetvalue : FdsKept t k L (k.setRetvalue r v) L :=
  ⟨rfl, fun _ => rfl, fun p => counter_setRetvalue t p⟩

theorem counter_setCall {args : List Int} (t : Table) (p : Nat) :
    ((k.setCall r num args).pcb p).fdCounter t = (k.pcb p).fdCounter t :=
  counter_modPcb (fun _ t => by cases t <;> rfl) t p

theorem fdsKept_setCall {args : List Int} : FdsKept t k L (k.setCall r num args) L :=
  ⟨rfl, fun _ => rfl, fun p => counter_setCall t p⟩

theorem fdsKept_scheduled (h : Scheduled k L k' L') : FdsKept t k L k' L' :=
  ⟨by rw [h.rest], fun _ => h.lists _ not_false, h.counter t⟩

theorem fdsKept_beside (h : Beside k L k' L') : FdsKept t k L k' L' :=
  ⟨by rw [h.rest], fun _ => h.lists _ not_false, h.counter t⟩

theorem fdsKept_created (h : Created t' k L o k' L') : FdsKept t k L k' L' := by
  refine ⟨by rw [h.rest], fun p => ?_, fun p => by rw [h.rest]⟩
  rw [h.lists, Function.update_of_ne (by cases t' <;> simp [objects])]

theorem fdsKept_destroyed (h : Destroyed t' k L o k' L') : FdsKept t k L k' L' := by
  refine ⟨by rw [h.rest], fun p => ?_, fun p => by rw [h.rest]⟩
  rw [h.lists, Function.update_of_ne (by cases t' <;> simp [objects])]

theorem fdsKept_queued (h : Queued k L k' L') : FdsKept t k L k' L' := by
  refine ⟨by rw [h.rest], fun p => h.lists _ (not_queueKind_table t).1, fun p => ?_⟩
  rw [h.pcb p]
  cases t <;> rfl

@[simp]
theorem fdCounter_retvalue (q : PCB) (v : Int) (t : Table) :
    { q with syscallRetvalue := v }.fdCounter t = q.fdCounter t := by
  cases t <;> rfl

theorem fdCounter_setFdCounter_ne (q : PCB) (n : Int) (hne : t ≠ t') :
    (q.setFdCounter t' n).fdCounter t = q.fdCounter t := by
  cases t <;> cases t' <;> first | rfl | exact absurd rfl hne

theorem fdsKept_added (h : Added Regular Retained k L t' r o d ptr k') (hne : t ≠ t') :
    FdsKept t k L k' (withOpened L t' r o d ptr) := by
  refine ⟨by rw [h.descriptor, Function.update_of_ne hne], fun p => ?_, fun p => ?_⟩
  · unfold withOpened
    rw [Function.update_of_ne (by simp), Function.update_of_ne (by simp [hne])]
  · rw [h.pcb, Function.update_apply]
    split
    · next he => rw [he, fdCounter_retvalue, fdCounter_setFdCounter_ne _ _ hne]
    · rfl

theorem fdsKept_removed (h : Removed Regular Retained k L t' r o d ptr k') (hne : t ≠ t') :
    FdsKept t k L k' (withClosed L t' r o d ptr) := by
  refine ⟨by rw [h.rest], fun p => ?_, fun p => by rw [h.rest]⟩
  unfold withClosed
  rw [Function.update_of_ne (by simp), Function.update_of_ne (by simp [hne])]

/-! ## The table itself -/

theorem FdStep.mono {opens' : Prop} {s s' : FdTable} (h : FdStep t opens s s')
    (ho : opens → opens') : FdStep t opens' s s' := by
  cases h with
  | kept => exact .kept _
  | opened h => exact .opened (ho h) _
  | closed => exact .closed ..

theorem fdStep_kept (h : FdsKept t k L k' L') :
    FdStep t opens (fdTable t k L p) (fdTable t k' L' p) := by
  rw [h.eq p]
  exact .kept _

/-- The new descriptor gets the number that its process counts. -/
theorem fdStep_added (hs : Strung Regular Retained k L)
    (h : Added Regular Retained k L t r o d ptr k') :
    FdStep t (p = r) (fdTable t k L p) (fdTable t k' (withOpened L t r o d ptr) p) := by
  have hreg : Regular (HeadAddr.opened t p).nodeKind := regular_descriptorKind t
  have hold : ∀ x ∈ L (.opened t p), (k'.descriptor t x.idx).fd = (k.descriptor t x.idx).fd := by
    intro x hx
    have hne : x.idx ≠ d := by
      rintro rfl
      have hlive := hs.live _ x hreg hx
      rw [hs.kind _ x hreg hx] at hlive
      exact h.freshDescriptor hlive
    rw [h.descriptor, Function.update_self, Function.update_of_ne hne]
  have hmap := List.map_congr_left hold
  have hcounter : (k'.pcb p).fdCounter t = if p = r then (k.pcb r).fdCounter t + 1
      else (k.pcb p).fdCounter t := by
    rw [h.pcb, Function.update_apply]
    split
    · rw [fdCounter_retvalue, fdCounter_setFdCounter]
    · rfl
  have hopened : withOpened L t r o d ptr (.opened t p) =
      if p = r then L (.opened t p) ++ [⟨t.descriptorKind, d⟩] else L (.opened t p) := by
    unfold withOpened
    rw [Function.update_of_ne (by simp), Function.update_apply]
    by_cases he : p = r
    · subst he
      rw [if_pos rfl, if_pos rfl]
    · rw [if_neg (by simpa using he), if_neg he]
  unfold fdTable
  rw [hopened, hcounter]
  by_cases he : p = r
  · subst he
    rw [if_pos rfl, if_pos rfl, List.map_append, hmap]
    have hnew : (k'.descriptor t d).fd = (k.pcb p).fdCounter t := by
      rw [h.descriptor, Function.update_self, Function.update_self]
    rw [List.map_singleton, hnew]
    exact .opened rfl ⟨_, _⟩
  · rw [if_neg he, if_neg he, hmap]
    exact .kept _

/-- A descriptor of `r` has been closed. -/
theorem fdStep_removed (h : Removed Regular Retained k L t r o d ptr k₁)
    (hm : ⟨t.descriptorKind, d⟩ ∈ L (.opened t r)) (hkept : k'.descriptor t = k₁.descriptor t)
    (hcounter : ∀ p, (k'.pcb p).fdCounter t = if p = r ∧ t ≠ .resource then
      (k.pcb p).fdCounter t - 1 else (k.pcb p).fdCounter t)
    (hopened : ∀ p, L' (.opened t p) = withClosed L t r o d ptr (.opened t p)) :
    FdStep t opens (fdTable t k L p) (fdTable t k' L' p) := by
  have hdescriptor : k'.descriptor t = k.descriptor t := by rw [hkept, h.rest]
  have hclosed : withClosed L t r o d ptr (.opened t p) =
      if p = r then (L (.opened t p)).erase ⟨t.descriptorKind, d⟩ else L (.opened t p) := by
    unfold withClosed
    rw [Function.update_of_ne (by simp), Function.update_apply]
    by_cases he : p = r
    · subst he
      rw [if_pos rfl, if_pos rfl]
    · rw [if_neg (by simpa using he), if_neg he]
  unfold fdTable
  rw [hopened, hclosed, hdescriptor, hcounter]
  by_cases he : p = r
  · subst he
    obtain ⟨as, bs, _, hsplit, herase⟩ := List.exists_erase_eq hm
    rw [if_pos rfl, herase, hsplit, List.map_append, List.map_append, List.map_cons]
    have hnext : (if p = p ∧ t ≠ .resource then (k.pcb p).fdCounter t - 1
        else (k.pcb p).fdCounter t) =
          if t = .resource then (k.pcb p).fdCounter t else (k.pcb p).fdCounter t - 1 := by
      by_cases ht : t = .resource <;> simp [ht]
    rw [hnext]
    exact .closed _ _ _ _
  · rw [if_neg he, if_neg fun hp => he hp.1]
    exact .kept _

/-! ## The calls -/

theorem fdStep_setRetvalue {s : FdTable} (h : FdStep t opens s (fdTable t k L p)) :
    FdStep t opens s (fdTable t (k.setRetvalue r v) L p) := by
  rwa [fdsKept_setRetvalue.eq p]

theorem fdStep_opened (hkept : FdsKept t k L k₁ L₁) (hs : Strung Regular Retained k₁ L₁)
    (h : Added Regular Retained k₁ L₁ t' r o d ptr k') :
    FdStep t (p = r ∧ t = t') (fdTable t k L p) (fdTable t k' (withOpened L₁ t' r o d ptr) p) := by
  rw [← hkept.eq p]
  by_cases ht : t = t'
  · subst ht
    exact (fdStep_added hs h).mono fun hp => ⟨hp, rfl⟩
  · exact fdStep_kept (fdsKept_added h ht)

/-- A close, where `n` is what the call does to the counter. -/
theorem fdStep_closed {n : Int → Int} (h : Removed Regular Retained k L t' r o d ptr k₁)
    (hm : ⟨t'.descriptorKind, d⟩ ∈ L (.opened t' r))
    (hn : ∀ c, n c = if t' = .resource then c else c - 1) :
    FdStep t opens (fdTable t k L p) (fdTable t (k₁.modPcb r fun q => q.setFdCounter t' (n (q.fdCounter t')))
      (withClosed L t' r o d ptr) p) := by
  by_cases ht : t = t'
  · subst ht
    refine fdStep_removed h hm rfl (fun p => ?_) fun _ => rfl
    show (Function.update k₁.pcb r _ p).fdCounter t = _
    rw [h.rest, Function.update_apply]
    split
    · next he =>
      rw [fdCounter_setFdCounter, hn, he]
      by_cases ht : t = .resource <;> simp [ht]
    · next he => rw [if_neg fun hp => he hp.1]
  · refine fdStep_kept ((fdsKept_removed h ht).trans ⟨rfl, fun _ => rfl, fun p => ?_⟩)
    show (Function.update k₁.pcb r _ p).fdCounter t = _
    rw [Function.update_apply]
    split
    · next he => rw [fdCounter_setFdCounter_ne _ _ ht, he]
    · rfl

theorem fdStep_semOpen (hc : Coherent k L) (h : SemOpened k L r k' L') :
    FdStep t (p = r ∧ t = .semaphore) (fdTable t k L p) (fdTable t k' L' p) := by
  cases h with
  | refused => exact fdStep_kept fdsKept_setRetvalue
  | opened _ h => exact fdStep_opened (fdsKept_same rfl rfl) hc.tidy.strung h
  | created hnew h =>
    exact fdStep_opened (fdsKept_created hnew.created) hnew.created.woven.strung h
  | createdOnly hnew _ =>
    exact fdStep_kept ((fdsKept_created hnew.created).trans fdsKept_setRetvalue)

theorem fdStep_semWait (h : SemWaited k L r k' L') :
    FdStep t opens (fdTable t k L p) (fdTable t k' L' p) := by
  cases h with
  | refused => exact fdStep_kept fdsKept_setRetvalue
  | granted => exact fdStep_setRetvalue (.kept _)
  | blocked _ _ _ h =>
    refine fdStep_kept ⟨by rw [h.rest], fun p => ?_, fun p => by rw [h.rest]⟩
    exact waitLists_of_ne nofun nofun nofun nofun

theorem fdStep_semPost (h : SemPosted k L r k' L') :
    FdStep t opens (fdTable t k L p) (fdTable t k' L' p) := by
  cases h with
  | refused => exact fdStep_kept fdsKept_setRetvalue
  | posted => exact fdStep_setRetvalue (.kept _)
  | woken _ _ h =>
    refine fdStep_kept ⟨by rw [h.rest], fun p => ?_, fun p => by rw [h.rest]⟩
    exact postLists_of_ne nofun nofun nofun nofun

theorem fdStep_semClose (h : SemClosed k L r k' L') :
    FdStep t opens (fdTable t k L p) (fdTable t k' L' p) := by
  have hn : ∀ c : Int, c - 1 = if Table.semaphore = .resource then c else c - 1 := fun _ => rfl
  cases h with
  | refused => exact fdStep_kept fdsKept_setRetvalue
  | closed _ _ hm _ h _ => exact fdStep_setRetvalue (fdStep_closed h hm hn)
  | destroyed _ _ hm _ h hd =>
    have hstep : FdStep t opens _ _ := fdStep_closed (p := p) h hm hn
    rw [← (fdsKept_destroyed hd).eq p] at hstep
    exact fdStep_setRetvalue hstep

theorem fdStep_openResource (hc : Coherent k L) (h : ResOpened k L r k' L') :
    FdStep t (p = r ∧ t = .resource) (fdTable t k L p) (fdTable t k' L' p) := by
  cases h with
  | refused => exact fdStep_kept fdsKept_setRetvalue
  | opened _ h => exact fdStep_opened (fdsKept_same rfl rfl) hc.tidy.strung h
  | created hnew h =>
    exact fdStep_opened (fdsKept_created hnew.created) hnew.created.woven.strung h
  | createdOnly hnew _ =>
    exact fdStep_kept ((fdsKept_created hnew.created).trans fdsKept_setRetvalue)

theorem fdStep_closeResource (h : ResClosed k L r k' L') :
    FdStep t opens (fdTable t k L p) (fdTable t k' L' p) := by
  cases h with
  | refused => exact fdStep_kept fdsKept_setRetvalue
  | @closed d res ptr k₁ hm _ _ h =>
    refine fdStep_setRetvalue ?_
    by_cases ht : t = .resource
    · subst ht
      exact fdStep_removed h hm rfl (fun p => by rw [h.rest, if_neg (by simp)]) fun _ => rfl
    · exact fdStep_kept (fdsKept_removed h ht)

theorem fdStep_destroyResource (h : ResDestroyed k L r k' L') :
    FdStep t opens (fdTable t k L p) (fdTable t k' L' p) := by
  cases h with
  | refused => exact fdStep_kept fdsKept_setRetvalue
  | destroyed h => exact fdStep_kept ((fdsKept_destroyed h).trans fdsKept_setRetvalue)

theorem fdStep_mqOpen (h : MqOpened k L r k' L') :
    FdStep t (p = r ∧ t = .mq) (fdTable t k L p) (fdTable t k' L' p) := by
  cases h with
  | unopened h => exact fdStep_kept (fdsKept_queued h)
  | opened hq _ _ h => exact fdStep_opened (fdsKept_queued hq) hq.settled.strung h

theorem fdStep_mqClose (h : MqClosed k L r k' L') :
    FdStep t opens (fdTable t k L p) (fdTable t k' L' p) := by
  cases h with
  | refused => exact fdStep_kept fdsKept_setRetvalue
  | closed _ _ _ hm _ h => exact fdStep_setRetvalue (fdStep_closed h hm fun _ => rfl)

/-! ## Processes come and go -/

theorem fdMoved_spawned {c : Nat} (h : Spawned k L r c ptr k' L') (hr : Allocated k .pcb r) :
    FdMoved t opens k L k' L' p := by
  have hlists : L' (.opened t p) = allocLists L c (.opened t p) := by
    rw [h.lists, Function.update_of_ne (by simp), Function.update_of_ne (by simp)]
  have hdescriptor : k'.descriptor = k.descriptor := by rw [h.rest]
  have hne : r ≠ c := fun he => h.fresh (he ▸ hr)
  by_cases he : p = c
  · subst he
    refine .new h.fresh ?_
    have hcounter : (k'.pcb p).fdCounter t = 0 := by
      rw [h.pcb, Function.update_of_ne hne.symm, Function.update_self]
      cases t <;> rfl
    unfold fdTable
    rw [hlists, hcounter, hdescriptor]
    cases t <;> simp [allocLists]
  · have hlive : Allocated k' .pcb p → Allocated k .pcb p := by
      intro hp
      rcases (h.allocated _ _).mp hp with ⟨_, rfl⟩ | ⟨hk, _⟩ | hlive
      · exact absurd rfl he
      · cases hk
      · exact hlive
    have hopened : allocLists L c (.opened t p) = L (.opened t p) :=
      allocLists_of_ne (by simp [he]) (by simp) (by simp [he])
    have hcounter : (k'.pcb p).fdCounter t = (k.pcb p).fdCounter t := by
      rw [h.pcb, Function.update_apply]
      split
      · next hpr => rw [fdCounter_retvalue, hpr]
      · rw [Function.update_of_ne he]
    refine .old hlive ?_
    unfold fdTable
    rw [hlists, hopened, hcounter, hdescriptor]
    exact .kept _

/-- The same for the first process that a restart makes. -/
theorem fdMoved_restarted {c : Nat} (h : Restarted k L c k' L') : FdMoved t opens k L k' L' p := by
  have hdescriptor : k'.descriptor = k.descriptor := by rw [h.rest]
  by_cases he : p = c
  · subst he
    refine .new h.fresh ?_
    have hcounter : (k'.pcb p).fdCounter t = 0 := by
      rw [h.pcb, Function.update_self]
      cases t <;> rfl
    unfold fdTable
    rw [h.lists, hcounter, hdescriptor]
    cases t <;> simp [allocLists]
  · have hlive : Allocated k' .pcb p → Allocated k .pcb p := fun hp =>
      ((h.allocated _ _).mp hp).resolve_left fun hnew => he hnew.2
    have hopened : L' (.opened t p) = L (.opened t p) :=
      h.lists_of_ne (by simp [he]) (by simp)
    have hcounter : (k'.pcb p).fdCounter t = (k.pcb p).fdCounter t := by
      rw [h.pcb, Function.update_of_ne he]
    refine .old hlive ?_
    unfold fdTable
    rw [hopened, hcounter, hdescriptor]
    exact .kept _

theorem fdsKept_collected {c : Nat} (h : Collected k L r ptr c k' L') : FdsKept t k L k' L' := by
  refine ⟨by rw [h.rest], fun p => ?_, fun p => ?_⟩
  · rw [h.lists, Function.update_of_ne (by simp), Function.update_of_ne (by simp)]
  · rw [h.pcb, Function.update_apply]
    split
    · next he => rw [fdCounter_retvalue, he]
    · rfl

/-- When the dead process `r` is freed its resources are, too. -/
theorem fdTable_reported {parent : Nat} (h : Reported k L r parent ptr k' L')
    (hne : p ≠ r ∨ t ≠ .resource) : fdTable t k' L' p = fdTable t k L p := by
  have hopened : L' (.opened t p) = L (.opened t p) :=
    h.lists _ (by simp) (by simp) (by simp) (by simpa [imp_iff_not_or, or_comm] using hne) (by simp)
  have hcounter : (k'.pcb p).fdCounter t = (k.pcb p).fdCounter t := by
    rw [h.pcb, Function.update_apply]
    split
    · next he =>
      rw [he]
      cases t <;> rfl
    · rfl
  have hdescriptor : k'.descriptor = k.descriptor := by rw [h.rest]
  unfold fdTable
  rw [hopened, hcounter, hdescriptor]

theorem fdMoved_undisturbed (h : FdStep t opens (fdTable t k L p) (fdTable t k' L' p))
    (hkept : Undisturbed k L k' L') : FdMoved t opens k L k' L' p :=
  .old (allocated_of_pool (hkept.pool .pcb (.inl rfl))).mp h

theorem fdMoved_scheduled (h : Scheduled k L k' L') : FdMoved t opens k L k' L' p :=
  .old (allocated_of_pool (h.pool .pcb (by decide))).mp (fdStep_kept (fdsKept_scheduled h))

theorem fdMoved_called (hc : Coherent k L) (hr : k.running = some r)
    (h : Called k L r num k' L') : FdMoved t (p = r ∧ num = openCall t) k L k' L' p := by
  have hrl : Allocated k .pcb r := hc.sound.placed.live_of_running hr
  cases h with
  | refused => exact .old id (fdStep_kept fdsKept_setRetvalue)
  | preempted hs _ => exact fdMoved_scheduled hs
  | slept hs _ => exact fdMoved_scheduled hs
  | spawned _ hsp => exact fdMoved_spawned hsp hrl
  | collected _ _ _ _ hcol =>
    exact .old (fun hp => ((hcol.allocated _ _).mp hp).2.2) (fdStep_kept (fdsKept_collected hcol))
  | waits _ _ hs => exact fdMoved_scheduled hs
  | exited hd _ hb hk _ =>
    have hpool : k'.pool = k.pool := by rw [hk]; exact hd.rest ▸ rfl
    exact .old (allocated_of_pool (by rw [hpool])).mp (fdStep_kept (fdsKept_beside hb))
  | reported hd _ hrep =>
    by_cases hfreed : t = .resource ∧ p = r
    · exact .freed hfreed.1 fun hp => ((hrep.allocated _ _).mp hp).2.1 ⟨rfl, hfreed.2⟩
    · refine .old (fun hp => ?_) ?_
      · have hlive := ((hrep.allocated _ _).mp hp).1
        rwa [hd.rest] at hlive
      · rw [fdTable_reported hrep (by tauto)]
        exact fdStep_kept (fdsKept_beside hd.beside)
  | semOpen ho =>
    refine fdMoved_undisturbed ((fdStep_semOpen hc ho).mono ?_) (undisturbed_semOpen ho)
    exact fun h => ⟨h.1, h.2 ▸ rfl⟩
  | semWait ho => exact fdMoved_undisturbed (fdStep_semWait ho) (undisturbed_semWait ho)
  | semPost ho => exact fdMoved_undisturbed (fdStep_semPost ho) (undisturbed_semPost ho)
  | semClose ho => exact fdMoved_undisturbed (fdStep_semClose ho) (undisturbed_semClose ho)
  | openResource ho =>
    refine fdMoved_undisturbed ((fdStep_openResource hc ho).mono ?_) (undisturbed_openResource ho)
    exact fun h => ⟨h.1, h.2 ▸ rfl⟩
  | closeResource ho =>
    exact fdMoved_undisturbed (fdStep_closeResource ho) (undisturbed_closeResource ho)
  | destroyResource ho =>
    exact fdMoved_undisturbed (fdStep_destroyResource ho) (undisturbed_destroyResource ho)
  | mqOpen ho =>
    refine fdMoved_undisturbed ((fdStep_mqOpen ho).mono ?_) (undisturbed_mqOpen ho)
    exact fun h => ⟨h.1, h.2 ▸ rfl⟩
  | mqClose ho => exact fdMoved_undisturbed (fdStep_mqClose ho) (undisturbed_mqClose ho)
  | mqUse _ hq => exact fdMoved_undisturbed (fdStep_kept (fdsKept_queued hq)) (undisturbed_queued hq)

/-- Process `p` makes the call that opens an object of the table `t`. -/
def Opening (t : Table) (k : Kernel) (a : Action) (p : Nat) : Prop :=
  k.running = some p ∧ ∃ args, a = .syscall (openCall t) args

/-- What an action does to the descriptors of one process in one table. -/
theorem fdMoved_acted (hc : Coherent k L) (h : Acted k L a k' L') :
    FdMoved t (Opening t k a p) k L k' L' p := by
  cases h with
  | ignored => exact .old id (.kept _)
  | @called r num args _ _ hr hcall =>
    have hopens : p = r ∧ num = openCall t → Opening t k (.syscall num args) p := fun h =>
      ⟨h.1 ▸ hr, args, by rw [h.2]⟩
    cases fdMoved_called (t := t) (p := p) (coherent_setCall hc hr) hr hcall with
    | old hlive h => exact .old hlive (by rw [fdsKept_setCall.eq p] at h; exact h.mono hopens)
    | new hlive h => exact .new hlive (by rwa [fdsKept_setCall.eq p] at h)
    | freed ht hp => exact .freed ht hp
  | ticked _ hs =>
    refine .old (allocated_of_pool (hs.pool .pcb (by decide))).mp (fdStep_kept ?_)
    exact ⟨(fdsKept_scheduled hs).descriptor, (fdsKept_scheduled hs).opened,
      (fdsKept_scheduled hs).counter⟩
  | restarted h => exact fdMoved_restarted h
  | stored => exact .old id (.kept _)

/-! ## Runs -/

theorem fdTable_booted {mem : Int → UInt8} (h : Booted mem k) (p : Nat) :
    fdTable t k noNodes p = ⟨[], 0⟩ := by
  have hcounter : (k.pcb p).fdCounter t = 0 := by
    rw [h.rest]
    show (Function.update (fun _ => ({} : PCB)) 0 _ p).fdCounter t = 0
    rw [Function.update_apply]
    split <;> cases t <;> rfl
  unfold fdTable
  rw [hcounter]
  rfl

/-- What holds of an empty table and is kept by every step holds of the tables of all processes
in every state of every run. The semaphores of a dead process may come back. -/
theorem run_fdTable {I : FdTable → Prop} {mem : Int → UInt8} {k₀ : Kernel} {as : List Action}
    (ht : t ≠ .semaphore) (hempty : I ⟨[], 0⟩) (hkeep : ∀ s s', I s → FdStep t True s s' → I s')
    (hs : Started mem k₀) (h : Run act (fun _ a => Ordinary a) k₀ as k) :
    ∃ L, Coherent k L ∧ ∀ p, Allocated k .pcb p → I (fdTable t k L p) := by
  refine run_coherent (I := fun k L => ∀ p, Allocated k .pcb p → I (fdTable t k L p))
    (fun _ _ ha => ha) (fun mem k hb p _ => ?_) (fun k L a k' L' hc hi _ hact _ _ p hp => ?_) hs h
  · rw [fdTable_booted hb p]
    exact hempty
  · cases fdMoved_acted (t := t) (p := p) hc hact with
    | old hlive hstep => exact hkeep _ _ (hi p (hlive hp)) (hstep.mono fun _ => trivial)
    | new _ heq =>
      rw [heq, if_neg ht]
      exact hempty
    | freed _ hno => exact absurd hp hno

end DisastrOS.Process.FdTables
