import DisastrOS.Process.ChildLinks
import DisastrOS.Process.FdTables
import DisastrOS.Process.WaitAnswers

/-!
# The handles of dead processes

A process that is freed should have no descriptor left that an object counts. `internal_exit`
closes the resources of a process whose parent waits for it, and no semaphores and message
queues. `internal_wait` closes nothing. As long as nobody is freed with such descriptors, all
descriptors belong to processes in use.
-/
namespace DisastrOS.Process.DeadHandles

open DisastrOS.Machine
open DisastrOS.Machine.Kernel
open DisastrOS.Machine.Runs
open DisastrOS.Lists.Sequences
open DisastrOS.Lists.Wiring
open DisastrOS.Lists.RegularLists
open DisastrOS.Lists.Boot
open DisastrOS.Pool.Blocks
open DisastrOS.Descriptors.Bindings
open DisastrOS.Descriptors.Tables
open DisastrOS.Process.Table
open DisastrOS.Process.View
open DisastrOS.Process.ChildLinks
open DisastrOS.Process.Coherence
open DisastrOS.Process.Creation
open DisastrOS.Process.Exit
open DisastrOS.Process.FdTables
open DisastrOS.Process.Handles
open DisastrOS.Process.Kinship
open DisastrOS.Process.Steps
open DisastrOS.Process.SystemRuns
open DisastrOS.Process.TableCalls
open DisastrOS.Process.Transitions
open DisastrOS.Process.WaitAnswers
open DisastrOS.Process.Waiting
open DisastrOS.MessageQueue.Calls
open DisastrOS.MessageQueue.CoherentCalls
open DisastrOS.Resource.Calls
open DisastrOS.Semaphore.Calls
open DisastrOS.Library.GuardedRun
open DisastrOS.Library.LinkedSequence

variable {k k' k₁ : Kernel} {L L' : HeadAddr → List Node} {t t' : Table}
  {p r o d ptr c i parent : Nat} {num pid : Int} {args : List Int} {a : Action}

/-- Whoever an object counts as a user has a descriptor open on it, and is in use. -/
def HandlesOwned (k : Kernel) : Prop :=
  ∀ t o ptr, Linked k (.users t o) ⟨t.pointerKind, ptr⟩ →
    ∃ d p, k.descriptorPtr t ptr = some d ∧ (k.descriptor t d).object = some o ∧
      Allocated k .pcb p ∧ Linked k (.opened t p) ⟨t.descriptorKind, d⟩

/-- The process has open descriptors in the table. -/
def HasOpen (t : Table) (k : Kernel) (p : Nat) : Prop := (k.head (.opened t p)).size ≠ 0

/-- `wait(pid)` of `r` looks at its child `c` last: the first one that is wanted, or else the
last one in the list. -/
def StopsAt (k : Kernel) (r : Nat) (pid : Int) (c : Nat) : Prop :=
  ∃ as ptr bs, Holds k.lists (.children r) (as ++ ⟨.pcbPtr, ptr⟩ :: bs) ∧ k.pcbPtr ptr = some c ∧
    (∀ x ∈ as, ∀ d, k.pcbPtr x.idx = some d → ¬ Wanted k pid d) ∧ (Wanted k pid c ∨ bs = [])

/-- The action frees a process with descriptors that are not closed: one that exits while its
parent waits for it and has semaphores or message queues open, or a zombie with descriptors of
any kind that its parent collects. -/
def LeavesHandles (k : Kernel) : Action → Prop
  | .syscall num args =>
    (num = DSOS_CALL_EXIT ∧ AwaitedByParent k ∧
      ∃ r, k.running = some r ∧ (HasOpen .semaphore k r ∨ HasOpen .mq k r)) ∨
    (num = DSOS_CALL_WAIT ∧ ∃ r c, k.running = some r ∧ StopsAt k r (toInt (args.getD 0 0)) c ∧
      (k.pcb c).status = .Zombie ∧ ∃ t, HasOpen t k c)
  | _ => False

/-! ## Owners -/

/-- Every descriptor in use belongs to a process in use. -/
def OwnedBy (t : Table) (k : Kernel) (L : HeadAddr → List Node) : Prop :=
  ∀ d, Allocated k t.descriptorKind d →
    ∃ p, Allocated k .pcb p ∧ ⟨t.descriptorKind, d⟩ ∈ L (.opened t p)

/-- A descriptor that stays in use stays where it is, and its process in use. -/
theorem OwnedBy.mono (h : OwnedBy t k L)
    (hold : ∀ d, Allocated k' t.descriptorKind d → Allocated k t.descriptorKind d ∨
      ∃ p, Allocated k' .pcb p ∧ ⟨t.descriptorKind, d⟩ ∈ L' (.opened t p))
    (hkept : ∀ p d, Allocated k' t.descriptorKind d → Allocated k .pcb p →
      ⟨t.descriptorKind, d⟩ ∈ L (.opened t p) →
        Allocated k' .pcb p ∧ ⟨t.descriptorKind, d⟩ ∈ L' (.opened t p)) :
    OwnedBy t k' L' := by
  intro d hd
  rcases hold d hd with hd' | hnew
  · obtain ⟨p, hp, hm⟩ := h d hd'
    exact ⟨p, hkept p d hd hp hm⟩
  · exact hnew

theorem OwnedBy.same (h : OwnedBy t k L) (hd : k'.pool t.descriptorKind = k.pool t.descriptorKind)
    (hp : k'.pool .pcb = k.pool .pcb) (hopened : ∀ p, L' (.opened t p) = L (.opened t p)) :
    OwnedBy t k' L' :=
  h.mono (fun _ hd' => .inl ((allocated_of_pool hd).mp hd')) fun _ _ _ hp' hm =>
    ⟨(allocated_of_pool hp).mpr hp', by rwa [hopened]⟩

theorem ownedBy_setRetvalue {v : Int} (h : OwnedBy t k L) : OwnedBy t (k.setRetvalue r v) L :=
  h.same rfl rfl fun _ => rfl

theorem ownedBy_beside (h : OwnedBy t k L) (hb : Beside k L k' L')
    (hp : k'.pool .pcb = k.pool .pcb) : OwnedBy t k' L' := by
  refine h.same (hb.pool _ ?_ ?_ ?_) hp fun p => hb.lists _ id
  all_goals cases t <;> decide

theorem ownedBy_scheduled (h : OwnedBy t k L) (hb : Scheduled k L k' L') : OwnedBy t k' L' :=
  ownedBy_beside h hb.beside (hb.pool .pcb (by decide))

theorem pcb_ne_table (t : Table) : Kind.pcb ≠ t.descriptorKind ∧ Kind.pcb ≠ t.pointerKind ∧
    Kind.pcb ≠ (objects t).nodeKind := by
  cases t <;> decide

/-- A process in use opens a descriptor. -/
theorem ownedBy_added (h : OwnedBy t k L) (hr : Allocated k .pcb r)
    (ha : Added Regular Retained k L t' r o d ptr k') :
    OwnedBy t k' (withOpened L t' r o d ptr) := by
  obtain ⟨hpd, hpp, _⟩ := pcb_ne_table t'
  have hpcb : k'.pool .pcb = k.pool .pcb := ha.pool .pcb hpd hpp
  refine h.mono (fun e he => ?_) fun p e _ hp hm =>
    ⟨(allocated_of_pool hpcb).mpr hp, opened_mem.mpr (.inl hm)⟩
  rcases (ha.allocated _ _).mp he with ⟨hk, rfl⟩ | ⟨hk, rfl⟩ | hold
  · have ht : t = t' := by
      cases t <;> cases t' <;> first | rfl | cases hk
    subst ht
    exact .inr ⟨r, (allocated_of_pool hpcb).mpr hr, opened_mem.mpr (.inr (.inl ⟨rfl, rfl⟩))⟩
  · exact absurd hk (by cases t <;> cases t' <;> decide)
  · exact .inl hold

theorem ownedBy_removed (h : OwnedBy t k L) (hs : Strung Regular Retained k L)
    (hr : Removed Regular Retained k L t' r o d ptr k') :
    OwnedBy t k' (withClosed L t' r o d ptr) := by
  obtain ⟨hpd, hpp, _⟩ := pcb_ne_table t'
  have hpcb : k'.pool .pcb = k.pool .pcb := hr.pool .pcb hpd hpp
  refine h.mono (fun e he => .inl ((hr.allocated _ _).mp he).2.2) fun p e he hp hm =>
    ⟨(allocated_of_pool hpcb).mpr hp, ?_⟩
  obtain ⟨hno, hno', _⟩ := (hr.allocated _ _).mp he
  refine (closed_mem (hs.nodup (regular_descriptorKind t')) (hs.nodup (regular_pointerKind t'))).mpr
    ⟨hm, fun ⟨_, hx⟩ => hno ?_, fun ⟨hl, _⟩ => by cases hl⟩
  injection hx with hk hi
  exact ⟨hk, hi⟩

theorem ownedBy_created (h : OwnedBy t k L) (hcre : Created t' k L o k' L') : OwnedBy t k' L' := by
  refine h.same (hcre.pool _ ?_) (hcre.pool .pcb (pcb_ne_table t').2.2) fun p => ?_
  · cases t <;> cases t' <;> decide
  · rw [hcre.lists, Function.update_of_ne opened_ne_objects]

theorem ownedBy_destroyed (h : OwnedBy t k L) (hdes : Destroyed t' k L o k' L') :
    OwnedBy t k' L' := by
  refine h.same (hdes.pool _ ?_) (hdes.pool .pcb (pcb_ne_table t').2.2) fun p => ?_
  · cases t <;> cases t' <;> decide
  · rw [hdes.lists, Function.update_of_ne opened_ne_objects]

theorem ownedBy_queued (h : OwnedBy t k L) (hq : Queued k L k' L') : OwnedBy t k' L' := by
  refine h.same (hq.pool _ ?_) (hq.pool .pcb (by decide)) fun p =>
    hq.lists _ (not_queueKind_table t).1
  cases t <;> decide

/-! ## Processes come and go -/

theorem ownedBy_spawned (h : OwnedBy t k L) (hsp : Spawned k L r p ptr k' L') :
    OwnedBy t k' L' := by
  refine h.mono (fun e he => ?_) fun q e _ hq hm => ⟨(hsp.allocated _ _).mpr (.inr (.inr hq)), ?_⟩
  · rcases (hsp.allocated _ _).mp he with ⟨hk, _⟩ | ⟨hk, _⟩ | hold
    · exact absurd hk (pcb_ne_table t).1.symm
    · exact absurd hk (by cases t <;> decide)
    · exact .inl hold
  · have hne : q ≠ p := fun he => hsp.fresh (he ▸ hq)
    rw [hsp.lists, Function.update_of_ne (by simp), Function.update_of_ne (by simp),
      allocLists_of_ne (by simp [hne]) (by simp) (by simp [hne])]
    exact hm

theorem ownedBy_restarted (h : OwnedBy t k L) (hre : Restarted k L p k' L') :
    OwnedBy t k' L' := by
  refine h.mono (fun e he => .inl (((hre.allocated _ _).mp he).resolve_left fun hnew =>
    (pcb_ne_table t).1 hnew.1.symm)) fun q e _ hq hm => ⟨(hre.allocated _ _).mpr (.inr hq), ?_⟩
  have hne : q ≠ p := fun he => hre.fresh (he ▸ hq)
  rw [hre.lists_of_ne (by simp [hne]) (by simp)]
  exact hm

/-- The zombie `c` is collected, and has nothing open. -/
theorem ownedBy_collected (h : OwnedBy t k L) (hcol : Collected k L r ptr c k' L')
    (hnone : L (.opened t c) = []) : OwnedBy t k' L' := by
  refine h.mono (fun e he => .inl ((hcol.allocated _ _).mp he).2.2) fun q e _ hq hm => ⟨?_, ?_⟩
  · refine (hcol.allocated _ _).mpr ⟨?_, by simp, hq⟩
    rintro ⟨_, rfl⟩
    rw [hnone] at hm
    cases hm
  · rw [hcol.lists, Function.update_of_ne (by simp), Function.update_of_ne (by simp)]
    exact hm

/-- The process `r` dies while its parent waits. Its resources are closed. -/
theorem ownedBy_reported (h : OwnedBy t k L) (hrep : Reported k L r parent ptr k' L')
    (hnone : t ≠ .resource → L (.opened t r) = []) : OwnedBy t k' L' := by
  refine h.mono (fun e he => .inl ((hrep.allocated _ _).mp he).1) fun q e he hq hm => ?_
  have hqr : q ≠ r := by
    rintro rfl
    by_cases ht : t = .resource
    · subst ht
      exact ((hrep.allocated _ _).mp he).2.2.1 ⟨rfl, hm⟩
    · rw [hnone ht] at hm
      cases hm
  refine ⟨(hrep.allocated _ _).mpr ⟨hq, fun hx => hqr hx.2, ?_, ?_⟩, ?_⟩
  · rintro ⟨hk, _⟩
    cases hk
  · rintro ⟨hk, _⟩
    cases hk
  · rw [hrep.lists _ (by simp) (by simp) (by simp) (by simp [hqr]) (by simp)]
    exact hm

theorem ownedBy_died (h : OwnedBy t k L) (hd : Died k L r i parent k' L') : OwnedBy t k' L' :=
  ownedBy_beside h hd.beside (by rw [hd.rest])

/-! ## The calls -/

theorem ownedBy_semOpen (h : OwnedBy t k L) (hr : Allocated k .pcb r) (ho : SemOpened k L r k' L') :
    OwnedBy t k' L' := by
  cases ho with
  | refused => exact ownedBy_setRetvalue h
  | opened _ ha => exact ownedBy_added h hr ha
  | created hcre ha =>
    have hr₁ := (hcre.created.allocated .pcb r).mpr (.inr hr)
    exact ownedBy_added (ownedBy_created h hcre.created) hr₁ ha
  | createdOnly hcre => exact ownedBy_setRetvalue (ownedBy_created h hcre.created)

theorem ownedBy_semWait (h : OwnedBy t k L) (ho : SemWaited k L r k' L') : OwnedBy t k' L' := by
  cases ho with
  | refused => exact ownedBy_setRetvalue h
  | granted => exact h.same rfl rfl fun _ => rfl
  | blocked _ _ _ hb =>
    exact h.same (by rw [hb.rest]) (by rw [hb.rest]) fun p =>
      waitLists_of_ne (by simp) (by simp) (by simp) (by simp)

theorem ownedBy_semPost (h : OwnedBy t k L) (ho : SemPosted k L r k' L') : OwnedBy t k' L' := by
  cases ho with
  | refused => exact ownedBy_setRetvalue h
  | posted => exact h.same rfl rfl fun _ => rfl
  | woken _ _ hw =>
    exact h.same (by rw [hw.rest]) (by rw [hw.rest]) fun p =>
      postLists_of_ne (by simp) (by simp) (by simp) (by simp)

theorem ownedBy_semClose (h : OwnedBy t k L) (hs : Strung Regular Retained k L)
    (ho : SemClosed k L r k' L') : OwnedBy t k' L' := by
  cases ho with
  | refused => exact ownedBy_setRetvalue h
  | closed _ _ _ _ hrem =>
    have hclosed := ownedBy_removed h hs hrem
    exact hclosed.same rfl rfl fun _ => rfl
  | destroyed _ _ _ _ hrem hdes =>
    have hclosed := ownedBy_removed h hs hrem
    refine ownedBy_setRetvalue (ownedBy_destroyed ?_ hdes)
    exact hclosed.same rfl rfl fun _ => rfl

theorem ownedBy_openResource (h : OwnedBy t k L) (hr : Allocated k .pcb r)
    (ho : ResOpened k L r k' L') : OwnedBy t k' L' := by
  cases ho with
  | refused => exact ownedBy_setRetvalue h
  | opened _ ha => exact ownedBy_added h hr ha
  | created hcre ha =>
    have hr₁ := (hcre.created.allocated .pcb r).mpr (.inr hr)
    exact ownedBy_added (ownedBy_created h hcre.created) hr₁ ha
  | createdOnly hcre => exact ownedBy_setRetvalue (ownedBy_created h hcre.created)

theorem ownedBy_closeResource (h : OwnedBy t k L) (hs : Strung Regular Retained k L)
    (ho : ResClosed k L r k' L') : OwnedBy t k' L' := by
  cases ho with
  | refused => exact ownedBy_setRetvalue h
  | closed _ _ _ hrem => exact ownedBy_setRetvalue (ownedBy_removed h hs hrem)

theorem ownedBy_destroyResource (h : OwnedBy t k L) (ho : ResDestroyed k L r k' L') :
    OwnedBy t k' L' := by
  cases ho with
  | refused => exact ownedBy_setRetvalue h
  | destroyed hdes => exact ownedBy_setRetvalue (ownedBy_destroyed h hdes)

theorem ownedBy_mqOpen (h : OwnedBy t k L) (hr : Allocated k .pcb r) (ho : MqOpened k L r k' L') :
    OwnedBy t k' L' := by
  cases ho with
  | unopened hq => exact ownedBy_queued h hq
  | opened hq _ _ ha =>
    have hr₁ := (allocated_of_pool (hq.pool .pcb (by decide))).mpr hr
    exact ownedBy_added (ownedBy_queued h hq) hr₁ ha

theorem ownedBy_mqClose (h : OwnedBy t k L) (hs : Strung Regular Retained k L)
    (ho : MqClosed k L r k' L') : OwnedBy t k' L' := by
  cases ho with
  | refused => exact ownedBy_setRetvalue h
  | closed _ _ _ _ _ hrem =>
    have hclosed := ownedBy_removed h hs hrem
    exact hclosed.same rfl rfl fun _ => rfl

/-- What a call frees with a process, in terms of the lists. -/
structure FreesClosed (t : Table) (k : Kernel) (L : HeadAddr → List Node) (r : Nat) (num : Int) :
    Prop where
  exits : num = DSOS_CALL_EXIT → t ≠ .resource → ∀ i parent, (k.pcb r).parent = some parent →
    WaitsFor (((view k L).adopt r i).die r parent) parent r → L (.opened t r) = []
  waits : num = DSOS_CALL_WAIT → ∀ ptr c, (k.pcb c).status = .Zombie →
    k.awaitedChild (toInt (k.arg r 0)) LOOP_BOUND (k.head (.children r)).first none =
      .ok (some (ptr, c)) → L (.opened t c) = []

theorem ownedBy_called (h : OwnedBy t k L) (hc : Coherent k L) (hr : k.running = some r)
    (hcall : Called k L r num k' L') (hclosed : FreesClosed t k L r num) : OwnedBy t k' L' := by
  have hs := hc.tidy.strung
  have hlive : Allocated k .pcb r := hc.sound.placed.live_of_running hr
  cases hcall with
  | refused => exact ownedBy_setRetvalue h
  | preempted hb _ => exact ownedBy_scheduled h hb
  | slept hb _ => exact ownedBy_scheduled h hb
  | spawned _ hsp => exact ownedBy_spawned h hsp
  | collected _ _ hscan hz hcol => exact ownedBy_collected h hcol (hclosed.waits rfl _ _ hz hscan)
  | waits _ _ hb => exact ownedBy_scheduled h hb
  | exited hd _ hb hk _ =>
    refine ownedBy_beside h hb ?_
    rw [hk]
    show (_ : Kernel).pool .pcb = _
    rw [hd.rest]
    rfl
  | reported hd hw hrep =>
    refine ownedBy_reported (ownedBy_died h hd) hrep fun ht => ?_
    rw [hd.beside.lists (.opened t r) id]
    exact hclosed.exits rfl ht _ _ hd.parent_eq hw
  | semOpen ho => exact ownedBy_semOpen h hlive ho
  | semWait ho => exact ownedBy_semWait h ho
  | semPost ho => exact ownedBy_semPost h ho
  | semClose ho => exact ownedBy_semClose h hs ho
  | openResource ho => exact ownedBy_openResource h hlive ho
  | closeResource ho => exact ownedBy_closeResource h hs ho
  | destroyResource ho => exact ownedBy_destroyResource h ho
  | mqOpen ho => exact ownedBy_mqOpen h hlive ho
  | mqClose ho => exact ownedBy_mqClose h hs ho
  | mqUse _ hq => exact ownedBy_queued h hq

/-! ## The guard -/

/-- The scan stops at the child it should. -/
theorem scan_stops {fuel : Nat} {as ys : List Node} {last : Option (Nat × Nat)}
    (hc : Coherent k L) (hL : L (.children r) = as ++ ys)
    (has : ∀ x ∈ as, ∀ d, k.pcbPtr x.idx = some d → ¬ Wanted k pid d)
    (hscan : k.awaitedChild pid fuel ys.head? last = .ok (some (ptr, c))) :
    (ys = [] ∧ last = some (ptr, c)) ∨ StopsAt k r pid c := by
  induction fuel generalizing as ys last with
  | zero => cases hscan
  | succ fuel ih =>
    cases ys with
    | nil =>
      cases hscan
      exact .inl ⟨rfl, rfl⟩
    | cons y ys =>
      have hholds := hc.tidy.strung.holds (l := .children r) (regular_children r)
      have hm : y ∈ L (.children r) := by rw [hL]; simp
      obtain ⟨hy, e, he⟩ := child_known hc hm
      rw [hL] at hholds
      rw [hy] at hL hscan hholds
      rw [List.head?_cons, awaitedChild_cons hc.tidy.strung hL he] at hscan
      by_cases hw : Wanted k pid e
      · rw [if_pos hw] at hscan
        cases hscan
        exact .inr ⟨as, y.idx, ys, hholds, he, has, .inl hw⟩
      · rw [if_neg hw] at hscan
        have hL' : L (.children r) = (as ++ [⟨.pcbPtr, y.idx⟩]) ++ ys := by
          rw [hL, List.append_assoc, List.singleton_append]
        have has' : ∀ x ∈ as ++ [⟨.pcbPtr, y.idx⟩], ∀ d, k.pcbPtr x.idx = some d →
            ¬ Wanted k pid d := by
          intro x hx d hd
          rcases List.mem_append.mp hx with hx | hx
          · exact has x hx d hd
          · rw [List.mem_singleton.mp hx] at hd
            obtain rfl : e = d := Option.some.inj (he.symm.trans hd)
            exact hw
        rcases ih hL' has' hscan with ⟨rfl, hlast⟩ | hstops
        · cases hlast
          exact .inr ⟨as, y.idx, [], hholds, he, has, .inr rfl⟩
        · exact .inr hstops

theorem stopsAt_setCall (hc : Coherent k L) (hr : k.running = some r)
    (hscan : (k.setCall r num args).awaitedChild pid LOOP_BOUND
      ((k.setCall r num args).head (.children r)).first none = .ok (some (ptr, c))) :
    StopsAt k r pid c := by
  have hc₁ : Coherent (k.setCall r num args) L := coherent_setCall hc hr
  rw [hc₁.tidy.strung.first_eq (l := .children r) (regular_children r)] at hscan
  have hsame : ∀ d, Wanted (k.setCall r num args) pid d ↔ Wanted k pid d := by
    intro d
    unfold Wanted
    rw [status_setCall, pid_setCall]
  rcases scan_stops hc₁ (List.nil_append (L (.children r))).symm
    (fun _ hx => (List.not_mem_nil hx).elim) hscan with ⟨_, hlast⟩ | hstops
  · cases hlast
  · obtain ⟨as, i, bs, hholds, hi, has, hend⟩ := hstops
    exact ⟨as, i, bs, hholds, hi, fun x hx d hd hw => has x hx d hd ((hsame d).mpr hw),
      hend.imp_left (hsame c).mp⟩

theorem opened_nil (hs : Strung Regular Retained k L) (h : ¬ HasOpen t k p) :
    L (.opened t p) = [] :=
  (hs.size_zero_iff (l := .opened t p) (regular_descriptorKind t)).mp (Classical.not_not.mp h)

theorem freesClosed_of_guard (hc : Coherent k L) (hr : k.running = some r)
    (hno : ¬ LeavesHandles k (.syscall num args)) :
    FreesClosed t (k.setCall r num args) L r num := by
  have hs := hc.tidy.strung
  refine ⟨?_, ?_⟩
  · rintro rfl ht i parent hparent hw
    have hparent' : (k.pcb r).parent = some parent := by
      rw [← hparent]
      show _ = (Function.update k.pcb r _ r).parent
      rw [Function.update_self]
    have hawaited := awaited_of_waitsFor hc hr hparent' hw
    refine opened_nil hs fun hopen => hno (.inl ⟨rfl, hawaited, r, hr, ?_⟩)
    cases t with
    | resource => exact absurd rfl ht
    | semaphore => exact .inl hopen
    | mq => exact .inr hopen
  · rintro rfl ptr c hz hscan
    have harg : (k.setCall r DSOS_CALL_WAIT args).arg r 0 = args.getD 0 0 := arg_setCall (by decide)
    rw [harg] at hscan
    have hz' : (k.pcb c).status = .Zombie := status_setCall.symm.trans hz
    exact opened_nil hs fun hopen =>
      hno (.inr ⟨rfl, r, c, hr, stopsAt_setCall hc hr hscan, hz', t, hopen⟩)

theorem ownedBy_acted (h : OwnedBy t k L) (hc : Coherent k L) (hact : Acted k L a k' L')
    (hno : ¬ LeavesHandles k a) : OwnedBy t k' L' := by
  cases hact with
  | ignored => exact h
  | @called r num args _ _ hr hcall =>
    have h₁ : OwnedBy t (k.setCall r num args) L := h.same rfl rfl fun _ => rfl
    exact ownedBy_called h₁ (coherent_setCall hc hr) hr hcall (freesClosed_of_guard hc hr hno)
  | ticked hr hb =>
    have h₁ : OwnedBy t { k with disastrOSTime := k.disastrOSTime + 1 } L :=
      h.same rfl rfl fun _ => rfl
    exact ownedBy_scheduled h₁ hb
  | restarted hre => exact ownedBy_restarted h hre
  | stored => exact h.same rfl rfl fun _ => rfl

/-! ## Runs -/

theorem handlesOwned_of_ownedBy (hc : Coherent k L) (h : ∀ t, OwnedBy t k L) : HandlesOwned k := by
  intro t o ptr hlinked
  have hs := hc.tidy.strung
  have hm : ⟨t.pointerKind, ptr⟩ ∈ L (.users t o) :=
    (hs.linked_iff (l := .users t o) (regular_pointerKind t)).mp hlinked
  obtain ⟨d, hback, hd, _, hobject⟩ := (hc.tidy.tied t).descriptor_of_listed hs (.inl hm)
  obtain ⟨p, hp, hopened⟩ := h t d hd
  exact ⟨d, p, hback, hobject, hp,
    (hs.linked_iff (l := .opened t p) (regular_descriptorKind t)).mpr hopened⟩

/-- As long as no process is freed with descriptors that are not closed, all users of resources,
semaphores and message queues are processes in use. -/
theorem handles_released {mem : Int → UInt8} {k₀ : Kernel} {as : List Action}
    (hstart : Started mem k₀)
    (hrun : Run act (fun k a => Ordinary a ∧ ¬ LeavesHandles k a) k₀ as k) : HandlesOwned k := by
  have hboot : ∀ mem k, Booted mem k → ∀ t, OwnedBy t k noNodes := by
    intro mem k hb t d hd
    exact absurd ((hb.allocated _ _).mp hd).1 (by cases t <;> decide)
  obtain ⟨L, hc, h⟩ := run_coherent (I := fun k L => ∀ t, OwnedBy t k L) (fun _ _ ha => ha.1) hboot
    (fun _ _ _ _ _ hc h hguard hact _ _ t => ownedBy_acted (h t) hc hact hguard.2) hstart hrun
  exact handlesOwned_of_ownedBy hc h

/-- A test that passes when nobody is freed. -/
def freesNobody (k : Kernel) (a : Action) : Bool :=
  match a with
  | .syscall num _ => decide (num ≠ DSOS_CALL_WAIT ∧ ¬ (num = DSOS_CALL_EXIT ∧ AwaitedByParent k))
  | .dispatch _ => false
  | _ => true

theorem not_leaves_of_freesNobody (k : Kernel) (a : Action) (h : freesNobody k a = true) :
    Ordinary a ∧ ¬ LeavesHandles k a := by
  cases a with
  | syscall num args =>
    obtain ⟨hwait, hexit⟩ := of_decide_eq_true h
    refine ⟨trivial, ?_⟩
    rintro (⟨hnum, hawaited, _⟩ | ⟨hnum, _⟩)
    · exact hexit ⟨hnum, hawaited⟩
    · exact hwait hnum
  | timer => exact ⟨trivial, id⟩
  | restart => exact ⟨trivial, id⟩
  | store => exact ⟨trivial, id⟩
  | dispatch => cases h

/-- A zombie that nobody has collected yet is still a user of its semaphore. -/
theorem handles_released_zombie :
    ∃ k₀ k, Started (fun _ => 0) k₀ ∧
      Run act (fun k a => Ordinary a ∧ ¬ LeavesHandles k a) k₀
        [.syscall DSOS_CALL_SPAWN [0, 0], .syscall DSOS_CALL_PREEMPT [],
          .syscall DSOS_CALL_SEMOPEN [7, 1, 0], .syscall DSOS_CALL_EXIT [7]] k ∧
      (k.head (.users .semaphore 0)).size = 1 ∧ HandlesOwned k := by
  obtain ⟨k₀, k, hs, hrun, htest⟩ := exists_run_from_start _ freesNobody
    [.syscall DSOS_CALL_SPAWN [0, 0], .syscall DSOS_CALL_PREEMPT [],
      .syscall DSOS_CALL_SEMOPEN [7, 1, 0], .syscall DSOS_CALL_EXIT [7]]
    (fun k => (k.head (.users .semaphore 0)).size = 1) not_leaves_of_freesNobody
    (by decide +kernel)
  exact ⟨k₀, k, hs, hrun, of_decide_eq_true htest, handles_released hs hrun⟩

/-- While init waits for it, its child opens a semaphore and exits: the child is freed, and its
descriptor is still among the users of the semaphore. -/
theorem dead_child_keeps_semaphore :
    ∃ k₀ k, Started (fun _ => 0) k₀ ∧
      Run act (fun _ a => Ordinary a) k₀
        [.syscall DSOS_CALL_SPAWN [0, 0], .syscall DSOS_CALL_WAIT [0, 0],
          .syscall DSOS_CALL_SEMOPEN [7, 1, 0], .syscall DSOS_CALL_EXIT [7]] k ∧
      (k.head (.users .semaphore 0)).size = 1 ∧ ¬ HandlesOwned k := by
  obtain ⟨k₀, k, hs, hrun, htest⟩ := exists_run_from_start (fun _ a => Ordinary a)
    (fun _ a => decide (Ordinary a))
    [.syscall DSOS_CALL_SPAWN [0, 0], .syscall DSOS_CALL_WAIT [0, 0],
      .syscall DSOS_CALL_SEMOPEN [7, 1, 0], .syscall DSOS_CALL_EXIT [7]]
    (fun k => (k.head (.users .semaphore 0)).size = 1 ∧
      (k.head (.users .semaphore 0)).first = some ⟨.semDescriptorPtr, 0⟩ ∧
      k.descriptorPtr .semaphore 0 = some 0 ∧ (k.descriptor .semaphore 0).pcb = some 1 ∧
      (k.newItem .pcb).map Prod.fst = some 1)
    (fun _ _ h => of_decide_eq_true h) (by decide +kernel)
  obtain ⟨hsize, hfirst, hback, hpcb, hnew⟩ := of_decide_eq_true htest
  refine ⟨k₀, k, hs, hrun, hsize, fun h => ?_⟩
  obtain ⟨L, hc⟩ := coherent_run hs hrun
  obtain ⟨d, p, hd, _, hp, hopened⟩ := h .semaphore 0 0 (linked_first hfirst)
  obtain rfl : d = 0 := Option.some.inj (hd.symm.trans hback)
  have howner := (hc.tidy.tied .semaphore).owner p 0
    ((hc.tidy.strung.linked_iff (l := .opened .semaphore p)
      (regular_descriptorKind .semaphore)).mp hopened)
  obtain rfl : p = 1 := Option.some.inj (howner.symm.trans hpcb)
  -- the block of the child is free
  obtain ⟨⟨i, k₁⟩, hnew', rfl⟩ := Option.map_eq_some_iff.mp hnew
  exact (newItem_fresh hc.tidy.strung.pooled hnew').fresh hp

end DisastrOS.Process.DeadHandles
