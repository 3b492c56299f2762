import DisastrOS.Lists.Boot
import DisastrOS.Machine.Runs
import DisastrOS.MessageQueue.CoherentCalls
import DisastrOS.Process.Creation
import DisastrOS.Process.Exit
import DisastrOS.Resource.Calls
import DisastrOS.Semaphore.Calls

/-!
# The actions of the system on coherent kernels

One inversion for all actions: how the state after a completed action is obtained from
the state before it. It is coherent again, and the process table has made a step.
-/
namespace DisastrOS.Process.Transitions

open DisastrOS.Machine
open DisastrOS.Machine.Kernel
open DisastrOS.Lists.Boot
open DisastrOS.Lists.Wiring
open DisastrOS.Lists.QueueChains
open DisastrOS.Descriptors.Tables
open DisastrOS.Process.Table
open DisastrOS.Process.Steps
open DisastrOS.Process.View
open DisastrOS.Process.Coherence
open DisastrOS.Process.Scheduling
open DisastrOS.Process.Creation
open DisastrOS.Process.Waiting
open DisastrOS.Process.Exit
open DisastrOS.Semaphore.Calls
open DisastrOS.Resource.Calls
open DisastrOS.MessageQueue.Calls
open DisastrOS.MessageQueue.CoherentCalls
open DisastrOS.Library.Outcome

variable {k k' : Kernel} {L L' : HeadAddr → List Node} {r : Nat} {num : Int} {args : List Int}
  {a : Action}

/-- What the handler of a call by `r` does, with the registers filled in. -/
inductive Called (k : Kernel) (L : HeadAddr → List Node) (r : Nat) :
    Int → Kernel → (HeadAddr → List Node) → Prop
  | refused (num v : Int) : Called k L r num (k.setRetvalue r v) L
  | preempted {k' : Kernel} {L' : HeadAddr → List Node} (hb : Scheduled k L k' L')
      (h : internalPreempt k = .ok k') : Called k L r DSOS_CALL_PREEMPT k' L'
  | slept {k' : Kernel} {L' : HeadAddr → List Node} (hb : Scheduled k L k' L')
      (h : internalSleep k = .ok k') : Called k L r DSOS_CALL_SLEEP k' L'
  | spawned {num : Int} {p ptr : Nat} {k' : Kernel} {L' : HeadAddr → List Node}
      (hnum : num = DSOS_CALL_SPAWN ∨ num = DSOS_CALL_FORK) (h : Spawned k L r p ptr k' L') :
      Called k L r num k' L'
  | collected {c ptr : Nat} {k' : Kernel} {L' : HeadAddr → List Node}
      (hm : ⟨.pcbPtr, ptr⟩ ∈ L (.children r)) (hptr : k.pcbPtr ptr = some c)
      (hscan : k.awaitedChild (toInt (k.arg r 0)) LOOP_BOUND (k.head (.children r)).first none =
        .ok (some (ptr, c))) (hz : (k.pcb c).status = .Zombie) (h : Collected k L r ptr c k' L') :
      Called k L r DSOS_CALL_WAIT k' L'
  | waits {c ptr : Nat} {k' : Kernel} {L' : HeadAddr → List Node}
      (hscan : k.awaitedChild (toInt (k.arg r 0)) LOOP_BOUND (k.head (.children r)).first none =
        .ok (some (ptr, c))) (hz : (k.pcb c).status ≠ .Zombie) (hb : Scheduled k L k' L') :
      Called k L r DSOS_CALL_WAIT k' L'
  | exited {i parent n : Nat} {k₁ k' : Kernel} {L₁ L' : HeadAddr → List Node}
      (hd : Died k L r i parent k₁ L₁)
      (hno : ¬ WaitsFor (((view k L).adopt r i).die r parent) parent r) (hb : Beside k L k' L')
      (hk : k' = { (k₁.detach .readyList ⟨.pcb, n⟩).setStatus n .Running with running := some n })
      (hlists : ∀ l, l ≠ .readyList → L' l = L₁ l) :
      Called k L r DSOS_CALL_EXIT k' L'
  | reported {i parent ptr : Nat} {k₁ k' : Kernel} {L₁ L' : HeadAddr → List Node}
      (hd : Died k L r i parent k₁ L₁)
      (hw : WaitsFor (((view k L).adopt r i).die r parent) parent r)
      (h : Reported k₁ L₁ r parent ptr k' L') : Called k L r DSOS_CALL_EXIT k' L'
  | semOpen {k' : Kernel} {L' : HeadAddr → List Node} (h : SemOpened k L r k' L') :
      Called k L r DSOS_CALL_SEMOPEN k' L'
  | semWait {k' : Kernel} {L' : HeadAddr → List Node} (h : SemWaited k L r k' L') :
      Called k L r DSOS_CALL_SEMWAIT k' L'
  | semPost {k' : Kernel} {L' : HeadAddr → List Node} (h : SemPosted k L r k' L') :
      Called k L r DSOS_CALL_SEMPOST k' L'
  | semClose {k' : Kernel} {L' : HeadAddr → List Node} (h : SemClosed k L r k' L') :
      Called k L r DSOS_CALL_SEMCLOSE k' L'
  | openResource {k' : Kernel} {L' : HeadAddr → List Node} (h : ResOpened k L r k' L') :
      Called k L r DSOS_CALL_OPEN_RESOURCE k' L'
  | closeResource {k' : Kernel} {L' : HeadAddr → List Node} (h : ResClosed k L r k' L') :
      Called k L r DSOS_CALL_CLOSE_RESOURCE k' L'
  | destroyResource {k' : Kernel} {L' : HeadAddr → List Node} (h : ResDestroyed k L r k' L') :
      Called k L r DSOS_CALL_DESTROY_RESOURCE k' L'
  | mqOpen {k' : Kernel} {L' : HeadAddr → List Node} (h : MqOpened k L r k' L') :
      Called k L r DSOS_CALL_MQOPEN k' L'
  | mqClose {k' : Kernel} {L' : HeadAddr → List Node} (h : MqClosed k L r k' L') :
      Called k L r DSOS_CALL_MQCLOSE k' L'
  | mqUse {num : Int} {k' : Kernel} {L' : HeadAddr → List Node}
      (hnum : num = DSOS_CALL_MQREAD ∨ num = DSOS_CALL_MQWRITE ∨ num = DSOS_CALL_MQUNLINK)
      (h : Queued k L k' L') : Called k L r num k' L'

/-- A handler has run on a coherent kernel. -/
def CallDone (k : Kernel) (L : HeadAddr → List Node) (r : Nat) (num : Int) (k' : Kernel) : Prop :=
  ∃ L', Called k L r num k' L' ∧ Tidy k' L' ∧ Hung k' L' ∧
    Handled (view k L) r num (view k' L')

theorem done_of_moved (hc : Coherent k L) (h : Called k L r num k' L')
    (hm : Moved k L (Handled (view k L) r num) k' L') : CallDone k L r num k' :=
  ⟨L', h, hm.tidy, hm.hung hc.hung, hm.move⟩

/-- A call that leaves the process table as it is. -/
theorem done_of_coherent (h : Called k L r num k' L') (hnum : num ∉ DSOS_CALL_WAIT :: movingCalls)
    (hc : Coherent k' L' ∧ view k' L' = view k L) : CallDone k L r num k' :=
  ⟨L', h, hc.1.tidy, hc.1.hung, by rw [hc.2]; exact .still hnum⟩

theorem done_of_still (hc : Coherent k L) (hnum : num ∉ DSOS_CALL_WAIT :: movingCalls)
    (h : Called k L r num k' L') (hm : Moved k L (· = view k L) k' L') : CallDone k L r num k' :=
  ⟨L', h, hm.tidy, hm.hung hc.hung, by rw [hm.move]; exact .still hnum⟩

theorem spawn_done {context : Bool} (hc : Coherent k L) (hr : k.running = some r)
    (hnum : num = DSOS_CALL_SPAWN ∨ num = DSOS_CALL_FORK)
    (hcontext : num = DSOS_CALL_SPAWN → context = true) (h : createProcess context k = .ok k') :
    CallDone k L r num k' := by
  obtain ⟨p, ptr, L', hsp, hm⟩ := spawn_refines hc hr hnum hcontext h
  exact done_of_moved hc (.spawned hnum hsp) hm

theorem wait_done (hc : Coherent k L) (hr : k.running = some r) (h : internalWait k = .ok k') :
    CallDone k L r DSOS_CALL_WAIT k' := by
  rcases wait_refines hc hr h with ⟨rfl, hL⟩ | ⟨c, ptr, L', hm, hptr, hscan, hz, hcol, hmoved⟩ |
    ⟨c, ptr, L', hscan, hz, _, hb, hmoved⟩
  · refine done_of_moved hc (.refused _ _) (moved_setRetvalue hc.tidy (.quiet (by decide) ?_))
    exact fun _ => List.map_eq_nil_iff.mpr hL
  · exact done_of_moved hc (.collected hm hptr hscan hz hcol) hmoved
  · exact done_of_moved hc (.waits hscan hz hb) hmoved

theorem exit_done (hc : Coherent k L) (hr : k.running = some r) (h : internalExit k = .ok k') :
    CallDone k L r DSOS_CALL_EXIT k' := by
  obtain ⟨i, parent, k₁, L₁, hd, ⟨hw, hrep⟩ | ⟨hno, n, k₂, hf, rfl⟩⟩ := exit_died hc hr h
  · obtain ⟨ptr, L', hr', hmoved⟩ := exitReport_refines hc hd hw hrep
    exact done_of_moved hc (.reported hd hw hr') hmoved
  · obtain ⟨rest, _, hmoved, hb, hk₂⟩ := exitNext_refines hc hd hno hf
    exact done_of_moved hc (.exited hd hno hb (by rw [hk₂]) fun l hl =>
      Function.update_of_ne hl _ _) hmoved

/-- A number without a handler is none of the process calls. -/
theorem not_processCall (hv : syscallVector num = none) :
    num ∉ DSOS_CALL_WAIT :: movingCalls := by
  simp only [movingCalls, List.mem_cons, List.not_mem_nil, or_false]
  rintro (rfl | rfl | rfl | rfl | rfl | rfl | rfl) <;> cases hv

/-- What a handler that completes has done. -/
theorem handler_done {f : Kernel → Except Fault Kernel} (hc : Coherent k L)
    (hr : k.running = some r) (hv : syscallVector num = some f) (h : f k = .ok k') :
    CallDone k L r num k' := by
  unfold syscallVector at hv
  by_cases he : num = DSOS_CALL_PREEMPT
  · rw [if_pos he, Option.some.injEq] at hv
    subst hv
    obtain ⟨L', hb, hm⟩ := preempt_refines (r := r) hc h
    exact done_of_moved hc (he ▸ .preempted hb h) (he ▸ hm)
  rw [if_neg he] at hv
  by_cases he : num = DSOS_CALL_FORK
  · rw [if_pos he, Option.some.injEq] at hv
    subst hv
    exact spawn_done hc hr (.inr he) (fun hspawn => absurd (he.symm.trans hspawn) (by decide)) h
  rw [if_neg he] at hv
  by_cases he : num = DSOS_CALL_WAIT
  · rw [if_pos he, Option.some.injEq] at hv
    subst hv
    exact he ▸ wait_done hc hr h
  rw [if_neg he] at hv
  by_cases he : num = DSOS_CALL_EXIT
  · rw [if_pos he, Option.some.injEq] at hv
    subst hv
    exact he ▸ exit_done hc hr h
  rw [if_neg he] at hv
  by_cases he : num = DSOS_CALL_SPAWN
  · rw [if_pos he, Option.some.injEq] at hv
    subst hv
    exact spawn_done hc hr (.inl he) (fun _ => rfl) h
  rw [if_neg he] at hv
  by_cases he : num = DSOS_CALL_SLEEP
  · rw [if_pos he, Option.some.injEq] at hv
    subst hv
    obtain ⟨L', hb, hm⟩ := sleep_refines hc hr h
    exact done_of_moved hc (he ▸ .slept hb h) (he ▸ hm)
  rw [if_neg he] at hv
  by_cases he : num = DSOS_CALL_OPEN_RESOURCE
  · rw [if_pos he, Option.some.injEq] at hv
    subst hv
    obtain ⟨L', ho⟩ := openResource_ok hc hr h
    exact he ▸ done_of_still hc (by decide) (.openResource ho) (ho.moved hc)
  rw [if_neg he] at hv
  by_cases he : num = DSOS_CALL_CLOSE_RESOURCE
  · rw [if_pos he, Option.some.injEq] at hv
    subst hv
    obtain ⟨L', ho⟩ := closeResource_ok hc hr h
    exact he ▸ done_of_still hc (by decide) (.closeResource ho) (ho.moved hc)
  rw [if_neg he] at hv
  by_cases he : num = DSOS_CALL_DESTROY_RESOURCE
  · rw [if_pos he, Option.some.injEq] at hv
    subst hv
    obtain ⟨L', ho⟩ := destroyResource_ok hc hr h
    exact he ▸ done_of_still hc (by decide) (.destroyResource ho) (ho.moved hc)
  rw [if_neg he] at hv
  by_cases he : num = DSOS_CALL_SHUTDOWN
  · rw [if_pos he, Option.some.injEq] at hv
    subst hv
    cases h
  rw [if_neg he] at hv
  by_cases he : num = DSOS_CALL_SEMOPEN
  · rw [if_pos he, Option.some.injEq] at hv
    subst hv
    obtain ⟨L', ho⟩ := semOpen_ok hc hr h
    exact he ▸ done_of_still hc (by decide) (.semOpen ho) (ho.moved hc)
  rw [if_neg he] at hv
  by_cases he : num = DSOS_CALL_SEMCLOSE
  · rw [if_pos he, Option.some.injEq] at hv
    subst hv
    obtain ⟨L', ho⟩ := semClose_ok hc hr h
    exact he ▸ done_of_still hc (by decide) (.semClose ho) (ho.moved hc)
  rw [if_neg he] at hv
  by_cases he : num = DSOS_CALL_SEMWAIT
  · rw [if_pos he, Option.some.injEq] at hv
    subst hv
    obtain ⟨L', ho⟩ := semWait_ok hc hr h
    exact done_of_moved hc (he ▸ .semWait ho) (he ▸ ho.moved hc)
  rw [if_neg he] at hv
  by_cases he : num = DSOS_CALL_SEMPOST
  · rw [if_pos he, Option.some.injEq] at hv
    subst hv
    obtain ⟨L', ho⟩ := semPost_ok hc hr h
    exact done_of_moved hc (he ▸ .semPost ho) (he ▸ ho.moved hc)
  rw [if_neg he] at hv
  by_cases he : num = DSOS_CALL_MQOPEN
  · rw [if_pos he, Option.some.injEq] at hv
    subst hv
    obtain ⟨L', ho⟩ := mqOpen_ok hc hr h
    exact he ▸ done_of_coherent (.mqOpen ho) (by decide) (ho.coherent hc)
  rw [if_neg he] at hv
  by_cases he : num = DSOS_CALL_MQCLOSE
  · rw [if_pos he, Option.some.injEq] at hv
    subst hv
    obtain ⟨L', ho⟩ := mqClose_ok hc hr h
    exact he ▸ done_of_coherent (.mqClose ho) (by decide) (ho.coherent hc)
  rw [if_neg he] at hv
  by_cases he : num = DSOS_CALL_MQREAD
  · rw [if_pos he, Option.some.injEq] at hv
    subst hv
    obtain ⟨L', hq⟩ := mqRead_ok hc h
    exact done_of_coherent (.mqUse (.inl he) hq) (by rw [he]; decide)
      ⟨hq.coherent hc, hq.view_eq⟩
  rw [if_neg he] at hv
  by_cases he : num = DSOS_CALL_MQWRITE
  · rw [if_pos he, Option.some.injEq] at hv
    subst hv
    obtain ⟨L', hq⟩ := mqWrite_ok hc h
    exact done_of_coherent (.mqUse (.inr (.inl he)) hq) (by rw [he]; decide)
      ⟨hq.coherent hc, hq.view_eq⟩
  rw [if_neg he] at hv
  by_cases he : num = DSOS_CALL_MQUNLINK
  · rw [if_pos he, Option.some.injEq] at hv
    subst hv
    obtain ⟨L', hq⟩ := mqUnlink_ok hc h
    exact done_of_coherent (.mqUse (.inr (.inr he)) hq) (by rw [he]; decide)
      ⟨hq.coherent hc, hq.view_eq⟩
  rw [if_neg he] at hv
  cases hv

/-! ## Actions -/

/-- The actions of the system with the kernel's own scheduling. -/
def Ordinary : Action → Prop
  | .syscall _ _ => True
  | .timer => True
  | .restart => True
  | .store _ _ => True
  | .dispatch _ => False

instance : DecidablePred Ordinary
  | .syscall _ _ => isTrue trivial
  | .timer => isTrue trivial
  | .restart => isTrue trivial
  | .store _ _ => isTrue trivial
  | .dispatch _ => isFalse id

/-- What an action does. -/
inductive Acted (k : Kernel) (L : HeadAddr → List Node) :
    Action → Kernel → (HeadAddr → List Node) → Prop
  | ignored {num : Int} (args : List Int) (hnum : num < 0 ∨ DSOS_MAX_SYSCALLS < num) :
      Acted k L (.syscall num args) k L
  | called {r : Nat} {num : Int} {args : List Int} {k' : Kernel} {L' : HeadAddr → List Node}
      (hr : k.running = some r) (h : Called (k.setCall r num args) L r num k' L') :
      Acted k L (.syscall num args) k' L'
  | ticked {r : Nat} {k' : Kernel} {L' : HeadAddr → List Node} (hr : k.running = some r)
      (hb : Scheduled { k with disastrOSTime := k.disastrOSTime + 1 } L k' L') : Acted k L .timer k' L'
  | restarted {p : Nat} {k' : Kernel} {L' : HeadAddr → List Node} (h : Restarted k L p k' L') :
      Acted k L .restart k' L'
  | stored (addr : Int) (v : UInt8) :
      Acted k L (.store addr v) { k with mem := Function.update k.mem addr v } L

/-- A process that fills in its registers is not waiting. -/
theorem coherent_setCall (hc : Coherent k L) (hr : k.running = some r) :
    Coherent (k.setCall r num args) L := by
  have hm : Moved k L (fun _ => True) (k.setCall r num args) L := by
    refine moved_same hc.tidy rfl rfl rfl rfl (fun q => ?_) trivial
    show (Function.update k.pcb r ((k.pcb r).called num args) q).timer = _
    rw [Function.update_apply]
    split
    · next he => rw [he]; rfl
    · rfl
  refine ⟨hm.tidy, hm.hung hc.hung, ?_⟩
  rw [view_setCall]
  exact called_sound hc.sound hr

/-- Time passes. -/
theorem coherent_time (hc : Coherent k L) (t : Int) : Coherent { k with disastrOSTime := t } L := by
  have hm : Moved k L (fun _ => True) { k with disastrOSTime := t } L :=
    moved_same hc.tidy rfl rfl rfl rfl (fun _ => rfl) trivial
  exact ⟨hm.tidy, hm.hung hc.hung, sound_time hc.sound t⟩

/-- The calls that can give the processor to another process. -/
def switchingCalls : List Int :=
  [DSOS_CALL_PREEMPT, DSOS_CALL_WAIT, DSOS_CALL_EXIT, DSOS_CALL_SLEEP, DSOS_CALL_SEMWAIT]

theorem handled_stays {s s' : ProcessTable} (h : Handled s r num s') (hnum : num ∉ switchingCalls) :
    s'.running = s.running := by
  cases h with
  | quiet => rfl
  | spawn => rfl
  | semWake => rfl
  | _ => exact absurd (by decide) hnum

/-- Every other call returns to its caller. -/
theorem syscall_direct {f : Kernel → Except Fault Kernel} (hc : Coherent k L)
    (hv : syscallVector num = some f) (h0 : 0 ≤ num) (hlt : num < DSOS_MAX_SYSCALLS)
    (hnum : num ∉ switchingCalls) (hr : k.running = some r) (args : List Int) :
    k.disastrOSSyscall num args = f (k.setCall r num args) := by
  refine syscall_stays args hv h0 hlt hr fun k' hk' => ?_
  obtain ⟨L', _, _, _, hhandled⟩ := handler_done (coherent_setCall hc hr) hr hv hk'
  exact (handled_stays hhandled hnum).trans hr

/-- A completed action and the step of the process table. -/
theorem act_done (hc : Coherent k L) (ha : Ordinary a) (h : act k a = .ok k') :
    ∃ L', Acted k L a k' L' ∧ Coherent k' L' ∧ Step (view k L) a (view k' L') := by
  cases a with
  | syscall num args =>
    have h : k.disastrOSSyscall num args = .ok k' := h
    unfold disastrOSSyscall at h
    cases hr : k.running with
    | none =>
      rw [hr] at h
      cases h
    | some r =>
      rw [hr] at h
      simp only at h
      by_cases hout : num < 0 ∨ num > DSOS_MAX_SYSCALLS
      · rw [if_pos hout] at h
        cases h
        exact ⟨L, .ignored _ hout, hc, .refused _ hr hout⟩
      rw [if_neg hout] at h
      by_cases hmax : num = DSOS_MAX_SYSCALLS
      · rw [if_pos hmax] at h
        cases h
      rw [if_neg hmax] at h
      have hc₁ : Coherent (k.setCall r num args) L := coherent_setCall hc hr
      unfold disastrOSTrap at h
      obtain ⟨r', hr', h⟩ := bind_eq_ok.mp h
      have hr' : k.running = some r' := deref_eq_ok.mp hr'
      rw [hr, Option.some.injEq] at hr'
      subst hr'
      obtain ⟨k₁, h, hswitch⟩ := bind_eq_ok.mp h
      obtain ⟨rfl, hnext⟩ := setcontext_eq_ok.mp hswitch
      have hdone : CallDone (k.setCall r num args) L r num k' := by
        cases hv : syscallVector num with
        | none =>
          rw [hv] at h
          cases h
          exact done_of_moved hc₁ (.refused _ _)
            (moved_setRetvalue hc₁.tidy (.still (not_processCall hv)))
        | some f =>
          rw [hv] at h
          exact handler_done hc₁ hr hv h
      obtain ⟨L', hcalled, htidy, hhung, hmove⟩ := hdone
      have hstep : Handled ((view k L).modify r fun q => q.called num args) r num (view k' L') := by
        rw [← view_setCall]
        exact hmove
      refine ⟨L', .called hr hcalled, ⟨htidy, hhung, ?_⟩, .call hr hstep hnext⟩
      refine handled_sound hmove hc₁.sound hr ?_
      show ((k.setCall r num args).pcb r).syscallNum = num
      simp [setCall, modPcb]
  | timer =>
    have h : k.timerInterrupt = .ok k' := h
    unfold timerInterrupt at h
    obtain ⟨r, hr, h⟩ := bind_eq_ok.mp h
    obtain ⟨time, htime, h⟩ := bind_eq_ok.mp h
    obtain ⟨_, rfl⟩ := addInt_eq_ok.mp htime
    obtain ⟨k₁, hk₁, h⟩ := bind_eq_ok.mp h
    obtain ⟨_, _, h⟩ := bind_eq_ok.mp h
    obtain ⟨rfl, hnext⟩ := setcontext_eq_ok.mp h
    have hr : k.running = some r := deref_eq_ok.mp hr
    have hc₁ : Coherent { k with disastrOSTime := k.disastrOSTime + 1 } L := coherent_time hc _
    obtain ⟨L', hk, hb, hsched⟩ := internalSchedule_refines (Coherent.kept hc₁) hc₁.sound hk₁
    have hm := hk.moved hc₁.tidy hb.beside hsched
    exact ⟨L', .ticked hr hb, ⟨hm.tidy, hm.hung hc₁.hung, schedules_sound hsched hc₁.sound⟩,
      .tick hr hsched hnext⟩
  | restart =>
    obtain ⟨p, L', hre, hm⟩ := restart_refines hc (show k.resumeMain = .ok k' from h)
    exact ⟨L', .restarted hre, ⟨hm.tidy, hm.hung hc.hung, step_sound hm.move hc.sound⟩, hm.move⟩
  | store addr v =>
    obtain ⟨_, rfl⟩ := storeChar_eq_ok.mp (show k.storeChar addr v = .ok k' from h)
    have hm : Moved k L (fun _ => True) { k with mem := Function.update k.mem addr v } L :=
      moved_same hc.tidy rfl rfl rfl rfl (fun _ => rfl) trivial
    exact ⟨L, .stored addr v, ⟨hm.tidy, hm.hung hc.hung, hc.sound⟩, .store addr v⟩
  | dispatch p => exact ha.elim

end DisastrOS.Process.Transitions
