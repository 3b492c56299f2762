import DisastrOS.Process.Contexts
import DisastrOS.Process.Resumption
import DisastrOS.Process.SchedulerStep
import DisastrOS.Process.TimerList

/-!
# When a sleeper is awakened

A process that calls `sleep` stays in the waiting list until the first step of the
scheduler at or after its time. The time must be an `int`, and whoever runs next needs a context.
-/
namespace DisastrOS.Process.Sleepers

open DisastrOS.Machine
open DisastrOS.Machine.Kernel
open DisastrOS.Machine.Runs
open DisastrOS.Lists.Sequences
open DisastrOS.Lists.Wiring
open DisastrOS.Lists.RegularLists
open DisastrOS.Lists.Boot
open DisastrOS.Pool.Blocks
open DisastrOS.Process.Table
open DisastrOS.Process.Steps
open DisastrOS.Process.View
open DisastrOS.Process.Coherence
open DisastrOS.Process.Contexts
open DisastrOS.Process.Scheduling
open DisastrOS.Process.Resumption
open DisastrOS.Process.SchedulerStep
open DisastrOS.Process.TimerList
open DisastrOS.Process.Transitions
open DisastrOS.Process.SystemRuns
open DisastrOS.MessageQueue.Calls
open DisastrOS.Library.LinkedSequence
open DisastrOS.Library.GuardedRun
open DisastrOS.Library.Outcome

variable {k k' k₁ : Kernel} {L L' : HeadAddr → List Node} {r p n : Nat} {wake now : Int}
  {a : Action}

/-- The clock in `internal_schedule`, for the actions that run it. -/
def scheduleTime (k : Kernel) : Action → Option Int
  | .timer => some (k.disastrOSTime + 1)
  | .syscall num _ => if num = DSOS_CALL_PREEMPT then some k.disastrOSTime else none
  | .restart => none
  | .store _ _ => none
  | .dispatch _ => none

/-- `r` sleeps until `wake`. -/
structure Asleep (k : Kernel) (L : HeadAddr → List Node) (r : Nat) (wake : Int) : Prop where
  coherent : Coherent k L
  waiting : r ∈ (view k L).waiting
  call : (k.pcb r).syscallNum = DSOS_CALL_SLEEP
  timer : ⟨wake, some r⟩ ∈ (view k L).timers

/-- The state in which an action runs `internal_schedule`. -/
theorem schedule_of_act (h : Asleep k L r wake) (hact : k.act a = .ok k')
    (ht : scheduleTime k a = some now) :
    ∃ k₁ q, Asleep k₁ L r wake ∧ k₁.running = some q ∧ k₁.disastrOSTime = now ∧
      k₁.internalSchedule = .ok k' := by
  have hc := h.coherent
  cases a with
  | timer =>
    cases ht
    have hact : k.timerInterrupt = .ok k' := hact
    unfold timerInterrupt at hact
    obtain ⟨q, hq, hact⟩ := bind_eq_ok.mp hact
    obtain ⟨time, htime, hact⟩ := bind_eq_ok.mp hact
    obtain ⟨_, rfl⟩ := addInt_eq_ok.mp htime
    obtain ⟨k₁, hk₁, hact⟩ := bind_eq_ok.mp hact
    obtain ⟨_, _, hact⟩ := bind_eq_ok.mp hact
    obtain ⟨rfl, -⟩ := setcontext_eq_ok.mp hact
    exact ⟨{ k with disastrOSTime := k.disastrOSTime + 1 }, q,
      ⟨coherent_time hc _, h.waiting, h.call, h.timer⟩, deref_eq_ok.mp hq, rfl, hk₁⟩
  | syscall num args =>
    have ht : (if num = DSOS_CALL_PREEMPT then some k.disastrOSTime else none) = some now := ht
    split at ht
    · next hnum =>
      cases ht
      subst hnum
      obtain ⟨q, hq, hsched⟩ := syscall_ok rfl (by decide) (by decide)
        (show k.disastrOSSyscall DSOS_CALL_PREEMPT args = .ok k' from hact)
      have hne : r ≠ q := by
        rintro rfl
        exact (hc.sound.placed.not_mem_of_waiting h.waiting).1 hq
      refine ⟨k.setCall q DSOS_CALL_PREEMPT args, q, ⟨coherent_setCall hc hq, h.waiting, ?_,
        h.timer⟩, hq, rfl, hsched⟩
      show (Function.update k.pcb q _ r).syscallNum = _
      rw [Function.update_of_ne hne]
      exact h.call
    · cases ht
  | restart => cases ht
  | store => cases ht
  | dispatch => cases ht

/-- The sleeper is among those awakened exactly when its time has come. -/
theorem mem_woken_iff (h : Asleep k L r wake) :
    ⟨.pcb, r⟩ ∈ woken k L ↔ wake ≤ k.disastrOSTime := by
  obtain ⟨x, hx, hitem⟩ := List.mem_map.mp h.timer
  have hpcb : (k.timerItem x.idx).pcb = some r := by rw [hitem]
  have htime : (k.timerItem x.idx).awakeningTime = wake := by rw [hitem]
  constructor
  · intro hm
    obtain ⟨y, hy, he⟩ := List.mem_filterMap.mp hm
    obtain ⟨hy, hel⟩ := List.mem_filter.mp hy
    obtain ⟨q, hq, he⟩ := Option.map_eq_some_iff.mp he
    cases he
    -- each process has one timer
    have hn := (schedulable_of_coherent h.coherent).distinct
    obtain rfl := List.inj_on_of_nodup_map hn hy hx (hq.trans hpcb.symm)
    rw [← htime]
    exact of_decide_eq_true hel
  · intro hle
    refine List.mem_filterMap.mpr ⟨x, List.mem_filter.mpr ⟨hx, ?_⟩, by rw [hpcb]; rfl⟩
    unfold elapsed
    rw [decide_eq_true_eq, htime]
    exact hle

/-- What the step of the scheduler has done to the sleeper. -/
theorem asleep_scheduled (h : Asleep k₁ L r wake) (hr : k₁.running = some p)
    (hsched : k₁.internalSchedule = .ok k') (hs' : Strung Regular Retained k' L') :
    (k₁.disastrOSTime < wake → r ∈ (view k' L').waiting ∧ ⟨wake, some r⟩ ∈ (view k' L').timers) ∧
      (wake ≤ k₁.disastrOSTime → r ∉ (view k' L').waiting ∧
        (Linked k' .readyList ⟨.pcb, r⟩ ∨ k'.running = some r)) := by
  obtain ⟨hout, hu⟩ := running_aside h.coherent hr
  have hstep := scheduleStep_of_ok (schedulable_of_coherent h.coherent) hr hout hu hsched
  have hlist : ∀ l, OfScheduler l → Regular l.nodeKind → L' l = scheduledLists k₁ L p l :=
    fun l hl hreg => represents_unique (hs'.holds hreg) (hstep.lists.holds l hl)
  have hwaiting := hlist .waitingList ofScheduler_waiting regular_pcb
  have htimers := hlist .timerList ofScheduler_timer regular_timerItem
  have hready := hlist .readyList ofScheduler_ready regular_pcb
  have hitems : k'.timerItem = k₁.timerItem := by rw [hstep.rest]
  have hnode : (⟨.pcb, r⟩ : Node) ∈ L .waitingList :=
    (mem_map_idx h.coherent.tidy.strung (l := .waitingList) regular_pcb).mp h.waiting
  have hmem : r ∈ (view k' L').waiting ↔ ⟨.pcb, r⟩ ∉ woken k₁ L := by
    refine (mem_map_idx hs' (l := .waitingList) regular_pcb).trans ?_
    rw [hwaiting]
    show (⟨.pcb, r⟩ : Node) ∈ (L .waitingList).filter (fun x => x ∉ woken k₁ L) ↔ _
    rw [List.mem_filter, decide_eq_true_eq]
    exact and_iff_right hnode
  rw [hmem, mem_woken_iff h]
  refine ⟨fun hlt => ⟨by omega, ?_⟩, fun hle => ⟨not_not.mpr hle, ?_⟩⟩
  · obtain ⟨x, hx, hitem⟩ := List.mem_map.mp h.timer
    refine List.mem_map.mpr ⟨x, ?_, by rw [hitems]; exact hitem⟩
    rw [htimers]
    refine List.mem_filter.mpr ⟨hx, ?_⟩
    unfold elapsed
    rw [hitem]
    simp only [Bool.not_eq_true', decide_eq_false_iff_not]
    omega
  · have hw := (mem_woken_iff h).mpr hle
    have hcand : (⟨.pcb, r⟩ : Node) ∈ candidates k₁ L := List.mem_append_left _ hw
    have hrun := hstep.running
    unfold scheduledLists at hready
    simp only at hready
    cases hc : candidates k₁ L with
    | nil =>
      rw [hc] at hcand
      cases hcand
    | cons next rest =>
      rw [hc] at hcand hrun hready
      simp only at hrun hready
      rcases List.mem_cons.mp hcand with rfl | hm
      · exact .inr hrun
      · refine .inl ((hs'.linked_iff (l := .readyList) regular_pcb).mpr ?_)
        rw [hready]
        exact List.mem_append_left _ hm

/-- Without the scheduler a sleeper goes on sleeping. -/
theorem asleep_aside (h : Asleep k L r wake) (hstep : Step (view k L) a (view k' L'))
    (hno : scheduleTime k a = none) :
    r ∈ (view k' L').waiting ∧ ⟨wake, some r⟩ ∈ (view k' L').timers := by
  have hs := h.coherent.sound
  generalize view k' L' = s' at hstep ⊢
  cases hstep with
  | refused => exact ⟨h.waiting, h.timer⟩
  | @call q num args _ hq hh =>
    have hne : r ≠ q := by
      rintro rfl
      exact (hs.placed.not_mem_of_waiting h.waiting).1 hq
    have hinfo : (((view k L).modify q fun x => x.called num args).info r).syscallNum =
        DSOS_CALL_SLEEP := by
      show (Function.update (view k L).info q _ r).syscallNum = _
      rw [Function.update_of_ne hne]
      exact h.call
    refine sleeping_handled hh (called_sound hs hq) hq h.waiting hinfo h.timer fun he => ?_
    have hno : (if num = DSOS_CALL_PREEMPT then some k.disastrOSTime else none) = none := hno
    rw [if_pos he] at hno
    cases hno
  | tick => cases hno
  | restart => exact ⟨h.waiting, h.timer⟩
  | store => exact ⟨h.waiting, h.timer⟩

/-- A step that does not see the time `wake` leaves the sleeper asleep. -/
theorem asleep_step (h : Asleep k L r wake) (ha : Ordinary a) (hact : k.act a = .ok k')
    (hearly : ∀ now, scheduleTime k a = some now → now < wake) :
    ∃ L', Asleep k' L' r wake := by
  obtain ⟨L', _, hc', hstep⟩ := act_done h.coherent ha hact
  have hs := h.coherent.sound
  obtain ⟨hnum, _⟩ := sameCall_step hstep (hs.placed.live_of_waiting h.waiting)
    (hs.placed.not_mem_of_waiting h.waiting).1
  have hcall : (k'.pcb r).syscallNum = DSOS_CALL_SLEEP := Eq.trans hnum h.call
  cases ht : scheduleTime k a with
  | none =>
    obtain ⟨hw, htimer⟩ := asleep_aside h hstep ht
    exact ⟨L', hc', hw, hcall, htimer⟩
  | some now =>
    obtain ⟨k₁, q, h₁, hq, hnow, hsched⟩ := schedule_of_act h hact ht
    have hlt := hearly now ht
    obtain ⟨hw, htimer⟩ := (asleep_scheduled h₁ hq hsched hc'.tidy.strung).1 (by rw [hnow]; exact hlt)
    exact ⟨L', hc', hw, hcall, htimer⟩

/-- The step that sees the time `wake` awakens the sleeper. -/
theorem awake_step (h : Asleep k L r wake) (ha : Ordinary a) (hact : k.act a = .ok k')
    (ht : scheduleTime k a = some now) (hle : wake ≤ now) :
    ¬ Blocked k' r ∧ (Linked k' .readyList ⟨.pcb, r⟩ ∨ k'.running = some r) := by
  obtain ⟨L', _, hc', _⟩ := act_done h.coherent ha hact
  obtain ⟨k₁, q, h₁, hq, hnow, hsched⟩ := schedule_of_act h hact ht
  rw [blocked_iff hc'.tidy.strung]
  exact (asleep_scheduled h₁ hq hsched hc'.tidy.strung).2 (by rw [hnow]; exact hle)

theorem syscallNum_setCall {num : Int} {args : List Int} :
    ((view (k.setCall r num args) L).info r).syscallNum = num := by
  show (Function.update k.pcb r _ r).syscallNum = _
  rw [Function.update_self]

/-- A process can sleep for `d` ticks when its time is an `int`. -/
theorem slept_of_sleep {d : Int} (hc : Coherent k L) (hctx : ContextsMade (view k L))
    (hnext : NextHasContext k) (hr : k.running = some r) (hd : 0 ≤ d)
    (htime : 0 ≤ k.disastrOSTime) (hfits : k.disastrOSTime + d < 2 ^ 31) :
    ∃ k' as bs L', k.act (.syscall DSOS_CALL_SLEEP [d]) = .ok k' ∧ Coherent k' L' ∧
      Slept (k.setCall r DSOS_CALL_SLEEP [d]) L r (k.disastrOSTime + d) as bs k' L' := by
  have hc₁ : Coherent (k.setCall r DSOS_CALL_SLEEP [d]) L := coherent_setCall hc hr
  have hr₁ : (k.setCall r DSOS_CALL_SLEEP [d]).running = some r := hr
  have hw : addInt (k.setCall r DSOS_CALL_SLEEP [d]).disastrOSTime
      (toInt ((k.setCall r DSOS_CALL_SLEEP [d]).arg r 0)) = .ok (k.disastrOSTime + d) := by
    rw [arg_setCall (by decide), List.getD_cons_zero, toInt_of_fits (by omega) (by omega)]
    exact addInt_eq_ok.mpr ⟨⟨by show _ ≤ k.disastrOSTime + d; omega, hfits⟩, rfl⟩
  obtain ⟨k', as, bs, L', hk', hslept⟩ := sleep_total hc₁ hr₁ (timer_available hc₁ hr₁) hw
  have hm := hslept.moved
  have hview : view k' L' = _ := hm.move
  have hsound : Sound (view k' L') := by
    rw [hview]
    exact sound_sleep hc₁.sound hr₁ syscallNum_setCall hslept.split hslept.earlier hslept.later
  have hact : k.act (.syscall DSOS_CALL_SLEEP [d]) = .ok k' :=
    syscall_switches hc hctx hnext rfl (by decide) (by decide) hr hk'
  exact ⟨k', as, bs, L', hact, ⟨hm.tidy, hm.hung hc₁.hung, hsound⟩, hslept⟩

end DisastrOS.Process.Sleepers
