import DisastrOS.Library.Simulation
import DisastrOS.Process.Kinship
import DisastrOS.Process.SystemRuns

/-!
# Runs of the process table

The process table moves on its own: its steps know nothing of links, blocks and registers.
The kernel never does anything else to the processes. A process therefore stops waiting only
for what it waits for.
-/
namespace DisastrOS.Process.TableRuns

open DisastrOS.Machine
open DisastrOS.Machine.Kernel
open DisastrOS.Machine.Runs
open DisastrOS.Lists.Boot
open DisastrOS.Lists.Wiring
open DisastrOS.Lists.RegularLists
open DisastrOS.Process.Table
open DisastrOS.Process.Steps
open DisastrOS.Process.View
open DisastrOS.Process.Coherence
open DisastrOS.Process.Kinship
open DisastrOS.Process.Transitions
open DisastrOS.Process.SystemRuns
open DisastrOS.Library.GuardedRun
open DisastrOS.Library.LinkedSequence

variable {mem : Int → UInt8} {k k' k₀ : Kernel} {L L' : HeadAddr → List Node}
  {s s' u : ProcessTable} {a : Action} {as : List Action} {p r : Nat} {num : Int}

/-! ## Refinement -/

/-- In the step from `s` to `s'` the process `p` has got what it was waiting for: its time has
come, its child has exited, or somebody has posted on its semaphore and it was the first. -/
inductive Awoken (s : ProcessTable) (a : Action) (p : Nat) (s' : ProcessTable) : Prop
  | rang {t : TimerItem} (ha : a = .timer ∨ ∃ args, a = .syscall DSOS_CALL_PREEMPT args)
      (ht : t ∈ s.timers) (hpcb : t.pcb = some p)
      (hdue : t.awakeningTime ≤ s'.time)
  | answered {r : Nat} {args : List Int} (ha : a = .syscall DSOS_CALL_EXIT args)
      (hr : s.running = some r) (hparent : (s.info r).parent = some p) (hwaits : WaitsFor s p r)
      (hrun : s'.running = some p)
  | posted {sem : Nat} {args : List Int} {rest : List (Option Nat)}
      (ha : a = .syscall DSOS_CALL_SEMPOST args) (hfirst : s.waiters sem = some p :: rest)
      (hready : p ∈ s'.ready)

theorem wakes_rang (h : Wakes s u) (hw : p ∈ s.waiting) (hw' : p ∉ u.waiting) :
    ∃ t ∈ s.timers, t.pcb = some p ∧ t.awakeningTime ≤ s.time := by
  induction h with
  | done s => exact absurd hw hw'
  | @wake s u timer rest q as bs htimers hpcb htime _ _ ih =>
    by_cases hq : p = q
    · subst hq
      refine ⟨timer, ?_, hpcb, htime⟩
      rw [htimers]
      exact List.mem_cons_self
    · obtain ⟨t, ht, hp, hdue⟩ := ih ((List.mem_erase_of_ne hq).mpr hw) hw'
      exact ⟨t, List.mem_of_mem_tail ht, hp, hdue⟩

theorem schedules_rang (h : Schedules s s') (hw : p ∈ s.waiting) (hw' : p ∉ s'.waiting) :
    ∃ t ∈ s.timers, t.pcb = some p ∧ t.awakeningTime ≤ s'.time := by
  have hwakes : ∀ {u}, Wakes s u → u.waiting = s'.waiting →
      ∃ t ∈ s.timers, t.pcb = some p ∧ t.awakeningTime ≤ s.time := fun h hu =>
    wakes_rang h hw (hu ▸ hw')
  rw [(schedules_rescheduled h).rest]
  cases h with
  | alone h _ => exact hwakes h rfl
  | rotate h _ _ => exact hwakes h rfl

theorem handled_awoken {args : List Int} (hs : Sound s) (hr : s.running = some r)
    (h : Handled s r num s') (hw : p ∈ s.waiting) (hw' : p ∉ s'.waiting) :
    Awoken s (.syscall num args) p s' := by
  cases h with
  | quiet => exact absurd hw hw'
  | preempt h =>
    obtain ⟨t, ht, hpcb, hdue⟩ := schedules_rang h hw hw'
    exact .rang (.inr ⟨args, rfl⟩) ht hpcb hdue
  | spawn => exact absurd hw hw'
  | sleep => exact absurd (List.mem_append_left _ hw) hw'
  | waitBlock => exact absurd (List.mem_append_left _ hw) hw'
  | waitCollect => exact absurd hw hw'
  | exitNext => exact absurd hw hw'
  | @exitReport i parent _ hparent hwaits _ =>
    by_cases hp : p = parent
    · subst hp
      exact .answered rfl hr hparent ((waitsFor_died hs hr).mp hwaits) rfl
    · exact absurd ((List.mem_erase_of_ne hp).mpr hw) hw'
  | semBlock => exact absurd (List.mem_append_left _ hw) hw'
  | @semWake q sem rest hfirst =>
    by_cases hp : p = q
    · subst hp
      exact .posted rfl hfirst (List.mem_append_right _ List.mem_cons_self)
    · exact absurd ((List.mem_erase_of_ne hp).mpr hw) hw'

theorem step_awoken (hs : Sound s) (h : Step s a s') (hw : p ∈ s.waiting)
    (hw' : p ∉ s'.waiting) : Awoken s a p s' := by
  cases h with
  | refused => exact absurd hw hw'
  | store => exact absurd hw hw'
  | tick _ h =>
    obtain ⟨t, ht, hpcb, hdue⟩ := schedules_rang h hw hw'
    exact .rang (.inl rfl) ht hpcb hdue
  | restart => exact absurd hw hw'
  | @call r num args _ hr h =>
    have hpr : p ≠ r := by
      rintro rfl
      exact (hs.placed.not_mem_of_running hr).2.1 hw
    have hinfo : ((s.modify r fun q => q.called num args).info p) = s.info p :=
      Function.update_of_ne hpr _ _
    have hself : ((s.modify r fun q => q.called num args).info r) = (s.info r).called num args :=
      Function.update_self ..
    cases @handled_awoken _ _ p r num args (called_sound hs hr) hr h hw hw' with
    | rang ha ht hpcb hdue => exact .rang ha ht hpcb hdue
    | @answered r' _ ha hr' hparent hwaits hrun =>
      obtain rfl : r = r' := Option.some.inj (hr.symm.trans hr')
      unfold WaitsFor at hwaits
      rw [hinfo, hself] at hwaits
      rw [hself] at hparent
      exact .answered ha hr hparent hwaits hrun
    | posted ha hfirst hready => exact .posted ha hfirst hready

/-- A process that leaves the waiting list has slept long enough, or waited for a process that
exits just now, or is the first to wait for a semaphore that is posted on. -/
theorem woken_for_cause (hs : Started mem k₀)
    (h : Run act (fun _ a => Ordinary a) k₀ as k) (ha : Ordinary a) (hact : act k a = .ok k')
    (hw : Linked k .waitingList ⟨.pcb, p⟩) (hw' : ¬ Linked k' .waitingList ⟨.pcb, p⟩) :
    ((a = .timer ∨ ∃ args, a = .syscall DSOS_CALL_PREEMPT args) ∧
      (k.pcb p).syscallNum = DSOS_CALL_SLEEP ∧ ∃ x, Linked k .timerList x ∧
      (k.timerItem x.idx).pcb = some p ∧ (k.timerItem x.idx).awakeningTime ≤ k'.disastrOSTime) ∨
    (∃ r args, a = .syscall DSOS_CALL_EXIT args ∧ k.running = some r ∧
      (k.pcb r).parent = some p ∧ Awaits k p r ∧ k'.running = some p) ∨
    ((k.pcb p).syscallNum = DSOS_CALL_SEMWAIT ∧ ∃ sem x args, a = .syscall DSOS_CALL_SEMPOST args ∧
      (k.head (.waitingDescriptors sem)).first = some x ∧ waiterOf k x.idx = some p ∧
      Linked k' .readyList ⟨.pcb, p⟩) := by
  obtain ⟨L, hc⟩ := coherent_run hs h
  obtain ⟨L', _, hc', hstep⟩ := act_done hc ha hact
  have hstr := hc.tidy.strung
  have hstr' := hc'.tidy.strung
  rw [hstr.linked_iff (l := .waitingList) regular_pcb] at hw
  rw [hstr'.linked_iff (l := .waitingList) regular_pcb] at hw'
  have hwait : p ∈ (view k L).waiting := (mem_map_idx hstr (l := .waitingList) regular_pcb).mpr hw
  have hwait' : p ∉ (view k' L').waiting := fun hm =>
    hw' ((mem_map_idx hstr' (l := .waitingList) regular_pcb).mp hm)
  cases step_awoken hc.sound hstep hwait hwait' with
  | @rang t hcall ht hpcb hdue =>
    obtain ⟨q, _, hq, hnum⟩ := hc.sound.timed.asleep t ht
    obtain rfl : p = q := Option.some.inj (hpcb.symm.trans hq)
    obtain ⟨x, hx, rfl⟩ := List.mem_map.mp ht
    exact .inl ⟨hcall, hnum, x, (hstr.linked_iff (l := .timerList) (by decide : Regular .timerItem)).mpr hx,
      hpcb, hdue⟩
  | @answered r args hcall hr hparent hwaits hrun =>
    exact .inr (.inl ⟨r, args, hcall, hr, hparent, hwaits, hrun⟩)
  | @posted sem args rest hcall hfirst hready =>
    have hm : some p ∈ (view k L).waiters sem := by
      rw [hfirst]
      exact List.mem_cons_self
    obtain ⟨q, _, hq, hnum⟩ := hc.sound.awaiting.blocked sem (some p) hm
    cases hq
    have hfirst : (L (.waitingDescriptors sem)).map (fun x => waiterOf k x.idx) = some p :: rest :=
      hfirst
    obtain ⟨x, xs, hL, hx, _⟩ := List.map_eq_cons_iff.mp hfirst
    refine .inr (.inr ⟨hnum, sem, x, args, hcall, ?_, hx, ?_⟩)
    · rw [hstr.first_eq (l := .waitingDescriptors sem) (regular_waitingDescriptors sem), hL]
      rfl
    · exact (hstr'.linked_iff (l := .readyList) regular_pcb).mpr
        ((mem_map_idx hstr' (l := .readyList) regular_pcb).mp hready)

theorem not_linked_empty {l : HeadAddr} {x : Node} (h : (k.head l).first = none) :
    ¬ Linked k l x := by
  rintro ⟨n, hn⟩
  rw [h, follow_none] at hn
  cases hn

/-- Init sleeps for one tick. -/
theorem woken_for_cause_tick : ∃ k₀ k k' : Kernel, Started (fun _ => 0) k₀ ∧
    Run act (fun _ a => Ordinary a) k₀ [.syscall DSOS_CALL_SPAWN [], .syscall DSOS_CALL_SLEEP [1]] k ∧
    act k .timer = .ok k' ∧
    (((Action.timer = .timer ∨ ∃ args, Action.timer = .syscall DSOS_CALL_PREEMPT args) ∧
      (k.pcb 0).syscallNum = DSOS_CALL_SLEEP ∧ ∃ x, Linked k .timerList x ∧
      (k.timerItem x.idx).pcb = some 0 ∧ (k.timerItem x.idx).awakeningTime ≤ k'.disastrOSTime) ∨
    (∃ r args, Action.timer = .syscall DSOS_CALL_EXIT args ∧ k.running = some r ∧
      (k.pcb r).parent = some 0 ∧ Awaits k 0 r ∧ k'.running = some 0) ∨
    ((k.pcb 0).syscallNum = DSOS_CALL_SEMWAIT ∧ ∃ sem x args,
      Action.timer = .syscall DSOS_CALL_SEMPOST args ∧
      (k.head (.waitingDescriptors sem)).first = some x ∧ waiterOf k x.idx = some 0 ∧
      Linked k' .readyList ⟨.pcb, 0⟩)) := by
  obtain ⟨k₀, k, hs, h, htest⟩ := exists_run_from_start (fun _ a => Ordinary a)
    (fun _ a => decide (Ordinary a))
    [.syscall DSOS_CALL_SPAWN [], .syscall DSOS_CALL_SLEEP [1]]
    (fun k => (k.head .waitingList).first = some ⟨.pcb, 0⟩ ∧
      ((act k .timer).toOption.any fun k' => (k'.head .waitingList).first = none) = true)
    (fun _ _ hcheck => of_decide_eq_true hcheck) (by decide +kernel)
  obtain ⟨hw, htick⟩ := of_decide_eq_true htest
  obtain ⟨k', hact, hw'⟩ := exists_of_any htick
  exact ⟨k₀, k, k', hs, h, hact,
    woken_for_cause hs h trivial hact (linked_first hw) (not_linked_empty hw')⟩

end DisastrOS.Process.TableRuns
