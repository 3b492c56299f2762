import DisastrOS.Library.Progress
import DisastrOS.Process.SystemRuns

/-!
# Nobody starves

A timer tick takes the first process of the ready list. Those that sleep are put before the
others when they wake, so a ready process can be overtaken, but by each sleeper only once:
whoever goes to sleep has made room in the ready list.
-/
namespace DisastrOS.Process.Fairness

open DisastrOS.Machine
open DisastrOS.Machine.Kernel
open DisastrOS.Machine.Runs
open DisastrOS.Lists.Wiring
open DisastrOS.Lists.RegularLists
open DisastrOS.Process.Table
open DisastrOS.Process.Steps
open DisastrOS.Process.View
open DisastrOS.Process.Coherence
open DisastrOS.Process.Transitions
open DisastrOS.Process.SystemRuns
open DisastrOS.Library.LinkedSequence
open DisastrOS.Library.GuardedRun

variable {mem : Int → UInt8} {k k' k₀ : Kernel} {L : HeadAddr → List Node} {s s' u : ProcessTable}
  {a : Action} {as bs : List Action} {p r i n : Nat} {num : Int}

/-! ## The place of a ready process -/

/-- At most `n` others can come before the ready process `p`: those before it in the ready
list, and those that sleep. -/
def Behind (n : Nat) (s : ProcessTable) (p : Nat) : Prop :=
  ∃ i, s.ready[i]? = some p ∧ i + s.timers.length ≤ n

theorem Behind.congr (h : Behind n s p) (hready : s'.ready = s.ready)
    (htimers : s'.timers = s.timers) : Behind n s' p := by
  unfold Behind
  rwa [hready, htimers]

/-- New processes come behind. -/
theorem Behind.append {xs : List Nat} (h : Behind n s p) (hready : s'.ready = s.ready ++ xs)
    (htimers : s'.timers = s.timers) : Behind n s' p := by
  obtain ⟨i, hi, hle⟩ := h
  refine ⟨i, ?_, by rwa [htimers]⟩
  rw [hready, List.getElem?_append_left (List.getElem?_eq_some_iff.mp hi).1, hi]

/-- The first process leaves the list. -/
theorem Behind.next {xs : List Nat} (h : Behind n s p) (hready : s'.ready = s.ready.tail ++ xs)
    (htimers : s'.timers = s.timers) :
    s.ready.head? = some p ∨ ∃ m, Behind m s' p ∧ m + 1 ≤ n := by
  obtain ⟨i, hi, hle⟩ := h
  cases i with
  | zero =>
    rw [← List.head?_eq_getElem?] at hi
    exact .inl hi
  | succ i =>
    have hlt := (List.getElem?_eq_some_iff.mp hi).1
    refine .inr ⟨i + s.timers.length, ⟨i, ?_, by rw [htimers]⟩, by omega⟩
    rw [hready, List.getElem?_append_left (by rw [List.length_tail]; omega), List.getElem?_tail, hi]

/-- A sleeper that wakes is one place and no longer a sleeper. -/
theorem behind_wakes (h : Wakes s u) (hb : Behind n s p) : Behind n u p := by
  induction h with
  | done => exact hb
  | @wake s u timer rest q as bs htimers _ _ hready _ ih =>
    refine ih ?_
    obtain ⟨i, hi, hle⟩ := hb
    have hlen : (s.ring q as bs).timers.length + 1 = s.timers.length := by
      show s.timers.tail.length + 1 = s.timers.length
      rw [htimers]
      rfl
    by_cases hlt : i < as.length
    · refine ⟨i, ?_, by omega⟩
      show (as ++ q :: bs)[i]? = some p
      rw [hready, List.getElem?_append_left hlt] at hi
      rw [List.getElem?_append_left hlt, hi]
    · have hge : as.length ≤ i := Nat.le_of_not_lt hlt
      refine ⟨i + 1, ?_, by omega⟩
      show (as ++ q :: bs)[i + 1]? = some p
      rw [hready, List.getElem?_append_right hge] at hi
      rw [List.getElem?_append_right (by omega), show i + 1 - as.length = i - as.length + 1 by omega,
        List.getElem?_cons_succ, hi]

theorem behind_schedules (h : Schedules s s') (hb : Behind n s p) :
    s'.running = some p ∨ ∃ m, Behind m s' p ∧ m + 1 ≤ n := by
  cases h with
  | alone h hready =>
    obtain ⟨i, hi, _⟩ := behind_wakes h hb
    rw [hready] at hi
    cases hi
  | @rotate u r q rest h _ hready =>
    have hnext : u.ready.head? = some p ∨ ∃ m, Behind m (u.rotate r q) p ∧ m + 1 ≤ n :=
      (behind_wakes h hb).next rfl rfl
    rw [hready] at hnext
    exact hnext

/-! ## Steps -/

/-- A timer tick. -/
def ticks : Action → Nat
  | .timer => 1
  | _ => 0

theorem handled_behind (h : Handled s r num s') (hb : Behind n s p) :
    s'.running = some p ∨ Behind n s' p := by
  have hmono : ∀ {t : ProcessTable}, (∃ m, Behind m t p ∧ m + 1 ≤ n) → Behind n t p := by
    rintro t ⟨m, ⟨i, hi, hle⟩, hm⟩
    exact ⟨i, hi, by omega⟩
  have hnext : ∀ {t : ProcessTable}, t.running = s.ready.head? → t.ready = s.ready.tail →
      t.timers = s.timers → t.running = some p ∨ Behind n t p := by
    intro t hrun hready htimers
    have hready : t.ready = s.ready.tail ++ [] := by rw [hready, List.append_nil]
    refine (hb.next hready htimers).imp (fun hfirst => ?_) hmono
    rw [hrun, hfirst]
  cases h with
  | quiet => exact .inr hb
  | preempt h => exact (behind_schedules h hb).imp_right hmono
  | spawn => exact .inr (hb.append rfl rfl)
  | @sleep w as bs _ htimers _ _ =>
    -- the sleeper can overtake later, but the list has moved on
    obtain ⟨i, hi, hle⟩ := hb
    rw [htimers, List.length_append] at hle
    cases i with
    | zero =>
      rw [← List.head?_eq_getElem?] at hi
      exact .inl hi
    | succ i =>
      refine .inr ⟨i, ?_, ?_⟩
      · show s.ready.tail[i]? = some p
        rw [List.getElem?_tail, hi]
      · show i + (as ++ _ :: bs).length ≤ n
        rw [List.length_append, List.length_cons]
        omega
  | waitBlock => exact hnext rfl rfl rfl
  | waitCollect => exact .inr (hb.congr rfl rfl)
  | exitNext => exact hnext rfl rfl rfl
  | exitReport => exact .inr (hb.congr rfl rfl)
  | semBlock => exact hnext rfl rfl rfl
  | semWake => exact .inr (hb.append rfl rfl)

theorem step_behind (h : Step s a s') (hb : Behind n s p) :
    s'.running = some p ∨ ∃ m, Behind m s' p ∧ m + ticks a ≤ n := by
  cases h with
  | refused => exact .inr ⟨n, hb, Nat.le_refl n⟩
  | call _ h =>
    exact (handled_behind h (hb.congr rfl rfl)).imp_right fun hb => ⟨n, hb, Nat.le_refl n⟩
  | tick _ h => exact behind_schedules h (hb.congr rfl rfl)
  | restart => exact .inr ⟨n, hb.congr rfl rfl, Nat.le_refl n⟩
  | store => exact .inr ⟨n, hb, Nat.le_refl n⟩

/-! ## Runs -/

/-- A process at the place `i` of the ready list runs before there have been more ticks than
the `i` processes before it and all that sleep, whatever the processes do in between. -/
theorem nobody_starves (hs : Started mem k₀) (h : Run act (fun _ a => Ordinary a) k₀ as k)
    (hplace : follow k.lists.item i (k.head .readyList).first = some ⟨.pcb, p⟩)
    (h' : Run act (fun _ a => Ordinary a) k bs k')
    (hticks : i + (k.head .timerList).size < runCost ticks bs) :
    ∃ cs ds k₁, bs = cs ++ ds ∧ Run act (fun _ a => Ordinary a) k cs k₁ ∧ k₁.running = some p := by
  obtain ⟨L, hc⟩ := coherent_run hs h
  have hready := hc.tidy.strung.holds (l := .readyList) regular_pcb
  have htimers := hc.tidy.strung.size_eq (l := .timerList) (by decide : Regular .timerItem)
  have hplace : (L .readyList)[i]? = some ⟨.pcb, p⟩ := (represents_follow hready i).symm.trans hplace
  refine run_reaches (fun n k => ∃ L, Coherent k L ∧ Behind n (view k L) p)
    (fun k => k.running = some p) ticks ?_
    ⟨L, hc, i, ?_, Nat.le_refl _⟩ h' ?_
  · rintro n k a k' ⟨L, hc, hb⟩ ha hact
    obtain ⟨L', _, hc', hstep⟩ := act_done hc ha hact
    exact (step_behind hstep hb).imp_right fun ⟨m, hb', hle⟩ => ⟨m, ⟨L', hc', hb'⟩, hle⟩
  · show ((L .readyList).map Node.idx)[i]? = some p
    rw [List.getElem?_map, hplace]
    rfl
  · show i + ((L .timerList).map _).length < _
    rw [List.length_map]
    omega

/-- The second child runs after two ticks. -/
theorem nobody_starves_second : ∃ k₀ k k' : Kernel, Started (fun _ => 0) k₀ ∧
    Run act (fun _ a => Ordinary a) k₀ [.syscall DSOS_CALL_SPAWN [], .syscall DSOS_CALL_SPAWN []] k ∧
    Run act (fun _ a => Ordinary a) k [.timer, .timer] k' ∧
    ∃ cs ds k₁, [Action.timer, .timer] = cs ++ ds ∧ Run act (fun _ a => Ordinary a) k cs k₁ ∧
      k₁.running = some 2 := by
  obtain ⟨k₀, k, hs, h, htest⟩ := exists_run_from_start (fun _ a => Ordinary a)
    (fun _ a => decide (Ordinary a))
    [.syscall DSOS_CALL_SPAWN [], .syscall DSOS_CALL_SPAWN []]
    (fun k => follow k.lists.item 1 (k.head .readyList).first = some ⟨.pcb, 2⟩ ∧
      (k.head .timerList).size = 0 ∧
      (exec act (fun _ a => decide (Ordinary a)) k [.timer, .timer]).any (fun _ => true) = true)
    (fun _ _ hcheck => of_decide_eq_true hcheck) (by decide +kernel)
  obtain ⟨hplace, htimers, hticks⟩ := of_decide_eq_true htest
  obtain ⟨k', h', _⟩ := exists_run (fun _ a => Ordinary a)
    (fun _ _ hcheck => of_decide_eq_true hcheck) hticks
  exact ⟨k₀, k, k', hs, h, h', nobody_starves hs h hplace h' (by rw [htimers]; decide)⟩

end DisastrOS.Process.Fairness
