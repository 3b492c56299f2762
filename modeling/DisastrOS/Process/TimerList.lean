import DisastrOS.Process.SystemRuns

/-!
# The timers

The timer list is sorted by time and, for equal times, by the order of the calls of
`sleep`. Each timer belongs to another sleeping process, so the guard on the field `timer`,
which nothing ever sets, is not needed, and there is always a free timer item.
-/
namespace DisastrOS.Process.TimerList

open DisastrOS.Machine
open DisastrOS.Machine.Kernel
open DisastrOS.Machine.Runs
open DisastrOS.Lists.Sequences
open DisastrOS.Lists.Wiring
open DisastrOS.Lists.Boot
open DisastrOS.Pool.Blocks
open DisastrOS.Process.Table
open DisastrOS.Process.Steps
open DisastrOS.Process.View
open DisastrOS.Process.Coherence
open DisastrOS.Process.Scheduling
open DisastrOS.Process.Transitions
open DisastrOS.Process.SystemRuns
open DisastrOS.Library.GuardedRun

variable {s s' u : ProcessTable} {k : Kernel} {L : HeadAddr → List Node} {r p q : Nat} {num : Int}
  {args : List Int} {a : Action} {calls more : List Nat}

/-! ## The order of the calls -/

/-- The process that an action puts to sleep, if it is a call of `sleep`. -/
def sleepers : Option Nat → Action → List Nat
  | some r, .syscall num _ => if num = DSOS_CALL_SLEEP then [r] else []
  | _, _ => []

/-- The callers of `sleep`. -/
def sleepCalls (k : Kernel) (a : Action) (_ : Kernel) : List Nat := sleepers k.running a

/-- The last call by `p` comes before a call by `q`. -/
def Earlier (calls : List Nat) (p q : Nat) : Prop :=
  ∃ before after, calls = before ++ p :: after ∧ p ∉ after ∧ q ∈ after

theorem earlier_append (h : Earlier calls p q) (hp : p ∉ more) : Earlier (calls ++ more) p q := by
  obtain ⟨before, after, rfl, hp', hq⟩ := h
  refine ⟨before, after ++ more, by simp, ?_, List.mem_append_left _ hq⟩
  rw [List.mem_append, not_or]
  exact ⟨hp', hp⟩

theorem earlier_last (hp : p ∈ calls) (hne : p ≠ q) : Earlier (calls ++ [q]) p q := by
  obtain ⟨after, before, hsplit, hp'⟩ := List.eq_append_cons_of_mem (List.mem_reverse.mpr hp)
  have hcalls : calls = before.reverse ++ p :: after.reverse := by
    rw [← List.reverse_reverse calls, hsplit]
    simp
  refine ⟨before.reverse, after.reverse ++ [q], by rw [hcalls]; simp, ?_, by simp⟩
  rw [List.mem_append, List.mem_singleton, List.mem_reverse, not_or]
  exact ⟨hp', hne⟩

/-! ## The table -/

/-- The timer `i` rings before the timer `j`. -/
def Before (calls : List Nat) (i j : TimerItem) : Prop :=
  i.awakeningTime < j.awakeningTime ∨ (i.awakeningTime = j.awakeningTime ∧
    ∃ p q, i.pcb = some p ∧ j.pcb = some q ∧ Earlier calls p q)

/-- The timers are sorted by time and call, and their processes have called `sleep`. -/
structure Ranked (s : ProcessTable) (calls : List Nat) : Prop where
  order : s.timers.Pairwise (Before calls)
  called : ∀ i ∈ s.timers, ∃ p ∈ calls, i.pcb = some p

theorem ranked_congr (h : Ranked s calls) (ht : s'.timers = s.timers) : Ranked s' calls := by
  refine ⟨?_, fun i hi => ?_⟩
  · rw [ht]
    exact h.order
  · rw [ht] at hi
    exact h.called i hi

/-- A call by a process that has no timer. -/
theorem ranked_append (h : Ranked s calls) (hout : ∀ i ∈ s.timers, ∀ p ∈ more, i.pcb ≠ some p) :
    Ranked s (calls ++ more) := by
  refine ⟨h.order.imp_of_mem fun {i j} hi _ hij => ?_, fun i hi => ?_⟩
  · refine hij.imp id fun ⟨he, p, q, hp, hq, hpq⟩ => ⟨he, p, q, hp, hq, earlier_append hpq ?_⟩
    exact fun hm => hout i hi p hm hp
  · obtain ⟨p, hp, he⟩ := h.called i hi
    exact ⟨p, List.mem_append_left _ hp, he⟩

theorem ranked_wakes (h : Ranked s calls) (hw : Wakes s u) : Ranked u calls := by
  induction hw with
  | done => exact h
  | @wake s u timer rest p as bs htimers _ _ _ _ ih =>
    refine ih ⟨?_, fun i hi => ?_⟩
    · show s.timers.tail.Pairwise _
      exact h.order.tail
    · exact h.called i (List.mem_of_mem_tail hi)

theorem ranked_schedules (h : Ranked s calls) (hs : Schedules s s') : Ranked s' calls := by
  cases hs with
  | alone hw _ => exact ranked_wakes h hw
  | rotate hw _ _ => exact ranked_congr (ranked_wakes h hw) rfl

/-- A running process has no timer. -/
theorem no_timer_of_running (hs : Sound s) (hr : s.running = some r) :
    ∀ i ∈ s.timers, i.pcb ≠ some r := by
  intro i hi he
  obtain ⟨p, hp, hpcb, _⟩ := hs.timed.asleep i hi
  rw [he, Option.some.injEq] at hpcb
  exact (hs.placed.not_mem_of_running hr).2.1 (hpcb ▸ hp)

/-- The new timer goes behind those that ring at the same time. -/
theorem ranked_sleep {w : Int} {as bs : List TimerItem} (h : Ranked s calls) (hs : Sound s)
    (hr : s.running = some r) (htimers : s.timers = as ++ bs)
    (has : ∀ i ∈ as, i.awakeningTime ≤ w) (hbs : ∀ i ∈ bs, w < i.awakeningTime) :
    Ranked (s.sleep r w as bs) (calls ++ [r]) := by
  have hout := no_timer_of_running hs hr
  have hold : Ranked s (calls ++ [r]) := by
    refine ranked_append h fun i hi p hp => ?_
    rw [List.mem_singleton.mp hp]
    exact hout i hi
  have horder := hold.order
  rw [htimers, List.pairwise_append] at horder
  obtain ⟨horda, hordb, hordab⟩ := horder
  refine ⟨?_, fun i hi => ?_⟩
  · show (as ++ ⟨w, some r⟩ :: bs).Pairwise _
    refine List.pairwise_append.mpr ⟨horda, List.pairwise_cons.mpr ⟨fun j hj => ?_, hordb⟩,
      fun i hi j hj => ?_⟩
    · exact .inl (hbs j hj)
    · rcases List.mem_cons.mp hj with rfl | hj
      · rcases (has i hi).lt_or_eq with hlt | heq
        · exact .inl hlt
        · have hi' : i ∈ s.timers := by rw [htimers]; exact List.mem_append_left _ hi
          obtain ⟨p, hp, hpcb⟩ := h.called i hi'
          have hne : p ≠ r := fun he => hout i hi' (he ▸ hpcb)
          exact .inr ⟨heq, p, r, hpcb, rfl, earlier_last hp hne⟩
      · exact hordab i hi j hj
  · have hi : i ∈ as ++ ⟨w, some r⟩ :: bs := hi
    rcases List.mem_append.mp hi with hi | hi
    · exact hold.called i (by rw [htimers]; exact List.mem_append_left _ hi)
    · rcases List.mem_cons.mp hi with rfl | hi
      · exact ⟨r, by simp, rfl⟩
      · exact hold.called i (by rw [htimers]; exact List.mem_append_right _ hi)

theorem ranked_handled (h : Ranked s calls) (hs : Sound s) (hr : s.running = some r)
    (hh : Handled s r num s') :
    Ranked s' (calls ++ if num = DSOS_CALL_SLEEP then [r] else []) := by
  have hquiet : Ranked s (calls ++ if num = DSOS_CALL_SLEEP then [r] else []) := by
    refine ranked_append h fun i hi p hp => ?_
    split at hp
    · rw [List.mem_singleton.mp hp]
      exact no_timer_of_running hs hr i hi
    · cases hp
  cases hh with
  | sleep _ htimers has hbs => exact ranked_sleep h hs hr htimers has hbs
  | preempt hsched => exact ranked_schedules hquiet hsched
  | _ => exact ranked_congr hquiet rfl

theorem ranked_step (h : Ranked s calls) (hs : Sound s) (hstep : Step s a s') :
    Ranked s' (calls ++ sleepers s.running a) := by
  have hempty : calls ++ [] = calls := List.append_nil calls
  cases hstep with
  | @refused r num args hr hnum =>
    refine ranked_append h fun i hi p hp => ?_
    rw [hr] at hp
    unfold sleepers at hp
    simp only at hp
    split at hp
    · rw [List.mem_singleton.mp hp]
      exact no_timer_of_running hs hr i hi
    · cases hp
  | @call r num args _ hr hh =>
    rw [hr]
    have h₁ : Ranked (s.modify r fun q => q.called num args) calls := ranked_congr h rfl
    exact ranked_handled h₁ (called_sound hs hr) hr hh
  | tick hr hsched =>
    rw [hr]
    show Ranked s' (calls ++ [])
    rw [hempty]
    exact ranked_schedules (s := { s with time := s.time + 1 }) (ranked_congr h rfl) hsched
  | restart hr =>
    rw [hr]
    show Ranked _ (calls ++ [])
    rw [hempty]
    exact ranked_congr h rfl
  | store =>
    have hnone : ∀ o addr v, sleepers o (.store addr v) = [] := by
      intro o addr v
      cases o <;> rfl
    rw [hnone, hempty]
    exact h

/-! ## The kernel -/

/-- The timer list holds `items`. They are all timer items in use, sorted by time and by
the order of the calls of `sleep`, and belong to different sleeping processes. -/
structure TimersKept (k : Kernel) (calls items : List Nat) : Prop where
  holds : Holds k.lists .timerList (items.map (Node.mk .timerItem))
  sorted : items.Pairwise fun i j => Before calls (k.timerItem i) (k.timerItem j)
  asleep : ∀ i ∈ items, ∃ p, (k.timerItem i).pcb = some p ∧ Allocated k .pcb p ∧
    Linked k .waitingList ⟨.pcb, p⟩ ∧ (k.pcb p).syscallNum = DSOS_CALL_SLEEP
  distinct : (items.map fun i => (k.timerItem i).pcb).Nodup
  inUse : ∀ i, Allocated k .timerItem i ↔ i ∈ items
  unset : ∀ p, (k.pcb p).timer = none
  available : ∀ r, k.running = some r → k.getBlock .timerItem ≠ none

theorem timersKept_of_ranked (hc : Coherent k L) (h : Ranked (view k L) calls) :
    TimersKept k calls ((L .timerList).map Node.idx) := by
  have hs := hc.tidy.strung
  have htimers : ((L .timerList).map Node.idx).map k.timerItem = (view k L).timers := by
    rw [List.map_map]
    rfl
  have hmem : ∀ i ∈ (L .timerList).map Node.idx, k.timerItem i ∈ (view k L).timers := by
    intro i hi
    rw [← htimers]
    exact List.mem_map_of_mem hi
  have hinUse := fun i => timer_inUse (i := i) hc
  refine ⟨hs.holds_idx regular_timerItem, ?_, fun i hi => ?_, ?_, hinUse, hc.tidy.unset,
    fun r hr => timer_available hc hr⟩
  · rw [← List.pairwise_map, htimers]
    exact h.order
  · obtain ⟨p, hp, hpcb, hnum⟩ := hc.sound.timed.asleep _ (hmem i hi)
    refine ⟨p, hpcb, hc.sound.placed.live_of_waiting hp, ?_, hnum⟩
    exact (hs.linked_iff (l := .waitingList) regular_pcb).mpr
      ((mem_map_idx hs (l := .waitingList) regular_pcb).mp hp)
  · have hnd := hc.sound.timed.nodup
    rwa [← htimers, List.map_map] at hnd

/-- The timers are kept in every state of every run. -/
theorem timer_list_invariant {mem : Int → UInt8} {k₀ k : Kernel} {as : List Action}
    {calls : List Nat} (hstart : Started mem k₀)
    (hrun : Run (withHistory act sleepCalls) (fun _ a => Ordinary a) (k₀, []) as (k, calls)) :
    ∃ items, TimersKept k calls items := by
  have hboot : ∀ mem k, Booted mem k → Ranked (view k noNodes) [] := fun mem k _ =>
    ⟨List.Pairwise.nil, fun i hi => nomatch hi⟩
  have hkeep : ∀ k L calls a k' L', Coherent k L → Ranked (view k L) calls → Ordinary a →
      Acted k L a k' L' → Step (view k L) a (view k' L') → Coherent k' L' →
      Ranked (view k' L') (calls ++ sleepCalls k a k') := by
    intro k L calls a k' L' hc h _ _ hstep _
    exact ranked_step h hc.sound hstep
  obtain ⟨L, hc, h⟩ := run_history (I := fun k L calls => Ranked (view k L) calls)
    (fun _ _ ha => ha) hboot hkeep hstart hrun
  exact ⟨_, timersKept_of_ranked hc h⟩

/-- Two processes sleep until the same time. -/
theorem timer_list_invariant_two_sleepers :
    ∃ k₀ k calls, Started (fun _ => 0) k₀ ∧
      Run (withHistory act sleepCalls) (fun _ a => Ordinary a) (k₀, [])
        [.syscall DSOS_CALL_SPAWN [0, 0], .syscall DSOS_CALL_SPAWN [0, 0],
          .syscall DSOS_CALL_SLEEP [5], .syscall DSOS_CALL_SLEEP [5]] (k, calls) ∧
      (k.head .timerList).size = 2 ∧ ∃ items, TimersKept k calls items := by
  obtain ⟨k₀, k, hstart, hrun, htest⟩ := exists_run_from_start (fun _ a => Ordinary a)
    (fun _ a => decide (Ordinary a))
    [.syscall DSOS_CALL_SPAWN [0, 0], .syscall DSOS_CALL_SPAWN [0, 0],
      .syscall DSOS_CALL_SLEEP [5], .syscall DSOS_CALL_SLEEP [5]]
    (fun k => (k.head .timerList).size = 2) (fun _ _ h => of_decide_eq_true h) (by decide +kernel)
  obtain ⟨calls, hseen⟩ : ∃ calls, Run (withHistory act sleepCalls) (fun _ a => Ordinary a)
    (k₀, []) _ (k, calls) := exists_history hrun []
  exact ⟨k₀, k, calls, hstart, hseen, of_decide_eq_true htest, timer_list_invariant hstart hseen⟩

end DisastrOS.Process.TimerList
