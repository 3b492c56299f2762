import DisastrOS.Process.Fairness
import DisastrOS.Process.Sleepers

/-!
# How long a sleeper can be kept waiting

A process that sleeps for `d` ticks runs again after `d` ticks and at most one more for each
process there is, whatever the others do meanwhile, and not before its time.
-/
namespace DisastrOS.Process.Response

open DisastrOS.Machine
open DisastrOS.Machine.Kernel
open DisastrOS.Machine.Runs
open DisastrOS.Lists.Wiring
open DisastrOS.Pool.Blocks
open DisastrOS.Process.Table
open DisastrOS.Process.Steps
open DisastrOS.Process.View
open DisastrOS.Process.Coherence
open DisastrOS.Process.Scheduling
open DisastrOS.Process.Transitions
open DisastrOS.Process.SystemRuns
open DisastrOS.Process.Fairness
open DisastrOS.Process.Sleepers
open DisastrOS.Process.TimerList
open DisastrOS.MessageQueue.Calls
open DisastrOS.Library.GuardedRun

variable {mem : Int → UInt8} {k k' k₀ k₁ : Kernel} {L L' : HeadAddr → List Node}
  {s s' : ProcessTable} {a : Action} {as bs : List Action} {args : List Int} {r n m : Nat}
  {wake now : Int}

/-! ## The clock -/

/-- The clock counts the ticks. -/
theorem time_step (h : Step s a s') : s'.time = s.time + ticks a := by
  cases h with
  | refused => exact (Int.add_zero _).symm
  | call _ h =>
    have hsame : s'.time = s.time := by
      cases h with
      | preempt hs =>
        have hrest := congrArg ProcessTable.time (schedules_rescheduled hs).rest
        exact hrest
      | _ => rfl
    exact hsame.trans (Int.add_zero _).symm
  | tick _ hs => exact congrArg ProcessTable.time (schedules_rescheduled hs).rest
  | restart => exact (Int.add_zero _).symm
  | store => exact (Int.add_zero _).symm

/-- An action that runs the scheduler does so at the time it leaves. -/
theorem time_scheduled (htime : k'.disastrOSTime = k.disastrOSTime + ticks a)
    (h : scheduleTime k a = some now) : k'.disastrOSTime = now := by
  cases a with
  | timer =>
    cases h
    exact htime
  | syscall num args =>
    have h : (if num = DSOS_CALL_PREEMPT then some k.disastrOSTime else none) = some now := h
    split at h
    · cases h
      exact htime.trans (Int.add_zero _)
    · cases h
  | restart => cases h
  | store => cases h
  | dispatch => cases h

/-- The scheduler neither creates nor frees a process. -/
theorem live_scheduled (h : Step (view k L) a (view k' L')) (ht : scheduleTime k a = some now) :
    (view k' L').live = (view k L).live := by
  generalize view k' L' = s' at h ⊢
  cases h with
  | refused => rfl
  | @call q num args _ hq hh =>
    have ht : (if num = DSOS_CALL_PREEMPT then some k.disastrOSTime else none) = some now := ht
    have hnum : num = DSOS_CALL_PREEMPT := by
      by_contra hne
      rw [if_neg hne] at ht
      cases ht
    subst hnum
    cases hh with
    | quiet => rfl
    | preempt hs =>
      have hrest := congrArg ProcessTable.live (schedules_rescheduled hs).rest
      exact hrest
    | spawn h => exact absurd h (by decide)
  | tick _ hs =>
    have hrest := congrArg ProcessTable.live (schedules_rescheduled hs).rest
    exact hrest
  | restart => cases ht
  | store => rfl

/-! ## The number of processes -/

/-- There are at most `n` processes. -/
def AtMost (n : Nat) (k : Kernel) : Prop := MAX_NUM_PROCESSES ≤ (k.pool .pcb).size + n

instance (n : Nat) (k : Kernel) : Decidable (AtMost n k) := inferInstanceAs (Decidable (_ ≤ _))

theorem atMost_iff (h : Pooled k) : AtMost n k ↔ (inUse k .pcb).card ≤ n := by
  have hcard := card_inUse h .pcb
  have hitems : Kernel.numItems .pcb = MAX_NUM_PROCESSES := rfl
  unfold AtMost
  omega

/-- The ready processes and the sleepers are different processes. -/
theorem ready_and_sleeping (hc : Coherent k L) :
    (view k L).ready.length + (view k L).timers.length ≤ (inUse k .pcb).card := by
  have hplaced := hc.sound.placed
  have hsleeping : (view k L).timers.map TimerItem.pcb ⊆ (view k L).waiting.map some := by
    intro o ho
    obtain ⟨x, hx, rfl⟩ := List.mem_map.mp ho
    obtain ⟨p, hp, hpcb, _⟩ := hc.sound.timed.asleep x hx
    exact List.mem_map.mpr ⟨p, hp, hpcb.symm⟩
  have hle := (List.subperm_of_subset hc.sound.timed.nodup hsleeping).length_le
  rw [List.length_map, List.length_map] at hle
  have hsub : ((view k L).ready ++ (view k L).waiting).Sublist (view k L).places := by
    unfold ProcessTable.places
    simp
  have hnodup := hsub.nodup hplaced.nodup
  have hall : ((view k L).ready ++ (view k L).waiting).toFinset ⊆ inUse k .pcb := by
    intro p hp
    exact mem_inUse.mpr ((hplaced.mem p).mp (hsub.mem (List.mem_toFinset.mp hp)))
  have hcard := Finset.card_le_card hall
  rw [List.toFinset_card_of_nodup hnodup, List.length_append] at hcard
  omega

/-! ## Steps -/

/-- The process `r` runs, or does so before there have been more than `m` ticks, and not before
the time `wake`, when there are at most `n` processes. -/
structure Waiting (n : Nat) (wake : Int) (r m : Nat) (k : Kernel) (L : HeadAddr → List Node) :
    Prop where
  coherent : Coherent k L
  place : (Asleep k L r wake ∧ (wake - k.disastrOSTime).toNat + n ≤ m) ∨
    (Behind m (view k L) r ∧ wake ≤ k.disastrOSTime)

/-- The scheduler that awakens the sleeper runs it or puts it into the ready list, in which it
is behind others. -/
theorem woken_step (h : Asleep k L r wake) (ha : Ordinary a) (hact : k.act a = .ok k')
    (hc' : Coherent k' L') (hstep : Step (view k L) a (view k' L')) (hn : AtMost n k)
    (ht : scheduleTime k a = some now) (hle : wake ≤ now) :
    k'.running = some r ∨ ∃ m, Behind m (view k' L') r ∧ m + 1 ≤ n := by
  obtain ⟨-, hready | hruns⟩ := awake_step h ha hact ht hle
  · right
    have hs' := hc'.tidy.strung
    have hmem : r ∈ (view k' L').ready :=
      (mem_map_idx hs' (l := .readyList) regular_pcb).mpr
        ((hs'.linked_iff (l := .readyList) regular_pcb).mp hready)
    obtain ⟨i, hi⟩ := List.mem_iff_getElem?.mp hmem
    have hlt := (List.getElem?_eq_some_iff.mp hi).1
    have hsame : inUse k' .pcb = inUse k .pcb := by
      have hlive := live_scheduled hstep ht
      ext p
      rw [mem_inUse, mem_inUse]
      exact iff_of_eq (congrFun hlive p)
    have hfew := ready_and_sleeping hc'
    have hcard := (atMost_iff h.coherent.tidy.strung.pooled).mp hn
    rw [hsame] at hfew
    exact ⟨i + (view k' L').timers.length, ⟨i, hi, Nat.le_refl _⟩, by omega⟩
  · exact .inl hruns

theorem waiting_step (hw : Waiting n wake r m k L) (ha : Ordinary a) (hn : AtMost n k)
    (hact : k.act a = .ok k') :
    (k'.running = some r ∧ wake ≤ k'.disastrOSTime) ∨
      ∃ m' L', Waiting n wake r m' k' L' ∧ m' + ticks a ≤ m := by
  obtain ⟨hc, hplace⟩ := hw
  obtain ⟨L', -, hc', hstep⟩ := act_done hc ha hact
  have htime : k'.disastrOSTime = k.disastrOSTime + ticks a := time_step hstep
  have htick : ticks a ≤ 1 := by cases a <;> simp [ticks]
  rcases hplace with ⟨hasleep, hle⟩ | ⟨hbehind, hwake⟩
  · by_cases hearly : ∀ now, scheduleTime k a = some now → now < wake
    · -- the clock has come nearer to the time
      obtain ⟨L₁, hasleep'⟩ := asleep_step hasleep ha hact hearly
      have hnear : (wake - k'.disastrOSTime).toNat + ticks a ≤ (wake - k.disastrOSTime).toNat := by
        cases a with
        | timer =>
          have hlt := hearly _ rfl
          have htime : k'.disastrOSTime = k.disastrOSTime + 1 := htime
          show _ + 1 ≤ _
          omega
        | syscall | restart | store | dispatch =>
          have htime : k'.disastrOSTime = k.disastrOSTime := htime.trans (Int.add_zero _)
          rw [htime]
          exact Nat.le_refl _
      exact .inr ⟨_, L₁, ⟨hasleep'.coherent, .inl ⟨hasleep', Nat.le_refl _⟩⟩, by omega⟩
    · push Not at hearly
      obtain ⟨now, ht, hcome⟩ := hearly
      have hnow := time_scheduled htime ht
      rcases woken_step hasleep ha hact hc' hstep hn ht hcome with hruns | ⟨m', hb, hm⟩
      · exact .inl ⟨hruns, by omega⟩
      · exact .inr ⟨m', L', ⟨hc', .inr ⟨hb, by omega⟩⟩, by omega⟩
  · have hlater : wake ≤ k'.disastrOSTime := by omega
    rcases step_behind hstep hbehind with hruns | ⟨m', hb, hm⟩
    · exact .inl ⟨hruns, hlater⟩
    · exact .inr ⟨m', L', ⟨hc', .inr ⟨hb, hlater⟩⟩, hm⟩

/-! ## The call -/

/-- Whoever has called `sleep` is asleep. -/
theorem asleep_of_call (hc : Coherent k L) (hr : k.running = some r)
    (hact : k.act (.syscall DSOS_CALL_SLEEP args) = .ok k₁) :
    ∃ L₁, Asleep k₁ L₁ r (k.disastrOSTime + toInt (args.getD 0 0)) ∧
      k₁.disastrOSTime = k.disastrOSTime := by
  have hc₀ : Coherent (k.setCall r DSOS_CALL_SLEEP args) L := coherent_setCall hc hr
  have hr₀ : (k.setCall r DSOS_CALL_SLEEP args).running = some r := hr
  have hsleep : (k.setCall r DSOS_CALL_SLEEP args).internalSleep = .ok k₁ :=
    syscall_handled args rfl (by decide) (by decide) hr hact
  have hfree := timer_available hc₀ hr₀
  rcases sleep_ok hc₀ hr₀ hsleep with ⟨hnone, -⟩ | ⟨w, xs, ys, L₁, hslept⟩
  · have hfull := (newItem_eq_none hc₀.tidy.strung.pooled).mp hnone
    exact absurd ((getBlock_eq_none hc₀.tidy.strung.pooled).mpr hfull) hfree
  obtain ⟨-, hw⟩ := addInt_eq_ok.mp hslept.time
  rw [arg_setCall (by decide)] at hw
  subst hw
  have hview := hslept.moved.move
  have hsound : Sound (view k₁ L₁) := by
    rw [hview]
    exact sound_sleep hc₀.sound hr₀ syscallNum_setCall hslept.split hslept.earlier hslept.later
  have hcoherent : Coherent k₁ L₁ := ⟨hslept.moved.tidy, hslept.moved.hung hc₀.hung, hsound⟩
  refine ⟨L₁, ⟨hcoherent, ?_, ?_, ?_⟩, ?_⟩
  · rw [hview]
    exact List.mem_append_right _ (List.mem_singleton_self r)
  · have hcall := congrArg (fun s => (s.info r).syscallNum) hview
    exact hcall.trans ((syscallNum_setStatus .Waiting).trans syscallNum_setCall)
  · rw [hview]
    exact List.mem_append_right _ List.mem_cons_self
  · exact congrArg ProcessTable.time hview

/-- Whatever the others do, a sleeper does not run before its time. -/
theorem not_before_time (h : Asleep k L r wake) (hrun : Run act (fun _ a => Ordinary a) k as k')
    (hr : k'.running = some r) : wake ≤ k'.disastrOSTime := by
  have hlater : wake ≤ k'.disastrOSTime ∨ ∃ L, Asleep k' L r wake := by
    refine run_invariant (I := fun k => (wake ≤ k.disastrOSTime ∧ ∃ L, Coherent k L) ∨
      ∃ L, Asleep k L r wake) ?_ (.inr ⟨L, h⟩) hrun |>.imp_left And.left
    rintro u a u' hu ha hact
    obtain ⟨L, hc⟩ : ∃ L, Coherent u L := hu.elim And.right fun ⟨L, h⟩ => ⟨L, h.coherent⟩
    obtain ⟨L', _, hc', hstep⟩ := act_done hc ha hact
    have htime : u'.disastrOSTime = u.disastrOSTime + ticks a := time_step hstep
    rcases hu with ⟨hle, _⟩ | ⟨L, h⟩
    · exact .inl ⟨by omega, L', hc'⟩
    · by_cases hearly : ∀ now, scheduleTime u a = some now → now < wake
      · exact .inr (asleep_step h ha hact hearly)
      · push Not at hearly
        obtain ⟨now, ht, hcome⟩ := hearly
        have hnow := time_scheduled htime ht
        exact .inl ⟨by omega, L', hc'⟩
  refine hlater.resolve_right ?_
  rintro ⟨L', h'⟩
  exact (h'.coherent.sound.placed.not_mem_of_waiting h'.waiting).1 hr

/-- A process that sleeps for `d` ticks does not run before its time, and while there are never
more than `n` processes, it runs again before there have been more than `d + n` ticks. -/
theorem sleeper_runs_again (hs : Started mem k₀) (hrun : Run act (fun _ a => Ordinary a) k₀ as k)
    (hr : k.running = some r) (hcall : k.act (.syscall DSOS_CALL_SLEEP args) = .ok k₁)
    (h : Run act (fun k a => Ordinary a ∧ AtMost n k) k₁ bs k')
    (hticks : (toInt (args.getD 0 0)).toNat + n < runCost ticks bs) :
    (∀ es u, Run act (fun _ a => Ordinary a) k₁ es u → u.running = some r →
      k.disastrOSTime + toInt (args.getD 0 0) ≤ u.disastrOSTime) ∧
    ∃ cs ds k₂, bs = cs ++ ds ∧ Run act (fun k a => Ordinary a ∧ AtMost n k) k₁ cs k₂ ∧
      k₂.running = some r ∧ k.disastrOSTime + toInt (args.getD 0 0) ≤ k₂.disastrOSTime := by
  obtain ⟨L, hc⟩ := coherent_run hs hrun
  obtain ⟨L₁, hasleep, htime⟩ := asleep_of_call hc hr hcall
  refine ⟨fun es u => not_before_time hasleep, ?_⟩
  generalize toInt (args.getD 0 0) = d at hticks hasleep ⊢
  refine run_reaches (fun m u => ∃ L, Waiting n (k.disastrOSTime + d) r m u L) _ ticks ?_
    ⟨L₁, hasleep.coherent, .inl ⟨hasleep, Nat.le_refl _⟩⟩ h ?_
  · rintro m u a u' ⟨L, hw⟩ ⟨ha, hn⟩ hact
    exact (waiting_step hw ha hn hact).imp_right fun ⟨m', L', hw', hle⟩ => ⟨m', ⟨L', hw'⟩, hle⟩
  · rw [htime]
    omega

/-- Init and its child take turns, so init cannot be kept waiting for long. -/
theorem sleeper_runs_again_two :
    ∃ k₀ k k₁ k', Started (fun _ => 0) k₀ ∧
      Run act (fun _ a => Ordinary a) k₀ [.syscall DSOS_CALL_SPAWN []] k ∧
      k.act (.syscall DSOS_CALL_SLEEP [3]) = .ok k₁ ∧
      Run act (fun k a => Ordinary a ∧ AtMost 2 k) k₁
        [.timer, .timer, .syscall DSOS_CALL_PREEMPT [], .timer, .timer, .timer, .timer] k' ∧
      (∀ es u, Run act (fun _ a => Ordinary a) k₁ es u → u.running = some 0 →
        k.disastrOSTime + 3 ≤ u.disastrOSTime) ∧
      ∃ cs ds k₂, [Action.timer, .timer, .syscall DSOS_CALL_PREEMPT [], .timer, .timer, .timer,
          .timer] = cs ++ ds ∧
        Run act (fun k a => Ordinary a ∧ AtMost 2 k) k₁ cs k₂ ∧ k₂.running = some 0 ∧
        k.disastrOSTime + 3 ≤ k₂.disastrOSTime := by
  obtain ⟨k₀, k, hs, hrun, htest⟩ := exists_run_from_start (fun _ a => Ordinary a)
    (fun _ a => decide (Ordinary a)) [.syscall DSOS_CALL_SPAWN []]
    (fun k => k.running = some 0 ∧
      (k.act (.syscall DSOS_CALL_SLEEP [3])).toOption.any fun k₁ => decide
        ((exec act (fun k a => decide (Ordinary a ∧ AtMost 2 k)) k₁ [.timer, .timer,
          .syscall DSOS_CALL_PREEMPT [], .timer, .timer, .timer, .timer]).isSome = true))
    (fun _ _ hcheck => of_decide_eq_true hcheck) (by decide +kernel)
  obtain ⟨hr, hany⟩ := of_decide_eq_true htest
  obtain ⟨k₁, hcall, hsome⟩ := exists_of_any hany
  obtain ⟨k', hexec⟩ := Option.isSome_iff_exists.mp hsome
  have h : Run act (fun k a => Ordinary a ∧ AtMost 2 k) k₁ [.timer, .timer,
      .syscall DSOS_CALL_PREEMPT [], .timer, .timer, .timer, .timer] k' :=
    run_of_exec (fun _ _ hcheck => of_decide_eq_true hcheck) hexec
  exact ⟨k₀, k, k₁, k', hs, hrun, hcall, h, sleeper_runs_again hs hrun hr hcall h (by decide)⟩

end DisastrOS.Process.Response
