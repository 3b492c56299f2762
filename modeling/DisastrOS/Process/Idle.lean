import DisastrOS.Process.ExitWait
import DisastrOS.Process.Survival

/-!
# An idle processor

There is no idle process. When the last process that is ready goes to sleep, nobody runs,
and `disastrOS_start` goes on: it makes another first process, which keeps the clock going
for those that sleep.
-/
namespace DisastrOS.Process.Idle

open DisastrOS.Machine
open DisastrOS.Machine.Kernel
open DisastrOS.Machine.Runs
open DisastrOS.Lists.Wiring
open DisastrOS.Lists.RegularLists
open DisastrOS.Pool.Blocks
open DisastrOS.Process.Table
open DisastrOS.Process.Steps
open DisastrOS.Process.View
open DisastrOS.Process.Coherence
open DisastrOS.Process.Creation
open DisastrOS.Process.ExitWait
open DisastrOS.Process.Spawning
open DisastrOS.Process.Survival
open DisastrOS.Process.SystemRuns
open DisastrOS.Process.Transitions
open DisastrOS.Library.GuardedRun
open DisastrOS.Library.Outcome

variable {mem : Int → UInt8} {k k' k₀ : Kernel} {L L' : HeadAddr → List Node}
  {s s' : ProcessTable} {p : Nat} {a : Action} {as : List Action}

/-! ## Who is left when nobody runs -/

/-- When nobody runs, nobody is ready, and somebody sleeps. -/
def OnlyAsleep (s : ProcessTable) : Prop := s.running = none → s.ready = [] ∧ s.timers ≠ []

theorem onlyAsleep_sleep {r : Nat} {w : Int} {xs ys : List TimerItem} :
    OnlyAsleep (s.sleep r w xs ys) := by
  intro hr
  have hr : s.ready.head? = none := hr
  refine ⟨?_, fun hn => absurd hn (List.append_ne_nil_of_right_ne_nil _ (List.cons_ne_nil _ _))⟩
  show s.ready.tail = []
  rw [List.head?_eq_none_iff.mp hr, List.tail_nil]

theorem onlyAsleep_step (h : OnlyAsleep s) (hstep : Step s a s') : OnlyAsleep s' := by
  intro hidle
  by_cases hsleep : ∃ args, a = .syscall DSOS_CALL_SLEEP args
  · obtain ⟨args, rfl⟩ := hsleep
    generalize ha : Action.syscall DSOS_CALL_SLEEP args = b at hstep
    cases hstep with
    | refused _ hr => exact absurd hidle (hr ▸ Option.some_ne_none _)
    | @call r num _ _ hr hh =>
      cases ha
      cases hh with
      | quiet hnum => exact absurd (by decide) hnum
      | spawn hcall => rcases hcall with hcall | hcall <;> exact absurd hcall (by decide)
      | sleep => exact onlyAsleep_sleep hidle
    | tick => cases ha
    | restart => cases ha
    | store => cases ha
  · have hno : ∀ args, a = .syscall DSOS_CALL_SLEEP args → s.ready ≠ [] :=
      fun args he => absurd ⟨args, he⟩ hsleep
    cases hstep with
    | store addr v => exact h hidle
    | refused args hr hnum =>
      exact absurd hidle (step_running (.refused args hr hnum) hno (.inr (by simp [hr])))
    | call hr hh hnext =>
      exact absurd hidle (step_running (.call hr hh hnext) hno (.inr (by simp [hr])))
    | tick hr hh hnext =>
      exact absurd hidle (step_running (.tick hr hh hnext) hno (.inr (by simp [hr])))
    | restart => cases hidle

/-! ## The restart -/

/-- `disastrOS_start` has made the first process `p`, and left the others where they were. -/
structure StartsOver (k : Kernel) (p : Nat) (k' : Kernel) : Prop where
  fresh : ¬ Allocated k .pcb p
  running : k'.running = some p
  init : k'.initPcb = some p
  status : (k'.pcb p).status = .Running
  pid : (k'.pcb p).pid = k.lastPid
  others : ∀ q, q ≠ p → k'.pcb q = k.pcb q
  lists : ∀ l ∈ [HeadAddr.readyList, .waitingList, .zombieList, .timerList], ∀ x,
    Linked k' l x ↔ Linked k l x
  timers : k'.timerItem = k.timerItem
  time : k'.disastrOSTime = k.disastrOSTime

theorem startsOver_of_restarted (hs : Strung Regular Retained k L) (h : Restarted k L p k' L') :
    StartsOver k p k' := by
  have hself := h.self
  refine ⟨h.fresh, by rw [h.rest], by rw [h.rest], by rw [hself], by rw [hself]; rfl,
    fun q hq => by rw [h.pcb, Function.update_of_ne hq], fun l hl x => ?_, by rw [h.rest],
    by rw [h.rest]⟩
  have hkept : Regular l.nodeKind ∧ L' l = L l := by
    simp only [List.mem_cons, List.not_mem_nil, or_false] at hl
    rcases hl with rfl | rfl | rfl | rfl
    · exact ⟨regular_pcb, h.lists_of_ne (by simp) (by simp)⟩
    · exact ⟨regular_pcb, h.lists_of_ne (by simp) (by simp)⟩
    · exact ⟨regular_pcb, h.lists_of_ne (by simp) (by simp)⟩
    · exact ⟨(by decide : Regular .timerItem), h.lists_of_ne (by simp) (by simp)⟩
  rw [h.woven.strung.linked_iff hkept.1, hs.linked_iff hkept.1, hkept.2]

/-- With nobody running, neither a call nor a tick completes. -/
theorem act_idle (hidle : k.running = none) (ha : Ordinary a) (hact : act k a = .ok k') :
    a = .restart ∨ ∃ addr v, a = .store addr v := by
  cases a with
  | syscall num args =>
    have hact : k.disastrOSSyscall num args = .ok k' := hact
    unfold disastrOSSyscall at hact
    rw [hidle] at hact
    cases hact
  | timer =>
    obtain ⟨_, hrun, _⟩ := bind_eq_ok.mp hact
    rw [hidle] at hrun
    cases hrun
  | restart => exact .inl rfl
  | store addr v => exact .inr ⟨addr, v, rfl⟩
  | dispatch p => exact ha.elim

theorem restart_needs_block (hp : Pooled k) (h : k.resumeMain = .ok k') :
    (k.pool .pcb).size ≠ 0 := by
  intro hsize
  unfold resumeMain at h
  split at h
  · cases h
  · obtain ⟨⟨p, k₁⟩, halloc, -⟩ := bind_eq_ok.mp h
    unfold pcbAlloc at halloc
    rw [(newItem_eq_none hp).mpr hsize] at halloc
    cases halloc

/-- With a block and a pid the restart completes. -/
theorem restart_completes (hp : Pooled k) (hidle : k.running = none)
    (hpcb : (k.pool .pcb).size ≠ 0) (h0 : 0 ≤ k.lastPid) (hfits : k.lastPid + 1 < 2 ^ 31) :
    ∃ k', act k .restart = .ok k' := by
  obtain ⟨i, k₁, hnew⟩ := exists_newItem hp hpcb
  have hlast : k₁.lastPid = k.lastPid := by rw [(newItem_fresh hp hnew).eq]
  have hadd : addInt k.lastPid 1 = .ok (k.lastPid + 1) :=
    addInt_eq_ok.mpr ⟨⟨by omega, by omega⟩, rfl⟩
  show ∃ k', k.resumeMain = .ok k'
  unfold resumeMain startFirstProcess pcbAlloc
  simp only [hidle, hnew, deref, bind, Except.bind, hlast, hadd]
  exact ⟨_, rfl⟩

/-- When nobody runs, nobody is ready and somebody sleeps. Then only `disastrOS_start` goes on,
which it does as long as there are a block and a pid for another first process. -/
theorem idle_starts_over (hs : Started mem k₀) (h : Run act (fun _ a => Ordinary a) k₀ as k)
    (hidle : k.running = none) :
    (k.head .readyList).first = none ∧ (k.head .timerList).first ≠ none ∧
    (∀ a k', Ordinary a → act k a = .ok k' → a = .restart ∨ ∃ addr v, a = .store addr v) ∧
    ((∃ k', act k .restart = .ok k') ↔ (k.pool .pcb).size ≠ 0 ∧ k.lastPid + 1 < 2 ^ 31) ∧
    ∀ k', act k .restart = .ok k' → ∃ p, StartsOver k p k' := by
  obtain ⟨L, hc, hpids, honly⟩ := run_table (I := fun s => PidsFit s ∧ OnlyAsleep s)
    (fun _ _ ha => ha) (fun mem k hb => ⟨pidsFit_booted hb, by rw [booted_view hb]; nofun⟩)
    (fun _ _ _ _ _ hi _ hstep _ => ⟨pidsFit_step hi.1 hstep, onlyAsleep_step hi.2 hstep⟩) hs h
  have hstr := hc.tidy.strung
  obtain ⟨hready, htimers⟩ := honly hidle
  have hstarts : ∀ k', act k .restart = .ok k' → ∃ p L', Restarted k L p k' L' := fun k' hact => by
    obtain ⟨p, L', hre, _⟩ := restart_refines hc hact
    exact ⟨p, L', hre⟩
  refine ⟨?_, ?_, fun a k' ha hact => act_idle hidle ha hact, ⟨?_, ?_⟩, fun k' hact => ?_⟩
  · rw [hstr.first_eq (l := .readyList) regular_pcb, List.map_eq_nil_iff.mp hready]
    rfl
  · rw [hstr.first_eq (l := .timerList) (by decide : Regular .timerItem), Ne,
      List.head?_eq_none_iff]
    exact fun hn => htimers (by simp [view, hn])
  · rintro ⟨k', hact⟩
    obtain ⟨p, L', hre⟩ := hstarts k' hact
    exact ⟨restart_needs_block hstr.pooled hact, hre.fits⟩
  · rintro ⟨hpcb, hfits⟩
    exact restart_completes hstr.pooled hidle hpcb hpids.last.1 hfits
  · obtain ⟨p, L', hre⟩ := hstarts k' hact
    exact ⟨p, startsOver_of_restarted hstr hre⟩

/-- Init waits for its child, and the child goes to sleep. -/
theorem idle_starts_over_child : ∃ k₀ k, Started (fun _ => 0) k₀ ∧
    Run act (fun _ a => Ordinary a) k₀ [.syscall DSOS_CALL_SPAWN [],
      .syscall DSOS_CALL_WAIT [0, 0], .syscall DSOS_CALL_SLEEP [1]] k ∧ k.running = none ∧
    (k.head .readyList).first = none ∧ (k.head .timerList).first ≠ none ∧
    (∀ a k', Ordinary a → act k a = .ok k' → a = .restart ∨ ∃ addr v, a = .store addr v) ∧
    ((∃ k', act k .restart = .ok k') ↔ (k.pool .pcb).size ≠ 0 ∧ k.lastPid + 1 < 2 ^ 31) ∧
    ∀ k', act k .restart = .ok k' → ∃ p, StartsOver k p k' := by
  obtain ⟨k₀, k, hs, h, hidle⟩ := exists_run_from_start (fun _ a => Ordinary a)
    (fun _ a => decide (Ordinary a))
    [.syscall DSOS_CALL_SPAWN [], .syscall DSOS_CALL_WAIT [0, 0], .syscall DSOS_CALL_SLEEP [1]]
    (fun k => k.running = none) (fun _ _ hcheck => of_decide_eq_true hcheck) (by decide +kernel)
  have hidle : k.running = none := of_decide_eq_true hidle
  exact ⟨k₀, k, hs, h, hidle, idle_starts_over hs h hidle⟩

end DisastrOS.Process.Idle
