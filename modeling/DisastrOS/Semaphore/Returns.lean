import DisastrOS.Process.ReturnRegisters
import DisastrOS.Semaphore.Completion
import DisastrOS.Semaphore.Waiters

/-!
# What the semaphore calls return

`semWait` and `semPost` write a return value only where nobody blocks and nobody is
awakened. Where somebody is, the caller finds what an earlier call has left.
-/
namespace DisastrOS.Semaphore.Returns

open DisastrOS.Machine
open DisastrOS.Machine.Kernel
open DisastrOS.Machine.Runs
open DisastrOS.Lists.Wiring
open DisastrOS.Lists.RegularLists
open DisastrOS.Descriptors.Bindings
open DisastrOS.Process.Coherence
open DisastrOS.Process.Contexts
open DisastrOS.Process.ReturnRegisters
open DisastrOS.Process.SystemRuns
open DisastrOS.Process.Transitions
open DisastrOS.Process.View
open DisastrOS.MessageQueue.Calls
open DisastrOS.Semaphore.Calls
open DisastrOS.Semaphore.Completion
open DisastrOS.Semaphore.Waiters
open DisastrOS.Library.GuardedRun

variable {k k' k₂ : Kernel} {L : HeadAddr → List Node} {r d s : Nat} {num v : Int}
  {args : List Int} {as : List Action}

/-- `r` has made the call and runs again in `k'`, at once or after others have run. -/
def ReturnsIn (k : Kernel) (r : Nat) (num : Int) (args : List Int) (k' : Kernel) : Prop :=
  ∃ k₁ as, k.act (.syscall num args) = .ok k₁ ∧
    Run act (fun k a => Ordinary a ∧ k.running ≠ some r) k₁ as k' ∧ k'.running = some r

/-- The call blocks nobody and wakes nobody. -/
def Immediate (k : Kernel) (s : Nat) (num : Int) : Prop :=
  (num = DSOS_CALL_SEMWAIT → 0 < (k.semaphore s).count) ∧
    (num = DSOS_CALL_SEMPOST →
      (k.semaphore s).count + 1 ≤ 0 ∨ (k.head (.waitingDescriptors s)).size = 0)

/-- A caller that blocks needs a process to run next, and a post room for a permit. -/
def Completes (k : Kernel) (s : Nat) (num : Int) : Prop :=
  (num = DSOS_CALL_SEMWAIT → 0 < (k.semaphore s).count ∨ HasNext k) ∧
    (num = DSOS_CALL_SEMPOST → (k.semaphore s).count + 1 < 2 ^ 31)

/-! ## Completion -/

/-- No stored count is less than every `int`. -/
def Floored (k : Kernel) : Prop := ∀ s, -2 ^ 31 ≤ (k.semaphore s).count

theorem floored_same (h : Floored k) (hsem : k'.semaphore = k.semaphore) : Floored k' :=
  fun s => hsem ▸ h s

theorem floored_update {n : Int} {id : Int} (h : Floored k) (hn : -2 ^ 31 ≤ n)
    (hsem : k'.semaphore = Function.update k.semaphore s ⟨id, n⟩) : Floored k' := by
  intro i
  rw [hsem, Function.update_apply]
  split
  · exact hn
  · exact h i

theorem floored_created {L' : HeadAddr → List Node} (h : Floored k)
    (hcre : SemCreated k L r s k' L') : Floored k' :=
  floored_update h (Int.le_bmod (by decide)) hcre.semaphore

theorem floored_called {L' : HeadAddr → List Node} (hf : Floored k)
    (h : Called k L r num k' L') : Floored k' := by
  rcases semCall_cases h with h | ⟨_, h⟩ | ⟨_, h⟩ | ⟨_, h⟩ | ⟨_, h⟩
  · exact floored_same hf h.semaphore
  · cases h with
    | refused => exact hf
    | opened _ ha => exact floored_same hf (by rw [ha.rest])
    | created hcre ha => exact floored_same (floored_created hf hcre) (by rw [ha.rest])
    | createdOnly hcre => exact floored_same (floored_created hf hcre) rfl
  · cases h with
    | refused => exact hf
    | granted _ hcount => exact floored_update hf (by omega) rfl
    | blocked _ _ _ hb => exact floored_same hf (by rw [hb.rest])
  · cases h with
    | refused => exact hf
    | @posted d s => exact floored_update hf (Int.le_add_one (hf s)) rfl
    | woken _ _ hw => exact floored_same hf (by rw [hw.rest])
  · cases h with
    | refused => exact hf
    | closed _ _ _ _ hrem =>
      have hclosed := congrArg Kernel.semaphore hrem.rest
      exact floored_same hf hclosed
    | destroyed _ _ _ _ hrem hdes =>
      have hclosed := congrArg Kernel.semaphore hrem.rest
      have hgone := congrArg Kernel.semaphore hdes.rest
      exact floored_same hf (hgone.trans hclosed)

theorem floored_run {mem : Int → UInt8} {k₀ : Kernel} (hs : Started mem k₀)
    (h : Run act (fun _ a => Ordinary a) k₀ as k) : Floored k := by
  suffices hfloored : ∃ L, Coherent k L ∧ Floored k from hfloored.elim fun _ h => h.2
  refine run_coherent (I := fun k _ => Floored k) (fun _ _ ha => ha) (fun mem k hb s => ?_)
    (fun k L a k' L' hc hf _ hact _ _ => ?_) hs h
  · rw [hb.rest]
    exact (by decide : (-2 ^ 31 : Int) ≤ 0)
  · cases hact with
    | ignored => exact hf
    | @called r num args _ _ _ hcalled =>
      have hf₁ : Floored (k.setCall r num args) := hf
      exact floored_called hf₁ hcalled
    | ticked _ hb => exact floored_same hf (semsKept_beside hb.beside).semaphore
    | restarted hre => exact floored_same hf (semsKept_restarted hre).semaphore
    | stored => exact hf

theorem call_completes_iff (hc : Coherent k L) (hctx : ContextsMade (view k L)) (hf : Floored k)
    (hr : k.running = some r)
    (hnum : num = DSOS_CALL_SEMWAIT ∨ num = DSOS_CALL_SEMPOST)
    (hfd : ValidFd k r (toInt (args.getD 0 0)) d s) :
    (∃ k₁, k.act (.syscall num args) = .ok k₁) ↔ Completes k s num := by
  have hne : DSOS_CALL_SEMWAIT ≠ DSOS_CALL_SEMPOST := by decide
  unfold Completes
  rcases hnum with rfl | rfl
  · rw [wait_completes_iff hc hctx hr hfd]
    exact ⟨fun h => ⟨fun _ => h, fun he => absurd he hne⟩, fun h => h.1 rfl⟩
  · rw [post_completes_iff hc hr hfd]
    have hfloor := hf s
    constructor
    · rintro ⟨n, hn⟩
      exact ⟨fun he => absurd he.symm hne, fun _ => (addInt_eq_ok.mp hn).1.2⟩
    · exact fun h => ⟨_, if_pos ⟨by omega, h.2 rfl⟩⟩

/-! ## The value -/

/-- Nothing happens before a process that runs already runs again. -/
theorem run_running (h : Run act (fun k a => Ordinary a ∧ k.running ≠ some r) k as k')
    (hr : k.running = some r) : k' = k := by
  have hsame := run_invariant (I := fun k₁ => k₁ = k) (fun k₁ a k₂ he hguard _ => ?_) rfl h
  · exact hsame
  · subst he
    exact absurd hr hguard.2

/-- The value that a call on a valid file descriptor returns. -/
theorem semWait_returns (hc : Coherent k L) (hr : k.running = some r)
    (hfd : ValidFd k r (toInt (args.getD 0 0)) d s)
    (h : ReturnsIn k r DSOS_CALL_SEMWAIT args k') :
    (k'.pcb r).syscallRetvalue =
      if 0 < (k.semaphore s).count then 0 else (k.pcb r).syscallRetvalue := by
  obtain ⟨k₁, as, hact, hrun, _⟩ := h
  have hcall : internalSemWait (k.setCall r DSOS_CALL_SEMWAIT args) = .ok k₁ :=
    syscall_handled args rfl (by decide) (by decide) hr hact
  have hc₁ : Coherent (k.setCall r DSOS_CALL_SEMWAIT args) L := coherent_setCall hc hr
  have hfd₁ : SemFd (k.setCall r DSOS_CALL_SEMWAIT args) r d s := semFd_setCall (.inl rfl) hfd
  rcases semWait_cases hc₁ hr hcall with ⟨hno, _⟩ | ⟨d', s', hfd', hcases⟩
  · exact absurd hno hfd₁.not_noSemFd
  obtain ⟨rfl, rfl⟩ := hfd'.unique hfd₁
  rcases hcases with ⟨hcount, rfl⟩ | ⟨hcount, ptr, n, rest, _, hblocked⟩
  · have hcount : 0 < (k.semaphore s').count := hcount
    rw [run_running hrun hr, if_pos hcount]
    exact setRetvalue_self _ _ _
  · have hcount : ¬ 0 < (k.semaphore s').count := hcount
    have hpcb : k₁.pcb = (k.setCall r DSOS_CALL_SEMWAIT args).pcb := by rw [hblocked.rest]
    have hnum : (k₁.pcb r).syscallNum ≠ DSOS_CALL_WAIT := by
      rw [hpcb]
      simp [setCall, modPcb]
      decide
    rw [if_neg hcount, (frozen_run hrun hnum).value, hpcb]
    simp [setCall, modPcb]

theorem semPost_returns (hc : Coherent k L) (hr : k.running = some r)
    (hfd : ValidFd k r (toInt (args.getD 0 0)) d s)
    (h : ReturnsIn k r DSOS_CALL_SEMPOST args k') :
    (k'.pcb r).syscallRetvalue = if (k.semaphore s).count + 1 ≤ 0 ∨
      (k.head (.waitingDescriptors s)).size = 0 then 0 else (k.pcb r).syscallRetvalue := by
  obtain ⟨k₁, as, hact, hrun, _⟩ := h
  have hcall : internalSemPost (k.setCall r DSOS_CALL_SEMPOST args) = .ok k₁ :=
    syscall_handled args rfl (by decide) (by decide) hr hact
  have hc₁ : Coherent (k.setCall r DSOS_CALL_SEMPOST args) L := coherent_setCall hc hr
  have hfd₁ : SemFd (k.setCall r DSOS_CALL_SEMPOST args) r d s := semFd_setCall (.inr rfl) hfd
  have hsize := hc.tidy.strung.size_zero_iff (l := .waitingDescriptors s)
    (regular_waitingDescriptors s)
  rcases semPost_cases hc₁ hr hcall with ⟨hno, _⟩ | ⟨d', s', hfd', _, hcases⟩
  · exact absurd hno hfd₁.not_noSemFd
  obtain ⟨rfl, rfl⟩ := hfd'.unique hfd₁
  rcases hcases with ⟨hno, rfl⟩ | ⟨hpos, p, ptr, rest, hwoken⟩
  · have hno : 0 < (k.semaphore s').count + 1 → L (.waitingDescriptors s') = [] := hno
    have himm : (k.semaphore s').count + 1 ≤ 0 ∨ (k.head (.waitingDescriptors s')).size = 0 := by
      by_cases hpos : 0 < (k.semaphore s').count + 1
      · exact .inr (hsize.mpr (hno hpos))
      · exact .inl (not_lt.mp hpos)
    rw [run_running hrun hr, if_pos himm]
    exact setRetvalue_self _ _ _
  · have hpos : 0 < (k.semaphore s').count + 1 := hpos
    have himm : ¬ ((k.semaphore s').count + 1 ≤ 0 ∨
        (k.head (.waitingDescriptors s')).size = 0) := by
      rintro (hle | hzero)
      · exact absurd hpos (not_lt.mpr hle)
      · have hfirst := hwoken.first
        rw [hsize.mp hzero] at hfirst
        cases hfirst
    have hrunning : k₁.running = some r := by
      rw [hwoken.rest]
      exact hr
    have hpcb : k₁.pcb = (k.setCall r DSOS_CALL_SEMPOST args).pcb := by rw [hwoken.rest]
    rw [run_running hrun hrunning, if_neg himm, hpcb]
    simp [setCall, modPcb]

theorem call_returns (hc : Coherent k L) (hr : k.running = some r)
    (hnum : num = DSOS_CALL_SEMWAIT ∨ num = DSOS_CALL_SEMPOST)
    (hfd : ValidFd k r (toInt (args.getD 0 0)) d s) (h : ReturnsIn k r num args k') :
    (Immediate k s num → (k'.pcb r).syscallRetvalue = 0) ∧
      (¬ Immediate k s num → (k'.pcb r).syscallRetvalue = (k.pcb r).syscallRetvalue) := by
  have hne : DSOS_CALL_SEMWAIT ≠ DSOS_CALL_SEMPOST := by decide
  unfold Immediate
  rcases hnum with rfl | rfl
  · rw [semWait_returns hc hr hfd h]
    exact ⟨fun himm => if_pos (himm.1 rfl),
      fun hno => if_neg fun hcount => hno ⟨fun _ => hcount, fun he => absurd he hne⟩⟩
  · rw [semPost_returns hc hr hfd h]
    exact ⟨fun himm => if_pos (himm.2 rfl),
      fun hno => if_neg fun hsome => hno ⟨fun he => absurd he.symm hne, fun _ => hsome⟩⟩

theorem coherent_setRetvalue (hc : Coherent k L) : Coherent (k.setRetvalue r v) L := by
  have hm : Moved k L (fun _ => True) (k.setRetvalue r v) L := moved_setRetvalue hc.tidy trivial
  refine ⟨hm.tidy, hm.hung hc.hung, ?_⟩
  rw [view_setRetvalue]
  exact hc.sound

theorem validFd_setRetvalue {fd : Int} (h : ValidFd k r fd d s) :
    ValidFd (k.setRetvalue r v) r fd d s := by
  have hsame : (k.setRetvalue r v).boundTo .semaphore r fd = k.boundTo .semaphore r fd :=
    boundTo_congr rfl rfl
  exact ⟨h.inBounds, hsame.trans h.bound⟩

/-- In every reachable state a `semWait` on a valid file descriptor completes when there is a
permit or a process to run next, and a `semPost` when its count does not overflow. They return 0
exactly when they block nobody and wake nobody or an earlier call has left the 0. Exactly when they
block and wake nobody what the earlier call has left does not matter. -/
theorem sem_calls_return_zero_iff {mem : Int → UInt8} {k₀ : Kernel} (hs : Started mem k₀)
    (h : Run act (fun _ a => Ordinary a) k₀ as k) (hr : k.running = some r)
    (hnum : num = DSOS_CALL_SEMWAIT ∨ num = DSOS_CALL_SEMPOST)
    (hfd : ValidFd k r (toInt (args.getD 0 0)) d s) :
    ((∃ k₁, k.act (.syscall num args) = .ok k₁) ↔ Completes k s num) ∧
      ∀ k', ReturnsIn k r num args k' →
        ((k'.pcb r).syscallRetvalue = 0 ↔ Immediate k s num ∨ (k.pcb r).syscallRetvalue = 0) ∧
          ∀ v k₂, ReturnsIn (k.setRetvalue r v) r num args k₂ →
            ((k₂.pcb r).syscallRetvalue = (k'.pcb r).syscallRetvalue ↔
              Immediate k s num ∨ v = (k.pcb r).syscallRetvalue) := by
  obtain ⟨L, hc⟩ := coherent_run hs h
  have hctx := reachable_contexts hs h hc
  refine ⟨call_completes_iff hc hctx (floored_run hs h) hr hnum hfd, fun k' hret => ?_⟩
  obtain ⟨hzero, hstale⟩ := call_returns hc hr hnum hfd hret
  by_cases himm : Immediate k s num
  · refine ⟨iff_of_true (hzero himm) (.inl himm), fun v k₂ hret₂ => ?_⟩
    have hzero₂ := (call_returns (coherent_setRetvalue hc) hr hnum (validFd_setRetvalue hfd)
      hret₂).1 himm
    exact iff_of_true (hzero₂.trans (hzero himm).symm) (.inl himm)
  · refine ⟨?_, fun v k₂ hret₂ => ?_⟩
    · rw [hstale himm, or_iff_right himm]
    · have hstale₂ := (call_returns (coherent_setRetvalue hc) hr hnum (validFd_setRetvalue hfd)
        hret₂).2 himm
      rw [hstale₂, hstale himm, or_iff_right himm, setRetvalue_self]

/-- A call that returns at once. -/
theorem returnsIn_now {k₁ : Kernel} (hact : k.act (.syscall num args) = .ok k₁)
    (hr : k₁.running = some r) : ReturnsIn k r num args k₁ :=
  ⟨k₁, [], hact, .nil _, hr⟩

/-- The first process waits for a semaphore with count 1. -/
theorem sem_calls_return_zero_first :
    ∃ k₀ k k', Started (fun _ => 0) k₀ ∧
      Run act (fun _ a => Ordinary a) k₀ [.syscall DSOS_CALL_SEMOPEN [7, 1, 1]] k ∧
      k.act (.syscall DSOS_CALL_SEMWAIT [0]) = .ok k' ∧
      ReturnsIn k 0 DSOS_CALL_SEMWAIT [0] k' ∧ (k'.pcb 0).syscallRetvalue = 0 := by
  obtain ⟨k₀, k, hs, h, htest⟩ := exists_run_from_start (fun _ a => Ordinary a)
    (fun _ a => decide (Ordinary a)) [.syscall DSOS_CALL_SEMOPEN [7, 1, 1]]
    (fun k => k.running = some 0 ∧ 0 < (k.semaphore 0).count ∧
      k.boundTo .semaphore 0 0 = .ok (some (0, 0)) ∧
      (k.act (.syscall DSOS_CALL_SEMWAIT [0])).toOption.all fun k' => k'.running = some 0)
    (fun _ _ h => of_decide_eq_true h) (by decide +kernel)
  obtain ⟨hr, hcount, hbound, hall⟩ := of_decide_eq_true htest
  have hfd : ValidFd k 0 (toInt (([0] : List Int).getD 0 0)) 0 0 := ⟨by decide, hbound⟩
  obtain ⟨hcompletes, hvalue⟩ := sem_calls_return_zero_iff hs h hr (.inl rfl) hfd
  obtain ⟨k', hact⟩ := hcompletes.mpr ⟨fun _ => .inl hcount, fun he => absurd he (by decide)⟩
  rw [hact] at hall
  have hret : ReturnsIn k 0 DSOS_CALL_SEMWAIT [0] k' := returnsIn_now hact (of_decide_eq_true hall)
  have himm : Immediate k 0 DSOS_CALL_SEMWAIT := ⟨fun _ => hcount, fun he => absurd he (by decide)⟩
  exact ⟨k₀, k, k', hs, h, hact, hret, (hvalue k' hret).1.mpr (.inl himm)⟩

/-- The child that init has created waits for a semaphore. The post of init that wakes it returns
the pid of the child. -/
theorem post_returns_pid :
    ∃ k₀ k k' d s, Started (fun _ => 0) k₀ ∧
      Run act (fun _ a => Ordinary a) k₀
        [.syscall DSOS_CALL_SEMOPEN [7, 1, 0], .syscall DSOS_CALL_SPAWN [0, 0],
          .syscall DSOS_CALL_PREEMPT [], .syscall DSOS_CALL_SEMOPEN [7, 0, 0],
          .syscall DSOS_CALL_SEMWAIT [0]] k ∧
      ValidFd k 0 0 d s ∧ ReturnsIn k 0 DSOS_CALL_SEMPOST [0] k' ∧
      (k'.pcb 0).syscallRetvalue = 1 := by
  obtain ⟨k₀, k, hs, h, htest⟩ := exists_run_from_start (fun _ a => Ordinary a)
    (fun _ a => decide (Ordinary a))
    [.syscall DSOS_CALL_SEMOPEN [7, 1, 0], .syscall DSOS_CALL_SPAWN [0, 0],
      .syscall DSOS_CALL_PREEMPT [], .syscall DSOS_CALL_SEMOPEN [7, 0, 0],
      .syscall DSOS_CALL_SEMWAIT [0]]
    (fun k => k.boundTo .semaphore 0 0 = .ok (some (0, 0)) ∧
      (k.act (.syscall DSOS_CALL_SEMPOST [0])).toOption.any fun k' =>
        k'.running = some 0 ∧ (k'.pcb 0).syscallRetvalue = 1)
    (fun _ _ h => of_decide_eq_true h) (by decide +kernel)
  obtain ⟨hbound, hany⟩ := of_decide_eq_true htest
  obtain ⟨k', hact, hr', hval⟩ := exists_of_any hany
  exact ⟨k₀, k, k', 0, 0, hs, h, ⟨by decide, hbound⟩, returnsIn_now hact hr', hval⟩

end DisastrOS.Semaphore.Returns
