import DisastrOS.Semaphore.Completion
import DisastrOS.Semaphore.Ledger

/-!
# The range of a semaphore count

The count goes through `unsigned` into an `int`: from 2^31 on the semaphore starts with a
negative number of permits. `semPost` counts without a bound, so that a post on a semaphore
with `INT_MAX` permits overflows.
-/
namespace DisastrOS.Semaphore.Counts

open DisastrOS.Machine
open DisastrOS.Machine.Kernel
open DisastrOS.Machine.Runs
open DisastrOS.Lists.Wiring
open DisastrOS.Descriptors.Bindings
open DisastrOS.Descriptors.Tables
open DisastrOS.Process.Coherence
open DisastrOS.Process.Contexts
open DisastrOS.Process.SystemRuns
open DisastrOS.Process.Transitions
open DisastrOS.Process.View
open DisastrOS.MessageQueue.Calls
open DisastrOS.Semaphore.Calls
open DisastrOS.Semaphore.Completion
open DisastrOS.Semaphore.Ledger
open DisastrOS.Library.CountingSemaphore
open DisastrOS.Library.GuardedRun
open DisastrOS.Library.Outcome

variable {k k' k₁ : Kernel} {L L₁ : HeadAddr → List Node} {r d s : Nat} {args : List Int}
  {a : Action} {as : List Action} {h : List (Event (Option Nat))}

/-- The running process posts on `s` while its count is the largest `int`. -/
def PostsAtMax (s : Nat) (k : Kernel) (a : Action) : Prop :=
  ∃ r d args, a = .syscall DSOS_CALL_SEMPOST args ∧ k.running = some r ∧
    ValidFd k r (toInt (args.getD 0 0)) d s ∧ (k.semaphore s).count + 1 = 2 ^ 31

/-- What the history `h` since the creation of `s` with the count `n` says of it. -/
structure HonouredIn (s : Nat) (n : Int) (h : List (Event (Option Nat))) (k : Kernel) : Prop where
  nonneg : 0 ≤ (k.semaphore s).count
  fits : (k.semaphore s).count < 2 ^ 31
  through : posts h = 0 → passed h < n → ∀ r d args, k.running = some r →
    ValidFd k r (toInt (args.getD 0 0)) d s →
      ∃ k', k.act (.syscall DSOS_CALL_SEMWAIT args) = .ok k' ∧ k'.running = some r ∧
        (k'.pcb r).syscallRetvalue = 0
  blocks : posts h = 0 → n ≤ passed h → ∀ r d args, k.running = some r →
    ValidFd k r (toInt (args.getD 0 0)) d s →
      ((∃ k', k.act (.syscall DSOS_CALL_SEMWAIT args) = .ok k') ↔
        HasNext k) ∧
      ∀ k', k.act (.syscall DSOS_CALL_SEMWAIT args) = .ok k' → k'.running ≠ some r
  noOverflow : ∀ r d args, k.running = some r → ValidFd k r (toInt (args.getD 0 0)) d s →
    ¬ PostsAtMax s k (.syscall DSOS_CALL_SEMPOST args) →
      ∃ k', k.act (.syscall DSOS_CALL_SEMPOST args) = .ok k'

/-- As long as `s` exists and nobody posts on it at the largest `int`, it lets through `n` callers
of `semWait` before one blocks and counts its posts. -/
def Honoured (s : Nat) (n : Int) (k₁ : Kernel) : Prop :=
  ∀ bs k h, Run (withHistory act (watch s))
    (fun t a => Existing s t.1 a ∧ ¬ PostsAtMax s t.1 a) (k₁, []) bs (k, h) → HonouredIn s n h k

/-! ## The stored count -/

/-- A post that completes has not overflown. -/
theorem posted_fits (hc : Coherent k L) (hact : k.act a = .ok k') (hmem : .posted ∈ watch s k a k') :
    (k.semaphore s).count + 1 < 2 ^ 31 := by
  unfold watch at hmem
  split at hmem
  · next num args r hr =>
    split at hmem
    · next hfd =>
      split at hmem
      · split at hmem <;> simp at hmem
      split at hmem
      · next hnum =>
        subst hnum
        have hcall : internalSemPost (k.setCall r DSOS_CALL_SEMPOST args) = .ok k' :=
          syscall_handled args rfl (by decide) (by decide) hr hact
        have hc₁ : Coherent (k.setCall r DSOS_CALL_SEMPOST args) L := coherent_setCall hc hr
        rcases semPost_cases hc₁ hr hcall with ⟨hno, _⟩ | ⟨d, sem, hsem, hfits, _⟩
        · rw [semOfFd_of_noSemFd (.inr rfl) hno] at hfd
          cases hfd
        · rw [semOfFd_of_semFd (.inr rfl) hsem, Option.some.injEq] at hfd
          subst hfd
          exact hfits
      · cases hmem
    · cases hmem
  · cases hmem

/-- The stored count stays below 2^31, and whoever is not ready has a context. -/
theorem run_fits (hc₁ : Coherent k₁ L₁) (hctx₁ : ContextsMade (view k₁ L₁))
    (h0 : (k₁.semaphore s).count < 2 ^ 31)
    (hrun : Run (withHistory act (watch s)) (fun t a => Existing s t.1 a) (k₁, []) as (k, h)) :
    (∃ L, Coherent k L ∧ ContextsMade (view k L)) ∧ (k.semaphore s).count < 2 ^ 31 := by
  refine run_invariant (I := fun t => (∃ L, Coherent t.1 L ∧ ContextsMade (view t.1 L)) ∧
    (t.1.semaphore s).count < 2 ^ 31) (fun t a t' ht hguard hact => ?_) ⟨⟨L₁, hc₁, hctx₁⟩, h0⟩ hrun
  obtain ⟨⟨L, hc, hctx⟩, hfits⟩ := ht
  obtain ⟨hact, _⟩ := withHistory_ok.mp hact
  obtain ⟨_, _, hmoves⟩ :=
    sem_moves hc ((listed_iff hc.tidy.strung).mp hguard.2) hguard.1 hact
  refine ⟨contexts_act hc hctx hguard.1 hact, ?_⟩
  rcases hmoves.count_le with hle | ⟨hmem, hnext⟩
  · exact hle.trans_lt hfits
  · have hroom := posted_fits hc hact hmem
    have hnext : (t'.1.semaphore s).count = (t.1.semaphore s).count + 1 := hnext
    omega

/-- The only overflow of a post is that of the count. -/
theorem post_overflow (hc : Coherent k L) (hr : k.running = some r)
    (hfd : ValidFd k r (toInt (args.getD 0 0)) d s)
    (hmax : (k.semaphore s).count + 1 = 2 ^ 31) :
    k.act (.syscall DSOS_CALL_SEMPOST args) = .error .signedOverflow := by
  have hcall : k.act (.syscall DSOS_CALL_SEMPOST args) =
      internalSemPost (k.setCall r DSOS_CALL_SEMPOST args) :=
    syscall_direct hc rfl (by decide) (by decide) (by decide) hr args
  have hover : addInt (k.semaphore s).count 1 = .error .signedOverflow := by
    rw [addInt, if_neg (by omega)]
  exact hcall.trans (semPost_overflow hr (semFd_setCall (.inr rfl) hfd) hover)

/-! ## The whole range -/

/-- A semaphore that `semOpen` creates honours the count it is given, exactly when an `int` can
hold that count. -/
theorem count_honoured_iff {mem : Int → UInt8} {k₀ : Kernel} (hs : Started mem k₀)
    (hrun : Run act (fun _ a => Ordinary a) k₀ as k)
    (hopen : k.act (.syscall DSOS_CALL_SEMOPEN args) = .ok k₁) (hnew : Creates k k₁ s) :
    Honoured s (args.getD 2 0 % 2 ^ 32) k₁ ↔ args.getD 2 0 % 2 ^ 32 < 2 ^ 31 := by
  obtain ⟨L, hc⟩ := coherent_run hs hrun
  obtain ⟨r, hr⟩ := running_of_ok hopen
  have hctx := reachable_contexts hs hrun hc
  obtain ⟨L₁, hc₁, hctx₁⟩ :=
    contexts_act hc hctx (a := .syscall DSOS_CALL_SEMOPEN args) trivial hopen
  have hcount := created_count hc hr hopen hnew
  have h0 : 0 ≤ args.getD 2 0 % 2 ^ 32 := Int.emod_nonneg _ (by decide)
  have hlt : args.getD 2 0 % 2 ^ 32 < 2 ^ 32 := Int.emod_lt_of_pos _ (by decide)
  generalize args.getD 2 0 % 2 ^ 32 = n at hcount h0 hlt
  constructor
  · intro hon
    have hstored := (hon [] k₁ [] (.nil _)).nonneg
    rw [hcount] at hstored
    unfold toInt at hstored
    rw [Int.bmod_def] at hstored
    omega
  · intro hfits bs k₂ h hlife
    have hcount : (k₁.semaphore s).count = n := hcount.trans (toInt_of_fits (by omega) hfits)
    have hlife := run_mono (fun _ _ hguard => hguard.1) hlife
    obtain ⟨_, _, hbalanced, hnonneg⟩ := run_ledger hc₁ hlife
    have hpos : 0 ≤ (k₂.semaphore s).count := hnonneg (by rw [hcount]; exact h0)
    obtain ⟨⟨L₂, hc₂, hctx₂⟩, hless⟩ := run_fits hc₁ hctx₁ (by rw [hcount]; exact hfits) hlife
    have hpermits : (k₁.semaphore s).count + posts h = (k₂.semaphore s).count + passed h :=
      hbalanced.permits
    refine ⟨hpos, hless, fun hno hleft r d args hr hfd => wait_granted hc₂ hr hfd (by omega),
      fun hno hall r d args hr hfd => ⟨?_, fun k₃ hact => ?_⟩, fun r d args hr hfd hroom => ?_⟩
    · rw [wait_completes_iff hc₂ hctx₂ hr hfd]
      exact or_iff_right (by omega)
    · rw [Ne, semWait_runs_on hc₂ hr hfd hact]
      omega
    · refine (post_completes_iff hc₂ hr hfd).mpr ⟨_, if_pos ⟨by omega, ?_⟩⟩
      exact lt_of_le_of_ne hless fun hmax => hroom ⟨r, d, args, rfl, hr, hfd, hmax⟩

/-- The count 1 is honoured. -/
theorem count_honoured_one :
    ∃ k₀ k k₁, Started (fun _ => 0) k₀ ∧ Run act (fun _ a => Ordinary a) k₀ [] k ∧
      k.act (.syscall DSOS_CALL_SEMOPEN [7, 1, 1]) = .ok k₁ ∧ Honoured 0 1 k₁ := by
  obtain ⟨k₀, k, hs, hrun, htest⟩ := exists_run_from_start (fun _ a => Ordinary a)
    (fun _ a => decide (Ordinary a)) []
    (fun k => (k.head .semaphoresList).size = 0 ∧
      (k.act (.syscall DSOS_CALL_SEMOPEN [7, 1, 1])).toOption.any fun k₁ =>
        (k₁.head .semaphoresList).first = some ⟨.semaphore, 0⟩)
    (fun _ _ h => of_decide_eq_true h) (by decide +kernel)
  obtain ⟨hsize, hany⟩ := of_decide_eq_true htest
  obtain ⟨L, hc⟩ := coherent_run hs hrun
  obtain ⟨k₁, hopen, hfirst⟩ := exists_of_any hany
  have hnew : Creates k k₁ 0 := ⟨not_listed_of_empty hc hsize, linked_first hfirst⟩
  exact ⟨k₀, k, k₁, hs, hrun, hopen, (count_honoured_iff hs hrun hopen hnew).mpr (by decide)⟩

/-- The first process creates a semaphore with the count 2^31, which starts with a debt. A post
on one with the count 2^31 - 1 overflows. -/
theorem count_turns_negative :
    ∃ k₀ k k₁ k₂, Started (fun _ => 0) k₀ ∧ Run act (fun _ a => Ordinary a) k₀ [] k ∧
      k.act (.syscall DSOS_CALL_SEMOPEN [7, 1, 2147483648]) = .ok k₁ ∧
      (k₁.pcb 0).syscallRetvalue = 0 ∧ ¬ Honoured 0 2147483648 k₁ ∧
      k.act (.syscall DSOS_CALL_SEMOPEN [7, 1, 2147483647]) = .ok k₂ ∧
      k₂.act (.syscall DSOS_CALL_SEMPOST [0]) = .error .signedOverflow := by
  obtain ⟨k₀, k, hs, hrun, htest⟩ := exists_run_from_start (fun _ a => Ordinary a)
    (fun _ a => decide (Ordinary a)) []
    (fun k =>
      ((k.act (.syscall DSOS_CALL_SEMOPEN [7, 1, 2147483648])).toOption.any fun k₁ =>
        (k₁.pcb 0).syscallRetvalue = 0 ∧ (k₁.semaphore 0).count < 0) ∧
      (k.act (.syscall DSOS_CALL_SEMOPEN [7, 1, 2147483647])).toOption.any fun k₂ =>
        k₂.running = some 0 ∧ k₂.boundTo .semaphore 0 0 = .ok (some (0, 0)) ∧
          (k₂.semaphore 0).count = 2147483647)
    (fun _ _ h => of_decide_eq_true h) (by decide +kernel)
  obtain ⟨hany₁, hany₂⟩ := of_decide_eq_true htest
  obtain ⟨k₁, hopen₁, hret, hneg⟩ := exists_of_any hany₁
  obtain ⟨k₂, hopen₂, hr₂, hbound, hmax⟩ := exists_of_any hany₂
  obtain ⟨L, hc⟩ := coherent_run hs hrun
  obtain ⟨L₂, -, hc₂, -⟩ := act_done hc (a := .syscall DSOS_CALL_SEMOPEN _) trivial hopen₂
  have hfd : ValidFd k₂ 0 (toInt (([0] : List Int).getD 0 0)) 0 0 := ⟨by decide, hbound⟩
  refine ⟨k₀, k, k₁, k₂, hs, hrun, hopen₁, hret, fun hon => ?_, hopen₂, ?_⟩
  · have hstored := (hon [] k₁ [] (.nil _)).nonneg
    omega
  · exact post_overflow hc₂ hr₂ hfd (by omega)

end DisastrOS.Semaphore.Counts
