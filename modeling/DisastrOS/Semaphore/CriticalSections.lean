import DisastrOS.Process.Resumption
import DisastrOS.Semaphore.Ledger

/-!
# Critical sections

A semaphore guards a critical section: who is let through by `semWait` is inside until it calls
`semPost`. With as many permits as the semaphore has been created with, no more processes are
inside, and who waits has its turn after a number of posts that is known when it begins to wait.
-/
namespace DisastrOS.Semaphore.CriticalSections

open DisastrOS.Machine
open DisastrOS.Machine.Kernel
open DisastrOS.Machine.Runs
open DisastrOS.Lists.Sequences
open DisastrOS.Lists.Wiring
open DisastrOS.Lists.RegularLists
open DisastrOS.Descriptors.Tables
open DisastrOS.Process.Coherence
open DisastrOS.Process.Resumption
open DisastrOS.Process.SystemRuns
open DisastrOS.Process.Transitions
open DisastrOS.Process.View
open DisastrOS.MessageQueue.Calls
open DisastrOS.MessageQueue.CoherentCalls
open DisastrOS.Semaphore.Calls
open DisastrOS.Semaphore.Ledger
open DisastrOS.Library.CountingSemaphore
open DisastrOS.Library.GuardedRun
open DisastrOS.Library.LinkedSequence

variable {mem : Int → UInt8} {k k' k₀ k₁ : Kernel} {L L' L₁ : HeadAddr → List Node}
  {r d s p i : Nat} {args : List Int} {a : Action} {as bs : List Action} {g : List (Gate Int)}
  {h : List (Event (Option Nat))} {ps qs : List (Option Nat)}

/-! ## Mutual exclusion -/

/-- A process goes by its pid, which no other process ever has. -/
def pidOf (k : Kernel) : Option Nat → Int
  | some p => (k.pcb p).pid
  | none => 0

/-- Who enters and who leaves when an action completes. -/
def gates (s : Nat) (k : Kernel) (a : Action) (k' : Kernel) : List (Gate Int) :=
  (watch s k a k').filterMap (Event.gate (pidOf k) (pidOf k k.running))

/-- Only processes that are inside post, while `s` exists. -/
structure Disciplined (s : Nat) (t : Kernel × List (Gate Int)) (a : Action) : Prop where
  existing : Existing s t.1 a
  posts : ∀ r args, t.1.running = some r → a = .syscall DSOS_CALL_SEMPOST args →
    semOfFd t.1 r (toInt (args.getD 0 0)) = some s → (t.1.pcb r).pid ∈ inside t.2

/-- What holds of the critical section of `s`, created with `c` permits in `k₁`, when the
processes in `inside g` are inside. -/
structure Exclusive (k₁ : Kernel) (s : Nat) (c : Int) (g : List (Gate Int)) (k : Kernel) :
    Prop where
  places : ((inside g).length : Int) + (k.semaphore s).count = c
  atMost : ((inside g).length : Int) ≤ c
  admits : ∀ r d args k', k.running = some r → ValidFd k r (toInt (args.getD 0 0)) d s →
    k.act (.syscall DSOS_CALL_SEMWAIT args) = .ok k' →
    (k'.running = some r ↔ ((inside g).length : Int) < c)
  calm : (k₁.head (.waitingDescriptors s)).size = 0 → ((inside g).length : Int) < c →
    (k.head (.waitingDescriptors s)).size = 0

/-- A post is seen when the running process posts. -/
theorem posted_seen (h : .posted ∈ watch s k a k') :
    ∃ r args, k.running = some r ∧ a = .syscall DSOS_CALL_SEMPOST args ∧
      semOfFd k r (toInt (args.getD 0 0)) = some s := by
  unfold watch at h
  split at h
  · next num args r hr =>
    split at h
    · next hfd =>
      split at h
      · split at h <;> simp at h
      · split at h
        · next hnum =>
          subst hnum
          exact ⟨r, args, hr, rfl, hfd⟩
        · exact absurd h List.not_mem_nil
    · exact absurd h List.not_mem_nil
  · exact absurd h List.not_mem_nil

theorem idle_of_empty (hc : Coherent k L)
    (hempty : (k.head (.waitingDescriptors s)).size = 0) : Idle (semOf k L s) := by
  intro _
  have hnone := (hc.tidy.strung.size_zero_iff (l := .waitingDescriptors s)
    (regular_waitingDescriptors s)).mp hempty
  show (L (.waitingDescriptors s)).map _ = []
  rw [hnone]
  rfl

theorem empty_of_idle (hc : Coherent k L) (hidle : Idle (semOf k L s))
    (hpos : 0 < (k.semaphore s).count) : (k.head (.waitingDescriptors s)).size = 0 := by
  have hnone : (L (.waitingDescriptors s)).map (fun x => waiterOf k x.idx) = [] := hidle hpos
  exact (hc.tidy.strung.size_zero_iff (l := .waitingDescriptors s)
    (regular_waitingDescriptors s)).mpr (List.map_eq_nil_iff.mp hnone)

/-- What is inside and what is left of the permits make up the permits of `k₁`. -/
structure Occupied (k₁ : Kernel) (L₁ : HeadAddr → List Node) (s : Nat) (g : List (Gate Int))
    (k : Kernel) (L : HeadAddr → List Node) : Prop where
  places : ((inside g).length : Int) + (k.semaphore s).count = (k₁.semaphore s).count
  nonneg : 0 ≤ (k₁.semaphore s).count → 0 ≤ (k.semaphore s).count
  idle : Idle (semOf k₁ L₁ s) → Idle (semOf k L s)

theorem occupied_step (hc : Coherent k L) (ho : Occupied k₁ L₁ s g k L)
    (hguard : Disciplined s (k, g) a) (hact : act k a = .ok k') :
    ∃ L', Coherent k' L' ∧ Occupied k₁ L₁ s (g ++ gates s k a k') k' L' := by
  obtain ⟨⟨ha, hlisted⟩, hposts⟩ := hguard
  obtain ⟨L', hc', hmoves⟩ := sem_moves hc ((listed_iff hc.tidy.strung).mp hlisted) ha hact
  have hin : .posted ∈ watch s k a k' → pidOf k k.running ∈ inside g := by
    intro hseen
    obtain ⟨r, args, hr, rfl, hfd⟩ := posted_seen hseen
    rw [hr]
    exact hposts r args hr rfl hfd
  have hplaces := hmoves.occupancy (pidOf k) hin
  refine ⟨L', hc', ?_, fun h0 => hmoves.nonneg (ho.nonneg h0), fun h0 => hmoves.idle_kept (ho.idle h0)⟩
  rw [inside_append]
  exact hplaces.trans ho.places

theorem run_occupied (hc₁ : Coherent k₁ L₁)
    (hrun : Run (withHistory act (gates s)) (Disciplined s) (k₁, []) bs (k, g)) :
    ∃ L, Coherent k L ∧ Occupied k₁ L₁ s g k L := by
  refine run_invariant (I := fun t => ∃ L, Coherent t.1 L ∧ Occupied k₁ L₁ s t.2 t.1 L) ?_
    ⟨L₁, hc₁, Int.zero_add _, id, id⟩ hrun
  rintro ⟨k, g⟩ a ⟨k', g'⟩ ⟨L, hc, ho⟩ hguard hact
  obtain ⟨hact, hseen⟩ := withHistory_ok.mp hact
  have hseen : g' = g ++ gates s k a k' := hseen
  subst hseen
  exact occupied_step hc ho hguard hact

/-- If only those that have been let through post, never more processes are inside than the
semaphore has been created with permits, whoever waits, is preempted or dies in between. -/
theorem mutual_exclusion (hs : Started mem k₀) (hrun : Run act (fun _ a => Ordinary a) k₀ as k)
    (hopen : k.act (.syscall DSOS_CALL_SEMOPEN args) = .ok k₁) (hnew : Creates k k₁ s)
    (hfits : args.getD 2 0 % 2 ^ 32 < 2 ^ 31)
    (hlife : Run (withHistory act (gates s)) (Disciplined s) (k₁, []) bs (k', g)) :
    Exclusive k₁ s (args.getD 2 0 % 2 ^ 32) g k' := by
  obtain ⟨L, hc⟩ := coherent_run hs hrun
  obtain ⟨r, hr⟩ := running_of_ok hopen
  obtain ⟨L₁, -, hc₁, -⟩ := act_done hc (a := .syscall DSOS_CALL_SEMOPEN args) trivial hopen
  have h0 : 0 ≤ args.getD 2 0 % 2 ^ 32 := Int.emod_nonneg _ (by decide)
  have hcount : (k₁.semaphore s).count = args.getD 2 0 % 2 ^ 32 :=
    (created_count hc hr hopen hnew).trans (toInt_of_fits (by omega) (by omega))
  obtain ⟨L', hc', hplaces, hnonneg, hidle⟩ := run_occupied hc₁ hlife
  rw [hcount] at hplaces hnonneg
  have hpos := hnonneg h0
  constructor
  · exact hplaces
  · omega
  · intro r d args' k₂ hr hfd hact
    rw [semWait_runs_on hc' hr hfd hact]
    omega
  · intro hempty hroom
    apply empty_of_idle hc' (hidle (idle_of_empty hc₁ hempty))
    omega

/-- A test of `Disciplined` for the first semaphore in the list. -/
def disciplinedFirst (s : Nat) (t : Kernel × List (Gate Int)) (a : Action) : Bool :=
  existingFirst s t.1 a &&
    match a with
    | .syscall num _ => num != DSOS_CALL_SEMPOST || decide (pidOf t.1 t.1.running ∈ inside t.2)
    | _ => true

theorem disciplined_of_first (t : Kernel × List (Gate Int)) (a : Action)
    (h : disciplinedFirst s t a = true) : Disciplined s t a := by
  obtain ⟨hexisting, hposts⟩ := Bool.and_eq_true_iff.mp h
  refine ⟨existing_of_first t.1 a hexisting, fun r args hr ha _ => ?_⟩
  subst ha
  have hin : pidOf t.1 t.1.running ∈ inside t.2 := of_decide_eq_true hposts
  rwa [hr] at hin

/-- Init is inside when its child comes, and lets it in when it leaves. -/
theorem mutual_exclusion_handed_over :
    ∃ k₀ k k₁ k' g, Started (fun _ => 0) k₀ ∧ Run act (fun _ a => Ordinary a) k₀ [] k ∧
      k.act (.syscall DSOS_CALL_SEMOPEN [7, 1, 1]) = .ok k₁ ∧
      Run (withHistory act (gates 0)) (Disciplined 0) (k₁, [])
        [.syscall DSOS_CALL_SEMWAIT [0], .syscall DSOS_CALL_SPAWN [0, 0],
          .syscall DSOS_CALL_PREEMPT [], .syscall DSOS_CALL_SEMOPEN [7, 0, 0],
          .syscall DSOS_CALL_SEMWAIT [0], .syscall DSOS_CALL_SEMPOST [0]] (k', g) ∧
      inside g = [1] ∧ Exclusive k₁ 0 1 g k' := by
  obtain ⟨k₀, k, hs, hrun, htest⟩ := exists_run_from_start (fun _ a => Ordinary a)
    (fun _ a => decide (Ordinary a)) []
    (fun k => (k.head .semaphoresList).size = 0 ∧
      (k.act (.syscall DSOS_CALL_SEMOPEN [7, 1, 1])).toOption.any fun k₁ =>
        (k₁.head .semaphoresList).first = some ⟨.semaphore, 0⟩ ∧
          (exec (withHistory act (gates 0)) (disciplinedFirst 0) (k₁, [])
            [.syscall DSOS_CALL_SEMWAIT [0], .syscall DSOS_CALL_SPAWN [0, 0],
              .syscall DSOS_CALL_PREEMPT [], .syscall DSOS_CALL_SEMOPEN [7, 0, 0],
              .syscall DSOS_CALL_SEMWAIT [0], .syscall DSOS_CALL_SEMPOST [0]]).any
            fun t => inside t.2 = [1])
    (fun _ _ h => of_decide_eq_true h) (by decide +kernel)
  obtain ⟨hsize, hany⟩ := of_decide_eq_true htest
  obtain ⟨L, hc⟩ := coherent_run hs hrun
  obtain ⟨k₁, hopen, hfirst, hexec⟩ := exists_of_any hany
  obtain ⟨⟨k', g⟩, hlife, hinside⟩ := exists_run (Disciplined 0) disciplined_of_first hexec
  exact ⟨k₀, k, k₁, k', g, hs, hrun, hopen, hlife, of_decide_eq_true hinside,
    mutual_exclusion hs hrun hopen ⟨not_listed_of_empty hc hsize, linked_first hfirst⟩
      (by decide) hlife⟩

/-! ## Turns -/

/-- What the history `h` says of the process `p` that has been waiting at place `i`, with
`debt` posts to come before any wakes somebody. -/
structure TurnOf (s p i debt : Nat) (h : List (Event (Option Nat))) (k : Kernel) : Prop where
  waits : posts h ≤ i + debt → (awakened h)[i]? = none ∧ Blocked k p ∧
    ∃ qs, Waiters k s qs ∧ qs[i - (posts h - debt)]? = some (some p)
  comes : i + debt < posts h → (awakened h)[i]? = some (some p)

theorem run_served (hc₁ : Coherent k₁ L₁)
    (hrun : Run (withHistory act (watch s)) (fun t a => Existing s t.1 a) (k₁, []) bs (k, h)) :
    ∃ L, Coherent k L ∧ Balanced (semOf k₁ L₁ s) h (semOf k L s) ∧
      Served (semOf k₁ L₁ s) h (semOf k L s) := by
  refine run_invariant (I := fun t => ∃ L, Coherent t.1 L ∧
    Balanced (semOf k₁ L₁ s) t.2 (semOf t.1 L s) ∧ Served (semOf k₁ L₁ s) t.2 (semOf t.1 L s)) ?_
    ⟨L₁, hc₁, .refl _, .refl _⟩ hrun
  rintro ⟨k, h⟩ a ⟨k', h'⟩ ⟨L, hc, hbalanced, hserved⟩ ⟨ha, hlisted⟩ hact
  obtain ⟨hact, hseen⟩ := withHistory_ok.mp hact
  have hseen : h' = h ++ watch s k a k' := hseen
  subst hseen
  obtain ⟨L', hc', hmoves⟩ := sem_moves hc ((listed_iff hc.tidy.strung).mp hlisted) ha hact
  exact ⟨L', hc', hbalanced.trans hmoves.balanced, hserved.moves hbalanced hmoves⟩

/-- Who is a waiter of a semaphore is blocked. -/
theorem blocked_of_waiter (hc : Coherent k L) (hp : (semOf k L s).queue[i]? = some (some p)) :
    Blocked k p := by
  obtain ⟨p', hwaiting, he, -⟩ := hc.sound.awaiting.blocked s (some p) (List.mem_of_getElem? hp)
  obtain rfl := Option.some.inj he
  exact (blocked_iff hc.tidy.strung).mpr hwaiting

theorem first_waiter {ptr : Nat} (hc : Coherent k L)
    (hfirst : (k.head (.waitingDescriptors s)).first = some ⟨.semDescriptorPtr, ptr⟩)
    (hwaiter : waiterOf k ptr = some p) : ((view k L).waiters s)[0]? = some (some p) := by
  have hhead : (L (.waitingDescriptors s))[0]? = some ⟨.semDescriptorPtr, ptr⟩ := by
    rw [← List.head?_eq_getElem?, ← hfirst]
    exact (hc.tidy.strung.first_eq (l := .waitingDescriptors s) (regular_waitingDescriptors s)).symm
  show ((L (.waitingDescriptors s)).map fun x => waiterOf k x.idx)[0]? = some (some p)
  rw [List.getElem?_map, hhead]
  exact congrArg some hwaiter

/-- A process that waits for a semaphore is woken by a post whose number is known beforehand:
one for each process before it, one for itself and one for each permit below zero. No other call
moves it, and whoever calls `semWait` later comes later. -/
theorem bounded_waiting (hs : Started mem k₀) (hrun : Run act (fun _ a => Ordinary a) k₀ as k₁)
    (hwaiters : Waiters k₁ s ps) (hplace : ps[i]? = some (some p))
    (hlife : Run (withHistory act (watch s)) (fun t a => Existing s t.1 a) (k₁, []) bs (k, h)) :
    TurnOf s p i (-(k₁.semaphore s).count).toNat h k := by
  obtain ⟨L₁, hc₁⟩ := coherent_run hs hrun
  obtain ⟨L, hc, hbalanced, hserved⟩ := run_served hc₁ hlife
  have hqueue : ps = (semOf k₁ L₁ s).queue := waiters_eq hc₁.tidy.strung hwaiters
  rw [hqueue] at hplace
  constructor
  · intro hle
    obtain ⟨hnone, hwaits⟩ := hserved.waits hbalanced hplace hle
    exact ⟨hnone, blocked_of_waiter hc hwaits, _, waiters_view hc.tidy.strung, hwaits⟩
  · intro hlt
    exact hserved.woken hbalanced hplace hlt

/-- Init waits for its child to post. -/
theorem bounded_waiting_first :
    ∃ k₀ k₁ k h ps, Started (fun _ => 0) k₀ ∧
      Run act (fun _ a => Ordinary a) k₀
        [.syscall DSOS_CALL_SEMOPEN [7, 1, 0], .syscall DSOS_CALL_SPAWN [0, 0],
          .syscall DSOS_CALL_SEMWAIT [0]] k₁ ∧
      Waiters k₁ 0 ps ∧ ps[0]? = some (some 0) ∧
      Run (withHistory act (watch 0)) (fun t a => Existing 0 t.1 a) (k₁, [])
        [.syscall DSOS_CALL_SEMOPEN [7, 0, 0], .syscall DSOS_CALL_SEMPOST [0]] (k, h) ∧
      TurnOf 0 0 0 0 h k := by
  obtain ⟨k₀, k₁, hs, hrun, htest⟩ := exists_run_from_start (fun _ a => Ordinary a)
    (fun _ a => decide (Ordinary a))
    [.syscall DSOS_CALL_SEMOPEN [7, 1, 0], .syscall DSOS_CALL_SPAWN [0, 0],
      .syscall DSOS_CALL_SEMWAIT [0]]
    (fun k => (k.head (.waitingDescriptors 0)).first = some ⟨.semDescriptorPtr, 0⟩ ∧
      waiterOf k 0 = some 0 ∧ (k.semaphore 0).count = 0 ∧
      (exec act (existingFirst 0) k
        [.syscall DSOS_CALL_SEMOPEN [7, 0, 0], .syscall DSOS_CALL_SEMPOST [0]]).isSome)
    (fun _ _ h => of_decide_eq_true h) (by decide +kernel)
  obtain ⟨hfirst, hwaiter, hcount, hexec⟩ := of_decide_eq_true htest
  obtain ⟨k, hk⟩ := Option.isSome_iff_exists.mp hexec
  obtain ⟨h, hlife⟩ : ∃ h, Run (withHistory act (watch 0)) (fun t a => Existing 0 t.1 a) (k₁, [])
      [.syscall DSOS_CALL_SEMOPEN [7, 0, 0], .syscall DSOS_CALL_SEMPOST [0]] (k, h) :=
    exists_history (run_of_exec existing_of_first hk) []
  obtain ⟨L, hc⟩ := coherent_run hs hrun
  have hplace := first_waiter hc hfirst hwaiter
  have hturn := bounded_waiting hs hrun (waiters_view hc.tidy.strung) hplace hlife
  rw [hcount] at hturn
  exact ⟨k₀, k₁, k, h, _, hs, hrun, waiters_view hc.tidy.strung, hplace, hlife, hturn⟩

end DisastrOS.Semaphore.CriticalSections
