import DisastrOS.Library.CountingSemaphore
import DisastrOS.Process.SystemRuns

/-!
# The permits of a semaphore

A semaphore of the kernel moves as a counting semaphore does: its count is the number of
permits, and the processes behind `waiting_descriptors` are the queue. So the permits are
accounted for from the creation of a semaphore to its destruction.
-/
namespace DisastrOS.Semaphore.Ledger

open DisastrOS.Machine
open DisastrOS.Machine.Kernel
open DisastrOS.Machine.Runs
open DisastrOS.Lists.Sequences
open DisastrOS.Lists.Wiring
open DisastrOS.Lists.RegularLists
open DisastrOS.Pool.Blocks
open DisastrOS.Descriptors.Bindings
open DisastrOS.Descriptors.Tables
open DisastrOS.Process.Table
open DisastrOS.Process.Steps
open DisastrOS.Process.View
open DisastrOS.Process.Coherence
open DisastrOS.Process.Handles
open DisastrOS.Process.SystemRuns
open DisastrOS.Process.Transitions
open DisastrOS.MessageQueue.Calls
open DisastrOS.MessageQueue.CoherentCalls
open DisastrOS.Resource.Calls
open DisastrOS.Semaphore.Calls
open DisastrOS.Library.CountingSemaphore
open DisastrOS.Library.GuardedRun
open DisastrOS.Library.LinkedSequence

variable {k k' k₁ : Kernel} {L L' L₁ : HeadAddr → List Node} {r d s : Nat} {num : Int}
  {args : List Int} {a : Action} {as : List Action} {h : List (Event (Option Nat))}

/-! ## What can be seen of a semaphore -/

/-- The semaphore that the file descriptor names. -/
def semOfFd (k : Kernel) (r : Nat) (fd : Int) : Option Nat :=
  if fdOutOfBounds fd MAX_NUM_SEMDESCRIPTORS_PER_PROCESS then none
  else
    match k.boundTo .semaphore r fd with
    | .ok (some (_, sem)) => some sem
    | _ => none

/-- What can be seen of the permits of `s` when an action completes: whether the caller of
`semWait` still runs, and who has been added to the ready list by a `semPost`. -/
def watch (s : Nat) (k : Kernel) (a : Action) (k' : Kernel) : List (Event (Option Nat)) :=
  match a, k.running with
  | .syscall num args, some r =>
    if semOfFd k r (toInt (args.getD 0 0)) = some s then
      if num = DSOS_CALL_SEMWAIT then
        if k'.running = some r then [.granted (some r)] else [.blocked (some r)]
      else if num = DSOS_CALL_SEMPOST then
        if (k'.head .readyList).size = (k.head .readyList).size then [.posted]
        else [.posted, .woken ((k'.head .readyList).last.map Node.idx)]
      else []
    else []
  | _, _ => []

/-- The processes behind `waiting_descriptors`. -/
def Waiters (k : Kernel) (s : Nat) (ps : List (Option Nat)) : Prop :=
  ∃ xs, Holds k.lists (.waitingDescriptors s) xs ∧ ps = xs.map fun x => waiterOf k x.idx

/-- The semaphore `s` exists. -/
def Listed (k : Kernel) (s : Nat) : Prop := Linked k .semaphoresList ⟨.semaphore, s⟩

/-- The counting semaphore that `s` is. -/
def semOf (k : Kernel) (L : HeadAddr → List Node) (s : Nat) : Sem (Option Nat) :=
  ⟨(k.semaphore s).count, (view k L).waiters s⟩

theorem waiters_view (hs : Strung Regular Retained k L) : Waiters k s ((view k L).waiters s) :=
  ⟨_, hs.holds (l := .waitingDescriptors s) (regular_waitingDescriptors s), rfl⟩

theorem waiters_eq {ps : List (Option Nat)} (hs : Strung Regular Retained k L)
    (h : Waiters k s ps) : ps = (view k L).waiters s := by
  obtain ⟨xs, hxs, rfl⟩ := h
  have hsame : xs = L (.waitingDescriptors s) := represents_unique hxs
    (hs.holds (l := .waitingDescriptors s) (regular_waitingDescriptors s))
  rw [hsame]
  rfl

theorem listed_iff (hs : Strung Regular Retained k L) :
    Listed k s ↔ ObjectListed L .semaphore s :=
  hs.linked_iff (l := .semaphoresList) (by decide : Regular .semaphore)

/-- The lists of a kernel are determined by its links. -/
theorem waiters_unique (hs : Strung Regular Retained k L) (hs' : Strung Regular Retained k L') :
    (view k L).waiters s = (view k L').waiters s := by
  have hsame : L (.waitingDescriptors s) = L' (.waitingDescriptors s) :=
    represents_unique (hs.holds (l := .waitingDescriptors s) (regular_waitingDescriptors s))
      (hs'.holds (l := .waitingDescriptors s) (regular_waitingDescriptors s))
  show (L (.waitingDescriptors s)).map _ = (L' (.waitingDescriptors s)).map _
  rw [hsame]

theorem semOf_eq {count : Int} {ps : List (Option Nat)} (hs' : Strung Regular Retained k' L')
    (hs₁ : Strung Regular Retained k' L₁) (hcount : (k'.semaphore s).count = count)
    (hps : (view k' L₁).waiters s = ps) : semOf k' L' s = ⟨count, ps⟩ := by
  unfold semOf
  rw [waiters_unique hs' hs₁, hcount, hps]

/-! ## Waiting and posting -/

theorem arg_setCall_zero (hnum : num = DSOS_CALL_SEMWAIT ∨ num = DSOS_CALL_SEMPOST) :
    (k.setCall r num args).arg r 0 = args.getD 0 0 := by
  rcases hnum with rfl | rfl <;> exact arg_setCall (by decide)

theorem semOfFd_of_semFd (hnum : num = DSOS_CALL_SEMWAIT ∨ num = DSOS_CALL_SEMPOST)
    (hfd : SemFd (k.setCall r num args) r d s) : semOfFd k r (toInt (args.getD 0 0)) = some s := by
  have hin := hfd.inBounds
  have hbound := hfd.bound
  rw [arg_setCall_zero hnum] at hin hbound
  rw [boundTo_setCall] at hbound
  unfold semOfFd
  rw [if_neg hin, hbound]

theorem semOfFd_of_noSemFd (hnum : num = DSOS_CALL_SEMWAIT ∨ num = DSOS_CALL_SEMPOST)
    (hno : NoSemFd (k.setCall r num args) r) : semOfFd k r (toInt (args.getD 0 0)) = none := by
  unfold NoSemFd at hno
  rw [arg_setCall_zero hnum, boundTo_setCall] at hno
  unfold semOfFd
  rcases hno with hout | hnone
  · rw [if_pos hout]
  · rw [hnone]
    split <;> rfl

theorem blocked_running_ne {sem ptr n : Nat} {rest : List Node}
    (h : SemBlocked k L r sem ptr n rest k') (hc : Coherent k L) (hr : k.running = some r) :
    ¬ k'.running = some r := by
  rw [h.rest]
  intro he
  obtain rfl : n = r := Option.some.inj he
  refine (hc.running_unlinked hr).2 .readyList rfl ?_
  rw [h.ready]
  exact List.mem_cons_self

theorem semWait_moves (hc : Coherent k L) (hr : k.running = some r)
    (hact : k.act (.syscall DSOS_CALL_SEMWAIT args) = .ok k') (hc' : Coherent k' L') :
    Moves (semOf k L s) (watch s k (.syscall DSOS_CALL_SEMWAIT args) k') (semOf k' L' s) := by
  have hcall : internalSemWait (k.setCall r DSOS_CALL_SEMWAIT args) = .ok k' :=
    syscall_handled args rfl (by decide) (by decide) hr hact
  have hc₁ : Coherent (k.setCall r DSOS_CALL_SEMWAIT args) L := coherent_setCall hc hr
  have hs₁ := hc₁.tidy.strung
  have hs' := hc'.tidy.strung
  have hwatch : watch s k (.syscall DSOS_CALL_SEMWAIT args) k' =
      if semOfFd k r (toInt (args.getD 0 0)) = some s then
        if k'.running = some r then [.granted (some r)] else [.blocked (some r)]
      else [] := by
    unfold watch
    rw [hr]
    rfl
  rw [hwatch]
  rcases semWait_cases hc₁ hr hcall with ⟨hno, hk'⟩ | ⟨d, sem, hfd, ⟨hcount, hk'⟩ |
    ⟨hcount, ptr, n, rest, _, hblocked⟩⟩
  · have hsame : semOf k' L' s = semOf k L s := by
      subst hk'
      exact semOf_eq hs' (hs₁.congr rfl rfl) rfl rfl
    rw [semOfFd_of_noSemFd (.inl rfl) hno, if_neg (by simp), hsame]
    exact .idle
  · have hcount : 0 < (k.semaphore sem).count := hcount
    have hafter : semOf k' L' s =
        ⟨if s = sem then (k.semaphore sem).count - 1 else (k.semaphore s).count,
          (view k L).waiters s⟩ := by
      subst hk'
      refine semOf_eq hs' (hs₁.congr rfl rfl) ?_ rfl
      show (Function.update k.semaphore sem _ s).count = _
      rw [Function.update_apply]
      split <;> rfl
    rw [semOfFd_of_semFd (.inl rfl) hfd, hafter]
    by_cases hsem : s = sem
    · subst hsem
      have hwait : wait (some r) (semOf k L s) =
          (⟨(k.semaphore s).count - 1, (view k L).waiters s⟩, [.granted (some r)]) :=
        if_pos hcount
      have hmoves := Moves.wait (some r) (s := semOf k L s)
      rw [hwait] at hmoves
      have hstill : k'.running = some r := by
        rw [hk']
        exact hr
      rwa [if_pos rfl, if_pos rfl, if_pos hstill]
    · rw [if_neg hsem, if_neg fun he => hsem (Option.some.inj he).symm]
      exact .idle
  · have hcount : ¬ 0 < (k.semaphore sem).count := hcount
    have hafter : semOf k' L' s = ⟨(k.semaphore s).count,
        Function.update (view k L).waiters sem ((view k L).waiters sem ++ [some r]) s⟩ := by
      refine semOf_eq hs' hblocked.woven.strung (by rw [hblocked.rest]; rfl) ?_
      rw [hblocked.view_eq]
      rfl
    rw [semOfFd_of_semFd (.inl rfl) hfd, hafter]
    by_cases hsem : s = sem
    · subst hsem
      have hwait : wait (some r) (semOf k L s) =
          (⟨(k.semaphore s).count, (view k L).waiters s ++ [some r]⟩, [.blocked (some r)]) :=
        if_neg hcount
      have hmoves := Moves.wait (some r) (s := semOf k L s)
      rw [hwait] at hmoves
      have hgone : ¬ k'.running = some r := blocked_running_ne hblocked hc₁ hr
      rwa [if_pos rfl, if_neg hgone, Function.update_self]
    · rw [if_neg fun he => hsem (Option.some.inj he).symm, Function.update_of_ne hsem]
      exact .idle

theorem semPost_moves (hc : Coherent k L) (hr : k.running = some r)
    (hact : k.act (.syscall DSOS_CALL_SEMPOST args) = .ok k') (hc' : Coherent k' L') :
    Moves (semOf k L s) (watch s k (.syscall DSOS_CALL_SEMPOST args) k') (semOf k' L' s) := by
  have hcall : internalSemPost (k.setCall r DSOS_CALL_SEMPOST args) = .ok k' :=
    syscall_handled args rfl (by decide) (by decide) hr hact
  have hc₁ : Coherent (k.setCall r DSOS_CALL_SEMPOST args) L := coherent_setCall hc hr
  have hs₁ := hc₁.tidy.strung
  have hs' := hc'.tidy.strung
  have hwatch : watch s k (.syscall DSOS_CALL_SEMPOST args) k' =
      if semOfFd k r (toInt (args.getD 0 0)) = some s then
        if (k'.head .readyList).size = (k.head .readyList).size then [.posted]
        else [.posted, .woken ((k'.head .readyList).last.map Node.idx)]
      else [] := by
    unfold watch
    rw [hr]
    rfl
  rw [hwatch]
  rcases semPost_cases hc₁ hr hcall with ⟨hno, hk'⟩ | ⟨d, sem, hfd, _, ⟨hno, hk'⟩ |
    ⟨hpos, p, ptr, rest, hwoken⟩⟩
  · have hsame : semOf k' L' s = semOf k L s := by
      subst hk'
      exact semOf_eq hs' (hs₁.congr rfl rfl) rfl rfl
    rw [semOfFd_of_noSemFd (.inr rfl) hno, if_neg (by simp), hsame]
    exact .idle
  · have hno : 0 < (k.semaphore sem).count + 1 → L (.waitingDescriptors sem) = [] := hno
    have hafter : semOf k' L' s =
        ⟨if s = sem then (k.semaphore sem).count + 1 else (k.semaphore s).count,
          (view k L).waiters s⟩ := by
      subst hk'
      refine semOf_eq hs' (hs₁.congr rfl rfl) ?_ rfl
      show (Function.update k.semaphore sem _ s).count = _
      rw [Function.update_apply]
      split <;> rfl
    rw [semOfFd_of_semFd (.inr rfl) hfd, hafter]
    by_cases hsem : s = sem
    · subst hsem
      have hpost : post (semOf k L s) =
          (⟨(k.semaphore s).count + 1, (view k L).waiters s⟩, [.posted]) := by
        unfold post semOf
        by_cases hpos : 0 < (k.semaphore s).count + 1
        · have hnone : (view k L).waiters s = [] := by
            show (L (.waitingDescriptors s)).map _ = []
            rw [hno hpos]
            rfl
          rw [if_pos hpos, hnone]
        · rw [if_neg hpos]
      have hquiet : (k'.head .readyList).size = (k.head .readyList).size := by
        rw [hk']
        rfl
      have hmoves := Moves.post (s := semOf k L s)
      rw [hpost] at hmoves
      rwa [if_pos rfl, if_pos rfl, if_pos hquiet]
    · rw [if_neg hsem, if_neg fun he => hsem (Option.some.inj he).symm]
      exact .idle
  · have hpos : 0 < (k.semaphore sem).count + 1 := hpos
    have hafter : semOf k' L' s = ⟨(k.semaphore s).count,
        Function.update (view k L).waiters sem ((view k L).waiters sem).tail s⟩ := by
      refine semOf_eq hs' hwoken.woven.strung (by rw [hwoken.rest]; rfl) ?_
      rw [hwoken.view_eq hs₁]
      rfl
    rw [semOfFd_of_semFd (.inr rfl) hfd, hafter]
    by_cases hsem : s = sem
    · subst hsem
      have hready : postLists L p s ptr rest .readyList = L .readyList ++ [⟨.pcb, p⟩] := by
        simp [postLists]
      have hlast : (k'.head .readyList).last = some ⟨.pcb, p⟩ := by
        rw [hwoken.woven.strung.last_eq (l := .readyList) regular_pcb, hready]
        exact List.getLast?_concat
      have hlonger : ¬ (k'.head .readyList).size = (k.head .readyList).size := by
        rw [hwoken.woven.strung.size_eq (l := .readyList) regular_pcb,
          hc.tidy.strung.size_eq (l := .readyList) regular_pcb, hready, List.length_append]
        simp
      have hqueue : (view k L).waiters s = some p :: rest.map fun x => waiterOf k x.idx := by
        show (L (.waitingDescriptors s)).map (fun x => waiterOf k x.idx) = _
        rw [hwoken.first, List.map_cons]
        exact congrArg (· :: _) hwoken.waiter
      have hpost : post (semOf k L s) = (⟨(k.semaphore s).count, ((view k L).waiters s).tail⟩,
          [.posted, .woken (some p)]) := by
        unfold post semOf
        rw [if_pos hpos, hqueue]
        rfl
      have hmoves := Moves.post (s := semOf k L s)
      rw [hpost] at hmoves
      rwa [if_pos rfl, if_neg hlonger, hlast, Function.update_self]
    · rw [if_neg fun he => hsem (Option.some.inj he).symm, Function.update_of_ne hsem]
      exact .idle

/-! ## Other actions -/

theorem waiters_rescheduled {t t' : ProcessTable} (h : Rescheduled t t') :
    t'.waiters = t.waiters := by
  rw [h.rest]

theorem waiters_handled {t t' : ProcessTable} (h : Handled t r num t')
    (hwait : num ≠ DSOS_CALL_SEMWAIT) (hpost : num ≠ DSOS_CALL_SEMPOST) :
    t'.waiters = t.waiters := by
  cases h with
  | quiet => rfl
  | preempt h => exact waiters_rescheduled (schedules_rescheduled h)
  | spawn => rfl
  | sleep => rfl
  | waitBlock => rfl
  | waitCollect => rfl
  | exitNext => rfl
  | exitReport => rfl
  | semBlock => exact absurd rfl hwait
  | semWake => exact absurd rfl hpost

/-- The actions that move the waiters of a semaphore. -/
def OnPermits (a : Action) : Prop :=
  ∃ args, a = .syscall DSOS_CALL_SEMWAIT args ∨ a = .syscall DSOS_CALL_SEMPOST args

theorem waiters_step {t t' : ProcessTable} (h : Step t a t') (hno : ¬ OnPermits a) :
    t'.waiters = t.waiters := by
  cases h with
  | refused => rfl
  | @call r num args _ _ hh =>
    have hkept := waiters_handled hh (fun he => hno ⟨args, .inl (by rw [he])⟩)
      fun he => hno ⟨args, .inr (by rw [he])⟩
    exact hkept
  | tick _ h =>
    have hkept := waiters_rescheduled (schedules_rescheduled h)
    exact hkept
  | restart => rfl
  | store => rfl

/-- The fields of a semaphore in use are written by `semWait` and `semPost` only. -/
theorem semaphore_called (h : Called k L r num k' L') (hs : Strung Regular Retained k L)
    (hwait : num ≠ DSOS_CALL_SEMWAIT) (hpost : num ≠ DSOS_CALL_SEMPOST)
    (hlisted : ObjectListed L .semaphore s) : k'.semaphore s = k.semaphore s := by
  have hused : Allocated k .semaphore s :=
    hs.allocated (l := .semaphoresList) (by decide : Regular .semaphore) hlisted
  cases h with
  | refused => rfl
  | preempted hb => rw [hb.rest]
  | slept hb => rw [hb.rest]
  | spawned _ h => rw [h.rest]
  | collected _ _ _ _ h => rw [h.rest]
  | waits _ _ hb => rw [hb.rest]
  | exited _ _ hb => rw [hb.rest]
  | reported hd _ h => rw [h.rest, hd.rest]
  | semOpen h =>
    have hnew : ∀ {sem : Nat} {k₁ : Kernel} {L₁ : HeadAddr → List Node},
        SemCreated k L r sem k₁ L₁ → k₁.semaphore s = k.semaphore s := by
      intro sem k₁ L₁ hcre
      have hne : s ≠ sem := fun he => hcre.created.fresh (he ▸ hused)
      rw [hcre.semaphore, Function.update_of_ne hne]
    cases h with
    | refused => rfl
    | opened _ ha => rw [ha.rest]
    | created hcre ha =>
      have hold := hnew hcre
      rw [ha.rest]
      exact hold
    | createdOnly hcre =>
      have hold := hnew hcre
      exact hold
  | semWait => exact absurd rfl hwait
  | semPost => exact absurd rfl hpost
  | semClose h =>
    cases h with
    | refused => rfl
    | closed _ _ _ _ hrem => exact congrFun (congrArg Kernel.semaphore hrem.rest) s
    | destroyed _ _ _ _ hrem hdes =>
      have hgone := congrFun (congrArg Kernel.semaphore hdes.rest) s
      have hclosed := congrFun (congrArg Kernel.semaphore hrem.rest) s
      exact hgone.trans hclosed
  | openResource h =>
    cases h with
    | refused => rfl
    | opened _ ha => rw [ha.rest]
    | created hcre ha => rw [ha.rest, hcre.rest]
    | createdOnly hcre => exact congrFun (congrArg Kernel.semaphore hcre.rest) s
  | closeResource h =>
    cases h with
    | refused => rfl
    | closed _ _ _ hrem => exact congrFun (congrArg Kernel.semaphore hrem.rest) s
  | destroyResource h =>
    cases h with
    | refused => rfl
    | destroyed hdes => exact congrFun (congrArg Kernel.semaphore hdes.rest) s
  | mqOpen h =>
    cases h with
    | unopened hq => rw [hq.rest]
    | opened hq _ _ ha => rw [ha.rest, hq.rest]
  | mqClose h =>
    cases h with
    | refused => rfl
    | closed _ _ _ _ _ hrem => exact congrFun (congrArg Kernel.semaphore hrem.rest) s
  | mqUse _ h => rw [h.rest]

theorem watch_other (hwait : num ≠ DSOS_CALL_SEMWAIT) (hpost : num ≠ DSOS_CALL_SEMPOST) :
    watch s k (.syscall num args) k' = [] := by
  unfold watch
  split
  · next heq _ =>
    cases heq
    simp only [if_neg hwait, if_neg hpost, ite_self]
  · rfl

/-- An action that is not on the semaphore. -/
theorem moves_idle (hwatch : watch s k a k' = []) (hsem : k'.semaphore s = k.semaphore s)
    (hwaiters : (view k' L').waiters = (view k L).waiters) :
    Moves (semOf k L s) (watch s k a k') (semOf k' L' s) := by
  have hsame : semOf k' L' s = semOf k L s := by
    unfold semOf
    rw [hsem, hwaiters]
  rw [hwatch, hsame]
  exact .idle

/-- Every action does to a semaphore in use what one operation, or none, does to it. -/
theorem sem_moves (hc : Coherent k L) (hlisted : ObjectListed L .semaphore s)
    (ha : Ordinary a) (hact : act k a = .ok k') :
    ∃ L', Coherent k' L' ∧ Moves (semOf k L s) (watch s k a k') (semOf k' L' s) := by
  obtain ⟨L', hacted, hc', hstep⟩ := act_done hc ha hact
  refine ⟨L', hc', ?_⟩
  cases hacted with
  | @ignored num args hnum =>
    have hwait : num ≠ DSOS_CALL_SEMWAIT := by
      rintro rfl
      revert hnum
      decide
    have hpost : num ≠ DSOS_CALL_SEMPOST := by
      rintro rfl
      revert hnum
      decide
    have hno : ¬ OnPermits (.syscall num args) := by
      rintro ⟨args', he | he⟩
      · exact hwait (Action.syscall.inj he).1
      · exact hpost (Action.syscall.inj he).1
    exact moves_idle (watch_other hwait hpost) rfl (waiters_step hstep hno)
  | @called r num args _ _ hr hcalled =>
    by_cases hwait : num = DSOS_CALL_SEMWAIT
    · subst hwait
      exact semWait_moves hc hr hact hc'
    by_cases hpost : num = DSOS_CALL_SEMPOST
    · subst hpost
      exact semPost_moves hc hr hact hc'
    have hno : ¬ OnPermits (.syscall num args) := by
      rintro ⟨args', he | he⟩
      · exact hwait (Action.syscall.inj he).1
      · exact hpost (Action.syscall.inj he).1
    have hc₁ : Coherent (k.setCall r num args) L := coherent_setCall hc hr
    have hsem := semaphore_called hcalled hc₁.tidy.strung hwait hpost hlisted
    exact moves_idle (watch_other hwait hpost) hsem (waiters_step hstep hno)
  | ticked _ hb =>
    have hno : ¬ OnPermits .timer := by
      rintro ⟨args, he | he⟩ <;> cases he
    exact moves_idle rfl (by rw [hb.rest]) (waiters_step hstep hno)
  | restarted h =>
    have hno : ¬ OnPermits .restart := by
      rintro ⟨args, he | he⟩ <;> cases he
    exact moves_idle rfl (by rw [h.rest]) (waiters_step hstep hno)
  | stored addr v => exact moves_idle rfl rfl rfl

/-! ## From creation to destruction -/

/-- The action is taken while `s` exists. -/
def Existing (s : Nat) (k : Kernel) (a : Action) : Prop := Ordinary a ∧ Listed k s

/-- The permits of a semaphore are accounted for as long as it exists. -/
theorem run_ledger (hc₁ : Coherent k₁ L₁)
    (hrun : Run (withHistory act (watch s)) (fun t a => Existing s t.1 a) (k₁, []) as (k, h)) :
    ∃ L, Coherent k L ∧ Balanced (semOf k₁ L₁ s) h (semOf k L s) ∧
      (0 ≤ (k₁.semaphore s).count → 0 ≤ (k.semaphore s).count) := by
  refine run_invariant (I := fun t => ∃ L, Coherent t.1 L ∧
    Balanced (semOf k₁ L₁ s) t.2 (semOf t.1 L s) ∧
      (0 ≤ (k₁.semaphore s).count → 0 ≤ (t.1.semaphore s).count)) ?_
    ⟨L₁, hc₁, .refl _, id⟩ hrun
  rintro ⟨k, h⟩ a ⟨k', h'⟩ ⟨L, hc, hbalanced, hnonneg⟩ ⟨ha, hlisted⟩ hact
  obtain ⟨hact, hseen⟩ := withHistory_ok.mp hact
  have hseen : h' = h ++ watch s k a k' := hseen
  subst hseen
  obtain ⟨L', hc', hmoves⟩ :=
    sem_moves hc ((listed_iff hc.tidy.strung).mp hlisted) ha hact
  exact ⟨L', hc', hbalanced.trans hmoves.balanced, fun h0 => hmoves.nonneg (hnonneg h0)⟩

theorem running_of_ok (hact : k.act (.syscall num args) = .ok k') :
    ∃ r, k.running = some r := by
  have hact : k.disastrOSSyscall num args = .ok k' := hact
  unfold disastrOSSyscall at hact
  cases hr : k.running with
  | none =>
    rw [hr] at hact
    cases hact
  | some r => exact ⟨r, rfl⟩

/-- The call has created `s`. -/
structure Creates (k k₁ : Kernel) (s : Nat) : Prop where
  before : ¬ Listed k s
  after : Listed k₁ s

/-- The count that a creating `semOpen` stores: its `unsigned` argument as an `int`. -/
theorem created_count (hc : Coherent k L) (hr : k.running = some r)
    (hact : k.act (.syscall DSOS_CALL_SEMOPEN args) = .ok k₁) (hnew : Creates k k₁ s) :
    (k₁.semaphore s).count = toInt (args.getD 2 0 % 2 ^ 32) := by
  have hcall : internalSemOpen (k.setCall r DSOS_CALL_SEMOPEN args) = .ok k₁ :=
    syscall_handled args rfl (by decide) (by decide) hr hact
  have hc₁ : Coherent (k.setCall r DSOS_CALL_SEMOPEN args) L := coherent_setCall hc hr
  have hbefore : ¬ ObjectListed L .semaphore s :=
    fun hl => hnew.before ((listed_iff hc.tidy.strung).mpr hl)
  have hcount : ∀ {sem : Nat} {k₂ : Kernel} {L₂ : HeadAddr → List Node},
      SemCreated (k.setCall r DSOS_CALL_SEMOPEN args) L r sem k₂ L₂ →
      ObjectListed L₂ .semaphore s →
      (k₂.semaphore s).count = toInt (args.getD 2 0 % 2 ^ 32) := by
    intro sem k₂ L₂ hcre hl
    unfold ObjectListed at hl
    rw [hcre.created.lists] at hl
    rcases mem_append_update.mp hl with hl | ⟨_, he⟩
    · exact absurd hl hbefore
    · obtain rfl : s = sem := congrArg Node.idx he
      have harg : (k.setCall r DSOS_CALL_SEMOPEN args).arg r 2 = args.getD 2 0 :=
        arg_setCall (by decide)
      rw [hcre.semaphore, Function.update_self, harg]
  obtain ⟨L₁, hopened⟩ := semOpen_ok hc₁ hr hcall
  have hm := hopened.moved hc₁
  have hafter := (listed_iff hm.tidy.strung).mp hnew.after
  cases hopened with
  | refused => exact absurd hafter hbefore
  | opened _ ha =>
    unfold ObjectListed at hafter
    rw [withOpened_objects] at hafter
    exact absurd hafter hbefore
  | created hcre ha =>
    unfold ObjectListed at hafter
    rw [withOpened_objects] at hafter
    have hstored := hcount hcre hafter
    rw [ha.rest]
    exact hstored
  | createdOnly hcre =>
    have hstored := hcount hcre hafter
    exact hstored

/-- A `semWait` on a valid file descriptor lets its caller through exactly when there is a
permit. -/
theorem semWait_runs_on (hc : Coherent k L) (hr : k.running = some r)
    (hfd : ValidFd k r (toInt (args.getD 0 0)) d s)
    (hact : k.act (.syscall DSOS_CALL_SEMWAIT args) = .ok k') :
    k'.running = some r ↔ 0 < (k.semaphore s).count := by
  have hcall : internalSemWait (k.setCall r DSOS_CALL_SEMWAIT args) = .ok k' :=
    syscall_handled args rfl (by decide) (by decide) hr hact
  have hc₁ : Coherent (k.setCall r DSOS_CALL_SEMWAIT args) L := coherent_setCall hc hr
  have hfd₁ : SemFd (k.setCall r DSOS_CALL_SEMWAIT args) r d s := semFd_setCall (.inl rfl) hfd
  rcases semWait_cases hc₁ hr hcall with ⟨hno, _⟩ | ⟨d', s', hfd', hcases⟩
  · exact absurd hno hfd₁.not_noSemFd
  obtain ⟨rfl, rfl⟩ := hfd'.unique hfd₁
  rcases hcases with ⟨hcount, rfl⟩ | ⟨hcount, ptr, n, rest, _, hblocked⟩
  · exact iff_of_true hr hcount
  · exact iff_of_false (blocked_running_ne hblocked hc₁ hr) hcount

/-- What the history `h` says of `s`, which was created with `c` permits in `k₁`. -/
structure Conserved (k₁ : Kernel) (s : Nat) (c : Int) (h : List (Event (Option Nat)))
    (k : Kernel) : Prop where
  permits : c + posts h = (k.semaphore s).count + passed h
  nonneg : 0 ≤ (k.semaphore s).count
  bounded : (passed h : Int) ≤ c + posts h
  blocks : ∀ r d args k', k.running = some r → ValidFd k r (toInt (args.getD 0 0)) d s →
    k.act (.syscall DSOS_CALL_SEMWAIT args) = .ok k' →
    (k'.running ≠ some r ↔ (k.semaphore s).count = 0)
  order : ∃ ps qs, Waiters k₁ s ps ∧ Waiters k s qs ∧ ps ++ queued h = awakened h ++ qs

/-- From its creation by `semOpen` with an initial count that an `int` holds until it is
destroyed, the permits of a semaphore are accounted for. -/
theorem permits_conserved {mem : Int → UInt8} {k₀ : Kernel} {bs : List Action}
    (hs : Started mem k₀) (hrun : Run act (fun _ a => Ordinary a) k₀ as k)
    (hopen : k.act (.syscall DSOS_CALL_SEMOPEN args) = .ok k₁) (hnew : Creates k k₁ s)
    (hfits : args.getD 2 0 % 2 ^ 32 < 2 ^ 31)
    (hlife : Run (withHistory act (watch s)) (fun t a => Existing s t.1 a) (k₁, []) bs (k', h)) :
    Conserved k₁ s (args.getD 2 0 % 2 ^ 32) h k' := by
  obtain ⟨L, hc⟩ := coherent_run hs hrun
  obtain ⟨r, hr⟩ := running_of_ok hopen
  obtain ⟨L₁, -, hc₁, -⟩ := act_done hc (a := .syscall DSOS_CALL_SEMOPEN args) trivial hopen
  have h0 : 0 ≤ args.getD 2 0 % 2 ^ 32 := Int.emod_nonneg _ (by decide)
  have hcount : (k₁.semaphore s).count = args.getD 2 0 % 2 ^ 32 :=
    (created_count hc hr hopen hnew).trans (toInt_of_fits (by omega) (by omega))
  obtain ⟨L', hc', hbalanced, hnonneg⟩ := run_ledger hc₁ hlife
  have hpos : 0 ≤ (k'.semaphore s).count := hnonneg (by rw [hcount]; exact h0)
  have hpermits : (k₁.semaphore s).count + posts h = (k'.semaphore s).count + passed h :=
    hbalanced.permits
  rw [hcount] at hpermits
  refine ⟨hpermits, hpos, by omega, fun r d args k₂ hr hfd hact => ?_, ?_⟩
  · rw [Ne, semWait_runs_on hc' hr hfd hact]
    omega
  · exact ⟨_, _, waiters_view hc₁.tidy.strung, waiters_view hc'.tidy.strung, hbalanced.order⟩

/-! ## One life -/

/-- A test of `Existing` for the first semaphore in the list. -/
def existingFirst (s : Nat) (k : Kernel) (a : Action) : Bool :=
  decide (Ordinary a ∧ (k.head .semaphoresList).first = some ⟨.semaphore, s⟩)

theorem existing_of_first (k : Kernel) (a : Action) (h : existingFirst s k a = true) :
    Existing s k a := by
  obtain ⟨ha, hfirst⟩ := of_decide_eq_true h
  exact ⟨ha, linked_first hfirst⟩

theorem not_listed_of_empty (hc : Coherent k L) (hsize : (k.head .semaphoresList).size = 0) :
    ¬ Listed k s := by
  have hreg : Regular HeadAddr.semaphoresList.nodeKind := (by decide : Regular .semaphore)
  rw [listed_iff hc.tidy.strung]
  unfold ObjectListed objects
  rw [(hc.tidy.strung.size_zero_iff hreg).mp hsize]
  exact List.not_mem_nil

/-- A semaphore is created with one permit. Its creator takes it, blocks in the second call,
and is awakened by the other process. -/
theorem permits_conserved_one :
    ∃ k₀ k k₁ k' h, Started (fun _ => 0) k₀ ∧
      Run act (fun _ a => Ordinary a) k₀ [.syscall DSOS_CALL_SPAWN [0, 0]] k ∧
      k.act (.syscall DSOS_CALL_SEMOPEN [7, 1, 1]) = .ok k₁ ∧
      Run (withHistory act (watch 0)) (fun t a => Existing 0 t.1 a) (k₁, [])
        [.syscall DSOS_CALL_SEMWAIT [0], .syscall DSOS_CALL_SEMWAIT [0],
          .syscall DSOS_CALL_SEMOPEN [7, 0, 0], .syscall DSOS_CALL_SEMPOST [0]] (k', h) ∧
      (k'.head .readyList).first = some ⟨.pcb, 0⟩ ∧ Conserved k₁ 0 1 h k' := by
  obtain ⟨k₀, k, hs, hrun, htest⟩ := exists_run_from_start (fun _ a => Ordinary a)
    (fun _ a => decide (Ordinary a)) [.syscall DSOS_CALL_SPAWN [0, 0]]
    (fun k => (k.head .semaphoresList).size = 0 ∧
      (k.act (.syscall DSOS_CALL_SEMOPEN [7, 1, 1])).toOption.any fun k₁ =>
        (k₁.head .semaphoresList).first = some ⟨.semaphore, 0⟩ ∧
          (exec act (existingFirst 0) k₁ [.syscall DSOS_CALL_SEMWAIT [0],
            .syscall DSOS_CALL_SEMWAIT [0], .syscall DSOS_CALL_SEMOPEN [7, 0, 0],
            .syscall DSOS_CALL_SEMPOST [0]]).any fun k' =>
              (k'.head .readyList).first = some ⟨.pcb, 0⟩)
    (fun _ _ h => of_decide_eq_true h) (by decide +kernel)
  obtain ⟨hsize, hany⟩ := of_decide_eq_true htest
  obtain ⟨L, hc⟩ := coherent_run hs hrun
  obtain ⟨k₁, hopen, hfirst, hexec⟩ := exists_of_any hany
  obtain ⟨k', hk', hwoken⟩ := exists_run (Existing 0) existing_of_first hexec
  obtain ⟨h, hlife⟩ : ∃ h, Run (withHistory act (watch 0)) (fun t a => Existing 0 t.1 a) (k₁, [])
      _ (k', h) := exists_history hk' []
  exact ⟨k₀, k, k₁, k', h, hs, hrun, hopen, hlife, of_decide_eq_true hwoken,
    permits_conserved hs hrun hopen ⟨not_listed_of_empty hc hsize, linked_first hfirst⟩
      (by decide) hlife⟩

end DisastrOS.Semaphore.Ledger
