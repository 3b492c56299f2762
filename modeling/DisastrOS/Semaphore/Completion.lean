import DisastrOS.Process.Contexts

/-!
# Completion of the semaphore calls

`semWait` looks for the next process without a test, and `semPost` counts without a bound. Both
complete where there is a process to run next, and room for one more permit.
-/
namespace DisastrOS.Semaphore.Completion

open DisastrOS.Machine
open DisastrOS.Machine.Kernel
open DisastrOS.Lists.Sequences
open DisastrOS.Lists.Wiring
open DisastrOS.Lists.RegularLists
open DisastrOS.Descriptors.Bindings
open DisastrOS.Descriptors.Tables
open DisastrOS.Process.Coherence
open DisastrOS.Process.Contexts
open DisastrOS.Process.Handles
open DisastrOS.Process.Transitions
open DisastrOS.Process.View
open DisastrOS.MessageQueue.Calls
open DisastrOS.Semaphore.Calls
open DisastrOS.Library.Outcome

variable {k k' : Kernel} {L : HeadAddr → List Node} {l : HeadAddr} {t : Table} {r p d s : Nat}
  {fd : Int} {args : List Int}

theorem detachFirst_eq {x : Node} (hfirst : (k.head l).first = some x)
    (hkind : x.kind = l.nodeKind) : k.detachFirst l = .ok (x.idx, k.detach l x) := by
  have hcast : castTo l.nodeKind x = .ok x.idx := if_pos hkind
  unfold detachFirst
  rw [deref_eq_ok.mpr hfirst]
  simp only [bind, Except.bind, hcast]
  rfl

/-- The first item of a list that has not changed. -/
theorem detachFirst_completes (hs : Strung Regular Retained k L) (hl : Regular l.nodeKind)
    (hhead : k'.head l = k.head l) (hne : (k.head l).first ≠ none) :
    ∃ new, k'.detachFirst l = .ok new := by
  obtain ⟨x, hx⟩ := Option.ne_none_iff_exists'.mp hne
  have hm : x ∈ (L l).head? := by rwa [← hs.first_eq hl]
  exact ⟨_, detachFirst_eq (by rw [hhead, hx]) (hs.kind l x hl (List.mem_of_mem_head? hm))⟩

theorem boundTo_completes (hs : Strung Regular Retained k L) :
    ∃ found, k.boundTo t p fd = .ok found := by
  have hreg : Regular (HeadAddr.opened t p).nodeKind := regular_descriptorKind t
  unfold boundTo descriptorListByFd
  rw [hs.search_pure hreg]
  cases ((L (.opened t p)).map Node.idx).find? fun d => decide ((k.descriptor t d).fd = fd) with
  | none => exact ⟨_, rfl⟩
  | some d => exact ⟨_, rfl⟩

/-! ## Waiting -/

/-- Moving a pointer to the waiting ones leaves the ready list alone. -/
theorem blocked_ready (k : Kernel) (sem : Nat) (x : Node) :
    ((k.detach (.users .semaphore sem) x).append (.waitingDescriptors sem) x).head .readyList =
      k.head .readyList :=
  (insert_head _ _ _ (by simp)).trans (detach_head _ _ (by simp))

/-- A `semWait` that has to block needs a process that can run. -/
theorem semWait_completes (hs : Strung Regular Retained k L) (hr : k.running = some r)
    (hready : ∀ d s, SemFd k r d s → ¬ 0 < (k.semaphore s).count →
      (k.head .readyList).first ≠ none) :
    ∃ k', internalSemWait k = .ok k' := by
  unfold internalSemWait
  rw [deref_eq_ok.mpr hr]
  simp only [bind, Except.bind]
  split
  · exact ⟨_, rfl⟩
  next hin =>
  obtain ⟨found, hb⟩ : ∃ found, k.boundTo .semaphore r (toInt (k.arg r 0)) = .ok found :=
    boundTo_completes hs
  rw [hb]
  cases found with
  | none => exact ⟨_, rfl⟩
  | some bound =>
    obtain ⟨d, s⟩ := bound
    simp only
    split
    · exact ⟨_, rfl⟩
    next hcount =>
    split
    · exact ⟨_, rfl⟩
    · obtain ⟨new, hnew⟩ := detachFirst_completes hs (l := .readyList) regular_pcb
        (blocked_ready k s _) (hready d s ⟨hin, hb⟩ hcount)
      rw [hnew]
      exact ⟨_, rfl⟩

/-- A `semWait` on a valid file descriptor completes, unless it has to block and nobody is
ready. -/
theorem semWait_completes_iff (hc : Coherent k L) (hr : k.running = some r)
    (hfd : SemFd k r d s) : (∃ k', internalSemWait k = .ok k') ↔
      0 < (k.semaphore s).count ∨ (k.head .readyList).first ≠ none := by
  have hs := hc.tidy.strung
  constructor
  · rintro ⟨k', h⟩
    rcases semWait_cases hc hr h with ⟨hno, _⟩ | ⟨d', s', hfd', ⟨hcount, _⟩ |
      ⟨_, ptr, n, rest, _, hblocked⟩⟩
    · exact absurd hno hfd.not_noSemFd
    · obtain rfl := (hfd'.unique hfd).2
      exact .inl hcount
    · refine .inr ?_
      rw [hs.first_eq (l := .readyList) regular_pcb, hblocked.ready]
      exact Option.some_ne_none _
  · refine fun h => semWait_completes hs hr fun d' s' hfd' hcount => ?_
    obtain rfl := (hfd'.unique hfd).2
    exact h.resolve_left hcount

/-- Where there is a permit the caller runs on. -/
theorem wait_granted (hc : Coherent k L) (hr : k.running = some r)
    (hfd : ValidFd k r (toInt (args.getD 0 0)) d s) (hcount : 0 < (k.semaphore s).count) :
    ∃ k', k.act (.syscall DSOS_CALL_SEMWAIT args) = .ok k' ∧ k'.running = some r ∧
      (k'.pcb r).syscallRetvalue = 0 := by
  have hc₁ : Coherent (k.setCall r DSOS_CALL_SEMWAIT args) L := coherent_setCall hc hr
  have hfd₁ : SemFd (k.setCall r DSOS_CALL_SEMWAIT args) r d s := semFd_setCall (.inl rfl) hfd
  obtain ⟨k', hcall⟩ := (semWait_completes_iff hc₁ hr hfd₁).mpr (.inl hcount)
  have hruns : k'.running = some r ∧ (k'.pcb r).syscallRetvalue = 0 := by
    rcases semWait_cases hc₁ hr hcall with ⟨hno, _⟩ | ⟨d', s', hfd', hcases⟩
    · exact absurd hno hfd₁.not_noSemFd
    obtain ⟨rfl, rfl⟩ := hfd'.unique hfd₁
    rcases hcases with ⟨_, rfl⟩ | ⟨hnone, _⟩
    · exact ⟨hr, setRetvalue_self _ _ _⟩
    · exact absurd hcount hnone
  exact ⟨k', syscall_returns args rfl (by decide) (by decide) hr hcall hruns.1, hruns⟩

/-- Where there is no permit a call that completes has passed the processor on. -/
theorem wait_switched (hc : Coherent k L) (hr : k.running = some r)
    (hfd : ValidFd k r (toInt (args.getD 0 0)) d s) (hcount : ¬ 0 < (k.semaphore s).count)
    (hact : k.act (.syscall DSOS_CALL_SEMWAIT args) = .ok k') : HasNext k := by
  have hc₁ : Coherent (k.setCall r DSOS_CALL_SEMWAIT args) L := coherent_setCall hc hr
  have hfd₁ : SemFd (k.setCall r DSOS_CALL_SEMWAIT args) r d s := semFd_setCall (.inl rfl) hfd
  have hcall : internalSemWait (k.setCall r DSOS_CALL_SEMWAIT args) = .ok k' :=
    syscall_handled args rfl (by decide) (by decide) hr hact
  rcases semWait_cases hc₁ hr hcall with ⟨hno, _⟩ | ⟨d', s', hfd', hcases⟩
  · exact absurd hno hfd₁.not_noSemFd
  obtain ⟨rfl, rfl⟩ := hfd'.unique hfd₁
  rcases hcases with ⟨hsome, _⟩ | ⟨_, ptr, n, rest, _, hblocked⟩
  · exact absurd hsome hcount
  refine ⟨?_, nextHasContext_of_syscall hc rfl (by decide) (by decide) hr hact ?_⟩
  · rw [hc.tidy.strung.first_eq (l := .readyList) regular_pcb, hblocked.ready]
    exact Option.some_ne_none _
  · rw [hblocked.rest]
    show some n = ((L .readyList).map Node.idx).head?
    rw [hblocked.ready]
    rfl

theorem wait_completes_iff (hc : Coherent k L) (hctx : ContextsMade (view k L))
    (hr : k.running = some r) (hfd : ValidFd k r (toInt (args.getD 0 0)) d s) :
    (∃ k', k.act (.syscall DSOS_CALL_SEMWAIT args) = .ok k') ↔
      0 < (k.semaphore s).count ∨ HasNext k := by
  by_cases hcount : 0 < (k.semaphore s).count
  · refine iff_of_true ?_ (.inl hcount)
    obtain ⟨k', hact, -⟩ := wait_granted hc hr hfd hcount
    exact ⟨k', hact⟩
  rw [or_iff_right hcount]
  refine ⟨fun ⟨k', hact⟩ => wait_switched hc hr hfd hcount hact, fun ⟨hready, hnext⟩ => ?_⟩
  have hc₁ : Coherent (k.setCall r DSOS_CALL_SEMWAIT args) L := coherent_setCall hc hr
  have hfd₁ : SemFd (k.setCall r DSOS_CALL_SEMWAIT args) r d s := semFd_setCall (.inl rfl) hfd
  obtain ⟨k', hcall⟩ := (semWait_completes_iff hc₁ hr hfd₁).mpr (.inr hready)
  exact ⟨k', syscall_switches hc hctx hnext rfl (by decide) (by decide) hr hcall⟩

/-! ## Posting -/

/-- The first waiter leads to a descriptor. -/
theorem first_waiter (hc : Coherent k L) {x : Node} {rest : List Node}
    (hL : L (.waitingDescriptors s) = x :: rest) :
    ∃ d, k.descriptorPtr .semaphore x.idx = some d := by
  have hm : x ∈ L (.waitingDescriptors s) := by
    rw [hL]
    exact List.mem_cons_self
  obtain ⟨p, _, hwaiter, _⟩ := hc.sound.awaiting.blocked s (waiterOf k x.idx)
    (List.mem_map.mpr ⟨x, hm, rfl⟩)
  unfold waiterOf at hwaiter
  obtain ⟨d, hd, _⟩ := Option.bind_eq_some_iff.mp hwaiter
  exact ⟨d, hd⟩

/-- Only the count can overflow. -/
theorem semPost_completes (hc : Coherent k L) (hr : k.running = some r)
    (hroom : ∀ d s, SemFd k r d s → ∃ n, addInt (k.semaphore s).count 1 = .ok n) :
    ∃ k', internalSemPost k = .ok k' := by
  have hs := hc.tidy.strung
  unfold internalSemPost
  rw [deref_eq_ok.mpr hr]
  simp only [bind, Except.bind]
  split
  · exact ⟨_, rfl⟩
  next hin =>
  obtain ⟨found, hb⟩ : ∃ found, k.boundTo .semaphore r (toInt (k.arg r 0)) = .ok found :=
    boundTo_completes hs
  rw [hb]
  cases found with
  | none => exact ⟨_, rfl⟩
  | some bound =>
    obtain ⟨d, s⟩ := bound
    obtain ⟨n, hn⟩ := hroom d s ⟨hin, hb⟩
    simp only [hn]
    split
    · split
      · next hsize =>
        -- somebody waits, who is awakened
        have hreg := regular_waitingDescriptors s
        have hsize : (k.head (.waitingDescriptors s)).size ≠ 0 := hsize
        have hfirst := hs.first_eq (l := .waitingDescriptors s) hreg
        cases hL : L (.waitingDescriptors s) with
        | nil => exact absurd ((hs.size_zero_iff (l := .waitingDescriptors s) hreg).mpr hL) hsize
        | cons x rest =>
          rw [hL, List.head?_cons] at hfirst
          have hkind := hs.kind (.waitingDescriptors s) x hreg (by rw [hL]; exact List.mem_cons_self)
          obtain ⟨d', hback⟩ := first_waiter hc hL
          generalize hk₁ : Kernel.modSemaphore _ s _ = k₁
          have hfirst₁ : (k₁.head (.waitingDescriptors s)).first = some x := hk₁ ▸ hfirst
          have hback₁ : k₁.descriptorPtr .semaphore x.idx = some d' := hk₁ ▸ hback
          rw [detachFirst_eq hfirst₁ hkind]
          have hback₂ : (k₁.detach (.waitingDescriptors s) x).descriptorPtr .semaphore x.idx =
            some d' := hback₁
          simp only [deref_eq_ok.mpr hback₂]
          split
          · exact ⟨_, rfl⟩
          · exact ⟨_, rfl⟩
      · exact ⟨_, rfl⟩
    · exact ⟨_, rfl⟩

theorem semPost_overflow (hr : k.running = some r) (hfd : SemFd k r d s)
    (hover : addInt (k.semaphore s).count 1 = .error .signedOverflow) :
    internalSemPost k = .error .signedOverflow := by
  unfold internalSemPost
  rw [deref_eq_ok.mpr hr]
  simp only [bind, Except.bind]
  rw [if_neg hfd.inBounds, hfd.bound]
  simp only [hover]

/-- A `semPost` on a valid file descriptor completes, unless the count overflows. -/
theorem semPost_completes_iff (hc : Coherent k L) (hr : k.running = some r)
    (hfd : SemFd k r d s) : (∃ k', internalSemPost k = .ok k') ↔
      ∃ n, addInt (k.semaphore s).count 1 = .ok n := by
  constructor
  · rintro ⟨k', h⟩
    cases hsum : addInt (k.semaphore s).count 1 with
    | ok n => exact ⟨n, rfl⟩
    | error e =>
      unfold addInt at hsum
      split at hsum
      · cases hsum
      · next hno =>
        rw [semPost_overflow hr hfd (if_neg hno)] at h
        cases h
  · refine fun h => semPost_completes hc hr fun d' s' hfd' => ?_
    obtain rfl := (hfd'.unique hfd).2
    exact h

theorem post_completes_iff (hc : Coherent k L) (hr : k.running = some r)
    (hfd : ValidFd k r (toInt (args.getD 0 0)) d s) :
    (∃ k', k.act (.syscall DSOS_CALL_SEMPOST args) = .ok k') ↔
      ∃ n, addInt (k.semaphore s).count 1 = .ok n := by
  have hcall : k.act (.syscall DSOS_CALL_SEMPOST args) =
      internalSemPost (k.setCall r DSOS_CALL_SEMPOST args) :=
    syscall_direct hc rfl (by decide) (by decide) (by decide) hr args
  rw [hcall]
  exact semPost_completes_iff (coherent_setCall hc hr) hr (semFd_setCall (.inr rfl) hfd)

/-! ## Closing -/

/-- An empty list has no ends. -/
theorem freeUnused_completes {kind : Kind} {i : Nat} (hs : Strung Regular Retained k L)
    (hl : Regular l.nodeKind) (hsize : (k.head l).size = 0) (hhead : k'.head l = k.head l) :
    ∃ k₁, k'.freeUnused l kind i = .ok k₁ := by
  have hnil := (hs.size_zero_iff hl).mp hsize
  have hends : (k'.head l).first = none ∧ (k'.head l).last = none := by
    rw [hhead, hs.first_eq hl, hs.last_eq hl, hnil]
    exact ⟨rfl, rfl⟩
  unfold freeUnused
  rw [if_pos hends]
  exact ⟨_, rfl⟩

theorem semClose_completes (hc : Coherent k L) (hr : k.running = some r) :
    ∃ k', internalSemClose k = .ok k' := by
  have hs := hc.tidy.strung
  unfold internalSemClose
  refine completes_bind ⟨r, deref_eq_ok.mpr hr⟩ fun r' hr' => ?_
  obtain rfl : r = r' := Option.some.inj (hr.symm.trans (deref_eq_ok.mp hr'))
  simp only
  split
  · exact ⟨_, rfl⟩
  refine completes_bind (boundTo_completes hs) fun found hb => ?_
  cases found with
  | none => exact ⟨_, rfl⟩
  | some bound =>
    obtain ⟨d, s⟩ := bound
    obtain ⟨hm, _, ho⟩ := boundTo_listed hs hb
    obtain ⟨ptr, hptr, _, hu, _⟩ := Coherent.pointer_listed hc hr hm ho
    have hrem := unlist_removed hs (regular_descriptorKind .semaphore)
      (regular_pointerKind .semaphore) hm hu
    simp only [closeDescriptor_eq hptr]
    split
    · next hsize =>
      refine completes_bind (freeUnused_completes (l := .users .semaphore s) hrem.strung
        (regular_pointerKind .semaphore) hsize ?_) fun _ _ => ⟨_, rfl⟩
      exact detach_head _ _ (by simp)
    · exact ⟨_, rfl⟩

end DisastrOS.Semaphore.Completion
