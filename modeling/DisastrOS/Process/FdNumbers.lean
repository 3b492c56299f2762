import DisastrOS.Process.FdCalls

/-!
# The numbers of semaphore and message queue descriptors

A new descriptor gets the number of descriptors that its process has counted, and a close
counts down. The numbers stay different, and each stands for its descriptor, as long as no open
descriptor has the number that is given out next and no negative number is given out.
-/
namespace DisastrOS.Process.FdNumbers

open DisastrOS.Machine
open DisastrOS.Machine.Kernel
open DisastrOS.Machine.Runs
open DisastrOS.Lists.Sequences
open DisastrOS.Lists.Wiring
open DisastrOS.Lists.RegularLists
open DisastrOS.Pool.Blocks
open DisastrOS.Process.Coherence
open DisastrOS.Process.FdCalls
open DisastrOS.Process.FdTables
open DisastrOS.Process.FreshStart
open DisastrOS.Process.OpenHandles
open DisastrOS.Process.SystemRuns
open DisastrOS.Process.Transitions
open DisastrOS.Process.View
open DisastrOS.Library.GuardedRun
open DisastrOS.Library.LinkedSequence

variable {k k' : Kernel} {L L' : HeadAddr → List Node} {t : Table} {p : Nat} {a : Action}

/-- The open descriptors of `p` have different numbers, and each is found under its number. -/
def Unambiguous (t : Table) (k : Kernel) (p : Nat) : Prop :=
  ∃ ds : List Nat, Holds k.lists (.opened t p) (ds.map (Node.mk t.descriptorKind)) ∧
    (ds.map fun d => (k.descriptor t d).fd).Nodup ∧
    ∀ d ∈ ds, k.descriptorListByFd t (.opened t p) (k.descriptor t d).fd = .ok (some d)

/-- Whoever calls for a descriptor counts a number that is not negative, and has none open with
this number. -/
def NumberFree (t : Table) (k : Kernel) (a : Action) : Prop :=
  ∀ p, Opening t k a p → 0 ≤ (k.pcb p).fdCounter t ∧
    ∀ d, Linked k (.opened t p) ⟨t.descriptorKind, d⟩ →
      (k.descriptor t d).fd ≠ (k.pcb p).fdCounter t

/-- The number that an open call of `p` returns is that of a new descriptor, and the calls of `p`
with it act on this descriptor until `p` closes it or exits. -/
def StandsForNew (t : Table) (k : Kernel) (p : Nat) : Prop :=
  ∀ args k₁, k.running = some p → NumberFree t k (.syscall (openCall t) args) →
    k.act (.syscall (openCall t) args) = .ok k₁ → 0 ≤ (k₁.pcb p).syscallRetvalue →
      ∃ d o, ¬ Allocated k t.descriptorKind d ∧ ∀ bs k₂,
        Run act (fun k a => Ordinary a ∧ ¬ GivesUp t p (k₁.pcb p).syscallRetvalue k a) k₁ bs k₂ →
          k₂.running = some p → ActsOn t k₂ p (k₁.pcb p).syscallRetvalue d o

theorem next_free (hs : Strung Regular Retained k L) (h : NumberFree t k a) (ha : Opening t k a p) :
    (fdTable t k L p).next ∉ (fdTable t k L p).fds := by
  have hreg : Regular (HeadAddr.opened t p).nodeKind := regular_descriptorKind t
  intro hm
  obtain ⟨x, hx, hfd⟩ := List.mem_map.mp hm
  rw [hs.node_eq hreg hx] at hx
  exact (h p ha).2 x.idx ((hs.linked_iff hreg).mpr hx) hfd

theorem nodup_step {opens : Prop} {s s' : FdTable} (h : s.fds.Nodup) (hfree : opens → s.next ∉ s.fds)
    (hstep : FdStep t opens s s') : s'.fds.Nodup := by
  cases hstep with
  | kept => exact h
  | opened ho =>
    rw [List.nodup_append]
    refine ⟨h, List.nodup_singleton _, fun i hi j hj he => ?_⟩
    rw [List.mem_singleton] at hj
    exact hfree ho (hj ▸ he ▸ hi)
  | closed as fd bs next =>
    exact ((List.sublist_cons_self fd bs).append_left as).nodup h

/-- The semaphores that a dead process has left behind have different numbers, too. -/
theorem nodup_acted (ht : t ≠ .resource) (hc : Coherent k L) (hn : ∀ p, (fdTable t k L p).fds.Nodup)
    (hfree : NumberFree t k a) (h : Acted k L a k' L') (p : Nat) :
    (fdTable t k' L' p).fds.Nodup := by
  cases fdMoved_acted (t := t) (p := p) hc h with
  | old _ hstep => exact nodup_step (hn p) (next_free hc.tidy.strung hfree) hstep
  | new _ heq =>
    rw [heq]
    by_cases hsem : t = .semaphore
    · rw [if_pos hsem]
      exact hn p
    · rw [if_neg hsem]
      exact List.nodup_nil
  | freed he => exact absurd he ht

theorem unambiguous_of_nodup (hs : Strung Regular Retained k L)
    (hn : (fdTable t k L p).fds.Nodup) : Unambiguous t k p := by
  have hreg : Regular (HeadAddr.opened t p).nodeKind := regular_descriptorKind t
  have hn : (((L (.opened t p)).map Node.idx).map fun d => (k.descriptor t d).fd).Nodup := by
    rw [List.map_map]
    exact hn
  refine ⟨(L (.opened t p)).map Node.idx, ?_, hn, fun d hd => ?_⟩
  · exact hs.holds_idx hreg
  · unfold descriptorListByFd
    rw [hs.search_pure hreg, Except.ok.injEq]
    cases hfind : ((L (.opened t p)).map Node.idx).find? fun i =>
        decide ((k.descriptor t i).fd = (k.descriptor t d).fd) with
    | none =>
      have hno := List.find?_eq_none.mp hfind d hd
      exact absurd (decide_eq_true rfl) hno
    | some i =>
      have hi := List.mem_of_find?_eq_some hfind
      have hfd := List.find?_some hfind
      have hfd := of_decide_eq_true hfd
      rw [List.inj_on_of_nodup_map hn hi hd hfd]

theorem standsForNew_of_coherent (ht : t ≠ .resource) (hc : Coherent k L) :
    StandsForNew t k p := by
  intro args k₁ hr hfree hact hret
  have hnext := next_free hc.tidy.strung hfree ⟨hr, args, rfl⟩
  obtain ⟨hquota, d, o, hfresh, hb⟩ := opened_bound ht hc hr hnext hact hret
  have hordinary : Ordinary (.syscall (openCall t) args) := trivial
  obtain ⟨L₁, -, hc₁, hstep⟩ := act_done hc hordinary hact
  have hlives : LivesOn (view k₁ L₁) p := livesOn_step (livesOn_running hc.sound hr) hstep
    fun _ args' he => by cases t <;> cases he
  refine ⟨d, o, hfresh, fun bs k₂ hrun hr₂ => ?_⟩
  obtain ⟨L₂, hc₂, -, hb₂⟩ := boundTo_run hc₁ hlives hb hrun
  exact actsOn_of_bound ht hc₂ hr₂ ⟨hret, hquota⟩ hb₂

/-- In every state of a run in which no number is given out that is negative or still in use, the
numbers are unambiguous, and the next one stands for its descriptor. -/
theorem fds_unambiguous {mem : Int → UInt8} {k₀ : Kernel} {as : List Action} (ht : t ≠ .resource)
    (hs : Started mem k₀)
    (h : Run act (fun k a => Ordinary a ∧ NumberFree t k a) k₀ as k) (p : Nat) :
    Unambiguous t k p ∧ StandsForNew t k p := by
  obtain ⟨L, hc, hn⟩ := run_coherent (I := fun k L => ∀ p, (fdTable t k L p).fds.Nodup)
    (fun _ _ ha => ha.1) (fun _ _ hb p => by rw [fdTable_booted hb p]; exact List.nodup_nil)
    (fun _ _ _ _ _ hc hn ha hact _ _ => nodup_acted ht hc hn ha.2 hact) hs h
  exact ⟨unambiguous_of_nodup hc.tidy.strung (hn p), standsForNew_of_coherent ht hc⟩

/-- The first process has at most one descriptor open, which has another number than the next. -/
def OneAtMost (t : Table) (k : Kernel) : Prop :=
  k.running = some 0 ∧ 0 ≤ (k.pcb 0).fdCounter t ∧ ((k.head (.opened t 0)).first = none ∨
    ∃ x ∈ (k.head (.opened t 0)).first, (k.lists.item x).next = none ∧
      (k.descriptor t x.idx).fd ≠ (k.pcb 0).fdCounter t)

instance : Decidable (OneAtMost t k) := inferInstanceAs (Decidable (_ ∧ _ ∧ _))

theorem OneAtMost.numberFree (h : OneAtMost t k) : NumberFree t k a := by
  obtain ⟨hr, hcounter, hlist⟩ := h
  intro p hopening
  obtain rfl : p = 0 := Option.some.inj (hopening.1.symm.trans hr)
  refine ⟨hcounter, fun d hlinked => ?_⟩
  obtain ⟨n, hn⟩ := hlinked
  rcases hlist with hnone | ⟨x, hfirst, hnext, hne⟩
  · rw [hnone, follow_none] at hn
    cases hn
  · rw [Option.mem_def] at hfirst
    rw [hfirst] at hn
    cases n with
    | zero =>
      obtain rfl := Option.some.inj hn
      exact hne
    | succ n =>
      have hn : follow k.lists.item n (k.lists.item x).next = some ⟨t.descriptorKind, d⟩ := hn
      rw [hnext, follow_none] at hn
      cases hn

/-- One semaphore is opened twice. -/
theorem fds_unambiguous_twice :
    ∃ k₀ k k₁ d o, Started (fun _ => 0) k₀ ∧
      Run act (fun k a => Ordinary a ∧ NumberFree .semaphore k a) k₀
        [.syscall DSOS_CALL_SEMOPEN [7, 1, 0]] k ∧ Unambiguous .semaphore k 0 ∧
      k.act (.syscall DSOS_CALL_SEMOPEN [7, 0, 0]) = .ok k₁ ∧ (k₁.pcb 0).syscallRetvalue = 1 ∧
      (k₁.head (.opened .semaphore 0)).size = 2 ∧ ActsOn .semaphore k₁ 0 1 d o := by
  obtain ⟨k₀, k, hs, h, htest⟩ := exists_run_from_start
    (fun k a => Ordinary a ∧ NumberFree .semaphore k a)
    (fun k a => decide (Ordinary a ∧ OneAtMost .semaphore k))
    [.syscall DSOS_CALL_SEMOPEN [7, 1, 0]]
    (fun k => OneAtMost .semaphore k ∧
      (k.act (.syscall DSOS_CALL_SEMOPEN [7, 0, 0])).toOption.any fun k₁ =>
        k₁.running = some 0 ∧ (k₁.pcb 0).syscallRetvalue = 1 ∧
          (k₁.head (.opened .semaphore 0)).size = 2)
    (fun _ _ h => ⟨(of_decide_eq_true h).1, (of_decide_eq_true h).2.numberFree⟩)
    (by decide +kernel)
  obtain ⟨hone, hany⟩ := of_decide_eq_true htest
  obtain ⟨k₁, hact, hr₁, hret, hsize⟩ := exists_of_any hany
  obtain ⟨hunambiguous, hstands⟩ := fds_unambiguous (by decide) hs h 0
  obtain ⟨d, o, -, hacts⟩ := hstands _ k₁ hone.1 hone.numberFree hact (by omega)
  have hnow := hacts [] k₁ (.nil _) hr₁
  rw [hret] at hnow
  exact ⟨k₀, k, k₁, d, o, hs, h, hunambiguous, hact, hret, hsize, hnow⟩

/-- Two descriptors that both have the number 1. -/
theorem fd_given_twice :
    ∃ k₀ k, Started (fun _ => 0) k₀ ∧
      Run act (fun _ a => Ordinary a) k₀
        [.syscall DSOS_CALL_SEMOPEN [7, 1, 0], .syscall DSOS_CALL_SEMOPEN [7, 0, 0],
          .syscall DSOS_CALL_SEMCLOSE [0], .syscall DSOS_CALL_SEMOPEN [7, 0, 0]] k ∧
      k.running = some 0 ∧ ¬ Unambiguous .semaphore k 0 := by
  obtain ⟨k₀, k, hs, h, htest⟩ := exists_run_from_start (fun _ a => Ordinary a)
    (fun _ a => decide (Ordinary a))
    [.syscall DSOS_CALL_SEMOPEN [7, 1, 0], .syscall DSOS_CALL_SEMOPEN [7, 0, 0],
      .syscall DSOS_CALL_SEMCLOSE [0], .syscall DSOS_CALL_SEMOPEN [7, 0, 0]]
    (fun k => k.running = some 0 ∧
      (k.head (.opened .semaphore 0)).first = some ⟨.semDescriptor, 1⟩ ∧
      (k.lists.item ⟨.semDescriptor, 1⟩).next = some ⟨.semDescriptor, 0⟩ ∧
      (k.descriptor .semaphore 1).fd = (k.descriptor .semaphore 0).fd)
    (fun _ _ h => of_decide_eq_true h) (by decide +kernel)
  obtain ⟨hr, hfirst, hnext, hfd⟩ := of_decide_eq_true htest
  refine ⟨k₀, k, hs, h, hr, ?_⟩
  rintro ⟨ds, hholds, hn, -⟩
  have hwalk := represents_follow hholds
  have h₀ : (ds.map (Node.mk .semDescriptor))[0]? = some ⟨.semDescriptor, 1⟩ :=
    (hwalk 0).symm.trans hfirst
  have h₁ : (ds.map (Node.mk .semDescriptor))[1]? = some ⟨.semDescriptor, 0⟩ := by
    refine (hwalk 1).symm.trans ?_
    show (Option.bind (k.head (.opened .semaphore 0)).first fun y => (k.lists.item y).next) = _
    rw [hfirst]
    exact hnext
  rw [List.getElem?_map, Option.map_eq_some_iff] at h₀ h₁
  obtain ⟨d₀, hd₀, he₀⟩ := h₀
  obtain ⟨d₁, hd₁, he₁⟩ := h₁
  cases he₀
  cases he₁
  have hinj := List.inj_on_of_nodup_map hn (List.mem_of_getElem? hd₀) (List.mem_of_getElem? hd₁) hfd
  exact absurd hinj (by decide)

end DisastrOS.Process.FdNumbers
