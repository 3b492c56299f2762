import DisastrOS.Process.Contexts
import DisastrOS.Process.Resumption
import DisastrOS.Process.SystemRuns

/-!
# What `wait` answers

The scan of `internal_wait` ends with the last child when it has not met the awaited one,
and the handler goes on with that child. So the answer is right when the argument is the
pid of a child or 0. Without a zombie the caller blocks if another process is ready.
-/
namespace DisastrOS.Process.WaitAnswers

open DisastrOS.Machine
open DisastrOS.Machine.Kernel
open DisastrOS.Machine.Runs
open DisastrOS.Lists.Sequences
open DisastrOS.Lists.Wiring
open DisastrOS.Lists.RegularLists
open DisastrOS.Lists.Boot
open DisastrOS.Pool.Blocks
open DisastrOS.Process.Table
open DisastrOS.Process.Steps
open DisastrOS.Process.View
open DisastrOS.Process.Coherence
open DisastrOS.Process.Contexts
open DisastrOS.Process.Kinship
open DisastrOS.Process.Scheduling
open DisastrOS.Process.Waiting
open DisastrOS.Process.Resumption
open DisastrOS.Process.Transitions
open DisastrOS.Process.SystemRuns
open DisastrOS.MessageQueue.Calls
open DisastrOS.Library.LinkedSequence
open DisastrOS.Library.GuardedRun
open DisastrOS.Library.Outcome

variable {k k' : Kernel} {L L' : HeadAddr → List Node} {r ptr c : Nat} {pid result : Int}

/-! ## What the caller is promised -/

/-- `wait(pid)` has nobody to wait for. -/
def NoSuchChild (k : Kernel) (r : Nat) (pid : Int) : Prop :=
  (∀ c, ¬ ChildOf k r c) ∨ (0 < pid ∧ ∀ c, ChildOf k r c → (k.pcb c).pid ≠ pid)

/-- The zombie `c`, linked by `ptr`, is the child with the pid, or for 0 the first zombie in
the list of children. -/
structure Reapable (k : Kernel) (r : Nat) (pid : Int) (ptr c : Nat) : Prop where
  listed : ∃ as bs, Holds k.lists (.children r) (as ++ ⟨.pcbPtr, ptr⟩ :: bs) ∧
    (pid = 0 → ∀ x ∈ as, ∀ d, k.pcbPtr x.idx = some d → (k.pcb d).status ≠ .Zombie)
  linked : k.pcbPtr ptr = some c
  zombie : (k.pcb c).status = .Zombie
  named : pid ≠ 0 → (k.pcb c).pid = pid

/-- Exactly the child `c` is gone, and its pid and exit value have been returned. -/
structure Reaped (k : Kernel) (r ptr c : Nat) (result : Int) (k' : Kernel) : Prop where
  children : ∀ xs, Holds k.lists (.children r) xs →
    Holds k'.lists (.children r) (xs.erase ⟨.pcbPtr, ptr⟩)
  zombies : ∀ xs, Holds k.lists .zombieList xs → Holds k'.lists .zombieList (xs.erase ⟨.pcb, c⟩)
  others : ∀ l xs, ProcessHead l → l ≠ .children r → l ≠ .zombieList → Holds k.lists l xs →
    Holds k'.lists l xs
  freed : ∀ kind i, Allocated k' kind i ↔
    ¬ (kind = .pcb ∧ i = c) ∧ ¬ (kind = .pcbPtr ∧ i = ptr) ∧ Allocated k kind i
  answered : k'.pcb = Function.update k.pcb r { k.pcb r with syscallRetvalue := (k.pcb c).pid }
  stored : k.storeResult result (k.pcb c).returnValue = .ok { k with mem := k'.mem }
  running : k'.running = k.running

/-- When `r` leaves the waiting list, a child exits that it waits for, and `r` runs with the
pid and the exit value of that child. -/
def ResumedByChild (k₁ : Kernel) (r : Nat) (pid result : Int) : Prop :=
  ∀ as k₂ a k₃, Run act (fun k a => Ordinary a ∧ Blocked k r) k₁ as k₂ → Blocked k₂ r →
    Ordinary a → k₂.act a = .ok k₃ → ¬ Blocked k₃ r →
    ∃ c args, a = .syscall DSOS_CALL_EXIT args ∧ k₂.running = some c ∧ ChildOf k₂ r c ∧
      (pid = 0 ∨ (k₂.pcb c).pid = pid) ∧ k₃.running = some r ∧
      (k₃.pcb r).syscallRetvalue = (k₂.pcb c).pid ∧
      k₂.storeResult result (toInt (args.getD 0 0)) = .ok { k₂ with mem := k₃.mem }

/-- `r` is at the end of the waiting list, and another process runs. -/
structure BlocksFor (k : Kernel) (r : Nat) (pid result : Int) (k' : Kernel) : Prop where
  status : (k'.pcb r).status = .Waiting
  waiting : ∃ ws : List Nat, Holds k.lists .waitingList (ws.map (Node.mk .pcb)) ∧
    Holds k'.lists .waitingList ((ws ++ [r]).map (Node.mk .pcb))
  running : k'.running ≠ some r
  resumed : ResumedByChild k' r pid result

/-- The call refuses, reaps the child asked for, or blocks. -/
def AnswersWait (k : Kernel) (r : Nat) (pid result : Int) : Prop :=
  ∃ k', k.act (.syscall DSOS_CALL_WAIT [pid, result]) = .ok k' ∧
    (NoSuchChild k r pid →
      k' = (k.setCall r DSOS_CALL_WAIT [pid, result]).setRetvalue r DSOS_EWAIT) ∧
    (∀ ptr c, Reapable k r pid ptr c →
      Reaped (k.setCall r DSOS_CALL_WAIT [pid, result]) r ptr c result k') ∧
    (¬ NoSuchChild k r pid → (∀ ptr c, ¬ Reapable k r pid ptr c) → BlocksFor k r pid result k')

/-- The caller has children, but none with the pid it names. -/
def Mistaken (k : Kernel) (r : Nat) (pid : Int) : Prop :=
  (∃ c, ChildOf k r c) ∧ 0 < pid ∧ ∀ c, ChildOf k r c → (k.pcb c).pid ≠ pid

/-- The caller must block, and there is no process to run next. -/
def Stranded (k : Kernel) (r : Nat) (pid : Int) : Prop :=
  ¬ NoSuchChild k r pid ∧ (∀ ptr c, ¬ Reapable k r pid ptr c) ∧ ¬ HasNext k

/-! ## The scan -/

/-- The scan stops at `c`. -/
def Wanted (k : Kernel) (pid : Int) (c : Nat) : Prop :=
  (pid = 0 ∧ (k.pcb c).status = .Zombie) ∨ (pid ≠ 0 ∧ (k.pcb c).pid = pid)

instance (k : Kernel) (pid : Int) (c : Nat) : Decidable (Wanted k pid c) :=
  inferInstanceAs (Decidable (_ ∨ _))

/-- The scan looks at a child. -/
theorem awaitedChild_cons {fuel : Nat} {as bs : List Node} {last : Option (Nat × Nat)}
    (hs : Strung Regular Retained k L) (hL : L (.children r) = as ++ ⟨.pcbPtr, ptr⟩ :: bs)
    (hptr : k.pcbPtr ptr = some c) :
    k.awaitedChild pid (fuel + 1) (some ⟨.pcbPtr, ptr⟩) last =
      if Wanted k pid c then .ok (some (ptr, c))
      else k.awaitedChild pid fuel bs.head? (some (ptr, c)) := by
  have hholds := hs.holds (l := .children r) (regular_children r)
  rw [hL] at hholds
  have hnext : (k.lists.item ⟨.pcbPtr, ptr⟩).next = bs.head? := by rw [cell_of_split hholds]
  conv_lhs => unfold awaitedChild
  simp only [castTo, if_true, hptr, deref, bind, Except.bind, hnext, pure, Except.pure]
  by_cases h₁ : pid = 0 ∧ (k.pcb c).status = .Zombie
  · have hw : Wanted k pid c := .inl h₁
    rw [if_pos h₁, if_pos hw]
  rw [if_neg h₁]
  by_cases h₂ : pid ≠ 0 ∧ (k.pcb c).pid = pid
  · have hw : Wanted k pid c := .inr h₂
    rw [if_pos h₂, if_pos hw]
  · have hw : ¬ Wanted k pid c := not_or.mpr ⟨h₁, h₂⟩
    rw [if_neg h₂, if_neg hw]

/-- Children are known processes. -/
theorem child_known (hc : Coherent k L) {x : Node} (hx : x ∈ L (.children r)) :
    x = ⟨.pcbPtr, x.idx⟩ ∧ ∃ c, k.pcbPtr x.idx = some c := by
  obtain ⟨c, he, _⟩ := hc.sound.family.child r (k.pcbPtr x.idx) (List.mem_map_of_mem hx)
  exact ⟨hc.tidy.strung.node_eq (l := .children r) (regular_children r) hx, c, he⟩

/-- The scan stops at the first child it wants. -/
theorem awaitedChild_stops {fuel : Nat} {as ys bs : List Node} {last : Option (Nat × Nat)}
    (hc : Coherent k L) (hL : L (.children r) = as ++ (ys ++ ⟨.pcbPtr, ptr⟩ :: bs))
    (hptr : k.pcbPtr ptr = some c) (hw : Wanted k pid c)
    (hys : ∀ y ∈ ys, ∀ d, k.pcbPtr y.idx = some d → ¬ Wanted k pid d)
    (hfuel : ys.length < fuel) :
    k.awaitedChild pid fuel (ys ++ ⟨.pcbPtr, ptr⟩ :: bs).head? last = .ok (some (ptr, c)) := by
  induction fuel generalizing as ys last with
  | zero => omega
  | succ fuel ih =>
    cases ys with
    | nil =>
      rw [List.nil_append, List.head?_cons, awaitedChild_cons hc.tidy.strung hL hptr, if_pos hw]
    | cons y ys =>
      have hm : y ∈ L (.children r) := by rw [hL]; simp
      obtain ⟨hy, d, hd⟩ := child_known hc hm
      have hno : ¬ Wanted k pid d := hys y List.mem_cons_self d hd
      rw [hy] at hL ⊢
      rw [List.cons_append] at hL
      rw [List.cons_append, List.head?_cons, awaitedChild_cons hc.tidy.strung hL hd, if_neg hno]
      have hL' : L (.children r) = (as ++ [⟨.pcbPtr, y.idx⟩]) ++ (ys ++ ⟨.pcbPtr, ptr⟩ :: bs) := by
        rw [hL, List.append_assoc, List.singleton_append]
      rw [List.length_cons] at hfuel
      exact ih hL' (fun z hz => hys z (List.mem_cons_of_mem _ hz)) (by omega)

/-- The scan ends with the last child when it wants none. -/
theorem awaitedChild_passes {fuel : Nat} {as ys : List Node} {last : Option (Nat × Nat)}
    (hc : Coherent k L) (hL : L (.children r) = as ++ ys)
    (hys : ∀ y ∈ ys, ∀ d, k.pcbPtr y.idx = some d → ¬ Wanted k pid d)
    (hfuel : ys.length < fuel) :
    ∃ res, k.awaitedChild pid fuel ys.head? last = .ok res ∧
      (res = last ∨ ∃ ptr c, ⟨.pcbPtr, ptr⟩ ∈ ys ∧ k.pcbPtr ptr = some c ∧ res = some (ptr, c)) := by
  induction fuel generalizing as ys last with
  | zero => omega
  | succ fuel ih =>
    cases ys with
    | nil => exact ⟨last, rfl, .inl rfl⟩
    | cons y ys =>
      have hm : y ∈ L (.children r) := by rw [hL]; simp
      obtain ⟨hy, d, hd⟩ := child_known hc hm
      have hno : ¬ Wanted k pid d := hys y List.mem_cons_self d hd
      rw [hy] at hL ⊢
      rw [List.head?_cons, awaitedChild_cons hc.tidy.strung hL hd, if_neg hno]
      have hL' : L (.children r) = (as ++ [⟨.pcbPtr, y.idx⟩]) ++ ys := by
        rw [hL, List.append_assoc, List.singleton_append]
      rw [List.length_cons] at hfuel
      obtain ⟨res, hscan, hres⟩ :=
        @ih _ ys (some (y.idx, d)) hL' (fun z hz => hys z (List.mem_cons_of_mem _ hz)) (by omega)
      refine ⟨res, hscan, .inr ?_⟩
      rcases hres with rfl | ⟨ptr, c, hptr, hlinked, rfl⟩
      · exact ⟨y.idx, d, List.mem_cons_self, hd, rfl⟩
      · exact ⟨ptr, c, List.mem_cons_of_mem _ hptr, hlinked, rfl⟩

/-- Some child is wanted first, or none is wanted. -/
theorem wanted_or_none (hc : Coherent k L) (pid : Int) (r : Nat) :
    (∃ ys bs ptr c, L (.children r) = ys ++ ⟨.pcbPtr, ptr⟩ :: bs ∧ k.pcbPtr ptr = some c ∧
      Wanted k pid c ∧ ∀ y ∈ ys, ∀ d, k.pcbPtr y.idx = some d → ¬ Wanted k pid d) ∨
    ∀ y ∈ L (.children r), ∀ d, k.pcbPtr y.idx = some d → ¬ Wanted k pid d := by
  have hknown : ∀ x ∈ L (.children r), x = ⟨.pcbPtr, x.idx⟩ ∧ ∃ c, k.pcbPtr x.idx = some c :=
    fun x hx => child_known hc hx
  generalize L (.children r) = xs at hknown ⊢
  induction xs with
  | nil => exact .inr fun _ hy => nomatch hy
  | cons x xs ih =>
    obtain ⟨hx, c, hptr⟩ := hknown x List.mem_cons_self
    by_cases hw : Wanted k pid c
    · refine .inl ⟨[], xs, x.idx, c, ?_, hptr, hw, fun _ hy => nomatch hy⟩
      rw [List.nil_append, ← hx]
    have hfirst : ∀ d, k.pcbPtr x.idx = some d → ¬ Wanted k pid d := by
      intro d hd
      rw [hptr, Option.some.injEq] at hd
      exact hd ▸ hw
    rcases ih fun y hy => hknown y (List.mem_cons_of_mem _ hy) with
      ⟨ys, bs, ptr, d, rfl, hd, hwd, hys⟩ | hno
    · refine .inl ⟨x :: ys, bs, ptr, d, rfl, hd, hwd, fun y hy => ?_⟩
      rcases List.mem_cons.mp hy with rfl | hy
      · exact hfirst
      · exact hys y hy
    · refine .inr fun y hy => ?_
      rcases List.mem_cons.mp hy with rfl | hy
      · exact hfirst
      · exact hno y hy

/-! ## The handler -/

theorem storeResult_total (k : Kernel) (a v : Int) : ∃ k', k.storeResult a v = .ok k' := by
  unfold storeResult
  split
  · next ha =>
    unfold storeInt
    rw [if_neg ha]
    exact ⟨_, rfl⟩
  · exact ⟨k, rfl⟩

/-- The handler after a scan that has ended with a child. -/
theorem internalWait_eq (hr : k.running = some r) (hne : (k.head (.children r)).first ≠ none)
    (hscan : k.awaitedChild (toInt (k.arg r 0)) LOOP_BOUND (k.head (.children r)).first none =
      .ok (some (ptr, c))) :
    internalWait k = if (k.pcb c).status = .Zombie then (do
        let k₁ := (((k.detach (.children r) ⟨.pcbPtr, ptr⟩).releaseBlock .pcbPtr ptr).detach
          .zombieList ⟨.pcb, c⟩)
        let k₂ := k₁.setRetvalue r (k₁.pcb c).pid
        let k₃ ← k₂.storeResult (k.arg r 1) (k₂.pcb c).returnValue
        return k₃.releaseBlock .pcb c)
      else k.blockInWait r := by
  obtain ⟨x, hx⟩ := Option.ne_none_iff_exists'.mp hne
  rw [hx] at hscan
  unfold internalWait
  rw [deref_eq_ok.mpr hr]
  simp only [bind, Except.bind, hx]
  rw [hscan]

theorem wait_reaps (hc : Coherent k L) (hr : k.running = some r)
    (hne : (k.head (.children r)).first ≠ none)
    (hscan : k.awaitedChild (toInt (k.arg r 0)) LOOP_BOUND (k.head (.children r)).first none =
      .ok (some (ptr, c))) (hz : (k.pcb c).status = .Zombie) :
    ∃ k' L', internalWait k = .ok k' ∧ Collected k L r ptr c k' L' := by
  have heq := internalWait_eq hr hne hscan
  rw [if_pos hz] at heq
  obtain ⟨k', hk'⟩ : ∃ k', internalWait k = .ok k' := by
    rw [heq]
    simp only [bind, Except.bind]
    obtain ⟨k₃, hk₃⟩ := storeResult_total ((((k.detach (.children r) ⟨.pcbPtr, ptr⟩).releaseBlock
      .pcbPtr ptr).detach .zombieList ⟨.pcb, c⟩).setRetvalue r (k.pcb c).pid) (k.arg r 1)
      (((((k.detach (.children r) ⟨.pcbPtr, ptr⟩).releaseBlock
      .pcbPtr ptr).detach .zombieList ⟨.pcb, c⟩).setRetvalue r (k.pcb c).pid).pcb c).returnValue
    refine ⟨k₃.releaseBlock .pcb c, ?_⟩
    erw [hk₃]
    rfl
  rcases wait_refines hc hr hk' with ⟨_, hnil⟩ | ⟨c', ptr', L', _, _, hscan', _, hcol, _⟩ |
    ⟨c', ptr', L', hscan', hz', _⟩
  · refine absurd ?_ hne
    rw [hc.tidy.strung.first_eq (l := .children r) (regular_children r), hnil]
    rfl
  · cases hscan.symm.trans hscan'
    exact ⟨k', L', hk', hcol⟩
  · cases hscan.symm.trans hscan'
    exact absurd hz hz'

theorem blockInWait_total (hs : Strung Regular Retained k L)
    (hready : (k.head .readyList).first ≠ none) : ∃ k', k.blockInWait r = .ok k' := by
  obtain ⟨n, k₁, hn⟩ := parked_next_total (r := r) hs hready
  unfold blockInWait
  simp only [hn, bind, Except.bind]
  exact ⟨_, rfl⟩

theorem blockInWait_stranded (hready : (k.head .readyList).first = none) :
    k.blockInWait r ≠ .ok k' := by
  intro h
  unfold blockInWait at h
  obtain ⟨_, hd, -⟩ := bind_eq_ok.mp h
  unfold detachFirst at hd
  obtain ⟨_, hfirst, -⟩ := bind_eq_ok.mp hd
  rw [parked_ready, hready] at hfirst
  cases hfirst

/-! ## The four ends -/

theorem linked_child (hs : Strung Regular Retained k L) {x : Node} (hx : x ∈ L (.children r))
    (hptr : k.pcbPtr x.idx = some c) : ChildOf k r c :=
  ⟨x, (hs.linked_iff (l := .children r) (regular_children r)).mpr hx, hptr⟩

theorem reapable_child (hs : Strung Regular Retained k L) (h : Reapable k r pid ptr c) :
    ⟨.pcbPtr, ptr⟩ ∈ L (.children r) ∧ ChildOf k r c := by
  obtain ⟨as, bs, hheld, _⟩ := h.listed
  have hL : L (.children r) = as ++ ⟨.pcbPtr, ptr⟩ :: bs :=
    represents_unique (hs.holds (l := .children r) (regular_children r)) hheld
  have hm : (⟨.pcbPtr, ptr⟩ : Node) ∈ L (.children r) := by rw [hL]; simp
  exact ⟨hm, linked_child hs hm h.linked⟩

theorem not_noSuchChild (hs : Strung Regular Retained k L) (h : Reapable k r pid ptr c) :
    ¬ NoSuchChild k r pid := by
  have hchild := (reapable_child hs h).2
  rintro (hno | ⟨hpos, hno⟩)
  · exact hno c hchild
  · exact hno c hchild (h.named (by omega))

/-- The scan finds the child to reap. -/
theorem reapable_scan (hc : Coherent k L) (h : Reapable k r pid ptr c) :
    k.awaitedChild pid LOOP_BOUND (k.head (.children r)).first none = .ok (some (ptr, c)) := by
  have hs := hc.tidy.strung
  obtain ⟨as, bs, hheld, hfirst⟩ := h.listed
  have hL : L (.children r) = as ++ ⟨.pcbPtr, ptr⟩ :: bs :=
    represents_unique (hs.holds (l := .children r) (regular_children r)) hheld
  have hlen := hs.length_le (l := .children r) (regular_children r)
  rw [hL, List.length_append] at hlen
  have hw : Wanted k pid c := by
    by_cases h0 : pid = 0
    · exact .inl ⟨h0, h.zombie⟩
    · exact .inr ⟨h0, h.named h0⟩
  rw [hs.first_eq (l := .children r) (regular_children r), hL]
  refine @awaitedChild_stops _ _ _ _ _ _ LOOP_BOUND [] _ _ _ hc hL h.linked hw
    (fun y hy d hd hwd => ?_) (by unfold LOOP_BOUND; omega)
  rcases hwd with ⟨h0, hz⟩ | ⟨h0, hpid⟩
  · exact hfirst h0 y hy d hd hz
  · -- pids are unique, and so are the links to a child
    have hym : y ∈ L (.children r) := by rw [hL]; exact List.mem_append_left _ hy
    have hcm : (⟨.pcbPtr, ptr⟩ : Node) ∈ L (.children r) := by rw [hL]; simp
    obtain ⟨_, he, hdl, _⟩ := hc.sound.family.child r (some d) (List.mem_map.mpr ⟨y, hym, hd⟩)
    cases he
    obtain ⟨_, he, hcl, _⟩ := hc.sound.family.child r (some c)
      (List.mem_map.mpr ⟨_, hcm, h.linked⟩)
    cases he
    have hdc : d = c := hc.sound.family.pid_inj d c hdl hcl (hpid.trans (h.named h0).symm)
    subst hdc
    have hyx := List.inj_on_of_nodup_map (hc.sound.family.nodup r) hym hcm (hd.trans h.linked.symm)
    have hn := hs.nodup (l := .children r) (regular_children r)
    rw [hL, List.nodup_append] at hn
    exact hn.2.2 y hy _ List.mem_cons_self hyx

/-- The handler refuses, reaps the child asked for, blocks, or goes on with a wrong child. -/
theorem wait_outcomes (hc : Coherent k L) (hr : k.running = some r) (h0 : 0 ≤ pid)
    (hpid : toInt (k.arg r 0) = pid) :
    ((∀ c, ¬ ChildOf k r c) ∧ internalWait k = .ok (k.setRetvalue r DSOS_EWAIT)) ∨
    (∃ ptr c k' L', Reapable k r pid ptr c ∧ internalWait k = .ok k' ∧
      Collected k L r ptr c k' L') ∨
    (¬ NoSuchChild k r pid ∧ (∀ ptr c, ¬ Reapable k r pid ptr c) ∧
      internalWait k = k.blockInWait r) ∨
    (Mistaken k r pid ∧ ((∃ ptr c k' L', Allocated k .pcb c ∧ internalWait k = .ok k' ∧
      Collected k L r ptr c k' L') ∨ internalWait k = k.blockInWait r)) := by
  have hs := hc.tidy.strung
  have hfirst := hs.first_eq (l := .children r) (regular_children r)
  have hlen := hs.length_le (l := .children r) (regular_children r)
  have hmem : ∀ c, ChildOf k r c → ∃ x ∈ L (.children r), k.pcbPtr x.idx = some c := by
    rintro c ⟨x, hx, hptr⟩
    exact ⟨x, (hs.linked_iff (l := .children r) (regular_children r)).mp hx, hptr⟩
  by_cases hnil : L (.children r) = []
  · refine .inl ⟨fun c hchild => ?_, ?_⟩
    · obtain ⟨x, hx, _⟩ := hmem c hchild
      rw [hnil] at hx
      cases hx
    · rw [hnil] at hfirst
      unfold internalWait
      rw [deref_eq_ok.mpr hr]
      simp only [bind, Except.bind, hfirst]
      rfl
  have hne : (k.head (.children r)).first ≠ none := by
    rw [hfirst]
    exact fun hn => hnil (List.head?_eq_none_iff.mp hn)
  refine .inr ?_
  rcases wanted_or_none hc pid r with ⟨ys, bs, ptr, c, hL, hptr, hw, hys⟩ | hno
  · have hm : (⟨.pcbPtr, ptr⟩ : Node) ∈ L (.children r) := by rw [hL]; simp
    have hchild : ChildOf k r c := linked_child hs hm hptr
    have hscan : k.awaitedChild (toInt (k.arg r 0)) LOOP_BOUND (k.head (.children r)).first none =
        .ok (some (ptr, c)) := by
      rw [hpid, hfirst, hL]
      rw [hL, List.length_append] at hlen
      exact @awaitedChild_stops _ _ _ _ _ _ LOOP_BOUND [] _ _ _ hc hL hptr hw hys
        (by unfold LOOP_BOUND; omega)
    by_cases hz : (k.pcb c).status = .Zombie
    · obtain ⟨k', L', hk', hcol⟩ := wait_reaps hc hr hne hscan hz
      refine .inl ⟨ptr, c, k', L', ⟨⟨ys, bs, ?_, fun he x hx d hd hzd => ?_⟩, hptr, hz,
        fun hp => ?_⟩, hk', hcol⟩
      · rw [← hL]
        exact hs.holds (l := .children r) (regular_children r)
      · exact hys x hx d hd (.inl ⟨he, hzd⟩)
      · exact (hw.resolve_left fun h => hp h.1).2
    · have hnamed : pid ≠ 0 ∧ (k.pcb c).pid = pid := hw.resolve_left fun h => hz h.2
      refine .inr (.inl ⟨?_, fun ptr' c' h => ?_, ?_⟩)
      · rintro (h | ⟨_, h⟩)
        · exact h c hchild
        · exact h c hchild hnamed.2
      · have hscan' := reapable_scan hc h
        rw [hpid] at hscan
        cases hscan.symm.trans hscan'
        exact hz h.zombie
      · rw [internalWait_eq hr hne hscan, if_neg hz]
  · have hL : L (.children r) = [] ++ L (.children r) := rfl
    obtain ⟨res, hscan, hres⟩ := @awaitedChild_passes _ _ _ _ LOOP_BOUND _ _ none hc hL hno
      (by unfold LOOP_BOUND; omega)
    rw [← hfirst, ← hpid] at hscan
    obtain ⟨ptr, c, hm, hptr, rfl⟩ := hres.resolve_left fun he =>
      awaitedChild_ne_none (.inl hne) hscan he
    have hchild : ChildOf k r c := linked_child hs hm hptr
    have hunreapable : ∀ ptr c, ¬ Reapable k r pid ptr c := by
      intro ptr' c' h
      refine hno _ (reapable_child hs h).1 c' h.linked ?_
      by_cases hp : pid = 0
      · exact .inl ⟨hp, h.zombie⟩
      · exact .inr ⟨hp, h.named hp⟩
    by_cases hp : pid = 0
    · have hz : (k.pcb c).status ≠ .Zombie := fun hz => hno _ hm c hptr (.inl ⟨hp, hz⟩)
      refine .inr (.inl ⟨?_, hunreapable, ?_⟩)
      · rintro (h | ⟨h, _⟩)
        · exact h c hchild
        · omega
      · rw [internalWait_eq hr hne hscan, if_neg hz]
    · refine .inr (.inr ⟨⟨⟨c, hchild⟩, by omega, fun d hd he => ?_⟩, ?_⟩)
      · obtain ⟨x, hx, hxd⟩ := hmem d hd
        exact hno x hx d hxd (.inr ⟨hp, he⟩)
      · by_cases hz : (k.pcb c).status = .Zombie
        · obtain ⟨k', L', hk', hcol⟩ := wait_reaps hc hr hne hscan hz
          obtain ⟨_, he, hcl, _⟩ := hc.sound.family.child r (some c)
            (List.mem_map.mpr ⟨_, hm, hptr⟩)
          cases he
          exact .inl ⟨ptr, c, k', L', hcl, hk', hcol⟩
        · exact .inr (by rw [internalWait_eq hr hne hscan, if_neg hz])

/-! ## Resumption -/

/-- `r` is blocked in `wait` with these arguments. -/
structure WaitsWith (k : Kernel) (L : HeadAddr → List Node) (r : Nat) (pid result : Int) :
    Prop where
  coherent : Coherent k L
  own : NotOwnChild (view k L)
  call : (k.pcb r).syscallNum = DSOS_CALL_WAIT
  pid : (k.pcb r).syscallArgs 0 = pid
  result : (k.pcb r).syscallArgs 1 = result

theorem waitsWith_step {a : Action} (h : WaitsWith k L r pid result) (ha : Ordinary a)
    (hb : Blocked k r) (hact : k.act a = .ok k') :
    ∃ L', WaitsWith k' L' r pid result := by
  obtain ⟨L', _, hc', hstep⟩ := act_done h.coherent ha hact
  have hs := h.coherent.sound
  have hw := (blocked_iff h.coherent.tidy.strung).mp hb
  obtain ⟨hnum, hargs⟩ := sameCall_step hstep (hs.placed.live_of_waiting hw)
    (hs.placed.not_mem_of_waiting hw).1
  have hnum : (k'.pcb r).syscallNum = (k.pcb r).syscallNum := hnum
  have hargs : (k'.pcb r).syscallArgs = (k.pcb r).syscallArgs := hargs
  exact ⟨L', hc', notOwnChild_step h.own hs hstep, hnum.trans h.call, by rw [hargs, h.pid],
    by rw [hargs, h.result]⟩

/-- The exit that resumes `r`. -/
theorem resumed_by_exit {args : List Int} (h : WaitsWith k L r pid result)
    (hb : r ∈ (view k L).waiting) (hrun : k.running = some c)
    (hacted : Acted k L (.syscall DSOS_CALL_EXIT args) k' L') (hout : r ∉ (view k' L').waiting) :
    k'.running = some r ∧ (k'.pcb r).syscallRetvalue = (k.pcb c).pid ∧
      k.storeResult result (toInt (args.getD 0 0)) = .ok { k with mem := k'.mem } := by
  have hrc : r ≠ c := by
    rintro rfl
    exact (h.coherent.sound.placed.not_mem_of_running hrun).2.1 hb
  generalize hnum : DSOS_CALL_EXIT = num at hacted
  cases hacted with
  | ignored => exact absurd hb hout
  | @called c' _ _ _ _ hc' hcall =>
    obtain rfl : c' = c := Option.some.inj (hc'.symm.trans hrun)
    cases hcall with
    | refused => exact absurd hb hout
    | @exited i parent n k₁ _ L₁ _ hd hno hbeside hk hlists =>
      refine absurd ?_ hout
      show r ∈ (L' .waitingList).map Node.idx
      rw [hlists _ (by simp), hd.lists, Function.update_of_ne (by simp),
        Function.update_of_ne (by simp), Function.update_of_ne (by simp)]
      exact hb
    | @reported i parent ptr k₁ _ L₁ _ hd hw hrep =>
      have hwaiting : L₁ .waitingList = L .waitingList := by
        rw [hd.lists, Function.update_of_ne (by simp), Function.update_of_ne (by simp),
          Function.update_of_ne (by simp)]
      have hnode : (⟨.pcb, r⟩ : Node) ∈ L .waitingList :=
        (mem_map_idx h.coherent.tidy.strung (l := .waitingList) regular_pcb).mp hb
      -- only the parent is taken out of the waiting list
      have hpr : parent = r := by
        by_contra hne
        refine hout (List.mem_map.mpr ⟨⟨.pcb, r⟩, ?_, rfl⟩)
        rw [hrep.waiting, hwaiting]
        refine (List.mem_erase_of_ne fun he => ?_).mpr hnode
        injection he with _ he
        exact hne he.symm
      subst hpr
      have hkept : ∀ p, ∃ sig, View.control (k₁.pcb p) =
          { View.control ((k.setCall c' DSOS_CALL_EXIT args).pcb p) with
            signals := sig
            status := if p = c' then .Zombie else ((k.setCall c' DSOS_CALL_EXIT args).pcb p).status } := by
        intro p
        obtain ⟨sig, hsig⟩ := @info_died (view (k.setCall c' DSOS_CALL_EXIT args) L) c' i parent p
        refine ⟨sig, ?_⟩
        rw [← hd.view_eq] at hsig
        exact hsig
      obtain ⟨_, hself⟩ := hkept c'
      obtain ⟨_, hparent⟩ := hkept parent
      have hpid : (k₁.pcb c').pid = (k.pcb c').pid := by
        have he := congrArg PCB.pid hself
        refine Eq.trans he ?_
        show (Function.update k.pcb c' _ c').pid = _
        rw [Function.update_self]
      have harg : k₁.arg parent 1 = result := by
        have he := congrArg (fun q => q.syscallArgs 1) hparent
        refine Eq.trans he ?_
        show (Function.update k.pcb c' _ parent).syscallArgs 1 = _
        rw [Function.update_of_ne hrc]
        exact h.result
      have hvalue : (k₁.pcb c').returnValue = toInt (args.getD 0 0) := by
        rw [hd.returnValue, arg_setCall (by decide)]
      have hmem : k₁.mem = k.mem := by rw [hd.rest]; rfl
      have hstored := hrep.stored
      rw [harg, hvalue] at hstored
      have hstored := storeResult_mem hstored hmem
      refine ⟨by rw [hrep.rest], ?_, hstored⟩
      rw [hrep.pcb, Function.update_self, ← hpid]
    | spawned hcases => exact absurd hnum (by rcases hcases with rfl | rfl <;> decide)
    | mqUse hcases => exact absurd hnum (by rcases hcases with rfl | rfl | rfl <;> decide)
    | _ => exact absurd hnum (by decide)

theorem resumed_of_waitsWith (h : WaitsWith k L r pid result) : ResumedByChild k r pid result := by
  intro as k₂ a k₃ hrun hb ha hact hout
  obtain ⟨L₂, h₂⟩ : ∃ L₂, WaitsWith k₂ L₂ r pid result := by
    refine run_invariant (I := fun k => ∃ L, WaitsWith k L r pid result) ?_ ⟨L, h⟩ hrun
    rintro k a k' ⟨L, h⟩ ⟨ha, hb⟩ hact
    exact waitsWith_step h ha hb hact
  obtain ⟨L₃, hacted, hc₃, hstep⟩ := act_done h₂.coherent ha hact
  have hw := (blocked_iff h₂.coherent.tidy.strung).mp hb
  have hout := fun hw' => hout ((blocked_iff hc₃.tidy.strung).mpr hw')
  obtain ⟨c, args, rfl, hrunning, hwaits, hchild⟩ :=
    (waiting_step h₂.coherent.sound h₂.own hstep hw h₂.call).resolve_left hout
  obtain ⟨hr, hret, hstored⟩ := resumed_by_exit h₂ hw hrunning hacted hout
  refine ⟨c, args, rfl, hrunning, (childOf_iff h₂.coherent.tidy.strung).mpr hchild, ?_, hr, hret,
    hstored⟩
  have harg : (k₂.pcb r).syscallArgs 0 = 0 ∨ (k₂.pcb r).syscallArgs 0 = (k₂.pcb c).pid :=
    hwaits.2.2
  rw [h₂.pid] at harg
  exact harg.imp id Eq.symm

/-! ## The call -/

/-- What the caller sees of a child that has been collected. -/
theorem reaped_of_collected (hs : Strung Regular Retained k L) (hresult : k.arg r 1 = result)
    (h : Collected k L r ptr c k' L') : Reaped k r ptr c result k' := by
  have hs' := h.woven.strung
  have hreg : ∀ l, ProcessHead l → Regular l.nodeKind := by
    intro l hl
    by_contra hno
    cases l with
    | readyList | waitingList | zombieList => exact hno regular_pcb
    | timerList => exact hno (by decide : Regular .timerItem)
    | children p => exact hno (regular_children p)
    | _ => exact hl
  have hheld : ∀ l xs, ProcessHead l → Holds k.lists l xs → xs = L l ∧ Holds k'.lists l (L' l) :=
    fun l xs hl hxs => ⟨represents_unique hxs (hs.holds (hreg l hl)), hs'.holds (hreg l hl)⟩
  refine ⟨fun xs hxs => ?_, fun xs hxs => ?_, fun l xs hl h₁ h₂ hxs => ?_, h.allocated, h.pcb, ?_,
    by rw [h.rest]⟩
  · obtain ⟨rfl, hx⟩ := hheld (.children r) xs trivial hxs
    rwa [h.lists, Function.update_of_ne (by simp), Function.update_self] at hx
  · obtain ⟨rfl, hx⟩ := hheld .zombieList xs trivial hxs
    rwa [h.lists, Function.update_self] at hx
  · obtain ⟨rfl, hx⟩ := hheld _ xs hl hxs
    rwa [h.lists, Function.update_of_ne h₂, Function.update_of_ne h₁] at hx
  · rw [← hresult]
    exact h.stored

theorem blocksFor_of_ok (h : WaitsWith k L r pid result) (hr : k.running = some r)
    (hb : k.blockInWait r = .ok k') : BlocksFor k r pid result k' := by
  have hc := h.coherent
  obtain ⟨L', hsched, hm⟩ : ∃ L', Scheduled k L k' L' ∧
      Moved k L (· = (view k L).waitForChild r) k' L' := blockInWait_refines hc hr hb fun _ => rfl
  have hsound : Sound ((view k L).waitForChild r) := sound_waitForChild hc.sound hr h.call
  have hview : view k' L' = (view k L).waitForChild r := hm.move
  have hc' : Coherent k' L' := ⟨hm.tidy, hm.hung hc.hung, hview ▸ hsound⟩
  have hwaiting : (view k' L').waiting = (view k L).waiting ++ [r] := by
    rw [hview]
    rfl
  have hw : r ∈ (view k' L').waiting := by
    rw [hwaiting]
    exact List.mem_append_right _ List.mem_cons_self
  have hcontrol : View.control (k'.pcb r) =
      { View.control (k.pcb r) with status := .Waiting } := by
    have he : (view k' L').info r = ((view k L).waitForChild r).info r := by rw [hview]
    refine he.trans ?_
    show Function.update (view k L).info r _ r = _
    rw [Function.update_self]
    rfl
  have hstatus := congrArg PCB.status hcontrol
  have hcall := congrArg PCB.syscallNum hcontrol
  have hargs : ∀ i, (k'.pcb r).syscallArgs i = (k.pcb r).syscallArgs i := fun i => by
    have he := congrArg (fun q => q.syscallArgs i) hcontrol
    exact he
  have hown : NotOwnChild (view k' L') := by
    rw [hview]
    exact h.own
  refine ⟨hstatus, ⟨(view k L).waiting,
    hc.tidy.strung.holds_idx (l := .waitingList) regular_pcb, ?_⟩, ?_, resumed_of_waitsWith
      (L := L') ⟨hc', hown, Eq.trans hcall h.call, (hargs 0).trans h.pid, (hargs 1).trans h.result⟩⟩
  · rw [← hwaiting]
    exact hc'.tidy.strung.holds_idx (l := .waitingList) regular_pcb
  · exact (hc'.sound.placed.not_mem_of_waiting hw).1

/-- The registers of the caller do not matter for what it is promised. -/
theorem reapable_setCall {args : List Int} :
    Reapable (k.setCall r DSOS_CALL_WAIT args) r pid ptr c ↔ Reapable k r pid ptr c := by
  have hsame : ∀ d, ((k.setCall r DSOS_CALL_WAIT args).pcb d).status = (k.pcb d).status ∧
      ((k.setCall r DSOS_CALL_WAIT args).pcb d).pid = (k.pcb d).pid :=
    fun _ => ⟨status_setCall, pid_setCall⟩
  constructor
  · rintro ⟨⟨as, bs, hheld, hfirst⟩, hptr, hz, hnamed⟩
    exact ⟨⟨as, bs, hheld, fun h0 x hx d hd => (hsame d).1 ▸ hfirst h0 x hx d hd⟩, hptr,
      (hsame c).1 ▸ hz, fun h => (hsame c).2 ▸ hnamed h⟩
  · rintro ⟨⟨as, bs, hheld, hfirst⟩, hptr, hz, hnamed⟩
    exact ⟨⟨as, bs, hheld, fun h0 x hx d hd => (hsame d).1.symm ▸ hfirst h0 x hx d hd⟩, hptr,
      (hsame c).1.trans hz, fun h => (hsame c).2.trans (hnamed h)⟩

theorem noPid_setCall {args : List Int} :
    (∀ c, ChildOf k r c → ((k.setCall r DSOS_CALL_WAIT args).pcb c).pid ≠ pid) ↔
      ∀ c, ChildOf k r c → (k.pcb c).pid ≠ pid := by
  simp only [pid_setCall]

/-- The state in which the handler runs. -/
theorem waitsWith_setCall (hc : Coherent k L) (hown : NotOwnChild (view k L))
    (hr : k.running = some r) :
    WaitsWith (k.setCall r DSOS_CALL_WAIT [pid, result]) L r pid result := by
  have hself : (k.setCall r DSOS_CALL_WAIT [pid, result]).pcb r =
      (k.pcb r).called DSOS_CALL_WAIT [pid, result] := Function.update_self ..
  refine ⟨coherent_setCall hc hr, ?_, by rw [hself]; rfl, by rw [hself]; rfl, by rw [hself]; rfl⟩
  rw [view_setCall]
  exact hown

theorem arg_pid (h0 : 0 ≤ pid) (hfits : pid < 2 ^ 31) :
    toInt ((k.setCall r DSOS_CALL_WAIT [pid, result]).arg r 0) = pid := by
  rw [arg_setCall (by decide), List.getD_cons_zero]
  exact toInt_of_fits (by omega) hfits

theorem waitAnswers_of (hc : Coherent k L) (hctx : ContextsMade (view k L))
    (hown : NotOwnChild (view k L)) (hr : k.running = some r) (h0 : 0 ≤ pid) (hfits : pid < 2 ^ 31)
    (hmistaken : ¬ Mistaken k r pid) (hstranded : ¬ Stranded k r pid) :
    AnswersWait k r pid result := by
  have hw : WaitsWith (k.setCall r DSOS_CALL_WAIT [pid, result]) L r pid result :=
    waitsWith_setCall hc hown hr
  have hs := hw.coherent.tidy.strung
  have hpid := @arg_pid k r pid result h0 hfits
  have hreturns : ∀ k', internalWait (k.setCall r DSOS_CALL_WAIT [pid, result]) = .ok k' →
      k'.running = some r → k.act (.syscall DSOS_CALL_WAIT [pid, result]) = .ok k' :=
    fun _ => syscall_returns [pid, result] rfl (by decide) (by decide) hr
  unfold AnswersWait
  simp only [← @reapable_setCall k r _ _ pid [pid, result]]
  rcases wait_outcomes hw.coherent hr h0 hpid with ⟨hno, hk'⟩ |
    ⟨ptr, c, k', L', hreap, hk', hcol⟩ | ⟨hsome, hno, hk'⟩ | ⟨hm, _⟩
  · refine ⟨_, hreturns _ hk' hr, fun _ => rfl, fun ptr c h => ?_,
      fun hsome => absurd (.inl hno) hsome⟩
    exact absurd (reapable_child hs h).2 (hno c)
  · have hact := hreturns k' hk' (by rw [hcol.rest]; exact hr)
    refine ⟨k', hact, fun hno => ?_, fun ptr' c' h => ?_, fun _ hno => absurd hreap (hno _ _)⟩
    · refine absurd ?_ (not_noSuchChild hs hreap)
      exact hno.imp id fun h => ⟨h.1, noPid_setCall.mpr h.2⟩
    · cases (reapable_scan hw.coherent hreap).symm.trans (reapable_scan hw.coherent h)
      exact reaped_of_collected hs hw.result hcol
  · have hsome' : ¬ NoSuchChild k r pid := fun h =>
      hsome (h.imp id fun h => ⟨h.1, noPid_setCall.mpr h.2⟩)
    obtain ⟨hready, hnext⟩ : HasNext k := by
      by_contra hnone
      exact hstranded ⟨hsome', fun ptr c h => hno ptr c (reapable_setCall.mpr h), hnone⟩
    obtain ⟨k', hb⟩ := blockInWait_total (r := r) hs hready
    have hblocks := blocksFor_of_ok hw hr hb
    have hact : k.act (.syscall DSOS_CALL_WAIT [pid, result]) = .ok k' :=
      syscall_switches hc hctx hnext rfl (by decide) (by decide) hr (hk'.trans hb)
    refine ⟨k', hact, fun h => absurd h hsome', fun ptr c h => absurd h (hno ptr c),
      fun _ _ => ⟨hblocks.status, hblocks.waiting, hblocks.running, hblocks.resumed⟩⟩
  · exact absurd ⟨hm.1, hm.2.1, noPid_setCall.mp hm.2.2⟩ hmistaken

theorem not_stranded (hc : Coherent k L) (hr : k.running = some r) (h0 : 0 ≤ pid)
    (hfits : pid < 2 ^ 31) (h : AnswersWait k r pid result) : ¬ Stranded k r pid := by
  rintro ⟨hsome, hno, hstranded⟩
  obtain ⟨k', hact, -⟩ := h
  have hc₁ : Coherent (k.setCall r DSOS_CALL_WAIT [pid, result]) L := coherent_setCall hc hr
  have hpid := @arg_pid k r pid result h0 hfits
  have hcall : internalWait (k.setCall r DSOS_CALL_WAIT [pid, result]) = .ok k' :=
    syscall_handled [pid, result] rfl (by decide) (by decide) hr hact
  rcases wait_outcomes hc₁ hr h0 hpid with ⟨h, _⟩ | ⟨ptr, c, _, _, h, _⟩ | ⟨_, _, hk'⟩ | ⟨hm, _⟩
  · exact hsome (.inl h)
  · exact hno ptr c (reapable_setCall.mp h)
  · have hb := hk'.symm.trans hcall
    refine hstranded ⟨fun hnone => ?_, ?_⟩
    · have hnone : ((k.setCall r DSOS_CALL_WAIT [pid, result]).head .readyList).first = none :=
        hnone
      exact blockInWait_stranded hnone hb
    obtain ⟨L', _, hm⟩ : ∃ L', Scheduled _ L k' L' ∧
        Moved _ L (·.running = (view k L).ready.head?) k' L' :=
      blockInWait_refines hc₁ hr hb fun _ => rfl
    exact nextHasContext_of_syscall hc rfl (by decide) (by decide) hr hact hm.move
  · exact hsome (.inr ⟨hm.2.1, noPid_setCall.mp hm.2.2⟩)

theorem not_mistaken (hc : Coherent k L) (hr : k.running = some r) (h0 : 0 ≤ pid)
    (hfits : pid < 2 ^ 31) (h : AnswersWait k r pid result) : ¬ Mistaken k r pid := by
  rintro ⟨⟨d, hd⟩, hpos, hnone⟩
  obtain ⟨k', hact, hrefused, -⟩ := h
  have hk' := hrefused (.inr ⟨hpos, hnone⟩)
  have hc₁ : Coherent (k.setCall r DSOS_CALL_WAIT [pid, result]) L := coherent_setCall hc hr
  have hpid := @arg_pid k r pid result h0 hfits
  have hact : internalWait (k.setCall r DSOS_CALL_WAIT [pid, result]) = .ok k' :=
    syscall_handled [pid, result] rfl (by decide) (by decide) hr hact
  have hblocks : internalWait (k.setCall r DSOS_CALL_WAIT [pid, result]) ≠
      (k.setCall r DSOS_CALL_WAIT [pid, result]).blockInWait r := by
    intro hb
    obtain ⟨L', _, hm⟩ : ∃ L', Scheduled _ L k' L' ∧
        Moved _ L (fun s => (s.info r).status = .Waiting) k' L' := by
      refine blockInWait_refines hc₁ hr (hb.symm.trans hact) fun _ => ?_
      show (((view _ L).setStatus r .Waiting).info r).status = _
      rw [status_setStatus, if_pos rfl]
    -- the running process is not marked as waiting
    have hst : (k'.pcb r).status = .Waiting := hm.move
    have hrun : k'.running = some r := by
      rw [hk']
      exact hr
    have hrun' : (k'.pcb r).status = ((k.setCall r DSOS_CALL_WAIT [pid, result]).pcb r).status := by
      rw [hk']
      show (Function.update (k.setCall r DSOS_CALL_WAIT [pid, result]).pcb r _ r).status = _
      rw [Function.update_self]
    have hw := hc₁.sound.marked.waits r (hrun'.symm.trans hst)
    exact (hc₁.sound.placed.not_mem_of_running hr).2.1 hw
  rcases wait_outcomes hc₁ hr h0 hpid with ⟨h, _⟩ | ⟨ptr, c, _, _, h, _⟩ | ⟨h, _⟩ |
    ⟨_, ⟨ptr, c, k₂, L₂, hlive, hk₂, hcol⟩ | hb⟩
  · exact h d hd
  · exact not_noSuchChild hc₁.tidy.strung h (.inr ⟨hpos, noPid_setCall.mpr hnone⟩)
  · exact h (.inr ⟨hpos, noPid_setCall.mpr hnone⟩)
  · cases hact.symm.trans hk₂
    have hfreed := ((hcol.allocated .pcb c).mp (by rw [hk']; exact hlive)).1
    exact hfreed ⟨rfl, rfl⟩
  · exact hblocks hb

theorem reachable_own {mem : Int → UInt8} {k₀ : Kernel} {as : List Action} (hs : Started mem k₀)
    (h : Run act (fun _ a => Ordinary a) k₀ as k) :
    ∃ L, Coherent k L ∧ NotOwnChild (view k L) :=
  run_table (I := NotOwnChild) (fun _ _ ha => ha)
    (fun mem k hb => by
      rw [booted_view hb]
      exact fun p hm => nomatch hm)
    (fun _ _ _ _ hc hown _ hstep _ => notOwnChild_step hown hc.sound hstep) hs h

/-- In every reachable state and for every pid, `wait` answers as promised exactly when the
pid is not that of a stranger and the caller need not block with nobody to run next. -/
theorem wait_answers_iff {mem : Int → UInt8} {k₀ : Kernel} {as : List Action}
    (hs : Started mem k₀) (h : Run act (fun _ a => Ordinary a) k₀ as k) (hr : k.running = some r)
    (h0 : 0 ≤ pid) (hfits : pid < 2 ^ 31) (result : Int) :
    AnswersWait k r pid result ↔ ¬ Mistaken k r pid ∧ ¬ Stranded k r pid := by
  obtain ⟨L, hc, hown⟩ := reachable_own hs h
  exact ⟨fun hw => ⟨not_mistaken hc hr h0 hfits hw, not_stranded hc hr h0 hfits hw⟩,
    fun ⟨hm, hst⟩ => waitAnswers_of hc (reachable_contexts hs h hc) hown hr h0 hfits hm hst⟩

/-- Init waits for any child while its child is ready. -/
theorem wait_answers_ready_child :
    ∃ k₀ k, Started (fun _ => 0) k₀ ∧
      Run act (fun _ a => Ordinary a) k₀ [.syscall DSOS_CALL_SPAWN [0, 0]] k ∧
      k.running = some 0 ∧ AnswersWait k 0 0 1000 := by
  obtain ⟨k₀, k, hs, h, htest⟩ := exists_run_from_start (fun _ a => Ordinary a)
    (fun _ a => decide (Ordinary a)) [.syscall DSOS_CALL_SPAWN [0, 0]]
    (fun k => k.running = some 0 ∧ HasNext k)
    (fun _ _ h => of_decide_eq_true h) (by decide +kernel)
  obtain ⟨hr, hready⟩ := of_decide_eq_true htest
  refine ⟨k₀, k, hs, h, hr, (wait_answers_iff hs h hr (by decide) (by decide) 1000).mpr ⟨?_, ?_⟩⟩
  · rintro ⟨_, hpos, _⟩
    exact absurd hpos (by decide)
  · rintro ⟨_, _, hnone⟩
    exact hnone hready

/-- The only child of init is a zombie with the pid 1, and init waits for the pid 5. -/
theorem wait_reaps_stranger :
    ∃ k₀ k, Started (fun _ => 0) k₀ ∧
      Run act (fun _ a => Ordinary a) k₀
        [.syscall DSOS_CALL_SPAWN [0, 0], .syscall DSOS_CALL_PREEMPT [],
          .syscall DSOS_CALL_EXIT [7]] k ∧
      k.running = some 0 ∧ ¬ AnswersWait k 0 5 0 := by
  obtain ⟨k₀, k, hs, h, htest⟩ := exists_run_from_start (fun _ a => Ordinary a)
    (fun _ a => decide (Ordinary a))
    [.syscall DSOS_CALL_SPAWN [0, 0], .syscall DSOS_CALL_PREEMPT [], .syscall DSOS_CALL_EXIT [7]]
    (fun k => k.running = some 0 ∧ (k.head (.children 0)).first = some ⟨.pcbPtr, 0⟩ ∧
      k.pcbPtr 0 = some 1 ∧ k.lastPid = 2)
    (fun _ _ h => of_decide_eq_true h) (by decide +kernel)
  obtain ⟨hr, hfirst, hptr, hlast⟩ := of_decide_eq_true htest
  obtain ⟨L, hc⟩ := coherent_run hs h
  refine ⟨k₀, k, hs, h, hr, fun hw => not_mistaken hc hr (by decide) (by decide) hw
    ⟨⟨1, _, linked_first hfirst, hptr⟩, by decide, fun c hchild he => ?_⟩⟩
  obtain ⟨c', he', hlive, _⟩ :=
    hc.sound.family.child 0 _ ((childOf_iff hc.tidy.strung).mp hchild)
  cases he'
  have hlt : (k.pcb c).pid < k.lastPid := hc.sound.family.pid_lt c hlive
  rw [he, hlast] at hlt
  exact absurd hlt (by decide)

end DisastrOS.Process.WaitAnswers
