import DisastrOS.Process.SystemRuns

/-!
# Parents and their children

`internal_exit` hands the children of a process to init without telling them. As long as
nobody who has children exits, stored parents and lists of children agree.
-/
namespace DisastrOS.Process.Kinship

open DisastrOS.Machine
open DisastrOS.Machine.Kernel
open DisastrOS.Machine.Runs
open DisastrOS.Lists.Wiring
open DisastrOS.Lists.RegularLists
open DisastrOS.Lists.Boot
open DisastrOS.Pool.Blocks
open DisastrOS.Process.Table
open DisastrOS.Process.Steps
open DisastrOS.Process.View
open DisastrOS.Process.Coherence
open DisastrOS.Process.Transitions
open DisastrOS.Process.SystemRuns
open DisastrOS.Library.GuardedRun

variable {s s' : ProcessTable} {k : Kernel} {L : HeadAddr → List Node} {r i parent p q : Nat}
  {num : Int} {a : Action}

/-! ## The table -/

/-- Every listed child has the process that lists it as its parent. -/
def Fathered (s : ProcessTable) : Prop :=
  ∀ q p, some p ∈ s.children q → (s.info p).parent = some q

theorem fathered_congr (h : Fathered s) (hc : ∀ q o, o ∈ s'.children q → o ∈ s.children q)
    (hp : ∀ p, (s'.info p).parent = (s.info p).parent) : Fathered s' := by
  intro q p hm
  rw [hp]
  exact h q p (hc q _ hm)

theorem fathered_schedules (h : Fathered s) (hs : Schedules s s') : Fathered s' := by
  have hr := schedules_rescheduled hs
  refine fathered_congr h (fun q o ho => ?_) fun p => ?_
  · rwa [hr.rest] at ho
  · rw [hr.info p]

/-- What an exit changes in the processes themselves. -/
theorem info_died (p : Nat) : ∃ sig, ((s.adopt r i).die r parent).info p =
    { s.info p with
      signals := sig, status := if p = r then .Zombie else (s.info p).status } := by
  have hadopt : ∃ sig, (s.adopt r i).info p = { s.info p with signals := sig } := by
    show ∃ sig, (if some p ∈ s.children r then (s.info p).signalled DSOS_SIGHUP else s.info p) = _
    split
    · exact ⟨_, rfl⟩
    · exact ⟨_, rfl⟩
  obtain ⟨sig, hsig⟩ := hadopt
  have hstatus : ((s.adopt r i).setStatus r .Zombie).info p = { s.info p with
      signals := sig, status := if p = r then .Zombie else (s.info p).status } := by
    show Function.update (s.adopt r i).info r _ p = _
    rw [Function.update_apply]
    split
    · next he =>
      subst he
      rw [hsig]
    · exact hsig
  show ∃ sig, Function.update ((s.adopt r i).setStatus r .Zombie).info parent _ p = _
  rw [Function.update_apply]
  split
  · next he =>
    subst he
    rw [hstatus]
    exact ⟨_, rfl⟩
  · exact ⟨sig, hstatus⟩

/-- Whether the parent waits is the same before and after the process has died. -/
theorem waitsFor_died (hs : Sound s) (hr : s.running = some r) :
    WaitsFor ((s.adopt r i).die r parent) parent r ↔ WaitsFor s parent r := by
  obtain ⟨sig, hparent⟩ := @info_died s r i parent parent
  obtain ⟨sig', hself⟩ := @info_died s r i parent r
  unfold WaitsFor
  rw [hparent, hself]
  by_cases hpr : parent = r
  · subst hpr
    have hnw : (s.info parent).status ≠ .Waiting := fun hw =>
      (hs.placed.not_mem_of_running hr).2.1 (hs.marked.waits parent hw)
    simp [hnw]
  · simp [hpr]

/-- A process without children has none to hand over. -/
theorem children_adopt_nil (h : s.children r = []) : (s.adopt r i).children = s.children := by
  show Function.update (Function.update s.children r []) i (s.children i ++ s.children r) = _
  rw [h, List.append_nil, ← h, Function.update_eq_self, Function.update_eq_self]

theorem parent_died (p : Nat) :
    (((s.adopt r i).die r parent).info p).parent = (s.info p).parent := by
  obtain ⟨sig, he⟩ := @info_died s r i parent p
  rw [he]

theorem fathered_handled (h : Fathered s) (hs : Sound s) (hh : Handled s r num s')
    (hexit : num = DSOS_CALL_EXIT → s.children r = []) : Fathered s' := by
  cases hh with
  | quiet => exact h
  | preempt hsched => exact fathered_schedules h hsched
  | @spawn _ p q _ hp _ _ _ hparent =>
    intro q' c hm
    have hc : some c ∈ Function.update (Function.update s.children p []) r
        (s.children r ++ [some p]) q' := hm
    show (Function.update s.info p q c).parent = some q'
    rw [Function.update_apply] at hc
    -- nobody lists the new process yet
    have hold : ∀ q', some c ∈ s.children q' → c ≠ p := by
      rintro q' hm' rfl
      obtain ⟨c', he, hl, _⟩ := hs.family.child q' _ hm'
      cases he
      exact hp hl
    split at hc
    · next he =>
      rw [List.mem_append, List.mem_singleton, Option.some.injEq] at hc
      rcases hc with hc | rfl
      · rw [Function.update_of_ne (hold r hc), he]
        exact h r c hc
      · rw [Function.update_self, he]
        exact hparent
    · rw [Function.update_apply] at hc
      split at hc
      · cases hc
      · rw [Function.update_of_ne (hold q' hc)]
        exact h q' c hc
  | sleep => exact fathered_congr h (fun _ _ ho => ho) fun p => parent_setStatus _
  | waitBlock => exact fathered_congr h (fun _ _ ho => ho) fun p => parent_setStatus _
  | @waitCollect c _ _ _ =>
    refine fathered_congr h (fun q o ho => ?_) fun _ => rfl
    have ho : o ∈ Function.update s.children r ((s.children r).erase (some c)) q := ho
    rw [Function.update_apply] at ho
    split at ho
    · next he =>
      rw [he]
      exact List.mem_of_mem_erase ho
    · exact ho
  | @exitNext i parent n rest _ _ _ _ =>
    refine fathered_congr h (fun q o ho => ?_) fun p => ?_
    · have ho : o ∈ (s.adopt r i).children q := ho
      rwa [children_adopt_nil (hexit rfl)] at ho
    · rw [parent_setStatus]
      exact parent_died p
  | @exitReport i parent _ _ _ _ =>
    refine fathered_congr h (fun q o ho => ?_) fun p => ?_
    · have ho : o ∈ Function.update (s.adopt r i).children parent
          (((s.adopt r i).children parent).erase (some r)) q := ho
      rw [children_adopt_nil (hexit rfl), Function.update_apply] at ho
      split at ho
      · next he =>
        rw [he]
        exact List.mem_of_mem_erase ho
      · exact ho
    · show ((((s.adopt r i).die r parent).setStatus parent .Running).info p).parent = _
      rw [parent_setStatus]
      exact parent_died p
  | semBlock => exact fathered_congr h (fun _ _ ho => ho) fun _ => rfl
  | semWake => exact fathered_congr h (fun _ _ ho => ho) fun _ => rfl

/-- The registers of a call do not matter. -/
theorem fathered_called {args : List Int} (h : Fathered s) :
    Fathered (s.modify r fun q => q.called num args) := by
  refine fathered_congr h (fun _ _ ho => ho) fun p => ?_
  show (Function.update s.info r ((s.info r).called num args) p).parent = _
  rw [Function.update_apply]
  split
  · next he => rw [he]; rfl
  · rfl

theorem fathered_step (h : Fathered s) (hs : Sound s) (hstep : Step s a s')
    (hexit : ∀ args r, a = .syscall DSOS_CALL_EXIT args → s.running = some r →
      s.children r = []) : Fathered s' := by
  cases hstep with
  | refused => exact h
  | @call r num args _ hr hh =>
    refine fathered_handled (fathered_called h) (called_sound hs hr) hh fun he => ?_
    exact hexit args r (by rw [he]) hr
  | tick _ hsched => exact fathered_schedules (s := { s with time := s.time + 1 }) h hsched
  | restart hr hp hpid _ hst _ =>
    have hborn := born_restart (s := s) hr hp hpid hst
    obtain ⟨-, hempty⟩ := hborn.childless hs
    intro q' c hm
    have hm : some c ∈ s.children q' := by
      have hm : some c ∈ Function.update s.children _ [] q' := hm
      rwa [← hempty, Function.update_eq_self] at hm
    obtain ⟨_, he, hlive, _⟩ := hs.family.child q' _ hm
    cases he
    rw [hborn.info_of_ne (hborn.ne_of_live hlive)]
    exact h q' c hm
  | store => exact h

/-- Everybody but init has a parent. -/
def OnlyInit (s : ProcessTable) : Prop :=
  ∀ p, s.live p → (s.info p).parent = none → s.init = some p

theorem onlyInit_congr (h : OnlyInit s) (hinit : s'.init = s.init)
    (hold : ∀ p, s'.live p → (s'.info p).parent = none → s.live p ∧ (s.info p).parent = none) :
    OnlyInit s' := by
  intro p hp hn
  obtain ⟨hlive, hnone⟩ := hold p hp hn
  exact hinit.trans (h p hlive hnone)

theorem onlyInit_rescheduled (h : OnlyInit s) (hr : Rescheduled s s') : OnlyInit s' := by
  refine onlyInit_congr h (by rw [hr.rest]) fun p hp hn => ⟨?_, ?_⟩
  · rwa [hr.rest] at hp
  · rwa [hr.info p] at hn

theorem onlyInit_handled (h : OnlyInit s) (hh : Handled s r num s') : OnlyInit s' := by
  cases hh with
  | quiet => exact h
  | preempt hsched => exact onlyInit_rescheduled h (schedules_rescheduled hsched)
  | @spawn _ p q _ hp hpid _ hst hparent =>
    have hborn : Born s (s.spawn r p q) p q := born_spawn hp hpid hst
    refine onlyInit_congr h rfl fun i hi hn => ?_
    by_cases hip : i = p
    · subst hip
      rw [hborn.info_self, hparent] at hn
      cases hn
    · rw [hborn.info_of_ne hip] at hn
      exact ⟨(hborn.live_iff.mp hi).resolve_left hip, hn⟩
  | sleep => exact onlyInit_congr h rfl fun p hp hn => ⟨hp, (parent_setStatus _).symm.trans hn⟩
  | waitBlock => exact onlyInit_congr h rfl fun p hp hn => ⟨hp, (parent_setStatus _).symm.trans hn⟩
  | waitCollect => exact onlyInit_congr h rfl fun p hp hn => ⟨hp.2, hn⟩
  | @exitNext i parent n rest _ _ _ _ =>
    refine onlyInit_congr h rfl fun p hp hn => ⟨hp, ?_⟩
    rw [parent_setStatus] at hn
    exact (parent_died p).symm.trans hn
  | @exitReport i parent _ _ _ _ =>
    refine onlyInit_congr h rfl fun p hp hn => ⟨hp.2, ?_⟩
    have hn : ((((s.adopt r i).die r parent).setStatus parent .Running).info p).parent = none := hn
    rw [parent_setStatus] at hn
    exact (parent_died p).symm.trans hn
  | semBlock => exact h
  | semWake => exact h

theorem onlyInit_step (h : OnlyInit s) (hstep : Step s a s') (ha : a ≠ .restart) :
    OnlyInit s' := by
  cases hstep with
  | refused => exact h
  | @call r num args _ _ hh =>
    have hcalled : OnlyInit (s.modify r fun q => q.called num args) := by
      refine onlyInit_congr h rfl fun p hp hn => ⟨hp, ?_⟩
      have hn : (Function.update s.info r ((s.info r).called num args) p).parent = none := hn
      rw [Function.update_apply] at hn
      split at hn
      · next he => rw [he]; exact hn
      · exact hn
    exact onlyInit_handled hcalled hh
  | tick _ hsched =>
    exact onlyInit_rescheduled (s := { s with time := s.time + 1 }) h (schedules_rescheduled hsched)
  | restart => exact absurd rfl ha
  | store => exact h

/-! ## The kernel -/

/-- The process `p` waits for the process `c`, as `internal_exit` tests it. -/
def Awaits (k : Kernel) (p c : Nat) : Prop :=
  (k.pcb p).status = .Waiting ∧ (k.pcb p).syscallNum = DSOS_CALL_WAIT ∧
    ((k.pcb p).syscallArgs 0 = 0 ∨ (k.pcb p).syscallArgs 0 = (k.pcb c).pid)

instance (k : Kernel) (p c : Nat) : Decidable (Awaits k p c) :=
  inferInstanceAs (Decidable (_ ∧ _ ∧ (_ ∨ _)))

/-- Stored parents and lists of children agree, and everybody but init has a parent. -/
structure Agree (k : Kernel) : Prop where
  both : ∀ p q, Allocated k .pcb p → Allocated k .pcb q →
    ((k.pcb p).parent = some q ↔
      ∃! x, Linked k (.children q) x ∧ k.pcbPtr x.idx = some p)
  fathered : ∀ p, Allocated k .pcb p → k.initPcb ≠ some p →
    ∃ q, (k.pcb p).parent = some q ∧ Allocated k .pcb q

/-- The running process exits and has children. -/
def ExitsWithChildren (k : Kernel) : Action → Prop
  | .syscall num _ => num = DSOS_CALL_EXIT ∧
      ∃ r ∈ k.running, (k.head (.children r)).first ≠ none
  | _ => False

instance (k : Kernel) : DecidablePred (ExitsWithChildren k)
  | .syscall _ _ => inferInstanceAs (Decidable (_ ∧ ∃ r ∈ k.running, _))
  | .timer => isFalse id
  | .restart => isFalse id
  | .store _ _ => isFalse id
  | .dispatch _ => isFalse id

/-- The parent of a process is the process that lists it. -/
theorem parent_iff (hf : Fathered s) (hs : Sound s) (hp : s.live p) :
    (s.info p).parent = some q ↔ some p ∈ s.children q := by
  refine ⟨fun hparent => ?_, hf q p⟩
  rcases hs.family.listed p hp with hnone | ⟨q', hq'⟩
  · rw [hparent] at hnone
    cases hnone
  · have he := hf q' p hq'
    rw [hparent, Option.some.injEq] at he
    rwa [he]

/-- A process is linked as a child once. -/
theorem existsUnique_link (hc : Coherent k L) :
    (∃! x, Linked k (.children q) x ∧ k.pcbPtr x.idx = some p) ↔
      some p ∈ (view k L).children q := by
  have hs := hc.tidy.strung
  have hlinked : ∀ x, Linked k (.children q) x ↔ x ∈ L (.children q) := fun x =>
    hs.linked_iff (l := .children q) (regular_children q)
  simp only [hlinked]
  constructor
  · rintro ⟨x, ⟨hx, hp⟩, _⟩
    exact List.mem_map.mpr ⟨x, hx, hp⟩
  · intro hm
    obtain ⟨x, hx, hp⟩ := List.mem_map.mp hm
    refine ⟨x, ⟨hx, hp⟩, fun y ⟨hy, hpy⟩ => ?_⟩
    exact List.inj_on_of_nodup_map (hc.sound.family.nodup q) hy hx (hpy.trans hp.symm)

theorem agree_of_fathered (hc : Coherent k L) (hf : Fathered (view k L))
    (hone : OnlyInit (view k L)) : Agree k := by
  refine ⟨fun p q hp _ => ?_, fun p hp hinit => ?_⟩
  · rw [existsUnique_link hc]
    exact parent_iff hf hc.sound hp
  · rcases hc.sound.family.listed p hp with hnone | ⟨q, hq⟩
    · exact absurd (hone p hp hnone) hinit
    · obtain ⟨_, _, _, _, hlive, _⟩ := hc.sound.family.child q _ hq
      exact ⟨q, hf q p hq, hlive⟩

theorem childless_of_guard (hc : Coherent k L) (hguard : ¬ ExitsWithChildren k a) :
    ∀ args r, a = .syscall DSOS_CALL_EXIT args → (view k L).running = some r →
      (view k L).children r = [] := by
  intro args r ha hr
  have hnone : (k.head (.children r)).first = none := by
    by_contra hne
    exact hguard (by rw [ha]; exact ⟨rfl, r, hr, hne⟩)
  rw [hc.tidy.strung.first_eq (l := .children r) (regular_children r),
    List.head?_eq_none_iff] at hnone
  show (L (.children r)).map _ = []
  rw [hnone]
  rfl

/-- Parents and children agree in every state of a run in which nobody with children
exits. A restart, which takes a sleep of the last process, would leave a second process
without a parent. -/
theorem parents_and_children {mem : Int → UInt8} {k₀ k : Kernel} {as : List Action}
    (hstart : Started mem k₀)
    (hrun : Run act (fun k a => Ordinary a ∧ ¬ ExitsWithChildren k a ∧ a ≠ .restart) k₀ as k) :
    Agree k := by
  have hboot : ∀ mem k, Booted mem k →
      Fathered (view k noNodes) ∧ OnlyInit (view k noNodes) := by
    intro mem k hb
    rw [booted_view hb]
    exact ⟨fun q p hm => (nomatch hm), fun p hp _ => congrArg some (show p = 0 from hp).symm⟩
  obtain ⟨L, hc, hf, hone⟩ := run_table (I := fun s => Fathered s ∧ OnlyInit s)
    (fun _ _ ha => ha.1) hboot
    (fun k L a s' hc h hguard hstep _ =>
      ⟨fathered_step h.1 hc.sound hstep (childless_of_guard hc hguard.2.1),
        onlyInit_step h.2 hstep hguard.2.2⟩) hstart hrun
  exact agree_of_fathered hc hf hone

/-- A child is reaped after init has waited for it. -/
theorem parents_and_children_reaped :
    ∃ k₀ k, Started (fun _ => 0) k₀ ∧
      Run act (fun k a => Ordinary a ∧ ¬ ExitsWithChildren k a ∧ a ≠ .restart) k₀
        [.syscall DSOS_CALL_SPAWN [0, 0], .syscall DSOS_CALL_SPAWN [0, 0],
          .syscall DSOS_CALL_WAIT [0, 0], .syscall DSOS_CALL_EXIT [7]] k ∧
      k.running = some 0 ∧ k.lastPid = 3 ∧ Agree k := by
  obtain ⟨k₀, k, hstart, hrun, htest⟩ := exists_run_from_start
    (fun k a => Ordinary a ∧ ¬ ExitsWithChildren k a ∧ a ≠ .restart)
    (fun k a => decide (Ordinary a ∧ ¬ ExitsWithChildren k a ∧ a ≠ .restart))
    [.syscall DSOS_CALL_SPAWN [0, 0], .syscall DSOS_CALL_SPAWN [0, 0],
      .syscall DSOS_CALL_WAIT [0, 0], .syscall DSOS_CALL_EXIT [7]]
    (fun k => k.running = some 0 ∧ k.lastPid = 3)
    (fun _ _ h => of_decide_eq_true h) (by decide +kernel)
  obtain ⟨hr, hlast⟩ := of_decide_eq_true htest
  exact ⟨k₀, k, hstart, hrun, hr, hlast, parents_and_children hstart hrun⟩

/-- A process with a child exits while init waits for it: the parent of the orphan is a
block that is free. -/
theorem orphan_keeps_freed_parent :
    ∃ k₀ k, Started (fun _ => 0) k₀ ∧
      Run act (fun _ a => Ordinary a) k₀
        [.syscall DSOS_CALL_SPAWN [0, 0], .syscall DSOS_CALL_WAIT [0, 0],
          .syscall DSOS_CALL_SPAWN [0, 0], .syscall DSOS_CALL_EXIT [7]] k ∧ ¬ Agree k := by
  obtain ⟨k₀, k, hstart, hrun, htest⟩ := exists_run_from_start (fun _ a => Ordinary a)
    (fun _ a => decide (Ordinary a))
    [.syscall DSOS_CALL_SPAWN [0, 0], .syscall DSOS_CALL_WAIT [0, 0],
      .syscall DSOS_CALL_SPAWN [0, 0], .syscall DSOS_CALL_EXIT [7]]
    (fun k => (k.pool .pcb).freeList 2 = DetachedIdx ∧ 2 < (k.pool .pcb).sizeMax ∧
      (k.pool .pcb).freeList 1 ≠ DetachedIdx ∧ k.initPcb = some 0 ∧ (k.pcb 2).parent = some 1)
    (fun _ _ h => of_decide_eq_true h) (by decide +kernel)
  obtain ⟨hused, hmax, hfree, hinit, hparent⟩ := of_decide_eq_true htest
  refine ⟨k₀, k, hstart, hrun, fun hagree => ?_⟩
  obtain ⟨q, hq, ha⟩ := hagree.fathered 2 ⟨by decide, hmax, hused⟩ (by rw [hinit]; decide)
  rw [hparent, Option.some.injEq] at hq
  subst hq
  exact hfree ha.2.2

end DisastrOS.Process.Kinship
