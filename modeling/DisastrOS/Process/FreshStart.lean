import DisastrOS.Process.FdTables
import DisastrOS.Process.Spawning
import DisastrOS.Process.Statuses

/-!
# What a new process starts with

`PCB_alloc` initialises all lists of the block but `sem_descriptors`. A process that starts
without semaphores has none until it opens one, and so for the other tables.
-/
namespace DisastrOS.Process.FreshStart

open DisastrOS.Machine
open DisastrOS.Machine.Kernel
open DisastrOS.Machine.Runs
open DisastrOS.Lists.Sequences
open DisastrOS.Lists.Wiring
open DisastrOS.Lists.RegularLists
open DisastrOS.Pool.Blocks
open DisastrOS.Process.Table
open DisastrOS.Process.Steps
open DisastrOS.Process.View
open DisastrOS.Process.Coherence
open DisastrOS.Process.Creation
open DisastrOS.Process.FdTables
open DisastrOS.Process.Spawning
open DisastrOS.Process.Statuses
open DisastrOS.Process.SystemRuns
open DisastrOS.Process.Transitions
open DisastrOS.MessageQueue.Calls
open DisastrOS.Library.GuardedRun
open DisastrOS.Library.LinkedSequence
open DisastrOS.Library.Outcome

variable {s s' : ProcessTable} {k k' : Kernel} {L L' : HeadAddr → List Node} {t : Table}
  {r p : Nat} {num : Int} {args : List Int} {a : Action}

/-! ## A process lives until it exits -/

/-- The process `p` has not exited. -/
def LivesOn (s : ProcessTable) (p : Nat) : Prop := s.live p ∧ (s.info p).status ≠ .Zombie

/-- The dead do not run. -/
theorem livesOn_running (hs : Sound s) (hr : s.running = some p) : LivesOn s p :=
  ⟨hs.placed.live_of_running hr, fun hz =>
    (hs.placed.not_mem_of_running hr).2.2
      ((hs.marked.dead p).mpr ⟨hs.placed.live_of_running hr, hz⟩)⟩

theorem livesOn_rescheduled (h : LivesOn s p) (hs : Rescheduled s s') : LivesOn s' p := by
  have hlive : s'.live p ↔ s.live p := by rw [hs.rest]
  refine ⟨hlive.mpr h.1, fun hz => ?_⟩
  rcases hs.status p with he | he | he
  · exact h.2 (he ▸ hz)
  · exact nomatch he.symm.trans hz
  · exact nomatch he.symm.trans hz

theorem livesOn_parked (h : LivesOn s p) {u : ProcessTable} (hlive : u.live = s.live)
    (hinfo : u.info = (s.setStatus r .Waiting).info) : LivesOn u p := by
  refine ⟨by rw [hlive]; exact h.1, ?_⟩
  rw [hinfo, status_setStatus]
  split
  · exact nofun
  · exact h.2

theorem livesOn_handled (h : LivesOn s p) (hh : Handled s r num s')
    (hexit : num = DSOS_CALL_EXIT → p ≠ r) : LivesOn s' p := by
  cases hh with
  | quiet => exact h
  | preempt hsched => exact livesOn_rescheduled h (schedules_rescheduled hsched)
  | @spawn num q _ _ hq _ _ _ _ =>
    have hne : p ≠ q := fun he => hq (he ▸ h.1)
    refine ⟨.inr h.1, ?_⟩
    show (Function.update s.info q _ p).status ≠ _
    rw [Function.update_of_ne hne]
    exact h.2
  | sleep => exact livesOn_parked h rfl rfl
  | waitBlock => exact livesOn_parked h rfl rfl
  | waitCollect _ _ hz =>
    have hne : p ≠ _ := fun he => h.2 (he ▸ hz)
    exact ⟨⟨hne, h.1⟩, h.2⟩
  | @exitNext i parent =>
    refine ⟨h.1, ?_⟩
    rw [status_setStatus]
    split
    · exact nofun
    · show (((s.adopt r i).die r parent).info p).status ≠ _
      rw [status_died, if_neg (hexit rfl)]
      exact h.2
  | @exitReport i parent =>
    refine ⟨⟨hexit rfl, h.1⟩, ?_⟩
    show ((((s.adopt r i).die r parent).setStatus parent .Running).info p).status ≠ _
    rw [status_setStatus]
    split
    · exact nofun
    · rw [status_died, if_neg (hexit rfl)]
      exact h.2
  | semBlock => exact h
  | semWake => exact h

theorem livesOn_step (h : LivesOn s p) (hstep : Step s a s')
    (hexit : s.running = some p → ∀ args, a ≠ .syscall DSOS_CALL_EXIT args) : LivesOn s' p := by
  cases hstep with
  | refused => exact h
  | @call r num args _ hr hh =>
    have hcalled : LivesOn (s.modify r fun q => q.called num args) p := by
      refine ⟨h.1, ?_⟩
      show (Function.update s.info r ((s.info r).called num args) p).status ≠ _
      rw [Function.update_apply]
      split
      · next he => exact he ▸ h.2
      · exact h.2
    refine livesOn_handled hcalled hh fun hnum hp => ?_
    exact hexit (hp ▸ hr) args (by rw [hnum])
  | tick _ hsched =>
    have hstart : LivesOn { s with time := s.time + 1 } p := h
    exact livesOn_rescheduled hstart (schedules_rescheduled hsched)
  | @restart q _ _ hq =>
    have hne : p ≠ q := fun he => hq (he ▸ h.1)
    refine ⟨.inr h.1, ?_⟩
    show (Function.update s.info q _ p).status ≠ _
    rw [Function.update_of_ne hne]
    exact h.2
  | store => exact h

/-! ## Calls without descriptors -/

/-- The calls that use a descriptor of a table. -/
def Uses : Table → Int → Prop
  | .resource, num => num = DSOS_CALL_CLOSE_RESOURCE
  | .semaphore, num => num = DSOS_CALL_SEMWAIT ∨ num = DSOS_CALL_SEMPOST ∨ num = DSOS_CALL_SEMCLOSE
  | .mq, num => num = DSOS_CALL_MQREAD ∨ num = DSOS_CALL_MQWRITE ∨ num = DSOS_CALL_MQCLOSE

/-- The call of `p` returns a negative error, and changes nothing else. -/
def RefusesCall (k : Kernel) (p : Nat) (num : Int) (args : List Int) : Prop :=
  ∃ err < 0, k.act (.syscall num args) = .ok ((k.setCall p num args).setRetvalue p err)

theorem boundTo_nil {fd : Int} (hs : Strung Regular Retained k L) (hL : L (.opened t p) = []) :
    k.boundTo t p fd = .ok none := by
  have hreg : Regular (HeadAddr.opened t p).nodeKind := regular_descriptorKind t
  unfold boundTo descriptorListByFd
  rw [hs.search_pure hreg, hL]
  rfl

theorem closeResource_nil (hs : Strung Regular Retained k L) (hr : k.running = some r)
    (hL : L (.opened .resource r) = []) :
    internalCloseResource k = .ok (k.setRetvalue r DSOS_ERESOURCECLOSE) := by
  have hreg : Regular (HeadAddr.opened .resource r).nodeKind := regular_descriptorKind .resource
  unfold internalCloseResource descriptorListByFd
  rw [deref_eq_ok.mpr hr]
  simp only [bind, Except.bind]
  rw [hs.search_pure hreg, hL]
  rfl

theorem semWait_nil (hs : Strung Regular Retained k L) (hr : k.running = some r)
    (hL : L (.opened .semaphore r) = []) :
    internalSemWait k = .ok (k.setRetvalue r DSOS_ESEMAPHOREWAIT) := by
  unfold internalSemWait
  rw [deref_eq_ok.mpr hr]
  simp only [bind, Except.bind]
  rw [boundTo_nil hs hL]
  exact ite_self _

theorem semPost_nil (hs : Strung Regular Retained k L) (hr : k.running = some r)
    (hL : L (.opened .semaphore r) = []) :
    internalSemPost k = .ok (k.setRetvalue r DSOS_ESEMAPHOREPOST) := by
  unfold internalSemPost
  rw [deref_eq_ok.mpr hr]
  simp only [bind, Except.bind]
  rw [boundTo_nil hs hL]
  exact ite_self _

theorem semClose_nil (hs : Strung Regular Retained k L) (hr : k.running = some r)
    (hL : L (.opened .semaphore r) = []) :
    internalSemClose k = .ok (k.setRetvalue r DSOS_ESEMAPHORECLOSE) := by
  unfold internalSemClose
  rw [deref_eq_ok.mpr hr]
  simp only [bind, Except.bind]
  rw [boundTo_nil hs hL]
  exact ite_self _

theorem mqClose_nil (hs : Strung Regular Retained k L) (hr : k.running = some r)
    (hL : L (.opened .mq r) = []) : internalMqClose k = .ok (k.setRetvalue r DSOS_EMQCLOSE) := by
  unfold internalMqClose
  rw [deref_eq_ok.mpr hr]
  simp only [bind, Except.bind]
  rw [boundTo_nil hs hL]
  exact ite_self _

theorem mqRead_nil (hs : Strung Regular Retained k L) (hr : k.running = some r)
    (hL : L (.opened .mq r) = []) : internalMqRead k = .ok (k.setRetvalue r DSOS_EMQREAD) := by
  unfold internalMqRead
  rw [deref_eq_ok.mpr hr]
  simp only [bind, Except.bind]
  rw [boundTo_nil hs hL]
  exact ite_self _

theorem mqWrite_nil (hs : Strung Regular Retained k L) (hr : k.running = some r)
    (hL : L (.opened .mq r) = []) : internalMqWrite k = .ok (k.setRetvalue r DSOS_EMQWRITE) := by
  unfold internalMqWrite
  rw [deref_eq_ok.mpr hr]
  simp only [bind, Except.bind]
  rw [boundTo_nil hs hL]
  simp only [pure, Except.pure, ite_self]

/-- A process with no descriptor in a table is refused every call on one. -/
theorem uses_refused (hc : Coherent k L) (hr : k.running = some r) (hL : L (.opened t r) = [])
    (hnum : Uses t num) : RefusesCall k r num args := by
  have hs : Strung Regular Retained (k.setCall r num args) L :=
    (coherent_setCall hc hr).tidy.strung
  have hr' : (k.setCall r num args).running = some r := hr
  cases t with
  | resource =>
    obtain rfl := hnum
    exact ⟨_, by decide, syscall_returns args rfl (by decide) (by decide) hr
      (closeResource_nil hs hr' hL) hr'⟩
  | semaphore =>
    rcases hnum with rfl | rfl | rfl
    · exact ⟨_, by decide, syscall_returns args rfl (by decide) (by decide) hr
      (semWait_nil hs hr' hL) hr'⟩
    · exact ⟨_, by decide, syscall_returns args rfl (by decide) (by decide) hr
      (semPost_nil hs hr' hL) hr'⟩
    · exact ⟨_, by decide, syscall_returns args rfl (by decide) (by decide) hr
      (semClose_nil hs hr' hL) hr'⟩
  | mq =>
    rcases hnum with rfl | rfl | rfl
    · exact ⟨_, by decide, syscall_returns args rfl (by decide) (by decide) hr
      (mqRead_nil hs hr' hL) hr'⟩
    · exact ⟨_, by decide, syscall_returns args rfl (by decide) (by decide) hr
      (mqWrite_nil hs hr' hL) hr'⟩
    · exact ⟨_, by decide, syscall_returns args rfl (by decide) (by decide) hr
      (mqClose_nil hs hr' hL) hr'⟩

/-! ## The new process -/

/-- Nothing of a process that has used the block before is left. -/
structure Clean (k : Kernel) (p : Nat) : Prop where
  opened : ∀ t, Holds k.lists (.opened t p) []
  children : Holds k.lists (.children p) []
  timer : (k.pcb p).timer = none
  signals : (k.pcb p).signals = 0

/-- If it is `p` that runs, it neither opens an object of the table nor exits. -/
def Abstains (t : Table) (p : Nat) (k : Kernel) (a : Action) : Prop :=
  k.running = some p → ∀ args, a ≠ .syscall (openCall t) args ∧ a ≠ .syscall DSOS_CALL_EXIT args

/-- `p` starts clean, and is refused all calls on descriptors that it has not opened. -/
def StartsClean (k : Kernel) (p : Nat) : Prop :=
  Clean k p ∧ ∀ t as k', Run act (fun k a => Ordinary a ∧ Abstains t p k a) k as k' →
    k'.running = some p → ∀ num args, Uses t num → RefusesCall k' p num args

theorem nil_of_fds (h : (fdTable t k L p).fds = []) : L (.opened t p) = [] :=
  List.map_eq_nil_iff.mp h

/-- A process that has nothing open in a table and abstains goes on so. -/
theorem nothing_opened (hc : Coherent k L) (hact : Acted k L a k' L')
    (hstep : Step (view k L) a (view k' L')) (habstains : Abstains t p k a)
    (hp : LivesOn (view k L) p) (hL : L (.opened t p) = []) :
    LivesOn (view k' L') p ∧ L' (.opened t p) = [] := by
  have hlives : LivesOn (view k' L') p :=
    livesOn_step hp hstep fun hr args => (habstains hr args).2
  refine ⟨hlives, nil_of_fds (k := k') ?_⟩
  have hfds : (fdTable t k L p).fds = [] := List.map_eq_nil_iff.mpr hL
  cases fdMoved_acted (t := t) (p := p) hc hact with
  | old _ hstep =>
    generalize fdTable t k L p = f at hfds hstep
    generalize fdTable t k' L' p = f' at hstep
    cases hstep with
    | kept => exact hfds
    | opened ho =>
      obtain ⟨hr, args, ha⟩ := ho
      exact absurd ha (habstains hr args).1
    | closed => simp at hfds
  | new hno => exact absurd hp.1 hno
  | freed _ hno => exact absurd hlives.1 hno

theorem refused_along {as : List Action} (hc : Coherent k L) (hp : LivesOn (view k L) p)
    (hL : L (.opened t p) = []) (h : Run act (fun k a => Ordinary a ∧ Abstains t p k a) k as k') :
    ∃ L', Coherent k' L' ∧ L' (.opened t p) = [] := by
  obtain ⟨L', hc', _, hL'⟩ := run_invariant
    (I := fun k => ∃ L, Coherent k L ∧ LivesOn (view k L) p ∧ L (.opened t p) = [])
    (fun k a k' hi ha hact => by
      obtain ⟨L, hc, hp, hL⟩ := hi
      obtain ⟨L', hacted, hc', hstep⟩ := act_done hc ha.1 hact
      exact ⟨L', hc', nothing_opened hc hacted hstep ha.2 hp hL⟩)
    ⟨L, hc, hp, hL⟩ h
  exact ⟨L', hc', hL'⟩

/-- The call has created a process in the first free block. -/
theorem spawned_of_act (hc : Coherent k L) (hnum : Creation num)
    (h : k.act (.syscall num args) = .ok k') :
    ∃ r p ptr L', p ≠ r ∧ Spawned (k.setCall r num args) L r p ptr k' L' ∧ Coherent k' L' := by
  cases hr : k.running with
  | none =>
    have h : k.disastrOSSyscall num args = .ok k' := h
    unfold disastrOSSyscall at h
    rw [hr] at h
    cases h
  | some r =>
    have hc₁ : Coherent (k.setCall r num args) L := coherent_setCall hc hr
    have hr₁ : (k.setCall r num args).running = some r := hr
    obtain ⟨p, ptr, L', hsp, hm⟩ :=
      spawn_refines hc₁ hr₁ hnum decide_eq_true ((act_creation hc hnum hr).symm.trans h)
    have hrl : Allocated (k.setCall r num args) .pcb r := hc₁.sound.placed.live_of_running hr₁
    refine ⟨r, p, ptr, L', fun he => hsp.fresh (he ▸ hrl), hsp, hm.tidy, hm.hung hc₁.hung, ?_⟩
    refine handled_sound hm.move hc₁.sound hr ?_
    show ((k.setCall r num args).pcb r).syscallNum = num
    simp [setCall, modPcb]

theorem clean_iff {ptr : Nat} (hpr : p ≠ r) (h : Spawned k L r p ptr k' L') :
    Clean k' p ↔ L (.opened .semaphore p) = [] := by
  have hs' := h.woven.strung
  have hreg : ∀ t : Table, Regular (HeadAddr.opened t p).nodeKind := regular_descriptorKind
  have hopened : ∀ t, L' (.opened t p) = allocLists L p (.opened t p) := fun t =>
    h.lists_of_ne (by simp) (by simp)
  have hsem : L' (.opened .semaphore p) = L (.opened .semaphore p) := by
    rw [hopened]
    exact allocLists_of_ne (by simp) (by simp) (by simp)
  have hself := h.self hpr
  constructor
  · intro hclean
    rw [← hsem]
    exact represents_unique (hs'.holds (hreg .semaphore)) (hclean.opened .semaphore)
  · intro hL
    refine ⟨fun t => ?_, ?_, by rw [hself]; rfl, by rw [hself]; rfl⟩
    · have hnil : L' (.opened t p) = [] := by
        cases t with
        | resource => rw [hopened]; simp [allocLists]
        | semaphore => rw [hsem, hL]
        | mq => rw [hopened]; simp [allocLists]
      rw [← hnil]
      exact hs'.holds (hreg t)
    · have hnil : L' (.children p) = [] := by
        rw [h.lists_of_ne (by simp) (by simp [hpr])]
        exact allocLists_children
      rw [← hnil]
      exact hs'.holds (regular_children p)

theorem startsClean_iff {ptr : Nat} (hpr : p ≠ r) (h : Spawned k L r p ptr k' L')
    (hc' : Coherent k' L') : StartsClean k' p ↔ L (.opened .semaphore p) = [] := by
  rw [← clean_iff hpr h]
  refine ⟨And.left, fun hclean => ⟨hclean, fun t as k'' hrun hr num args hnum => ?_⟩⟩
  have hs' := hc'.tidy.strung
  have hreg : Regular (HeadAddr.opened t p).nodeKind := regular_descriptorKind t
  have hlives : LivesOn (view k' L') p := by
    refine ⟨(h.allocated _ _).mpr (.inl ⟨rfl, rfl⟩), ?_⟩
    show (k'.pcb p).status ≠ _
    rw [h.pcb, Function.update_of_ne hpr, Function.update_self]
    exact nofun
  have hL : L' (.opened t p) = [] := represents_unique (hs'.holds hreg) (hclean.opened t)
  obtain ⟨L'', hc'', hL''⟩ := refused_along hc' hlives hL hrun
  exact uses_refused hc'' hr hL'' hnum

/-- In every reachable state a new process starts clean exactly when no semaphore is listed in
the block that it gets. -/
theorem new_process_clean_iff {mem : Int → UInt8} {k₀ : Kernel} {as : List Action}
    (hs : Started mem k₀) (h : Run act (fun _ a => Ordinary a) k₀ as k) (hnum : Creation num)
    (hact : k.act (.syscall num args) = .ok k') :
    ∃ p : Nat, (k.pool .pcb).firstIdx = p ∧ ¬ Allocated k .pcb p ∧ Allocated k' .pcb p ∧
      (StartsClean k' p ↔ (k.head (.opened .semaphore p)).first = none) := by
  obtain ⟨L, hc⟩ := coherent_run hs h
  obtain ⟨r, p, ptr, L', hpr, hsp, hc'⟩ := spawned_of_act hc hnum hact
  have hreg : Regular (HeadAddr.opened .semaphore p).nodeKind := regular_descriptorKind .semaphore
  refine ⟨p, hsp.first, hsp.fresh, (hsp.allocated _ _).mpr (.inl ⟨rfl, rfl⟩), ?_⟩
  rw [startsClean_iff hpr hsp hc', hc.tidy.strung.first_eq hreg, List.head?_eq_none_iff]

theorem exists_of_isOk {x : Except Fault Kernel} (h : x.isOk = true) : ∃ k', x = .ok k' := by
  cases x with
  | ok k' => exact ⟨k', rfl⟩
  | error _ => cases h

/-- The first child of init starts clean. -/
theorem new_process_clean_first :
    ∃ k₀ k k', Started (fun _ => 0) k₀ ∧ Run act (fun _ a => Ordinary a) k₀ [] k ∧
      k.act (.syscall DSOS_CALL_SPAWN [0, 0]) = .ok k' ∧ StartsClean k' 1 := by
  obtain ⟨k₀, k, hs, h, htest⟩ := exists_run_from_start (fun _ a => Ordinary a)
    (fun _ a => decide (Ordinary a)) []
    (fun k => (k.pool .pcb).firstIdx = 1 ∧ (k.head (.opened .semaphore 1)).first = none ∧
      (k.act (.syscall DSOS_CALL_SPAWN [0, 0])).isOk = true)
    (fun _ _ h => of_decide_eq_true h) (by decide +kernel)
  obtain ⟨hfirst, hnone, hok⟩ := of_decide_eq_true htest
  obtain ⟨k', hact⟩ := exists_of_isOk hok
  obtain ⟨p, hp, -, -, hiff⟩ := new_process_clean_iff hs h (.inl rfl) hact
  obtain rfl : p = 1 := by omega
  exact ⟨k₀, k, k', hs, h, hact, hiff.mpr hnone⟩

/-- A child opens a semaphore and exits while init waits for it. The next child gets its block
and its semaphore. -/
theorem new_process_inherits_semaphore :
    ∃ k₀ k k', Started (fun _ => 0) k₀ ∧
      Run act (fun _ a => Ordinary a) k₀
        [.syscall DSOS_CALL_SPAWN [0, 0], .syscall DSOS_CALL_WAIT [0, 0],
          .syscall DSOS_CALL_SEMOPEN [7, 1, 0], .syscall DSOS_CALL_EXIT [0]] k ∧
      k.act (.syscall DSOS_CALL_SPAWN [0, 0]) = .ok k' ∧ ¬ Allocated k .pcb 1 ∧
      Allocated k' .pcb 1 ∧ ¬ StartsClean k' 1 := by
  obtain ⟨k₀, k, hs, h, htest⟩ := exists_run_from_start (fun _ a => Ordinary a)
    (fun _ a => decide (Ordinary a))
    [.syscall DSOS_CALL_SPAWN [0, 0], .syscall DSOS_CALL_WAIT [0, 0],
      .syscall DSOS_CALL_SEMOPEN [7, 1, 0], .syscall DSOS_CALL_EXIT [0]]
    (fun k => (k.pool .pcb).firstIdx = 1 ∧ (k.head (.opened .semaphore 1)).first ≠ none ∧
      (k.act (.syscall DSOS_CALL_SPAWN [0, 0])).isOk = true)
    (fun _ _ h => of_decide_eq_true h) (by decide +kernel)
  obtain ⟨hfirst, hsome, hok⟩ := of_decide_eq_true htest
  obtain ⟨k', hact⟩ := exists_of_isOk hok
  obtain ⟨L, hc⟩ := coherent_run hs h
  obtain ⟨r, p, ptr, L', hpr, hsp, hc'⟩ := spawned_of_act hc (.inl rfl) hact
  have hp : (k.pool .pcb).firstIdx = p := hsp.first
  obtain rfl : p = 1 := by omega
  refine ⟨k₀, k, k', hs, h, hact, hsp.fresh, (hsp.allocated _ _).mpr (.inl ⟨rfl, rfl⟩), ?_⟩
  have hreg : Regular (HeadAddr.opened .semaphore 1).nodeKind := regular_descriptorKind .semaphore
  rw [startsClean_iff hpr hsp hc']
  intro hL
  rw [hc.tidy.strung.first_eq hreg, hL] at hsome
  exact hsome rfl

end DisastrOS.Process.FreshStart
