import DisastrOS.Process.Contexts
import DisastrOS.Process.Spawning
import DisastrOS.Process.WaitAnswers

/-!
# A child exits and its parent waits

A child may exit before its parent waits, or while it waits. `internal_wait` frees the link to
the child in the first case, `internal_exit` does not free it in the second one, so the two
orders never end with the same blocks in use.
-/
namespace DisastrOS.Process.ExitWait

open DisastrOS.Machine
open DisastrOS.Machine.Kernel
open DisastrOS.Machine.Runs
open DisastrOS.Lists.Sequences
open DisastrOS.Lists.Wiring
open DisastrOS.Lists.RegularLists
open DisastrOS.Lists.Boot
open DisastrOS.Pool.Blocks
open DisastrOS.Pool.BlockContract
open DisastrOS.Process.Table
open DisastrOS.Process.Steps
open DisastrOS.Process.View
open DisastrOS.Process.Coherence
open DisastrOS.Process.Contexts
open DisastrOS.Process.Exit
open DisastrOS.Process.Kinship
open DisastrOS.Process.Resumption
open DisastrOS.Process.Scheduling
open DisastrOS.Process.Spawning
open DisastrOS.Process.SystemRuns
open DisastrOS.Process.Transitions
open DisastrOS.Process.WaitAnswers
open DisastrOS.Process.Waiting
open DisastrOS.MessageQueue.Calls
open DisastrOS.Library.GuardedRun
open DisastrOS.Library.LinkedSequence

variable {s s' : ProcessTable} {k k' k'' k₁ k₂ : Kernel} {L L' L'' : HeadAddr → List Node}
  {L₁ L₂ : HeadAddr → List Node} {p c r q ptr : Nat} {num pid v result : Int} {args : List Int}
  {a : Action} {as : List Action}

/-! ## The two orders -/

/-- The CPU is passed on. -/
def PassesOn : Action → Prop
  | .syscall num _ => num = DSOS_CALL_PREEMPT
  | .timer => True
  | _ => False

instance : DecidablePred PassesOn
  | .syscall num _ => inferInstanceAs (Decidable (num = DSOS_CALL_PREEMPT))
  | .timer => isTrue trivial
  | .restart => isFalse id
  | .store _ _ => isFalse id
  | .dispatch _ => isFalse id

/-- The CPU is passed on until `p` runs, which makes the call. -/
def CallsNext (k : Kernel) (p : Nat) (num : Int) (args : List Int) (k' : Kernel) : Prop :=
  ∃ as k₁, Run act (fun _ a => PassesOn a) k as k₁ ∧ k₁.running = some p ∧
    k₁.act (.syscall num args) = .ok k'

/-- The child `c` exits with `v`, then its parent `p` waits. -/
def ExitThenWait (k : Kernel) (p c : Nat) (v pid result : Int) (k' : Kernel) : Prop :=
  ∃ k₁, CallsNext k c DSOS_CALL_EXIT [v] k₁ ∧ CallsNext k₁ p DSOS_CALL_WAIT [pid, result] k'

/-- The parent `p` waits, then its child `c` exits with `v`. -/
def WaitThenExit (k : Kernel) (p c : Nat) (v pid result : Int) (k' : Kernel) : Prop :=
  ∃ k₁, CallsNext k p DSOS_CALL_WAIT [pid, result] k₁ ∧ CallsNext k₁ c DSOS_CALL_EXIT [v] k'

/-- The process `p` can wait for its child `c`, none of its children is a zombie, and there is a
third process to run. -/
structure AboutToWait (k : Kernel) (p c : Nat) (pid : Int) : Prop where
  child : ChildOf k p c
  caller : k.running = some p ∨ Linked k .readyList ⟨.pcb, p⟩
  alive : ∀ d, ChildOf k p d → (k.pcb d).status ≠ .Zombie
  pid : pid = 0 ∨ pid = (k.pcb c).pid
  further : ∃ q, q ≠ p ∧ q ≠ c ∧ Linked k .readyList ⟨.pcb, q⟩

/-- The parent has been told of the exit. -/
structure Told (k : Kernel) (p c : Nat) (v result : Int) (k' : Kernel) : Prop where
  returns : (k'.pcb p).syscallRetvalue = (k.pcb c).pid
  stores : k.storeResult result (toInt v) = .ok { k with mem := k'.mem }

/-- The blocks that the death of a process frees. -/
def OfProcess : Kind → Prop
  | .pcb | .pcbPtr | .descriptor | .descriptorPtr | .timerItem => True
  | _ => False

/-- Both orders tell the parent, and leave the same blocks in use, the same children of the
parent and the same users of all resources. -/
structure SameEnd (k : Kernel) (p c : Nat) (v result : Int) (k' k'' : Kernel) : Prop where
  exitFirst : Told k p c v result k'
  waitFirst : Told k p c v result k''
  blocks : ∀ kind, OfProcess kind → ∀ i, Allocated k' kind i ↔ Allocated k'' kind i
  children : ∀ xs, Holds k'.lists (.children p) xs ↔ Holds k''.lists (.children p) xs
  users : ∀ o xs, Holds k'.lists (.users .resource o) xs ↔ Holds k''.lists (.users .resource o) xs

/-! ## Pids -/

/-- Pids fit into an `int`. -/
structure PidsFit (s : ProcessTable) : Prop where
  last : 0 ≤ s.lastPid ∧ s.lastPid < 2 ^ 31
  nonneg : ∀ p, s.live p → 0 ≤ (s.info p).pid

/-- A process keeps its pid. -/
theorem pid_handled (h : Handled s r num s') (hp : s.live p) :
    (s'.info p).pid = (s.info p).pid :=
  (sameOrigin_handled h hp).pid

theorem pid_step (h : Step s a s') (hp : s.live p) : (s'.info p).pid = (s.info p).pid :=
  (sameOrigin_step h hp).pid

theorem pidsFit_handled (h : PidsFit s) (hh : Handled s r num s') : PidsFit s' := by
  have hkept : s'.lastPid = s.lastPid → (∀ p, s'.live p → s.live p) → PidsFit s' := by
    intro hlast hlive
    refine ⟨hlast ▸ h.last, fun p hp => ?_⟩
    rw [pid_handled hh (hlive p hp)]
    exact h.nonneg p (hlive p hp)
  cases hh with
  | quiet => exact h
  | preempt hs =>
    exact hkept (by rw [(schedules_rescheduled hs).rest]) fun p hp => by
      rwa [(schedules_rescheduled hs).rest] at hp
  | @spawn _ c q _ hc hpid hfits _ _ =>
    have hlast := h.last
    refine ⟨⟨?_, hfits⟩, fun p hp => ?_⟩
    · show 0 ≤ s.lastPid + 1
      omega
    · show 0 ≤ (Function.update s.info c q p).pid
      rw [Function.update_apply]
      split
      · rw [hpid]
        exact hlast.1
      · next hne => exact h.nonneg p (hp.resolve_left hne)
  | sleep => exact hkept rfl fun _ hp => hp
  | waitBlock => exact hkept rfl fun _ hp => hp
  | waitCollect => exact hkept rfl fun _ hp => hp.2
  | exitNext => exact hkept rfl fun _ hp => hp
  | exitReport => exact hkept rfl fun _ hp => hp.2
  | semBlock => exact hkept rfl fun _ hp => hp
  | semWake => exact hkept rfl fun _ hp => hp

theorem pidsFit_step (h : PidsFit s) (hstep : Step s a s') : PidsFit s' := by
  cases hstep with
  | refused => exact h
  | @call r num args _ _ hh =>
    refine pidsFit_handled (s := s.modify r fun q => q.called num args) ⟨h.last, fun p hp => ?_⟩ hh
    show 0 ≤ (Function.update s.info r _ p).pid
    rw [Function.update_apply]
    split
    · next he =>
      subst he
      exact h.nonneg p hp
    · exact h.nonneg p hp
  | tick _ hs =>
    have hr := schedules_rescheduled hs
    refine ⟨?_, fun p hp => ?_⟩
    · rw [hr.rest]
      exact h.last
    · rw [hr.rest] at hp
      rw [hr.info p]
      exact h.nonneg p hp
  | @restart c q _ _ hpid hfits _ _ =>
    have hlast := h.last
    refine ⟨⟨?_, hfits⟩, fun p hp => ?_⟩
    · show 0 ≤ s.lastPid + 1
      omega
    · show 0 ≤ (Function.update s.info c q p).pid
      rw [Function.update_apply]
      split
      · rw [hpid]
        exact hlast.1
      · next hne => exact h.nonneg p (hp.resolve_left hne)
  | store => exact h

theorem pidsFit_booted {mem : Int → UInt8} (hb : Booted mem k) : PidsFit (view k noNodes) := by
  rw [booted_view hb]
  refine ⟨⟨by decide, by decide⟩, fun p hp => ?_⟩
  obtain rfl : p = 0 := hp
  show 0 ≤ (Function.update (fun _ => ({} : PCB)) 0 _ 0).pid
  rw [Function.update_self]

theorem reachable_pids {mem : Int → UInt8} {k₀ : Kernel} (hs : Started mem k₀)
    (h : Run act (fun _ a => Ordinary a) k₀ as k) :
    ∃ L, Coherent k L ∧ PidsFit (view k L) ∧ NotOwnChild (view k L) :=
  run_table (I := fun s => PidsFit s ∧ NotOwnChild s) (fun _ _ ha => ha)
    (fun _ _ hb => ⟨pidsFit_booted hb, fun _ hm => (List.not_mem_nil hm).elim⟩)
    (fun _ _ _ _ hc hi _ hstep _ =>
      ⟨pidsFit_step hi.1 hstep, notOwnChild_step hi.2 hc.sound hstep⟩) hs h

/-! ## Passing the CPU on -/

/-- What passing the CPU on leaves alone. -/
structure Passed (k : Kernel) (L : HeadAddr → List Node) (k' : Kernel)
    (L' : HeadAddr → List Node) : Prop where
  links : k'.pool .pcbPtr = k.pool .pcbPtr
  pcbPtr : k'.pcbPtr = k.pcbPtr
  children : ∀ q, L' (.children q) = L (.children q)
  zombie : (view k' L').zombie = (view k L).zombie
  live : (view k' L').live = (view k L).live
  pid : ∀ q, (k'.pcb q).pid = (k.pcb q).pid
  waiting : ∀ q ∈ (view k' L').waiting, q ∈ (view k L).waiting

theorem Passed.refl : Passed k L k L :=
  ⟨rfl, rfl, fun _ => rfl, rfl, rfl, fun _ => rfl, fun _ hq => hq⟩

theorem Passed.trans (h : Passed k L k' L') (h' : Passed k' L' k'' L'') : Passed k L k'' L'' :=
  ⟨h'.links.trans h.links, h'.pcbPtr.trans h.pcbPtr, fun q => (h'.children q).trans (h.children q),
    h'.zombie.trans h.zombie, h'.live.trans h.live, fun q => (h'.pid q).trans (h.pid q),
    fun q hq => h.waiting q (h'.waiting q hq)⟩

theorem passed_setCall : Passed k L (k.setCall r num args) L :=
  ⟨rfl, rfl, fun _ => rfl, rfl, rfl, fun _ => pid_setCall, fun _ hq => hq⟩

theorem passed_scheduled (hb : Scheduled k L k' L')
    (h : view k' L' = view k L ∨ Schedules (view k L) (view k' L')) : Passed k L k' L' := by
  have hr : Rescheduled (view k L) (view k' L') := by
    rcases h with he | h
    · rw [he]
      exact .refl _
    · exact schedules_rescheduled h
  refine ⟨hb.pool _ (by decide), by rw [hb.rest], fun q => hb.lists _ id, by rw [hr.rest],
    by rw [hr.rest], fun q => ?_, fun q hq => ?_⟩
  · have hpid : ((view k' L').info q).pid = ((view k L).info q).pid := by rw [hr.info q]
    exact hpid
  · rcases h with he | h
    · rwa [he] at hq
    · exact waiting_of_schedules h hq

theorem handled_preempt (h : Handled s r num s') (hnum : num = DSOS_CALL_PREEMPT) :
    s' = s ∨ Schedules s s' := by
  cases h with
  | quiet => exact .inl rfl
  | preempt h => exact .inr h
  | spawn hspawn => rcases hspawn with rfl | rfl <;> exact absurd hnum (by decide)
  | _ => exact absurd hnum (by decide)

theorem passed_preempt (hc : Coherent k L) (hr : k.running = some r)
    (hact : act k (.syscall DSOS_CALL_PREEMPT args) = .ok k') :
    ∃ L', Coherent k' L' ∧ Passed k L k' L' := by
  have hcall : internalPreempt (k.setCall r DSOS_CALL_PREEMPT args) = .ok k' :=
    syscall_handled args rfl (by decide) (by decide) hr hact
  have hc₁ : Coherent (k.setCall r DSOS_CALL_PREEMPT args) L := coherent_setCall hc hr
  have hset : Passed k L (k.setCall r DSOS_CALL_PREEMPT args) L := passed_setCall
  obtain ⟨L', hb, hm⟩ := preempt_refines (r := r) hc₁ hcall
  refine ⟨L', ⟨hm.tidy, hm.hung hc₁.hung, handled_sound hm.move hc₁.sound hr ?_⟩,
    hset.trans (passed_scheduled hb (handled_preempt hm.move rfl))⟩
  show ((k.setCall r DSOS_CALL_PREEMPT args).pcb r).syscallNum = _
  simp [setCall, modPcb]

theorem passesOn_ordinary (a : Action) (h : PassesOn a) : Ordinary a := by
  cases a with
  | dispatch => exact h.elim
  | _ => trivial

theorem passed_step (hc : Coherent k L) (ha : PassesOn a) (hact : act k a = .ok k') :
    ∃ L', Coherent k' L' ∧ Passed k L k' L' := by
  obtain ⟨L', hacted, hc', hstep⟩ := act_done hc (passesOn_ordinary a ha) hact
  cases hacted with
  | ignored => exact ⟨L, hc, .refl⟩
  | called hr _ =>
    obtain rfl : _ = DSOS_CALL_PREEMPT := ha
    exact passed_preempt hc hr hact
  | ticked _ hb =>
    refine ⟨L', hc', ?_⟩
    generalize hv : view k' L' = s' at hstep
    cases hstep with
    | tick _ hs =>
      subst hv
      have hpassed := passed_scheduled hb (.inr hs)
      exact ⟨hpassed.links, hpassed.pcbPtr, hpassed.children, hpassed.zombie, hpassed.live,
        hpassed.pid, hpassed.waiting⟩
  | restarted => exact ha.elim
  | stored => exact ha.elim

/-- Passing the CPU on any number of times. -/
theorem passed_run (hc : Coherent k L) (h : Run act (fun _ a => PassesOn a) k as k') :
    ∃ L', Coherent k' L' ∧ Passed k L k' L' := by
  refine run_invariant (I := fun k' => ∃ L', Coherent k' L' ∧ Passed k L k' L') ?_
    ⟨L, hc, .refl⟩ h
  rintro k₁ a k₂ ⟨L₁, hc₁, hp₁⟩ ha hact
  obtain ⟨L₂, hc₂, hp₂⟩ := passed_step hc₁ ha hact
  exact ⟨L₂, hc₂, hp₁.trans hp₂⟩

/-! ## Waiting first -/

/-- A wait frees the link to a zombie only. -/
theorem link_kept_by_wait (hused : Allocated k .pcbPtr ptr) (hptr : k.pcbPtr ptr = some c)
    (hz : (k.pcb c).status ≠ .Zombie) (h : Called k L r num k' L') (hnum : num = DSOS_CALL_WAIT) :
    Allocated k' .pcbPtr ptr := by
  cases h with
  | refused => exact hused
  | collected _ hptr' _ hz' hcol =>
    refine (hcol.allocated _ _).mpr ⟨by simp, fun hsame => hz ?_, hused⟩
    rw [hsame.2, hptr', Option.some.injEq] at hptr
    rwa [← hptr]
  | waits _ _ hb => exact (allocated_of_pool (hb.pool _ (by decide))).mpr hused
  | spawned hspawn => rcases hspawn with rfl | rfl <;> exact absurd hnum (by decide)
  | mqUse huse => rcases huse with rfl | rfl | rfl <;> exact absurd hnum (by decide)
  | _ => exact absurd hnum (by decide)

/-- An exit frees no link. -/
theorem links_exit (h : Called k L r num k' L') (hnum : num = DSOS_CALL_EXIT) :
    k'.pool .pcbPtr = k.pool .pcbPtr := by
  cases h with
  | refused => rfl
  | exited hd _ _ hk _ =>
    rw [hk]
    show (_ : Kernel).pool .pcbPtr = _
    rw [hd.rest]
    rfl
  | reported hd _ hrep =>
    rw [hrep.pool _ (by decide) (by decide) (by decide), hd.rest]
  | spawned hspawn => rcases hspawn with rfl | rfl <;> exact absurd hnum (by decide)
  | mqUse huse => rcases huse with rfl | rfl | rfl <;> exact absurd hnum (by decide)
  | _ => exact absurd hnum (by decide)

/-- A process is a zombie exactly when it is in the list of zombies. -/
theorem zombie_iff (hc : Coherent k L) (hlive : Allocated k .pcb c) :
    (k.pcb c).status = .Zombie ↔ c ∈ (view k L).zombie :=
  ((hc.sound.marked.dead c).trans (and_iff_right hlive)).symm

theorem child_live (hc : Coherent k L) (hm : ⟨.pcbPtr, ptr⟩ ∈ L (.children p))
    (hptr : k.pcbPtr ptr = some c) : Allocated k .pcb c := by
  obtain ⟨d, hd, hlive, _⟩ := hc.sound.family.child p (k.pcbPtr ptr) (List.mem_map_of_mem hm)
  rw [hptr, Option.some.injEq] at hd
  subst hd
  exact hlive

theorem link_kept (hc : Coherent k L) (hm : ⟨.pcbPtr, ptr⟩ ∈ L (.children p))
    (hptr : k.pcbPtr ptr = some c) (hz : (k.pcb c).status ≠ .Zombie)
    (h : WaitThenExit k p c v pid result k') : Allocated k' .pcbPtr ptr := by
  obtain ⟨k₃, ⟨as, k₁, hrun₁, hr₁, hwait⟩, bs, k₂, hrun₂, hr₂, hexit⟩ := h
  have hlive := child_live hc hm hptr
  obtain ⟨L₁, hc₁, hp₁⟩ := passed_run hc hrun₁
  have hlive₁ : Allocated k₁ .pcb c := by
    have hsame := congrFun hp₁.live c
    exact hsame.mpr hlive
  have hz₁ : (k₁.pcb c).status ≠ .Zombie := by
    rw [Ne, zombie_iff hc₁ hlive₁, hp₁.zombie, ← zombie_iff hc hlive]
    exact hz
  have hused₁ : Allocated k₁ .pcbPtr ptr :=
    (allocated_of_pool hp₁.links).mpr (hc.tidy.strung.allocated (l := .children p)
      (regular_children p) hm)
  have hptr₁ : k₁.pcbPtr ptr = some c := by rw [hp₁.pcbPtr, hptr]
  obtain ⟨L₃, hacted₃, hc₃, -⟩ := act_done hc₁ (a := .syscall _ _) trivial hwait
  have hused₃ : Allocated k₃ .pcbPtr ptr := by
    cases hacted₃ with
    | ignored => exact hused₁
    | @called r num args _ _ _ hcall =>
      have hset : Allocated (k₁.setCall r DSOS_CALL_WAIT [pid, result]) .pcbPtr ptr := hused₁
      have hptr' : (k₁.setCall r DSOS_CALL_WAIT [pid, result]).pcbPtr ptr = some c := hptr₁
      exact link_kept_by_wait hset hptr' (by rwa [status_setCall]) hcall rfl
  obtain ⟨L₂, hc₂, hp₂⟩ := passed_run hc₃ hrun₂
  obtain ⟨_, hacted, -, -⟩ := act_done hc₂ (a := .syscall _ _) trivial hexit
  have hused₂ : Allocated k₂ .pcbPtr ptr := (allocated_of_pool hp₂.links).mpr hused₃
  cases hacted with
  | ignored => exact hused₂
  | @called r num args _ _ _ hcall =>
    have hpool : k'.pool .pcbPtr = (k₂.setCall r DSOS_CALL_EXIT [v]).pool .pcbPtr :=
      links_exit hcall rfl
    exact (allocated_of_pool hpool).mpr hused₂

/-! ## Exiting first -/

/-- The child `c` has become the last zombie, and no process has lost another child. -/
structure LeftZombie (k : Kernel) (L : HeadAddr → List Node) (c : Nat) (k' : Kernel)
    (L' : HeadAddr → List Node) : Prop where
  pcbPtr : k'.pcbPtr = k.pcbPtr
  children : ∀ q, q ≠ c → ∃ bs, L' (.children q) = L (.children q) ++ bs
  zombie : (view k' L').zombie = (view k L).zombie ++ [c]
  pid : (k'.pcb c).pid = (k.pcb c).pid

theorem LeftZombie.between (h₁ : Passed k L k₁ L₁) (h : LeftZombie k₁ L₁ c k₂ L₂)
    (h₂ : Passed k₂ L₂ k' L') : LeftZombie k L c k' L' := by
  refine ⟨h₂.pcbPtr.trans (h.pcbPtr.trans h₁.pcbPtr), fun q hq => ?_, ?_,
    (h₂.pid c).trans (h.pid.trans (h₁.pid c))⟩
  · obtain ⟨bs, hbs⟩ := h.children q hq
    exact ⟨bs, by rw [h₂.children, hbs, h₁.children]⟩
  · rw [h₂.zombie, h.zombie, h₁.zombie]

/-- The exit of a child of `p`, which does not wait. -/
theorem left_zombie (hc : Coherent k L) (hr : k.running = some c)
    (hm : ⟨.pcbPtr, ptr⟩ ∈ L (.children p)) (hptr : k.pcbPtr ptr = some c) (hpc : p ≠ c)
    (hp : p ∉ (view k L).waiting) (hact : act k (.syscall DSOS_CALL_EXIT [v]) = .ok k') :
    ∃ L', Coherent k' L' ∧ LeftZombie k L c k' L' := by
  have hcall : internalExit (k.setCall c DSOS_CALL_EXIT [v]) = .ok k' :=
    syscall_handled [v] rfl (by decide) (by decide) hr hact
  have hc₁ : Coherent (k.setCall c DSOS_CALL_EXIT [v]) L := coherent_setCall hc hr
  obtain ⟨i, parent, k₁, L₁, hd, ⟨hw, hrep⟩ | ⟨hno, n, k₂, hf, rfl⟩⟩ := exit_died hc₁ hr hcall
  · -- only the parent could be told
    obtain ⟨ptr', L', hrep, -⟩ := exitReport_refines hc₁ hd hw hrep
    obtain ⟨bs, hbs⟩ := children_died hd hpc
    have hlink : some c ∈ (view k₁ L₁).children parent :=
      List.mem_map.mpr ⟨_, hrep.link, hrep.linked⟩
    have hlink' : some c ∈ (view k₁ L₁).children p := by
      refine List.mem_map.mpr ⟨⟨.pcbPtr, ptr⟩, ?_, ?_⟩
      · rw [hbs]
        exact List.mem_append_left _ hm
      · rw [hd.rest]
        exact hptr
    obtain rfl : parent = p := hd.sound.family.apart _ _ _ hlink hlink'
    have hwaits := (waitsFor_died hc₁.sound hr).mp hw
    exact absurd (hc₁.sound.marked.waits parent hwaits.1) hp
  · obtain ⟨rest, _, hmoved, _, hk₂⟩ := exitNext_refines hc₁ hd hno hf
    have hsound : Sound (view { k₂.setStatus n .Running with running := some n }
        (Function.update L₁ .readyList rest)) := by
      refine handled_sound hmoved.move hc₁.sound hr ?_
      show ((k.setCall c DSOS_CALL_EXIT [v]).pcb c).syscallNum = _
      simp [setCall, modPcb]
    have hpid : ((k₂.setStatus n .Running).pcb c).pid =
        ((k.setCall c DSOS_CALL_EXIT [v]).pcb c).pid :=
      pid_handled hmoved.move (hc₁.sound.placed.live_of_running hr)
    refine ⟨_, ⟨hmoved.tidy, hmoved.hung hc₁.hung, hsound⟩, ?_, fun q hq => ?_, ?_,
      hpid.trans pid_setCall⟩
    · rw [hk₂]
      show k₁.pcbPtr = _
      rw [hd.rest]
      rfl
    · rw [Function.update_of_ne (by simp)]
      exact children_died hd hq
    · show (Function.update L₁ .readyList rest .zombieList).map Node.idx = _
      rw [Function.update_of_ne (by simp), hd.lists, Function.update_self, List.map_append]
      rfl

/-- The zombie is the child that `wait` finds. -/
theorem reapable_left (hc : Coherent k L) (hc' : Coherent k' L') (h : LeftZombie k L c k' L')
    (hm : ⟨.pcbPtr, ptr⟩ ∈ L (.children p)) (hptr : k.pcbPtr ptr = some c) (hpc : p ≠ c)
    (ha : AboutToWait k p c pid) : Reapable k' p pid ptr c := by
  obtain ⟨xs, ys, hsplit⟩ := List.append_of_mem hm
  obtain ⟨bs, hbs⟩ := h.children p hpc
  have hL : L' (.children p) = xs ++ ⟨.pcbPtr, ptr⟩ :: (ys ++ bs) := by
    rw [hbs, hsplit, List.append_assoc, List.cons_append]
  have hm' : ⟨.pcbPtr, ptr⟩ ∈ L' (.children p) := by
    rw [hL]
    exact List.mem_append_right _ List.mem_cons_self
  have hptr' : k'.pcbPtr ptr = some c := by rw [h.pcbPtr, hptr]
  refine ⟨⟨xs, ys ++ bs, ?_, fun _ x hx d hd hz => ?_⟩, hptr', ?_, fun hpid => ?_⟩
  · rw [← hL]
    exact hc'.tidy.strung.holds (l := .children p) (regular_children p)
  · have hx' : x ∈ L' (.children p) := by
      rw [hL]
      exact List.mem_append_left _ hx
    have hx₀ : x ∈ L (.children p) := by
      rw [hsplit]
      exact List.mem_append_left _ hx
    have hd₀ : k.pcbPtr x.idx = some d := by rw [← h.pcbPtr, hd]
    have hxd : (⟨.pcbPtr, x.idx⟩ : Node) ∈ L' (.children p) := (child_known hc' hx').1 ▸ hx'
    have hzd : d ∈ (view k' L').zombie := (zombie_iff hc' (child_live hc' hxd hd)).mp hz
    rw [h.zombie, List.mem_append, List.mem_singleton] at hzd
    rcases hzd with hzd | rfl
    · have hxd₀ : (⟨.pcbPtr, x.idx⟩ : Node) ∈ L (.children p) := (child_known hc hx₀).1 ▸ hx₀
      exact ha.alive d (linked_child hc.tidy.strung hx₀ hd₀)
        ((zombie_iff hc (child_live hc hxd₀ hd₀)).mpr hzd)
    · -- only one link leads to the child
      have hxe := List.inj_on_of_nodup_map (hc.sound.family.nodup p) hx₀ hm (hd₀.trans hptr.symm)
      have hn := hc.tidy.strung.nodup (l := .children p) (regular_children p)
      rw [hsplit, List.nodup_append] at hn
      exact hn.2.2 x hx _ List.mem_cons_self hxe
  · rw [zombie_iff hc' (child_live hc' hm' hptr'), h.zombie]
    exact List.mem_append_right _ List.mem_cons_self
  · rw [h.pid]
    exact (ha.pid.resolve_left hpid).symm

theorem pid_fits (hc : Coherent k L) (hp : PidsFit (view k L)) (hlive : Allocated k .pcb c)
    (ha : AboutToWait k p c pid) : 0 ≤ pid ∧ pid < 2 ^ 31 := by
  rcases ha.pid with rfl | rfl
  · exact ⟨le_refl 0, by decide⟩
  · have hlt : (k.pcb c).pid < k.lastPid := hc.sound.family.pid_lt c hlive
    have hlast : k.lastPid < 2 ^ 31 := hp.last.2
    exact ⟨hp.nonneg c hlive, by omega⟩

/-- The caller runs or is ready, so it is in no other list. -/
theorem caller_not_waiting (hc : Coherent k L) (ha : AboutToWait k p c pid) :
    p ∉ (view k L).waiting := by
  intro hw
  obtain ⟨hrunning, hready, -⟩ := hc.sound.placed.not_mem_of_waiting hw
  rcases ha.caller with hr | hl
  · exact hrunning hr
  · refine hready ?_
    exact (mem_map_idx hc.tidy.strung (l := .readyList) regular_pcb).mpr
      ((hc.tidy.strung.linked_iff (l := .readyList) regular_pcb).mp hl)

theorem link_freed {mem : Int → UInt8} {k₀ : Kernel} (hs : Started mem k₀)
    (h : Run act (fun _ a => Ordinary a) k₀ as k) (hc : Coherent k L) (hpids : PidsFit (view k L))
    (hpc : p ≠ c) (hm : ⟨.pcbPtr, ptr⟩ ∈ L (.children p)) (hptr : k.pcbPtr ptr = some c)
    (ha : AboutToWait k p c pid) (hexit : ExitThenWait k p c v pid result k') :
    ¬ Allocated k' .pcbPtr ptr := by
  obtain ⟨k₂, ⟨bs, k₁, hrun₁, hr₁, hexit⟩, cs, k₃, hrun₃, hr₃, hwait⟩ := hexit
  obtain ⟨L₁, hc₁, hp₁⟩ := passed_run hc hrun₁
  have hm₁ : ⟨.pcbPtr, ptr⟩ ∈ L₁ (.children p) := by rwa [hp₁.children]
  have hptr₁ : k₁.pcbPtr ptr = some c := by rw [hp₁.pcbPtr, hptr]
  have hnw : p ∉ (view k₁ L₁).waiting := fun hw => caller_not_waiting hc ha (hp₁.waiting p hw)
  obtain ⟨L₂, hc₂, hleft⟩ := left_zombie hc₁ hr₁ hm₁ hptr₁ hpc hnw hexit
  obtain ⟨L₃, hc₃, hp₃⟩ := passed_run hc₂ hrun₃
  have hreap : Reapable k₃ p pid ptr c :=
    reapable_left hc hc₃ (hleft.between hp₁ hp₃) hm hptr hpc ha
  obtain ⟨h0, hfits⟩ := pid_fits hc hpids (child_live hc hm hptr) ha
  have hrun₂ : Run act (fun _ a => Ordinary a) k₀ (as ++ bs ++ [.syscall DSOS_CALL_EXIT [v]]) k₂ :=
    .snoc (run_trans h (run_mono (fun _ => passesOn_ordinary) hrun₁)) trivial hexit
  have hrun := run_trans hrun₂ (run_mono (fun _ => passesOn_ordinary) hrun₃)
  obtain ⟨L₄, hc₄, -, hown⟩ := reachable_pids hs hrun
  have hnone := not_noSuchChild hc₄.tidy.strung hreap
  obtain ⟨k₄, hact, -, hreaped, -⟩ := @waitAnswers_of _ _ _ _ result hc₄
    (reachable_contexts hs hrun hc₄) hown hr₃ h0 hfits (fun hmis => hnone (.inr hmis.2)) fun hstr => hstr.2.1 ptr c hreap
  obtain rfl : k₄ = k' := Except.ok.inj (hact.symm.trans hwait)
  exact fun hused => (((hreaped ptr c hreap).freed _ _).mp hused).2.1 ⟨rfl, rfl⟩

/-! ## Both orders -/

/-- In every reachable state the two orders end with different blocks in use. -/
theorem orders_differ {mem : Int → UInt8} {k₀ : Kernel} (hs : Started mem k₀)
    (h : Run act (fun _ a => Ordinary a) k₀ as k) (ha : AboutToWait k p c pid)
    (hexit : ExitThenWait k p c v pid result k') (hwait : WaitThenExit k p c v pid result k'') :
    ¬ SameEnd k p c v result k' k'' := by
  intro hsame
  obtain ⟨L, hc, hpids, hown⟩ := reachable_pids hs h
  obtain ⟨x, hx, hptr⟩ := ha.child
  have hx := (hc.tidy.strung.linked_iff (l := .children p) (regular_children p)).mp hx
  have hm : (⟨.pcbPtr, x.idx⟩ : Node) ∈ L (.children p) := (child_known hc hx).1 ▸ hx
  have hpc : p ≠ c := by
    rintro rfl
    exact hown p (List.mem_map.mpr ⟨x, hx, hptr⟩)
  have hz : (k.pcb c).status ≠ .Zombie := ha.alive c ha.child
  exact link_freed hs h hc hpids hpc hm hptr ha hexit
    ((hsame.blocks .pcbPtr trivial x.idx).mpr (link_kept hc hm hptr hz hwait))

/-- A test passed by evaluation, after the CPU has been passed on and `p` has made the call. -/
def callsNext (bs : List Action) (p : Nat) (num : Int) (args : List Int) (test : Kernel → Bool)
    (k : Kernel) : Bool :=
  (exec act (fun _ a => decide (PassesOn a)) k bs).any fun k₁ =>
    decide (k₁.running = some p) && (k₁.act (.syscall num args)).toOption.any test

theorem exists_callsNext {bs : List Action} {test : Kernel → Bool}
    (h : callsNext bs p num args test k = true) :
    ∃ k', CallsNext k p num args k' ∧ test k' = true := by
  obtain ⟨k₁, hrun, htest⟩ := exists_run (fun _ a => PassesOn a)
    (fun _ _ h => of_decide_eq_true h) h
  obtain ⟨hr, hany⟩ := Bool.and_eq_true_iff.mp htest
  cases hact : k₁.act (.syscall num args) with
  | error e =>
    rw [hact] at hany
    cases hany
  | ok k' =>
    rw [hact] at hany
    exact ⟨k', ⟨bs, k₁, hrun, of_decide_eq_true hr, hact⟩, hany⟩

theorem exists_exitThenWait {bs cs : List Action} {test : Kernel → Bool}
    (h : callsNext bs c DSOS_CALL_EXIT [v]
      (callsNext cs p DSOS_CALL_WAIT [pid, result] test) k = true) :
    ∃ k', ExitThenWait k p c v pid result k' ∧ test k' = true := by
  obtain ⟨k₁, hexit, h⟩ := exists_callsNext h
  obtain ⟨k', hwait, htest⟩ := exists_callsNext h
  exact ⟨k', ⟨k₁, hexit, hwait⟩, htest⟩

theorem exists_waitThenExit {bs cs : List Action} {test : Kernel → Bool}
    (h : callsNext bs p DSOS_CALL_WAIT [pid, result]
      (callsNext cs c DSOS_CALL_EXIT [v] test) k = true) :
    ∃ k', WaitThenExit k p c v pid result k' ∧ test k' = true := by
  obtain ⟨k₁, hwait, h⟩ := exists_callsNext h
  obtain ⟨k', hexit, htest⟩ := exists_callsNext h
  exact ⟨k', ⟨k₁, hwait, hexit⟩, htest⟩

/-- Init runs, its first child is ready, and so is another one. -/
def twoChildren (k : Kernel) : Bool :=
  decide (k.running = some 0 ∧ (k.head (.children 0)).first = some ⟨.pcbPtr, 0⟩ ∧
    k.pcbPtr 0 = some 1 ∧ (k.head .zombieList).first = none ∧
    follow k.lists.item 1 (k.head .readyList).first = some ⟨.pcb, 2⟩)

theorem aboutToWait_of_twoChildren (hc : Coherent k L) (h : twoChildren k = true) :
    AboutToWait k 0 1 0 := by
  obtain ⟨hr, hfirst, hptr, hz, hready⟩ := of_decide_eq_true h
  refine ⟨⟨⟨.pcbPtr, 0⟩, linked_first hfirst, hptr⟩, .inl hr, fun d hd hzd => ?_, .inl rfl,
    2, by decide, by decide, 1, hready⟩
  have hnone : L .zombieList = [] := by
    rw [hc.tidy.strung.first_eq (l := .zombieList) regular_pcb] at hz
    exact List.head?_eq_none_iff.mp hz
  have hlive : Allocated k .pcb d := by
    obtain ⟨_, he, hlive, _⟩ :=
      hc.sound.family.child 0 _ ((childOf_iff hc.tidy.strung).mp hd)
    cases he
    exact hlive
  have hm : d ∈ (L .zombieList).map Node.idx := (zombie_iff hc hlive).mp hzd
  rw [hnone] at hm
  cases hm

/-- The first child of init exits with 7, and init waits for any child. -/
theorem orders_differ_any_child :
    ∃ k₀ as k k' k'', Started (fun _ => 0) k₀ ∧ Run act (fun _ a => Ordinary a) k₀ as k ∧
      AboutToWait k 0 1 0 ∧ ExitThenWait k 0 1 7 0 1000 k' ∧ WaitThenExit k 0 1 7 0 1000 k'' ∧
      ¬ SameEnd k 0 1 7 1000 k' k'' := by
  obtain ⟨k₀, k, hs, h, htest⟩ := exists_run_from_start (fun _ a => Ordinary a)
    (fun _ a => decide (Ordinary a))
    [.syscall DSOS_CALL_SPAWN [0, 0], .syscall DSOS_CALL_SPAWN [0, 0]]
    (fun k => twoChildren k && callsNext [.syscall DSOS_CALL_PREEMPT []] 1 DSOS_CALL_EXIT [7]
        (callsNext [.syscall DSOS_CALL_PREEMPT []] 0 DSOS_CALL_WAIT [0, 1000] fun _ => true) k &&
      callsNext [] 0 DSOS_CALL_WAIT [0, 1000]
        (callsNext [] 1 DSOS_CALL_EXIT [7] fun _ => true) k)
    (fun _ _ h => of_decide_eq_true h) (by decide +kernel)
  obtain ⟨htest, hwait⟩ := Bool.and_eq_true_iff.mp htest
  obtain ⟨htwo, hexit⟩ := Bool.and_eq_true_iff.mp htest
  obtain ⟨k', hexit, -⟩ := exists_exitThenWait hexit
  obtain ⟨k'', hwait, -⟩ := exists_waitThenExit hwait
  obtain ⟨L, hc⟩ := coherent_run hs h
  have ha := aboutToWait_of_twoChildren hc htwo
  exact ⟨k₀, _, k, k', k'', hs, h, ha, hexit, hwait, orders_differ hs h ha hexit hwait⟩

/-- The first block for links is free after exit and wait, and in use after wait and exit. -/
theorem link_kept_when_waiting_first :
    ∃ k₀ as k k' k'', Started (fun _ => 0) k₀ ∧ Run act (fun _ a => Ordinary a) k₀ as k ∧
      AboutToWait k 0 1 0 ∧ ExitThenWait k 0 1 7 0 1000 k' ∧ WaitThenExit k 0 1 7 0 1000 k'' ∧
      ¬ Allocated k' .pcbPtr 0 ∧ Allocated k'' .pcbPtr 0 ∧ ¬ SameEnd k 0 1 7 1000 k' k'' := by
  obtain ⟨k₀, k, hs, h, htest⟩ := exists_run_from_start (fun _ a => Ordinary a)
    (fun _ a => decide (Ordinary a))
    [.syscall DSOS_CALL_SPAWN [0, 0], .syscall DSOS_CALL_SPAWN [0, 0]]
    (fun k => twoChildren k && callsNext [.syscall DSOS_CALL_PREEMPT []] 1 DSOS_CALL_EXIT [7]
        (callsNext [.syscall DSOS_CALL_PREEMPT []] 0 DSOS_CALL_WAIT [0, 1000]
          fun k' => decide (¬ HandedOut (k'.pool .pcbPtr) (0 : Nat))) k &&
      callsNext [] 0 DSOS_CALL_WAIT [0, 1000]
        (callsNext [] 1 DSOS_CALL_EXIT [7]
          fun k'' => decide (HandedOut (k''.pool .pcbPtr) (0 : Nat))) k)
    (fun _ _ h => of_decide_eq_true h) (by decide +kernel)
  obtain ⟨htest, hwait⟩ := Bool.and_eq_true_iff.mp htest
  obtain ⟨htwo, hexit⟩ := Bool.and_eq_true_iff.mp htest
  obtain ⟨k', hexit, hfree⟩ := exists_exitThenWait hexit
  obtain ⟨k'', hwait, hused⟩ := exists_waitThenExit hwait
  obtain ⟨L, hc⟩ := coherent_run hs h
  have hfree : ¬ HandedOut (k'.pool .pcbPtr) (0 : Nat) := of_decide_eq_true hfree
  have hused : HandedOut (k''.pool .pcbPtr) (0 : Nat) := of_decide_eq_true hused
  exact ⟨k₀, _, k, k', k'', hs, h, aboutToWait_of_twoChildren hc htwo, hexit, hwait, hfree, hused,
    fun hsame => hfree ((hsame.blocks .pcbPtr trivial 0).mpr hused)⟩

end DisastrOS.Process.ExitWait
