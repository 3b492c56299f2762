import DisastrOS.Process.ExitValues

/-!
# Pending signals

A signal stays pending for ever, as nobody takes it: SIGCHLD tells a process that one whose
stored parent it is has exited, SIGHUP that a first process has taken the process in.
-/
namespace DisastrOS.Process.Signals

open DisastrOS.Machine
open DisastrOS.Machine.Kernel
open DisastrOS.Machine.Runs
open DisastrOS.Lists.Wiring
open DisastrOS.Lists.RegularLists
open DisastrOS.Lists.Boot
open DisastrOS.Pool.BlockContract
open DisastrOS.Pool.Blocks
open DisastrOS.Process.Table
open DisastrOS.Process.Steps
open DisastrOS.Process.View
open DisastrOS.Process.Coherence
open DisastrOS.Process.Creation
open DisastrOS.Process.Exit
open DisastrOS.Process.ExitValues (coherent_moved)
open DisastrOS.Process.Isolation
open DisastrOS.Process.Kinship
open DisastrOS.Process.Reaping (caller_running)
open DisastrOS.Process.Spawning (act_creation)
open DisastrOS.Process.SystemRuns
open DisastrOS.Process.Transitions
open DisastrOS.MessageQueue.Calls
open DisastrOS.Library.GuardedRun

variable {u u' : ProcessTable} {k k' k₀ : Kernel} {L L' : HeadAddr → List Node} {p r i parent : Nat}
  {num : Int} {args : List Int} {a : Action} {as : List Action} {told : List Int}
  {mem : Int → UInt8}

/-! ## What is pending -/

/-- The pending signals of a process that has been told of a death, or taken in. -/
def pending (chld hup : Bool) : BitVec 32 :=
  (if chld then DSOS_SIGCHLD else 0) ||| (if hup then DSOS_SIGHUP else 0)

/-- A process has `p` as a child, but is not its stored parent. -/
def Adopted (u : ProcessTable) (p : Nat) : Prop :=
  ∃ i, some p ∈ u.children i ∧ (u.info p).parent ≠ some i

/-- Signals are pending for those reasons only, when the pids in `told` have been told. -/
structure Signalled (u : ProcessTable) (told : List Int) : Prop where
  unmasked : ∀ p, u.live p → (u.info p).signalsMask = 0xFFFFFFFF
  pending : ∀ p, u.live p → ∃ chld hup : Bool, (u.info p).signals = pending chld hup ∧
    (chld = true ↔ (u.info p).pid ∈ told) ∧ (hup = true ↔ Adopted u p)
  past : ∀ x ∈ told, x < u.lastPid

theorem pending_chld (chld hup : Bool) :
    pending chld hup ||| (DSOS_SIGCHLD &&& 0xFFFFFFFF) = pending true hup := by
  cases chld <;> cases hup <;> decide

theorem pending_hup (chld hup : Bool) :
    pending chld hup ||| (DSOS_SIGHUP &&& 0xFFFFFFFF) = pending chld true := by
  cases chld <;> cases hup <;> decide

/-- What a process is apart from its place and its registers. -/
structure SameNature (q q' : PCB) : Prop where
  signals : q'.signals = q.signals
  mask : q'.signalsMask = q.signalsMask
  parent : q'.parent = q.parent
  pid : q'.pid = q.pid

/-- Nobody comes, exits or is taken in. Some may go. -/
structure SameSignals (u u' : ProcessTable) : Prop where
  live : ∀ p, u'.live p → u.live p
  nature : ∀ p, SameNature (u.info p) (u'.info p)
  lastPid : u'.lastPid = u.lastPid
  children : ∀ q p, u'.live p → (some p ∈ u'.children q ↔ some p ∈ u.children q)

theorem Signalled.kept (h : Signalled u told) (hs : SameSignals u u') : Signalled u' told := by
  refine ⟨fun p hp => ?_, fun p hp => ?_, fun x hx => ?_⟩
  · rw [(hs.nature p).mask]
    exact h.unmasked p (hs.live p hp)
  · obtain ⟨chld, hup, hsignals, hchld, hhup⟩ := h.pending p (hs.live p hp)
    refine ⟨chld, hup, (hs.nature p).signals.trans hsignals, ?_, ?_⟩
    · rw [(hs.nature p).pid]
      exact hchld
    · unfold Adopted at hhup ⊢
      rw [hhup, (hs.nature p).parent]
      simp only [hs.children _ p hp]
  · rw [hs.lastPid]
    exact h.past x hx

/-! ## Calls that signal nobody -/

theorem sameNature_refl (q : PCB) : SameNature q q := ⟨rfl, rfl, rfl, rfl⟩

/-- A change of one process that does not touch its nature. -/
theorem sameNature_modify {f : PCB → PCB} (hf : ∀ q, SameNature q (f q)) (p : Nat) :
    SameNature (u.info p) ((u.modify r f).info p) := by
  show SameNature _ (Function.update u.info r _ p)
  rw [Function.update_apply]
  split
  · next he =>
    rw [he]
    exact hf _
  · exact sameNature_refl _

theorem sameNature_setStatus (u : ProcessTable) (r : Nat) (st : ProcessStatus) (p : Nat) :
    SameNature (u.info p) ((u.setStatus r st).info p) :=
  sameNature_modify (f := fun q => { q with status := st }) (fun _ => ⟨rfl, rfl, rfl, rfl⟩) p

theorem sameSignals_rescheduled (h : Rescheduled u u') : SameSignals u u' := by
  refine ⟨fun p hp => ?_, fun p => ?_, ?_, fun q p _ => ?_⟩
  · rwa [h.rest] at hp
  · rw [h.info p]
    exact ⟨rfl, rfl, rfl, rfl⟩
  all_goals rw [h.rest]

/-- The calls that create a process or end one. -/
def Begets (num : Int) : Prop :=
  num = DSOS_CALL_SPAWN ∨ num = DSOS_CALL_FORK ∨ num = DSOS_CALL_EXIT

theorem sameSignals_handled (h : Handled u r num u') (hno : ¬ Begets num) : SameSignals u u' := by
  cases h with
  | quiet => exact ⟨fun _ hp => hp, fun _ => sameNature_refl _, rfl, fun _ _ _ => .rfl⟩
  | preempt h => exact sameSignals_rescheduled (schedules_rescheduled h)
  | spawn hcall => exact absurd (hcall.imp_right .inl) hno
  | sleep => exact ⟨fun _ hp => hp, sameNature_setStatus u r _, rfl, fun _ _ _ => .rfl⟩
  | waitBlock => exact ⟨fun _ hp => hp, sameNature_setStatus u r _, rfl, fun _ _ _ => .rfl⟩
  | @waitCollect c =>
    refine ⟨fun p hp => hp.2, fun _ => sameNature_refl _, rfl, fun q p hp => ?_⟩
    have hne : some p ≠ some c := fun he => hp.1 (Option.some.inj he)
    show some p ∈ Function.update u.children r _ q ↔ _
    rw [Function.update_apply]
    split
    · next he =>
      rw [he]
      exact List.mem_erase_of_ne hne
    · exact .rfl
  | exitNext => exact absurd (.inr (.inr rfl)) hno
  | exitReport => exact absurd (.inr (.inr rfl)) hno
  | semBlock => exact ⟨fun _ hp => hp, fun _ => sameNature_refl _, rfl, fun _ _ _ => .rfl⟩
  | semWake => exact ⟨fun _ hp => hp, fun _ => sameNature_refl _, rfl, fun _ _ _ => .rfl⟩

theorem SameSignals.trans {v : ProcessTable} (h : SameSignals u u') (h' : SameSignals u' v) :
    SameSignals u v := by
  refine ⟨fun p hp => h.live p (h'.live p hp), fun p => ?_, h'.lastPid.trans h.lastPid,
    fun q p hp => ?_⟩
  · have hn := h.nature p
    have hn' := h'.nature p
    exact ⟨hn'.signals.trans hn.signals, hn'.mask.trans hn.mask, hn'.parent.trans hn.parent,
      hn'.pid.trans hn.pid⟩
  · exact (h'.children q p hp).trans (h.children q p (h'.live p hp))

theorem sameSignals_called : SameSignals u (u.modify r fun q => q.called num args) :=
  ⟨fun _ hp => hp, sameNature_modify fun _ => ⟨rfl, rfl, rfl, rfl⟩, rfl, fun _ _ _ => .rfl⟩

theorem sameSignals_step (h : Step u a u')
    (hno : ∀ num args, a = .syscall num args → ¬ Begets num) (hre : a ≠ .restart) :
    SameSignals u u' := by
  cases h with
  | refused => exact ⟨fun _ hp => hp, fun _ => sameNature_refl _, rfl, fun _ _ _ => .rfl⟩
  | call _ h => exact sameSignals_called.trans (sameSignals_handled h (hno _ _ rfl))
  | tick _ h =>
    have hsame := sameSignals_rescheduled (schedules_rescheduled h)
    exact ⟨hsame.live, hsame.nature, hsame.lastPid, hsame.children⟩
  | restart => exact absurd rfl hre
  | store => exact ⟨fun _ hp => hp, fun _ => sameNature_refl _, rfl, fun _ _ _ => .rfl⟩

/-! ## Creation -/

/-- Nothing is pending for a new process. -/
theorem Signalled.born {q : PCB} (h : Signalled u told) (hs : Sound u) (hb : Born u u' p q)
    (hsignals : q.signals = 0) (hmask : q.signalsMask = 0xFFFFFFFF)
    (hchildren : ∀ i j, some j ∈ u'.children i ↔
      some j ∈ u.children i ∨ (j = p ∧ q.parent = some i)) : Signalled u' told := by
  have hadopted : ∀ j, j ≠ p → (Adopted u' j ↔ Adopted u j) := by
    intro j hj
    unfold Adopted
    rw [hb.info_of_ne hj]
    refine exists_congr fun i => and_congr_left fun _ => (hchildren i j).trans (or_iff_left ?_)
    exact fun he => hj he.1
  refine ⟨fun j hj => ?_, fun j hj => ?_, fun x hx => ?_⟩
  · by_cases hjp : j = p
    · rw [hjp, hb.info_self]
      exact hmask
    · rw [hb.info_of_ne hjp]
      exact h.unmasked j ((hb.live_iff.mp hj).resolve_left hjp)
  · by_cases hjp : j = p
    · subst hjp
      refine ⟨false, false, ?_, ?_, ?_⟩
      · rw [hb.info_self, hsignals]
        rfl
      · rw [hb.info_self, hb.pid]
        refine iff_of_false (by simp) fun hx => ?_
        have hlt := h.past _ hx
        omega
      · refine iff_of_false (by simp) ?_
        rintro ⟨i, hm, hne⟩
        rw [hb.info_self] at hne
        rcases (hchildren i j).mp hm with hm | ⟨_, he⟩
        · exact (hb.childless hs).1 i hm
        · exact hne he
    · obtain ⟨chld, hup, hsig, hchld, hhup⟩ :=
        h.pending j ((hb.live_iff.mp hj).resolve_left hjp)
      rw [hb.info_of_ne hjp]
      exact ⟨chld, hup, hsig, hchld, hhup.trans (hadopted j hjp).symm⟩
  · have hlt := h.past x hx
    rw [hb.lastPid]
    omega

theorem Signalled.spawn {q : PCB} (h : Signalled u told) (hs : Sound u) (hp : ¬ u.live p)
    (hsignals : q.signals = 0) (hmask : q.signalsMask = 0xFFFFFFFF) (hparent : q.parent = some r)
    (hpid : q.pid = u.lastPid) (hst : q.status = .Ready) : Signalled (u.spawn r p q) told := by
  have hb : Born u (u.spawn r p q) p q := born_spawn hp hpid hst
  refine h.born hs hb hsignals hmask fun i j => ?_
  rw [mem_children_spawn (hb.childless hs).2, hparent, Option.some.injEq, Option.some.injEq]
  exact or_congr_right (and_comm.trans (and_congr_right fun _ => eq_comm))

theorem Signalled.restart {q : PCB} (h : Signalled u told) (hs : Sound u)
    (hr : u.running = none) (hp : ¬ u.live p) (hsignals : q.signals = 0)
    (hmask : q.signalsMask = 0xFFFFFFFF) (hparent : q.parent = none) (hpid : q.pid = u.lastPid)
    (hst : q.status = .Running) : Signalled (u.restart p q) told := by
  have hb : Born u (u.restart p q) p q := born_restart hr hp hpid hst
  refine h.born hs hb hsignals hmask fun i j => ?_
  have hkept : (u.restart p q).children = u.children := by
    show Function.update u.children p [] = _
    rw [← (hb.childless hs).2, Function.update_eq_self]
  rw [hkept, hparent]
  simp

/-! ## Death -/

theorem signals_died (hu : Signalled u told) {chld hup : Bool} (hp : u.live p)
    (hpending : (u.info p).signals = Signals.pending chld hup) :
    (((u.adopt r i).die r parent).info p).signals =
      Signals.pending (chld || decide (p = parent)) (hup || decide (some p ∈ u.children r)) := by
  have hmask := hu.unmasked p hp
  have hadopt : ((u.adopt r i).info p).signals =
      Signals.pending chld (hup || decide (some p ∈ u.children r)) ∧
      ((u.adopt r i).info p).signalsMask = 0xFFFFFFFF := by
    show (if some p ∈ u.children r then (u.info p).signalled DSOS_SIGHUP else u.info p).signals = _ ∧
      (if some p ∈ u.children r then (u.info p).signalled DSOS_SIGHUP else u.info p).signalsMask = _
    split
    · next hm =>
      refine ⟨?_, hmask⟩
      show (u.info p).signals ||| (DSOS_SIGHUP &&& (u.info p).signalsMask) = _
      rw [hmask, hpending, pending_hup, decide_eq_true hm, Bool.or_true]
    · next hm =>
      refine ⟨?_, hmask⟩
      rw [hpending, decide_eq_false hm, Bool.or_false]
  have hstatus : SameNature ((u.adopt r i).info p) (((u.adopt r i).setStatus r .Zombie).info p) :=
    sameNature_setStatus _ r .Zombie p
  show (Function.update ((u.adopt r i).setStatus r .Zombie).info parent _ p).signals = _
  rw [Function.update_apply]
  split
  · next he =>
    subst he
    show _ ||| (DSOS_SIGCHLD &&& _) = _
    rw [hstatus.mask, hadopt.2, hstatus.signals, hadopt.1, pending_chld, decide_eq_true rfl,
      Bool.or_true]
  · next hne => rw [hstatus.signals, hadopt.1, decide_eq_false hne, Bool.or_false]

theorem adopted_died (hs : Sound u) (hne : r ≠ i) (hrp : (u.info r).parent ≠ none) :
    Adopted ((u.adopt r i).die r parent) p ↔ Adopted u p ∨ some p ∈ u.children r := by
  obtain ⟨sig, he⟩ := @info_died u r i parent p
  -- who is listed by `r` has it as its stored parent
  have hown : some p ∈ u.children r → (u.info p).parent = some r := fun hm =>
    (hs.family.parent r p hm).resolve_right hrp
  have hchildren : ∀ j, some p ∈ ((u.adopt r i).die r parent).children j ↔
      (j = i ∧ (some p ∈ u.children i ∨ some p ∈ u.children r)) ∨
        (j ≠ i ∧ j ≠ r ∧ some p ∈ u.children j) := by
    intro j
    show some p ∈ Function.update (Function.update u.children r []) i _ j ↔ _
    simp only [Function.update_apply]
    split
    · next hj => simp [hj]
    · next hj =>
      split
      · next hj => simp [hj, hne]
      · next hj' => simp [hj, hj']
  unfold Adopted
  rw [he]
  simp only [hchildren]
  constructor
  · rintro ⟨j, ⟨rfl, hm | hm⟩ | ⟨_, _, hm⟩, hparent⟩
    · exact .inl ⟨_, hm, hparent⟩
    · exact .inr hm
    · exact .inl ⟨j, hm, hparent⟩
  · rintro (⟨j, hm, hparent⟩ | hm)
    · refine ⟨j, ?_, hparent⟩
      have hjr : j ≠ r := by
        rintro rfl
        exact hparent (hown hm)
      by_cases hj : j = i
      · exact .inl ⟨hj, .inl (hj ▸ hm)⟩
      · exact .inr ⟨hj, hjr, hm⟩
    · refine ⟨i, .inl ⟨rfl, .inr hm⟩, ?_⟩
      rw [hown hm]
      exact fun he => hne (Option.some.inj he)

/-- Who dies tells its stored parent, and init takes its children in. -/
theorem Signalled.died {told' : List Int} (h : Signalled u told) (hs : Sound u)
    (hne : r ≠ i) (hrp : (u.info r).parent ≠ none)
    (htold : ∀ x, x ∈ told' ↔ x ∈ told ∨ (u.live parent ∧ x = (u.info parent).pid)) :
    Signalled ((u.adopt r i).die r parent) told' := by
  have hinfo : ∀ p, ∃ sig, ((u.adopt r i).die r parent).info p = { u.info p with
      signals := sig, status := if p = r then .Zombie else (u.info p).status } := fun p => info_died p
  refine ⟨fun p hp => ?_, fun p hp => ?_, fun x hx => ?_⟩
  · obtain ⟨sig, he⟩ := hinfo p
    rw [he]
    exact h.unmasked p hp
  · obtain ⟨chld, hup, hsig, hchld, hhup⟩ := h.pending p hp
    have hp : u.live p := hp
    obtain ⟨sig, he⟩ := hinfo p
    refine ⟨_, _, signals_died h hp hsig, ?_, ?_⟩
    · rw [he, htold, Bool.or_eq_true, decide_eq_true_iff, hchld]
      refine or_congr_right ⟨?_, ?_⟩
      · rintro rfl
        exact ⟨hp, rfl⟩
      · rintro ⟨hlive, hpid⟩
        exact hs.family.pid_inj p parent hp hlive hpid
    · rw [adopted_died hs hne hrp, Bool.or_eq_true, decide_eq_true_iff, hhup]
  · rcases (htold x).mp hx with hx | ⟨hlive, rfl⟩
    · exact h.past x hx
    · exact hs.family.pid_lt parent hlive

/-- What follows the death of `r` signals nobody. -/
theorem sameSignals_exit (h : Handled u r DSOS_CALL_EXIT u') (hrun : u'.running ≠ u.running) :
    ∃ i parent, u.init = some i ∧ (u.info r).parent = some parent ∧
      SameSignals ((u.adopt r i).die r parent) u' := by
  cases h with
  | quiet => exact absurd rfl hrun
  | spawn hcall => rcases hcall with hcall | hcall <;> exact absurd hcall (by decide)
  | @exitNext i parent n _ hi hparent =>
    exact ⟨i, parent, hi, hparent, fun _ hp => hp,
      sameNature_setStatus ((u.adopt r i).die r parent).runNext n .Running, rfl,
      fun _ _ _ => .rfl⟩
  | @exitReport i parent hi hparent =>
    refine ⟨i, parent, hi, hparent, fun p hp => hp.2,
      sameNature_setStatus ((u.adopt r i).die r parent) parent .Running, rfl,
      fun q p hp => ?_⟩
    have hne : some p ≠ some r := fun he => hp.1 (Option.some.inj he)
    show some p ∈ Function.update ((u.adopt r i).die r parent).children parent _ q ↔ _
    rw [Function.update_apply]
    split
    · next he =>
      rw [he]
      exact List.mem_erase_of_ne hne
    · exact .rfl

theorem exit_step (h : Step u (.syscall DSOS_CALL_EXIT args) u') (hr : u.running = some r)
    (hleaves : u'.running ≠ some r) : ∃ i parent, u.init = some i ∧
      ((u.modify r fun q => q.called DSOS_CALL_EXIT args).info r).parent = some parent ∧
      SameSignals (((u.modify r fun q => q.called DSOS_CALL_EXIT args).adopt r i).die r parent)
        u' := by
  generalize hact : Action.syscall DSOS_CALL_EXIT args = b at h
  cases h with
  | refused => exact absurd hr hleaves
  | @call r' num args' _ hr' hh =>
    cases hact
    obtain rfl : r = r' := Option.some.inj (hr.symm.trans hr')
    exact sameSignals_exit hh fun he => hleaves (he.trans hr)
  | tick => cases hact
  | restart => cases hact
  | store => cases hact

/-! ## Actions -/

/-- The pid of the process, if any, that an exit sends SIGCHLD to. -/
def watch (k : Kernel) (a : Action) (_ : Kernel) : List Int :=
  match a, k.running with
  | .syscall num _, some r =>
    if num = DSOS_CALL_EXIT then
      match (k.pcb r).parent with
      | some q => if HandedOut (k.pool .pcb) q then [(k.pcb q).pid] else []
      | none => []
    else []
  | _, _ => []

theorem watch_other (hno : ∀ args, a ≠ .syscall DSOS_CALL_EXIT args) : watch k a k' = [] := by
  unfold watch
  split
  · next num args r hr =>
    rw [if_neg fun he => hno args (by rw [he])]
  · rfl

/-- Whoever exits gives the processor up. -/
theorem exit_leaves (hc : Coherent k L) (hr : k.running = some r) (h : internalExit k = .ok k') :
    k'.running ≠ some r := by
  obtain ⟨i, parent, k₂, L₂, hd, ⟨hw, hrep⟩ | ⟨hno, n, k₃, hf, rfl⟩⟩ := exit_died hc hr h
  · obtain ⟨ptr, L', hrep, -⟩ := exitReport_refines hc hd hw hrep
    have hwait := (waitsFor_died hc.sound hr).mp hw
    have hrun : k'.running = some parent := by rw [hrep.rest]
    rw [hrun]
    exact fun he => ne_of_awaits hc hr hwait.1 (Option.some.inj he)
  · obtain ⟨rest, hL, -⟩ := exitNext_refines hc hd hno hf
    intro he
    have hready : r ∈ (view k L).ready := by
      show r ∈ (L .readyList).map Node.idx
      rw [hL, ← Option.some.inj he]
      exact List.mem_cons_self
    exact (hc.sound.placed.not_mem_of_running hr).1 hready

theorem signalled_exit (hc : Coherent k L) (hu : Signalled (view k L) told)
    (hr : k.running = some r) (hact : act k (.syscall DSOS_CALL_EXIT args) = .ok k') :
    ∃ L', Coherent k' L' ∧
      Signalled (view k' L') (told ++ watch k (.syscall DSOS_CALL_EXIT args) k') := by
  have hcall : internalExit (k.setCall r DSOS_CALL_EXIT args) = .ok k' :=
    syscall_handled args rfl (by decide) (by decide) hr hact
  have hc₁ : Coherent (k.setCall r DSOS_CALL_EXIT args) L := coherent_setCall hc hr
  obtain ⟨i, parent, k₂, L₂, hd, -⟩ := exit_died hc₁ hr hcall
  obtain ⟨L', hacted, hc', hstep⟩ :=
    act_done hc (a := .syscall DSOS_CALL_EXIT args) trivial hact
  have hleaves : (view k' L').running ≠ some r := exit_leaves hc₁ hr hcall
  obtain ⟨i', parent', hi', hparent', hsame⟩ := exit_step hstep hr hleaves
  have hsound : Sound ((view k L).modify r fun q => q.called DSOS_CALL_EXIT args) :=
    called_sound hc.sound hr
  have hne : r ≠ i' := init_ne_of_parent hsound hi' hparent'
  have hparent : (k.pcb r).parent = some parent' := by
    have hshown : (Function.update (view k L).info r _ r).parent = some parent' := hparent'
    rw [Function.update_self] at hshown
    exact hshown
  have hpid : (((view k L).modify r fun q => q.called DSOS_CALL_EXIT args).info parent').pid =
      (k.pcb parent').pid :=
    (sameNature_modify (f := fun q => q.called DSOS_CALL_EXIT args)
      (fun _ => ⟨rfl, rfl, rfl, rfl⟩) parent').pid
  have hcalled : Signalled ((view k L).modify r fun q => q.called DSOS_CALL_EXIT args) told :=
    hu.kept sameSignals_called
  refine ⟨L', hc', (hcalled.died hsound hne ?_ fun x => ?_).kept hsame⟩
  · rw [hparent']
    exact Option.some_ne_none parent'
  rw [hpid, List.mem_append]
  refine or_congr_right ?_
  unfold watch
  rw [hr]
  simp only [if_true, hparent]
  split
  · next hlive =>
    rw [List.mem_singleton]
    exact (and_iff_right hlive).symm
  · next hlive => exact iff_of_false List.not_mem_nil fun hx => hlive hx.1

theorem signalled_spawn {context : Bool} (hc : Coherent k L) (hu : Signalled (view k L) told)
    (hr : k.running = some r) (hnum : num = DSOS_CALL_SPAWN ∨ num = DSOS_CALL_FORK)
    (hcontext : num = DSOS_CALL_SPAWN → context = true)
    (hcall : createProcess context (k.setCall r num args) = .ok k') :
    ∃ L', Coherent k' L' ∧ Signalled (view k' L') told := by
  have hc₁ : Coherent (k.setCall r num args) L := coherent_setCall hc hr
  have hu₁ : Signalled (view (k.setCall r num args) L) told := by
    rw [view_setCall]
    exact hu.kept sameSignals_called
  obtain ⟨p, ptr, L', hsp, hmoved⟩ := spawn_refines hc₁ (r := r) hr hnum hcontext hcall
  have hlive : Allocated k .pcb r := hc.sound.placed.live_of_running hr
  have hpr : p ≠ r := fun he => hsp.fresh (he ▸ hlive)
  refine ⟨L', coherent_moved hc hr hmoved, ?_⟩
  rw [hsp.view_eq hc₁.tidy.strung hpr]
  exact hu₁.spawn hc₁.sound hsp.fresh rfl rfl rfl rfl rfl

theorem signalled_restart (hc : Coherent k L) (hu : Signalled (view k L) told)
    (h : k.resumeMain = .ok k') : ∃ L', Coherent k' L' ∧ Signalled (view k' L') told := by
  obtain ⟨p, L', hre, hm⟩ := restart_refines hc h
  refine ⟨L', ⟨hm.tidy, hm.hung hc.hung, step_sound hm.move hc.sound⟩, ?_⟩
  rw [hre.view_eq]
  exact hu.restart hc.sound hre.idle hre.fresh rfl rfl rfl rfl rfl

/-- Every action keeps the reasons for the signals. -/
theorem signalled_act (hc : Coherent k L) (hu : Signalled (view k L) told) (ha : Ordinary a)
    (hact : act k a = .ok k') :
    ∃ L', Coherent k' L' ∧ Signalled (view k' L') (told ++ watch k a k') := by
  by_cases hexit : ∃ args, a = .syscall DSOS_CALL_EXIT args
  · obtain ⟨args, rfl⟩ := hexit
    obtain ⟨r, hr⟩ := caller_running hact
    exact signalled_exit hc hu hr hact
  rw [watch_other fun args he => hexit ⟨args, he⟩, List.append_nil]
  by_cases hspawn : ∃ num args, a = .syscall num args ∧ (num = DSOS_CALL_SPAWN ∨ num = DSOS_CALL_FORK)
  · obtain ⟨num, args, rfl, hnum⟩ := hspawn
    obtain ⟨r, hr⟩ := caller_running hact
    have hcall := (act_creation hc hnum hr).symm.trans hact
    exact signalled_spawn hc hu hr hnum decide_eq_true hcall
  by_cases hre : a = .restart
  · subst hre
    exact signalled_restart hc hu hact
  · obtain ⟨L', -, hc', hstep⟩ := act_done hc ha hact
    refine ⟨L', hc', hu.kept (sameSignals_step hstep ?_ hre)⟩
    rintro num args rfl (hnum | hnum | rfl)
    · exact hspawn ⟨num, args, rfl, .inl hnum⟩
    · exact hspawn ⟨num, args, rfl, .inr hnum⟩
    · exact hexit ⟨args, rfl⟩

/-! ## Runs -/

/-- A first process, which has no parent itself, has `p` in its list of children, but is not
its stored parent. -/
def TakenIn (k : Kernel) (p : Nat) : Prop :=
  ∃ i ptr, (k.pcb i).parent = none ∧ Linked k (.children i) ⟨.pcbPtr, ptr⟩ ∧
    k.pcbPtr ptr = some p ∧ (k.pcb p).parent ≠ some i

theorem takenIn_iff (hc : Coherent k L) : TakenIn k p ↔ Adopted (view k L) p := by
  have hs := hc.tidy.strung
  constructor
  · rintro ⟨i, ptr, _, hm, hptr, hparent⟩
    have hm := (hs.linked_iff (l := .children i) (regular_children i)).mp hm
    exact ⟨i, List.mem_map.mpr ⟨_, hm, hptr⟩, hparent⟩
  · rintro ⟨i, hm, hparent⟩
    have hfirst : (k.pcb i).parent = none :=
      (hc.sound.family.parent i p hm).resolve_left hparent
    obtain ⟨x, hx, hptr⟩ := List.mem_map.mp hm
    rw [hs.node_eq (l := .children i) (regular_children i) hx] at hx
    exact ⟨i, x.idx, hfirst, (hs.linked_iff (l := .children i) (regular_children i)).mpr hx, hptr,
      hparent⟩

theorem booted_signalled (hb : Booted mem k) : Signalled (view k noNodes) [] := by
  rw [booted_view hb]
  refine ⟨fun p hp => ?_, fun p hp => ⟨false, false, ?_, by simp, ?_⟩, fun x hx => ?_⟩
  · rw [show p = 0 from hp]
    rfl
  · rw [show p = 0 from hp]
    rfl
  · refine iff_of_false (by simp) ?_
    rintro ⟨i, hm, -⟩
    exact absurd hm List.not_mem_nil
  · exact absurd hx List.not_mem_nil

/-- In every state of every run the pending signals of a process are SIGCHLD, if a process has
exited whose stored parent it was, and SIGHUP, if a first process has taken it in from another
process. -/
theorem signals_tell_the_truth (hs : Started mem k₀)
    (hrun : Run (withHistory act watch) (fun _ a => Ordinary a) (k₀, []) as (k, told)) :
    ∀ p, Allocated k .pcb p → ∃ chld hup : Bool, (k.pcb p).signals = pending chld hup ∧
      (chld = true ↔ (k.pcb p).pid ∈ told) ∧ (hup = true ↔ TakenIn k p) := by
  have hb := start_booted hs
  have hinv : ∃ L, Coherent k L ∧ Signalled (view k L) told := by
    refine run_invariant (I := fun s => ∃ L, Coherent s.1 L ∧ Signalled (view s.1 L) s.2) ?_
      ⟨noNodes, booted_coherent hb, booted_signalled hb⟩ hrun
    rintro ⟨k, h⟩ a ⟨k', h'⟩ ⟨L, hc, hu⟩ ha hact
    obtain ⟨hact, hseen⟩ := withHistory_ok.mp hact
    have hseen : h' = h ++ watch k a k' := hseen
    subst hseen
    exact signalled_act hc hu ha hact
  obtain ⟨L, hc, hu⟩ := hinv
  intro p hp
  obtain ⟨chld, hup, hsignals, hchld, hhup⟩ := hu.pending p hp
  exact ⟨chld, hup, hsignals, hchld, hhup.trans (takenIn_iff hc).symm⟩

/-- A child is taken in by init when its parent exits, which tells init of the death. Then both
sleep, and another first process runs. -/
theorem signals_tell_the_truth_orphan : ∃ k₀ k told, Started (fun _ => 0) k₀ ∧
    Run (withHistory act watch) (fun _ a => Ordinary a) (k₀, [])
      [.syscall DSOS_CALL_SPAWN [], .syscall DSOS_CALL_PREEMPT [], .syscall DSOS_CALL_SPAWN [],
        .syscall DSOS_CALL_EXIT [7], .syscall DSOS_CALL_SLEEP [1], .syscall DSOS_CALL_SLEEP [1],
        .restart] (k, told) ∧
    told = [0] ∧ k.initPcb = some 3 ∧ (k.pcb 0).signals = DSOS_SIGCHLD ∧ (k.pcb 2).signals = DSOS_SIGHUP ∧
    ∀ p, Allocated k .pcb p → ∃ chld hup : Bool, (k.pcb p).signals = pending chld hup ∧
      (chld = true ↔ (k.pcb p).pid ∈ told) ∧ (hup = true ↔ TakenIn k p) := by
  obtain ⟨k₀, hs, htest⟩ := exists_of_any (x := disastrOSStart (zeroed fun _ => 0))
    (p := fun k₀ => (exec (withHistory act watch) (fun _ a => decide (Ordinary a)) (k₀, [])
      [.syscall DSOS_CALL_SPAWN [], .syscall DSOS_CALL_PREEMPT [], .syscall DSOS_CALL_SPAWN [],
        .syscall DSOS_CALL_EXIT [7], .syscall DSOS_CALL_SLEEP [1], .syscall DSOS_CALL_SLEEP [1],
        .restart]).any fun s => s.2 = [0] ∧ s.1.initPcb = some 3 ∧
          (s.1.pcb 0).signals = DSOS_SIGCHLD ∧ (s.1.pcb 2).signals = DSOS_SIGHUP)
    (by decide +kernel)
  obtain ⟨⟨k, told⟩, hrun, hseen⟩ := exists_run (fun _ a => Ordinary a)
    (fun _ _ hcheck => of_decide_eq_true hcheck) htest
  obtain ⟨htold, hfirst, hinit, hchild⟩ := of_decide_eq_true hseen
  exact ⟨k₀, k, told, hs, hrun, htold, hfirst, hinit, hchild, signals_tell_the_truth hs hrun⟩

end DisastrOS.Process.Signals
