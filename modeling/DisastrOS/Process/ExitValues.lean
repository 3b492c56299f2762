import DisastrOS.Process.Isolation
import DisastrOS.Process.Reaping

/-!
# The value of an exit reaches the parent

A process exits with a value, and any number of other actions later its parent learns it: when
it waits, or at the exit if it waits already. What the parent finds where it has asked for the
result is the value that this child has passed to `exit`.
-/
namespace DisastrOS.Process.ExitValues

open DisastrOS.Machine
open DisastrOS.Machine.Kernel
open DisastrOS.Machine.Runs
open DisastrOS.Lists.Boot
open DisastrOS.Lists.Wiring
open DisastrOS.Pool.Blocks
open DisastrOS.Process.Table
open DisastrOS.Process.Steps
open DisastrOS.Process.View
open DisastrOS.Process.Coherence
open DisastrOS.Process.Wakeups (pid_died)
open DisastrOS.Process.Waiting
open DisastrOS.Process.Exit
open DisastrOS.Process.ExitWait
open DisastrOS.Process.Isolation
open DisastrOS.Process.Kinship
open DisastrOS.Process.Reaping (blockInWait_runs caller_running)
open DisastrOS.Process.Transitions
open DisastrOS.Process.SystemRuns
open DisastrOS.MessageQueue.Calls
open DisastrOS.Library.GuardedRun
open DisastrOS.Library.Outcome

variable {mem : Int → UInt8} {k k' k₀ : Kernel} {L L' : HeadAddr → List Node} {r p c : Nat}
  {v x addr : Int} {args : List Int} {a : Action} {as : List Action}

/-! ## An `int` in memory -/

/-- `v` is a value of an `int`. -/
def Fits (v : Int) : Prop := -2 ^ 31 ≤ v ∧ v < 2 ^ 31

theorem fits_toInt (v : Int) : Fits (toInt v) := by
  unfold Fits toInt
  have h0 := Int.le_bmod (x := v) (m := 2 ^ 32) (by decide)
  have hlt := Int.bmod_lt (x := v) (m := 2 ^ 32) (by decide)
  omega

/-- Four bytes stored are read back as the `int`. -/
theorem intAt_storeInt (h : k.storeInt addr v = .ok k') (hv : Fits v) : k'.intAt addr = v := by
  obtain ⟨_, rfl⟩ := storeInt_eq_ok.mp h
  have hbyte : ∀ j : Nat, j < 4 →
      (if addr ≤ addr + j ∧ addr + j < addr + 4 then byteOf v (addr + j - addr).toNat
        else k.mem (addr + j)) = byteOf v j := by
    intro j hj
    have hj' : (addr + j - addr).toNat = j := by omega
    rw [if_pos ⟨by omega, by omega⟩, hj']
  have b0 := hbyte 0 (by decide)
  have b1 := hbyte 1 (by decide)
  have b2 := hbyte 2 (by decide)
  have b3 := hbyte 3 (by decide)
  simp only [Nat.cast_zero, Int.add_zero, Nat.cast_one, Nat.cast_ofNat] at b0 b1 b2 b3
  unfold intAt
  simp only [b0, b1, b2, b3, toNat_byteOf]
  obtain ⟨h0, hlt⟩ := hv
  unfold toInt
  rw [Int.bmod_def]
  split <;> omega

theorem intAt_storeResult (h : k.storeResult addr v = .ok k') (haddr : addr ≠ 0) (hv : Fits v) :
    k'.intAt addr = v := by
  unfold storeResult at h
  rw [if_pos haddr] at h
  exact intAt_storeInt h hv

/-! ## Events -/

/-- A process exits with a value; a process that asks for it is told the value of a child. -/
inductive Event where
  | exited (pid value : Int)
  | told (pid value : Int)
  deriving DecidableEq

/-- The `int` that `p` finds where it wants the result of its `wait`, and the pid it gets. -/
def answer (p : Nat) (result : Int) (k' : Kernel) : List Event :=
  if result = 0 then [] else [.told (k'.pcb p).syscallRetvalue (k'.intAt result)]

/-- The events of an action. -/
def watch (k : Kernel) (a : Action) (k' : Kernel) : List Event :=
  match a, k.running with
  | .syscall num args, some r =>
    if num = DSOS_CALL_EXIT then
      .exited (k.pcb r).pid (toInt (args.getD 0 0)) ::
        match k'.running with
        | some p => if (k.pcb p).status = .Waiting then answer p (k.arg p 1) k' else []
        | none => []
    else if num = DSOS_CALL_WAIT then
      if k'.running = some r ∧ 0 ≤ (k'.pcb r).syscallRetvalue then
        answer r (args.getD 1 0) k'
      else []
    else []
  | _, _ => []

/-- The process is there and has exited. -/
def Dead (k : Kernel) (p : Nat) : Prop := Allocated k .pcb p ∧ (k.pcb p).status = .Zombie

/-- Every zombie still has the value it has exited with, and nobody exits twice. -/
structure Wills (k : Kernel) (h : List Event) : Prop where
  left : ∀ p, Dead k p → .exited (k.pcb p).pid (k.pcb p).returnValue ∈ h
  fits : ∀ x v, .exited x v ∈ h → Fits v ∧ x < k.lastPid
  past : ∀ x v, .exited x v ∈ h → ∀ p, Allocated k .pcb p → (k.pcb p).pid = x → Dead k p
  once : ∀ x v w, .exited x v ∈ h → .exited x w ∈ h → v = w
  told : ∀ x v, .told x v ∈ h → .exited x v ∈ h

variable {h : List Event}

theorem dead_iff (hc : Coherent k L) : Dead k p ↔ p ∈ (view k L).zombie :=
  (hc.sound.marked.dead p).symm

/-! ## What keeps the wills -/

/-- Nobody exits. Processes may come, with a new pid, and zombies may go. -/
theorem Wills.kept (hi : Wills k h) (hlast : k.lastPid ≤ k'.lastPid)
    (hlive : ∀ p, Allocated k' .pcb p → (Allocated k .pcb p ∧ (k'.pcb p).pid = (k.pcb p).pid ∧
      (Dead k p → Dead k' p)) ∨ (k'.pcb p).pid = k.lastPid)
    (hdead : ∀ p, Dead k' p → Dead k p ∧ (k'.pcb p).pid = (k.pcb p).pid ∧
      (k'.pcb p).returnValue = (k.pcb p).returnValue) : Wills k' h := by
  refine ⟨fun p hp => ?_, fun x v hx => ?_, fun x v hx p hp hpid => ?_, hi.once, hi.told⟩
  · obtain ⟨hp, hpid, hvalue⟩ := hdead p hp
    rw [hpid, hvalue]
    exact hi.left p hp
  · obtain ⟨hfits, hlt⟩ := hi.fits x v hx
    exact ⟨hfits, by omega⟩
  · rcases hlive p hp with ⟨hp, hsame, hdead⟩ | hnew
    · exact hdead (hi.past x v hx p hp (hsame.symm.trans hpid))
    · have := (hi.fits x v hx).2
      omega

/-- The process `r` exits with `v`, and may be gone at once. -/
theorem Wills.exited (hi : Wills k h) (hr : Allocated k .pcb r) (hno : ¬ Dead k r) (hv : Fits v)
    (hlast : k'.lastPid = k.lastPid) (hbelow : (k.pcb r).pid < k.lastPid)
    (hlive : ∀ p, Allocated k' .pcb p → Allocated k .pcb p ∧ (k'.pcb p).pid = (k.pcb p).pid)
    (hself : Allocated k' .pcb r → Dead k' r ∧ (k'.pcb r).returnValue = v)
    (hother : ∀ p, p ≠ r → Allocated k' .pcb p → (Dead k' p ↔ Dead k p) ∧
      (k'.pcb p).returnValue = (k.pcb p).returnValue)
    (hinj : ∀ p, Allocated k .pcb p → (k.pcb p).pid = (k.pcb r).pid → p = r) :
    Wills k' (h ++ [.exited (k.pcb r).pid v]) := by
  have hmem : ∀ x w, Event.exited x w ∈ h ++ [.exited (k.pcb r).pid v] ↔
      Event.exited x w ∈ h ∨ (x = (k.pcb r).pid ∧ w = v) := by simp
  have hnew : ∀ w, Event.exited (k.pcb r).pid w ∉ h := fun w hw => hno (hi.past _ w hw r hr rfl)
  refine ⟨fun p hp => ?_, fun x w hx => ?_, fun x w hx p hp hpid => ?_, fun x w w' hx hx' => ?_,
    fun x w hx => ?_⟩
  · obtain ⟨hlive, hpid⟩ := hlive p hp.1
    rw [hmem, hpid]
    by_cases he : p = r
    · subst he
      exact .inr ⟨rfl, (hself hp.1).2⟩
    · obtain ⟨hdead, hvalue⟩ := hother p he hp.1
      rw [hvalue]
      exact .inl (hi.left p (hdead.mp hp))
  · rw [hlast]
    rcases (hmem x w).mp hx with hx | ⟨rfl, rfl⟩
    · exact hi.fits x w hx
    · exact ⟨hv, hbelow⟩
  · obtain ⟨hlive, hsame⟩ := hlive p hp
    rw [hsame] at hpid
    by_cases he : p = r
    · subst he
      exact (hself hp).1
    · rcases (hmem x w).mp hx with hx | ⟨rfl, rfl⟩
      · exact (hother p he hp).1.mpr (hi.past x w hx p hlive hpid)
      · exact absurd (hinj p hlive hpid) he
  · rcases (hmem x w).mp hx with hold | ⟨rfl, rfl⟩
    · rcases (hmem x w').mp hx' with hold' | ⟨rfl, rfl⟩
      · exact hi.once x w w' hold hold'
      · exact absurd hold (hnew w)
    · rcases (hmem _ w').mp hx' with hold' | ⟨_, rfl⟩
      · exact absurd hold' (hnew w')
      · rfl
  · have hx : Event.told x w ∈ h := by simpa using hx
    exact (hmem x w).mpr (.inl (hi.told x w hx))

/-- Somebody is told the value of a process that has exited. -/
theorem Wills.answered (hi : Wills k h) (hx : .exited x v ∈ h) : Wills k (h ++ [.told x v]) := by
  have hmem : ∀ y w, Event.exited y w ∈ h ++ [.told x v] ↔ Event.exited y w ∈ h := by simp
  refine ⟨fun p hp => ?_, fun y w hy => ?_, fun y w hy => ?_, fun y w w' hy hy' => ?_,
    fun y w hy => ?_⟩
  · exact (hmem _ _).mpr (hi.left p hp)
  · exact hi.fits y w ((hmem y w).mp hy)
  · exact hi.past y w ((hmem y w).mp hy)
  · exact hi.once y w w' ((hmem y w).mp hy) ((hmem y w').mp hy')
  · have hy : Event.told y w ∈ h ∨ (y = x ∧ w = v) := by simpa using hy
    rcases hy with hy | ⟨rfl, rfl⟩
    · exact (hmem y w).mpr (hi.told y w hy)
    · exact (hmem y w).mpr hx

/-- The answer that a process gets. -/
theorem Wills.answer {result : Int} (hi : Wills k h) (hx : .exited x v ∈ h)
    (hpid : (k.pcb p).syscallRetvalue = x) (hvalue : result ≠ 0 → k.intAt result = v) :
    Wills k (h ++ answer p result k) := by
  unfold ExitValues.answer
  split
  · rwa [List.append_nil]
  · next hne =>
    rw [hpid, hvalue hne]
    exact hi.answered hx

/-! ## Actions -/

/-- Nobody dies or goes but in `exit` and `wait`. -/
theorem step_zombies {s s' : ProcessTable} (hstep : Step s a s')
    (hwait : ∀ args, a ≠ .syscall DSOS_CALL_WAIT args)
    (hexit : ∀ args, a ≠ .syscall DSOS_CALL_EXIT args) :
    s'.zombie = s.zombie ∧ s.lastPid ≤ s'.lastPid ∧
      ∀ p, s'.live p → s.live p ∨ (s'.info p).pid = s.lastPid := by
  have hsched : ∀ {t : ProcessTable}, Schedules t s' → t.zombie = s.zombie → t.live = s.live →
      t.lastPid = s.lastPid → s'.zombie = s.zombie ∧ s.lastPid ≤ s'.lastPid ∧
        ∀ p, s'.live p → s.live p ∨ (s'.info p).pid = s.lastPid := by
    intro t h hzombie hlive hlast
    rw [(schedules_rescheduled h).rest]
    refine ⟨hzombie, Int.le_of_eq hlast.symm, fun p hp => .inl ?_⟩
    rwa [← hlive]
  have hsame : s'.zombie = s.zombie → s'.lastPid = s.lastPid → s'.live = s.live →
      s'.zombie = s.zombie ∧ s.lastPid ≤ s'.lastPid ∧
        ∀ p, s'.live p → s.live p ∨ (s'.info p).pid = s.lastPid := by
    intro hzombie hlast hlive
    refine ⟨hzombie, Int.le_of_eq hlast.symm, fun p hp => .inl ?_⟩
    rwa [← hlive]
  have hborn : ∀ {t : ProcessTable} {p : Nat} {q : PCB}, Born t s' p q → t.zombie = s.zombie →
      t.live = s.live → t.lastPid = s.lastPid → s'.zombie = s.zombie ∧ s.lastPid ≤ s'.lastPid ∧
        ∀ p, s'.live p → s.live p ∨ (s'.info p).pid = s.lastPid := by
    intro t p q hb hzombie hlive hlast
    refine ⟨hb.zombie.trans hzombie, ?_, fun i hi => ?_⟩
    · rw [hb.lastPid, hlast]
      omega
    · rcases hb.live_iff.mp hi with rfl | hi
      · right
        rw [hb.info_self, hb.pid, hlast]
      · left
        rwa [← hlive]
  cases hstep with
  | refused => exact hsame rfl rfl rfl
  | store => exact hsame rfl rfl rfl
  | tick _ h => exact hsched h rfl rfl rfl
  | restart hr hp hpid _ hst _ => exact hborn (born_restart hr hp hpid hst) rfl rfl rfl
  | @call r num args _ _ h =>
    cases h with
    | quiet => exact hsame rfl rfl rfl
    | preempt h => exact hsched h rfl rfl rfl
    | spawn _ hp hpid _ hst _ => exact hborn (born_spawn hp hpid hst) rfl rfl rfl
    | sleep => exact hsame rfl rfl rfl
    | waitBlock => exact absurd rfl (hwait args)
    | waitCollect => exact absurd rfl (hwait args)
    | exitNext => exact absurd rfl (hexit args)
    | exitReport => exact absurd rfl (hexit args)
    | semBlock => exact hsame rfl rfl rfl
    | semWake => exact hsame rfl rfl rfl

theorem watch_quiet (hwait : ∀ args, a ≠ .syscall DSOS_CALL_WAIT args)
    (hexit : ∀ args, a ≠ .syscall DSOS_CALL_EXIT args) : watch k a k' = [] := by
  unfold watch
  cases a with
  | syscall num args =>
    cases k.running with
    | none => rfl
    | some r =>
      simp only
      rw [if_neg fun he => hexit args (by rw [he]), if_neg fun he => hwait args (by rw [he])]
  | _ => rfl

/-- A zombie does not run. -/
theorem Dead.not_running (hc : Coherent k L) (hp : Dead k p) : k.running ≠ some p := fun hr =>
  (hc.sound.placed.not_mem_of_running hr).2.2 ((dead_iff hc).mp hp)

theorem wills_quiet (hc : Coherent k L) (hi : Wills k h) (ha : Ordinary a)
    (hwait : ∀ args, a ≠ .syscall DSOS_CALL_WAIT args)
    (hexit : ∀ args, a ≠ .syscall DSOS_CALL_EXIT args) (hact : act k a = .ok k') :
    Wills k' h := by
  obtain ⟨L', hacted, hc', hstep⟩ := act_done hc ha hact
  obtain ⟨hzombie, hlast, hlive⟩ := step_zombies hstep hwait hexit
  have hdead : ∀ p, Dead k' p ↔ Dead k p := fun p => by rw [dead_iff hc', dead_iff hc, hzombie]
  refine hi.kept hlast (fun p hp => ?_) fun p hp => ?_
  · rcases hlive p hp with hp | hnew
    · exact .inl ⟨hp, pid_step hstep hp, (hdead p).mpr⟩
    · exact .inr hnew
  · have hp := (hdead p).mp hp
    have hspared := (spared_acted hc hacted hact (hp.not_running hc) hp.1).pcb
    exact ⟨hp, pid_step hstep hp.1, by rw [hspared]⟩

/-- A handler that has moved the process table leaves a coherent kernel. -/
theorem coherent_moved {num : Int} (hc : Coherent k L) (hr : k.running = some r)
    (hm : Moved (k.setCall r num args) L (Handled (view (k.setCall r num args) L) r num) k' L') :
    Coherent k' L' := by
  have hc₁ : Coherent (k.setCall r num args) L := coherent_setCall hc hr
  refine ⟨hm.tidy, hm.hung hc₁.hung, handled_sound hm.move hc₁.sound hr ?_⟩
  show ((k.setCall r num args).pcb r).syscallNum = num
  simp [setCall, modPcb]

theorem dead_setCall {num : Int} : Dead (k.setCall r num args) p ↔ Dead k p := by
  unfold Dead
  rw [status_setCall]
  rfl

theorem value_setCall {num : Int} :
    ((k.setCall r num args).pcb p).returnValue = (k.pcb p).returnValue := by
  show (Function.update k.pcb r _ p).returnValue = _
  rw [Function.update_apply]
  split
  · next he => rw [he]
  · rfl

/-- The registers of a call say nothing about the wills. -/
theorem Wills.setCall {num : Int} (hi : Wills k h) : Wills (k.setCall r num args) h :=
  hi.kept (Int.le_refl _) (fun _ hp => .inl ⟨hp, pid_setCall, dead_setCall.mpr⟩) fun _ hp =>
    ⟨dead_setCall.mp hp, pid_setCall, value_setCall⟩

/-- What a process returns does not depend on what its last call returns. -/
theorem Wills.setRetvalue (hi : Wills k h) : Wills (k.setRetvalue r v) h := by
  have hstatus : ∀ p, ((k.setRetvalue r v).pcb p).status = (k.pcb p).status := by
    intro p
    show (Function.update k.pcb r _ p).status = _
    rw [Function.update_apply]
    split
    · next he => rw [he]
    · rfl
  have hout := outside_setRetvalue k r v
  refine hi.kept (Int.le_refl _) (fun p hp => .inl ⟨hp, by rw [hout.pcb p], fun hd => ⟨hp, ?_⟩⟩)
    fun p hp => ⟨⟨hp.1, ?_⟩, by rw [hout.pcb p], by rw [hout.pcb p]⟩
  · rw [hstatus]
    exact hd.2
  · rw [← hstatus]
    exact hp.2

theorem wills_wait (hc : Coherent k L) (hfit : PidsFit (view k L)) (hr : k.running = some r)
    (hi : Wills k h) (hact : act k (.syscall DSOS_CALL_WAIT args) = .ok k') :
    Wills k' (h ++ watch k (.syscall DSOS_CALL_WAIT args) k') := by
  have hcall : internalWait (k.setCall r DSOS_CALL_WAIT args) = .ok k' :=
    syscall_handled args rfl (by decide) (by decide) hr hact
  have hc₁ : Coherent (k.setCall r DSOS_CALL_WAIT args) L := coherent_setCall hc hr
  have hi₁ : Wills (k.setCall r DSOS_CALL_WAIT args) h := hi.setCall
  have hwatch : watch k (.syscall DSOS_CALL_WAIT args) k' =
      if k'.running = some r ∧ 0 ≤ (k'.pcb r).syscallRetvalue then
        answer r (args.getD 1 0) k' else [] := by
    unfold watch
    rw [hr]
    rfl
  rcases wait_refines hc₁ hr hcall with ⟨rfl, _⟩ | ⟨c, ptr, L', hm, hptr, _, hz, hcol, hmoved⟩ |
    ⟨_, _, L', _, _, hb, hsch, hmoved⟩
  · have hneg : ¬ 0 ≤ (((k.setCall r DSOS_CALL_WAIT args).setRetvalue r DSOS_EWAIT).pcb
        r).syscallRetvalue := by
      rw [setRetvalue_self]
      decide
    rw [hwatch, if_neg fun hp => hneg hp.2, List.append_nil]
    exact hi₁.setRetvalue
  · have hchild : some c ∈ (view (k.setCall r DSOS_CALL_WAIT args) L).children r :=
      List.mem_map.mpr ⟨_, hm, hptr⟩
    obtain ⟨c', he, hlive, _⟩ := hc₁.sound.family.child r _ hchild
    cases he
    have hdead : Dead (k.setCall r DSOS_CALL_WAIT args) c := ⟨hlive, hz⟩
    have hexited := hi₁.left c hdead
    have hrun : k'.running = some r := by
      rw [hcol.rest]
      exact hr
    have hvalue : (k'.pcb r).syscallRetvalue = ((k.setCall r DSOS_CALL_WAIT args).pcb c).pid := by
      rw [hcol.pcb, Function.update_self]
    have hinfo : ∀ p, k'.pcb p = { (k.setCall r DSOS_CALL_WAIT args).pcb p with
        syscallRetvalue := (k'.pcb p).syscallRetvalue } := by
      intro p
      rw [hcol.pcb, Function.update_apply]
      split
      · next he => rw [he]
      · rfl
    have hpos : 0 ≤ ((k.setCall r DSOS_CALL_WAIT args).pcb c).pid := by
      rw [pid_setCall]
      exact hfit.nonneg c hlive
    have hkept : Wills k' h := by
      refine hi₁.kept (by rw [hcol.rest]) (fun p hp => .inl ?_) fun p hp => ?_
      · have hp₁ := ((hcol.allocated .pcb p).mp hp).2.2
        exact ⟨hp₁, by rw [hinfo p], fun hd => ⟨hp, by rw [hinfo p]; exact hd.2⟩⟩
      · have hst := hp.2
        rw [hinfo p] at hst
        exact ⟨⟨((hcol.allocated .pcb p).mp hp.1).2.2, hst⟩, by rw [hinfo p], by rw [hinfo p]⟩
    rw [hwatch, if_pos ⟨hrun, hvalue ▸ hpos⟩]
    refine hkept.answer hexited hvalue fun hne => ?_
    have harg : (k.setCall r DSOS_CALL_WAIT args).arg r 1 = args.getD 1 0 := arg_setCall (by decide)
    have hstored := intAt_storeResult hcol.stored (harg ▸ hne) (hi₁.fits _ _ hexited).1
    rw [harg] at hstored
    exact hstored
  · have hc' : Coherent k' L' := coherent_moved hc hr hmoved
    have hout := outside_blockInWait _ r k' hb
    have hzombie : (view k' L').zombie = (view (k.setCall r DSOS_CALL_WAIT args) L).zombie := by
      show (L' .zombieList).map Node.idx = (L .zombieList).map Node.idx
      rw [hsch.lists .zombieList not_false]
    have hdead : ∀ p, Dead k' p ↔ Dead (k.setCall r DSOS_CALL_WAIT args) p := fun p => by
      rw [dead_iff hc', dead_iff hc₁, hzombie]
    have hlast : k'.lastPid = k.lastPid := by
      rw [hsch.rest]
      rfl
    rw [hwatch, if_neg fun hp => blockInWait_runs hc₁ hr hb hp.1, List.append_nil]
    refine hi₁.kept (Int.le_of_eq hlast.symm) (fun p hp => .inl ⟨?_, ?_, (hdead p).mpr⟩)
      fun p hp => ⟨(hdead p).mp hp, ?_, ?_⟩
    · exact (allocated_of_pool (hsch.pool .pcb (by decide))).mp hp
    all_goals rw [hout.pcb p]

/-- The registers of `r` do not matter to another process. -/
theorem arg_setCall_ne {q i : Nat} {num : Int} (hq : q ≠ r) :
    (k.setCall r num args).arg q i = k.arg q i := by
  show (Function.update k.pcb r _ q).syscallArgs i = _
  rw [Function.update_of_ne hq]
  rfl

theorem watch_exit (hr : k.running = some r) : watch k (.syscall DSOS_CALL_EXIT args) k' =
    [.exited (k.pcb r).pid (toInt (args.getD 0 0))] ++
      match k'.running with
      | some p => if (k.pcb p).status = .Waiting then answer p (k.arg p 1) k' else []
      | none => [] := by
  unfold watch
  rw [hr]
  rfl

/-- The process that exits is the last zombie, or it is gone. -/
theorem wills_died {k₂ : Kernel} {L₂ : HeadAddr → List Node} {i parent : Nat}
    (hc : Coherent k L) (hr : k.running = some r) (hi : Wills k h)
    (hact : act k (.syscall DSOS_CALL_EXIT args) = .ok k')
    (hd : Died (k.setCall r DSOS_CALL_EXIT args) L r i parent k₂ L₂) (hc' : Coherent k' L')
    (hlast : k'.lastPid = k.lastPid) (hsub : ∀ p, Allocated k' .pcb p → Allocated k .pcb p)
    (hzombie : ∀ p, p ≠ r → (p ∈ (view k' L').zombie ↔ p ∈ (view k L).zombie))
    (hself : Allocated k' .pcb r → r ∈ (view k' L').zombie ∧
      (k'.pcb r).returnValue = (k₂.pcb r).returnValue) :
    Wills k' (h ++ [.exited (k.pcb r).pid (toInt (args.getD 0 0))]) := by
  obtain ⟨_, hacted, _, hstep⟩ := act_done hc (show Ordinary (.syscall DSOS_CALL_EXIT args) from trivial) hact
  have hlive : Allocated k .pcb r := hc.sound.placed.live_of_running hr
  have hvalue : (k₂.pcb r).returnValue = toInt (args.getD 0 0) := by
    rw [hd.returnValue, arg_setCall (by decide)]
  refine hi.exited hlive (fun hdead => hdead.not_running hc hr) (fits_toInt _) hlast
    (hc.sound.family.pid_lt r hlive) (fun p hp => ⟨hsub p hp, pid_step hstep (hsub p hp)⟩)
    (fun hp => ?_) (fun p hne hp => ?_) fun p hp he => hc.sound.family.pid_inj p r hp hlive he
  · obtain ⟨hm, hv⟩ := hself hp
    exact ⟨(dead_iff hc').mpr hm, hv.trans hvalue⟩
  · have hspared := (spared_acted hc hacted hact (fun he => hne (Option.some.inj (he.symm.trans hr)))
      (hsub p hp)).pcb
    rw [dead_iff hc', dead_iff hc, hzombie p hne]
    exact ⟨Iff.rfl, by rw [hspared]⟩

theorem wills_exit (hc : Coherent k L) (hr : k.running = some r) (hi : Wills k h)
    (hact : act k (.syscall DSOS_CALL_EXIT args) = .ok k') :
    Wills k' (h ++ watch k (.syscall DSOS_CALL_EXIT args) k') := by
  have hcall : internalExit (k.setCall r DSOS_CALL_EXIT args) = .ok k' :=
    syscall_handled args rfl (by decide) (by decide) hr hact
  have hc₁ : Coherent (k.setCall r DSOS_CALL_EXIT args) L := coherent_setCall hc hr
  obtain ⟨i, parent, k₂, L₂, hd, hend⟩ := exit_died hc₁ hr hcall
  have hrun₀ : (⟨.pcb, r⟩ : Node) ∉ L .zombieList := fun hm =>
    (hc.sound.placed.not_mem_of_running hr).2.2 (List.mem_map.mpr ⟨_, hm, rfl⟩)
  have hlist : L₂ .zombieList = L .zombieList ++ [⟨.pcb, r⟩] := by
    rw [hd.lists, Function.update_self]
  have hlive₂ : ∀ j, Allocated k₂ .pcb j ↔ Allocated k .pcb j := by
    intro j
    refine allocated_of_pool ?_
    rw [hd.rest]
    rfl
  have hlast₂ : k₂.lastPid = k.lastPid := by
    rw [hd.rest]
    rfl
  rw [watch_exit hr, ← List.append_assoc]
  rcases hend with ⟨hw, hrep⟩ | ⟨hno, n, k₃, hf, rfl⟩
  · obtain ⟨ptr, L', hrep, hmoved⟩ := exitReport_refines hc₁ hd hw hrep
    have hc' : Coherent k' L' := coherent_moved hc hr hmoved
    have hzombie : L' .zombieList = L .zombieList := by
      rw [hrep.zombie, hlist, List.erase_append_right _ hrun₀, List.erase_cons_head,
        List.append_nil]
    have hgone : ¬ Allocated k' .pcb r := fun hp => ((hrep.allocated .pcb r).mp hp).2.1 ⟨rfl, rfl⟩
    have hwills : Wills k' (h ++ [.exited (k.pcb r).pid (toInt (args.getD 0 0))]) := by
      refine wills_died hc hr hi hact hd hc' (by rw [hrep.rest]; exact hlast₂) (fun p hp => ?_)
        (fun p _ => ?_) fun hp => absurd hp hgone
      · exact (hlive₂ p).mp ((hrep.allocated .pcb p).mp hp).1
      · show p ∈ (L' .zombieList).map Node.idx ↔ p ∈ (L .zombieList).map Node.idx
        rw [hzombie]
    have hwait := (waitsFor_died hc₁.sound hr).mp hw
    have hne : parent ≠ r := ne_of_awaits hc₁ hr hwait.1
    have hwaits : (k.pcb parent).status = .Waiting := status_setCall.symm.trans hwait.1
    have hrun : k'.running = some parent := by rw [hrep.rest]
    have hpid : (k₂.pcb r).pid = (k.pcb r).pid := by
      have hview := congrArg (fun s => (s.info r).pid) hd.view_eq
      exact (hview.trans (pid_died r)).trans pid_setCall
    rw [hrun]
    simp only [hwaits, if_true]
    have hmem : Event.exited (k.pcb r).pid (toInt (args.getD 0 0)) ∈
        h ++ [.exited (k.pcb r).pid (toInt (args.getD 0 0))] :=
      List.mem_append_right _ List.mem_cons_self
    refine hwills.answer hmem (by rw [hrep.pcb, Function.update_self]; exact hpid) fun hne₀ => ?_
    have harg : k₂.arg parent 1 = k.arg parent 1 := (arg_died hd parent 1).trans (arg_setCall_ne hne)
    have hvalue : (k₂.pcb r).returnValue = toInt (args.getD 0 0) := by
      rw [hd.returnValue, arg_setCall (by decide)]
    have hstored := intAt_storeResult hrep.stored (harg ▸ hne₀) (hvalue ▸ fits_toInt _)
    rw [harg, hvalue] at hstored
    exact hstored
  · obtain ⟨rest, hL, hmoved, _, hk₃⟩ := exitNext_refines hc₁ hd hno hf
    have hc' := coherent_moved hc hr hmoved
    have hready : n ∈ (view k L).ready := by
      show n ∈ (L .readyList).map Node.idx
      rw [hL]
      exact List.mem_cons_self
    have hnw : (k.pcb n).status ≠ .Waiting := fun hw =>
      (hc.sound.placed.not_mem_of_waiting (hc.sound.marked.waits n hw)).2.1 hready
    simp only [if_neg hnw, List.append_nil]
    have hzombies : ∀ p, p ∈ (Function.update L₂ .readyList rest .zombieList).map Node.idx ↔
        p ∈ (L .zombieList).map Node.idx ∨ p = r := by
      intro p
      rw [Function.update_of_ne (by simp), hlist, List.map_append, List.mem_append]
      simp
    refine wills_died hc hr hi hact hd hc' ?_ (fun p hp => ?_) (fun p hne => ?_) fun _ => ⟨?_, ?_⟩
    · rw [hk₃]
      exact hlast₂
    · rw [hk₃] at hp
      exact (hlive₂ p).mp hp
    · exact (hzombies p).trans (or_iff_left hne)
    · exact (hzombies r).mpr (.inr rfl)
    · rw [hk₃]
      rw [(outside_setStatus (k₂.detach .readyList ⟨.pcb, n⟩) n .Running).pcb r]
      rfl

theorem wills_act (hc : Coherent k L) (hfit : PidsFit (view k L)) (hi : Wills k h)
    (ha : Ordinary a) (hact : act k a = .ok k') : Wills k' (h ++ watch k a k') := by
  by_cases hwait : ∃ args, a = .syscall DSOS_CALL_WAIT args
  · obtain ⟨args, rfl⟩ := hwait
    obtain ⟨r, hr⟩ := caller_running hact
    exact wills_wait hc hfit hr hi hact
  by_cases hexit : ∃ args, a = .syscall DSOS_CALL_EXIT args
  · obtain ⟨args, rfl⟩ := hexit
    obtain ⟨r, hr⟩ := caller_running hact
    exact wills_exit hc hr hi hact
  · have hwait := not_exists.mp hwait
    have hexit := not_exists.mp hexit
    rw [watch_quiet hwait hexit, List.append_nil]
    exact wills_quiet hc hi ha hwait hexit hact

/-! ## Runs -/

/-- At the start there is no zombie. -/
theorem booted_wills (hb : Booted mem k) : Wills k [] := by
  have hno : ∀ p, ¬ Dead k p := by
    intro p hp
    have hm := (dead_iff (booted_coherent hb)).mp hp
    exact absurd hm List.not_mem_nil
  exact ⟨fun p hp => absurd hp (hno p), fun x v hx => absurd hx List.not_mem_nil,
    fun x v hx => absurd hx List.not_mem_nil, fun x v w hx => absurd hx List.not_mem_nil,
    fun x v hx => absurd hx List.not_mem_nil⟩

/-- In every run, whenever a process is told a value for a child, the child has exited with
this value, and no process exits twice with different values. -/
theorem exit_value_delivered {seen : List Event} (hs : Started mem k₀)
    (hrun : Run (withHistory act watch) (fun _ a => Ordinary a) (k₀, []) as (k, seen)) :
    (∀ x v, .told x v ∈ seen → .exited x v ∈ seen) ∧
      ∀ x v w, .exited x v ∈ seen → .exited x w ∈ seen → v = w := by
  obtain ⟨L₀, hc₀, hfit₀, _⟩ := reachable_pids hs (.nil k₀)
  have hinv : ∃ L, Coherent k L ∧ PidsFit (view k L) ∧ Wills k seen := by
    refine run_invariant (I := fun s => ∃ L, Coherent s.1 L ∧ PidsFit (view s.1 L) ∧
      Wills s.1 s.2) ?_ ⟨L₀, hc₀, hfit₀, booted_wills (start_booted hs)⟩ hrun
    rintro ⟨k, h⟩ a ⟨k', h'⟩ ⟨L, hc, hfit, hi⟩ ha hact
    obtain ⟨hact, hh⟩ := withHistory_ok.mp hact
    obtain ⟨L', _, hc', hstep⟩ := act_done hc ha hact
    exact ⟨L', hc', pidsFit_step hfit hstep, hh ▸ wills_act hc hfit hi ha hact⟩
  obtain ⟨_, _, _, hi⟩ := hinv
  exact ⟨hi.told, hi.once⟩

/-- A child exits with -5 before init waits for it, and another one with 9 after. -/
theorem exit_value_delivered_two : ∃ k₀ k seen, Started (fun _ => 0) k₀ ∧
    Run (withHistory act watch) (fun _ a => Ordinary a) (k₀, [])
      [.syscall DSOS_CALL_SPAWN [], .syscall DSOS_CALL_PREEMPT [], .syscall DSOS_CALL_EXIT [-5],
        .syscall DSOS_CALL_WAIT [0, 100], .syscall DSOS_CALL_SPAWN [],
        .syscall DSOS_CALL_WAIT [2, 100], .syscall DSOS_CALL_EXIT [9]] (k, seen) ∧
    seen = [.exited 1 (-5), .told 1 (-5), .exited 2 9, .told 2 9] ∧
    ((∀ x v, .told x v ∈ seen → .exited x v ∈ seen) ∧
      ∀ x v w, .exited x v ∈ seen → .exited x w ∈ seen → v = w) := by
  obtain ⟨k₀, hs, htest⟩ := exists_of_any (x := disastrOSStart (zeroed fun _ => 0))
    (p := fun k₀ => (exec (withHistory act watch) (fun _ a => decide (Ordinary a)) (k₀, [])
      [.syscall DSOS_CALL_SPAWN [], .syscall DSOS_CALL_PREEMPT [], .syscall DSOS_CALL_EXIT [-5],
        .syscall DSOS_CALL_WAIT [0, 100], .syscall DSOS_CALL_SPAWN [],
        .syscall DSOS_CALL_WAIT [2, 100], .syscall DSOS_CALL_EXIT [9]]).any fun s =>
      s.2 = [.exited 1 (-5), .told 1 (-5), .exited 2 9, .told 2 9])
    (by decide +kernel)
  obtain ⟨⟨k, seen⟩, hrun, hseen⟩ := exists_run (fun _ a => Ordinary a)
    (fun _ _ hcheck => of_decide_eq_true hcheck) htest
  exact ⟨k₀, k, seen, hs, hrun, of_decide_eq_true hseen, exit_value_delivered hs hrun⟩

end DisastrOS.Process.ExitValues
