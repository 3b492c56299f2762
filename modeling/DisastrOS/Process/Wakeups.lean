import DisastrOS.Process.Kinship

/-!
# Nobody waits for a zombie

A process that dies tells its stored parent. When that is not the process which lists it
as a child, or when children that are zombies are handed over to init, a process may wait
for a zombie for ever. In runs without such exits no process waits for a zombie child.
-/
namespace DisastrOS.Process.Wakeups

open DisastrOS.Machine
open DisastrOS.Machine.Kernel
open DisastrOS.Machine.Runs
open DisastrOS.Lists.Wiring
open DisastrOS.Lists.Boot
open DisastrOS.Process.Table
open DisastrOS.Process.Steps
open DisastrOS.Process.View
open DisastrOS.Process.Coherence
open DisastrOS.Process.Transitions
open DisastrOS.Process.SystemRuns
open DisastrOS.Process.Kinship
open DisastrOS.Library.GuardedRun

variable {s s' : ProcessTable} {k : Kernel} {L : HeadAddr → List Node} {r i parent p c d : Nat}
  {num : Int} {args : List Int} {a : Action} {cs : List (Option Nat)} {last : Option Nat}

/-! ## The scan of `internal_wait` -/

/-- Waiting for any child stops at a zombie if there is one. -/
theorem awaited_zombie (h : awaited s 0 cs last = some c) (hd : some d ∈ cs)
    (hz : (s.info d).status = .Zombie) : (s.info c).status = .Zombie := by
  induction cs generalizing last with
  | nil => cases hd
  | cons o cs ih =>
    cases o with
    | none =>
      have hd := (List.mem_cons.mp hd).resolve_left nofun
      exact ih h hd
    | some e =>
      unfold awaited at h
      split at h
      · next he =>
        cases h
        exact he.2
      · next he =>
        rw [if_neg (by simp)] at h
        refine ih h ((List.mem_cons.mp hd).resolve_left fun hde => he ⟨rfl, ?_⟩)
        rw [Option.some.injEq] at hde
        exact hde ▸ hz

/-- Waiting for the pid of a child stops at a process with that pid. -/
theorem awaited_pid {pid : Int} (h : awaited s pid cs last = some c) (hpid : pid ≠ 0)
    (hd : some d ∈ cs) (he : (s.info d).pid = pid) : (s.info c).pid = pid := by
  induction cs generalizing last with
  | nil => cases hd
  | cons o cs ih =>
    cases o with
    | none =>
      have hd := (List.mem_cons.mp hd).resolve_left nofun
      exact ih h hd
    | some e =>
      unfold awaited at h
      rw [if_neg fun hz => hpid hz.1] at h
      split at h
      · next heq =>
        cases h
        exact heq.2
      · next hne =>
        refine ih h ((List.mem_cons.mp hd).resolve_left fun hde => hne ⟨hpid, ?_⟩)
        rw [Option.some.injEq] at hde
        exact hde ▸ he

/-! ## The table -/

/-- No process waits for a zombie child. Pids fit into an `int`, and nobody is its own
child. -/
structure Heard (s : ProcessTable) : Prop where
  told : ∀ p c, some c ∈ s.children p → (s.info c).status = .Zombie → ¬ WaitsFor s p c
  other : ∀ p, some p ∉ s.children p
  last : 0 ≤ s.lastPid ∧ s.lastPid < 2 ^ 31
  pid : ∀ p, s.live p → 0 ≤ (s.info p).pid

/-- The exit of `r` leaves a process waiting for a zombie child: for `r`, or, in the case
of init, for a child of `r`. -/
def LeavesWaiting (s : ProcessTable) (r : Nat) : Prop :=
  ∃ w, ¬ ((s.info r).parent = some w ∧ WaitsFor s w r) ∧
    ∃ x, WaitsFor s w x ∧ ((x = r ∧ some r ∈ s.children w) ∨
      (s.init = some w ∧ some x ∈ s.children r ∧ (s.info x).status = .Zombie))

/-- Processes keep their pids and calls, nobody starts to wait and nobody dies. -/
theorem heard_congr (h : Heard s) (hc : ∀ q o, o ∈ s'.children q → o ∈ s.children q)
    (hlast : s'.lastPid = s.lastPid) (hlive : ∀ p, s'.live p → s.live p)
    (hpid : ∀ p, (s'.info p).pid = (s.info p).pid)
    (hz : ∀ p, (s'.info p).status = .Zombie → (s.info p).status = .Zombie)
    (hw : ∀ p, (s'.info p).status = .Waiting → (s.info p).status = .Waiting ∧
      (s'.info p).syscallNum = (s.info p).syscallNum ∧
      (s'.info p).syscallArgs 0 = (s.info p).syscallArgs 0) : Heard s' := by
  refine ⟨fun p c hm hzombie hwaits => ?_, fun p hm => h.other p (hc p _ hm), hlast ▸ h.last,
    fun p hp => hpid p ▸ h.pid p (hlive p hp)⟩
  obtain ⟨hst, hnum, harg⟩ := hwaits
  obtain ⟨hst', hnum', harg'⟩ := hw p hst
  refine h.told p c (hc p _ hm) (hz c hzombie) ⟨hst', hnum' ▸ hnum, ?_⟩
  rwa [hpid, harg'] at harg

theorem heard_rescheduled (h : Heard s) (hr : Rescheduled s s') : Heard s' := by
  have hstatus : ∀ p st, st ≠ .Ready → st ≠ .Running → (s'.info p).status = st →
      (s.info p).status = st := by
    intro p st h₁ h₂ he
    rcases hr.status p with hsame | hready | hrunning
    · rw [← hsame, he]
    · exact absurd (he.symm.trans hready) h₁
    · exact absurd (he.symm.trans hrunning) h₂
  refine heard_congr h (fun q o ho => ?_) (by rw [hr.rest]) (fun p hp => ?_) (fun p => ?_)
    (fun p => hstatus p _ nofun nofun) fun p hp => ⟨hstatus p _ nofun nofun hp, ?_, ?_⟩
  · rwa [hr.rest] at ho
  · rwa [hr.rest] at hp
  · rw [hr.info p]
  · rw [hr.info p]
  · rw [hr.info p]

/-- A new process waits for nobody and is no zombie. -/
theorem heard_born {q : PCB} (h : Heard s) (hb : Born s s' p q) (hfits : s.lastPid + 1 < 2 ^ 31)
    (hmem : ∀ i c, some c ∈ s'.children i → some c ∈ s.children i ∨ (c = p ∧ i ≠ p)) :
    Heard s' := by
  refine ⟨fun i c hm hz hw => ?_, fun i hm => ?_, ?_, fun i hl => ?_⟩
  · have hcp : c ≠ p := by
      rintro rfl
      rw [hb.info_self] at hz
      exact hb.awake.2 hz
    have hip : i ≠ p := by
      rintro rfl
      rw [WaitsFor, hb.info_self] at hw
      exact hb.awake.1 hw.1
    rw [hb.info_of_ne hcp] at hz
    rw [WaitsFor, hb.info_of_ne hcp, hb.info_of_ne hip] at hw
    exact h.told i c ((hmem i c hm).resolve_right fun he => hcp he.1) hz hw
  · rcases hmem i i hm with hm | ⟨he, hne⟩
    · exact h.other i hm
    · exact hne he
  · rw [hb.lastPid]
    have := h.last.1
    omega
  · by_cases hip : i = p
    · rw [hip, hb.info_self, hb.pid]
      exact h.last.1
    · rw [hb.info_of_ne hip]
      exact h.pid i ((hb.live_iff.mp hl).resolve_left hip)

theorem heard_spawn {q : PCB} (h : Heard s) (hs : Sound s) (hr : s.running = some r)
    (hp : ¬ s.live p) (hpid : q.pid = s.lastPid) (hfits : s.lastPid + 1 < 2 ^ 31)
    (hst : q.status = .Ready) : Heard (s.spawn r p q) := by
  have hb : Born s (s.spawn r p q) p q := born_spawn hp hpid hst
  refine heard_born h hb hfits fun i c hm => ?_
  refine ((mem_children_spawn (hb.childless hs).2).mp hm).imp_right fun ⟨hi, hc⟩ => ?_
  exact ⟨Option.some.inj hc, hi ▸ hb.ne_of_live (hs.placed.live_of_running hr)⟩

theorem heard_restart {q : PCB} (h : Heard s) (hs : Sound s) (hr : s.running = none)
    (hp : ¬ s.live p) (hpid : q.pid = s.lastPid) (hfits : s.lastPid + 1 < 2 ^ 31)
    (hst : q.status = .Running) : Heard (s.restart p q) := by
  have hb : Born s (s.restart p q) p q := born_restart hr hp hpid hst
  refine heard_born h hb hfits fun i c hm => .inl ?_
  have hm : some c ∈ Function.update s.children p [] i := hm
  rwa [← (hb.childless hs).2, Function.update_eq_self] at hm

/-! ## Exits -/

theorem mem_children_adopt (h : some c ∈ (s.adopt r i).children p) :
    (p = i ∧ (some c ∈ s.children i ∨ some c ∈ s.children r)) ∨
      (p ≠ i ∧ p ≠ r ∧ some c ∈ s.children p) := by
  have h : some c ∈ Function.update (Function.update s.children r []) i
      (s.children i ++ s.children r) p := h
  rw [Function.update_apply] at h
  split at h
  · next he => exact .inl ⟨he, List.mem_append.mp h⟩
  · next hpi =>
    rw [Function.update_apply] at h
    split at h
    · cases h
    · next hpr => exact .inr ⟨hpi, hpr, h⟩

theorem other_adopt (h : Heard s) (hs : Sound s) (hi : s.init = some i) (p : Nat) :
    some p ∉ (s.adopt r i).children p := by
  intro hm
  rcases mem_children_adopt hm with ⟨rfl, hold | hgiven⟩ | ⟨_, _, hold⟩
  · exact h.other _ hold
  · obtain ⟨_, he, _, hne, _⟩ := hs.family.child r _ hgiven
    obtain ⟨j, hj, _, hnone⟩ := hs.family.init
    cases he
    cases hi.symm.trans hj
    exact hne hnone
  · exact h.other p hold

theorem pid_died (p : Nat) : (((s.adopt r i).die r parent).info p).pid = (s.info p).pid := by
  obtain ⟨sig, hinfo⟩ := @info_died s r i parent p
  rw [hinfo]

/-- After the exit of `r` only the parent that is told of it waits for a zombie child. -/
theorem told_died (h : Heard s) (hi : s.init = some i)
    (hparent : (s.info r).parent = some parent) (hguard : ¬ LeavesWaiting s r)
    (hm : some c ∈ ((s.adopt r i).die r parent).children p)
    (hz : (((s.adopt r i).die r parent).info c).status = .Zombie)
    (hw : WaitsFor ((s.adopt r i).die r parent) p c) : p = parent ∧ WaitsFor s parent r := by
  obtain ⟨sig, hinfo⟩ := @info_died s r i parent p
  obtain ⟨sig', hinfo'⟩ := @info_died s r i parent c
  have hpr : p ≠ r := by
    rintro rfl
    rw [WaitsFor, hinfo] at hw
    simp at hw
  have hwaits : WaitsFor s p c := by
    rw [WaitsFor, hinfo, hinfo'] at hw
    simpa [WaitsFor, hpr] using hw
  have hzombie : c = r ∨ (s.info c).status = .Zombie := by
    rw [hinfo'] at hz
    by_cases hc : c = r
    · exact .inl hc
    · exact .inr (by simpa [hc] using hz)
  have htold : ((c = r ∧ some r ∈ s.children p) ∨
      (s.init = some p ∧ some c ∈ s.children r ∧ (s.info c).status = .Zombie)) →
      p = parent ∧ WaitsFor s parent r := by
    intro hcase
    obtain ⟨hp, htold⟩ : (s.info r).parent = some p ∧ WaitsFor s p r := by
      by_contra hn
      exact hguard ⟨p, hn, c, hwaits, hcase⟩
    obtain rfl : parent = p := Option.some.inj (hparent.symm.trans hp)
    exact ⟨rfl, htold⟩
  -- `p` had the child before, or is init and got it from `r`
  have hcase : some c ∈ s.children p ∨ (p = i ∧ some c ∈ s.children r) := by
    rcases mem_children_adopt hm with ⟨hpi, hold | hgiven⟩ | ⟨_, _, hold⟩
    · exact .inl (hpi ▸ hold)
    · exact .inr ⟨hpi, hgiven⟩
    · exact .inl hold
  rcases hcase with hold | ⟨hpi, hgiven⟩ <;> rcases hzombie with hcr | hzombie
  · exact htold (.inl ⟨hcr, hcr ▸ hold⟩)
  · exact absurd hwaits (h.told p c hold hzombie)
  · exact absurd hgiven (hcr ▸ h.other c)
  · exact htold (.inr ⟨hpi ▸ hi, hgiven, hzombie⟩)

theorem heard_exitNext {n : Nat} (h : Heard s) (hs : Sound s) (hr : s.running = some r)
    (hi : s.init = some i) (hparent : (s.info r).parent = some parent)
    (hno : ¬ WaitsFor ((s.adopt r i).die r parent) parent r) (hguard : ¬ LeavesWaiting s r) :
    Heard (((s.adopt r i).die r parent).runNext.setStatus n .Running) := by
  have hstatus : ∀ p st, st ≠ .Running →
      ((((s.adopt r i).die r parent).runNext.setStatus n .Running).info p).status = st →
      (((s.adopt r i).die r parent).info p).status = st := by
    intro p st hst he
    rw [status_setStatus] at he
    split at he
    · exact absurd he.symm hst
    · exact he
  refine ⟨fun p c hm hz hw => ?_, other_adopt h hs hi, h.last, fun p hp => ?_⟩
  · have hz := hstatus c .Zombie nofun hz
    have hw : WaitsFor ((s.adopt r i).die r parent) p c := by
      obtain ⟨hst, hnum, harg⟩ := hw
      rw [syscallNum_setStatus] at hnum
      rw [pid_setStatus, syscallArgs_setStatus] at harg
      exact ⟨hstatus p .Waiting nofun hst, hnum, harg⟩
    obtain ⟨_, htold⟩ := told_died h hi hparent hguard hm hz hw
    exact hno ((waitsFor_died hs hr).mpr htold)
  · rw [pid_setStatus]
    show 0 ≤ (((s.adopt r i).die r parent).info p).pid
    rw [pid_died]
    exact h.pid p hp

theorem heard_exitReport (h : Heard s) (hs : Sound s) (hi : s.init = some i) (hparent : (s.info r).parent = some parent)
    (hguard : ¬ LeavesWaiting s r) :
    Heard (((((s.adopt r i).die r parent).resume parent).unlinkChild parent r).forget r) := by
  have hstatus : ∀ p st, st ≠ .Running →
      (((((((s.adopt r i).die r parent).resume parent).unlinkChild parent r).forget r).info
        p).status = st) → p ≠ parent ∧ (((s.adopt r i).die r parent).info p).status = st := by
    intro p st hst he
    have he : ((((s.adopt r i).die r parent).setStatus parent .Running).info p).status = st := he
    rw [status_setStatus] at he
    split at he
    · exact absurd he.symm hst
    · next hne => exact ⟨hne, he⟩
  have hchildren : ∀ p c, some c ∈ (((((s.adopt r i).die r parent).resume parent).unlinkChild
      parent r).forget r).children p → some c ∈ ((s.adopt r i).die r parent).children p := by
    intro p c hm
    have hm : some c ∈ Function.update ((s.adopt r i).die r parent).children parent _ p := hm
    rw [Function.update_apply] at hm
    split at hm
    · next he =>
      rw [he]
      exact List.mem_of_mem_erase hm
    · exact hm
  refine ⟨fun p c hm hz hw => ?_, fun p hm => other_adopt h hs hi p (hchildren p p hm), h.last,
    fun p hp => ?_⟩
  · obtain ⟨_, hz⟩ := hstatus c .Zombie nofun hz
    obtain ⟨hst, hnum, harg⟩ := hw
    obtain ⟨hpp, hst⟩ := hstatus p .Waiting nofun hst
    have hnum : ((((s.adopt r i).die r parent).setStatus parent .Running).info p).syscallNum = _ :=
      hnum
    have harg : ((((s.adopt r i).die r parent).setStatus parent .Running).info p).syscallArgs 0 =
        0 ∨ ((((s.adopt r i).die r parent).setStatus parent .Running).info p).syscallArgs 0 =
          ((((s.adopt r i).die r parent).setStatus parent .Running).info c).pid := harg
    rw [syscallNum_setStatus] at hnum
    rw [pid_setStatus, syscallArgs_setStatus] at harg
    exact hpp (told_died h hi hparent hguard (hchildren p c hm) hz ⟨hst, hnum, harg⟩).1
  · show 0 ≤ ((((s.adopt r i).die r parent).setStatus parent .Running).info p).pid
    rw [pid_setStatus, pid_died]
    exact h.pid p hp.2

/-! ## Steps -/

theorem heard_waitBlock (h : Heard s) (hs : Sound s) (hc : some c ∈ s.children r)
    (hawaited : awaited s (toInt ((s.info r).syscallArgs 0)) (s.children r) none = some c)
    (hz : (s.info c).status ≠ .Zombie) : Heard (s.waitForChild r) := by
  have hst : ∀ p, ((s.waitForChild r).info p).status =
      if p = r then .Waiting else (s.info p).status := fun p => status_setStatus _
  refine ⟨fun p d hm hzombie hwaits => ?_, h.other, h.last, fun p hp => ?_⟩
  · have hm : some d ∈ s.children p := hm
    rw [hst] at hzombie
    split at hzombie
    · cases hzombie
    · have hw := hwaits.1
      rw [hst] at hw
      have hnum : ((s.setStatus r .Waiting).info p).syscallNum = DSOS_CALL_WAIT := hwaits.2.1
      have harg : ((s.setStatus r .Waiting).info p).syscallArgs 0 = 0 ∨
        ((s.setStatus r .Waiting).info p).syscallArgs 0 = ((s.setStatus r .Waiting).info d).pid :=
        hwaits.2.2
      rw [syscallNum_setStatus] at hnum
      rw [pid_setStatus, syscallArgs_setStatus] at harg
      split at hw
      · next hpr =>
        subst hpr
        obtain ⟨_, he, hlive, _⟩ := hs.family.child p _ hm
        cases he
        have hpos := h.pid d hlive
        have hlt := hs.family.pid_lt d hlive
        have hmax := h.last.2
        by_cases hzero : (s.info p).syscallArgs 0 = 0
        · rw [hzero] at hawaited
          exact hz (awaited_zombie hawaited hm hzombie)
        · -- the argument is a pid, so it is an `int`
          have harg := harg.resolve_left hzero
          rw [toInt_of_fits (by omega) (by omega)] at hawaited
          have hpid := awaited_pid hawaited hzero hm harg.symm
          obtain ⟨_, he, hlive', _⟩ := hs.family.child p _ hc
          cases he
          obtain rfl := hs.family.pid_inj c d hlive' hlive (hpid.trans harg)
          exact hz hzombie
      · exact h.told p d hm hzombie ⟨hw, hnum, harg⟩
  · show 0 ≤ ((s.setStatus r .Waiting).info p).pid
    rw [pid_setStatus]
    exact h.pid p hp

theorem heard_handled (h : Heard s) (hs : Sound s) (hr : s.running = some r)
    (hnum : (s.info r).syscallNum = num) (hh : Handled s r num s')
    (hexit : num = DSOS_CALL_EXIT → ¬ LeavesWaiting s r) : Heard s' := by
  cases hh with
  | quiet => exact h
  | preempt hsched => exact heard_rescheduled h (schedules_rescheduled hsched)
  | spawn _ hp hpid hfits hst _ => exact heard_spawn h hs hr hp hpid hfits hst
  | @sleep w as bs _ _ _ =>
    -- the process that sleeps has called `sleep`, not `wait`
    have hst : ∀ p, ((s.sleep r w as bs).info p).status =
        if p = r then .Waiting else (s.info p).status := fun p => status_setStatus _
    have hcall : ∀ p, ((s.sleep r w as bs).info p).syscallNum = (s.info p).syscallNum :=
      fun p => syscallNum_setStatus _
    have harg : ∀ p, ((s.sleep r w as bs).info p).syscallArgs = (s.info p).syscallArgs :=
      fun p => syscallArgs_setStatus _
    have hpid : ∀ p, ((s.sleep r w as bs).info p).pid = (s.info p).pid :=
      fun p => pid_setStatus _
    refine ⟨fun p c hm hz hw => ?_, h.other, h.last, fun p hp => hpid p ▸ h.pid p hp⟩
    obtain ⟨hw₁, hw₂, hw₃⟩ := hw
    rw [hcall] at hw₂
    have hpr : p ≠ r := by
      rintro rfl
      rw [hnum] at hw₂
      cases hw₂
    rw [hst, if_neg hpr] at hw₁
    rw [harg, hpid] at hw₃
    rw [hst] at hz
    split at hz
    · cases hz
    · exact h.told p c hm hz ⟨hw₁, hw₂, hw₃⟩
  | waitBlock hc hawaited hz => exact heard_waitBlock h hs hc hawaited hz
  | @waitCollect c _ _ _ =>
    refine heard_congr h (fun q o ho => ?_) rfl (fun _ hp => hp.2) (fun _ => rfl) (fun _ hz => hz)
      fun _ hw => ⟨hw, rfl, rfl⟩
    have ho : o ∈ Function.update s.children r ((s.children r).erase (some c)) q := ho
    rw [Function.update_apply] at ho
    split at ho
    · next he =>
      rw [he]
      exact List.mem_of_mem_erase ho
    · exact ho
  | exitNext hi hparent hno _ => exact heard_exitNext h hs hr hi hparent hno (hexit rfl)
  | exitReport hi hparent _ _ => exact heard_exitReport h hs hi hparent (hexit rfl)
  | semBlock => exact ⟨h.told, h.other, h.last, h.pid⟩
  | semWake => exact ⟨h.told, h.other, h.last, h.pid⟩

theorem heard_called (h : Heard s) (hs : Sound s) (hr : s.running = some r) :
    Heard (s.modify r fun q => q.called num args) := by
  have hinfo : ∀ p, (s.modify r fun q => q.called num args).info p =
      if p = r then (s.info r).called num args else s.info p := fun p =>
    Function.update_apply _ _ _ _
  refine heard_congr h (fun _ _ ho => ho) rfl (fun _ hp => hp) (fun p => ?_) (fun p hz => ?_)
    fun p hw => ?_
  · rw [hinfo]
    split
    · next he => rw [he]; rfl
    · rfl
  · rw [hinfo] at hz
    split at hz
    · next he => rw [he]; exact hz
    · exact hz
  · rw [hinfo] at hw ⊢
    split at hw
    · next he =>
      -- who runs does not wait
      have hw : (s.info r).status = .Waiting := hw
      exact absurd (hs.marked.waits r hw) (hs.placed.not_mem_of_running hr).2.1
    · next hne =>
      rw [if_neg hne]
      exact ⟨hw, rfl, rfl⟩

/-- The registers of the call do not matter for the guard. -/
theorem leaves_of_called (hs : Sound s) (hr : s.running = some r)
    (h : LeavesWaiting (s.modify r fun q => q.called num args) r) : LeavesWaiting s r := by
  have hinfo : ∀ p, (s.modify r fun q => q.called num args).info p =
      if p = r then (s.info r).called num args else s.info p := fun p =>
    Function.update_apply _ _ _ _
  have hpid : ∀ p, ((s.modify r fun q => q.called num args).info p).pid = (s.info p).pid := by
    intro p
    rw [hinfo]
    split
    · next he => rw [he]; rfl
    · rfl
  have hstatus : ∀ p, ((s.modify r fun q => q.called num args).info p).status =
      (s.info p).status := by
    intro p
    rw [hinfo]
    split
    · next he => rw [he]; rfl
    · rfl
  have hwaits : ∀ p x, WaitsFor (s.modify r fun q => q.called num args) p x ↔ WaitsFor s p x := by
    intro p x
    unfold WaitsFor
    rw [hstatus, hpid]
    by_cases hpr : p = r
    · subst hpr
      have hnw : (s.info p).status ≠ .Waiting := fun hw =>
        (hs.placed.not_mem_of_running hr).2.1 (hs.marked.waits p hw)
      simp [hnw]
    · rw [hinfo, if_neg hpr]
  obtain ⟨w, hno, x, hw, hx⟩ := h
  refine ⟨w, fun ⟨hparent, htold⟩ => hno ⟨?_, (hwaits w r).mpr htold⟩, x,
    (hwaits w x).mp hw, hx.imp id fun ⟨hi, hc, hz⟩ => ⟨hi, hc, hstatus x ▸ hz⟩⟩
  rw [hinfo, if_pos rfl]
  exact hparent

theorem heard_step (h : Heard s) (hs : Sound s) (hstep : Step s a s')
    (hexit : ∀ args r, a = .syscall DSOS_CALL_EXIT args → s.running = some r →
      ¬ LeavesWaiting s r) : Heard s' := by
  cases hstep with
  | refused => exact h
  | @call r num args _ hr hh =>
    refine heard_handled (heard_called h hs hr) (called_sound hs hr) hr ?_ hh fun he hleaves => ?_
    · show (Function.update s.info r _ r).syscallNum = num
      rw [Function.update_self]
      rfl
    · exact hexit args r (by rw [he]) hr (leaves_of_called hs hr hleaves)
  | tick _ hsched =>
    exact heard_rescheduled (s := { s with time := s.time + 1 })
      ⟨h.told, h.other, h.last, h.pid⟩ (schedules_rescheduled hsched)
  | restart hr hp hpid hfits hst _ => exact heard_restart h hs hr hp hpid hfits hst
  | store => exact h

/-! ## The kernel -/

/-- The process `p` is blocked in `wait` with the argument `arg`. -/
def BlockedInWait (k : Kernel) (p : Nat) (arg : Int) : Prop :=
  Linked k .waitingList ⟨.pcb, p⟩ ∧ (k.pcb p).syscallNum = DSOS_CALL_WAIT ∧
    (k.pcb p).syscallArgs 0 = arg

/-- Nobody waits for any child while one is a zombie, or for a certain child that is. -/
structure NoLostWakeup (k : Kernel) : Prop where
  any : ∀ p c, BlockedInWait k p 0 → ChildOf k p c → (k.pcb c).status ≠ .Zombie
  one : ∀ p c pid, 0 < pid → BlockedInWait k p pid → ChildOf k p c → (k.pcb c).pid = pid →
    (k.pcb c).status ≠ .Zombie

/-- The running process exits, the process that lists it waits for it, or init waits for one
of its zombie children, and it is not this process that is told. -/
def LosesWakeup (k : Kernel) : Action → Prop
  | .syscall num _ => num = DSOS_CALL_EXIT ∧ ∃ r w, k.running = some r ∧
      ¬ ((k.pcb r).parent = some w ∧ Awaits k w r) ∧
      ∃ x, Awaits k w x ∧ ((x = r ∧ ChildOf k w r) ∨
        (k.initPcb = some w ∧ ChildOf k r x ∧ (k.pcb x).status = .Zombie))
  | _ => False

theorem noLostWakeup_of_heard (hc : Coherent k L) (h : Heard (view k L)) : NoLostWakeup k := by
  have hs := hc.tidy.strung
  have hwaits : ∀ p arg c, BlockedInWait k p arg → (arg = 0 ∨ arg = (k.pcb c).pid) →
      WaitsFor (view k L) p c := by
    rintro p arg c ⟨hlinked, hnum, harg⟩ hcase
    have hmem : p ∈ (view k L).waiting := (mem_map_idx hs (l := .waitingList) regular_pcb).mpr
      ((hs.linked_iff (l := .waitingList) regular_pcb).mp hlinked)
    rcases hc.sound.marked.blocked p hmem with ⟨hsem, _⟩ | ⟨_, hst⟩
    · have hsem : (k.pcb p).syscallNum = DSOS_CALL_SEMWAIT := hsem
      rw [hnum] at hsem
      cases hsem
    · exact ⟨hst, hnum, hcase.imp (fun he => harg.trans he) fun he => harg.trans he⟩
  refine ⟨fun p c hb hchild hz => ?_, fun p c pid _ hb hchild hpid hz => ?_⟩
  · exact h.told p c ((childOf_iff hs).mp hchild) hz (hwaits p 0 c hb (.inl rfl))
  · exact h.told p c ((childOf_iff hs).mp hchild) hz (hwaits p pid c hb (.inr hpid.symm))

theorem leaves_of_loses (hc : Coherent k L) (hguard : ¬ LosesWakeup k a) :
    ∀ args r, a = .syscall DSOS_CALL_EXIT args → (view k L).running = some r →
      ¬ LeavesWaiting (view k L) r := by
  rintro args r rfl hr ⟨w, hno, x, hw, hx⟩
  have hs := hc.tidy.strung
  refine hguard ⟨rfl, r, w, hr, hno, x, hw, ?_⟩
  simp only [childOf_iff hs]
  exact hx

/-- No wake-up is lost in a run in which no exit leaves a process waiting for a zombie. -/
theorem no_lost_wakeup {mem : Int → UInt8} {k₀ k : Kernel} {as : List Action}
    (hstart : Started mem k₀)
    (hrun : Run act (fun k a => Ordinary a ∧ ¬ LosesWakeup k a) k₀ as k) : NoLostWakeup k := by
  have hboot : ∀ mem k, Booted mem k → Heard (view k noNodes) := by
    intro mem k hb
    rw [booted_view hb]
    refine ⟨fun p c hm => (nomatch hm), fun p hm => (nomatch hm), ⟨by decide, by decide⟩,
      fun p hp => ?_⟩
    have hp : p = 0 := hp
    rw [hp]
    decide
  obtain ⟨L, hc, h⟩ := run_table (fun _ _ ha => ha.1) hboot
    (fun k L a s' hc h hguard hstep _ => heard_step h hc.sound hstep
      (leaves_of_loses hc hguard.2)) hstart hrun
  exact noLostWakeup_of_heard hc h

/-- The process that exits reports to the only one that is blocked. -/
def ReportsToAll (k : Kernel) (num : Int) : Bool :=
  num ≠ DSOS_CALL_EXIT ∨ ∃ r ∈ k.running, ∃ i ∈ (k.pcb r).parent, Awaits k i r ∧
    (k.head .waitingList).first = some ⟨.pcb, i⟩ ∧ (k.head .waitingList).size = 1

theorem not_loses_of_reports (hc : Coherent k L) (h : ReportsToAll k num = true) :
    ¬ LosesWakeup k (.syscall num args) := by
  rintro ⟨he, r, w, hr, hno, x, hw, _⟩
  have hs := hc.tidy.strung
  rcases of_decide_eq_true h with hne | ⟨r', hr', i, hi, htold, hfirst, hsize⟩
  · exact hne he
  · obtain rfl : r = r' := Option.some.inj (hr.symm.trans hr')
    rw [hs.first_eq (l := .waitingList) regular_pcb] at hfirst
    rw [hs.size_eq (l := .waitingList) regular_pcb] at hsize
    have hmem : w ∈ (view k L).waiting := hc.sound.marked.waits w hw.1
    have hmem := (mem_map_idx hs (l := .waitingList) regular_pcb).mp hmem
    obtain ⟨y, hy⟩ := List.length_eq_one_iff.mp (show (L .waitingList).length = 1 by omega)
    rw [hy, List.head?_cons, Option.some.injEq] at hfirst
    rw [hy, List.mem_singleton, hfirst] at hmem
    cases hmem
    exact hno ⟨hi, htold⟩

/-- A child exits while init waits, and init waits for the second child. -/
theorem no_lost_wakeup_two_children :
    ∃ k₀ k, Started (fun _ => 0) k₀ ∧ Run act (fun k a => Ordinary a ∧ ¬ LosesWakeup k a) k₀
      [.syscall DSOS_CALL_SPAWN [0, 0], .syscall DSOS_CALL_SPAWN [0, 0],
        .syscall DSOS_CALL_WAIT [0, 0], .syscall DSOS_CALL_EXIT [7],
        .syscall DSOS_CALL_WAIT [0, 0]] k ∧
      k.running = some 2 ∧ (k.head .waitingList).size = 1 ∧ NoLostWakeup k := by
  obtain ⟨k₀, k, hstart, hrun, htest⟩ := exists_run_from_start
    (fun k a => ∃ num args, a = .syscall num args ∧ ReportsToAll k num = true)
    (onCalls fun k num _ => ReportsToAll k num)
    [.syscall DSOS_CALL_SPAWN [0, 0], .syscall DSOS_CALL_SPAWN [0, 0],
      .syscall DSOS_CALL_WAIT [0, 0], .syscall DSOS_CALL_EXIT [7], .syscall DSOS_CALL_WAIT [0, 0]]
    (fun k => k.running = some 2 ∧ (k.head .waitingList).size = 1)
    (fun _ _ h => onCalls_eq_true h) (by decide +kernel)
  obtain ⟨hr, hsize⟩ := of_decide_eq_true htest
  have hrun : Run act (fun k a => Ordinary a ∧ ¬ LosesWakeup k a) k₀ _ k := run_reguard (by
    rintro _ _ ⟨_, _, rfl, _⟩
    exact trivial) (by
    rintro _ _ _ hc ⟨_, _, rfl, h⟩
    exact ⟨trivial, not_loses_of_reports hc h⟩) hstart hrun
  exact ⟨k₀, k, hstart, hrun, hr, hsize, no_lost_wakeup hstart hrun⟩

/-- A grandchild handed to init exits later. Init waits for any child and is not told. -/
theorem orphan_exit_is_not_told :
    ∃ k₀ k, Started (fun _ => 0) k₀ ∧
      Run act (fun _ a => Ordinary a) k₀
        [.syscall DSOS_CALL_SPAWN [0, 0], .syscall DSOS_CALL_WAIT [0, 0],
          .syscall DSOS_CALL_SPAWN [0, 0], .syscall DSOS_CALL_SPAWN [0, 0],
          .syscall DSOS_CALL_EXIT [7], .syscall DSOS_CALL_WAIT [0, 0],
          .syscall DSOS_CALL_EXIT [7]] k ∧ ¬ NoLostWakeup k := by
  obtain ⟨k₀, k, hstart, hrun, htest⟩ := exists_run_from_start (fun _ a => Ordinary a)
    (fun _ a => decide (Ordinary a))
    [.syscall DSOS_CALL_SPAWN [0, 0], .syscall DSOS_CALL_WAIT [0, 0],
      .syscall DSOS_CALL_SPAWN [0, 0], .syscall DSOS_CALL_SPAWN [0, 0],
      .syscall DSOS_CALL_EXIT [7], .syscall DSOS_CALL_WAIT [0, 0], .syscall DSOS_CALL_EXIT [7]]
    (fun k => (k.head .waitingList).first = some ⟨.pcb, 0⟩ ∧
      (k.pcb 0).syscallNum = DSOS_CALL_WAIT ∧ (k.pcb 0).syscallArgs 0 = 0 ∧
      (k.head (.children 0)).first = some ⟨.pcbPtr, 1⟩ ∧ k.pcbPtr 1 = some 2 ∧
      (k.pcb 2).status = .Zombie)
    (fun _ _ h => of_decide_eq_true h) (by decide +kernel)
  obtain ⟨hwait, hnum, harg, hchild, hptr, hz⟩ := of_decide_eq_true htest
  refine ⟨k₀, k, hstart, hrun, fun h => ?_⟩
  exact h.any 0 2 ⟨linked_first hwait, hnum, harg⟩ ⟨_, linked_first hchild, hptr⟩ hz

end DisastrOS.Process.Wakeups
