import DisastrOS.Machine.System
import DisastrOS.Process.Table

/-!
# The moves of processes

What every action of the system does to the process table, and that it keeps the
table consistent.
-/
namespace DisastrOS.Machine

/-- The registers of a process that makes a system call. -/
def PCB.called (q : PCB) (num : Int) (args : List Int) : PCB :=
  { q with
    syscallArgs := fun i =>
      if i < Kernel.syscallNumarg num then args.getD i 0 else q.syscallArgs i
    syscallNum := num }

end DisastrOS.Machine

namespace DisastrOS.Process.Steps

open DisastrOS.Machine
open DisastrOS.Process.Table

/-- Elapsed timers wake their processes one after the other, until the first timer has not
elapsed. -/
inductive Wakes : ProcessTable → ProcessTable → Prop
  | done {s : ProcessTable} (hdue : ∀ timer, s.timers.head? = some timer →
      s.time < timer.awakeningTime) : Wakes s s
  | wake {s u : ProcessTable} {timer : TimerItem} {rest : List TimerItem} {p : Nat}
      {as bs : List Nat} (htimers : s.timers = timer :: rest) (hpcb : timer.pcb = some p)
      (htime : timer.awakeningTime ≤ s.time) (hready : s.ready = as ++ bs)
      (h : Wakes (s.ring p as bs) u) : Wakes s u

/-- Timers ring, then the running process makes room for the first ready one. -/
inductive Schedules : ProcessTable → ProcessTable → Prop
  | alone {s u : ProcessTable} (h : Wakes s u) (hready : u.ready = []) : Schedules s u
  | rotate {s u : ProcessTable} {r n : Nat} {rest : List Nat} (h : Wakes s u)
      (hr : u.running = some r) (hready : u.ready = n :: rest) : Schedules s (u.rotate r n)

/-- The child at which a process that waits for `pid` stops: the awaited one, else the
last one. -/
def awaited (s : ProcessTable) (pid : Int) : List (Option Nat) → Option Nat → Option Nat
  | [], last => last
  | none :: cs, last => awaited s pid cs last
  | some c :: cs, _ =>
    if pid = 0 ∧ (s.info c).status = .Zombie then some c
    else if pid ≠ 0 ∧ (s.info c).pid = pid then some c
    else awaited s pid cs (some c)

/-- `parent` waits for the process `r`. -/
def WaitsFor (s : ProcessTable) (parent r : Nat) : Prop :=
  (s.info parent).status = .Waiting ∧ (s.info parent).syscallNum = DSOS_CALL_WAIT ∧
    ((s.info parent).syscallArgs 0 = 0 ∨ (s.info parent).syscallArgs 0 = (s.info r).pid)

/-- The calls that cannot return with every process where it was. -/
def movingCalls : List Int :=
  [DSOS_CALL_PREEMPT, DSOS_CALL_FORK, DSOS_CALL_EXIT, DSOS_CALL_SPAWN, DSOS_CALL_SLEEP,
    DSOS_CALL_SHUTDOWN]

/-- What the handler of a call can do to the processes, with the registers filled in. The
table does not know the counts of the semaphores, so a call on one is quiet or not. -/
inductive Handled (s : ProcessTable) (r : Nat) : Int → ProcessTable → Prop
  | quiet {num : Int} (hnum : num ∉ movingCalls)
      (hwait : num = DSOS_CALL_WAIT → s.children r = []) : Handled s r num s
  | preempt {s' : ProcessTable} (h : Schedules s s') : Handled s r DSOS_CALL_PREEMPT s'
  | spawn {num : Int} {p : Nat} {q : PCB} (hnum : num = DSOS_CALL_SPAWN ∨ num = DSOS_CALL_FORK)
      (hp : ¬ s.live p) (hpid : q.pid = s.lastPid) (hfits : s.lastPid + 1 < 2 ^ 31)
      (hst : q.status = .Ready) (hparent : q.parent = some r)
      (hcontext : num = DSOS_CALL_SPAWN → q.cpuState = true) : Handled s r num (s.spawn r p q)
  | sleep {w : Int} {as bs : List TimerItem}
      (hw : addInt s.time (toInt ((s.info r).syscallArgs 0)) = .ok w)
      (htimers : s.timers = as ++ bs)
      (has : ∀ a ∈ as, a.awakeningTime ≤ w) (hbs : ∀ b ∈ bs, w < b.awakeningTime) :
      Handled s r DSOS_CALL_SLEEP (s.sleep r w as bs)
  | waitBlock {c : Nat} (hc : some c ∈ s.children r)
      (hawaited : awaited s (toInt ((s.info r).syscallArgs 0)) (s.children r) none = some c)
      (hz : (s.info c).status ≠ .Zombie) (hready : s.ready ≠ []) :
      Handled s r DSOS_CALL_WAIT (s.waitForChild r)
  | waitCollect {c : Nat} (hc : some c ∈ s.children r)
      (hawaited : awaited s (toInt ((s.info r).syscallArgs 0)) (s.children r) none = some c)
      (hz : (s.info c).status = .Zombie) :
      Handled s r DSOS_CALL_WAIT ((s.unlinkChild r c).forget c)
  | exitNext {i parent n : Nat} {rest : List Nat} (hi : s.init = some i)
      (hparent : (s.info r).parent = some parent)
      (hno : ¬ WaitsFor ((s.adopt r i).die r parent) parent r)
      (hready : s.ready = n :: rest) :
      Handled s r DSOS_CALL_EXIT (((s.adopt r i).die r parent).runNext.setStatus n .Running)
  | exitReport {i parent : Nat} (hi : s.init = some i)
      (hparent : (s.info r).parent = some parent)
      (hwaits : WaitsFor ((s.adopt r i).die r parent) parent r)
      (hc : some r ∈ ((s.adopt r i).die r parent).children parent) :
      Handled s r DSOS_CALL_EXIT
        (((((s.adopt r i).die r parent).resume parent).unlinkChild parent r).forget r)
  | semBlock (sem : Nat) (hready : s.ready ≠ []) :
      Handled s r DSOS_CALL_SEMWAIT (s.waitForPost r sem)
  | semWake {p sem : Nat} {rest : List (Option Nat)} (hs : s.waiters sem = some p :: rest) :
      Handled s r DSOS_CALL_SEMPOST (s.post p sem)

/-- A call that has nothing to do with processes. -/
theorem Handled.still {s : ProcessTable} {r : Nat} {num : Int}
    (hnum : num ∉ DSOS_CALL_WAIT :: movingCalls) : Handled s r num s :=
  .quiet (fun hm => hnum (List.mem_cons_of_mem _ hm))
    fun he => absurd (he ▸ List.mem_cons_self) hnum

/-- The process that runs when `r` has been interrupted has a context to go on with. -/
def Resumable (r : Nat) (s : ProcessTable) : Prop :=
  ∀ p, s.running = some p → p = r ∨ (s.info p).cpuState = true

/-- What an action of the system does to the processes. -/
inductive Step (s : ProcessTable) : Kernel.Action → ProcessTable → Prop
  | refused {r : Nat} {num : Int} (args : List Int) (hr : s.running = some r)
      (hnum : num < 0 ∨ DSOS_MAX_SYSCALLS < num) : Step s (.syscall num args) s
  | call {r : Nat} {num : Int} {args : List Int} {s' : ProcessTable} (hr : s.running = some r)
      (h : Handled (s.modify r fun q => q.called num args) r num s') (hnext : Resumable r s') :
      Step s (.syscall num args) s'
  | tick {r : Nat} {s' : ProcessTable} (hr : s.running = some r)
      (h : Schedules { s with time := s.time + 1 } s') (hnext : Resumable r s') :
      Step s .timer s'
  | restart {p : Nat} {q : PCB} (hr : s.running = none) (hp : ¬ s.live p)
      (hpid : q.pid = s.lastPid) (hfits : s.lastPid + 1 < 2 ^ 31) (hst : q.status = .Running)
      (hparent : q.parent = none) (hcontext : q.cpuState = true) : Step s .restart (s.restart p q)
  | store (addr : Int) (v : UInt8) : Step s (.store addr v) s

variable {s s' u : ProcessTable} {r : Nat} {num : Int} {args : List Int} {a : Kernel.Action}

/-! ## What scheduling leaves alone -/

/-- Only statuses, timers, the processor and two of the process lists have changed. -/
structure Rescheduled (s s' : ProcessTable) : Prop where
  info : ∀ p, s'.info p =
    { s.info p with status := (s'.info p).status, timer := (s'.info p).timer }
  status : ∀ p, (s'.info p).status = (s.info p).status ∨ (s'.info p).status = .Ready ∨
    (s'.info p).status = .Running
  rest : s' = { s with
    info := s'.info, running := s'.running, ready := s'.ready, waiting := s'.waiting
    timers := s'.timers }

theorem Rescheduled.refl (s : ProcessTable) : Rescheduled s s :=
  ⟨fun _ => rfl, fun _ => .inl rfl, rfl⟩

theorem Rescheduled.trans (h : Rescheduled s s') (h' : Rescheduled s' u) : Rescheduled s u := by
  refine ⟨fun p => ?_, fun p => ?_, ?_⟩
  · rw [h'.info p, h.info p]
  · rcases h'.status p with he | he
    · rw [he]
      exact h.status p
    · exact .inr he
  · rw [h'.rest, h.rest]

theorem rescheduled_setStatus (p : Nat) {st : ProcessStatus} (hst : st = .Ready ∨ st = .Running) :
    Rescheduled s (s.setStatus p st) := by
  refine ⟨fun q => ?_, fun q => ?_, rfl⟩
  · show Function.update s.info p { s.info p with status := st } q = _
    simp only [ProcessTable.setStatus, ProcessTable.modify, Function.update_apply]
    split
    · next he => rw [he]
    · rfl
  · rw [status_setStatus]
    split
    · exact .inr hst
    · exact .inl rfl

theorem wakes_rescheduled (h : Wakes s u) : Rescheduled s u := by
  induction h with
  | done => exact .refl _
  | @wake s u _ _ p as bs _ _ _ _ _ ih =>
    refine Rescheduled.trans ⟨fun q => ?_, fun q => ?_, rfl⟩ ih
    · rw [ring_info]
      split
      · next he => rw [he]
      · rfl
    · rw [ring_info]
      split
      · exact .inr (.inl rfl)
      · exact .inl rfl

theorem schedules_rescheduled (h : Schedules s s') : Rescheduled s s' := by
  cases h with
  | alone h _ => exact wakes_rescheduled h
  | @rotate u r n _ h _ _ =>
    have hr := ((wakes_rescheduled h).trans (rescheduled_setStatus r (.inl rfl))).trans
      (rescheduled_setStatus n (.inr rfl))
    exact hr.trans ⟨fun _ => rfl, fun _ => .inl rfl, rfl⟩

/-! ## Consistency is kept -/

theorem wakes_sound (h : Wakes s u) (hs : Sound s) : Sound u := by
  induction h with
  | done => exact hs
  | wake htimers hpcb _ hready _ ih => exact ih (sound_ring hs htimers hpcb hready)

theorem schedules_sound (h : Schedules s s') (hs : Sound s) : Sound s' := by
  cases h with
  | alone h _ => exact wakes_sound h hs
  | rotate h hr hready => exact sound_rotate (wakes_sound h hs) hr hready

/-- The process that exits has a parent, so it is not init. -/
theorem init_ne_of_parent {parent i : Nat} (hs : Sound s) (hi : s.init = some i)
    (hparent : (s.info r).parent = some parent) : r ≠ i := by
  rintro rfl
  obtain ⟨j, hj, _, hjp⟩ := hs.family.init
  rw [hi, Option.some.injEq] at hj
  subst hj
  rw [hparent] at hjp
  cases hjp

theorem exit_sound {parent i : Nat} (hs : Sound s) (hr : s.running = some r)
    (hi : s.init = some i) (hparent : (s.info r).parent = some parent) :
    Sound ((s.adopt r i).die r parent) := by
  have hri := init_ne_of_parent hs hi hparent
  refine sound_die (sound_adopt hs hi hri) hr ?_ ?_
  · rw [adopt_parent, hparent]
    exact Option.some_ne_none parent
  · show Function.update (Function.update s.children r []) i _ r = []
    rw [Function.update_of_ne hri, Function.update_self]

theorem handled_sound (h : Handled s r num s') (hs : Sound s) (hr : s.running = some r)
    (hnum : (s.info r).syscallNum = num) : Sound s' := by
  cases h with
  | quiet => exact hs
  | preempt h => exact schedules_sound h hs
  | spawn _ hp hpid _ hst hparent _ => exact sound_spawn hs hr hp hpid hst hparent
  | sleep _ htimers has hbs => exact sound_sleep hs hr hnum htimers has hbs
  | waitBlock => exact sound_waitForChild hs hr hnum
  | @waitCollect c hc _ hz =>
    obtain ⟨c', he, hl, _⟩ := hs.family.child r _ hc
    cases he
    exact sound_forget hs ((hs.marked.dead c).mpr ⟨hl, hz⟩) hc
  | exitNext hi hparent _ hready => exact sound_runNext (exit_sound hs hr hi hparent) rfl hready
  | @exitReport i parent hi hparent hwaits hc =>
    have hd := exit_sound hs hr hi hparent
    have hsound := sound_resume hd rfl (hd.marked.waits parent hwaits.1) hwaits.2.1
    exact sound_forget hsound (by simp [ProcessTable.resume, ProcessTable.setStatus,
      ProcessTable.modify, ProcessTable.die]) hc
  | semBlock sem => exact sound_waitForPost hs hr hnum
  | semWake h => exact sound_post hs h

theorem called_sound (hs : Sound s) (hr : s.running = some r) :
    Sound (s.modify r fun q => q.called num args) :=
  sound_registers hs (registers_modify (p := r) (f := fun q => q.called num args) rfl rfl rfl
    fun hw => absurd hw (hs.placed.not_mem_of_running hr).2.1)

/-- Time passes. -/
theorem sound_time (hs : Sound s) (time : Int) : Sound { s with time := time } :=
  ⟨⟨hs.placed.nodup, hs.placed.mem⟩, ⟨hs.marked.dead, hs.marked.waits, hs.marked.blocked⟩,
    ⟨hs.timed.asleep, hs.timed.nodup, hs.timed.sorted⟩,
    ⟨hs.awaiting.blocked, hs.awaiting.nodup, hs.awaiting.apart⟩,
    family_congr hs.family rfl rfl rfl (fun _ => Iff.rfl) (fun _ hz => hz) (fun _ => rfl)
      fun _ => rfl⟩

/-- Every action keeps the process table consistent. -/
theorem step_sound (h : Step s a s') (hs : Sound s) : Sound s' := by
  cases h with
  | refused => exact hs
  | call hr h _ =>
    refine handled_sound h (called_sound hs hr) hr ?_
    simp [ProcessTable.modify, PCB.called]
  | tick hr h _ => exact schedules_sound h (sound_time hs _)
  | restart hr hp hpid _ hst hparent _ => exact sound_restart hs hr hp hpid hst hparent
  | store => exact hs

end DisastrOS.Process.Steps
