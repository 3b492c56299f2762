import Mathlib.Data.List.Nodup
import Mathlib.Data.List.Perm.Basic
import DisastrOS.Machine.State

/-!
# The process table

What process control is about, without links and blocks: who runs, who is in which
list, whose children are whose, which timers and semaphores have whom to wake.
`Sound` says how these agree.
-/
namespace DisastrOS.Machine

/-- A process with the signals `sig` pending unless they are masked. -/
def PCB.signalled (q : PCB) (sig : BitVec 32) : PCB :=
  { q with signals := q.signals ||| (sig &&& q.signalsMask) }

end DisastrOS.Machine

namespace DisastrOS.Process.Table

open DisastrOS.Machine

/-- The processes of the system. The lists hold process indices; children and waiters
come from pointers that could be NULL. -/
structure ProcessTable where
  live : Nat → Prop
  info : Nat → PCB
  running : Option Nat
  ready : List Nat
  waiting : List Nat
  zombie : List Nat
  timers : List TimerItem
  children : Nat → List (Option Nat)
  /-- the processes that wait for a semaphore -/
  waiters : Nat → List (Option Nat)
  init : Option Nat
  lastPid : Int
  time : Int

namespace ProcessTable

/-- Every occurrence of a process in one of the four places. -/
def places (s : ProcessTable) : List Nat := s.running.toList ++ s.ready ++ s.waiting ++ s.zombie

def modify (s : ProcessTable) (p : Nat) (f : PCB → PCB) : ProcessTable :=
  { s with info := Function.update s.info p (f (s.info p)) }

def setStatus (s : ProcessTable) (p : Nat) (st : ProcessStatus) : ProcessTable :=
  s.modify p fun q => { q with status := st }

/-- The running process goes to the end of the waiting list. -/
def park (s : ProcessTable) (r : Nat) : ProcessTable :=
  { s with waiting := s.waiting ++ [r], running := none }

/-- The first ready process runs. -/
def runNext (s : ProcessTable) : ProcessTable :=
  { s with running := s.ready.head?, ready := s.ready.tail }

/-- The first timer wakes `p`, which goes between `as` and `bs` in the ready list. -/
def ring (s : ProcessTable) (p : Nat) (as bs : List Nat) : ProcessTable :=
  { s.modify p fun q => { q with status := .Ready, timer := none } with
    timers := s.timers.tail
    waiting := s.waiting.erase p
    ready := as ++ p :: bs }

/-- The running process `r` changes places with the first ready process. -/
def rotate (s : ProcessTable) (r n : Nat) : ProcessTable :=
  { (s.setStatus r .Ready).setStatus n .Running with
    running := some n
    ready := s.ready.tail ++ [r] }

/-- `r` sets a timer between `as` and `bs` and waits for it. -/
def sleep (s : ProcessTable) (r : Nat) (wakeTime : Int) (as bs : List TimerItem) : ProcessTable :=
  { ((s.setStatus r .Waiting).park r).runNext with
    timers := as ++ ⟨wakeTime, some r⟩ :: bs }

/-- `r` waits for a child. -/
def waitForChild (s : ProcessTable) (r : Nat) : ProcessTable :=
  ((s.setStatus r .Waiting).park r).runNext

/-- `r` waits for the semaphore `sem`. Its status stays as it is. -/
def waitForPost (s : ProcessTable) (r sem : Nat) : ProcessTable :=
  { (s.park r).runNext with
    waiters := Function.update s.waiters sem (s.waiters sem ++ [some r]) }

/-- A post on `sem` wakes `p`. -/
def post (s : ProcessTable) (p sem : Nat) : ProcessTable :=
  { s with
    waiters := Function.update s.waiters sem (s.waiters sem).tail
    waiting := s.waiting.erase p
    ready := s.ready ++ [p] }

/-- The running process `r` creates `p`. -/
def spawn (s : ProcessTable) (r p : Nat) (q : PCB) : ProcessTable :=
  { s with
    live := fun i => i = p ∨ s.live i
    info := Function.update s.info p q
    ready := s.ready ++ [p]
    children := Function.update (Function.update s.children p []) r (s.children r ++ [some p])
    lastPid := s.lastPid + 1 }

/-- With nobody running, the system goes on with the new first process `p`. -/
def restart (s : ProcessTable) (p : Nat) (q : PCB) : ProcessTable :=
  { s with
    live := fun i => i = p ∨ s.live i
    info := Function.update s.info p q
    running := some p
    children := Function.update s.children p []
    init := some p
    lastPid := s.lastPid + 1 }

/-- The children of `r` go to `i` and get SIGHUP. -/
def adopt (s : ProcessTable) (r i : Nat) : ProcessTable :=
  { s with
    children := Function.update (Function.update s.children r []) i (s.children i ++ s.children r)
    info := fun p => if some p ∈ s.children r then (s.info p).signalled DSOS_SIGHUP else s.info p }

/-- The running process `r` is a zombie and its parent gets SIGCHLD. -/
def die (s : ProcessTable) (r parent : Nat) : ProcessTable :=
  { (s.setStatus r .Zombie).modify parent fun q => q.signalled DSOS_SIGCHLD with
    zombie := s.zombie ++ [r]
    running := none }

/-- Nothing is left of the zombie `p` in the table. -/
def forget (s : ProcessTable) (p : Nat) : ProcessTable :=
  { s with
    live := fun i => i ≠ p ∧ s.live i
    zombie := s.zombie.erase p }

/-- `parent` is no longer linked to its child `p`. -/
def unlinkChild (s : ProcessTable) (parent p : Nat) : ProcessTable :=
  { s with children := Function.update s.children parent ((s.children parent).erase (some p)) }

/-- The waiting process `p` runs. -/
def resume (s : ProcessTable) (p : Nat) : ProcessTable :=
  { s.setStatus p .Running with
    waiting := s.waiting.erase p
    running := some p }

end ProcessTable

/-! ## Consistent tables -/

/-- Every live process is in exactly one place. -/
structure Placed (s : ProcessTable) : Prop where
  nodup : s.places.Nodup
  mem : ∀ p, p ∈ s.places ↔ s.live p

/-- What the status of a process says about its place. A process that waits for a
semaphore is not marked as waiting. -/
structure Marked (s : ProcessTable) : Prop where
  dead : ∀ p, p ∈ s.zombie ↔ s.live p ∧ (s.info p).status = .Zombie
  waits : ∀ p, (s.info p).status = .Waiting → p ∈ s.waiting
  blocked : ∀ p ∈ s.waiting,
    ((s.info p).syscallNum = DSOS_CALL_SEMWAIT ∧ (s.info p).status ≠ .Waiting) ∨
    (((s.info p).syscallNum = DSOS_CALL_WAIT ∨ (s.info p).syscallNum = DSOS_CALL_SLEEP) ∧
      (s.info p).status = .Waiting)

/-- Each timer belongs to another sleeping process. -/
structure Timed (s : ProcessTable) : Prop where
  asleep : ∀ i ∈ s.timers, ∃ p ∈ s.waiting, i.pcb = some p ∧
    (s.info p).syscallNum = DSOS_CALL_SLEEP
  nodup : (s.timers.map TimerItem.pcb).Nodup
  sorted : s.timers.Pairwise fun a b => a.awakeningTime ≤ b.awakeningTime

/-- Each waiter of a semaphore is a process that waits for it only. -/
structure Awaiting (s : ProcessTable) : Prop where
  blocked : ∀ sem, ∀ o ∈ s.waiters sem, ∃ p ∈ s.waiting, o = some p ∧
    (s.info p).syscallNum = DSOS_CALL_SEMWAIT
  nodup : ∀ sem, (s.waiters sem).Nodup
  apart : ∀ sem sem' o, o ∈ s.waiters sem → o ∈ s.waiters sem' → sem = sem'

/-- Each process that was created by another one is listed as a child once. The first
processes have no parent, do not end, and only their children may have another process
as their stored parent. -/
structure Family (s : ProcessTable) : Prop where
  child : ∀ q, ∀ o ∈ s.children q, ∃ p, o = some p ∧ s.live p ∧ (s.info p).parent ≠ none ∧
    s.live q ∧ q ∉ s.zombie
  nodup : ∀ q, (s.children q).Nodup
  apart : ∀ q q' o, o ∈ s.children q → o ∈ s.children q' → q = q'
  parent : ∀ q p, some p ∈ s.children q →
    (s.info p).parent = some q ∨ (s.info q).parent = none
  listed : ∀ p, s.live p → (s.info p).parent = none ∨ ∃ q, some p ∈ s.children q
  first : ∀ p, s.live p → (s.info p).parent = none → p ∉ s.zombie
  init : ∃ i, s.init = some i ∧ s.live i ∧ (s.info i).parent = none
  pid_inj : ∀ p q, s.live p → s.live q → (s.info p).pid = (s.info q).pid → p = q
  pid_lt : ∀ p, s.live p → (s.info p).pid < s.lastPid

/-- The table is consistent. -/
structure Sound (s : ProcessTable) : Prop where
  placed : Placed s
  marked : Marked s
  timed : Timed s
  awaiting : Awaiting s
  family : Family s

variable {s s' : ProcessTable} {p q r n i parent sem : Nat}

/-! ## Places -/

theorem placed_of_perm (h : Placed s) (hp : s'.places.Perm s.places)
    (hlive : ∀ p, s'.live p ↔ s.live p) : Placed s' := by
  refine ⟨hp.nodup_iff.mpr h.nodup, fun p => ?_⟩
  rw [hp.mem_iff, h.mem, hlive]

theorem count_places (p : Nat) : s.places.count p =
    s.running.toList.count p + s.ready.count p + s.waiting.count p + s.zombie.count p := by
  simp only [ProcessTable.places, List.count_append]

/-- The number of places of a process. -/
theorem Placed.count_le (h : Placed s) (p : Nat) : s.running.toList.count p + s.ready.count p +
    s.waiting.count p + s.zombie.count p ≤ 1 := by
  rw [← count_places]
  exact List.nodup_iff_count_le_one.mp h.nodup p

theorem count_runNext (p : Nat) :
    s.ready.head?.toList.count p + s.ready.tail.count p = s.ready.count p := by
  cases s.ready with
  | nil => rfl
  | cons n rest => simp [List.count_cons, Nat.add_comm]

theorem Placed.not_mem_of_waiting (h : Placed s) (hp : p ∈ s.waiting) :
    s.running ≠ some p ∧ p ∉ s.ready ∧ p ∉ s.zombie := by
  have hc := h.count_le p
  have hw : 0 < s.waiting.count p := List.count_pos_iff.mpr hp
  refine ⟨fun he => ?_, fun hr => ?_, fun hz => ?_⟩
  · rw [he, Option.toList_some, List.count_singleton_self] at hc
    omega
  · have := List.count_pos_iff.mpr hr
    omega
  · have := List.count_pos_iff.mpr hz
    omega

theorem Placed.not_mem_of_running (h : Placed s) (hr : s.running = some r) :
    r ∉ s.ready ∧ r ∉ s.waiting ∧ r ∉ s.zombie := by
  have hc := h.count_le r
  rw [hr, Option.toList_some, List.count_singleton_self] at hc
  refine ⟨fun hm => ?_, fun hm => ?_, fun hm => ?_⟩ <;>
  · have := List.count_pos_iff.mpr hm
    omega

theorem Placed.nodup_zombie (h : Placed s) : s.zombie.Nodup :=
  (List.nodup_append.mp h.nodup).2.1

theorem Placed.nodup_waiting (h : Placed s) : s.waiting.Nodup :=
  (List.nodup_append.mp (List.nodup_append.mp h.nodup).1).2.1

theorem Placed.nodup_ready (h : Placed s) : s.ready.Nodup :=
  (List.nodup_append.mp (List.nodup_append.mp (List.nodup_append.mp h.nodup).1).1).2.1

theorem Placed.live_of_running (h : Placed s) (hr : s.running = some r) : s.live r := by
  rw [← h.mem]
  simp [ProcessTable.places, hr]

theorem Placed.live_of_waiting (h : Placed s) (hp : p ∈ s.waiting) : s.live p := by
  rw [← h.mem]
  simp [ProcessTable.places, hp]

theorem Placed.live_of_ready (h : Placed s) (hp : p ∈ s.ready) : s.live p := by
  rw [← h.mem]
  simp [ProcessTable.places, hp]

/-! ## What the parts of a consistent table depend on -/

theorem marked_congr (h : Marked s) (hz : s'.zombie = s.zombie) (hw : s'.waiting = s.waiting)
    (hlive : ∀ p, s'.live p ↔ s.live p) (hst : ∀ p, (s'.info p).status = (s.info p).status)
    (hnum : ∀ p ∈ s.waiting, (s'.info p).syscallNum = (s.info p).syscallNum) : Marked s' := by
  refine ⟨fun p => ?_, fun p hp => ?_, fun p hp => ?_⟩
  · rw [hz, h.dead, hlive, hst]
  · rw [hw]
    exact h.waits p (hst p ▸ hp)
  · rw [hw] at hp
    rw [hst, hnum p hp]
    exact h.blocked p hp

theorem timed_congr (h : Timed s) (ht : s'.timers = s.timers)
    (hk : ∀ p ∈ s.waiting, (s.info p).syscallNum = DSOS_CALL_SLEEP →
      p ∈ s'.waiting ∧ (s'.info p).syscallNum = DSOS_CALL_SLEEP) : Timed s' := by
  refine ⟨fun i hi => ?_, ht ▸ h.nodup, ht ▸ h.sorted⟩
  obtain ⟨p, hp, hpcb, hnum⟩ := h.asleep i (ht ▸ hi)
  obtain ⟨hp', hnum'⟩ := hk p hp hnum
  exact ⟨p, hp', hpcb, hnum'⟩

theorem awaiting_congr (h : Awaiting s) (hw : s'.waiters = s.waiters)
    (hk : ∀ p ∈ s.waiting, (s.info p).syscallNum = DSOS_CALL_SEMWAIT →
      p ∈ s'.waiting ∧ (s'.info p).syscallNum = DSOS_CALL_SEMWAIT) : Awaiting s' := by
  refine ⟨fun sem o ho => ?_, hw ▸ h.nodup, hw ▸ h.apart⟩
  obtain ⟨p, hp, he, hnum⟩ := h.blocked sem o (hw ▸ ho)
  obtain ⟨hp', hnum'⟩ := hk p hp hnum
  exact ⟨p, hp', he, hnum'⟩

theorem family_congr (h : Family s) (hc : s'.children = s.children) (hi : s'.init = s.init)
    (hlast : s'.lastPid = s.lastPid) (hlive : ∀ p, s'.live p ↔ s.live p)
    (hz : ∀ p, p ∈ s'.zombie → p ∈ s.zombie) (hpid : ∀ p, (s'.info p).pid = (s.info p).pid)
    (hparent : ∀ p, (s'.info p).parent = (s.info p).parent) : Family s' := by
  refine ⟨fun q o ho => ?_, hc ▸ h.nodup, hc ▸ h.apart, fun q p hp => ?_, fun p hp => ?_,
    fun p hp hn => ?_, ?_, fun p q hp hq he => ?_, fun p hp => ?_⟩
  · obtain ⟨p, he, hp, hne, hq, hnz⟩ := h.child q o (hc ▸ ho)
    exact ⟨p, he, (hlive p).mpr hp, hparent p ▸ hne, (hlive q).mpr hq, fun hm => hnz (hz q hm)⟩
  · rw [hparent, hparent]
    exact h.parent q p (hc ▸ hp)
  · rw [hparent, hc]
    exact h.listed p ((hlive p).mp hp)
  · intro hm
    exact h.first p ((hlive p).mp hp) (hparent p ▸ hn) (hz p hm)
  · obtain ⟨j, hj, hlj, hpj⟩ := h.init
    exact ⟨j, hi.trans hj, (hlive j).mpr hlj, (hparent j).trans hpj⟩
  · rw [hpid, hpid] at he
    exact h.pid_inj p q ((hlive p).mp hp) ((hlive q).mp hq) he
  · rw [hpid, hlast]
    exact h.pid_lt p ((hlive p).mp hp)

/-- A change of registers, signals and counters of processes. Only a process that does
not wait may change its call. -/
structure Registers (s : ProcessTable) (info : Nat → PCB) : Prop where
  pid : ∀ p, (info p).pid = (s.info p).pid
  status : ∀ p, (info p).status = (s.info p).status
  parent : ∀ p, (info p).parent = (s.info p).parent
  call : ∀ p ∈ s.waiting, (info p).syscallNum = (s.info p).syscallNum

theorem sound_registers {info : Nat → PCB} (h : Sound s) (hr : Registers s info) :
    Sound { s with info := info } := by
  refine ⟨⟨h.placed.nodup, h.placed.mem⟩, marked_congr h.marked rfl rfl (fun _ => Iff.rfl)
    hr.status hr.call, timed_congr h.timed rfl fun p hp hn => ⟨hp, (hr.call p hp).trans hn⟩,
    awaiting_congr h.awaiting rfl fun p hp hn => ⟨hp, (hr.call p hp).trans hn⟩,
    family_congr h.family rfl rfl rfl (fun _ => Iff.rfl) (fun _ hp => hp) hr.pid hr.parent⟩

/-- A change of the registers of one process. -/
theorem registers_modify {f : PCB → PCB} (hpid : (f (s.info p)).pid = (s.info p).pid)
    (hst : (f (s.info p)).status = (s.info p).status)
    (hparent : (f (s.info p)).parent = (s.info p).parent)
    (hcall : p ∈ s.waiting → (f (s.info p)).syscallNum = (s.info p).syscallNum) :
    Registers s (s.modify p f).info := by
  have hat : ∀ q, (s.modify p f).info q = if q = p then f (s.info p) else s.info q := fun q =>
    Function.update_apply _ _ _ _
  refine ⟨fun q => ?_, fun q => ?_, fun q => ?_, fun q hq => ?_⟩ <;> rw [hat] <;> split
  · next he => rw [he, hpid]
  · rfl
  · next he => rw [he, hst]
  · rfl
  · next he => rw [he, hparent]
  · rfl
  · next he => rw [he, hcall (he ▸ hq)]
  · rfl

/-! ## Scheduling -/

@[simp]
theorem status_setStatus (st : ProcessStatus) :
    ((s.setStatus q st).info p).status = if p = q then st else (s.info p).status := by
  unfold ProcessTable.setStatus ProcessTable.modify
  simp only [Function.update_apply]
  split <;> rfl

@[simp]
theorem pid_setStatus (st : ProcessStatus) :
    ((s.setStatus q st).info p).pid = (s.info p).pid := by
  unfold ProcessTable.setStatus ProcessTable.modify
  simp only [Function.update_apply]
  split
  · next he => rw [he]
  · rfl

@[simp]
theorem parent_setStatus (st : ProcessStatus) :
    ((s.setStatus q st).info p).parent = (s.info p).parent := by
  unfold ProcessTable.setStatus ProcessTable.modify
  simp only [Function.update_apply]
  split
  · next he => rw [he]
  · rfl

@[simp]
theorem syscallNum_setStatus (st : ProcessStatus) :
    ((s.setStatus q st).info p).syscallNum = (s.info p).syscallNum := by
  unfold ProcessTable.setStatus ProcessTable.modify
  simp only [Function.update_apply]
  split
  · next he => rw [he]
  · rfl

@[simp]
theorem syscallArgs_setStatus (st : ProcessStatus) :
    ((s.setStatus q st).info p).syscallArgs = (s.info p).syscallArgs := by
  unfold ProcessTable.setStatus ProcessTable.modify
  simp only [Function.update_apply]
  split
  · next he => rw [he]
  · rfl

theorem ring_info : (s.ring q as bs).info p =
    if p = q then { s.info q with status := .Ready, timer := none } else s.info p := by
  unfold ProcessTable.ring ProcessTable.modify
  simp only [Function.update_apply]

theorem sound_ring {timer : TimerItem} {rest : List TimerItem} {as bs : List Nat} (h : Sound s)
    (ht : s.timers = timer :: rest) (hp : timer.pcb = some p) (hready : s.ready = as ++ bs) :
    Sound (s.ring p as bs) := by
  obtain ⟨p', hpw, hpcb, hnum⟩ := h.timed.asleep timer (by simp [ht])
  obtain rfl : p' = p := by
    rw [hp, Option.some.injEq] at hpcb
    exact hpcb.symm
  have hout := h.placed.not_mem_of_waiting hpw
  have hn := h.placed.nodup_waiting
  have hw : ∀ q, q ∈ (s.ring p' as bs).waiting ↔ q ≠ p' ∧ q ∈ s.waiting := fun q =>
    hn.mem_erase_iff
  refine ⟨placed_of_perm h.placed ?_ fun _ => Iff.rfl, ⟨fun q => ?_, fun q hq => ?_, fun q hq => ?_⟩,
    ⟨fun i hi => ?_, ?_, ?_⟩, ?_, ?_⟩
  · rw [List.perm_iff_count]
    intro q
    have hc : s.waiting.count q = (s.waiting.erase p').count q + if p' = q then 1 else 0 := by
      rw [(List.perm_cons_erase hpw).count_eq, List.count_cons]
      simp
    rw [count_places, count_places]
    simp only [ProcessTable.ring, ProcessTable.modify, hready, List.count_append, List.count_cons,
      beq_iff_eq]
    omega
  · rw [ring_info]
    change q ∈ s.zombie ↔ s.live q ∧ _
    rw [h.marked.dead]
    split
    · next he =>
      subst he
      have hne : ¬ (s.info q).status = .Zombie := fun hc =>
        hout.2.2 ((h.marked.dead q).mpr ⟨h.placed.live_of_waiting hpw, hc⟩)
      simp [hne]
    · exact Iff.rfl
  · rw [ring_info] at hq
    rw [hw]
    split at hq
    · cases hq
    · next hne => exact ⟨hne, h.marked.waits q hq⟩
  · obtain ⟨hne, hq⟩ := (hw q).mp hq
    rw [ring_info, if_neg hne]
    exact h.marked.blocked q hq
  · have hi' : i ∈ rest := by
      have hi : i ∈ s.timers.tail := hi
      rwa [ht] at hi
    obtain ⟨q, hq, hqi, hqn⟩ := h.timed.asleep i (by simp [ht, hi'])
    have hne : q ≠ p' := by
      rintro rfl
      have hnd := h.timed.nodup
      rw [ht, List.map_cons, List.nodup_cons] at hnd
      exact hnd.1 (List.mem_map.mpr ⟨i, hi', hqi.trans hp.symm⟩)
    refine ⟨q, (hw q).mpr ⟨hne, hq⟩, hqi, ?_⟩
    rwa [ring_info, if_neg hne]
  · have hnd := h.timed.nodup
    rw [ht, List.map_cons, List.nodup_cons] at hnd
    show (s.timers.tail.map TimerItem.pcb).Nodup
    rw [ht]
    exact hnd.2
  · show s.timers.tail.Pairwise _
    exact h.timed.sorted.sublist (List.tail_sublist _)
  · refine awaiting_congr h.awaiting rfl fun q hq hqn => ?_
    have hne : q ≠ p' := by
      rintro rfl
      rw [hnum] at hqn
      cases hqn
    refine ⟨(hw q).mpr ⟨hne, hq⟩, ?_⟩
    rwa [ring_info, if_neg hne]
  · refine family_congr h.family rfl rfl rfl (fun _ => Iff.rfl) (fun _ hz => hz) ?_ ?_ <;>
    · intro q
      rw [ring_info]
      split
      · next he => rw [he]
      · rfl

theorem sound_rotate {rest : List Nat} (h : Sound s) (hr : s.running = some r)
    (hready : s.ready = n :: rest) : Sound (s.rotate r n) := by
  have hrout := h.placed.not_mem_of_running hr
  have hn : n ∈ s.ready := by simp [hready]
  have hrn : r ≠ n := fun he => hrout.1 (he ▸ hn)
  have hnw : n ∉ s.waiting := fun hw => (h.placed.not_mem_of_waiting hw).2.1 hn
  have hnz : n ∉ s.zombie := fun hz => by
    have hc := h.placed.count_le n
    have h₁ := List.count_pos_iff.mpr hz
    have h₂ := List.count_pos_iff.mpr hn
    omega
  have hinfo : ∀ p, ((s.rotate r n).info p).status =
      if p = n then .Running else if p = r then .Ready else (s.info p).status := fun p => by
    simp [ProcessTable.rotate]
  have hnum : ∀ p, ((s.rotate r n).info p).syscallNum = (s.info p).syscallNum := fun p => by
    simp [ProcessTable.rotate]
  refine ⟨placed_of_perm h.placed ?_ fun _ => Iff.rfl, ⟨fun p => ?_, fun p hp => ?_, fun p hp => ?_⟩,
    timed_congr h.timed rfl fun p hp hs => ⟨hp, (hnum p).trans hs⟩,
    awaiting_congr h.awaiting rfl fun p hp hs => ⟨hp, (hnum p).trans hs⟩,
    family_congr h.family rfl rfl rfl (fun _ => Iff.rfl) (fun _ hz => hz) (fun p => ?_) fun p => ?_⟩
  · rw [List.perm_iff_count]
    intro p
    rw [count_places, count_places]
    simp only [ProcessTable.rotate, ProcessTable.setStatus, ProcessTable.modify, hready, hr,
      List.count_append, List.count_cons, List.tail_cons, Option.toList_some, List.count_nil]
    omega
  · rw [hinfo]
    change p ∈ s.zombie ↔ s.live p ∧ _
    by_cases hpn : p = n
    · subst hpn
      simp [hnz]
    · by_cases hpr : p = r
      · subst hpr
        simp [hpn, hrout.2.2]
      · rw [if_neg hpn, if_neg hpr]
        exact h.marked.dead p
  · rw [hinfo] at hp
    split at hp
    · cases hp
    · split at hp
      · cases hp
      · exact h.marked.waits p hp
  · have hp : p ∈ s.waiting := hp
    have hpn : p ≠ n := fun he => hnw (he ▸ hp)
    have hpr : p ≠ r := fun he => hrout.2.1 (he ▸ hp)
    rw [hinfo, hnum, if_neg hpn, if_neg hpr]
    exact h.marked.blocked p hp
  · simp [ProcessTable.rotate]
  · simp [ProcessTable.rotate]

/-! ## Blocking -/

theorem placed_park (h : Placed s) (hr : s.running = some r) (hrun : s'.running = s.ready.head?)
    (hready : s'.ready = s.ready.tail) (hw : s'.waiting = s.waiting ++ [r])
    (hz : s'.zombie = s.zombie) (hlive : ∀ p, s'.live p ↔ s.live p) : Placed s' := by
  refine placed_of_perm h ?_ hlive
  rw [List.perm_iff_count]
  intro p
  have hnext := count_runNext (s := s) p
  rw [count_places, count_places, hrun, hready, hw, hz, hr]
  simp only [List.count_append, Option.toList_some]
  omega

/-- A process that blocks and is marked as waiting. -/
theorem marked_block (h : Sound s) (hr : s.running = some r) (hz : s'.zombie = s.zombie)
    (hlive : ∀ p, s'.live p ↔ s.live p) (hw : s'.waiting = s.waiting ++ [r])
    (hst : ∀ p, (s'.info p).status = if p = r then .Waiting else (s.info p).status)
    (hcall : ∀ p, (s'.info p).syscallNum = (s.info p).syscallNum)
    (hnum : (s.info r).syscallNum = DSOS_CALL_WAIT ∨ (s.info r).syscallNum = DSOS_CALL_SLEEP) :
    Marked s' := by
  have hrout := h.placed.not_mem_of_running hr
  refine ⟨fun p => ?_, fun p hp => ?_, fun p hp => ?_⟩
  · rw [hst, hz, hlive]
    split
    · next he =>
      subst he
      simp [hrout.2.2]
    · exact h.marked.dead p
  · rw [hst] at hp
    rw [hw, List.mem_append, List.mem_singleton]
    split at hp
    · next he => exact .inr he
    · exact .inl (h.marked.waits p hp)
  · rw [hw, List.mem_append, List.mem_singleton] at hp
    rw [hst, hcall]
    rcases hp with hp | rfl
    · rw [if_neg fun he => hrout.2.1 (by rwa [he] at hp)]
      exact h.marked.blocked p hp
    · rw [if_pos rfl]
      exact .inr ⟨hnum, rfl⟩

theorem sound_sleep {w : Int} {as bs : List TimerItem} (h : Sound s) (hr : s.running = some r)
    (hnum : (s.info r).syscallNum = DSOS_CALL_SLEEP) (ht : s.timers = as ++ bs)
    (has : ∀ a ∈ as, a.awakeningTime ≤ w) (hbs : ∀ b ∈ bs, w < b.awakeningTime) :
    Sound (s.sleep r w as bs) := by
  have hrout := h.placed.not_mem_of_running hr
  have hw : ∀ p, p ∈ (s.sleep r w as bs).waiting ↔ p ∈ s.waiting ∨ p = r := fun p => by
    simp [ProcessTable.sleep, ProcessTable.runNext, ProcessTable.park, ProcessTable.setStatus,
      ProcessTable.modify]
  have hst : ∀ p, ((s.sleep r w as bs).info p).status =
      if p = r then .Waiting else (s.info p).status := fun p => status_setStatus _
  have hcall : ∀ p, ((s.sleep r w as bs).info p).syscallNum = (s.info p).syscallNum := fun p =>
    syscallNum_setStatus _
  have hkeep : ∀ p ∈ s.waiting, ∀ c, (s.info p).syscallNum = c →
      p ∈ (s.sleep r w as bs).waiting ∧ ((s.sleep r w as bs).info p).syscallNum = c :=
    fun p hp c hc => ⟨(hw p).mpr (.inl hp), (hcall p).trans hc⟩
  have hnew : ∀ i ∈ s.timers, i.pcb ≠ some r := by
    intro i hi he
    obtain ⟨p, hp, hpi, _⟩ := h.timed.asleep i hi
    rw [he, Option.some.injEq] at hpi
    exact hrout.2.1 (hpi ▸ hp)
  refine ⟨placed_park h.placed hr rfl rfl rfl rfl fun _ => Iff.rfl,
    marked_block h hr rfl (fun _ => Iff.rfl) rfl hst hcall (.inr hnum), ⟨fun i hi => ?_, ?_, ?_⟩,
    awaiting_congr h.awaiting rfl fun p hp hc => hkeep p hp _ hc,
    family_congr h.family rfl rfl rfl (fun _ => Iff.rfl) (fun _ hz => hz)
      (fun _ => pid_setStatus _) fun _ => parent_setStatus _⟩
  · have hi : i ∈ as ++ ⟨w, some r⟩ :: bs := hi
    rw [List.mem_append, List.mem_cons] at hi
    by_cases he : i = ⟨w, some r⟩
    · exact ⟨r, (hw r).mpr (.inr rfl), by rw [he], (hcall r).trans hnum⟩
    · have hi' : i ∈ s.timers := by
        rw [ht, List.mem_append]
        tauto
      obtain ⟨p, hp, hpi, hpn⟩ := h.timed.asleep i hi'
      exact ⟨p, (hkeep p hp _ hpn).1, hpi, (hkeep p hp _ hpn).2⟩
  · show ((as ++ ⟨w, some r⟩ :: bs).map TimerItem.pcb).Nodup
    have hnd := h.timed.nodup
    rw [ht, List.map_append] at hnd
    rw [List.map_append, List.map_cons, List.nodup_middle, List.nodup_cons]
    refine ⟨fun hm => ?_, hnd⟩
    rw [← List.map_append, ← ht] at hm
    obtain ⟨i, hi, he⟩ := List.mem_map.mp hm
    exact hnew i hi he
  · show (as ++ ⟨w, some r⟩ :: bs).Pairwise _
    have hs := h.timed.sorted
    rw [ht, List.pairwise_append] at hs
    refine List.pairwise_append.mpr ⟨hs.1, List.pairwise_cons.mpr ⟨fun b hb => ?_, hs.2.1⟩,
      fun a ha b hb => ?_⟩
    · have := hbs b hb
      show w ≤ b.awakeningTime
      omega
    · rcases List.mem_cons.mp hb with rfl | hb
      · exact has a ha
      · exact hs.2.2 a ha b hb

theorem sound_waitForChild (h : Sound s) (hr : s.running = some r)
    (hnum : (s.info r).syscallNum = DSOS_CALL_WAIT) : Sound (s.waitForChild r) := by
  have hw : ∀ p, p ∈ (s.waitForChild r).waiting ↔ p ∈ s.waiting ∨ p = r := fun p => by
    simp [ProcessTable.waitForChild, ProcessTable.runNext, ProcessTable.park,
      ProcessTable.setStatus, ProcessTable.modify]
  have hst : ∀ p, ((s.waitForChild r).info p).status =
      if p = r then .Waiting else (s.info p).status := fun p => status_setStatus _
  have hcall : ∀ p, ((s.waitForChild r).info p).syscallNum = (s.info p).syscallNum := fun p =>
    syscallNum_setStatus _
  have hkeep : ∀ p ∈ s.waiting, ∀ c, (s.info p).syscallNum = c →
      p ∈ (s.waitForChild r).waiting ∧ ((s.waitForChild r).info p).syscallNum = c :=
    fun p hp c hc => ⟨(hw p).mpr (.inl hp), (hcall p).trans hc⟩
  refine ⟨placed_park h.placed hr rfl rfl rfl rfl fun _ => Iff.rfl,
    marked_block h hr rfl (fun _ => Iff.rfl) rfl hst hcall (.inl hnum),
    timed_congr h.timed rfl fun p hp hc => hkeep p hp _ hc,
    awaiting_congr h.awaiting rfl fun p hp hc => hkeep p hp _ hc,
    family_congr h.family rfl rfl rfl (fun _ => Iff.rfl) (fun _ hz => hz)
      (fun _ => pid_setStatus _) fun _ => parent_setStatus _⟩

theorem sound_waitForPost (h : Sound s) (hr : s.running = some r)
    (hnum : (s.info r).syscallNum = DSOS_CALL_SEMWAIT) : Sound (s.waitForPost r sem) := by
  have hrout := h.placed.not_mem_of_running hr
  have hw : ∀ p, p ∈ (s.waitForPost r sem).waiting ↔ p ∈ s.waiting ∨ p = r := fun p => by
    simp [ProcessTable.waitForPost, ProcessTable.runNext, ProcessTable.park]
  have hkeep : ∀ p ∈ s.waiting, p ∈ (s.waitForPost r sem).waiting := fun p hp =>
    (hw p).mpr (.inl hp)
  have hnone : ∀ sem', some r ∉ s.waiters sem' := by
    intro sem' hm
    obtain ⟨p, hp, he, _⟩ := h.awaiting.blocked sem' _ hm
    cases he
    exact hrout.2.1 hp
  have hmem : ∀ sem' o, o ∈ (s.waitForPost r sem).waiters sem' ↔
      o ∈ s.waiters sem' ∨ (sem' = sem ∧ o = some r) := by
    intro sem' o
    change o ∈ Function.update s.waiters sem _ sem' ↔ _
    rw [Function.update_apply]
    split
    · next he =>
      subst he
      simp
    · next he => simp [he]
  refine ⟨placed_park h.placed hr rfl rfl rfl rfl fun _ => Iff.rfl,
    ⟨h.marked.dead, fun p hp => hkeep p (h.marked.waits p hp), fun p hp => ?_⟩,
    timed_congr h.timed rfl fun p hp hc => ⟨hkeep p hp, hc⟩,
    ⟨fun sem' o ho => ?_, fun sem' => ?_, fun sem₁ sem₂ o h₁ h₂ => ?_⟩,
    family_congr h.family rfl rfl rfl (fun _ => Iff.rfl) (fun _ hz => hz) (fun _ => rfl)
      fun _ => rfl⟩
  · rcases (hw p).mp hp with hp | rfl
    · exact h.marked.blocked p hp
    · exact .inl ⟨hnum, fun hs => hrout.2.1 (h.marked.waits _ hs)⟩
  · rcases (hmem sem' o).mp ho with ho | ⟨_, rfl⟩
    · obtain ⟨p, hp, he, hc⟩ := h.awaiting.blocked sem' o ho
      exact ⟨p, hkeep p hp, he, hc⟩
    · exact ⟨r, (hw r).mpr (.inr rfl), rfl, hnum⟩
  · show (Function.update s.waiters sem _ sem').Nodup
    rw [Function.update_apply]
    split
    · rw [← List.concat_eq_append]
      exact (h.awaiting.nodup sem).concat (hnone sem)
    · exact h.awaiting.nodup sem'
  · rcases (hmem sem₁ o).mp h₁ with h₁ | ⟨he₁, ho⟩
    · rcases (hmem sem₂ o).mp h₂ with h₂ | ⟨_, ho⟩
      · exact h.awaiting.apart sem₁ sem₂ o h₁ h₂
      · exact absurd (ho ▸ h₁) (hnone sem₁)
    · rcases (hmem sem₂ o).mp h₂ with h₂ | ⟨he₂, _⟩
      · exact absurd (ho ▸ h₂) (hnone sem₂)
      · rw [he₁, he₂]

/-- The process that a post wakes is the first waiter. -/
theorem sound_post {rest : List (Option Nat)} (h : Sound s) (hs : s.waiters sem = some p :: rest) :
    Sound (s.post p sem) := by
  obtain ⟨p', hpw, he, hnum⟩ := h.awaiting.blocked sem (some p) (by simp [hs])
  cases he
  have hout := h.placed.not_mem_of_waiting hpw
  have hw : ∀ q, q ∈ (s.post p sem).waiting ↔ q ≠ p ∧ q ∈ s.waiting := fun q =>
    h.placed.nodup_waiting.mem_erase_iff
  have hmem : ∀ sem' o, o ∈ (s.post p sem).waiters sem' → o ∈ s.waiters sem' ∧ o ≠ some p := by
    intro sem' o ho
    have ho : o ∈ Function.update s.waiters sem _ sem' := ho
    rw [Function.update_apply] at ho
    split at ho
    · next he =>
      subst he
      have hn := h.awaiting.nodup sem'
      rw [hs, List.nodup_cons] at hn
      rw [hs, List.tail_cons] at ho
      exact ⟨by simp [hs, ho], fun he => hn.1 (he ▸ ho)⟩
    · next hne =>
      refine ⟨ho, fun he => hne ?_⟩
      exact h.awaiting.apart sem' sem (some p) (he ▸ ho) (by simp [hs])
  refine ⟨placed_of_perm h.placed ?_ fun _ => Iff.rfl, ⟨h.marked.dead, fun q hq => ?_, fun q hq => ?_⟩,
    timed_congr h.timed rfl fun q hq hc => ⟨(hw q).mpr ⟨?_, hq⟩, hc⟩,
    ⟨fun sem' o ho => ?_, fun sem' => ?_, fun sem₁ sem₂ o h₁ h₂ => ?_⟩,
    family_congr h.family rfl rfl rfl (fun _ => Iff.rfl) (fun _ hz => hz) (fun _ => rfl)
      fun _ => rfl⟩
  · rw [List.perm_iff_count]
    intro q
    have hc : s.waiting.count q = (s.waiting.erase p).count q + if p = q then 1 else 0 := by
      rw [(List.perm_cons_erase hpw).count_eq, List.count_cons]
      simp
    rw [count_places, count_places]
    simp only [ProcessTable.post, List.count_append, List.count_cons, List.count_nil, beq_iff_eq]
    omega
  · refine (hw q).mpr ⟨?_, h.marked.waits q hq⟩
    rintro rfl
    rcases h.marked.blocked q hpw with ⟨_, hne⟩ | ⟨hc | hc, _⟩
    · exact hne hq
    · rw [hnum] at hc
      cases hc
    · rw [hnum] at hc
      cases hc
  · exact h.marked.blocked q ((hw q).mp hq).2
  · rintro rfl
    rw [hnum] at hc
    cases hc
  · obtain ⟨ho, hne⟩ := hmem sem' o ho
    obtain ⟨q, hq, rfl, hc⟩ := h.awaiting.blocked sem' o ho
    exact ⟨q, (hw q).mpr ⟨fun he => hne (he ▸ rfl), hq⟩, rfl, hc⟩
  · show (Function.update s.waiters sem _ sem').Nodup
    rw [Function.update_apply]
    split
    · exact (h.awaiting.nodup sem).sublist (List.tail_sublist _)
    · exact h.awaiting.nodup sem'
  · exact h.awaiting.apart sem₁ sem₂ o (hmem sem₁ o h₁).1 (hmem sem₂ o h₂).1

/-! ## Creation -/

/-- The new process `p` with the block `q` has found its place. -/
structure Born (s s' : ProcessTable) (p : Nat) (q : PCB) : Prop where
  fresh : ¬ s.live p
  pid : q.pid = s.lastPid
  awake : q.status ≠ .Waiting ∧ q.status ≠ .Zombie
  places : s'.places.Perm (p :: s.places)
  live : s'.live = fun i => i = p ∨ s.live i
  info : s'.info = Function.update s.info p q
  waiting : s'.waiting = s.waiting
  zombie : s'.zombie = s.zombie
  timers : s'.timers = s.timers
  waiters : s'.waiters = s.waiters
  lastPid : s'.lastPid = s.lastPid + 1

theorem Born.info_of_ne {q : PCB} (h : Born s s' p q) (hi : i ≠ p) : s'.info i = s.info i := by
  rw [h.info, Function.update_of_ne hi]

theorem Born.info_self {q : PCB} (h : Born s s' p q) : s'.info p = q := by
  rw [h.info, Function.update_self]

theorem Born.live_iff {q : PCB} (h : Born s s' p q) : s'.live i ↔ i = p ∨ s.live i := by
  rw [h.live]

theorem Born.ne_of_live {q : PCB} (h : Born s s' p q) (hi : s.live i) : i ≠ p :=
  fun he => h.fresh (he ▸ hi)

theorem Born.placed {q : PCB} (h : Born s s' p q) (hs : Sound s) : Placed s' := by
  refine ⟨?_, fun i => ?_⟩
  · refine h.places.nodup_iff.mpr (List.nodup_cons.mpr ⟨fun hm => ?_, hs.placed.nodup⟩)
    exact h.fresh ((hs.placed.mem p).mp hm)
  · rw [h.places.mem_iff, List.mem_cons, hs.placed.mem, h.live_iff]

theorem Born.marked {q : PCB} (h : Born s s' p q) (hs : Sound s) : Marked s' := by
  refine ⟨fun i => ?_, fun i hi => ?_, fun i hi => ?_⟩
  · rw [h.zombie, h.live_iff]
    by_cases hip : i = p
    · subst hip
      rw [h.info_self]
      have hout : i ∉ s.zombie := fun hm => h.fresh ((hs.marked.dead i).mp hm).1
      exact iff_of_false hout fun hz => h.awake.2 hz.2
    · rw [h.info_of_ne hip, hs.marked.dead i]
      simp [hip]
  · rw [h.waiting]
    by_cases hip : i = p
    · subst hip
      rw [h.info_self] at hi
      exact absurd hi h.awake.1
    · exact hs.marked.waits i (h.info_of_ne hip ▸ hi)
  · rw [h.waiting] at hi
    rw [h.info_of_ne (h.ne_of_live (hs.placed.live_of_waiting hi))]
    exact hs.marked.blocked i hi

theorem Born.keeps {q : PCB} (h : Born s s' p q) (hs : Sound s) (hi : i ∈ s.waiting) :
    i ∈ s'.waiting ∧ s'.info i = s.info i :=
  ⟨h.waiting ▸ hi, h.info_of_ne (h.ne_of_live (hs.placed.live_of_waiting hi))⟩

theorem Born.timed {q : PCB} (h : Born s s' p q) (hs : Sound s) : Timed s' := by
  refine timed_congr hs.timed h.timers fun i hi hc => ?_
  obtain ⟨hw, hinfo⟩ := h.keeps hs hi
  exact ⟨hw, hinfo ▸ hc⟩

theorem Born.awaiting {q : PCB} (h : Born s s' p q) (hs : Sound s) : Awaiting s' := by
  refine awaiting_congr hs.awaiting h.waiters fun i hi hc => ?_
  obtain ⟨hw, hinfo⟩ := h.keeps hs hi
  exact ⟨hw, hinfo ▸ hc⟩

theorem Born.pid_inj {q : PCB} (h : Born s s' p q) (hs : Sound s) {i j : Nat} (hi : s'.live i)
    (hj : s'.live j) (he : (s'.info i).pid = (s'.info j).pid) : i = j := by
  have hi := h.live_iff.mp hi
  have hj := h.live_iff.mp hj
  by_cases hip : i = p <;> by_cases hjp : j = p
  · rw [hip, hjp]
  · subst hip
    rw [h.info_self, h.info_of_ne hjp, h.pid] at he
    have := hs.family.pid_lt j (hj.resolve_left hjp)
    omega
  · subst hjp
    rw [h.info_self, h.info_of_ne hip, h.pid] at he
    have := hs.family.pid_lt i (hi.resolve_left hip)
    omega
  · rw [h.info_of_ne hip, h.info_of_ne hjp] at he
    exact hs.family.pid_inj i j (hi.resolve_left hip) (hj.resolve_left hjp) he

theorem Born.pid_lt {q : PCB} (h : Born s s' p q) (hs : Sound s) (hi : s'.live i) :
    (s'.info i).pid < s'.lastPid := by
  rw [h.lastPid]
  by_cases hip : i = p
  · subst hip
    rw [h.info_self, h.pid]
    omega
  · have := hs.family.pid_lt i ((h.live_iff.mp hi).resolve_left hip)
    rw [h.info_of_ne hip]
    omega

/-- The new process is in no list of children and has no children. -/
theorem Born.childless {q : PCB} (h : Born s s' p q) (hs : Sound s) :
    (∀ i, some p ∉ s.children i) ∧ s.children p = [] := by
  refine ⟨fun i hm => ?_, List.eq_nil_iff_forall_not_mem.mpr fun o ho => ?_⟩
  · obtain ⟨p', he, hl, _⟩ := hs.family.child i _ hm
    cases he
    exact h.fresh hl
  · obtain ⟨_, _, _, _, hl, _⟩ := hs.family.child p o ho
    exact h.fresh hl

/-- The children of `s'` have not changed in the eyes of the processes of `s`. -/
theorem Born.child {q : PCB} {o : Option Nat} (h : Born s s' p q) (hs : Sound s)
    (ho : o ∈ s.children i) : ∃ j, o = some j ∧ s'.live j ∧ (s'.info j).parent ≠ none ∧
      s'.live i ∧ i ∉ s'.zombie := by
  obtain ⟨j, hj, hjl, hjp, hil, hiz⟩ := hs.family.child i o ho
  refine ⟨j, hj, h.live_iff.mpr (.inr hjl), ?_, h.live_iff.mpr (.inr hil), h.zombie ▸ hiz⟩
  rwa [h.info_of_ne (h.ne_of_live hjl)]

theorem Born.stored {q : PCB} {j : Nat} (h : Born s s' p q) (hs : Sound s)
    (hj : some j ∈ s.children i) :
    (s'.info j).parent = some i ∨ (s'.info i).parent = none := by
  obtain ⟨_, he, hjl, _, hil, _⟩ := hs.family.child i _ hj
  cases he
  rw [h.info_of_ne (h.ne_of_live hjl), h.info_of_ne (h.ne_of_live hil)]
  exact hs.family.parent i j hj

theorem Born.first {q : PCB} (h : Born s s' p q) (hs : Sound s) (hi : s'.live i)
    (hn : (s'.info i).parent = none) : i ∉ s'.zombie := by
  rw [h.zombie]
  by_cases hip : i = p
  · exact fun hm => h.fresh ((hs.marked.dead p).mp (hip ▸ hm)).1
  · exact hs.family.first i ((h.live_iff.mp hi).resolve_left hip) (h.info_of_ne hip ▸ hn)

theorem born_spawn {q : PCB} (hp : ¬ s.live p) (hpid : q.pid = s.lastPid)
    (hst : q.status = .Ready) : Born s (s.spawn r p q) p q := by
  refine ⟨hp, hpid, by simp [hst], ?_, rfl, rfl, rfl, rfl, rfl, rfl, rfl⟩
  rw [List.perm_iff_count]
  intro i
  rw [List.count_cons, count_places, count_places]
  simp only [ProcessTable.spawn, List.count_append, List.count_cons, List.count_nil]
  omega

theorem mem_children_spawn {q : PCB} {o : Option Nat} (hempty : s.children p = []) :
    o ∈ (s.spawn r p q).children i ↔ o ∈ s.children i ∨ (i = r ∧ o = some p) := by
  change o ∈ Function.update (Function.update s.children p []) r _ i ↔ _
  by_cases hi : i = r
  · subst hi
    rw [Function.update_self]
    simp
  · rw [Function.update_of_ne hi]
    by_cases hip : i = p
    · subst hip
      rw [Function.update_self, hempty]
      simp [hi]
    · rw [Function.update_of_ne hip]
      simp [hi]

theorem sound_spawn {q : PCB} (h : Sound s) (hr : s.running = some r) (hp : ¬ s.live p)
    (hpid : q.pid = s.lastPid) (hst : q.status = .Ready) (hparent : q.parent = some r) :
    Sound (s.spawn r p q) := by
  have hborn : Born s (s.spawn r p q) p q := born_spawn hp hpid hst
  have hrl := h.placed.live_of_running hr
  obtain ⟨hnone, hempty⟩ := hborn.childless h
  have hmem : ∀ i o, o ∈ (s.spawn r p q).children i ↔
      o ∈ s.children i ∨ (i = r ∧ o = some p) := fun _ _ => mem_children_spawn hempty
  refine ⟨hborn.placed h, hborn.marked h, hborn.timed h, hborn.awaiting h,
    ⟨fun i o ho => ?_, fun i => ?_, fun i j o hi hj => ?_, fun i j hj => ?_, fun i hi => ?_,
      fun i => hborn.first h, ?_, fun _ _ => hborn.pid_inj h, fun _ => hborn.pid_lt h⟩⟩
  · rcases (hmem i o).mp ho with ho | ⟨rfl, rfl⟩
    · exact hborn.child h ho
    · refine ⟨p, rfl, .inl rfl, ?_, .inr hrl, (h.placed.not_mem_of_running hr).2.2⟩
      rw [hborn.info_self, hparent]
      exact fun hn => nomatch hn
  · change (Function.update (Function.update s.children p []) r _ i).Nodup
    by_cases hi : i = r
    · rw [hi, Function.update_self, ← List.concat_eq_append]
      exact (h.family.nodup r).concat (hnone r)
    · rw [Function.update_of_ne hi, ← hempty, Function.update_eq_self]
      exact h.family.nodup i
  · rcases (hmem i o).mp hi with hi | ⟨he₁, ho⟩
    · rcases (hmem j o).mp hj with hj | ⟨_, ho⟩
      · exact h.family.apart i j o hi hj
      · exact absurd (ho ▸ hi) (hnone i)
    · rcases (hmem j o).mp hj with hj | ⟨he₂, _⟩
      · exact absurd (ho ▸ hj) (hnone j)
      · rw [he₁, he₂]
  · rcases (hmem i (some j)).mp hj with hj' | ⟨rfl, he⟩
    · exact hborn.stored h hj'
    · cases he
      rw [hborn.info_self]
      exact .inl hparent
  · rcases hi with rfl | hi
    · exact .inr ⟨r, (hmem r (some i)).mpr (.inr ⟨rfl, rfl⟩)⟩
    · rw [hborn.info_of_ne (hborn.ne_of_live hi)]
      refine (h.family.listed i hi).imp id ?_
      rintro ⟨j, hj⟩
      exact ⟨j, (hmem j (some i)).mpr (.inl hj)⟩
  · obtain ⟨j, hj, hjl, hjp⟩ := h.family.init
    refine ⟨j, hj, .inr hjl, ?_⟩
    rwa [hborn.info_of_ne (hborn.ne_of_live hjl)]

theorem born_restart {q : PCB} (hr : s.running = none) (hp : ¬ s.live p)
    (hpid : q.pid = s.lastPid) (hst : q.status = .Running) : Born s (s.restart p q) p q := by
  refine ⟨hp, hpid, by simp [hst], ?_, rfl, rfl, rfl, rfl, rfl, rfl, rfl⟩
  simp [ProcessTable.places, ProcessTable.restart, hr]

theorem sound_restart {q : PCB} (h : Sound s) (hr : s.running = none) (hp : ¬ s.live p)
    (hpid : q.pid = s.lastPid) (hst : q.status = .Running) (hparent : q.parent = none) :
    Sound (s.restart p q) := by
  have hborn : Born s (s.restart p q) p q := born_restart hr hp hpid hst
  obtain ⟨-, hempty⟩ := hborn.childless h
  have hchildren : (s.restart p q).children = s.children := by
    show Function.update s.children p [] = _
    rw [← hempty, Function.update_eq_self]
  refine ⟨hborn.placed h, hborn.marked h, hborn.timed h, hborn.awaiting h,
    ⟨fun i o ho => ?_, ?_, ?_, fun i j hj => ?_, fun i hi => ?_,
      fun i => hborn.first h, ⟨p, rfl, .inl rfl, ?_⟩, fun _ _ => hborn.pid_inj h,
      fun _ => hborn.pid_lt h⟩⟩
  · rw [hchildren] at ho
    exact hborn.child h ho
  · rw [hchildren]
    exact h.family.nodup
  · rw [hchildren]
    exact h.family.apart
  · rw [hchildren] at hj
    exact hborn.stored h hj
  · rw [hchildren]
    rcases hi with rfl | hi
    · rw [hborn.info_self]
      exact .inl hparent
    · rw [hborn.info_of_ne (hborn.ne_of_live hi)]
      exact h.family.listed i hi
  · rw [hborn.info_self]
    exact hparent

/-! ## Termination -/

@[simp]
theorem adopt_parent : ((s.adopt r i).info p).parent = (s.info p).parent := by
  show (if some p ∈ s.children r then (s.info p).signalled DSOS_SIGHUP else s.info p).parent = _
  split <;> rfl

theorem sound_adopt (h : Sound s) (hi : s.init = some i) (hri : r ≠ i) : Sound (s.adopt r i) := by
  obtain ⟨i', hi', hil, hip⟩ := h.family.init
  obtain rfl : i' = i := by
    rw [hi, Option.some.injEq] at hi'
    exact hi'.symm
  have hiz := h.family.first i' hil hip
  have hinfo : ∀ p, (s.adopt r i').info p =
      if some p ∈ s.children r then (s.info p).signalled DSOS_SIGHUP else s.info p := fun _ => rfl
  have hregs : Registers s (s.adopt r i').info := by
    refine ⟨fun p => ?_, fun p => ?_, fun p => ?_, fun p _ => ?_⟩ <;>
    · rw [hinfo]
      split <;> rfl
  have hmem : ∀ q o, o ∈ (s.adopt r i').children q ↔
      (q ≠ r ∧ o ∈ s.children q) ∨ (q = i' ∧ o ∈ s.children r) := by
    intro q o
    change o ∈ Function.update (Function.update s.children r []) i' _ q ↔ _
    by_cases hqi : q = i'
    · subst hqi
      rw [Function.update_self, List.mem_append]
      simp [hri.symm]
    · rw [Function.update_of_ne hqi]
      by_cases hqr : q = r
      · subst hqr
        simp [hqi]
      · rw [Function.update_of_ne hqr]
        simp [hqi, hqr]
  have hs := sound_registers h hregs
  refine ⟨⟨hs.placed.nodup, hs.placed.mem⟩, ⟨hs.marked.dead, hs.marked.waits, hs.marked.blocked⟩,
    ⟨hs.timed.asleep, hs.timed.nodup, hs.timed.sorted⟩,
    ⟨hs.awaiting.blocked, hs.awaiting.nodup, hs.awaiting.apart⟩,
    ⟨fun q o ho => ?_, fun q => ?_, fun q q' o hq hq' => ?_, fun q p hp => ?_, fun p hp => ?_,
      hs.family.first, hs.family.init, hs.family.pid_inj, hs.family.pid_lt⟩⟩
  · rcases (hmem q o).mp ho with ⟨_, ho'⟩ | ⟨rfl, ho'⟩
    · exact hs.family.child q o ho'
    · obtain ⟨p, he, hp, hpi, _, _⟩ := hs.family.child r o ho'
      exact ⟨p, he, hp, hpi, hil, hiz⟩
  · show (Function.update (Function.update s.children r []) i' _ q).Nodup
    by_cases hqi : q = i'
    · subst hqi
      rw [Function.update_self]
      refine List.nodup_append.mpr ⟨h.family.nodup q, h.family.nodup r, fun o ho o' ho' he => ?_⟩
      exact hri (h.family.apart r q o (he ▸ ho') ho)
    · rw [Function.update_of_ne hqi]
      by_cases hqr : q = r
      · rw [hqr, Function.update_self]
        exact List.nodup_nil
      · rw [Function.update_of_ne hqr]
        exact h.family.nodup q
  · rcases (hmem q o).mp hq with ⟨hqr, ho⟩ | ⟨rfl, ho⟩
    · rcases (hmem q' o).mp hq' with ⟨_, ho'⟩ | ⟨_, ho'⟩
      · exact h.family.apart q q' o ho ho'
      · exact absurd (h.family.apart q r o ho ho') hqr
    · rcases (hmem q' o).mp hq' with ⟨hqr', ho'⟩ | ⟨rfl, _⟩
      · exact absurd (h.family.apart q' r o ho' ho) hqr'
      · rfl
  · rcases (hmem q (some p)).mp hp with ⟨_, hp⟩ | ⟨rfl, _⟩
    · exact hs.family.parent q p hp
    · exact .inr ((hregs.parent q).trans hip)
  · refine (hs.family.listed p hp).imp id ?_
    rintro ⟨q, hq⟩
    by_cases hqr : q = r
    · exact ⟨i', (hmem i' _).mpr (.inr ⟨rfl, hqr ▸ hq⟩)⟩
    · exact ⟨q, (hmem q _).mpr (.inl ⟨hqr, hq⟩)⟩

theorem die_status : ((s.die r parent).info p).status =
    if p = r then .Zombie else (s.info p).status := by
  unfold ProcessTable.die ProcessTable.modify
  simp only [Function.update_apply]
  split
  · next he =>
    subst he
    exact status_setStatus _
  · exact status_setStatus _

theorem die_registers : Registers (s.setStatus r .Zombie) (s.die r parent).info :=
  registers_modify (s := s.setStatus r .Zombie) (p := parent)
    (f := fun q => q.signalled DSOS_SIGCHLD) rfl rfl rfl fun _ => rfl

theorem sound_die (h : Sound s) (hr : s.running = some r) (hrp : (s.info r).parent ≠ none)
    (hc : s.children r = []) : Sound (s.die r parent) := by
  have hrl := h.placed.live_of_running hr
  have hrout := h.placed.not_mem_of_running hr
  have hregs := @die_registers s r parent
  have hcall : ∀ p ∈ s.waiting, ((s.die r parent).info p).syscallNum = (s.info p).syscallNum :=
    fun p hp => (hregs.call p hp).trans (syscallNum_setStatus _)
  have hparent : ∀ p, ((s.die r parent).info p).parent = (s.info p).parent := fun p =>
    (hregs.parent p).trans (parent_setStatus _)
  have hpid : ∀ p, ((s.die r parent).info p).pid = (s.info p).pid := fun p =>
    (hregs.pid p).trans (pid_setStatus _)
  have hz : ∀ p, p ∈ (s.die r parent).zombie ↔ p ∈ s.zombie ∨ p = r := fun p => by
    simp [ProcessTable.die]
  refine ⟨placed_of_perm h.placed ?_ fun _ => Iff.rfl,
    ⟨fun p => ?_, fun p hp => ?_, fun p hp => ?_⟩,
    timed_congr h.timed rfl fun p hp hn => ⟨hp, (hcall p hp).trans hn⟩,
    awaiting_congr h.awaiting rfl fun p hp hn => ⟨hp, (hcall p hp).trans hn⟩,
    ⟨fun q o ho => ?_, h.family.nodup, h.family.apart, fun q p hp => ?_, fun p hp => ?_,
      fun p hp hn hm => ?_, ?_, fun p q hp hq he => ?_, fun p hp => ?_⟩⟩
  · rw [List.perm_iff_count]
    intro p
    rw [count_places, count_places, hr]
    simp only [ProcessTable.die, ProcessTable.modify, ProcessTable.setStatus, List.count_append,
      Option.toList_some, Option.toList_none, List.count_nil]
    omega
  · rw [hz, die_status]
    change _ ↔ s.live p ∧ _
    split
    · next he =>
      subst he
      simp [hrl]
    · next hne =>
      rw [h.marked.dead]
      simp [hne]
  · rw [die_status] at hp
    split at hp
    · cases hp
    · exact h.marked.waits p hp
  · have hp : p ∈ s.waiting := hp
    have hpr : p ≠ r := fun he => hrout.2.1 (he ▸ hp)
    rw [die_status, if_neg hpr, hcall p hp]
    exact h.marked.blocked p hp
  · obtain ⟨p, he, hp, hpi, hq, hqz⟩ := h.family.child q o ho
    refine ⟨p, he, hp, hparent p ▸ hpi, hq, fun hm => ?_⟩
    rcases (hz q).mp hm with hm | rfl
    · exact hqz hm
    · have ho : o ∈ s.children q := ho
      rw [hc] at ho
      cases ho
  · rw [hparent, hparent]
    exact h.family.parent q p hp
  · rw [hparent]
    exact h.family.listed p hp
  · rw [hparent] at hn
    rcases (hz p).mp hm with hm | rfl
    · exact h.family.first p hp hn hm
    · exact hrp hn
  · obtain ⟨i, hi, hil, hip⟩ := h.family.init
    exact ⟨i, hi, hil, (hparent i).trans hip⟩
  · rw [hpid, hpid] at he
    exact h.family.pid_inj p q hp hq he
  · rw [hpid]
    exact h.family.pid_lt p hp

/-- With nobody running, the first ready process runs. -/
theorem sound_runNext {rest : List Nat} (h : Sound s) (hr : s.running = none)
    (hready : s.ready = n :: rest) : Sound (s.runNext.setStatus n .Running) := by
  have hn : n ∈ s.ready := by simp [hready]
  have hnw : n ∉ s.waiting := fun hw => (h.placed.not_mem_of_waiting hw).2.1 hn
  have hnz : n ∉ s.zombie := fun hz => by
    have hc := h.placed.count_le n
    have h₁ := List.count_pos_iff.mpr hz
    have h₂ := List.count_pos_iff.mpr hn
    omega
  have hst : ∀ p, ((s.runNext.setStatus n .Running).info p).status =
      if p = n then .Running else (s.info p).status := fun p => status_setStatus _
  have hcall : ∀ p, ((s.runNext.setStatus n .Running).info p).syscallNum =
      (s.info p).syscallNum := fun p => syscallNum_setStatus _
  refine ⟨placed_of_perm h.placed ?_ fun _ => Iff.rfl,
    ⟨fun p => ?_, fun p hp => ?_, fun p hp => ?_⟩,
    timed_congr h.timed rfl fun p hp hc => ⟨hp, (hcall p).trans hc⟩,
    awaiting_congr h.awaiting rfl fun p hp hc => ⟨hp, (hcall p).trans hc⟩,
    family_congr h.family rfl rfl rfl (fun _ => Iff.rfl) (fun _ hz => hz)
      (fun _ => pid_setStatus _) fun _ => parent_setStatus _⟩
  · rw [List.perm_iff_count]
    intro p
    have hnext := count_runNext (s := s) p
    rw [count_places, count_places, hr]
    simp only [ProcessTable.runNext, ProcessTable.modify, ProcessTable.setStatus,
      Option.toList_none, List.count_nil]
    omega
  · rw [hst]
    change p ∈ s.zombie ↔ s.live p ∧ _
    split
    · next he =>
      subst he
      simp [hnz]
    · exact h.marked.dead p
  · rw [hst] at hp
    split at hp
    · cases hp
    · exact h.marked.waits p hp
  · have hp : p ∈ s.waiting := hp
    have hpn : p ≠ n := fun he => hnw (he ▸ hp)
    rw [hst, hcall, if_neg hpn]
    exact h.marked.blocked p hp

/-- With nobody running, a process that waits for a child runs. -/
theorem sound_resume (h : Sound s) (hr : s.running = none) (hp : p ∈ s.waiting)
    (hnum : (s.info p).syscallNum = DSOS_CALL_WAIT) : Sound (s.resume p) := by
  have hout := h.placed.not_mem_of_waiting hp
  have hw : ∀ q, q ∈ (s.resume p).waiting ↔ q ≠ p ∧ q ∈ s.waiting := fun q =>
    h.placed.nodup_waiting.mem_erase_iff
  have hst : ∀ q, ((s.resume p).info q).status = if q = p then .Running else (s.info q).status :=
    fun q => status_setStatus _
  have hcall : ∀ q, ((s.resume p).info q).syscallNum = (s.info q).syscallNum := fun q =>
    syscallNum_setStatus _
  have hkeep : ∀ q ∈ s.waiting, ∀ c, c ≠ DSOS_CALL_WAIT → (s.info q).syscallNum = c →
      q ∈ (s.resume p).waiting ∧ ((s.resume p).info q).syscallNum = c := by
    intro q hq c hc hn
    refine ⟨(hw q).mpr ⟨?_, hq⟩, (hcall q).trans hn⟩
    rintro rfl
    exact hc (hn ▸ hnum)
  refine ⟨placed_of_perm h.placed ?_ fun _ => Iff.rfl,
    ⟨fun q => ?_, fun q hq => ?_, fun q hq => ?_⟩,
    timed_congr h.timed rfl fun q hq hn => hkeep q hq _ (by decide) hn,
    awaiting_congr h.awaiting rfl fun q hq hn => hkeep q hq _ (by decide) hn,
    family_congr h.family rfl rfl rfl (fun _ => Iff.rfl) (fun _ hz => hz)
      (fun _ => pid_setStatus _) fun _ => parent_setStatus _⟩
  · rw [List.perm_iff_count]
    intro q
    have hc : s.waiting.count q = (s.waiting.erase p).count q + if p = q then 1 else 0 := by
      rw [(List.perm_cons_erase hp).count_eq, List.count_cons]
      simp
    rw [count_places, count_places, hr]
    simp only [ProcessTable.resume, ProcessTable.modify, ProcessTable.setStatus,
      Option.toList_none, Option.toList_some, List.count_cons, List.count_nil, beq_iff_eq]
    omega
  · rw [hst]
    change q ∈ s.zombie ↔ s.live q ∧ _
    split
    · next he =>
      subst he
      simp [hout.2.2]
    · exact h.marked.dead q
  · rw [hst] at hq
    split at hq
    · cases hq
    · next hne => exact (hw q).mpr ⟨hne, h.marked.waits q hq⟩
  · obtain ⟨hne, hq⟩ := (hw q).mp hq
    rw [hst, hcall, if_neg hne]
    exact h.marked.blocked q hq

/-- The zombie child `p` of `q` is taken out of the table. -/
theorem sound_forget (h : Sound s) (hz : p ∈ s.zombie) (hc : some p ∈ s.children q) :
    Sound ((s.unlinkChild q p).forget p) := by
  have hzmem : ∀ i, i ∈ ((s.unlinkChild q p).forget p).zombie ↔ i ≠ p ∧ i ∈ s.zombie := fun i =>
    h.placed.nodup_zombie.mem_erase_iff
  have hmem : ∀ i o, o ∈ ((s.unlinkChild q p).forget p).children i ↔
      o ∈ s.children i ∧ o ≠ some p := by
    intro i o
    change o ∈ Function.update s.children q _ i ↔ _
    by_cases hi : i = q
    · subst hi
      rw [Function.update_self, (h.family.nodup i).mem_erase_iff]
      tauto
    · rw [Function.update_of_ne hi]
      refine ⟨fun ho => ⟨ho, fun he => hi ?_⟩, And.left⟩
      exact h.family.apart i q (some p) (he ▸ ho) hc
  have hperm : (p :: ((s.unlinkChild q p).forget p).places).Perm s.places := by
    rw [List.perm_iff_count]
    intro i
    have hcount : s.zombie.count i = (s.zombie.erase p).count i + if p = i then 1 else 0 := by
      rw [(List.perm_cons_erase hz).count_eq, List.count_cons]
      simp
    rw [List.count_cons, count_places, count_places]
    simp only [ProcessTable.forget, ProcessTable.unlinkChild, beq_iff_eq]
    omega
  have hnd := hperm.nodup_iff.mpr h.placed.nodup
  rw [List.nodup_cons] at hnd
  refine ⟨⟨hnd.2, fun i => ?_⟩, ⟨fun i => ?_, h.marked.waits, h.marked.blocked⟩,
    ⟨h.timed.asleep, h.timed.nodup, h.timed.sorted⟩,
    ⟨h.awaiting.blocked, h.awaiting.nodup, h.awaiting.apart⟩,
    ⟨fun i o ho => ?_, fun i => ?_, fun i j o hi hj => ?_, fun i j hj => ?_, fun i hi => ?_,
      fun i hi hn hm => h.family.first i hi.2 hn ((hzmem i).mp hm).2, ?_,
      fun i j hi hj he => h.family.pid_inj i j hi.2 hj.2 he, fun i hi => h.family.pid_lt i hi.2⟩⟩
  · change _ ↔ i ≠ p ∧ s.live i
    rw [← h.placed.mem, ← hperm.mem_iff, List.mem_cons]
    constructor
    · intro hi
      exact ⟨fun he => hnd.1 (he ▸ hi), .inr hi⟩
    · rintro ⟨hne, hi⟩
      exact hi.resolve_left hne
  · rw [hzmem, h.marked.dead]
    change _ ↔ (i ≠ p ∧ s.live i) ∧ (s.info i).status = .Zombie
    tauto
  · obtain ⟨ho, hne⟩ := (hmem i o).mp ho
    obtain ⟨j, rfl, hj, hji, hi, hiz⟩ := h.family.child i o ho
    refine ⟨j, rfl, ⟨fun he => hne (he ▸ rfl), hj⟩, hji, ⟨fun he => hiz (he ▸ hz), hi⟩, fun hm => ?_⟩
    exact hiz ((hzmem i).mp hm).2
  · show (Function.update s.children q _ i).Nodup
    rw [Function.update_apply]
    split
    · exact (h.family.nodup q).erase _
    · exact h.family.nodup i
  · exact h.family.apart i j o ((hmem i o).mp hi).1 ((hmem j o).mp hj).1
  · exact h.family.parent i j ((hmem i _).mp hj).1
  · refine (h.family.listed i hi.2).imp id ?_
    rintro ⟨j, hj⟩
    refine ⟨j, (hmem j _).mpr ⟨hj, fun he => ?_⟩⟩
    cases he
    exact hi.1 rfl
  · obtain ⟨i, hi, hil, hip⟩ := h.family.init
    exact ⟨i, hi, ⟨fun he => h.family.first i hil hip (he ▸ hz), hil⟩, hip⟩

end DisastrOS.Process.Table
