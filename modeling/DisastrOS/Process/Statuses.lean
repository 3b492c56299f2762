import DisastrOS.Process.Kinship

/-!
# What the status of a process says

A process that blocks in `wait`, `semWait` or `sleep` hands the processor over without
marking the next process as running, and in `semWait` without marking itself as waiting.
In runs in which nobody hands over, the status of a process is its place.
-/
namespace DisastrOS.Process.Statuses

open DisastrOS.Machine
open DisastrOS.Machine.Kernel
open DisastrOS.Machine.Runs
open DisastrOS.Lists.Wiring
open DisastrOS.Lists.RegularLists
open DisastrOS.Lists.Boot
open DisastrOS.Pool.Blocks
open DisastrOS.Pool.BlockContract
open DisastrOS.Process.Table
open DisastrOS.Process.Steps
open DisastrOS.Process.View
open DisastrOS.Process.Coherence
open DisastrOS.Process.Transitions
open DisastrOS.Process.SystemRuns
open DisastrOS.Process.Kinship
open DisastrOS.Semaphore.Calls
open DisastrOS.Library.GuardedRun

variable {s s' u : ProcessTable} {k k' : Kernel} {L L' : HeadAddr → List Node} {r n p : Nat}
  {num : Int} {args : List Int} {a : Action}

/-! ## The table -/

/-- Each process has the status that belongs to its place. For the zombies this is a part
of `Marked`. -/
structure Truthful (s : ProcessTable) : Prop where
  running : ∀ r, s.running = some r → (s.info r).status = .Running
  ready : ∀ p ∈ s.ready, (s.info p).status = .Ready
  waiting : ∀ p ∈ s.waiting, (s.info p).status = .Waiting

/-- Statuses and places stay as they are. -/
theorem truthful_congr (h : Truthful s) (hrun : s'.running = s.running)
    (hready : s'.ready = s.ready) (hwaiting : s'.waiting = s.waiting)
    (hst : ∀ p ∈ s.places, (s'.info p).status = (s.info p).status) : Truthful s' := by
  refine ⟨fun r hr => ?_, fun p hp => ?_, fun p hp => ?_⟩
  · rw [hrun] at hr
    rw [hst r (by simp [ProcessTable.places, hr])]
    exact h.running r hr
  · rw [hready] at hp
    rw [hst p (by simp [ProcessTable.places, hp])]
    exact h.ready p hp
  · rw [hwaiting] at hp
    rw [hst p (by simp [ProcessTable.places, hp])]
    exact h.waiting p hp

theorem truthful_wakes (h : Truthful s) (hs : Sound s) (hw : Wakes s u) : Truthful u := by
  induction hw with
  | done s => exact h
  | @wake s u timer rest p as bs htimers hpcb htime hready _ ih =>
    obtain ⟨p', hp, hpcb', _⟩ := hs.timed.asleep timer (by rw [htimers]; exact List.mem_cons_self)
    obtain rfl : p' = p := by
      rw [hpcb, Option.some.injEq] at hpcb'
      exact hpcb'.symm
    have hout := hs.placed.not_mem_of_waiting hp
    refine ih ⟨fun r hr => ?_, fun q hq => ?_, fun q hq => ?_⟩ (sound_ring hs htimers hpcb hready)
    · have hr : s.running = some r := hr
      have hne : r ≠ p' := fun he => hout.1 (he ▸ hr)
      rw [ring_info, if_neg hne]
      exact h.running r hr
    · have hq : q ∈ as ++ p' :: bs := hq
      rw [ring_info]
      split
      · rfl
      · next hne =>
        refine h.ready q ?_
        rw [hready]
        simpa [hne] using hq
    · obtain ⟨hne, hq⟩ := hs.placed.nodup_waiting.mem_erase_iff.mp hq
      rw [ring_info, if_neg hne]
      exact h.waiting q hq

theorem truthful_schedules (h : Truthful s) (hs : Sound s) (hsched : Schedules s s') :
    Truthful s' := by
  cases hsched with
  | alone hw _ => exact truthful_wakes h hs hw
  | @rotate u r n rest hw hr hready =>
    have h := truthful_wakes h hs hw
    have hplaced := (wakes_sound hw hs).placed
    have hrout := hplaced.not_mem_of_running hr
    have hn : n ∈ u.ready := by rw [hready]; exact List.mem_cons_self
    have hrest : ∀ p ∈ rest, p ∈ u.ready ∧ p ≠ n := by
      intro p hp
      have hnd := hplaced.nodup_ready
      rw [hready, List.nodup_cons] at hnd
      exact ⟨by rw [hready]; exact List.mem_cons_of_mem _ hp, fun he => hnd.1 (he ▸ hp)⟩
    have hnr : n ≠ r := fun he => hrout.1 (he ▸ hn)
    have hnw : n ∉ u.waiting := fun hw => (hplaced.not_mem_of_waiting hw).2.1 hn
    have hst : ∀ p, ((u.rotate r n).info p).status =
        if p = n then .Running else if p = r then .Ready else (u.info p).status := by
      intro p
      show (((u.setStatus r .Ready).setStatus n .Running).info p).status = _
      rw [status_setStatus, status_setStatus]
    refine ⟨fun p hp => ?_, fun p hp => ?_, fun p hp => ?_⟩
    · have hp : some n = some p := hp
      rw [hst, if_pos (Option.some.inj hp).symm]
    · have hp : p ∈ u.ready.tail ++ [r] := hp
      rw [hready, List.tail_cons, List.mem_append, List.mem_singleton] at hp
      rcases hp with hp | rfl
      · obtain ⟨hpu, hpn⟩ := hrest p hp
        have hpr : p ≠ r := fun he => hrout.1 (he ▸ hpu)
        rw [hst, if_neg hpn, if_neg hpr]
        exact h.ready p hpu
      · rw [hst, if_neg hnr.symm, if_pos rfl]
    · have hp : p ∈ u.waiting := hp
      have hpn : p ≠ n := fun he => hnw (he ▸ hp)
      have hpr : p ≠ r := fun he => hrout.2.1 (he ▸ hp)
      rw [hst, if_neg hpn, if_neg hpr]
      exact h.waiting p hp

theorem status_died {i parent : Nat} (p : Nat) : (((s.adopt r i).die r parent).info p).status =
    if p = r then .Zombie else (s.info p).status := by
  obtain ⟨sig, hinfo⟩ := @info_died s r i parent p
  rw [hinfo]

theorem truthful_spawn {q : PCB} (h : Truthful s) (hs : Sound s) (hp : ¬ s.live p)
    (hst : q.status = .Ready) : Truthful (s.spawn r p q) := by
  have hself : (s.spawn r p q).info p = q := Function.update_self ..
  have hinfo : ∀ c, s.live c → (s.spawn r p q).info c = s.info c := by
    intro c hc
    have hne : c ≠ p := fun he => hp (he ▸ hc)
    exact Function.update_of_ne hne ..
  refine ⟨fun c hc => ?_, fun c hc => ?_, fun c hc => ?_⟩
  · have hc : s.running = some c := hc
    rw [hinfo c (hs.placed.live_of_running hc)]
    exact h.running c hc
  · rcases List.mem_append.mp hc with hc | hc
    · rw [hinfo c (hs.placed.live_of_ready hc)]
      exact h.ready c hc
    · rw [List.mem_singleton.mp hc, hself]
      exact hst
  · have hc : c ∈ s.waiting := hc
    rw [hinfo c (hs.placed.live_of_waiting hc)]
    exact h.waiting c hc

theorem truthful_restart {q : PCB} (h : Truthful s) (hs : Sound s) (hp : ¬ s.live p)
    (hst : q.status = .Running) : Truthful (s.restart p q) := by
  have hinfo : ∀ c, s.live c → (s.restart p q).info c = s.info c := by
    intro c hc
    have hne : c ≠ p := fun he => hp (he ▸ hc)
    exact Function.update_of_ne hne ..
  refine ⟨fun c hc => ?_, fun c hc => ?_, fun c hc => ?_⟩
  · cases hc
    show (Function.update s.info p q p).status = _
    rw [Function.update_self]
    exact hst
  · have hc : c ∈ s.ready := hc
    rw [hinfo c (hs.placed.live_of_ready hc)]
    exact h.ready c hc
  · have hc : c ∈ s.waiting := hc
    rw [hinfo c (hs.placed.live_of_waiting hc)]
    exact h.waiting c hc

theorem truthful_exitNext {i parent : Nat} {rest : List Nat} (h : Truthful s) (hs : Sound s)
    (hr : s.running = some r) (hready : s.ready = n :: rest) :
    Truthful (((s.adopt r i).die r parent).runNext.setStatus n .Running) := by
  have hrout := hs.placed.not_mem_of_running hr
  have hn : n ∈ s.ready := by rw [hready]; exact List.mem_cons_self
  have hst : ∀ p, ((((s.adopt r i).die r parent).runNext.setStatus n .Running).info p).status =
      if p = n then .Running else if p = r then .Zombie else (s.info p).status := by
    intro p
    rw [status_setStatus]
    split
    · rfl
    · exact status_died p
  refine ⟨fun p hp => ?_, fun p hp => ?_, fun p hp => ?_⟩
  · have hp : s.ready.head? = some p := hp
    rw [hready, List.head?_cons, Option.some.injEq] at hp
    rw [hst, if_pos hp.symm]
  · have hp : p ∈ s.ready.tail := hp
    rw [hready, List.tail_cons] at hp
    have hnd := hs.placed.nodup_ready
    rw [hready, List.nodup_cons] at hnd
    have hpu : p ∈ s.ready := by rw [hready]; exact List.mem_cons_of_mem _ hp
    have hpn : p ≠ n := fun he => hnd.1 (he ▸ hp)
    have hpr : p ≠ r := fun he => hrout.1 (he ▸ hpu)
    rw [hst, if_neg hpn, if_neg hpr]
    exact h.ready p hpu
  · have hp : p ∈ s.waiting := hp
    have hpn : p ≠ n := fun he => (hs.placed.not_mem_of_waiting hp).2.1 (he ▸ hn)
    have hpr : p ≠ r := fun he => hrout.2.1 (he ▸ hp)
    rw [hst, if_neg hpn, if_neg hpr]
    exact h.waiting p hp

theorem truthful_exitReport {i parent : Nat} (h : Truthful s) (hs : Sound s)
    (hr : s.running = some r) (hwaits : WaitsFor s parent r) :
    Truthful (((((s.adopt r i).die r parent).resume parent).unlinkChild parent r).forget r) := by
  have hrout := hs.placed.not_mem_of_running hr
  have hparent := hs.placed.not_mem_of_waiting (hs.marked.waits parent hwaits.1)
  have hst : ∀ p, ((((((s.adopt r i).die r parent).resume parent).unlinkChild parent r).forget
      r).info p).status =
        if p = parent then .Running else if p = r then .Zombie else (s.info p).status := by
    intro p
    show ((((s.adopt r i).die r parent).setStatus parent .Running).info p).status = _
    rw [status_setStatus, status_died]
  refine ⟨fun p hp => ?_, fun p hp => ?_, fun p hp => ?_⟩
  · have hp : some parent = some p := hp
    rw [hst, if_pos (Option.some.inj hp).symm]
  · have hp : p ∈ s.ready := hp
    have hpp : p ≠ parent := fun he => hparent.2.1 (he ▸ hp)
    have hpr : p ≠ r := fun he => hrout.1 (he ▸ hp)
    rw [hst, if_neg hpp, if_neg hpr]
    exact h.ready p hp
  · have hp : p ∈ s.waiting.erase parent := hp
    obtain ⟨hpp, hp⟩ := hs.placed.nodup_waiting.mem_erase_iff.mp hp
    have hpr : p ≠ r := fun he => hrout.2.1 (he ▸ hp)
    rw [hst, if_neg hpp, if_neg hpr]
    exact h.waiting p hp

/-- With nobody ready, the process that sleeps leaves the processor free. -/
theorem truthful_sleep {w : Int} {as bs : List TimerItem} (h : Truthful s) (hs : Sound s)
    (hr : s.running = some r) (hready : s.ready = []) : Truthful (s.sleep r w as bs) := by
  have hrout := hs.placed.not_mem_of_running hr
  have hst : ∀ p, ((s.sleep r w as bs).info p).status =
      if p = r then .Waiting else (s.info p).status := fun p => status_setStatus _
  refine ⟨fun p hp => ?_, fun p hp => ?_, fun p hp => ?_⟩
  · have hp : s.ready.head? = some p := hp
    rw [hready] at hp
    cases hp
  · have hp : p ∈ s.ready.tail := hp
    rw [hready] at hp
    cases hp
  · rw [hst]
    split
    · rfl
    · next hne =>
      rcases List.mem_append.mp hp with hp | hp
      · exact h.waiting p hp
      · exact absurd (List.mem_singleton.mp hp) hne

/-- A call keeps statuses truthful if who waits goes on and nobody is ready when a process
goes to sleep. -/
theorem truthful_handled (h : Truthful s) (hs : Sound s) (hr : s.running = some r)
    (hh : Handled s r num s')
    (hstays : num = DSOS_CALL_WAIT ∨ num = DSOS_CALL_SEMWAIT → s'.running = some r)
    (hsleep : num = DSOS_CALL_SLEEP → s.ready = []) : Truthful s' := by
  -- nobody else runs after a call that does not block
  have hnext : s.ready.head? ≠ some r := fun he =>
    (hs.placed.not_mem_of_running hr).1 (List.mem_of_mem_head? he)
  cases hh with
  | quiet => exact h
  | preempt hsched => exact truthful_schedules h hs hsched
  | spawn _ hp _ _ hst _ => exact truthful_spawn h hs hp hst
  | sleep => exact truthful_sleep h hs hr (hsleep rfl)
  | waitBlock => exact absurd (hstays (.inl rfl)) hnext
  | waitCollect => exact ⟨h.running, h.ready, h.waiting⟩
  | exitNext _ _ _ hready => exact truthful_exitNext h hs hr hready
  | exitReport _ _ hwaits _ => exact truthful_exitReport h hs hr ((waitsFor_died hs hr).mp hwaits)
  | semBlock => exact absurd (hstays (.inr rfl)) hnext
  | @semWake p sem rest hw =>
    -- a process that waits for a semaphore is not marked as waiting
    obtain ⟨p', hp, he, hnum⟩ := hs.awaiting.blocked sem (some p) (by
      rw [hw]
      exact List.mem_cons_self)
    rcases hs.marked.blocked p' hp with ⟨_, hst⟩ | ⟨hwait | hsleep, _⟩
    · exact absurd (h.waiting p' hp) hst
    · rw [hnum] at hwait
      cases hwait
    · rw [hnum] at hsleep
      cases hsleep

theorem truthful_called (h : Truthful s) :
    Truthful (s.modify r fun q => q.called num args) := by
  refine truthful_congr h rfl rfl rfl fun p _ => ?_
  show (Function.update s.info r ((s.info r).called num args) p).status = _
  rw [Function.update_apply]
  split
  · next he => rw [he]; rfl
  · rfl

theorem truthful_step (h : Truthful s) (hs : Sound s) (hstep : Step s a s')
    (hstays : ∀ num args, a = .syscall num args →
      num = DSOS_CALL_WAIT ∨ num = DSOS_CALL_SEMWAIT → s'.running = s.running)
    (hsleep : ∀ args, a = .syscall DSOS_CALL_SLEEP args → s.ready = []) : Truthful s' := by
  cases hstep with
  | refused => exact h
  | @call r num args _ hr hh =>
    refine truthful_handled (truthful_called h) (called_sound hs hr) hr hh (fun hnum => ?_)
      fun he => ?_
    · rw [hstays num args rfl hnum, hr]
    · exact hsleep args (by rw [he])
  | tick _ hsched =>
    exact truthful_schedules (s := { s with time := s.time + 1 })
      ⟨h.running, h.ready, h.waiting⟩ (sound_time hs _) hsched
  | restart _ hp _ _ hst _ => exact truthful_restart h hs hp hst
  | store => exact h

/-! ## The kernel -/

/-- The status of each process in use says where it is. -/
structure StatusesTrue (k : Kernel) : Prop where
  running : ∀ p, Allocated k .pcb p → ((k.pcb p).status = .Running ↔ k.running = some p)
  ready : ∀ p, Allocated k .pcb p → ((k.pcb p).status = .Ready ↔ Linked k .readyList ⟨.pcb, p⟩)
  waiting : ∀ p, Allocated k .pcb p →
    ((k.pcb p).status = .Waiting ↔ Linked k .waitingList ⟨.pcb, p⟩)
  zombie : ∀ p, Allocated k .pcb p → ((k.pcb p).status = .Zombie ↔ Linked k .zombieList ⟨.pcb, p⟩)

/-- The scan of a `wait` by `r` ends at a child that is no zombie, so `r` blocks. -/
def blocksInWait (k : Kernel) (r : Nat) : Bool :=
  match k.awaitedChild (toInt (k.arg r 0)) LOOP_BOUND (k.head (.children r)).first none with
  | .ok (some (_, child)) => (k.pcb child).status ≠ .Zombie
  | _ => false

/-- A `semWait` by `r` finds a semaphore without permits, so `r` blocks. -/
def blocksOnSemaphore (k : Kernel) (r : Nat) : Bool :=
  match k.boundTo .semaphore r (toInt (k.arg r 0)) with
  | .ok (some (_, sem)) => ¬ 0 < (k.semaphore sem).count
  | _ => false

/-- The running process blocks in `wait` or `semWait`, or goes to sleep while another
process is ready. -/
def HandsOver (k : Kernel) : Action → Prop
  | .syscall num args => ∃ r ∈ k.running,
      (num = DSOS_CALL_WAIT ∧ blocksInWait (k.setCall r num args) r = true) ∨
      (num = DSOS_CALL_SEMWAIT ∧ blocksOnSemaphore (k.setCall r num args) r = true) ∨
      (num = DSOS_CALL_SLEEP ∧ (k.head .readyList).first ≠ none)
  | _ => False

instance (k : Kernel) : DecidablePred (HandsOver k)
  | .syscall num args => inferInstanceAs (Decidable (∃ r ∈ k.running,
      (num = DSOS_CALL_WAIT ∧ blocksInWait (k.setCall r num args) r = true) ∨
      (num = DSOS_CALL_SEMWAIT ∧ blocksOnSemaphore (k.setCall r num args) r = true) ∨
      (num = DSOS_CALL_SLEEP ∧ (k.head .readyList).first ≠ none)))
  | .timer => isFalse id
  | .restart => isFalse id
  | .store _ _ => isFalse id
  | .dispatch _ => isFalse id

/-- A process that waits and does not block goes on. -/
theorem running_of_called (h : Called k L r num k' L') (hr : k.running = some r)
    (hnum : num = DSOS_CALL_WAIT ∨ num = DSOS_CALL_SEMWAIT)
    (hwait : num = DSOS_CALL_WAIT → blocksInWait k r = false)
    (hsem : num = DSOS_CALL_SEMWAIT → blocksOnSemaphore k r = false) : k'.running = some r := by
  cases h with
  | refused => exact hr
  | collected _ _ _ _ hcol =>
    rw [hcol.rest]
    exact hr
  | waits hscan hz _ =>
    have hno := hwait rfl
    unfold blocksInWait at hno
    rw [hscan] at hno
    exact absurd (of_decide_eq_false hno) (not_not.mpr hz)
  | semWait h =>
    cases h with
    | refused => exact hr
    | granted => exact hr
    | blocked hb hcount _ _ =>
      have hno := hsem rfl
      unfold blocksOnSemaphore at hno
      rw [hb] at hno
      exact absurd (of_decide_eq_false hno) (not_not.mpr hcount)
  | spawned hnum' _ => rcases hnum' with rfl | rfl <;> exact absurd hnum (by decide)
  | mqUse hnum' _ => rcases hnum' with rfl | rfl | rfl <;> exact absurd hnum (by decide)
  | _ => exact absurd hnum (by decide)

theorem truthful_acted (h : Truthful (view k L)) (hc : Coherent k L) (hact : Acted k L a k' L')
    (hstep : Step (view k L) a (view k' L')) (hguard : ¬ HandsOver k a) :
    Truthful (view k' L') := by
  refine truthful_step h hc.sound hstep ?_ ?_
  · rintro num args rfl hnum
    cases hact with
    | ignored => rfl
    | @called r _ _ _ _ hr hcall =>
      have hrun : k'.running = some r := by
        refine running_of_called hcall hr hnum (fun he => ?_) fun he => ?_
        · exact Bool.eq_false_iff.mpr fun hb => hguard ⟨r, hr, .inl ⟨he, hb⟩⟩
        · exact Bool.eq_false_iff.mpr fun hb => hguard ⟨r, hr, .inr (.inl ⟨he, hb⟩)⟩
      exact hrun.trans hr.symm
  · rintro args rfl
    cases hact with
    | ignored _ hnum => exact absurd hnum (by decide)
    | @called r _ _ _ _ hr _ =>
      have hnone : (k.head .readyList).first = none := by
        by_contra hne
        exact hguard ⟨r, hr, .inr (.inr ⟨rfl, hne⟩)⟩
      rw [hc.tidy.strung.first_eq (l := .readyList) regular_pcb, List.head?_eq_none_iff] at hnone
      show (L .readyList).map Node.idx = []
      rw [hnone]
      rfl

/-- In a consistent table the statuses determine the places. -/
theorem statusesTrue_of_truthful (hc : Coherent k L) (h : Truthful (view k L)) :
    StatusesTrue k := by
  have hs := hc.tidy.strung
  have hplaced := hc.sound.placed
  have hmem : ∀ l, l.nodeKind = .pcb → ∀ p,
      Linked k l ⟨.pcb, p⟩ ↔ p ∈ (L l).map Node.idx := by
    intro l hl p
    have hreg : Regular l.nodeKind := by rw [hl]; exact regular_pcb
    rw [hs.linked_iff hreg, mem_map_idx hs hreg, hl]
  -- each place has one status, and each process in use has a place
  have hplace : ∀ p, Allocated k .pcb p →
      (k.running = some p ∧ (k.pcb p).status = .Running) ∨
      (p ∈ (view k L).ready ∧ (k.pcb p).status = .Ready) ∨
      (p ∈ (view k L).waiting ∧ (k.pcb p).status = .Waiting) ∨
      (p ∈ (view k L).zombie ∧ (k.pcb p).status = .Zombie) := by
    intro p ha
    have hp : p ∈ (view k L).places := (hplaced.mem p).mpr ha
    simp only [ProcessTable.places, List.mem_append, Option.mem_toList] at hp
    rcases hp with ((hp | hp) | hp) | hp
    · exact .inl ⟨hp, h.running p hp⟩
    · exact .inr (.inl ⟨hp, h.ready p hp⟩)
    · exact .inr (.inr (.inl ⟨hp, h.waiting p hp⟩))
    · exact .inr (.inr (.inr ⟨hp, ((hc.sound.marked.dead p).mp hp).2⟩))
  refine ⟨fun p ha => ⟨fun hst => ?_, h.running p⟩, fun p ha => ?_, fun p ha => ?_, fun p ha => ?_⟩
  · rcases hplace p ha with ⟨hr, _⟩ | ⟨_, hst'⟩ | ⟨_, hst'⟩ | ⟨_, hst'⟩
    · exact hr
    all_goals rw [hst] at hst'; cases hst'
  · rw [hmem .readyList rfl]
    refine ⟨fun hst => ?_, h.ready p⟩
    rcases hplace p ha with ⟨_, hst'⟩ | ⟨hp, _⟩ | ⟨_, hst'⟩ | ⟨_, hst'⟩
    · rw [hst] at hst'; cases hst'
    · exact hp
    all_goals rw [hst] at hst'; cases hst'
  · rw [hmem .waitingList rfl]
    refine ⟨fun hst => ?_, h.waiting p⟩
    rcases hplace p ha with ⟨_, hst'⟩ | ⟨_, hst'⟩ | ⟨hp, _⟩ | ⟨_, hst'⟩
    · rw [hst] at hst'; cases hst'
    · rw [hst] at hst'; cases hst'
    · exact hp
    · rw [hst] at hst'; cases hst'
  · rw [hmem .zombieList rfl]
    refine ⟨fun hst => ?_, fun hz => ((hc.sound.marked.dead p).mp hz).2⟩
    exact (hc.sound.marked.dead p).mpr ⟨ha, hst⟩

/-- Statuses are true in every state of a run in which nobody blocks in `wait` or
`semWait` or goes to sleep with others ready. -/
theorem status_tells_place {mem : Int → UInt8} {k₀ k : Kernel} {as : List Action}
    (hstart : Started mem k₀)
    (hrun : Run act (fun k a => Ordinary a ∧ ¬ HandsOver k a) k₀ as k) : StatusesTrue k := by
  have hboot : ∀ mem k, Booted mem k → Truthful (view k noNodes) := by
    intro mem k hb
    rw [booted_view hb]
    refine ⟨fun r hr => ?_, fun p hp => (nomatch hp), fun p hp => (nomatch hp)⟩
    cases hr
    rfl
  obtain ⟨L, hc, h⟩ := run_coherent (I := fun k L => Truthful (view k L)) (fun _ _ ha => ha.1) hboot
    (fun _ _ _ _ _ hc h hguard hact hstep _ => truthful_acted h hc hact hstep hguard.2) hstart hrun
  exact statusesTrue_of_truthful hc h

/-- Two children are created, one of them runs and exits as a zombie. -/
theorem status_tells_place_zombie :
    ∃ k₀ k, Started (fun _ => 0) k₀ ∧
      Run act (fun k a => Ordinary a ∧ ¬ HandsOver k a) k₀
        [.syscall DSOS_CALL_SPAWN [0, 0], .syscall DSOS_CALL_SPAWN [0, 0], .timer,
          .syscall DSOS_CALL_EXIT [7]] k ∧
      k.running = some 2 ∧ (k.head .zombieList).size = 1 ∧ (k.head .readyList).size = 1 ∧
      StatusesTrue k := by
  obtain ⟨k₀, k, hstart, hrun, htest⟩ := exists_run_from_start
    (fun k a => Ordinary a ∧ ¬ HandsOver k a)
    (fun k a => decide (Ordinary a ∧ ¬ HandsOver k a))
    [.syscall DSOS_CALL_SPAWN [0, 0], .syscall DSOS_CALL_SPAWN [0, 0], .timer,
      .syscall DSOS_CALL_EXIT [7]]
    (fun k => k.running = some 2 ∧ (k.head .zombieList).size = 1 ∧ (k.head .readyList).size = 1)
    (fun _ _ h => of_decide_eq_true h) (by decide +kernel)
  obtain ⟨hr, hz, hready⟩ := of_decide_eq_true htest
  exact ⟨k₀, k, hstart, hrun, hr, hz, hready, status_tells_place hstart hrun⟩

/-- Init waits for its child, which runs with the status of a ready process. -/
theorem next_after_wait_is_marked_ready :
    ∃ k₀ k, Started (fun _ => 0) k₀ ∧
      Run act (fun _ a => Ordinary a) k₀
        [.syscall DSOS_CALL_SPAWN [0, 0], .syscall DSOS_CALL_WAIT [0, 0]] k ∧ ¬ StatusesTrue k := by
  obtain ⟨k₀, k, hstart, hrun, htest⟩ := exists_run_from_start (fun _ a => Ordinary a)
    (fun _ a => decide (Ordinary a))
    [.syscall DSOS_CALL_SPAWN [0, 0], .syscall DSOS_CALL_WAIT [0, 0]]
    (fun k => k.running = some 1 ∧ HandedOut (k.pool .pcb) 1 ∧ (k.pcb 1).status = .Ready)
    (fun _ _ h => of_decide_eq_true h) (by decide +kernel)
  obtain ⟨hr, ha, hst⟩ := of_decide_eq_true htest
  refine ⟨k₀, k, hstart, hrun, fun h => ?_⟩
  have hrunning := (h.running 1 ha).mpr hr
  rw [hst] at hrunning
  cases hrunning

end DisastrOS.Process.Statuses
