import DisastrOS.Process.Kinship

/-!
# Who is taken out of the waiting list

A process that waits keeps its registers. One that has called `wait` leaves the waiting
list only when a child exits that it waits for.
-/
namespace DisastrOS.Process.Resumption

open DisastrOS.Machine
open DisastrOS.Machine.Kernel
open DisastrOS.Lists.Wiring
open DisastrOS.Lists.RegularLists
open DisastrOS.Process.Table
open DisastrOS.Process.Steps
open DisastrOS.Process.View
open DisastrOS.Process.Kinship

variable {s s' u : ProcessTable} {p r n : Nat} {num : Int} {a : Action}

/-! ## Registers -/

/-- A process whose call and arguments are as before. -/
def SameCall (s s' : ProcessTable) (p : Nat) : Prop :=
  (s'.info p).syscallNum = (s.info p).syscallNum ∧
    (s'.info p).syscallArgs = (s.info p).syscallArgs

theorem sameCall_rescheduled (h : Rescheduled s s') : SameCall s s' p := by
  unfold SameCall
  rw [h.info p]
  exact ⟨rfl, rfl⟩

theorem sameCall_died {i parent : Nat} : SameCall s ((s.adopt r i).die r parent) p := by
  obtain ⟨sig, hinfo⟩ := @info_died s r i parent p
  unfold SameCall
  rw [hinfo]
  exact ⟨rfl, rfl⟩

theorem sameCall_setStatus {q : Nat} (st : ProcessStatus) (h : SameCall s s' p) :
    SameCall s (s'.setStatus q st) p :=
  ⟨(syscallNum_setStatus st).trans h.1, (syscallArgs_setStatus st).trans h.2⟩

/-- A handler changes the registers of no other process. -/
theorem sameCall_handled (h : Handled s r num s') (hp : s.live p) : SameCall s s' p := by
  cases h with
  | quiet => exact ⟨rfl, rfl⟩
  | preempt h => exact sameCall_rescheduled (schedules_rescheduled h)
  | @spawn _ c q _ hc _ _ _ _ =>
    have hpc : p ≠ c := fun he => hc (he ▸ hp)
    have hinfo : (s.spawn r c q).info p = s.info p := Function.update_of_ne hpc ..
    unfold SameCall
    rw [hinfo]
    exact ⟨rfl, rfl⟩
  | sleep => exact sameCall_setStatus (s := s) .Waiting ⟨rfl, rfl⟩
  | waitBlock => exact sameCall_setStatus (s := s) .Waiting ⟨rfl, rfl⟩
  | waitCollect => exact ⟨rfl, rfl⟩
  | exitNext => exact sameCall_setStatus .Running sameCall_died
  | exitReport => exact sameCall_setStatus .Running sameCall_died
  | semBlock => exact ⟨rfl, rfl⟩
  | semWake => exact ⟨rfl, rfl⟩

/-- Only the running process changes its registers. -/
theorem sameCall_step (h : Step s a s') (hp : s.live p) (hr : s.running ≠ some p) :
    SameCall s s' p := by
  cases h with
  | refused => exact ⟨rfl, rfl⟩
  | @call r num args _ hrun h =>
    have hne : p ≠ r := fun he => hr (he ▸ hrun)
    obtain ⟨hnum, hargs⟩ := sameCall_handled h (show (s.modify r _).live p from hp)
    have hinfo : (s.modify r fun q => q.called num args).info p = s.info p :=
      Function.update_of_ne hne ..
    rw [hinfo] at hnum hargs
    exact ⟨hnum, hargs⟩
  | tick _ h =>
    exact sameCall_rescheduled (s := { s with time := s.time + 1 }) (schedules_rescheduled h)
  | @restart c q _ hc =>
    have hinfo : (s.restart c q).info p = s.info p :=
      Function.update_of_ne (fun he : p = c => hc (he ▸ hp)) ..
    unfold SameCall
    rw [hinfo]
    exact ⟨rfl, rfl⟩
  | store => exact ⟨rfl, rfl⟩

/-! ## The waiting list -/

/-- Timers wake processes that sleep. -/
theorem waiting_wakes (h : Wakes s u) (hs : Sound s) (hp : p ∈ s.waiting)
    (hnum : (s.info p).syscallNum ≠ DSOS_CALL_SLEEP) : p ∈ u.waiting := by
  induction h with
  | done => exact hp
  | @wake s u timer rest q as bs htimers hpcb _ hready _ ih =>
    obtain ⟨q', _, hpcb', hsleep⟩ :=
      hs.timed.asleep timer (by rw [htimers]; exact List.mem_cons_self)
    obtain rfl : q' = q := by
      rw [hpcb, Option.some.injEq] at hpcb'
      exact hpcb'.symm
    have hne : p ≠ q' := fun he => hnum (he ▸ hsleep)
    refine ih (sound_ring hs htimers hpcb hready)
      (hs.placed.nodup_waiting.mem_erase_iff.mpr ⟨hne, hp⟩) ?_
    rw [ring_info, if_neg hne]
    exact hnum

theorem waiting_schedules (h : Schedules s s') (hs : Sound s) (hp : p ∈ s.waiting)
    (hnum : (s.info p).syscallNum ≠ DSOS_CALL_SLEEP) : p ∈ s'.waiting := by
  cases h with
  | alone h _ => exact waiting_wakes h hs hp hnum
  | @rotate u r n rest h _ _ =>
    show p ∈ u.waiting
    exact waiting_wakes h hs hp hnum

/-- A process that waits for a child stays where it is, or its child `r` has died. -/
theorem waiting_handled (h : Handled s r num s') (hs : Sound s) (hr : s.running = some r)
    (hp : p ∈ s.waiting) (hnum : (s.info p).syscallNum = DSOS_CALL_WAIT) :
    p ∈ s'.waiting ∨ (num = DSOS_CALL_EXIT ∧ (s.info r).parent = some p ∧ WaitsFor s p r ∧
      ∃ i, s.init = some i ∧ some r ∈ (s.adopt r i).children p) := by
  have hsleep : (s.info p).syscallNum ≠ DSOS_CALL_SLEEP := by rw [hnum]; decide
  cases h with
  | quiet => exact .inl hp
  | preempt h => exact .inl (waiting_schedules h hs hp hsleep)
  | spawn => exact .inl hp
  | sleep => exact .inl (List.mem_append_left _ hp)
  | waitBlock => exact .inl (List.mem_append_left _ hp)
  | waitCollect => exact .inl hp
  | exitNext => exact .inl hp
  | @exitReport i parent hi hparent hwaits hc =>
    by_cases hpp : p = parent
    · subst hpp
      exact .inr ⟨rfl, hparent, (waitsFor_died hs hr).mp hwaits, i, hi, hc⟩
    · exact .inl (hs.placed.nodup_waiting.mem_erase_iff.mpr ⟨hpp, hp⟩)
  | semBlock => exact .inl (List.mem_append_left _ hp)
  | @semWake q sem rest hw =>
    obtain ⟨q', _, he, hsem⟩ := hs.awaiting.blocked sem (some q) (by rw [hw]; exact List.mem_cons_self)
    cases he
    have hne : p ≠ q := by
      rintro rfl
      rw [hnum] at hsem
      cases hsem
    exact .inl (hs.placed.nodup_waiting.mem_erase_iff.mpr ⟨hne, hp⟩)

/-- Without the scheduler a process that sleeps stays where it is, and so does each timer. -/
theorem sleeping_handled {i : TimerItem} (h : Handled s r num s') (hs : Sound s)
    (hr : s.running = some r) (hp : p ∈ s.waiting)
    (hnum : (s.info p).syscallNum = DSOS_CALL_SLEEP) (hi : i ∈ s.timers)
    (hno : num ≠ DSOS_CALL_PREEMPT) : p ∈ s'.waiting ∧ i ∈ s'.timers := by
  cases h with
  | quiet => exact ⟨hp, hi⟩
  | preempt => exact absurd rfl hno
  | spawn => exact ⟨hp, hi⟩
  | @sleep w as bs _ htimers _ _ =>
    rw [htimers] at hi
    refine ⟨List.mem_append_left _ hp, ?_⟩
    show i ∈ as ++ ⟨w, some r⟩ :: bs
    rcases List.mem_append.mp hi with hi | hi
    · exact List.mem_append_left _ hi
    · exact List.mem_append_right _ (List.mem_cons_of_mem _ hi)
  | waitBlock => exact ⟨List.mem_append_left _ hp, hi⟩
  | waitCollect => exact ⟨hp, hi⟩
  | exitNext => exact ⟨hp, hi⟩
  | @exitReport _ parent _ _ hwaits _ =>
    have hne : p ≠ parent := by
      rintro rfl
      have hcall := ((waitsFor_died hs hr).mp hwaits).2.1
      rw [hnum] at hcall
      cases hcall
    exact ⟨hs.placed.nodup_waiting.mem_erase_iff.mpr ⟨hne, hp⟩, hi⟩
  | semBlock => exact ⟨List.mem_append_left _ hp, hi⟩
  | @semWake q sem rest hw =>
    obtain ⟨q', _, he, hsem⟩ :=
      hs.awaiting.blocked sem (some q) (by rw [hw]; exact List.mem_cons_self)
    cases he
    have hne : p ≠ q := by
      rintro rfl
      rw [hnum] at hsem
      cases hsem
    exact ⟨hs.placed.nodup_waiting.mem_erase_iff.mpr ⟨hne, hp⟩, hi⟩

/-! ## Who enters the waiting list -/

theorem waiting_of_wakes (h : Wakes s u) (hp : p ∈ u.waiting) : p ∈ s.waiting := by
  induction h with
  | done => exact hp
  | wake _ _ _ _ _ ih => exact List.mem_of_mem_erase (ih hp)

theorem waiting_of_schedules (h : Schedules s s') (hp : p ∈ s'.waiting) : p ∈ s.waiting := by
  cases h with
  | alone h _ => exact waiting_of_wakes h hp
  | rotate h _ _ => exact waiting_of_wakes h hp

theorem waiting_of_handled (h : Handled s r num s') (hp : p ∈ s'.waiting) :
    p ∈ s.waiting ∨ p = r := by
  have happend : p ∈ s.waiting ++ [r] → p ∈ s.waiting ∨ p = r := fun hp =>
    (List.mem_append.mp hp).imp_right List.mem_singleton.mp
  cases h with
  | quiet => exact .inl hp
  | preempt h => exact .inl (waiting_of_schedules h hp)
  | spawn => exact .inl hp
  | sleep => exact happend hp
  | waitBlock => exact happend hp
  | waitCollect => exact .inl hp
  | exitNext => exact .inl hp
  | exitReport => exact .inl (List.mem_of_mem_erase hp)
  | semBlock => exact happend hp
  | semWake => exact .inl (List.mem_of_mem_erase hp)

/-- Only a process that has made a call enters the waiting list. -/
theorem waiting_of_step (h : Step s a s') (hs : Sound s) (hp : p ∈ s'.waiting) :
    p ∈ s.waiting ∨ s.running = some p ∧ ∃ args, a = .syscall (s'.info p).syscallNum args := by
  cases h with
  | refused => exact .inl hp
  | @call r num args _ hr h =>
    rcases waiting_of_handled h hp with hp | rfl
    · exact .inl hp
    · have hlive : (s.modify p fun q => q.called num args).live p :=
        hs.placed.live_of_running hr
      have hnum := (sameCall_handled h hlive).1
      refine .inr ⟨hr, args, ?_⟩
      rw [hnum]
      show _ = Action.syscall ((Function.update s.info p _ p).syscallNum) args
      rw [Function.update_self]
      rfl
  | tick _ h => exact .inl (waiting_of_schedules (s := { s with time := s.time + 1 }) h hp)
  | restart => exact .inl hp
  | store => exact .inl hp

/-! ## Nobody is its own child -/

/-- No process is in its own list of children. -/
def NotOwnChild (s : ProcessTable) : Prop := ∀ p, some p ∉ s.children p

theorem notOwnChild_congr (h : NotOwnChild s) (hc : ∀ q o, o ∈ s'.children q → o ∈ s.children q) :
    NotOwnChild s' :=
  fun p hm => h p (hc p _ hm)

theorem notOwnChild_spawn {q : PCB} (h : NotOwnChild s) (hpr : p ≠ r) :
    NotOwnChild (s.spawn r p q) := by
  intro c hm
  have hm : some c ∈ Function.update (Function.update s.children p []) r
      (s.children r ++ [some p]) c := hm
  rw [Function.update_apply] at hm
  split at hm
  · next he =>
    subst he
    rcases List.mem_append.mp hm with hm | hm
    · exact h c hm
    · rw [List.mem_singleton, Option.some.injEq] at hm
      exact hpr hm.symm
  · rw [Function.update_apply] at hm
    split at hm
    · cases hm
    · exact h c hm

theorem notOwnChild_adopt {i : Nat} (h : NotOwnChild s) (hs : Sound s) (hi : s.init = some i) :
    NotOwnChild (s.adopt r i) := by
  intro c hm
  have hm : some c ∈ Function.update (Function.update s.children r []) i
      (s.children i ++ s.children r) c := hm
  rw [Function.update_apply] at hm
  split at hm
  · next he =>
    subst he
    rcases List.mem_append.mp hm with hm | hm
    · exact h c hm
    · -- init is nobody's child
      obtain ⟨p, he, _, hne, _⟩ := hs.family.child r _ hm
      obtain ⟨j, hj, _, hnone⟩ := hs.family.init
      cases he
      cases hi.symm.trans hj
      exact hne hnone
  · rw [Function.update_apply] at hm
    split at hm
    · cases hm
    · exact h c hm

theorem mem_unlinkChild {q c : Nat} {o : Option Nat} (h : o ∈ (s.unlinkChild r c).children q) :
    o ∈ s.children q := by
  have h : o ∈ Function.update s.children r ((s.children r).erase (some c)) q := h
  rw [Function.update_apply] at h
  split at h
  · next he =>
    rw [he]
    exact List.mem_of_mem_erase h
  · exact h

theorem notOwnChild_handled (h : NotOwnChild s) (hs : Sound s) (hr : s.running = some r)
    (hh : Handled s r num s') : NotOwnChild s' := by
  cases hh with
  | quiet => exact h
  | preempt hsched =>
    refine notOwnChild_congr h fun q o ho => ?_
    rwa [(schedules_rescheduled hsched).rest] at ho
  | spawn _ hp =>
    exact notOwnChild_spawn h fun he => hp (he ▸ hs.placed.live_of_running hr)
  | sleep => exact h
  | waitBlock => exact h
  | waitCollect => exact notOwnChild_congr h fun _ _ ho => mem_unlinkChild ho
  | exitNext hi => exact notOwnChild_adopt h hs hi
  | @exitReport i parent hi _ _ _ =>
    exact notOwnChild_congr (notOwnChild_adopt (r := r) h hs hi) fun _ _ ho => mem_unlinkChild ho
  | semBlock => exact h
  | semWake => exact h

theorem notOwnChild_step (h : NotOwnChild s) (hs : Sound s) (hstep : Step s a s') :
    NotOwnChild s' := by
  cases hstep with
  | refused => exact h
  | call hr hh => exact notOwnChild_handled (s := s.modify _ _) h (called_sound hs hr) hr hh
  | tick _ hsched =>
    refine notOwnChild_congr h fun q o ho => ?_
    rwa [(schedules_rescheduled hsched).rest] at ho
  | @restart p =>
    refine notOwnChild_congr h fun c o ho => ?_
    have ho : o ∈ Function.update s.children p [] c := ho
    rw [Function.update_apply] at ho
    split at ho
    · cases ho
    · exact ho
  | store => exact h

/-- The child that has died was a child before its own children were handed over. -/
theorem mem_of_adopted {i : Nat} (h : NotOwnChild s) (hm : some r ∈ (s.adopt r i).children p) :
    some r ∈ s.children p := by
  have hm : some r ∈ Function.update (Function.update s.children r []) i
      (s.children i ++ s.children r) p := hm
  rw [Function.update_apply] at hm
  split at hm
  · next he =>
    subst he
    exact (List.mem_append.mp hm).resolve_right (h r)
  · rw [Function.update_apply] at hm
    split at hm
    · cases hm
    · exact hm

/-- Who waits for a child and leaves the waiting list has been told by a child that exits. -/
theorem waiting_step (hs : Sound s) (hown : NotOwnChild s) (hstep : Step s a s')
    (hp : p ∈ s.waiting) (hnum : (s.info p).syscallNum = DSOS_CALL_WAIT) :
    p ∈ s'.waiting ∨ ∃ c args, a = .syscall DSOS_CALL_EXIT args ∧ s.running = some c ∧
      WaitsFor s p c ∧ some c ∈ s.children p := by
  cases hstep with
  | refused => exact .inl hp
  | @call r num args _ hr h =>
    have hpr : p ≠ r := by
      rintro rfl
      exact (hs.placed.not_mem_of_running hr).2.1 hp
    have hinfo : (s.modify r fun q => q.called num args).info p = s.info p :=
      Function.update_of_ne hpr ..
    have hown : NotOwnChild (s.modify r fun q => q.called num args) := hown
    rcases waiting_handled h (called_sound hs hr) hr hp (by rw [hinfo]; exact hnum) with hw |
      ⟨rfl, _, hwaits, i, _, hc⟩
    · exact .inl hw
    · refine .inr ⟨r, args, rfl, hr, ?_, mem_of_adopted hown hc⟩
      have hpid : ((s.modify r fun q => q.called DSOS_CALL_EXIT args).info r).pid =
          (s.info r).pid := by
        show (Function.update s.info r _ r).pid = _
        rw [Function.update_self]
        rfl
      unfold WaitsFor at hwaits ⊢
      rwa [hinfo, hpid] at hwaits
  | tick _ h =>
    refine .inl (waiting_schedules h (sound_time hs _) hp ?_)
    show (s.info p).syscallNum ≠ _
    rw [hnum]
    decide
  | restart => exact .inl hp
  | store => exact .inl hp

/-! ## The kernel -/

/-- The process is in the waiting list. -/
def Blocked (k : Kernel) (p : Nat) : Prop := Linked k .waitingList ⟨.pcb, p⟩

theorem blocked_iff {k : Kernel} {L : HeadAddr → List Node} (hs : Strung Regular Retained k L) :
    Blocked k p ↔ p ∈ (view k L).waiting :=
  (hs.linked_iff (l := .waitingList) regular_pcb).trans
    (mem_map_idx hs (l := .waitingList) regular_pcb).symm

end DisastrOS.Process.Resumption
