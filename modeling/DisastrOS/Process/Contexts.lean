import DisastrOS.Process.Kinship

/-!
# Contexts to switch to

`internal_fork` makes no context for its process, which cannot run unless an earlier process has
left one in the block. Only a ready process can be without a context, so a call that gives the
processor up needs one for the first ready process.
-/
namespace DisastrOS.Process.Contexts

open DisastrOS.Machine
open DisastrOS.Machine.Kernel
open DisastrOS.Machine.Runs
open DisastrOS.Lists.Wiring
open DisastrOS.Lists.RegularLists
open DisastrOS.Lists.Boot
open DisastrOS.Pool.Blocks
open DisastrOS.Process.Table
open DisastrOS.Process.Steps
open DisastrOS.Process.View
open DisastrOS.Process.Coherence
open DisastrOS.Process.Kinship
open DisastrOS.Process.Scheduling
open DisastrOS.Process.SystemRuns
open DisastrOS.Process.Transitions
open DisastrOS.MessageQueue.Calls
open DisastrOS.Library.LinkedSequence
open DisastrOS.Library.GuardedRun

variable {s s' u : ProcessTable} {k k' k₀ : Kernel} {L : HeadAddr → List Node} {p r n : Nat}
  {num : Int} {args : List Int} {a : Action} {as : List Action}

/-! ## What a process keeps -/

/-- A process keeps its pid, its stored parent and its context. -/
structure SameOrigin (s s' : ProcessTable) (p : Nat) : Prop where
  pid : (s'.info p).pid = (s.info p).pid
  parent : (s'.info p).parent = (s.info p).parent
  cpuState : (s'.info p).cpuState = (s.info p).cpuState

theorem SameOrigin.refl (s : ProcessTable) (p : Nat) : SameOrigin s s p := ⟨rfl, rfl, rfl⟩

theorem SameOrigin.trans (h : SameOrigin s s' p) (h' : SameOrigin s' u p) : SameOrigin s u p :=
  ⟨h'.pid.trans h.pid, h'.parent.trans h.parent, h'.cpuState.trans h.cpuState⟩

theorem sameOrigin_of_info (h : s'.info p = s.info p) : SameOrigin s s' p :=
  ⟨by rw [h], by rw [h], by rw [h]⟩

theorem SameOrigin.congr (h : SameOrigin s u p) (hinfo : s'.info p = u.info p) :
    SameOrigin s s' p :=
  h.trans (sameOrigin_of_info hinfo)

theorem sameOrigin_setStatus {q : Nat} {st : ProcessStatus} :
    SameOrigin s (s.setStatus q st) p := by
  refine ⟨pid_setStatus st, parent_setStatus st, ?_⟩
  show (Function.update s.info q _ p).cpuState = _
  rw [Function.update_apply]
  split
  · next he => rw [he]
  · rfl

theorem sameOrigin_rescheduled (h : Rescheduled s s') : SameOrigin s s' p :=
  ⟨by rw [h.info p], by rw [h.info p], by rw [h.info p]⟩

theorem sameOrigin_died {i parent : Nat} : SameOrigin s ((s.adopt r i).die r parent) p := by
  obtain ⟨sig, hinfo⟩ := @info_died s r i parent p
  exact ⟨by rw [hinfo], by rw [hinfo], by rw [hinfo]⟩

theorem sameOrigin_called (r : Nat) (num : Int) (args : List Int) :
    SameOrigin s (s.modify r fun q => q.called num args) p := by
  have hself : (s.modify r fun q => q.called num args).info p =
      Function.update s.info r ((s.info r).called num args) p := rfl
  by_cases hpr : p = r
  · subst hpr
    rw [Function.update_self] at hself
    exact ⟨by rw [hself]; rfl, by rw [hself]; rfl, by rw [hself]; rfl⟩
  · rw [Function.update_of_ne hpr] at hself
    exact sameOrigin_of_info hself

theorem sameOrigin_handled (h : Handled s r num s') (hp : s.live p) : SameOrigin s s' p := by
  cases h with
  | quiet => exact .refl s p
  | preempt h => exact sameOrigin_rescheduled (schedules_rescheduled h)
  | @spawn _ c _ _ hc =>
    have hpc : p ≠ c := fun he => hc (he ▸ hp)
    exact sameOrigin_of_info (Function.update_of_ne hpc ..)
  | sleep => exact (sameOrigin_setStatus (q := r)).congr rfl
  | waitBlock => exact (sameOrigin_setStatus (q := r)).congr rfl
  | waitCollect => exact sameOrigin_of_info rfl
  | exitNext =>
    refine SameOrigin.trans ?_ sameOrigin_setStatus
    exact sameOrigin_died.congr rfl
  | exitReport => exact (sameOrigin_died.trans sameOrigin_setStatus).congr rfl
  | semBlock => exact sameOrigin_of_info rfl
  | semWake => exact sameOrigin_of_info rfl

theorem sameOrigin_step (h : Step s a s') (hp : s.live p) : SameOrigin s s' p := by
  cases h with
  | refused => exact .refl s p
  | @call r num args _ _ h =>
    exact (sameOrigin_called r num args).trans
      (sameOrigin_handled h (show (s.modify r _).live p from hp))
  | tick _ h =>
    have htime : SameOrigin s { s with time := s.time + 1 } p := sameOrigin_of_info rfl
    exact htime.trans (sameOrigin_rescheduled (schedules_rescheduled h))
  | @restart c _ _ hc =>
    have hpc : p ≠ c := fun he => hc (he ▸ hp)
    exact sameOrigin_of_info (Function.update_of_ne hpc ..)
  | store => exact .refl s p

/-! ## Who runs next -/

theorem wakes_running (h : Wakes s u) : u.running = s.running := by
  induction h with
  | done => rfl
  | wake _ _ _ _ _ ih => exact ih

/-- Before the first ready process come only those that timers have woken. -/
theorem wakes_first (h : Wakes s u) (hs : Sound s) (hn : u.ready.head? = some n) :
    s.ready.head? = some n ∨ n ∈ s.waiting := by
  induction h with
  | done => exact .inl hn
  | @wake s u timer rest p as bs htimers hpcb _ hready _ ih =>
    rcases ih (sound_ring hs htimers hpcb hready) hn with hfirst | hwaits
    · cases as with
      | nil =>
        obtain ⟨q, hq, hq', _⟩ := hs.timed.asleep timer (htimers ▸ List.mem_cons_self)
        obtain rfl : p = q := Option.some.inj (hpcb.symm.trans hq')
        obtain rfl : p = n := Option.some.inj hfirst
        exact .inr hq
      | cons a as => exact .inl (by rw [hready]; exact hfirst)
    · exact .inr (List.mem_of_mem_erase hwaits)

theorem wakes_keeps (h : Wakes s u) : (∀ p, u.live p ↔ s.live p) ∧ ∀ p ∈ s.ready, p ∈ u.ready := by
  induction h with
  | done => exact ⟨fun _ => Iff.rfl, fun _ hp => hp⟩
  | wake _ _ _ hready _ ih =>
    refine ⟨ih.1, fun q hq => ih.2 q ?_⟩
    rw [hready, List.mem_append] at hq
    exact List.mem_append.mpr (hq.imp_right (List.mem_cons_of_mem _))

/-- After the scheduler the same process runs, or the first ready one, or one that a timer has
woken. -/
theorem schedules_next (hs : Sound s) (hr : s.running = some r) (h : Schedules s s')
    (hp : s'.running = some p) : p = r ∨ s.ready.head? = some p ∨ p ∈ s.waiting := by
  cases h with
  | alone h _ =>
    rw [wakes_running h] at hp
    exact .inl (Option.some.inj (hp.symm.trans hr))
  | rotate h _ hready =>
    obtain rfl : _ = p := Option.some.inj hp
    exact .inr (wakes_first h hs (by rw [hready]; rfl))

/-- The caller runs on, or the first ready process runs. A preemption may also find that a timer
has woken somebody, and an exit the parent that waits for it. -/
theorem handled_next (hs : Sound s) (hr : s.running = some r) (h : Handled s r num s')
    (hp : s'.running = some p) : p = r ∨ s.ready.head? = some p ∨
      p ∈ s.waiting ∧ (num = DSOS_CALL_PREEMPT ∨ num = DSOS_CALL_EXIT) := by
  have hstays : s'.running = s.running → p = r := fun h =>
    Option.some.inj ((hp.symm.trans h).trans hr)
  cases h with
  | quiet => exact .inl (hstays rfl)
  | spawn => exact .inl (hstays rfl)
  | waitCollect => exact .inl (hstays rfl)
  | semWake => exact .inl (hstays rfl)
  | sleep => exact .inr (.inl hp)
  | waitBlock => exact .inr (.inl hp)
  | semBlock => exact .inr (.inl hp)
  | exitNext _ _ _ hready =>
    have hready : s.ready = _ := hready
    have hrun : s.ready.head? = some p := hp
    exact .inr (.inl hrun)
  | exitReport _ _ hwaits _ =>
    obtain rfl : _ = p := Option.some.inj hp
    exact .inr (.inr ⟨(hs.marked.waits _ ((waitsFor_died hs hr).mp hwaits).1), .inr rfl⟩)
  | preempt h =>
    exact (schedules_next hs hr h hp).imp_right fun hnext =>
      hnext.imp_right fun hwaits => ⟨hwaits, .inl rfl⟩

/-! ## Only a ready process can be without a context -/

/-- Who is not ready has a context. -/
def ContextsMade (s : ProcessTable) : Prop :=
  ∀ p, s.live p → p ∉ s.ready → (s.info p).cpuState = true

theorem schedules_ready (h : Schedules s s') (hp : s'.live p) :
    p ∈ s'.ready ∨ s'.running = some p ∨ s.live p ∧ p ∉ s.ready := by
  cases h with
  | alone h _ =>
    by_cases hready : p ∈ s.ready
    · exact .inl ((wakes_keeps h).2 p hready)
    · exact .inr (.inr ⟨((wakes_keeps h).1 p).mp hp, hready⟩)
  | @rotate u r n rest h _ hu =>
    by_cases hready : p ∈ s.ready
    · have hm := (wakes_keeps h).2 p hready
      rw [hu, List.mem_cons] at hm
      rcases hm with rfl | hm
      · exact .inr (.inl rfl)
      · refine .inl (List.mem_append_left _ ?_)
        rw [hu]
        exact hm
    · exact .inr (.inr ⟨((wakes_keeps h).1 p).mp hp, hready⟩)

/-- A process that is no longer ready runs, and a new one is ready. -/
theorem handled_ready (h : Handled s r num s') (hp : s'.live p) :
    p ∈ s'.ready ∨ s'.running = some p ∨ s.live p ∧ p ∉ s.ready := by
  have hkept : (p ∈ s.ready → p ∈ s'.ready) → (s'.live p → s.live p) →
      p ∈ s'.ready ∨ s'.running = some p ∨ s.live p ∧ p ∉ s.ready := fun hready hlive =>
    (em (p ∈ s.ready)).imp hready fun hno => .inr ⟨hlive hp, hno⟩
  have hnext : s'.running = s.ready.head? → s'.ready = s.ready.tail → (s'.live p → s.live p) →
      p ∈ s'.ready ∨ s'.running = some p ∨ s.live p ∧ p ∉ s.ready := by
    intro hrun hready hlive
    rw [hrun, hready]
    cases hs : s.ready with
    | nil => exact .inr (.inr ⟨hlive hp, List.not_mem_nil⟩)
    | cons n rest =>
      by_cases hm : p ∈ n :: rest
      · rcases List.mem_cons.mp hm with rfl | hm
        · exact .inr (.inl rfl)
        · exact .inl hm
      · exact .inr (.inr ⟨hlive hp, hm⟩)
  cases h with
  | quiet => exact hkept id id
  | preempt h => exact schedules_ready h hp
  | @spawn _ c =>
    rcases hp with rfl | hp
    · exact .inl (List.mem_append_right _ List.mem_cons_self)
    · exact hkept (List.mem_append_left _) fun _ => hp
  | sleep => exact hnext rfl rfl id
  | waitBlock => exact hnext rfl rfl id
  | semBlock => exact hnext rfl rfl id
  | exitNext => exact hnext rfl rfl id
  | waitCollect => exact hkept id And.right
  | exitReport => exact hkept id And.right
  | semWake => exact hkept (List.mem_append_left _) id

/-- Who leaves the ready list runs, so there has been a switch to it. -/
theorem contexts_of_resumable (hs : Sound s) (hr : s.running = some r) (hctx : ContextsMade s)
    (hnext : Resumable r s') (horigin : ∀ p, s.live p → SameOrigin s s' p)
    (hready : ∀ p, s'.live p → p ∈ s'.ready ∨ s'.running = some p ∨ s.live p ∧ p ∉ s.ready) :
    ContextsMade s' := by
  intro p hp hno
  have hold : s.live p → p ∉ s.ready → (s'.info p).cpuState = true := by
    intro hl hout
    rw [(horigin p hl).cpuState]
    exact hctx p hl hout
  rcases hready p hp with hm | hrun | ⟨hl, hout⟩
  · exact absurd hm hno
  · rcases hnext p hrun with rfl | hcontext
    · exact hold (hs.placed.live_of_running hr) (hs.placed.not_mem_of_running hr).1
    · exact hcontext
  · exact hold hl hout

theorem contexts_step (hctx : ContextsMade s) (hs : Sound s) (h : Step s a s') :
    ContextsMade s' := by
  cases h with
  | refused => exact hctx
  | store => exact hctx
  | @restart c q _ _ _ _ _ _ hcontext =>
    intro p hp hno
    show (Function.update s.info c q p).cpuState = true
    rw [Function.update_apply]
    split
    · exact hcontext
    · next hne => exact hctx p (hp.resolve_left hne) hno
  | tick hr h hnext =>
    have hs' : Sound { s with time := s.time + 1 } := sound_time hs _
    exact contexts_of_resumable hs' hr hctx hnext
      (fun p _ => sameOrigin_rescheduled (schedules_rescheduled h)) fun p => schedules_ready h
  | @call r num args _ hr h hnext =>
    have hs' : Sound (s.modify r fun q => q.called num args) := called_sound hs hr
    refine contexts_of_resumable hs' hr (fun p hp hno => ?_) hnext
      (fun p => sameOrigin_handled h) fun p => handled_ready h
    rw [(sameOrigin_called r num args).cpuState]
    exact hctx p hp hno

/-- A kernel is the model of one process table. -/
theorem view_unique {L' : HeadAddr → List Node} (hc : Coherent k L) (hc' : Coherent k L') :
    view k L = view k L' := by
  have hsame : ∀ l, Regular l.nodeKind → L l = L' l := fun l hl =>
    represents_unique (hc.tidy.strung.holds hl) (hc'.tidy.strung.holds hl)
  have hchildren : ∀ q, L (.children q) = L' (.children q) := fun q => hsame _ (regular_children q)
  have hwaiters : ∀ sem, L (.waitingDescriptors sem) = L' (.waitingDescriptors sem) := fun sem =>
    hsame _ (regular_waitingDescriptors sem)
  have hready := hsame .readyList regular_pcb
  have hwaiting := hsame .waitingList regular_pcb
  have hzombie := hsame .zombieList regular_pcb
  have htimers := hsame .timerList (by decide : Regular .timerItem)
  simp only [view, hready, hwaiting, hzombie, htimers, hchildren, hwaiters]

/-- In every state that can be reached, whoever is not ready has a context. -/
theorem reachable_contexts {mem : Int → UInt8} (hs : Started mem k₀)
    (h : Run act (fun _ a => Ordinary a) k₀ as k) (hc : Coherent k L) :
    ContextsMade (view k L) := by
  obtain ⟨L', hc', hctx⟩ : ∃ L', Coherent k L' ∧ ContextsMade (view k L') := by
    refine run_table (fun _ _ ha => ha) (fun mem k hb => ?_)
      (fun _ _ _ _ hc hctx _ hstep _ => contexts_step hctx hc.sound hstep) hs h
    rw [booted_view hb]
    intro p hp _
    obtain rfl : p = 0 := hp
    rfl
  rwa [view_unique hc hc']

theorem contexts_act (hc : Coherent k L) (hctx : ContextsMade (view k L)) (ha : Ordinary a)
    (h : act k a = .ok k') : ∃ L', Coherent k' L' ∧ ContextsMade (view k' L') := by
  obtain ⟨L', -, hc', hstep⟩ := act_done hc ha h
  exact ⟨L', hc', contexts_step hctx hc.sound hstep⟩

/-! ## Calls that give the processor up -/

/-- The first ready process has a context. -/
def NextHasContext (k : Kernel) : Prop :=
  ∀ x ∈ (k.head .readyList).first, (k.pcb x.idx).cpuState = true

instance : Decidable (NextHasContext k) :=
  inferInstanceAs (Decidable (∀ x ∈ (k.head .readyList).first, (k.pcb x.idx).cpuState = true))

/-- There is a process to run next. -/
def HasNext (k : Kernel) : Prop := (k.head .readyList).first ≠ none ∧ NextHasContext k

instance : Decidable (HasNext k) :=
  inferInstanceAs (Decidable ((k.head .readyList).first ≠ none ∧ NextHasContext k))

theorem nextHasContext_iff (hc : Coherent k L) : NextHasContext k ↔
    ∀ p, (view k L).ready.head? = some p → ((view k L).info p).cpuState = true := by
  have hhead : (view k L).ready.head? = (k.head .readyList).first.map Node.idx := by
    rw [hc.tidy.strung.first_eq (l := .readyList) regular_pcb]
    exact List.head?_map
  unfold NextHasContext
  rw [hhead]
  cases (k.head .readyList).first with
  | none => exact ⟨fun _ => nofun, fun _ => nofun⟩
  | some x =>
    refine ⟨fun h p hp => ?_, fun h y hy => ?_⟩
    · obtain rfl : x.idx = p := Option.some.inj hp
      exact h x rfl
    · obtain rfl : x = y := Option.some.inj hy
      exact h x.idx rfl

/-- Who runs behind a handler is the caller, or has a context if the first ready process has. -/
theorem context_of_handler {f : Kernel → Except Fault Kernel} (hc : Coherent k L)
    (hctx : ContextsMade (view k L)) (hv : syscallVector num = some f) (hr : k.running = some r)
    (hcall : f (k.setCall r num args) = .ok k')
    (hnext : k'.running = (view k L).ready.head? → NextHasContext k) (hp : k'.running = some p) :
    p = r ∨ (k'.pcb p).cpuState = true := by
  have hc₁ : Coherent (k.setCall r num args) L := coherent_setCall hc hr
  obtain ⟨L', _, _, _, hhandled⟩ := handler_done hc₁ hr hv hcall
  have hkept : ∀ p, Allocated k .pcb p → ((view k L).info p).cpuState = true →
      (k'.pcb p).cpuState = true := by
    intro p hl hcontext
    have hsame := (sameOrigin_handled (p := p) hhandled hl).cpuState
    rw [view_setCall, (sameOrigin_called r num args).cpuState] at hsame
    exact hsame.trans hcontext
  rcases handled_next hc₁.sound hr hhandled hp with he | hfirst | ⟨hwaits, _⟩
  · exact .inl he
  · have hm : p ∈ (view k L).ready := List.mem_of_head? hfirst
    have hcontext := (nextHasContext_iff hc).mp (hnext (hp.trans hfirst.symm)) p hfirst
    exact .inr (hkept p (hc.sound.placed.live_of_ready hm) hcontext)
  · have hout := (hc.sound.placed.not_mem_of_waiting hwaits).2.1
    have hl := hc.sound.placed.live_of_waiting hwaits
    exact .inr (hkept p hl (hctx p hl hout))

/-- With a context for the first ready process every call completes whose handler does. -/
theorem syscall_switches {f : Kernel → Except Fault Kernel} (hc : Coherent k L)
    (hctx : ContextsMade (view k L)) (hnext : NextHasContext k) (hv : syscallVector num = some f)
    (h0 : 0 ≤ num) (hlt : num < DSOS_MAX_SYSCALLS) (hr : k.running = some r)
    (hcall : f (k.setCall r num args) = .ok k') : k.disastrOSSyscall num args = .ok k' :=
  (syscall_iff args hv h0 hlt hr).mpr
    ⟨hcall, fun _ => context_of_handler hc hctx hv hr hcall fun _ => hnext⟩

/-- A call that has passed the processor on to the first ready process has found a context. -/
theorem nextHasContext_of_syscall {f : Kernel → Except Fault Kernel} (hc : Coherent k L)
    (hv : syscallVector num = some f) (h0 : 0 ≤ num) (hlt : num < DSOS_MAX_SYSCALLS)
    (hr : k.running = some r) (h : k.disastrOSSyscall num args = .ok k')
    (hrun : k'.running = (view k L).ready.head?) : NextHasContext k := by
  obtain ⟨hcall, hswitch⟩ := (syscall_iff args hv h0 hlt hr).mp h
  obtain ⟨L', _, _, _, hhandled⟩ := handler_done (coherent_setCall hc hr) hr hv hcall
  refine (nextHasContext_iff hc).mpr fun p hp => ?_
  have hm : p ∈ (view k L).ready := List.mem_of_head? hp
  have hpr : p ≠ r := fun he => (hc.sound.placed.not_mem_of_running hr).1 (he ▸ hm)
  have hsame := (sameOrigin_handled (p := p) hhandled (hc.sound.placed.live_of_ready hm)).cpuState
  rw [view_setCall, (sameOrigin_called r num args).cpuState] at hsame
  exact hsame.symm.trans ((hswitch p (hrun.trans hp)).resolve_left hpr)

end DisastrOS.Process.Contexts
