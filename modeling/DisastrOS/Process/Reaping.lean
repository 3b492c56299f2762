import DisastrOS.Process.ExitWait
import DisastrOS.Process.Wakeups

/-!
# Every process is collected once

What the callers learn of processes: the pids that `spawn` and `fork` return, and those that
`wait` returns, at once or when the child exits. No pid is given twice, none is collected
twice, and a process that has not been collected is still there. The first processes, which
`disastrOS_start` makes, are not among them.
-/
namespace DisastrOS.Process.Reaping

open DisastrOS.Machine
open DisastrOS.Machine.Kernel
open DisastrOS.Machine.Runs
open DisastrOS.Lists.Boot
open DisastrOS.Lists.Wiring
open DisastrOS.Pool.Blocks
open DisastrOS.Process.Table
open DisastrOS.Process.Steps
open DisastrOS.Process.View
open DisastrOS.Process.Coherence
open DisastrOS.Process.Contexts
open DisastrOS.Process.Creation
open DisastrOS.Process.Scheduling
open DisastrOS.Process.Spawning
open DisastrOS.Process.Wakeups
open DisastrOS.Process.Waiting
open DisastrOS.Process.Exit
open DisastrOS.Process.ExitWait
open DisastrOS.Process.Kinship
open DisastrOS.Process.Transitions
open DisastrOS.Process.SystemRuns
open DisastrOS.MessageQueue.Calls
open DisastrOS.Library.GuardedRun
open DisastrOS.Library.Outcome

variable {mem : Int → UInt8} {k k' k₀ : Kernel} {L L' : HeadAddr → List Node} {r p c ptr : Nat}
  {num : Int} {args : List Int} {a : Action} {as : List Action} {h : List Event}

/-! ## Events -/

/-- What a caller learns of a process. -/
inductive Event where
  | created (pid : Int)
  | collected (pid : Int)
  deriving DecidableEq

/-- The events of an action: the value returned by `spawn` or `fork`, the value returned by a
`wait` that does not block and finds somebody, and the value with which an exit ends the wait
of the process that runs next. -/
def watch (k : Kernel) (a : Action) (k' : Kernel) : List Event :=
  match a, k.running with
  | .syscall num _, some r =>
    if num = DSOS_CALL_SPAWN ∨ num = DSOS_CALL_FORK then [.created (k'.pcb r).syscallRetvalue]
    else if num = DSOS_CALL_WAIT then
      if k'.running = some r ∧ 0 ≤ (k'.pcb r).syscallRetvalue then
        [.collected (k'.pcb r).syscallRetvalue]
      else []
    else if num = DSOS_CALL_EXIT then
      match k'.running with
      | some p => if (k.pcb p).status = .Waiting then [.collected (k'.pcb p).syscallRetvalue] else []
      | none => []
    else []
  | _, _ => []

/-- A process that another one has created has the pid `x`. -/
def Alive (k : Kernel) (x : Int) : Prop :=
  ∃ p, Allocated k .pcb p ∧ (k.pcb p).parent ≠ none ∧ (k.pcb p).pid = x

/-- What has been learned accounts for the processes there are. -/
structure Census (k : Kernel) (h : List Event) : Prop where
  nodup : h.Nodup
  below : ∀ x, .created x ∈ h → x < k.lastPid
  known : ∀ x, .created x ∈ h ↔ .collected x ∈ h ∨ Alive k x
  gone : ∀ x, .collected x ∈ h → ∀ p, Allocated k .pcb p → (k.pcb p).pid ≠ x

/-! ## What an action does to the census -/

/-- The same processes are there. -/
structure SameProcesses (k k' : Kernel) : Prop where
  live : ∀ i, Allocated k' .pcb i ↔ Allocated k .pcb i
  pid : ∀ i, Allocated k .pcb i → (k'.pcb i).pid = (k.pcb i).pid
  parent : ∀ i, Allocated k .pcb i → (k'.pcb i).parent = (k.pcb i).parent
  last : k'.lastPid = k.lastPid

theorem Census.same (hi : Census k h) (hs : SameProcesses k k') : Census k' h := by
  have halive : ∀ x, Alive k' x ↔ Alive k x := by
    intro x
    unfold Alive
    constructor
    · rintro ⟨p, hp, hfirst, hpid⟩
      have hp := (hs.live p).mp hp
      exact ⟨p, hp, hs.parent p hp ▸ hfirst, hs.pid p hp ▸ hpid⟩
    · rintro ⟨p, hp, hfirst, hpid⟩
      refine ⟨p, (hs.live p).mpr hp, ?_, (hs.pid p hp).trans hpid⟩
      rwa [hs.parent p hp]
  refine ⟨hi.nodup, fun x hx => hs.last ▸ hi.below x hx, fun x => ?_, fun x hx p hp => ?_⟩
  · rw [halive]
    exact hi.known x
  · have hp := (hs.live p).mp hp
    rw [hs.pid p hp]
    exact hi.gone x hx p hp

/-- A new process has a new pid. -/
theorem Census.created (hi : Census k h) (hfresh : ¬ Allocated k .pcb p)
    (hlive : ∀ i, Allocated k' .pcb i ↔ i = p ∨ Allocated k .pcb i)
    (hpid : ∀ i, Allocated k .pcb i → (k'.pcb i).pid = (k.pcb i).pid)
    (hparent : ∀ i, Allocated k .pcb i → (k'.pcb i).parent = (k.pcb i).parent)
    (hnew : (k'.pcb p).pid = k.lastPid) (hnamed : (k'.pcb p).parent ≠ none)
    (hlast : k'.lastPid = k.lastPid + 1) : Census k' (h ++ [.created k.lastPid]) := by
  have hno : Event.created k.lastPid ∉ h := fun hm => Int.lt_irrefl _ (hi.below _ hm)
  have hmem : ∀ x, Event.created x ∈ h ++ [.created k.lastPid] ↔
      Event.created x ∈ h ∨ x = k.lastPid := by simp
  have hmem' : ∀ x, Event.collected x ∈ h ++ [.created k.lastPid] ↔ Event.collected x ∈ h := by simp
  have halive : ∀ x, Alive k' x ↔ x = k.lastPid ∨ Alive k x := by
    intro x
    unfold Alive
    constructor
    · rintro ⟨i, hi, hne, hx⟩
      rcases (hlive i).mp hi with rfl | hi
      · exact .inl (hx.symm.trans hnew)
      · exact .inr ⟨i, hi, hparent i hi ▸ hne, hpid i hi ▸ hx⟩
    · rintro (rfl | ⟨i, hi, hne, hx⟩)
      · exact ⟨p, (hlive p).mpr (.inl rfl), hnamed, hnew⟩
      · refine ⟨i, (hlive i).mpr (.inr hi), ?_, (hpid i hi).trans hx⟩
        rwa [hparent i hi]
  refine ⟨List.nodup_append.mpr ⟨hi.nodup, List.nodup_singleton _, fun e he e' he' => ?_⟩,
    fun x hx => ?_, fun x => ?_, fun x hx i hl => ?_⟩
  · rintro rfl
    exact hno (List.mem_singleton.mp he' ▸ he)
  · rw [hlast]
    rcases (hmem x).mp hx with hx | rfl
    · have := hi.below x hx
      omega
    · omega
  · rw [hmem, hmem', halive, hi.known x]
    tauto
  · have hx := (hmem' x).mp hx
    rcases (hlive i).mp hl with rfl | hl
    · rw [hnew]
      rintro rfl
      exact hno ((hi.known _).mpr (.inl hx))
    · rw [hpid i hl]
      exact hi.gone x hx i hl

/-- Another first process has a new pid, which nobody learns. -/
theorem Census.restarted (hi : Census k h)
    (hlive : ∀ i, Allocated k' .pcb i ↔ i = p ∨ Allocated k .pcb i)
    (hold : ∀ i, Allocated k .pcb i → k'.pcb i = k.pcb i)
    (hnew : (k'.pcb p).pid = k.lastPid) (hfirst : (k'.pcb p).parent = none)
    (hlast : k'.lastPid = k.lastPid + 1) : Census k' h := by
  have halive : ∀ x, Alive k' x ↔ Alive k x := by
    intro x
    unfold Alive
    constructor
    · rintro ⟨i, hi, hne, hx⟩
      rcases (hlive i).mp hi with rfl | hi
      · exact absurd hfirst hne
      · exact ⟨i, hi, hold i hi ▸ hne, hold i hi ▸ hx⟩
    · rintro ⟨i, hi, hne, hx⟩
      refine ⟨i, (hlive i).mpr (.inr hi), ?_⟩
      rw [hold i hi]
      exact ⟨hne, hx⟩
  refine ⟨hi.nodup, fun x hx => ?_, fun x => ?_, fun x hx i hl => ?_⟩
  · have := hi.below x hx
    omega
  · rw [halive]
    exact hi.known x
  · rcases (hlive i).mp hl with rfl | hl
    · have := hi.below x ((hi.known x).mpr (.inl hx))
      omega
    · rw [hold i hl]
      exact hi.gone x hx i hl

/-- A process that is collected goes. -/
theorem Census.collected (hi : Census k h) (hc : Allocated k .pcb c)
    (hnamed : (k.pcb c).parent ≠ none)
    (hlive : ∀ i, Allocated k' .pcb i ↔ i ≠ c ∧ Allocated k .pcb i)
    (hpid : ∀ i, Allocated k .pcb i → (k'.pcb i).pid = (k.pcb i).pid)
    (hparent : ∀ i, Allocated k .pcb i → (k'.pcb i).parent = (k.pcb i).parent)
    (hlast : k'.lastPid = k.lastPid)
    (hinj : ∀ i, Allocated k .pcb i → (k.pcb i).pid = (k.pcb c).pid → i = c) :
    Census k' (h ++ [.collected (k.pcb c).pid]) := by
  have hno : Event.collected (k.pcb c).pid ∉ h := fun hm => hi.gone _ hm c hc rfl
  have hmem : ∀ x, Event.created x ∈ h ++ [.collected (k.pcb c).pid] ↔ Event.created x ∈ h := by
    simp
  have hmem' : ∀ x, Event.collected x ∈ h ++ [.collected (k.pcb c).pid] ↔
      Event.collected x ∈ h ∨ x = (k.pcb c).pid := by simp
  have halive : ∀ x, Alive k x ↔ x = (k.pcb c).pid ∨ Alive k' x := by
    intro x
    unfold Alive
    constructor
    · rintro ⟨i, hi, hne, hx⟩
      by_cases hic : i = c
      · rw [← hx, hic]
        exact .inl rfl
      · refine .inr ⟨i, (hlive i).mpr ⟨hic, hi⟩, ?_, (hpid i hi).trans hx⟩
        rwa [hparent i hi]
    · rintro (rfl | ⟨i, hl, hne, hx⟩)
      · exact ⟨c, hc, hnamed, rfl⟩
      · have hl := ((hlive i).mp hl).2
        exact ⟨i, hl, hparent i hl ▸ hne, hpid i hl ▸ hx⟩
  refine ⟨List.nodup_append.mpr ⟨hi.nodup, List.nodup_singleton _, fun e he e' he' => ?_⟩,
    fun x hx => ?_, fun x => ?_, fun x hx i hl => ?_⟩
  · rintro rfl
    exact hno (List.mem_singleton.mp he' ▸ he)
  · rw [hlast]
    exact hi.below x ((hmem x).mp hx)
  · rw [hmem, hmem', hi.known x, halive]
    tauto
  · obtain ⟨hic, hl⟩ := (hlive i).mp hl
    rw [hpid i hl]
    rcases (hmem' x).mp hx with hx | rfl
    · exact hi.gone x hx i hl
    · exact fun he => hic (hinj i hl he)

/-! ## Actions -/

/-- The calls that create and collect processes. -/
def OfProcesses (num : Int) : Prop :=
  num = DSOS_CALL_SPAWN ∨ num = DSOS_CALL_FORK ∨ num = DSOS_CALL_WAIT ∨ num = DSOS_CALL_EXIT

/-- Other actions neither create nor free a process. -/
theorem step_live {s s' : ProcessTable} (hstep : Step s a s')
    (hno : ∀ num args, a = .syscall num args → ¬ OfProcesses num) (hre : a ≠ .restart) :
    s'.live = s.live ∧ s'.lastPid = s.lastPid := by
  have hsched : ∀ {t : ProcessTable}, Schedules t s' → t.live = s.live →
      t.lastPid = s.lastPid → s'.live = s.live ∧ s'.lastPid = s.lastPid := by
    intro t h hlive hlast
    rw [(schedules_rescheduled h).rest]
    exact ⟨hlive, hlast⟩
  cases hstep with
  | refused => exact ⟨rfl, rfl⟩
  | store => exact ⟨rfl, rfl⟩
  | restart => exact absurd rfl hre
  | tick _ h => exact hsched h rfl rfl
  | @call r num args _ _ h =>
    have hno := hno num args rfl
    cases h with
    | quiet => exact ⟨rfl, rfl⟩
    | preempt h => exact hsched h rfl rfl
    | spawn hnum => exact absurd (hnum.imp_right .inl) hno
    | sleep => exact ⟨rfl, rfl⟩
    | waitBlock => exact absurd (.inr (.inr (.inl rfl))) hno
    | waitCollect => exact absurd (.inr (.inr (.inl rfl))) hno
    | exitNext => exact absurd (.inr (.inr (.inr rfl))) hno
    | exitReport => exact absurd (.inr (.inr (.inr rfl))) hno
    | semBlock => exact ⟨rfl, rfl⟩
    | semWake => exact ⟨rfl, rfl⟩

theorem sameProcesses_step (hstep : Step (view k L) a (view k' L'))
    (hno : ∀ num args, a = .syscall num args → ¬ OfProcesses num) (hre : a ≠ .restart) :
    SameProcesses k k' := by
  obtain ⟨hlive, hlast⟩ := step_live hstep hno hre
  exact ⟨fun i => iff_of_eq (congrFun hlive i), fun i hi => (sameOrigin_step hstep hi).pid,
    fun i hi => (sameOrigin_step hstep hi).parent, hlast⟩

theorem watch_other (hno : ∀ num args, a = .syscall num args → ¬ OfProcesses num) :
    watch k a k' = [] := by
  unfold watch
  cases a with
  | syscall num args =>
    have hno := hno num args rfl
    unfold OfProcesses at hno
    cases k.running with
    | none => rfl
    | some r =>
      simp only
      rw [if_neg fun hs => hno (hs.imp_right .inl), if_neg fun hw => hno (.inr (.inr (.inl hw))),
        if_neg fun he => hno (.inr (.inr (.inr he)))]
  | _ => rfl

theorem pid_modPcb {f : PCB → PCB} (hf : ∀ q, (f q).pid = q.pid) :
    ((k.modPcb r f).pcb p).pid = (k.pcb p).pid := by
  show (Function.update k.pcb r (f (k.pcb r)) p).pid = _
  rw [Function.update_apply]
  split
  · next he => rw [hf, he]
  · rfl

theorem parent_modPcb {f : PCB → PCB} (hf : ∀ q, (f q).parent = q.parent) :
    ((k.modPcb r f).pcb p).parent = (k.pcb p).parent := by
  show (Function.update k.pcb r (f (k.pcb r)) p).parent = _
  rw [Function.update_apply]
  split
  · next he => rw [hf, he]
  · rfl

theorem parent_setCall : ((k.setCall r num args).pcb p).parent = (k.pcb p).parent :=
  parent_modPcb (f := fun q => { q with
    syscallArgs := fun i => if i < syscallNumarg num then args.getD i 0 else q.syscallArgs i
    syscallNum := num }) fun _ => rfl

theorem census_spawn {context : Bool} (hc : Coherent k L) (hr : k.running = some r)
    (hi : Census k h) (hcall : createProcess context (k.setCall r num args) = .ok k') :
    (k'.pcb r).syscallRetvalue = k.lastPid ∧ Census k' (h ++ [.created k.lastPid]) := by
  have hc₁ : Coherent (k.setCall r num args) L := coherent_setCall hc hr
  have hlive : Allocated k .pcb r := hc.sound.placed.live_of_running hr
  obtain ⟨p, ptr, L', hsp, -⟩ := createProcess_ok hc₁.tidy.strung (r := r) hr hlive hcall
  have hpr : p ≠ r := fun he => hsp.fresh (he ▸ hlive)
  have hkeep : ∀ j, Allocated k .pcb j → (k'.pcb j).pid = (k.pcb j).pid ∧
      (k'.pcb j).parent = (k.pcb j).parent := by
    intro j hj
    have hjp : j ≠ p := fun he => hsp.fresh (he ▸ hj)
    rw [← @pid_setCall k r j num args, ← @parent_setCall k r j num args, hsp.pcb,
      Function.update_apply]
    split
    · next he =>
      rw [he]
      exact ⟨rfl, rfl⟩
    · rw [Function.update_of_ne hjp]
      exact ⟨rfl, rfl⟩
  have hnew := hsp.self hpr
  refine ⟨?_, hi.created (p := p) hsp.fresh (fun j => ?_) (fun j hj => (hkeep j hj).1)
    (fun j hj => (hkeep j hj).2) (by rw [hnew]; rfl) ?_ ?_⟩
  · rw [hsp.pcb, Function.update_self]
    rfl
  · refine (hsp.allocated .pcb j).trans ⟨?_, ?_⟩
    · rintro (⟨_, rfl⟩ | ⟨he, _⟩ | hj)
      · exact .inl rfl
      · cases he
      · exact .inr hj
    · rintro (rfl | hj)
      · exact .inl ⟨rfl, rfl⟩
      · exact .inr (.inr hj)
  · rw [hnew]
    exact Option.some_ne_none r
  · rw [hsp.rest]
    rfl

/-- The process that runs next is another one. -/
theorem blockInWait_runs (hc : Coherent k L) (hr : k.running = some r)
    (hb : k.blockInWait r = .ok k') : k'.running ≠ some r := by
  obtain ⟨⟨n, k₁⟩, hd, hb⟩ := bind_eq_ok.mp hb
  cases hb
  obtain ⟨x, hx, hd⟩ := bind_eq_ok.mp hd
  obtain ⟨i, hi, hd⟩ := bind_eq_ok.mp hd
  cases hd
  have hx := deref_eq_ok.mp hx
  rw [parked_ready, hc.tidy.strung.first_eq (l := .readyList) regular_pcb] at hx
  have hready : n ∈ (view k L).ready := by
    refine (mem_map_idx hc.tidy.strung (l := .readyList) regular_pcb).mpr ?_
    rw [← castTo_eq_ok.mp hi]
    exact List.mem_of_mem_head? hx
  intro he
  obtain rfl : n = r := Option.some.inj he
  exact (hc.sound.placed.not_mem_of_running hr).1 hready

theorem census_wait (hc : Coherent k L) (hfit : PidsFit (view k L)) (hr : k.running = some r)
    (hi : Census k h) (hcall : internalWait (k.setCall r DSOS_CALL_WAIT args) = .ok k') :
    Census k' (h ++ watch k (.syscall DSOS_CALL_WAIT args) k') := by
  have hc₁ : Coherent (k.setCall r DSOS_CALL_WAIT args) L := coherent_setCall hc hr
  have hwatch : watch k (.syscall DSOS_CALL_WAIT args) k' =
      if k'.running = some r ∧ 0 ≤ (k'.pcb r).syscallRetvalue then
        [.collected (k'.pcb r).syscallRetvalue] else [] := by
    unfold watch
    rw [hr]
    rfl
  have hself : ∀ j, ((k.setCall r DSOS_CALL_WAIT args).pcb j).pid = (k.pcb j).pid := fun _ =>
    pid_setCall
  rcases wait_refines hc₁ hr hcall with ⟨rfl, _⟩ | ⟨c, ptr, L', hm, hptr, _, _, hcol, _⟩ |
    ⟨_, _, L', _, _, hb, hsch, hmoved⟩
  · have hneg : ¬ 0 ≤ ((((k.setCall r DSOS_CALL_WAIT args).setRetvalue r DSOS_EWAIT).pcb
        r).syscallRetvalue) := by
      have hvalue : ((((k.setCall r DSOS_CALL_WAIT args).setRetvalue r DSOS_EWAIT).pcb
          r).syscallRetvalue) = DSOS_EWAIT := by
        simp [setRetvalue, modPcb]
      rw [hvalue]
      decide
    rw [hwatch, if_neg fun hp => hneg hp.2, List.append_nil]
    refine hi.same ⟨fun _ => Iff.rfl, fun j _ => ?_, fun j _ => ?_, rfl⟩
    · exact (pid_modPcb (f := fun q => { q with syscallRetvalue := DSOS_EWAIT })
        fun _ => rfl).trans (hself j)
    · exact (parent_modPcb (f := fun q => { q with syscallRetvalue := DSOS_EWAIT })
        fun _ => rfl).trans parent_setCall
  · have hchild : some c ∈ (view k L).children r := List.mem_map.mpr ⟨_, hm, hptr⟩
    obtain ⟨c', he, hlive, hnamed, _⟩ := hc.sound.family.child r _ hchild
    cases he
    have hrun : k'.running = some r := by
      rw [hcol.rest]
      exact hr
    have hvalue : (k'.pcb r).syscallRetvalue = (k.pcb c).pid := by
      rw [hcol.pcb, Function.update_self]
      exact hself c
    have hpos : 0 ≤ (k.pcb c).pid := hfit.nonneg c hlive
    rw [hwatch, if_pos ⟨hrun, hvalue ▸ hpos⟩, hvalue]
    refine hi.collected hlive hnamed (fun j => ?_) (fun j _ => ?_) (fun j _ => ?_)
      (by rw [hcol.rest]; rfl) fun j hj he => hc.sound.family.pid_inj j c hj hlive he
    · refine (hcol.allocated .pcb j).trans ⟨fun hj => ⟨fun he => hj.1 ⟨rfl, he⟩, hj.2.2⟩, ?_⟩
      rintro ⟨hjc, hj⟩
      exact ⟨fun he => hjc he.2, by simp, hj⟩
    · rw [hcol.pcb, Function.update_apply]
      split
      · next he =>
        rw [he]
        exact hself r
      · exact hself j
    · rw [hcol.pcb, Function.update_apply]
      split
      · next he =>
        rw [he]
        exact parent_setCall
      · exact parent_setCall
  · rw [hwatch, if_neg fun hp => blockInWait_runs hc₁ hr hb hp.1, List.append_nil]
    have horigin : ∀ j, Allocated k .pcb j → SameOrigin (view (k.setCall r _ args) L)
        (view k' L') j := fun j hj => sameOrigin_handled hmoved.move hj
    exact hi.same ⟨fun j => allocated_of_pool (hsch.pool .pcb (by decide)),
      fun j hj => (horigin j hj).1.trans (hself j),
      fun j hj => (horigin j hj).2.trans parent_setCall, by rw [hsch.rest]; rfl⟩

theorem census_exit (hc : Coherent k L) (hr : k.running = some r)
    (hi : Census k h) (hcall : internalExit (k.setCall r DSOS_CALL_EXIT args) = .ok k') :
    Census k' (h ++ watch k (.syscall DSOS_CALL_EXIT args) k') := by
  have hc₁ : Coherent (k.setCall r DSOS_CALL_EXIT args) L := coherent_setCall hc hr
  have hwatch : watch k (.syscall DSOS_CALL_EXIT args) k' =
      match k'.running with
      | some p =>
        if (k.pcb p).status = .Waiting then [.collected (k'.pcb p).syscallRetvalue] else []
      | none => [] := by
    unfold watch
    rw [hr]
    rfl
  have hself : ∀ j, ((k.setCall r DSOS_CALL_EXIT args).pcb j).pid = (k.pcb j).pid := fun _ =>
    pid_setCall
  obtain ⟨i, parent, k₁, L₁, hd, hend⟩ := exit_died hc₁ hr hcall
  have horigin : ∀ j, SameOrigin (view (k.setCall r DSOS_CALL_EXIT args) L)
      (view { k₁ with running := none } L₁) j := fun j => by
    rw [hd.view_eq]
    exact sameOrigin_died
  have hpid₁ : ∀ j, (k₁.pcb j).pid = (k.pcb j).pid := fun j => (horigin j).1.trans (hself j)
  have hparent₁ : ∀ j, (k₁.pcb j).parent = (k.pcb j).parent := fun j =>
    (horigin j).2.trans parent_setCall
  have hlive₁ : ∀ j, Allocated k₁ .pcb j ↔ Allocated k .pcb j := by
    intro j
    refine allocated_of_pool ?_
    rw [hd.rest]
    rfl
  rcases hend with ⟨hw, hrep⟩ | ⟨hno, n, k₂, hf, rfl⟩
  · obtain ⟨ptr, L', hrep, _⟩ := exitReport_refines hc₁ hd hw hrep
    have hwaits : (k.pcb parent).status = .Waiting :=
      status_setCall.symm.trans ((waitsFor_died hc₁.sound hr).mp hw).1
    have hrun : k'.running = some parent := by rw [hrep.rest]
    have hvalue : (k'.pcb parent).syscallRetvalue = (k.pcb r).pid := by
      rw [hrep.pcb, Function.update_self]
      exact hpid₁ r
    rw [hwatch, hrun]
    simp only [hwaits, if_true, hvalue]
    have hlive : Allocated k .pcb r := hc.sound.placed.live_of_running hr
    refine hi.collected hlive ?_ (fun j => ?_) (fun j _ => ?_) (fun j _ => ?_) ?_
      fun j hj he => hc.sound.family.pid_inj j r hj hlive he
    · have hparent : (k.pcb r).parent = some parent := parent_setCall.symm.trans hd.parent_eq
      rw [hparent]
      exact Option.some_ne_none parent
    · rw [hrep.allocated, hlive₁]
      simp only [true_and, reduceCtorEq, false_and, not_false_eq_true, and_true]
      exact and_comm
    · rw [hrep.pcb, Function.update_apply]
      split
      · next he =>
        rw [he]
        exact hpid₁ parent
      · exact hpid₁ j
    · rw [hrep.pcb, Function.update_apply]
      split
      · next he =>
        rw [he]
        exact hparent₁ parent
      · exact hparent₁ j
    · rw [hrep.rest, hd.rest]
      rfl
  · obtain ⟨rest, hL, _, _, hk₂⟩ := exitNext_refines hc₁ hd hno hf
    have hready : n ∈ (view k L).ready := by
      show n ∈ (L .readyList).map Node.idx
      rw [hL]
      exact List.mem_cons_self
    have hnw : (k.pcb n).status ≠ .Waiting := fun hw =>
      (hc.sound.placed.not_mem_of_waiting (hc.sound.marked.waits n hw)).2.1 hready
    rw [hwatch]
    simp only [if_neg hnw, List.append_nil]
    refine hi.same ⟨fun j => ?_, fun j _ => ?_, fun j _ => ?_, ?_⟩
    · rw [hk₂]
      exact hlive₁ j
    · rw [hk₂]
      exact (pid_modPcb (k := k₁.detach .readyList ⟨.pcb, n⟩)
        (f := fun q => { q with status := .Running }) fun _ => rfl).trans (hpid₁ j)
    · rw [hk₂]
      exact (parent_modPcb (k := k₁.detach .readyList ⟨.pcb, n⟩)
        (f := fun q => { q with status := .Running }) fun _ => rfl).trans (hparent₁ j)
    · rw [hk₂]
      show k₁.lastPid = _
      rw [hd.rest]
      rfl

theorem census_restart (hre : Restarted k L p k' L') (hi : Census k h) : Census k' h := by
  have hself := hre.self
  refine hi.restarted (p := p) (fun i => ?_) (fun i hi => ?_) (by rw [hself]; rfl)
    (by rw [hself]; rfl) (by rw [hre.rest])
  · rw [hre.allocated]
    exact or_congr_left (and_iff_right rfl)
  · have hne : i ≠ p := fun he => hre.fresh (he ▸ hi)
    rw [hre.pcb, Function.update_of_ne hne]

/-- Somebody makes the call. -/
theorem caller_running (h : act k (.syscall num args) = .ok k') : ∃ r, k.running = some r := by
  refine Option.ne_none_iff_exists'.mp fun hn => ?_
  have h : k.disastrOSSyscall num args = .ok k' := h
  unfold disastrOSSyscall at h
  rw [hn] at h
  cases h

theorem census_act (hc : Coherent k L) (hfit : PidsFit (view k L)) (hi : Census k h)
    (ha : Ordinary a) (hact : act k a = .ok k') : Census k' (h ++ watch k a k') := by
  by_cases hno : ∀ num args, a = .syscall num args → ¬ OfProcesses num
  · obtain ⟨L', _, _, hstep⟩ := act_done hc ha hact
    rw [watch_other hno, List.append_nil]
    by_cases hre : a = .restart
    · subst hre
      obtain ⟨p, L', hre, _⟩ := restart_refines hc (show k.resumeMain = .ok k' from hact)
      exact census_restart hre hi
    · exact hi.same (sameProcesses_step hstep hno hre)
  · obtain ⟨num, args, rfl, hnum⟩ : ∃ num args, a = .syscall num args ∧ OfProcesses num := by
      simpa only [not_forall, Classical.not_not, exists_prop] using hno
    have hact : k.disastrOSSyscall num args = .ok k' := hact
    obtain ⟨r, hr⟩ := caller_running hact
    have hspawn : Creation num → Census k' (h ++ watch k (.syscall num args) k') := by
      intro hnum
      obtain ⟨hvalue, hcensus⟩ :=
        census_spawn hc hr hi ((act_creation hc hnum hr).symm.trans hact)
      have hwatch : watch k (.syscall num args) k' = [.created k.lastPid] := by
        unfold watch
        rw [hr]
        have hnum : num = DSOS_CALL_SPAWN ∨ num = DSOS_CALL_FORK := hnum
        simp only [if_pos hnum, hvalue]
      rwa [hwatch]
    rcases hnum with rfl | rfl | rfl | rfl
    · exact hspawn (.inl rfl)
    · exact hspawn (.inr rfl)
    · exact census_wait hc hfit hr hi
        (syscall_handled args rfl (by decide) (by decide) hr hact)
    · exact census_exit hc hr hi (syscall_handled args rfl (by decide) (by decide) hr hact)

/-! ## Runs -/

/-- At the start there is init alone. -/
theorem booted_census (hb : Booted mem k) : Census k [] := by
  refine ⟨List.nodup_nil, fun x hx => absurd hx List.not_mem_nil,
    fun x => ⟨fun hx => absurd hx List.not_mem_nil, ?_⟩, fun x hx => absurd hx List.not_mem_nil⟩
  rintro (hx | ⟨p, hp, hnamed, _⟩)
  · cases hx
  · obtain ⟨_, rfl⟩ := (hb.allocated _ _).mp hp
    rw [hb.rest] at hnamed
    exact absurd rfl hnamed

/-- In every run no pid is given twice and none is collected twice; the pids given are those
collected and those of the processes that are there, the first processes apart; and no process
that is there has a pid that has been collected. -/
theorem collected_once {seen : List Event} (hs : Started mem k₀)
    (hrun : Run (withHistory act watch) (fun _ a => Ordinary a) (k₀, []) as (k, seen)) :
    seen.Nodup ∧ (∀ x, .created x ∈ seen ↔ .collected x ∈ seen ∨ Alive k x) ∧
      ∀ x, .collected x ∈ seen → ∀ p, Allocated k .pcb p → (k.pcb p).pid ≠ x := by
  obtain ⟨L₀, hc₀, hfit₀, _⟩ := reachable_pids hs (.nil k₀)
  have hinv : ∃ L, Coherent k L ∧ PidsFit (view k L) ∧ Census k seen := by
    refine run_invariant (I := fun s => ∃ L, Coherent s.1 L ∧ PidsFit (view s.1 L) ∧
      Census s.1 s.2) ?_ ⟨L₀, hc₀, hfit₀, booted_census (start_booted hs)⟩ hrun
    rintro ⟨k, h⟩ a ⟨k', h'⟩ ⟨L, hc, hfit, hi⟩ ha hact
    obtain ⟨hact, hh⟩ := withHistory_ok.mp hact
    obtain ⟨L', _, hc', hstep⟩ := act_done hc ha hact
    exact ⟨L', hc', pidsFit_step hfit hstep, hh ▸ census_act hc hfit hi ha hact⟩
  obtain ⟨_, _, _, hi⟩ := hinv
  exact ⟨hi.nodup, hi.known, hi.gone⟩

/-- A child sleeps while init waits for it, so the system makes another first process. The child
wakes up and exits. -/
theorem collected_once_child : ∃ k₀ k seen, Started (fun _ => 0) k₀ ∧
    Run (withHistory act watch) (fun _ a => Ordinary a) (k₀, [])
      [.syscall DSOS_CALL_SPAWN [], .syscall DSOS_CALL_WAIT [0, 0], .syscall DSOS_CALL_SLEEP [1],
        .restart, .timer, .syscall DSOS_CALL_EXIT [7]] (k, seen) ∧
    seen = [.created 1, .collected 1] ∧ (seen.Nodup ∧
      (∀ x, .created x ∈ seen ↔ .collected x ∈ seen ∨ Alive k x) ∧
      ∀ x, .collected x ∈ seen → ∀ p, Allocated k .pcb p → (k.pcb p).pid ≠ x) := by
  obtain ⟨k₀, hs, htest⟩ := exists_of_any (x := disastrOSStart (zeroed fun _ => 0))
    (p := fun k₀ => (exec (withHistory act watch) (fun _ a => decide (Ordinary a)) (k₀, [])
      [.syscall DSOS_CALL_SPAWN [], .syscall DSOS_CALL_WAIT [0, 0], .syscall DSOS_CALL_SLEEP [1],
        .restart, .timer, .syscall DSOS_CALL_EXIT [7]]).any fun s => s.2 = [.created 1, .collected 1])
    (by decide +kernel)
  obtain ⟨⟨k, seen⟩, hrun, hseen⟩ := exists_run (fun _ a => Ordinary a)
    (fun _ _ hcheck => of_decide_eq_true hcheck) htest
  exact ⟨k₀, k, seen, hs, hrun, of_decide_eq_true hseen, collected_once hs hrun⟩

end DisastrOS.Process.Reaping
