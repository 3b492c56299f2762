import Mathlib.Data.Finset.Insert
import DisastrOS.Process.SystemRuns

/-!
# When a process can be created

`spawn` and `fork` take a block for the process and one for its child link. The test for
a missing block stands behind the first use of it, so the calls answer only when there is
a block of each kind.
-/
namespace DisastrOS.Process.Spawning

open DisastrOS.Machine
open DisastrOS.Machine.Kernel
open DisastrOS.Machine.Runs
open DisastrOS.Lists.Sequences
open DisastrOS.Lists.Wiring
open DisastrOS.Lists.RegularLists
open DisastrOS.Lists.Boot
open DisastrOS.Pool.Blocks
open DisastrOS.Process.Table
open DisastrOS.Process.Steps
open DisastrOS.Process.View
open DisastrOS.Process.Coherence
open DisastrOS.Process.Creation
open DisastrOS.Process.Transitions
open DisastrOS.Process.SystemRuns
open DisastrOS.MessageQueue.Calls
open DisastrOS.Library.GuardedRun
open DisastrOS.Library.Outcome

variable {k k' : Kernel} {L : HeadAddr → List Node} {r p ptr n : Nat} {num : Int}
  {args : List Int}

/-- The calls that create a process. -/
def Creation (num : Int) : Prop := num = DSOS_CALL_SPAWN ∨ num = DSOS_CALL_FORK

/-- All blocks for objects of a type of which each process has one are in use. -/
def AllInUse (k : Kernel) (kind : Kind) : Prop :=
  ∀ i : Nat, (i : Int) < MAX_NUM_PROCESSES → Allocated k kind i

/-- There is no block left for a process or none for its child link. -/
def NoBlock (k : Kernel) : Prop := AllInUse k .pcb ∨ AllInUse k .pcbPtr

/-- The call of `r` is answered by an error, and no process was created. -/
def FailsCleanly (k : Kernel) (r : Nat) (num : Int) (args : List Int) : Prop :=
  ∃ k', k.act (.syscall num args) = .ok k' ∧ (k'.pcb r).syscallRetvalue < 0 ∧
    k'.lastPid = k.lastPid ∧ k'.pool .pcb = k.pool .pcb ∧ k'.pool .pcbPtr = k.pool .pcbPtr ∧
    ∀ l xs, ProcessHead l → Holds k.lists l xs → Holds k'.lists l xs

/-- `r` has created the process `p` and no other, with the child link `ptr`. -/
structure Created (k : Kernel) (r p ptr : Nat) (k' : Kernel) : Prop where
  fresh : ¬ Allocated k .pcb p
  live : ∀ i, Allocated k' .pcb i ↔ i = p ∨ Allocated k .pcb i
  pid : ∀ q, Allocated k' .pcb q → q ≠ p → (k'.pcb q).pid ≠ (k'.pcb p).pid
  status : (k'.pcb p).status = .Ready
  parent : (k'.pcb p).parent = some r
  link : k'.pcbPtr ptr = some p
  ready : ∃ xs, Holds k.lists .readyList xs ∧ Holds k'.lists .readyList (xs ++ [⟨.pcb, p⟩])
  children : ∃ ys, Holds k.lists (.children r) ys ∧
    Holds k'.lists (.children r) (ys ++ [⟨.pcbPtr, ptr⟩])
  others : ∀ q, q ≠ p → q ≠ r → k'.pcb q = k.pcb q
  answered : (k'.pcb r).syscallRetvalue = (k'.pcb p).pid

/-- The call creates one process, or fails cleanly when there is no block for it. The pid
counter must not wrap. -/
def CreatesOrFails (k : Kernel) (r : Nat) (num : Int) (args : List Int) : Prop :=
  (NoBlock k → FailsCleanly k r num args) ∧
    (¬ NoBlock k → k.lastPid + 1 < 2 ^ 31 →
      ∃ p ptr k', k.act (.syscall num args) = .ok k' ∧ Created k r p ptr k')

/-! ## The call -/

theorem act_creation (hc : Coherent k L) (hnum : Creation num) (hr : k.running = some r) :
    k.act (.syscall num args) =
      createProcess (decide (num = DSOS_CALL_SPAWN)) (k.setCall r num args) := by
  show k.disastrOSSyscall num args = _
  rcases hnum with rfl | rfl
  · exact syscall_direct hc (f := internalSpawn) rfl (by decide) (by decide) (by decide) hr args
  · exact syscall_direct hc (f := internalFork) rfl (by decide) (by decide) (by decide) hr args

theorem allInUse_pcb (h : Pooled k) : AllInUse k .pcb ↔ (k.pool .pcb).size = 0 :=
  (size_eq_zero_iff h .pcb).symm

theorem allInUse_pcbPtr (h : Pooled k) : AllInUse k .pcbPtr ↔ (k.pool .pcbPtr).size = 0 :=
  (size_eq_zero_iff h .pcbPtr).symm

/-- A new item exists when the pool is not empty. -/
theorem exists_newItem {kind : Kind} (h : Pooled k) (hsize : (k.pool kind).size ≠ 0) :
    ∃ i k₁, k.newItem kind = some (i, k₁) := by
  cases hnew : k.newItem kind with
  | none => exact absurd ((newItem_eq_none h).mp hnew) hsize
  | some x => exact ⟨x.1, x.2, rfl⟩

/-- Without a block the call does not complete. -/
theorem createProcess_faults {context : Bool} (hs : Strung Regular Retained k L)
    (hno : NoBlock k) : createProcess context k ≠ .ok k' := by
  intro h
  unfold createProcess at h
  obtain ⟨r', hr', h⟩ := bind_eq_ok.mp h
  obtain ⟨⟨p, k₁⟩, halloc, h⟩ := bind_eq_ok.mp h
  obtain ⟨⟨ptr, k₂⟩, hptr, -⟩ := bind_eq_ok.mp h
  have ha := pcbAlloc_ok (Woven.refl hs) halloc
  rcases hno with hfull | hfull
  · have hnone := (newItem_eq_none hs.pooled).mpr ((allInUse_pcb hs.pooled).mp hfull)
    unfold pcbAlloc at halloc
    rw [hnone] at halloc
    cases halloc
  · unfold pcbPtrAlloc at hptr
    obtain ⟨⟨i, k₃⟩, hnew, -⟩ := bind_eq_ok.mp hptr
    have hnew := deref_eq_ok.mp hnew
    have hsize := (allInUse_pcbPtr hs.pooled).mp hfull
    have hpool : (k₁.pool .pcbPtr).size = 0 := by
      rw [ha.pool, Function.update_of_ne (by decide)]
      exact hsize
    have hpooled : Pooled (k₁.modPcb p fun q =>
        { q with status := .Ready, parent := some r', cpuState := context || q.cpuState }) :=
      ha.woven.strung.pooled
    have hnone := (newItem_eq_none hpooled).mpr hpool
    cases hnone.symm.trans hnew

/-- With a block of each kind the call completes. -/
theorem createProcess_total (context : Bool) (hs : Strung Regular Retained k L)
    (hr : k.running = some r) (hblock : ¬ NoBlock k) (h0 : 0 ≤ k.lastPid)
    (hlast : k.lastPid + 1 < 2 ^ 31) : ∃ k', createProcess context k = .ok k' := by
  obtain ⟨hpcb, hlink⟩ := not_or.mp hblock
  rw [allInUse_pcb hs.pooled] at hpcb
  rw [allInUse_pcbPtr hs.pooled] at hlink
  obtain ⟨p, k₁, hnew⟩ := exists_newItem hs.pooled hpcb
  have hf := newItem_fresh hs.pooled hnew
  have hadd : addInt k₁.lastPid 1 = .ok (k.lastPid + 1) := by
    have hsame : k₁.lastPid = k.lastPid := by rw [hf.eq]
    rw [hsame]
    exact addInt_eq_ok.mpr ⟨by omega, rfl⟩
  obtain ⟨k₂, halloc⟩ : ∃ k₂, k.pcbAlloc = .ok (p, k₂) := by
    unfold pcbAlloc
    rw [deref_eq_ok.mpr hnew]
    simp only [bind, Except.bind]
    rw [hadd]
    exact ⟨_, rfl⟩
  have ha := pcbAlloc_ok (Woven.refl hs) halloc
  have hlink₂ : (k₂.pool .pcbPtr).size ≠ 0 := by
    rwa [ha.pool, Function.update_of_ne (by decide)]
  obtain ⟨ptr, k₃, hnew₂⟩ : ∃ ptr k₃, (k₂.modPcb p fun q =>
      { q with status := .Ready, parent := some r, cpuState := context || q.cpuState }).newItem
        .pcbPtr = some (ptr, k₃) :=
    exists_newItem ha.woven.strung.pooled hlink₂
  unfold createProcess
  rw [deref_eq_ok.mpr hr]
  simp only [bind, Except.bind]
  rw [halloc]
  unfold pcbPtrAlloc
  simp only
  rw [deref_eq_ok.mpr hnew₂]
  exact ⟨_, rfl⟩

variable {L' : HeadAddr → List Node}

/-- What the handler has done is what the caller of `spawn` expects. -/
theorem created_of_spawned (hc : Coherent k L) (hr : k.running = some r)
    (h : Spawned k L r p ptr k' L') : Created k r p ptr k' := by
  have hrl : Allocated k .pcb r := hc.sound.placed.live_of_running hr
  have hpr : p ≠ r := fun he => h.fresh (he ▸ hrl)
  have hself := h.self hpr
  have hcaller : k'.pcb r = { k.pcb r with syscallRetvalue := k.lastPid } := by
    rw [h.pcb, Function.update_self]
  have hothers : ∀ q, q ≠ p → q ≠ r → k'.pcb q = k.pcb q := by
    intro q hqp hqr
    rw [h.pcb, Function.update_of_ne hqr, Function.update_of_ne hqp]
  have hlive : ∀ i, Allocated k' .pcb i ↔ i = p ∨ Allocated k .pcb i := by
    intro i
    rw [h.allocated]
    simp
  have hs := hc.tidy.strung
  have hs' := h.woven.strung
  refine ⟨h.fresh, hlive, fun q hq hqp => ?_, by rw [hself], by rw [hself], ?_,
    ⟨L .readyList, hs.holds regular_pcb, ?_⟩,
    ⟨L (.children r), hs.holds (regular_children r), ?_⟩, hothers, ?_⟩
  · have hold : Allocated k .pcb q := ((hlive q).mp hq).resolve_left hqp
    have hlt : (k.pcb q).pid < k.lastPid := hc.sound.family.pid_lt q hold
    have hpid : (k'.pcb q).pid = (k.pcb q).pid := by
      by_cases hqr : q = r
      · rw [hqr, hcaller]
      · rw [hothers q hqp hqr]
    rw [hpid, hself]
    exact ne_of_lt hlt
  · rw [h.pcbPtr, Function.update_self]
  · rw [← h.ready]
    exact hs'.holds regular_pcb
  · rw [← h.children_self hpr]
    exact hs'.holds (regular_children r)
  · rw [hcaller, hself]
    rfl

/-- The pid counter never goes back. -/
theorem lastPid_le {s s' : ProcessTable} {a : Action} (h : Step s a s') :
    s.lastPid ≤ s'.lastPid := by
  cases h with
  | refused => exact le_rfl
  | call hr h =>
    cases h with
    | preempt hs => exact (congrArg ProcessTable.lastPid (schedules_rescheduled hs).rest).ge
    | spawn => exact Int.le_add_one le_rfl
    | _ => exact le_rfl
  | tick hr hs => exact (congrArg ProcessTable.lastPid (schedules_rescheduled hs).rest).ge
  | restart => exact Int.le_add_one le_rfl
  | store => exact le_rfl

/-- A state of a run, with the pid counter above 0. -/
theorem reachable_pid {mem : Int → UInt8} {k₀ : Kernel} {as : List Action} (hs : Started mem k₀)
    (h : Run act (fun _ a => Ordinary a) k₀ as k) : ∃ L, Coherent k L ∧ 0 < k.lastPid :=
  run_table (I := fun s => 0 < s.lastPid) (fun _ _ ha => ha)
    (fun mem k hb => by rw [booted_view hb]; exact Int.one_pos)
    (fun _ _ _ _ _ hpos _ hstep _ => lt_of_lt_of_le hpos (lastPid_le hstep)) hs h

theorem creates_of_block (hc : Coherent k L) (hpos : 0 < k.lastPid) (hr : k.running = some r)
    (hnum : Creation num) (hblock : ¬ NoBlock k) (hlast : k.lastPid + 1 < 2 ^ 31) :
    ∃ p ptr k' L', k.act (.syscall num args) = .ok k' ∧
      Spawned (k.setCall r num args) L r p ptr k' L' ∧
      (num = DSOS_CALL_SPAWN → (k'.pcb p).cpuState = true) ∧ Created k r p ptr k' := by
  have hc₁ : Coherent (k.setCall r num args) L := coherent_setCall hc hr
  have hr₁ : (k.setCall r num args).running = some r := hr
  obtain ⟨k', hk'⟩ := createProcess_total (decide (num = DSOS_CALL_SPAWN)) hc₁.tidy.strung hr₁
    hblock hpos.le hlast
  obtain ⟨p, ptr, L', hsp, hmade⟩ :=
    createProcess_ok hc₁.tidy.strung hr₁ (hc₁.sound.placed.live_of_running hr₁) hk'
  obtain ⟨hfresh, hlive, hpid, hst, hparent, hlink, hready, hchildren, hothers, hanswer⟩ :=
    created_of_spawned hc₁ hr₁ hsp
  refine ⟨p, ptr, k', L', (act_creation hc hnum hr).trans hk', hsp, fun hspawn => ?_, hfresh, hlive,
    hpid, hst, hparent, hlink, hready, hchildren, fun q hqp hqr => ?_, hanswer⟩
  · rw [hmade, decide_eq_true hspawn, Bool.true_or]
  rw [hothers q hqp hqr]
  exact Function.update_of_ne hqr _ _

theorem not_failsCleanly (hc : Coherent k L) (hr : k.running = some r) (hnum : Creation num)
    (hno : NoBlock k) : ¬ FailsCleanly k r num args := by
  rintro ⟨k', hk', -⟩
  have hs : Strung Regular Retained (k.setCall r num args) L := (coherent_setCall hc hr).tidy.strung
  exact createProcess_faults hs hno ((act_creation hc hnum hr).symm.trans hk')

theorem createsOrFails_iff (hc : Coherent k L) (hpos : 0 < k.lastPid) (hr : k.running = some r)
    (hnum : Creation num) : CreatesOrFails k r num args ↔ ¬ NoBlock k := by
  refine ⟨fun h hno => not_failsCleanly hc hr hnum hno (h.1 hno), fun hblock => ?_⟩
  refine ⟨fun hno => absurd hno hblock, fun _ hlast => ?_⟩
  obtain ⟨p, ptr, k', L', hact, _, _, hcreated⟩ := creates_of_block hc hpos hr hnum hblock hlast
  exact ⟨p, ptr, k', hact, hcreated⟩

/-- In every reachable state creation does what it should exactly when there is a block for
the process and one for its child link. -/
theorem creation_answers_iff {mem : Int → UInt8} {k₀ : Kernel} {as : List Action}
    (hs : Started mem k₀) (h : Run act (fun _ a => Ordinary a) k₀ as k)
    (hr : k.running = some r) (hnum : Creation num) (args : List Int) :
    CreatesOrFails k r num args ↔ ¬ NoBlock k := by
  obtain ⟨L, hc, hpos⟩ := reachable_pid hs h
  exact createsOrFails_iff hc hpos hr hnum

/-- The first process can create a second child. -/
theorem creation_answers_second :
    ∃ k₀ k, Started (fun _ => 0) k₀ ∧
      Run act (fun _ a => Ordinary a) k₀ [.syscall DSOS_CALL_SPAWN [0, 0]] k ∧
      k.running = some 0 ∧ CreatesOrFails k 0 DSOS_CALL_FORK [] := by
  obtain ⟨k₀, k, hs, h, htest⟩ := exists_run_from_start (fun _ a => Ordinary a)
    (fun _ a => decide (Ordinary a)) [.syscall DSOS_CALL_SPAWN [0, 0]]
    (fun k => k.running = some 0 ∧ (k.pool .pcb).size ≠ 0 ∧ (k.pool .pcbPtr).size ≠ 0)
    (fun _ _ h => of_decide_eq_true h) (by decide +kernel)
  obtain ⟨hr, hpcb, hptr⟩ := of_decide_eq_true htest
  obtain ⟨L, hc⟩ := coherent_run hs h
  have hpooled := hc.tidy.strung.pooled
  refine ⟨k₀, k, hs, h, hr, (creation_answers_iff hs h hr (.inr rfl) []).mpr ?_⟩
  rintro (hfull | hfull)
  · exact hpcb ((allInUse_pcb hpooled).mp hfull)
  · exact hptr ((allInUse_pcbPtr hpooled).mp hfull)

/-! ## The blocks can run out -/

theorem size_spawned (h : Spawned k L r p ptr k' L') (hs : Strung Regular Retained k L) :
    (k'.pool .pcb).size = (k.pool .pcb).size - 1 ∧
      (k'.pool .pcbPtr).size = (k.pool .pcbPtr).size - 1 := by
  have hs' := h.woven.strung
  have hpcb : inUse k' .pcb = insert p (inUse k .pcb) := by
    ext i
    rw [mem_inUse, h.allocated, Finset.mem_insert, mem_inUse]
    simp
  have hptr : inUse k' .pcbPtr = insert ptr (inUse k .pcbPtr) := by
    ext i
    rw [mem_inUse, h.allocated, Finset.mem_insert, mem_inUse]
    simp
  have hpcb := congrArg Finset.card hpcb
  rw [Finset.card_insert_of_notMem fun hm => h.fresh (mem_inUse.mp hm)] at hpcb
  have hptr := congrArg Finset.card hptr
  rw [Finset.card_insert_of_notMem fun hm => h.freshPtr (mem_inUse.mp hm)] at hptr
  have h₁ := card_inUse hs.pooled .pcb
  have h₂ := card_inUse hs'.pooled .pcb
  have h₃ := card_inUse hs.pooled .pcbPtr
  have h₄ := card_inUse hs'.pooled .pcbPtr
  omega

/-- Init has created `n` processes. -/
structure Peopled (n : Nat) (k : Kernel) : Prop where
  running : k.running = some 0
  lastPid : k.lastPid = n + 1
  pcb : (k.pool .pcb).size = 1023 - n
  pcbPtr : (k.pool .pcbPtr).size = 1024 - n

theorem peopled_step (hc : Coherent k L) (h : Peopled n k) (hn : n < 1023) :
    ∃ k', k.act (.syscall DSOS_CALL_SPAWN [0, 0]) = .ok k' ∧ Peopled (n + 1) k' := by
  have hlast := h.lastPid
  have hsize := h.pcb
  have hsize' := h.pcbPtr
  have hpooled := hc.tidy.strung.pooled
  have hblock : ¬ NoBlock k := by
    rintro (hfull | hfull)
    · have hz := (allInUse_pcb hpooled).mp hfull
      omega
    · have hz := (allInUse_pcbPtr hpooled).mp hfull
      omega
  have hcreation : Creation DSOS_CALL_SPAWN := .inl rfl
  obtain ⟨p, ptr, k', L', hact, hsp, _⟩ := @creates_of_block _ _ _ _ [0, 0] hc (by omega) h.running
    hcreation hblock (by omega)
  obtain ⟨h₁, h₂⟩ := size_spawned hsp (coherent_setCall hc h.running).tidy.strung
  have h₁ : _ = (k.pool .pcb).size - 1 := h₁
  have h₂ : _ = (k.pool .pcbPtr).size - 1 := h₂
  refine ⟨k', hact, ?_, ?_, by push_cast; omega, by push_cast; omega⟩
  · rw [hsp.rest]
    exact h.running
  · have hnext : k'.lastPid = k.lastPid + 1 := by rw [hsp.rest]; rfl
    rw [hnext, hlast]
    push_cast
    rfl

theorem exists_peopled (n : Nat) (hn : n ≤ 1023) :
    ∃ k₀ k, Started (fun _ => 0) k₀ ∧
      Run act (fun _ a => Ordinary a) k₀
        (List.replicate n (.syscall DSOS_CALL_SPAWN [0, 0])) k ∧ Peopled n k := by
  induction n with
  | zero =>
    obtain ⟨k₀, k, hs, h, htest⟩ := exists_run_from_start (fun _ a => Ordinary a)
      (fun _ a => decide (Ordinary a)) []
      (fun k => k.running = some 0 ∧ k.lastPid = 1 ∧ (k.pool .pcb).size = 1023 ∧
        (k.pool .pcbPtr).size = 1024)
      (fun _ _ h => of_decide_eq_true h) (by decide +kernel)
    obtain ⟨hr, hlast, hpcb, hptr⟩ := of_decide_eq_true htest
    exact ⟨k₀, k, hs, h, hr, hlast, hpcb, hptr⟩
  | succ n ih =>
    obtain ⟨k₀, k, hs, hrun, h⟩ := ih (by omega)
    obtain ⟨L, hc⟩ := coherent_run hs hrun
    obtain ⟨k', hact, h'⟩ := peopled_step hc h (by omega)
    refine ⟨k₀, k', hs, ?_, h'⟩
    rw [List.replicate_succ']
    exact .snoc hrun trivial hact

/-- After 1023 processes the next creation does not fail cleanly. -/
theorem last_block_gone :
    ∃ k₀ k, Started (fun _ => 0) k₀ ∧
      Run act (fun _ a => Ordinary a) k₀
        (List.replicate 1023 (.syscall DSOS_CALL_SPAWN [0, 0])) k ∧
      k.running = some 0 ∧ ¬ CreatesOrFails k 0 DSOS_CALL_SPAWN [0, 0] := by
  obtain ⟨k₀, k, hs, hrun, h⟩ := exists_peopled 1023 (by decide)
  obtain ⟨L, hc⟩ := coherent_run hs hrun
  have hno : NoBlock k := by
    refine .inl ((allInUse_pcb hc.tidy.strung.pooled).mpr ?_)
    rw [h.pcb]
    rfl
  exact ⟨k₀, k, hs, hrun, h.running, fun hw =>
    not_failsCleanly hc h.running (.inl rfl) hno (hw.1 hno)⟩

end DisastrOS.Process.Spawning
