import DisastrOS.MessageQueue.MessageFrame
import DisastrOS.Process.FdTables
import DisastrOS.Process.Kinship
import DisastrOS.Process.ReturnRegisters

/-!
# What processes leave alone

The memory of the processes is written by the processes themselves, by `wait` and `exit`, which
store the value of a child, and by `mqRead`. A process that does not run keeps its process
control block, apart from the fields that the scheduler and its relatives write, and its
descriptors.
-/
namespace DisastrOS.Process.Isolation

open DisastrOS.Machine
open DisastrOS.Machine.Kernel
open DisastrOS.Machine.Runs
open DisastrOS.Lists.Boot
open DisastrOS.Lists.Wiring
open DisastrOS.Lists.RegularLists
open DisastrOS.Pool.Blocks
open DisastrOS.Descriptors.Bindings
open DisastrOS.Descriptors.Tables
open DisastrOS.Process.Table
open DisastrOS.Process.Steps
open DisastrOS.Process.View
open DisastrOS.Process.Coherence
open DisastrOS.Process.Creation
open DisastrOS.Process.Waiting
open DisastrOS.Process.Exit
open DisastrOS.Process.Handles
open DisastrOS.Process.Kinship
open DisastrOS.Process.ReturnRegisters
open DisastrOS.Process.FdTables
open DisastrOS.Process.Transitions
open DisastrOS.Process.SystemRuns
open DisastrOS.Semaphore.Calls
open DisastrOS.Resource.Calls
open DisastrOS.MessageQueue.Calls
open DisastrOS.MessageQueue.CoherentCalls
open DisastrOS.Library.GuardedRun
open DisastrOS.Library.Outcome

variable {mem : Int → UInt8} {k k' k₁ k₂ k₀ : Kernel} {L L' : HeadAddr → List Node}
  {p r i mq m n : Nat} {num v : Int} {args : List Int} {a : Action} {as bs : List Action}

/-! ## What the scheduler and the relatives write -/

/-- Only what others write has changed. -/
def Outward (q q' : PCB) : Prop :=
  q' = { q with
    status := q'.status, signals := q'.signals, timer := q'.timer
    syscallRetvalue := q'.syscallRetvalue }

theorem Outward.trans {q q' q'' : PCB} (h : Outward q q') (h' : Outward q' q'') :
    Outward q q'' := by
  unfold Outward at *
  rw [h', h]

/-- User memory is as before, and so is every process but for what others write. -/
structure Outside (k k' : Kernel) : Prop where
  mem : k'.mem = k.mem
  pcb : ∀ p, Outward (k.pcb p) (k'.pcb p)

theorem Outside.refl : Outside k k := ⟨rfl, fun _ => rfl⟩

theorem Outside.trans (h : Outside k k₁) (h' : Outside k₁ k') : Outside k k' :=
  ⟨h'.mem.trans h.mem, fun p => (h.pcb p).trans (h'.pcb p)⟩

theorem outside_then {x : Except Fault Kernel} (h : Outside k k₁) (hx : Ensures x (Outside k₁)) :
    Ensures x (Outside k) :=
  ensures_mono hx fun _ h' => h.trans h'

theorem outside_same (hmem : k'.mem = k.mem) (hpcb : k'.pcb = k.pcb) : Outside k k' :=
  ⟨hmem, fun _ => by rw [hpcb]; rfl⟩

theorem outside_modPcb {f : PCB → PCB} (hf : ∀ q, Outward q (f q)) : Outside k (k.modPcb p f) := by
  refine ⟨rfl, fun q => ?_⟩
  show Outward _ (Function.update k.pcb p (f (k.pcb p)) q)
  rw [Function.update_apply]
  split
  · next he =>
    rw [he]
    exact hf _
  · rfl

theorem outside_setStatus (k : Kernel) (p : Nat) (s : ProcessStatus) :
    Outside k (k.setStatus p s) :=
  outside_modPcb fun _ => rfl

theorem outside_setRetvalue (k : Kernel) (p : Nat) (v : Int) : Outside k (k.setRetvalue p v) :=
  outside_modPcb fun _ => rfl

theorem outside_signal (k : Kernel) (p : Nat) (sig : BitVec 32) : Outside k (k.signal p sig) :=
  outside_modPcb fun _ => rfl

theorem mem_newItem {kind : Kind} (h : k.newItem kind = some (i, k')) : k'.mem = k.mem := by
  unfold newItem getBlock at h
  cases hget : (k.pool kind).getBlock with
  | mk b a =>
    rw [hget] at h
    cases b with
    | none => cases h
    | some b =>
      cases h
      rfl

theorem outside_newItem {kind : Kind} (h : k.newItem kind = some (i, k')) : Outside k k' :=
  outside_same (mem_newItem h) (pcb_newItem h)

theorem outside_detachFirst (k : Kernel) (l : HeadAddr) :
    Ensures (k.detachFirst l) fun x => Outside k x.2 := by
  unfold detachFirst
  exact ensures_bind_any fun _ => ensures_bind_any fun _ => ensures_ok (outside_same rfl rfl)

theorem outside_freeUnused (k : Kernel) (l : HeadAddr) (kind : Kind) (i : Nat) :
    Ensures (k.freeUnused l kind i) (Outside k) :=
  ensures_ite (fun _ => ensures_ok (outside_same rfl rfl)) fun _ => ensures_error _

/-! ## Processes and timers -/

theorem outside_awakened (k : Kernel) (q : Nat) (previous : Option Node) :
    Outside k (((k.detach .waitingList ⟨.pcb, q⟩).modPcb q fun x =>
      { x with status := .Ready, timer := none }).insert .readyList previous ⟨.pcb, q⟩) := by
  have hgone : Outside k (k.detach .waitingList ⟨.pcb, q⟩) := outside_same rfl rfl
  have hready := hgone.trans (outside_modPcb (p := q)
    (f := fun x => { x with status := .Ready, timer := none }) fun _ => rfl)
  exact hready.trans (outside_same rfl rfl)

theorem outside_wakeElapsed (fuel : Nat) (previous : Option Node) (k : Kernel) :
    Ensures (wakeElapsed fuel previous k) (Outside k) := by
  induction fuel generalizing previous k with
  | zero => exact ensures_error _
  | succ fuel ih =>
    unfold wakeElapsed
    refine ensures_bind_any fun found => ?_
    cases found with
    | none => exact ensures_ok .refl
    | some timer =>
      refine ensures_bind_any fun q => ?_
      unfold timerListRemoveCurrent
      refine ensures_bind (ensures_bind (outside_detachFirst _ _) fun x hx =>
        ensures_ok (hx.trans (outside_same rfl rfl))) fun k₁ h₁ => ?_
      exact outside_then ((outside_awakened k q previous).trans h₁) (ih _ k₁)

theorem outside_schedule (k : Kernel) : Ensures k.internalSchedule (Outside k) := by
  unfold internalSchedule
  refine ensures_bind (outside_wakeElapsed _ _ k) fun k₁ h₁ => outside_then h₁ ?_
  split
  · exact ensures_ok .refl
  · refine ensures_bind (outside_detachFirst _ _) fun x hx => ensures_bind_any fun r => ?_
    have hready : Outside x.2 ((x.2.setStatus r .Ready).append .readyList ⟨.pcb, r⟩) :=
      (outside_setStatus _ _ _).trans (outside_same rfl rfl)
    have hrun := (hx.trans hready).trans (outside_setStatus _ x.1 .Running)
    exact ensures_ok (hrun.trans (outside_same rfl rfl))

theorem outside_timer (k : Kernel) : Ensures k.timerInterrupt (Outside k) := by
  unfold timerInterrupt
  refine ensures_bind_any fun r => ensures_bind_any fun time => ?_
  have htime : Outside k { k with disastrOSTime := time } := outside_same rfl rfl
  refine ensures_bind (outside_then htime (outside_schedule _)) fun k₁ h₁ => ?_
  exact ensures_bind_any fun _ => ensures_setcontext h₁

theorem outside_timerListAdd (k : Kernel) (time : Int) (p : Nat) :
    Ensures (k.timerListAdd time p) fun x => ∀ k', x = some k' → Outside k k' := by
  unfold timerListAdd timerItemAlloc
  refine ensures_bind_any fun previous => ?_
  cases hnew : k.newItem .timerItem with
  | none =>
    refine ensures_ok fun k' he => ?_
    cases he
  | some new =>
    refine ensures_ok fun k' he => ?_
    cases he
    exact (outside_newItem hnew).trans (outside_same rfl rfl)

theorem outside_sleep (k : Kernel) : Ensures k.internalSleep (Outside k) := by
  unfold internalSleep
  refine ensures_bind_any fun r => ensures_ite (fun _ => ensures_ok (outside_setRetvalue _ _ _))
    fun _ => ensures_bind_any fun time => ensures_bind (outside_timerListAdd k _ r) ?_
  intro added hadd
  cases added with
  | none => exact ensures_ok (outside_setRetvalue _ _ _)
  | some k₁ =>
    have hparked : Outside k₁ ((k₁.setStatus r .Waiting).append .waitingList ⟨.pcb, r⟩) :=
      (outside_setStatus _ _ _).trans (outside_same rfl rfl)
    refine outside_then ((hadd k₁ rfl).trans hparked) ?_
    simp only
    split
    · exact ensures_ok (outside_same rfl rfl)
    · refine ensures_bind (outside_detachFirst _ _) fun x hx => ?_
      exact ensures_ok (hx.trans (outside_same rfl rfl))

theorem outside_blockInWait (k : Kernel) (r : Nat) : Ensures (k.blockInWait r) (Outside k) := by
  unfold blockInWait
  have hparked : Outside k ((k.setStatus r .Waiting).append .waitingList ⟨.pcb, r⟩) :=
    (outside_setStatus _ _ _).trans (outside_same rfl rfl)
  refine ensures_bind (outside_detachFirst _ _) fun x hx => ?_
  exact ensures_ok ((hparked.trans hx).trans (outside_same rfl rfl))

theorem outside_reparentChildren (r init fuel : Nat) (k : Kernel) :
    Ensures (reparentChildren r init fuel k) (Outside k) := by
  induction fuel generalizing k with
  | zero => exact ensures_error _
  | succ fuel ih =>
    unfold reparentChildren
    split
    · exact ensures_ok .refl
    · next item _ =>
      refine ensures_bind_any fun ptr => ensures_bind_any fun child => ?_
      have hmoved : Outside k ((k.detach (.children r) item).append (.children init) item) :=
        outside_same rfl rfl
      exact outside_then (hmoved.trans (outside_signal _ _ _)) (ih _)

/-! ## Exit -/

/-- The processes other than `r` are as before but for what others write. -/
def Aside (r : Nat) (k k' : Kernel) : Prop := ∀ p, p ≠ r → Outward (k.pcb p) (k'.pcb p)

theorem Outside.aside (h : Outside k k') : Aside r k k' := fun p _ => h.pcb p

theorem Aside.trans (h : Aside r k k₁) (h' : Aside r k₁ k') : Aside r k k' :=
  fun p hp => (h p hp).trans (h' p hp)

theorem aside_modPcb (r : Nat) (f : PCB → PCB) : Aside r k (k.modPcb r f) := by
  intro p hp
  show Outward _ (Function.update k.pcb r _ p)
  rw [Function.update_of_ne hp]
  rfl

theorem aside_of_pcb (h : k'.pcb = k.pcb) : Aside r k k' := by
  intro p _
  rw [h]
  rfl

theorem outside_releaseTimers (r fuel : Nat) (o : Option Node) (k : Kernel) :
    Ensures (releaseTimers r fuel o k) (Outside k) := by
  induction fuel generalizing o k with
  | zero => exact ensures_error _
  | succ fuel ih =>
    cases o with
    | none => exact ensures_ok .refl
    | some item =>
      unfold releaseTimers
      refine ensures_bind_any fun timer => ensures_ite (fun _ => ?_) fun _ => ih _ k
      exact ensures_mono (ih _ _) fun _ h => ⟨h.mem, h.pcb⟩

theorem outside_releaseDescriptors (r fuel : Nat) (k : Kernel) :
    Ensures (releaseDescriptors r fuel k) (Outside k) := by
  induction fuel generalizing k with
  | zero => exact ensures_error _
  | succ fuel ih =>
    unfold releaseDescriptors
    split
    · exact ensures_ok .refl
    · refine ensures_bind_any fun d => ensures_bind_any fun res => ensures_bind_any fun ptr => ?_
      exact ensures_mono (ih _) fun _ h => ⟨h.mem, h.pcb⟩

theorem aside_reportToParent (k : Kernel) (r parent : Nat) :
    Ensures (k.reportToParent r parent) (Aside r k) := by
  unfold reportToParent
  have hrun := outside_setStatus k parent .Running
  refine ensures_bind_any fun found => ensures_bind_any fun self => ?_
  refine ensures_bind (P := Aside r k) (fun k₁ hk₁ => ?_) fun k₁ h₁ => ?_
  · have hset := hrun.trans (outside_setRetvalue _ parent
      (((k.setStatus parent .Running).pcb r).pid))
    have hpcb := pcb_storeResult hk₁
    exact hset.aside.trans (aside_of_pcb hpcb)
  refine ensures_bind (outside_releaseTimers r _ _ k₁) fun k₂ h₂ => ?_
  refine ensures_bind (outside_releaseDescriptors r _ k₂) fun k₃ h₃ => ?_
  exact ensures_ok ((h₁.trans (h₂.trans h₃).aside).trans (aside_of_pcb rfl))

theorem aside_exit (hr : k.running = some r) : Ensures k.internalExit (Aside r k) := by
  unfold internalExit
  refine ensures_bind (P := fun r' => r' = r) (fun r' hr' => ?_) fun r' hr' => ?_
  · exact Option.some.inj ((deref_eq_ok.mp hr').symm.trans hr)
  subst hr'
  have hvalue : Aside r' k (k.modPcb r' fun q => { q with returnValue := toInt (q.syscallArgs 0) }) :=
    aside_modPcb r' _
  simp only
  split
  · exact ensures_error _
  refine ensures_bind (outside_reparentChildren r' _ _ _) fun k₁ h₁ => ?_
  refine ensures_bind_any fun parent => ?_
  have hzombie : Outside k₁ ((k₁.setStatus r' .Zombie).append .zombieList ⟨.pcb, r'⟩) :=
    (outside_setStatus k₁ r' .Zombie).trans (outside_same rfl rfl)
  have hdead := hvalue.trans ((h₁.trans hzombie).trans (outside_signal _ parent DSOS_SIGCHLD)).aside
  refine ensures_ite (fun _ => ?_) fun _ => ?_
  · exact ensures_mono (aside_reportToParent _ r' parent) fun _ h => hdead.trans h
  · refine ensures_bind (outside_detachFirst _ _) fun x hx => ?_
    have hrun := hx.trans (outside_setStatus _ x.1 .Running)
    exact ensures_ok ((hdead.trans hrun.aside).trans (aside_of_pcb rfl))

/-! ## Message queues -/

theorem mem_addQueues (mq : Nat) (i : Int) (n : Nat) (k : Kernel) :
    (addQueues mq i n k).2.mem = k.mem := by
  induction n generalizing i k with
  | zero => rfl
  | succ n ih =>
    unfold addQueues
    cases hq : k.queueAlloc i with
    | none => rfl
    | some new =>
      refine (ih (i + 1) _).trans ?_
      unfold queueAlloc at hq
      split at hq
      · cases hq
      · next hnew =>
        cases hq
        have hmem := mem_newItem hnew
        exact hmem

theorem mem_openDescriptor (k : Kernel) (t : Table) (p object : Nat) (err : Int) :
    (k.openDescriptor t p object err).mem = k.mem := by
  unfold openDescriptor descriptorAlloc
  cases hnew : k.newItem t.descriptorKind with
  | none => rfl
  | some new =>
    simp only [descriptorPtrAlloc]
    generalize hk₂ : new.2.setDescriptor t new.1 _ = k₂
    have hk₂ : k₂.mem = k.mem := by
      have hmem := mem_newItem hnew
      rw [← hk₂]
      exact hmem
    cases hptr : k₂.newItem t.pointerKind with
    | none => exact hk₂
    | some ptr => exact (mem_newItem hptr).trans hk₂

theorem mem_mqOpen (k : Kernel) : Ensures k.internalMqOpen fun k' => k'.mem = k.mem := by
  unfold internalMqOpen
  refine ensures_bind_any fun r => ensures_ite (fun _ => ensures_ok rfl) fun _ =>
    ensures_ite (fun _ => ensures_ok rfl) fun _ => ensures_bind_any fun found => ?_
  split
  · refine ensures_ite (fun _ => ensures_ok rfl) fun _ => ?_
    intro k' hk'
    rw [(openFound_ok hk').1]
    exact mem_openDescriptor k _ _ _ _
  · refine ensures_ite (fun _ => ensures_ite (fun _ => ensures_ok rfl) fun _ =>
      ensures_ite (fun _ => ensures_ok rfl) fun _ => ?_) fun _ => ensures_ok rfl
    split
    · exact ensures_ok rfl
    · next mq k₁ halloc =>
      have hnew : k₁.mem = k.mem := by
        unfold messageQueueAlloc at halloc
        split at halloc
        · cases halloc
        · next hnew =>
          cases halloc
          have hmem := mem_newItem hnew
          exact hmem
      have hadd := mem_addQueues mq 0 (toInt (k.arg r 2) + 1).toNat k₁
      split
      · next hq =>
        rw [hq] at hadd
        exact ensures_ok (hadd.trans hnew)
      · next hq =>
        rw [hq] at hadd
        exact ensures_ok ((mem_openDescriptor _ _ _ _ _).trans (hadd.trans hnew))

theorem outside_removeQueues (mq n : Nat) (k : Kernel) :
    Ensures (removeQueues mq n k) (Outside k) := by
  induction n generalizing k with
  | zero => exact ensures_ok .refl
  | succ n ih =>
    unfold removeQueues
    refine ensures_bind (outside_detachFirst _ _) fun x hx => outside_then hx ?_
    refine ensures_ite (fun _ => ?_) fun _ => ih _
    exact ensures_bind (outside_freeUnused _ _ _ _) fun k₁ h₁ => outside_then h₁ (ih k₁)

theorem mem_mqUnlink (h : internalMqUnlink k = .ok k') : k'.mem = k.mem := by
  obtain ⟨r, _, ⟨v, rfl⟩ | ⟨mq, k₁, k₂, _, _, _, hrun, hfree, rfl⟩⟩ := mqUnlink_cases h
  · rfl
  · have h₁ := (outside_removeQueues mq _ _ k₁ hrun).mem
    have h₂ := (outside_freeUnused _ _ _ _ k₂ hfree).mem
    exact h₂.trans h₁

theorem mem_mqWrite (h : internalMqWrite k = .ok k') : k'.mem = k.mem := by
  obtain ⟨r, _, ⟨v, rfl⟩ | ⟨mq, q, m, hw⟩⟩ := mqWrite_cases h
  · rfl
  · obtain ⟨k₁, hnew, rfl⟩ := hw.eq
    have hmem := mem_newItem hnew
    exact hmem

/-! ## Who writes where -/

/-- The address lies in the `int` at `ptr`. -/
def InInt (ptr addr : Int) : Prop := ptr ≠ 0 ∧ ptr ≤ addr ∧ addr < ptr + 4

/-- The action may write the byte at `addr`. A `wait` that finds somebody stores the value of
the child, an exit does it for the parent that waits, and a read stores one byte of the text
and the class. -/
inductive Writes (k : Kernel) : Action → Int → Prop
  | stores (addr : Int) (v : UInt8) : Writes k (.store addr v) addr
  | collects {args : List Int} {addr : Int} (hin : InInt (args.getD 1 0) addr) :
      Writes k (.syscall DSOS_CALL_WAIT args) addr
  | reports {r p : Nat} {args : List Int} {addr : Int} (hr : k.running = some r)
      (hparent : (k.pcb r).parent = some p) (hwaits : Awaits k p r)
      (hin : InInt (k.arg p 1) addr) : Writes k (.syscall DSOS_CALL_EXIT args) addr
  | text (args : List Int) : Writes k (.syscall DSOS_CALL_MQREAD args) (args.getD 1 0)
  | priority {args : List Int} {addr : Int} (hin : InInt (args.getD 3 0) addr) :
      Writes k (.syscall DSOS_CALL_MQREAD args) addr

theorem mem_storeResult {ptr addr : Int} (h : k.storeResult ptr v = .ok k')
    (hout : ¬ InInt ptr addr) : k'.mem addr = k.mem addr := by
  unfold storeResult at h
  split at h
  · next hptr =>
    obtain ⟨_, rfl⟩ := storeInt_eq_ok.mp h
    exact if_neg fun hin => hout ⟨hptr, hin⟩
  · cases h
    rfl

/-- The loop stores one byte and the class, or nothing. -/
theorem mem_readClasses {buf size priority j addr : Int} (hbuf : addr ≠ buf)
    (hout : ¬ InInt priority addr) :
    Ensures (readClasses r mq buf size priority j n k) fun k' => k'.mem addr = k.mem addr := by
  induction n generalizing j k with
  | zero => exact ensures_ok rfl
  | succ n ih =>
    refine ensures_bind_any fun found => ?_
    cases found with
    | none => exact ensures_ok rfl
    | some q =>
      refine ensures_ite (fun _ => ?_) fun _ => ih
      refine ensures_bind (outside_detachFirst k _) fun x hx => ?_
      refine ensures_ite (fun _ k' hk' => ?_) fun _ => ?_
      · have hd := deliver_iff.mp hk'
        have hin : ¬ (priority ≤ addr ∧ addr < priority + 4) := fun hin =>
          hout ⟨hd.pointers.2.2, hin⟩
        rw [hd.mem]
        simp only [if_neg hin, Function.update_of_ne hbuf]
        rw [hx.mem]
      · refine ensures_mono ih fun k' hk' => ?_
        rw [hk', hx.mem]

theorem mem_mqRead {addr : Int} (hr : k.running = some r) (h : internalMqRead k = .ok k')
    (hbuf : addr ≠ k.arg r 1) (hout : ¬ InInt (k.arg r 3) addr) : k'.mem addr = k.mem addr := by
  obtain ⟨r', hr', ⟨v, rfl⟩ | ⟨d, mq, _, _, hloop⟩⟩ := mqRead_cases h
  · rfl
  · obtain rfl : r = r' := Option.some.inj (hr.symm.trans hr')
    exact mem_readClasses hbuf hout k' hloop

/-- A parent that waits for the running process is another one. -/
theorem ne_of_awaits (hc : Coherent k L) (hr : k.running = some r)
    (hw : (k.pcb p).status = .Waiting) : p ≠ r := by
  rintro rfl
  exact (hc.sound.placed.not_mem_of_running hr).2.1 (hc.sound.marked.waits p hw)

theorem arg_died {parent : Nat} {L₁ : HeadAddr → List Node} (hd : Died k L r i parent k₁ L₁)
    (p j : Nat) : k₁.arg p j = k.arg p j := by
  obtain ⟨sig, hinfo⟩ := @info_died (view k L) r i parent p
  have hargs := congrArg (fun s => (s.info p).syscallArgs j) hd.view_eq
  rw [hinfo] at hargs
  exact hargs

/-- The value that an exit stores goes to the parent that waits. -/
theorem mem_reported {parent ptr : Nat} {addr : Int} {L₁ : HeadAddr → List Node}
    (hd : Died k L r i parent k₁ L₁) (h : Reported k₁ L₁ r parent ptr k' L')
    (hout : ¬ InInt (k.arg parent 1) addr) : k'.mem addr = k.mem addr := by
  have harg : k₁.arg parent 1 = k.arg parent 1 := arg_died hd parent 1
  have hmem₁ : k₁.mem = k.mem := by rw [hd.rest]
  have hmem := mem_storeResult h.stored (harg.symm ▸ hout)
  rw [← hmem₁]
  exact hmem

/-- What an exit reports to a waiting parent is written to the place the parent has given. -/
theorem writes_reported {parent : Nat} {addr : Int} (hc : Coherent k L) (hr : k.running = some r)
    (hparent : ((k.setCall r DSOS_CALL_EXIT args).pcb r).parent = some parent)
    (hw : WaitsFor (view (k.setCall r DSOS_CALL_EXIT args) L) parent r)
    (hin : InInt ((k.setCall r DSOS_CALL_EXIT args).arg parent 1) addr) :
    Writes k (.syscall DSOS_CALL_EXIT args) addr := by
  have hc₁ : Coherent (k.setCall r DSOS_CALL_EXIT args) L := coherent_setCall hc hr
  have hne : parent ≠ r := ne_of_awaits hc₁ hr hw.1
  have hsame : (k.setCall r DSOS_CALL_EXIT args).pcb parent = k.pcb parent :=
    Function.update_of_ne hne _ _
  have hself : ((k.setCall r DSOS_CALL_EXIT args).pcb r).parent = (k.pcb r).parent := by
    show (Function.update k.pcb r _ r).parent = _
    rw [Function.update_self]
  have hpid : ((k.setCall r DSOS_CALL_EXIT args).pcb r).pid = (k.pcb r).pid := pid_setCall
  refine .reports hr (hself ▸ hparent) ?_ ?_
  · obtain ⟨hst, hnum, harg⟩ := hw
    have hst : ((k.setCall r DSOS_CALL_EXIT args).pcb parent).status = .Waiting := hst
    have hnum : ((k.setCall r DSOS_CALL_EXIT args).pcb parent).syscallNum = DSOS_CALL_WAIT := hnum
    have harg : ((k.setCall r DSOS_CALL_EXIT args).pcb parent).syscallArgs 0 = 0 ∨
      ((k.setCall r DSOS_CALL_EXIT args).pcb parent).syscallArgs 0 =
        ((k.setCall r DSOS_CALL_EXIT args).pcb r).pid := harg
    rw [hsame] at hst hnum harg
    exact ⟨hst, hnum, hpid ▸ harg⟩
  · unfold arg at hin ⊢
    rwa [hsame] at hin

theorem mem_wait (hc : Coherent k L) (hr : k.running = some r) {addr : Int}
    (h : internalWait k = .ok k') (hout : ¬ InInt (k.arg r 1) addr) : k'.mem addr = k.mem addr := by
  rcases wait_refines hc hr h with ⟨rfl, _⟩ | ⟨c, ptr, L', _, _, _, _, hcol, _⟩ |
    ⟨_, _, _, _, _, hb, _⟩
  · rfl
  · have hmem := mem_storeResult hcol.stored hout
    exact hmem
  · exact congrFun (outside_blockInWait k r k' hb).mem addr

theorem mem_semOpen (h : SemOpened k L r k' L') : k'.mem = k.mem := by
  cases h with
  | refused => rfl
  | opened _ h => rw [h.rest]
  | created hnew h => rw [h.rest, hnew.rest]
  | createdOnly hnew =>
    have hmem := congrArg Kernel.mem hnew.rest
    exact hmem

theorem mem_semWait (h : SemWaited k L r k' L') : k'.mem = k.mem := by
  cases h with
  | refused => rfl
  | granted => rfl
  | blocked _ _ _ h => rw [h.rest]

theorem mem_semPost (h : SemPosted k L r k' L') : k'.mem = k.mem := by
  cases h with
  | refused => rfl
  | posted => rfl
  | woken _ _ h => rw [h.rest]

theorem mem_semClose (h : SemClosed k L r k' L') : k'.mem = k.mem := by
  cases h with
  | refused => rfl
  | closed _ _ _ _ h =>
    have hmem := congrArg Kernel.mem h.rest
    exact hmem
  | destroyed _ _ _ _ h hd =>
    have hmem₁ := congrArg Kernel.mem h.rest
    have hmem₂ := congrArg Kernel.mem hd.rest
    exact hmem₂.trans hmem₁

theorem mem_openResource (h : ResOpened k L r k' L') : k'.mem = k.mem := by
  cases h with
  | refused => rfl
  | opened _ h => rw [h.rest]
  | created hnew h => rw [h.rest, hnew.rest]
  | createdOnly hnew =>
    have hmem := congrArg Kernel.mem hnew.rest
    exact hmem

theorem mem_closeResource (h : ResClosed k L r k' L') : k'.mem = k.mem := by
  cases h with
  | refused => rfl
  | closed _ _ _ h =>
    have hmem := congrArg Kernel.mem h.rest
    exact hmem

theorem mem_destroyResource (h : ResDestroyed k L r k' L') : k'.mem = k.mem := by
  cases h with
  | refused => rfl
  | destroyed h =>
    have hmem := congrArg Kernel.mem h.rest
    exact hmem

theorem mem_mqClose (h : MqClosed k L r k' L') : k'.mem = k.mem := by
  cases h with
  | refused => rfl
  | closed _ _ _ _ _ h =>
    have hmem := congrArg Kernel.mem h.rest
    exact hmem

/-- A byte changes only by an action that may write it. -/
theorem mem_acted {addr : Int} (hc : Coherent k L) (h : Acted k L a k' L')
    (hact : act k a = .ok k') (hno : ¬ Writes k a addr) : k'.mem addr = k.mem addr := by
  cases h with
  | ignored => rfl
  | stored b v =>
    refine Function.update_of_ne ?_ _ _
    rintro rfl
    exact hno (.stores _ v)
  | ticked => exact congrFun (outside_timer k k' hact).mem addr
  | restarted hre => rw [hre.rest]
  | @called r num args _ _ hr h =>
    have hr₁ : (k.setCall r num args).running = some r := hr
    have hc₁ : Coherent (k.setCall r num args) L := coherent_setCall hc hr
    have hact : k.disastrOSSyscall num args = .ok k' := hact
    cases h with
    | refused => rfl
    | preempted _ h => exact congrFun (outside_schedule _ k' h).mem addr
    | slept _ h => exact congrFun (outside_sleep _ k' h).mem addr
    | spawned _ h => exact congrFun (congrArg Kernel.mem h.rest) addr
    | collected | waits =>
      have hact : internalWait (k.setCall r DSOS_CALL_WAIT args) = .ok k' :=
        syscall_handled args rfl (by decide) (by decide) hr hact
      have harg : (k.setCall r DSOS_CALL_WAIT args).arg r 1 = args.getD 1 0 := arg_setCall (by decide)
      have hmem := mem_wait hc₁ hr₁ hact fun hin => hno (.collects (harg ▸ hin))
      exact hmem
    | exited hd _ _ hk _ =>
      have hmem := congrArg Kernel.mem hd.rest
      rw [hk]
      exact congrFun hmem addr
    | @reported _ parent _ _ _ _ _ hd hw h =>
      have hmem := mem_reported hd h fun hin => hno
        (writes_reported hc hr hd.parent_eq ((waitsFor_died hc₁.sound hr).mp hw) hin)
      exact hmem
    | semOpen h => exact congrFun (mem_semOpen h) addr
    | semWait h => exact congrFun (mem_semWait h) addr
    | semPost h => exact congrFun (mem_semPost h) addr
    | semClose h => exact congrFun (mem_semClose h) addr
    | openResource h => exact congrFun (mem_openResource h) addr
    | closeResource h => exact congrFun (mem_closeResource h) addr
    | destroyResource h => exact congrFun (mem_destroyResource h) addr
    | mqOpen =>
      have hact : internalMqOpen (k.setCall r DSOS_CALL_MQOPEN args) = .ok k' :=
        syscall_handled args rfl (by decide) (by decide) hr hact
      exact congrFun (mem_mqOpen _ k' hact) addr
    | mqClose h => exact congrFun (mem_mqClose h) addr
    | mqUse hnum =>
      rcases hnum with rfl | rfl | rfl
      · have hact : internalMqRead (k.setCall r DSOS_CALL_MQREAD args) = .ok k' :=
          syscall_handled args rfl (by decide) (by decide) hr hact
        have hbuf : (k.setCall r DSOS_CALL_MQREAD args).arg r 1 = args.getD 1 0 :=
          arg_setCall (by decide)
        have hprio : (k.setCall r DSOS_CALL_MQREAD args).arg r 3 = args.getD 3 0 :=
          arg_setCall (by decide)
        have hne : addr ≠ (k.setCall r DSOS_CALL_MQREAD args).arg r 1 := by
          rw [hbuf]
          rintro rfl
          exact hno (.text args)
        have hmem := mem_mqRead hr₁ hact hne fun hin => hno (.priority (hprio ▸ hin))
        exact hmem
      · have hact : internalMqWrite (k.setCall r DSOS_CALL_MQWRITE args) = .ok k' :=
          syscall_handled args rfl (by decide) (by decide) hr hact
        exact congrFun (mem_mqWrite hact) addr
      · have hact : internalMqUnlink (k.setCall r DSOS_CALL_MQUNLINK args) = .ok k' :=
          syscall_handled args rfl (by decide) (by decide) hr hact
        exact congrFun (mem_mqUnlink hact) addr

/-- Over every run that contains no action that may write the byte at `addr`, it keeps its
value. -/
theorem user_byte_kept {addr : Int} (hs : Started mem k₀)
    (h : Run act (fun _ a => Ordinary a) k₀ as k)
    (h' : Run act (fun k a => Ordinary a ∧ ¬ Writes k a addr) k bs k') :
    k'.mem addr = k.mem addr := by
  obtain ⟨L, hc⟩ := coherent_run hs h
  have hinv : (∃ L', Coherent k' L') ∧ k'.mem addr = k.mem addr := by
    refine run_invariant (I := fun k₁ => (∃ L', Coherent k₁ L') ∧ k₁.mem addr = k.mem addr) ?_
      ⟨⟨L, hc⟩, rfl⟩ h'
    rintro k₁ a k₂ ⟨⟨L₁, hc₁⟩, hmem⟩ ⟨ha, hno⟩ hact
    obtain ⟨L₂, hacted, hc₂, _⟩ := act_done hc₁ ha hact
    exact ⟨⟨L₂, hc₂⟩, (mem_acted hc₁ hacted hact hno).trans hmem⟩
  exact hinv.2

/-- Init waits for its child with a result at 100, and the child exits: the byte at 200 is not
touched. -/
theorem user_byte_kept_exit : ∃ k₀ k k' : Kernel, Started (fun _ => 0) k₀ ∧
    Run act (fun _ a => Ordinary a) k₀
      [.syscall DSOS_CALL_SPAWN [], .syscall DSOS_CALL_WAIT [0, 100]] k ∧
    Run act (fun k a => Ordinary a ∧ ¬ Writes k a 200) k [.syscall DSOS_CALL_EXIT [7]] k' ∧
    k'.mem 100 = 7 ∧ k'.mem 200 = k.mem 200 := by
  obtain ⟨k₀, k, hs, h, htest⟩ := exists_run_from_start (fun _ a => Ordinary a)
    (fun _ a => decide (Ordinary a))
    [.syscall DSOS_CALL_SPAWN [], .syscall DSOS_CALL_WAIT [0, 100]]
    (fun k => k.running = some 1 ∧ (k.pcb 1).parent = some 0 ∧ k.arg 0 1 = 100 ∧
      ((act k (.syscall DSOS_CALL_EXIT [7])).toOption.any fun k' => k'.mem 100 = 7) = true)
    (fun _ _ hcheck => of_decide_eq_true hcheck) (by decide +kernel)
  obtain ⟨hr, hparent, harg, hexit⟩ := of_decide_eq_true htest
  obtain ⟨k', hact, hmem⟩ := exists_of_any hexit
  have hno : ¬ Writes k (.syscall DSOS_CALL_EXIT [7]) 200 := by
    intro hw
    cases hw with
    | reports hr' hparent' _ hin =>
      rw [hr, Option.some.injEq] at hr'
      subst hr'
      rw [hparent, Option.some.injEq] at hparent'
      subst hparent'
      rw [harg] at hin
      exact absurd hin.2.2 (by decide)
  have h' : Run act (fun k a => Ordinary a ∧ ¬ Writes k a 200) k [.syscall DSOS_CALL_EXIT [7]] k' :=
    .snoc (.nil k) ⟨trivial, hno⟩ hact
  exact ⟨k₀, k, k', hs, h, h', hmem, user_byte_kept hs h h'⟩

/-! ## A process that does not run -/

/-- Nobody but the scheduler and its relatives has written to the process `p`, and its
descriptors are as before. -/
structure Spared (p : Nat) (k : Kernel) (L : HeadAddr → List Node) (k' : Kernel)
    (L' : HeadAddr → List Node) : Prop where
  pcb : Outward (k.pcb p) (k'.pcb p)
  opened : ∀ t, L' (.opened t p) = L (.opened t p)
  descriptor : ∀ t, ∀ x ∈ L (.opened t p), k'.descriptor t x.idx = k.descriptor t x.idx

variable {L₁ : HeadAddr → List Node} {t : Table} {o d ptr : Nat}

theorem Spared.trans (h : Spared p k L k₁ L₁) (h' : Spared p k₁ L₁ k' L') :
    Spared p k L k' L' := by
  refine ⟨h.pcb.trans h'.pcb, fun t => (h'.opened t).trans (h.opened t), fun t x hx => ?_⟩
  have hx₁ : x ∈ L₁ (.opened t p) := by
    rw [h.opened]
    exact hx
  exact (h'.descriptor t x hx₁).trans (h.descriptor t x hx)

theorem spared_of_kept (hpcb : Outward (k.pcb p) (k'.pcb p)) (h : ∀ t, FdsKept t k L k' L') :
    Spared p k L k' L' :=
  ⟨hpcb, fun t => (h t).opened p, fun t x _ => by rw [(h t).descriptor]⟩

theorem spared_same (hpcb : k'.pcb = k.pcb) (hdescriptor : k'.descriptor = k.descriptor) :
    Spared p k L k' L :=
  ⟨by rw [hpcb]; rfl, fun _ => rfl, fun _ _ _ => by rw [hdescriptor]⟩

theorem spared_modPcb {f : PCB → PCB} (hp : p ≠ r) : Spared p k L (k.modPcb r f) L :=
  ⟨aside_modPcb r f p hp, fun _ => rfl, fun _ _ _ => rfl⟩

theorem spared_setRetvalue (v : Int) : Spared p k L (k.setRetvalue r v) L :=
  ⟨(outside_setRetvalue k r v).pcb p, fun _ => rfl, fun _ _ _ => rfl⟩

theorem spared_created (h : Created t k L o k' L') : Spared p k L k' L' := by
  refine spared_of_kept ?_ fun _ => fdsKept_created h
  rw [h.rest]
  rfl

theorem spared_destroyed (h : Destroyed t k L o k' L') : Spared p k L k' L' := by
  refine spared_of_kept ?_ fun _ => fdsKept_destroyed h
  rw [h.rest]
  rfl

theorem spared_queued (h : Queued k L k' L') : Spared p k L k' L' := by
  refine spared_of_kept ?_ fun _ => fdsKept_queued h
  rw [h.pcb p]
  rfl

/-- A new descriptor of `r` lies in another block than those of `p`. -/
theorem spared_added (hs : Strung Regular Retained k L) (hp : p ≠ r)
    (h : Added Regular Retained k L t r o d ptr k') :
    Spared p k L k' (withOpened L t r o d ptr) := by
  refine ⟨?_, fun t' => ?_, fun t' x hx => ?_⟩
  · rw [h.pcb, Function.update_of_ne hp]
    rfl
  · unfold withOpened
    rw [Function.update_of_ne (by simp), Function.update_of_ne (by simp [hp])]
  · rw [h.descriptor, Function.update_apply]
    split
    · next he =>
      subst he
      have hreg : Regular (HeadAddr.opened t' p).nodeKind := regular_descriptorKind t'
      have hlive := hs.live _ x hreg hx
      rw [hs.kind _ x hreg hx] at hlive
      refine Function.update_of_ne ?_ _ _
      rintro rfl
      exact h.freshDescriptor hlive
    · rfl

theorem spared_removed (hp : p ≠ r) (h : Removed Regular Retained k L t r o d ptr k') :
    Spared p k L k' (withClosed L t r o d ptr) := by
  refine ⟨by rw [h.rest]; rfl, fun t' => ?_, fun t' x _ => by rw [h.rest]⟩
  unfold withClosed
  rw [Function.update_of_ne (by simp), Function.update_of_ne (by simp [hp])]

theorem spared_semOpen (hc : Coherent k L) (hp : p ≠ r) (h : SemOpened k L r k' L') :
    Spared p k L k' L' := by
  cases h with
  | refused => exact spared_setRetvalue _
  | opened _ h => exact spared_added hc.tidy.strung hp h
  | created hnew h =>
    exact (spared_created hnew.created).trans (spared_added hnew.created.woven.strung hp h)
  | createdOnly hnew => exact (spared_created hnew.created).trans (spared_setRetvalue _)

theorem spared_semWait (h : SemWaited k L r k' L') : Spared p k L k' L' := by
  cases h with
  | refused => exact spared_setRetvalue _
  | @granted d sem =>
    have hcount : Spared p k L (k.modSemaphore sem fun s => { s with count := s.count - 1 }) L :=
      spared_same rfl rfl
    exact hcount.trans (spared_setRetvalue _)
  | blocked _ _ _ h =>
    refine ⟨by rw [h.rest]; rfl, fun t => ?_, fun t x _ => by rw [h.rest]⟩
    exact waitLists_of_ne (by simp) (by simp) (by simp) (by simp)

theorem spared_semPost (h : SemPosted k L r k' L') : Spared p k L k' L' := by
  cases h with
  | refused => exact spared_setRetvalue _
  | @posted d sem =>
    have hcount : Spared p k L (k.modSemaphore sem fun s =>
      { s with count := (k.semaphore sem).count + 1 }) L := spared_same rfl rfl
    exact hcount.trans (spared_setRetvalue _)
  | woken _ _ h =>
    refine ⟨by rw [h.rest]; rfl, fun t => ?_, fun t x _ => by rw [h.rest]⟩
    exact postLists_of_ne (by simp) (by simp) (by simp) (by simp)

theorem spared_semClose (hp : p ≠ r) (h : SemClosed k L r k' L') : Spared p k L k' L' := by
  cases h with
  | refused => exact spared_setRetvalue _
  | closed _ _ _ _ h =>
    exact ((spared_removed hp h).trans (spared_modPcb hp)).trans (spared_setRetvalue _)
  | destroyed _ _ _ _ h hd =>
    exact (((spared_removed hp h).trans (spared_modPcb hp)).trans (spared_destroyed hd)).trans
      (spared_setRetvalue _)

theorem spared_openResource (hc : Coherent k L) (hp : p ≠ r) (h : ResOpened k L r k' L') :
    Spared p k L k' L' := by
  cases h with
  | refused v => exact spared_setRetvalue v
  | opened _ h => exact spared_added hc.tidy.strung hp h
  | created hnew h =>
    exact (spared_created hnew.created).trans (spared_added hnew.created.woven.strung hp h)
  | createdOnly hnew v => exact (spared_created hnew.created).trans (spared_setRetvalue v)

theorem spared_closeResource (hp : p ≠ r) (h : ResClosed k L r k' L') : Spared p k L k' L' := by
  cases h with
  | refused => exact spared_setRetvalue _
  | closed _ _ _ h => exact (spared_removed hp h).trans (spared_setRetvalue _)

theorem spared_destroyResource (h : ResDestroyed k L r k' L') : Spared p k L k' L' := by
  cases h with
  | refused v => exact spared_setRetvalue v
  | destroyed h => exact (spared_destroyed h).trans (spared_setRetvalue _)

theorem spared_mqOpen (hp : p ≠ r) (h : MqOpened k L r k' L') : Spared p k L k' L' := by
  cases h with
  | unopened h => exact spared_queued h
  | opened hq _ _ h => exact (spared_queued hq).trans (spared_added hq.settled.strung hp h)

theorem spared_mqClose (hp : p ≠ r) (h : MqClosed k L r k' L') : Spared p k L k' L' := by
  cases h with
  | refused v => exact spared_setRetvalue v
  | closed v _ _ _ _ h =>
    exact ((spared_removed hp h).trans (spared_modPcb hp)).trans (spared_setRetvalue v)

theorem spared_spawned {c : Nat} (hp : p ≠ r) (hlive : Allocated k .pcb p)
    (h : Spawned k L r c ptr k' L') : Spared p k L k' L' := by
  have hne : p ≠ c := fun he => h.fresh (he ▸ hlive)
  refine ⟨?_, fun t => ?_, fun t x _ => by rw [h.rest]⟩
  · rw [h.pcb, Function.update_of_ne hp, Function.update_of_ne hne]
    rfl
  · rw [h.lists, Function.update_of_ne (by simp), Function.update_of_ne (by simp)]
    exact allocLists_of_ne (by simp [hne]) (by simp) (by simp [hne])

theorem spared_restarted {c : Nat} (hlive : Allocated k .pcb p) (h : Restarted k L c k' L') :
    Spared p k L k' L' := by
  have hne : p ≠ c := fun he => h.fresh (he ▸ hlive)
  refine ⟨?_, fun t => h.lists_of_ne (by simp [hne]) (by simp), fun t x _ => by rw [h.rest]⟩
  rw [h.pcb, Function.update_of_ne hne]
  rfl

theorem spared_collected {c : Nat} (hp : p ≠ r) (h : Collected k L r ptr c k' L') :
    Spared p k L k' L' := by
  refine spared_of_kept ?_ fun _ => fdsKept_collected h
  rw [h.pcb, Function.update_of_ne hp]
  rfl

theorem spared_blocked (hs : Scheduled k L k' L') (h : Outside k k') : Spared p k L k' L' :=
  spared_of_kept (h.pcb p) fun _ => fdsKept_scheduled hs

/-- A process that blocks in `wait` is parked. -/
theorem wait_parks {c : Nat} (hr : k.running = some r)
    (hscan : k.awaitedChild (toInt (k.arg r 0)) LOOP_BOUND (k.head (.children r)).first none =
      .ok (some (ptr, c))) (hz : (k.pcb c).status ≠ .Zombie) (h : internalWait k = .ok k') :
    k.blockInWait r = .ok k' := by
  unfold internalWait at h
  simp only [hr, deref, bind, Except.bind] at h
  split at h
  · next hfirst =>
    rw [hfirst] at hscan
    cases hscan
  · next hfirst =>
    rw [hfirst] at hscan
    simp only [hscan, if_neg hz] at h
    exact h

theorem spared_called (hc : Coherent k L) (hr : k.running = some r) (hp : p ≠ r)
    (hlive : Allocated k .pcb p) (h : Called k L r num k' L')
    (hwait : num = DSOS_CALL_WAIT → internalWait k = .ok k')
    (hexit : num = DSOS_CALL_EXIT → internalExit k = .ok k') : Spared p k L k' L' := by
  cases h with
  | refused num v => exact spared_setRetvalue v
  | preempted hs h => exact spared_blocked hs (outside_schedule k k' h)
  | slept hs h => exact spared_blocked hs (outside_sleep k k' h)
  | spawned _ h => exact spared_spawned hp hlive h
  | collected _ _ _ _ h => exact spared_collected hp h
  | waits hscan hz hs =>
    exact spared_blocked hs (outside_blockInWait k r k' (wait_parks hr hscan hz (hwait rfl)))
  | exited _ _ hb =>
    exact spared_of_kept (aside_exit hr k' (hexit rfl) p hp) fun _ => fdsKept_beside hb
  | reported hd _ h =>
    refine ⟨aside_exit hr k' (hexit rfl) p hp, fun t => ?_, fun t x _ => ?_⟩
    · have hopened := hd.beside.lists (.opened t p) not_false
      rw [← hopened]
      exact h.lists _ (by simp) (by simp) (by simp) (by simp [hp]) (by simp)
    · rw [h.rest, hd.rest]
  | semOpen h => exact spared_semOpen hc hp h
  | semWait h => exact spared_semWait h
  | semPost h => exact spared_semPost h
  | semClose h => exact spared_semClose hp h
  | openResource h => exact spared_openResource hc hp h
  | closeResource h => exact spared_closeResource hp h
  | destroyResource h => exact spared_destroyResource h
  | mqOpen h => exact spared_mqOpen hp h
  | mqClose h => exact spared_mqClose hp h
  | mqUse _ h => exact spared_queued h

/-- What others do leaves a process alone. -/
theorem spared_acted (hc : Coherent k L) (h : Acted k L a k' L') (hact : act k a = .ok k')
    (hp : k.running ≠ some p) (hlive : Allocated k .pcb p) : Spared p k L k' L' := by
  cases h with
  | ignored => exact spared_same rfl rfl
  | stored => exact spared_same rfl rfl
  | ticked _ hs =>
    have hkept : ∀ t, FdsKept t k L k' L' := fun t =>
      ⟨(fdsKept_scheduled hs).descriptor, (fdsKept_scheduled hs).opened,
        (fdsKept_scheduled hs).counter⟩
    exact spared_of_kept ((outside_timer k k' hact).pcb p) hkept
  | restarted hre => exact spared_restarted hlive hre
  | @called r num args _ _ hr h =>
    have hpr : p ≠ r := fun he => hp (he ▸ hr)
    have hact : k.disastrOSSyscall num args = .ok k' := hact
    have hset : Spared p k L (k.setCall r num args) L := spared_modPcb hpr
    refine hset.trans (spared_called (coherent_setCall hc hr) hr hpr hlive h ?_ ?_)
    · rintro rfl
      exact syscall_handled args rfl (by decide) (by decide) hr hact
    · rintro rfl
      exact syscall_handled args rfl (by decide) (by decide) hr hact

/-- While a process is there and does not run, whatever the others do, its process control block
changes only in its status, its timer, its pending signals and its return register, apart from
its list item and its children, and it keeps its open descriptors. -/
theorem process_left_alone (hs : Started mem k₀) (h : Run act (fun _ a => Ordinary a) k₀ as k)
    (h' : Run act (fun k a => Ordinary a ∧ Allocated k .pcb p ∧ k.running ≠ some p) k bs k') :
    Outward (k.pcb p) (k'.pcb p) ∧ ∀ t x, (Linked k' (.opened t p) x ↔ Linked k (.opened t p) x) ∧
      (Linked k (.opened t p) x → k'.descriptor t x.idx = k.descriptor t x.idx) := by
  obtain ⟨L, hc⟩ := coherent_run hs h
  obtain ⟨L', hc', hkept⟩ : ∃ L', Coherent k' L' ∧ Spared p k L k' L' := by
    refine run_invariant (I := fun k₁ => ∃ L₁, Coherent k₁ L₁ ∧ Spared p k L k₁ L₁) ?_
      ⟨L, hc, spared_same rfl rfl⟩ h'
    rintro k₁ a k₂ ⟨L₁, hc₁, hkept⟩ ⟨ha, hlive, hp⟩ hact
    obtain ⟨L₂, hacted, hc₂, _⟩ := act_done hc₁ ha hact
    exact ⟨L₂, hc₂, hkept.trans (spared_acted hc₁ hacted hact hp hlive)⟩
  refine ⟨hkept.pcb, fun t x => ?_⟩
  have hreg : Regular (HeadAddr.opened t p).nodeKind := regular_descriptorKind t
  rw [hc'.tidy.strung.linked_iff hreg, hc.tidy.strung.linked_iff hreg, hkept.opened]
  exact ⟨Iff.rfl, fun hx => hkept.descriptor t x hx⟩

/-- Init opens a semaphore while its child is ready. -/
theorem process_left_alone_child : ∃ k₀ k k' : Kernel, Started (fun _ => 0) k₀ ∧
    Run act (fun _ a => Ordinary a) k₀ [.syscall DSOS_CALL_SPAWN []] k ∧
    Run act (fun k a => Ordinary a ∧ Allocated k .pcb 1 ∧ k.running ≠ some 1) k
      [.syscall DSOS_CALL_SEMOPEN [7, 1, 1]] k' ∧
    (k'.head (.opened .semaphore 0)).size = 1 ∧ Outward (k.pcb 1) (k'.pcb 1) ∧
    ∀ t x, (Linked k' (.opened t 1) x ↔ Linked k (.opened t 1) x) ∧
      (Linked k (.opened t 1) x → k'.descriptor t x.idx = k.descriptor t x.idx) := by
  obtain ⟨k₀, k, hs, h, htest⟩ := exists_run_from_start (fun _ a => Ordinary a)
    (fun _ a => decide (Ordinary a)) [.syscall DSOS_CALL_SPAWN []]
    (fun k => k.running = some 0 ∧ (k.head .readyList).first = some ⟨.pcb, 1⟩ ∧
      ((act k (.syscall DSOS_CALL_SEMOPEN [7, 1, 1])).toOption.any fun k' =>
        (k'.head (.opened .semaphore 0)).size = 1) = true)
    (fun _ _ hcheck => of_decide_eq_true hcheck) (by decide +kernel)
  obtain ⟨hr, hready, hopen⟩ := of_decide_eq_true htest
  obtain ⟨k', hact, hsize⟩ := exists_of_any hopen
  obtain ⟨L, hc⟩ := coherent_run hs h
  have hlive : Allocated k .pcb 1 := by
    have hm := (hc.tidy.strung.linked_iff (l := .readyList) regular_pcb).mp (linked_first hready)
    exact hc.tidy.strung.live .readyList _ regular_pcb hm
  have h' : Run act (fun k a => Ordinary a ∧ Allocated k .pcb 1 ∧ k.running ≠ some 1) k
      [.syscall DSOS_CALL_SEMOPEN [7, 1, 1]] k' :=
    .snoc (.nil k) ⟨trivial, hlive, by rw [hr]; decide⟩ hact
  exact ⟨k₀, k, k', hs, h, h', hsize, process_left_alone hs h h'⟩

end DisastrOS.Process.Isolation
