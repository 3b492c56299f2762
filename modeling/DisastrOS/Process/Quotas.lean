import DisastrOS.MessageQueue.OpenAtomic
import DisastrOS.Process.Sleepers
import DisastrOS.Process.Spawning

/-!
# When a process can use its quota of descriptors

A process may open as many semaphores and message queues as its quota says. The pools of
descriptors have one block for each process only.
-/
namespace DisastrOS.Process.Quotas

open DisastrOS.Machine
open DisastrOS.Machine.Kernel
open DisastrOS.Machine.Runs
open DisastrOS.Lists.Sequences
open DisastrOS.Lists.Wiring
open DisastrOS.Lists.RegularLists
open DisastrOS.Pool.Blocks
open DisastrOS.Descriptors.Bindings
open DisastrOS.Descriptors.Tables
open DisastrOS.Process.View
open DisastrOS.Process.Table
open DisastrOS.Process.Coherence
open DisastrOS.Process.Contexts
open DisastrOS.Process.Creation
open DisastrOS.Process.FdTables
open DisastrOS.Process.Handles
open DisastrOS.Process.Scheduling
open DisastrOS.Process.Sleepers
open DisastrOS.Process.Spawning
open DisastrOS.Process.SystemRuns
open DisastrOS.Process.TimerList
open DisastrOS.Process.Transitions
open DisastrOS.MessageQueue.Calls
open DisastrOS.MessageQueue.OpenAtomic
open DisastrOS.Library.GuardedRun
open DisastrOS.Library.LinkedSequence
open DisastrOS.Library.Outcome

variable {k k' k₁ : Kernel} {L L' : HeadAddr → List Node} {t : Table} {r p o d ptr n m : Nat}
  {id flags x : Int}

/-- How many semaphores or message queues a process may open. -/
def quota : Table → Int
  | .resource => 0
  | .semaphore => MAX_NUM_SEMDESCRIPTORS_PER_PROCESS
  | .mq => MAX_NUM_MQDESCRIPTORS_PER_PROCESS

/-- The semaphore or message queue `o` has the identifier `id`, which the calls require not to
be negative. -/
def Found (t : Table) (k : Kernel) (id : Int) (o : Nat) : Prop :=
  0 ≤ id ∧ match t with
    | .resource => False
    | .semaphore => k.semaphoreListById .semaphoresList id = .ok (some o)
    | .mq => k.messageQueueListById .messageQueuesList id = .ok (some ⟨.messageQueue, o⟩)

/-- The call has opened a new descriptor of `r` on `o`, and returns its number, which is not one
of an error. -/
structure OpenedOn (t : Table) (k : Kernel) (r o : Nat) (k' : Kernel) : Prop where
  retvalue : (k'.pcb r).syscallRetvalue = (k.pcb r).fdCounter t
  nonneg : 0 ≤ (k'.pcb r).syscallRetvalue
  counter : (k'.pcb r).fdCounter t = (k.pcb r).fdCounter t + 1
  descriptor : ∃ d, ¬ Allocated k t.descriptorKind d ∧
    Linked k' (.opened t r) ⟨t.descriptorKind, d⟩ ∧
      (k'.descriptor t d).object = some o ∧ (k'.descriptor t d).fd = (k.pcb r).fdCounter t

/-- A process that has not used up its quota can open an object that is there. -/
def Backed (t : Table) (k : Kernel) (r o : Nat) (id flags x : Int) : Prop :=
  ∃ k', k.act (.syscall (openCall t) [id, flags, x]) = .ok k' ∧ OpenedOn t k r o k'

/-- The process `p` has not exited. -/
def Alive (k : Kernel) (p : Nat) : Prop := Allocated k .pcb p ∧ (k.pcb p).status ≠ .Zombie

/-- All descriptors of a table are open in processes that have not exited. -/
def Owned (t : Table) (k : Kernel) : Prop :=
  ∀ d, Allocated k t.descriptorKind d →
    ∃ p, Alive k p ∧ Linked k (.opened t p) ⟨t.descriptorKind, d⟩

/-! ## The call -/

/-- The error of an open call. -/
def openError : Table → Int
  | .resource => DSOS_ERESOURCEOPEN
  | .semaphore => DSOS_ESEMAPHOREOPEN
  | .mq => DSOS_EMQOPEN

theorem semOpen_found (hr : k.running = some r) (hfd : (k.pcb r).lastSemFd <
    MAX_NUM_SEMDESCRIPTORS_PER_PROCESS) (hf : Found .semaphore k (toInt (k.arg r 0)) o)
    (hflags : hasFlag (toInt (k.arg r 1)) DSOS_CREATE = false) :
    internalSemOpen k = .ok (k.openDescriptor .semaphore r o DSOS_ESEMAPHOREOPEN) := by
  have hcount : ¬ k.arg r 2 % 2 ^ 32 < 0 := by omega
  unfold internalSemOpen
  rw [deref_eq_ok.mpr hr]
  simp only [bind, Except.bind]
  rw [if_neg (by omega), if_neg (not_lt.mpr hf.1), if_neg hcount, hf.2]
  simp only [hflags]
  rfl

theorem mqOpen_found (hr : k.running = some r) (hfd : (k.pcb r).lastMqFd <
    MAX_NUM_MQDESCRIPTORS_PER_PROCESS) (hf : Found .mq k (toInt (k.arg r 0)) o)
    (hflags : hasFlag (toInt (k.arg r 1)) DSOS_CREATE = false) :
    internalMqOpen k = .ok (k.openDescriptor .mq r o DSOS_EMQOPEN) := by
  unfold internalMqOpen
  rw [deref_eq_ok.mpr hr]
  simp only [bind, Except.bind]
  rw [if_neg (by omega), if_neg (not_lt.mpr hf.1), hf.2]
  simp only [hflags]
  rfl

theorem found_setCall {num : Int} {args : List Int} (h : Found t k id o) :
    Found t (k.setCall r num args) id o := by
  refine ⟨h.1, ?_⟩
  cases t with
  | resource => exact h.2
  | semaphore =>
    have hfound : k.semaphoreListById .semaphoresList id = .ok (some o) := h.2
    rw [← hfound]
    exact search_frame rfl (fun _ _ => rfl) fun _ => rfl
  | mq =>
    have hfound : k.messageQueueListById .messageQueuesList id =
      .ok (some ⟨.messageQueue, o⟩) := h.2
    rw [← hfound]
    exact byId_frame rfl (fun _ _ => rfl) (fun _ => rfl) rfl

theorem act_open (hc : Coherent k L) (ht : t ≠ .resource) (hr : k.running = some r)
    (hfd : (k.pcb r).fdCounter t < quota t) (hf : Found t k (toInt id) o)
    (hflags : hasFlag (toInt flags) DSOS_CREATE = false) :
    k.act (.syscall (openCall t) [id, flags, x]) =
      .ok ((k.setCall r (openCall t) [id, flags, x]).openDescriptor t r o (openError t)) := by
  have hr₁ : (k.setCall r (openCall t) [id, flags, x]).running = some r := hr
  have hf₁ : Found t (k.setCall r (openCall t) [id, flags, x])
      (toInt ((k.setCall r (openCall t) [id, flags, x]).arg r 0)) o := by
    rw [arg_setCall (by cases t <;> decide), List.getD_cons_zero]
    exact found_setCall hf
  have hflags₁ : hasFlag (toInt ((k.setCall r (openCall t) [id, flags, x]).arg r 1)) DSOS_CREATE =
      false := by
    rw [arg_setCall (by cases t <;> decide), List.getD_cons_succ, List.getD_cons_zero]
    exact hflags
  have hfd : ((k.setCall r (openCall t) [id, flags, x]).pcb r).fdCounter t < quota t := by
    rwa [counter_setCall]
  cases t with
  | resource => exact absurd rfl ht
  | semaphore =>
    refine (syscall_direct hc rfl (by decide) (by decide) (by decide) hr _).trans ?_
    exact semOpen_found hr₁ hfd hf₁ hflags₁
  | mq =>
    refine (syscall_direct hc rfl (by decide) (by decide) (by decide) hr _).trans ?_
    exact mqOpen_found hr₁ hfd hf₁ hflags₁

/-- The outcome of the call depends on the counter and the pool of descriptors only. -/
theorem backed_iff_size (hc : Coherent k L) (ht : t ≠ .resource) (hr : k.running = some r)
    (hfd : (k.pcb r).fdCounter t < quota t) (hf : Found t k (toInt id) o)
    (hflags : hasFlag (toInt flags) DSOS_CREATE = false) :
    Backed t k r o id flags x ↔
      0 ≤ (k.pcb r).fdCounter t ∧ (k.pool t.descriptorKind).size ≠ 0 := by
  have hs : Strung Regular Retained (k.setCall r (openCall t) [id, flags, x]) L :=
    (coherent_setCall hc hr).tidy.strung
  have htied : Tied t (k.setCall r (openCall t) [id, flags, x]) L :=
    (coherent_setCall hc hr).tidy.tied t
  have hact := act_open (x := x) hc ht hr hfd hf hflags
  have hcounter : ((k.setCall r (openCall t) [id, flags, x]).pcb r).fdCounter t =
      (k.pcb r).fdCounter t := counter_setCall t r
  constructor
  · rintro ⟨k', hk', hopened⟩
    refine ⟨hopened.retvalue ▸ hopened.nonneg, fun hfull => ?_⟩
    have hk' := hact.symm.trans hk'
    rw [openDescriptor_full hs.pooled hfull, Except.ok.injEq] at hk'
    have hsame : (k'.pcb r).fdCounter t = (k.pcb r).fdCounter t := by
      rw [← hk', counter_setRetvalue, hcounter]
    have hnext := hopened.counter
    omega
  · rintro ⟨hnonneg, hsome⟩
    rcases openDescriptor_tied hs htied r o (openError t) with ⟨_, hfull⟩ | ⟨d, ptr, hadded⟩
    · exact absurd hfull hsome
    · have hret : (((k.setCall r (openCall t) [id, flags, x]).openDescriptor t r o
          (openError t)).pcb r).syscallRetvalue = (k.pcb r).fdCounter t := by
        rw [hadded.pcb, Function.update_self]
        exact hcounter
      refine ⟨_, hact, ⟨hret, hret ▸ hnonneg, ?_, d, hadded.freshDescriptor, ?_, ?_, ?_⟩⟩
      · rw [hadded.pcb, Function.update_self, fdCounter_retvalue, fdCounter_setFdCounter, hcounter]
      · refine (hadded.strung.linked_iff (l := .opened t r) (regular_descriptorKind t)).mpr ?_
        exact opened_mem.mpr (.inr (.inl ⟨rfl, rfl⟩))
      · rw [hadded.descriptor, Function.update_self, Function.update_self]
      · rw [hadded.descriptor, Function.update_self, Function.update_self]
        exact hcounter

theorem numItems_descriptor (t : Table) : numItems t.descriptorKind = MAX_NUM_PROCESSES := by
  cases t <;> rfl

/-- In every reachable state a process can use its quota exactly when it does not count below
zero and not all the blocks, one for each process that there can be, are taken. -/
theorem open_backed_iff {mem : Int → UInt8} {k₀ : Kernel} {as : List Action}
    (hs : Started mem k₀) (h : Run act (fun _ a => Ordinary a) k₀ as k) (ht : t ≠ .resource)
    (hr : k.running = some r) (hfd : (k.pcb r).fdCounter t < quota t)
    (hf : Found t k (toInt id) o) (hflags : hasFlag (toInt flags) DSOS_CREATE = false) (x : Int) :
    Backed t k r o id flags x ↔ 0 ≤ (k.pcb r).fdCounter t ∧
      ((inUse k t.descriptorKind).card : Int) < MAX_NUM_PROCESSES := by
  obtain ⟨L, hc⟩ := coherent_run hs h
  have hpooled := hc.tidy.strung.pooled
  have hcard := card_inUse hpooled t.descriptorKind
  have hpos := size_nonneg hpooled t.descriptorKind
  rw [numItems_descriptor] at hcard
  rw [backed_iff_size hc ht hr hfd hf hflags]
  refine and_congr_right fun _ => ?_
  omega

/-! ## The pool runs out -/

theorem linked_congr {l : HeadAddr} {y : Node} (hs : Strung Regular Retained k L)
    (hs' : Strung Regular Retained k' L') (hl : Regular l.nodeKind) (he : L' l = L l) :
    Linked k' l y ↔ Linked k l y := by
  rw [hs'.linked_iff hl, hs.linked_iff hl, he]

theorem first_congr {l : HeadAddr} (hs : Strung Regular Retained k L)
    (hs' : Strung Regular Retained k' L') (hl : Regular l.nodeKind) (he : L' l = L l) :
    (k'.head l).first = (k.head l).first := by
  rw [hs'.first_eq hl, hs.first_eq hl, he]

/-- Of the processes that have run, `n` sleep with a full quota of semaphores, and `r` is alone
with `m` of them. -/
structure Hoarded (n m : Nat) (k : Kernel) (r : Nat) : Prop where
  running : k.running = some r
  ready : (k.head .readyList).first = none
  zombie : (k.head .zombieList).first = none
  time : k.disastrOSTime = 0
  lastPid : k.lastPid = n + 1
  blocks : (k.pool .pcb).size = 1023 - n
  links : (k.pool .pcbPtr).size = 1024 - n
  counter : (k.pcb r).fdCounter .semaphore = m
  free : (k.pool .semDescriptor).size = 1024 - (32 * n + m)
  semaphore : ∃ s, Linked k .semaphoresList ⟨.semaphore, s⟩ ∧ (k.semaphore s).id = 0
  opened : ∀ d, Allocated k .semDescriptor d →
    ∃ p, Allocated k .pcb p ∧ Linked k (.opened .semaphore p) ⟨.semDescriptor, d⟩

theorem Hoarded.found (h : Hoarded n m k r) (hs : Strung Regular Retained k L) :
    ∃ s, Found .semaphore k (toInt 0) s := by
  show ∃ s, Found .semaphore k 0 s
  obtain ⟨s, hs₁, hid⟩ := h.semaphore
  have hreg : Regular HeadAddr.semaphoresList.nodeKind := (by decide : Regular .semaphore)
  have hmem := (hs.linked_iff (l := .semaphoresList) hreg).mp hs₁
  cases hfound : k.semaphoreListById .semaphoresList 0 with
  | error e =>
    unfold semaphoreListById at hfound
    rw [hs.search_pure (l := .semaphoresList) hreg] at hfound
    cases hfound
  | ok found =>
    cases found with
    | some o => exact ⟨o, le_rfl, hfound⟩
    | none =>
      have hno := hs.search_none (l := .semaphoresList) hreg hfound hmem
      exact absurd hid (of_decide_eq_false hno)

theorem hoarded_open (hc : Coherent k L) (h : Hoarded n m k r) (hm : m < 32)
    (hfree : 32 * n + m < 1024) :
    ∃ k', k.act (.syscall DSOS_CALL_SEMOPEN [0, 0, 0]) = .ok k' ∧ Hoarded n (m + 1) k' r := by
  have hc₁ : Coherent (k.setCall r DSOS_CALL_SEMOPEN [0, 0, 0]) L := coherent_setCall hc h.running
  have hs := hc₁.tidy.strung
  have hcounter := h.counter
  have hsize := h.free
  obtain ⟨s, hfound⟩ := h.found hc.tidy.strung
  have hfd : (k.pcb r).fdCounter .semaphore < quota .semaphore := by
    rw [hcounter]
    show (m : Int) < 32
    omega
  have hflags : hasFlag (toInt 0) DSOS_CREATE = false := by decide
  have hact : k.act (.syscall DSOS_CALL_SEMOPEN [0, 0, 0]) =
      .ok ((k.setCall r DSOS_CALL_SEMOPEN [0, 0, 0]).openDescriptor .semaphore r s
        (openError .semaphore)) := act_open (t := .semaphore) hc nofun h.running hfd hfound hflags
  rcases openDescriptor_tied hs (hc₁.tidy.tied .semaphore) r s (openError .semaphore) with
    ⟨_, hfull⟩ | ⟨d, ptr, ha⟩
  · have hfull : (k.pool .semDescriptor).size = 0 := hfull
    omega
  generalize openDescriptor _ .semaphore r s _ = k' at hact ha
  have hs' := ha.strung
  have hother : ∀ l, l ≠ .opened .semaphore r → l ≠ .users .semaphore s →
      withOpened L .semaphore r s d ptr l = L l := fun l h₁ h₂ => by
    unfold withOpened
    rw [Function.update_of_ne h₂, Function.update_of_ne h₁]
  have hpool : ∀ kind, kind ≠ .semDescriptor → kind ≠ .semDescriptorPtr →
      k'.pool kind = k.pool kind := ha.pool
  refine ⟨k', hact, ?_, ?_, ?_, ?_, ?_, ?_, ?_, ?_, ?_, ?_, ?_⟩
  · rw [ha.rest]
    exact h.running
  · rw [first_congr hs hs' (l := .readyList) regular_pcb (hother _ nofun nofun)]
    exact h.ready
  · rw [first_congr hs hs' (l := .zombieList) regular_pcb (hother _ nofun nofun)]
    exact h.zombie
  · rw [ha.rest]
    exact h.time
  · rw [ha.rest]
    exact h.lastPid
  · rw [hpool .pcb (by decide) (by decide)]
    exact h.blocks
  · rw [hpool .pcbPtr (by decide) (by decide)]
    exact h.links
  · rw [ha.pcb, Function.update_self, fdCounter_retvalue, fdCounter_setFdCounter, counter_setCall,
      hcounter]
    push_cast
    rfl
  · have hless : (k'.pool .semDescriptor).size = (k.pool .semDescriptor).size - 1 := ha.descriptorSize
    rw [hless, hsize]
    push_cast
    omega
  · obtain ⟨o, ho, hid⟩ := h.semaphore
    have hreg : Regular HeadAddr.semaphoresList.nodeKind := (by decide : Regular .semaphore)
    refine ⟨o, (linked_congr hs hs' hreg (hother _ nofun nofun)).mpr ho, ?_⟩
    rw [ha.rest]
    exact hid
  · intro j hj
    have hreg : ∀ p, Regular (HeadAddr.opened .semaphore p).nodeKind := fun _ =>
      regular_descriptorKind .semaphore
    rcases (ha.allocated _ _).mp hj with ⟨_, rfl⟩ | ⟨he, _⟩ | hold
    · refine ⟨r, (ha.allocated _ _).mpr (.inr (.inr ?_)), (hs'.linked_iff (hreg r)).mpr ?_⟩
      · exact hc₁.sound.placed.live_of_running h.running
      · exact opened_mem.mpr (.inr (.inl ⟨rfl, rfl⟩))
    · cases he
    · obtain ⟨p, hp, hlinked⟩ := h.opened j hold
      refine ⟨p, (ha.allocated _ _).mpr (.inr (.inr hp)), (hs'.linked_iff (hreg p)).mpr ?_⟩
      exact opened_mem.mpr (.inl ((hs.linked_iff (hreg p)).mp hlinked))

theorem nil_of_first {l : HeadAddr} (hs : Strung Regular Retained k L) (hl : Regular l.nodeKind)
    (h : (k.head l).first = none) : L l = [] := by
  rw [hs.first_eq hl] at h
  exact List.head?_eq_none_iff.mp h

/-- A process with a full quota creates a child and sleeps, so that the child runs. -/
theorem hoarded_next (hc : Coherent k L) (hctx : ContextsMade (view k L)) (h : Hoarded n 32 k r)
    (hn : n < 32) :
    ∃ k₁ k' p, k.act (.syscall DSOS_CALL_SPAWN [0, 0]) = .ok k₁ ∧
      k₁.act (.syscall DSOS_CALL_SLEEP [1]) = .ok k' ∧ Hoarded (n + 1) 0 k' p := by
  have hs := hc.tidy.strung
  have hlast := h.lastPid
  have hblocks := h.blocks
  have hlinks := h.links
  have hblock : ¬ NoBlock k := by
    rintro (hfull | hfull)
    · have hz := (allInUse_pcb hs.pooled).mp hfull
      omega
    · have hz := (allInUse_pcbPtr hs.pooled).mp hfull
      omega
  have hcreation : Creation DSOS_CALL_SPAWN := .inl rfl
  obtain ⟨p, ptr, k₁, L₁, hact₁, hsp, hmade, _⟩ := @creates_of_block _ _ _ _ [0, 0] hc (by omega)
    h.running hcreation hblock (by omega)
  obtain ⟨hsize, hsize'⟩ := size_spawned hsp (coherent_setCall hc h.running).tidy.strung
  have hordinary : Ordinary (.syscall DSOS_CALL_SPAWN [0, 0]) := trivial
  obtain ⟨L₂, hc₂, hctx₂⟩ := contexts_act hc hctx hordinary hact₁
  have hs₂ := hc₂.tidy.strung
  have hsame : ∀ l, Regular l.nodeKind → L₂ l = L₁ l := fun l hl =>
    represents_unique (hs₂.holds hl) (hsp.woven.strung.holds hl)
  have hr₁ : k₁.running = some r := by
    rw [hsp.rest]
    exact h.running
  have htime₁ : k₁.disastrOSTime = 0 := by
    rw [hsp.rest]
    exact h.time
  -- the child is the only process that is ready
  have hready : L₂ .readyList = [⟨.pcb, p⟩] := by
    rw [hsame .readyList regular_pcb, hsp.lists, Function.update_self,
      nil_of_first hs (l := .readyList) regular_pcb h.ready]
    rfl
  have hnext : NextHasContext k₁ := by
    refine (nextHasContext_iff hc₂).mpr fun q hq => ?_
    have hq : ((L₂ .readyList).map Node.idx).head? = some q := hq
    rw [hready] at hq
    obtain rfl : p = q := Option.some.inj hq
    exact hmade rfl
  obtain ⟨k', as, bs, L', hact', hc', hslept⟩ := slept_of_sleep (d := 1) hc₂ hctx₂ hnext hr₁
    (by decide) (by omega) (by omega)
  have hs' := hc'.tidy.strung
  have hb := hslept.beside
  have hview : view k' L' = _ := hslept.moved.move
  have hrun : k'.running = some p := by
    have he := congrArg ProcessTable.running hview
    have he : k'.running = ((L₂ .readyList).map Node.idx).head? := he
    rw [he, hready]
    rfl
  have hready' : L' .readyList = [] := by
    have he := congrArg ProcessTable.ready hview
    have he : (L' .readyList).map Node.idx = ((L₂ .readyList).map Node.idx).tail := he
    rw [hready] at he
    exact List.map_eq_nil_iff.mp he
  have hkept : ∀ l, Regular l.nodeKind → ¬ SchedulerHead l → l ≠ .children r → l ≠ .readyList →
      allocLists L p l = L l → L' l = L l := by
    intro l hl hno hchildren hne halloc
    rw [hb.lists l hno, hsame l hl, hsp.lists, Function.update_of_ne hne,
      Function.update_of_ne hchildren, halloc]
  have hzombie : L' .zombieList = L .zombieList :=
    hkept _ regular_pcb not_false nofun nofun (allocLists_of_ne nofun nofun nofun)
  have hsemaphores : L' .semaphoresList = L .semaphoresList :=
    hkept _ (by decide : Regular .semaphore) not_false nofun nofun (allocLists_of_ne nofun nofun nofun)
  have hopened : ∀ q, L' (.opened .semaphore q) = L (.opened .semaphore q) := fun q =>
    hkept _ (regular_descriptorKind .semaphore) not_false nofun nofun
      (allocLists_of_ne nofun nofun nofun)
  have hpool : ∀ kind, kind ≠ .timerItem → k'.pool kind = k₁.pool kind := hb.pool
  have hdescriptors : k'.pool .semDescriptor = k.pool .semDescriptor :=
    (hpool _ (by decide)).trans (hsp.pool _ (by decide) (by decide))
  refine ⟨k₁, k', p, hact₁, hact', hrun, ?_, ?_, ?_, ?_, ?_, ?_, ?_, ?_, ?_, ?_⟩
  · rw [hs'.first_eq (l := .readyList) regular_pcb, hready']
    rfl
  · rw [first_congr hs hs' (l := .zombieList) regular_pcb hzombie]
    exact h.zombie
  · rw [hb.rest]
    exact htime₁
  · rw [hb.rest]
    show k₁.lastPid = _
    rw [hsp.rest]
    show k.lastPid + 1 = _
    rw [hlast]
    push_cast
    rfl
  · rw [hpool _ (by decide), hsize]
    show (k.pool .pcb).size - 1 = _
    push_cast
    omega
  · rw [hpool _ (by decide), hsize']
    show (k.pool .pcbPtr).size - 1 = _
    push_cast
    omega
  · rw [hb.counter, counter_setCall, hsp.pcb]
    have hne : p ≠ r := by
      rintro rfl
      exact hsp.fresh (hc.sound.placed.live_of_running h.running)
    rw [Function.update_of_ne hne, Function.update_self]
    rfl
  · rw [hdescriptors, h.free]
    push_cast
    omega
  · obtain ⟨s, hlisted, hid⟩ := h.semaphore
    have hreg : Regular HeadAddr.semaphoresList.nodeKind := (by decide : Regular .semaphore)
    refine ⟨s, (linked_congr hs hs' hreg hsemaphores).mpr hlisted, ?_⟩
    rw [hb.rest]
    show (k₁.semaphore s).id = 0
    rw [hsp.rest]
    exact hid
  · intro d hd
    obtain ⟨q, hq, hlinked⟩ := h.opened d ((allocated_of_pool hdescriptors).mp hd)
    refine ⟨q, (allocated_of_pool (hpool .pcb (by decide))).mpr ?_, ?_⟩
    · exact (hsp.allocated _ _).mpr (.inr (.inr hq))
    · exact (linked_congr hs hs' (l := .opened .semaphore q) (regular_descriptorKind .semaphore)
        (hopened q)).mpr hlinked

/-- The first process has created a semaphore, which opens it once. -/
theorem exists_hoarded_one :
    ∃ k₀ k, Started (fun _ => 0) k₀ ∧
      Run act (fun _ a => Ordinary a) k₀ [.syscall DSOS_CALL_SEMOPEN [0, 1, 0]] k ∧
      Hoarded 0 1 k 0 := by
  obtain ⟨k₀, k, hs, h, htest⟩ := exists_run_from_start (fun _ a => Ordinary a)
    (fun _ a => decide (Ordinary a)) [.syscall DSOS_CALL_SEMOPEN [0, 1, 0]]
    (fun k => k.running = some 0 ∧ (k.head .readyList).first = none ∧
      (k.head .zombieList).first = none ∧ k.disastrOSTime = 0 ∧ k.lastPid = 1 ∧
      (k.pool .pcb).size = 1023 ∧ (k.pool .pcbPtr).size = 1024 ∧ (k.pcb 0).lastSemFd = 1 ∧
      (k.pool .semDescriptor).size = 1023 ∧
      (k.head .semaphoresList).first = some ⟨.semaphore, 0⟩ ∧ (k.semaphore 0).id = 0 ∧
      (k.head (.opened .semaphore 0)).first = some ⟨.semDescriptor, 0⟩)
    (fun _ _ h => of_decide_eq_true h) (by decide +kernel)
  obtain ⟨hr, hready, hzombie, htime, hlast, hpcb, hptr, hcounter, hfree, hsem, hid, hopened⟩ :=
    of_decide_eq_true htest
  obtain ⟨L, hc⟩ := coherent_run hs h
  have hstrung := hc.tidy.strung
  have hlinked : Linked k (.opened .semaphore 0) ⟨.semDescriptor, 0⟩ := ⟨0, hopened⟩
  have hreg : Regular (HeadAddr.opened .semaphore 0).nodeKind := regular_descriptorKind .semaphore
  have hzero : Allocated k .semDescriptor 0 :=
    hstrung.allocated hreg ((hstrung.linked_iff hreg).mp hlinked)
  refine ⟨k₀, k, hs, h, hr, hready, hzombie, htime, hlast, hpcb, hptr, hcounter, hfree,
    ⟨0, ⟨0, hsem⟩, hid⟩, fun d hd => ?_⟩
  -- one descriptor is in use
  have hcard := card_inUse hstrung.pooled .semDescriptor
  have hone : (inUse k .semDescriptor).card = 1 := by
    have hitems : numItems .semDescriptor = 1024 := rfl
    omega
  obtain rfl := Finset.card_le_one.mp hone.le d (mem_inUse.mpr hd) 0 (mem_inUse.mpr hzero)
  exact ⟨0, hc.sound.placed.live_of_running hr, hlinked⟩

def Reached (n m : Nat) : Prop :=
  ∃ k₀ as k r, Started (fun _ => 0) k₀ ∧ Run act (fun _ a => Ordinary a) k₀ as k ∧ Hoarded n m k r

theorem reached_open (h : Reached n m) (hm : m < 32) (hn : n < 32) : Reached n (m + 1) := by
  obtain ⟨k₀, as, k, r, hs, hrun, hh⟩ := h
  obtain ⟨L, hc⟩ := coherent_run hs hrun
  obtain ⟨k', hact, hh'⟩ := hoarded_open hc hh hm (by omega)
  have hordinary : Ordinary (.syscall DSOS_CALL_SEMOPEN [0, 0, 0]) := trivial
  exact ⟨k₀, _, k', r, hs, .snoc hrun hordinary hact, hh'⟩

theorem reached_next (h : Reached n 32) (hn : n < 32) : Reached (n + 1) 0 := by
  obtain ⟨k₀, as, k, r, hs, hrun, hh⟩ := h
  obtain ⟨L, hc⟩ := coherent_run hs hrun
  obtain ⟨k₁, k', p, hact, hact', hh'⟩ := hoarded_next hc (reachable_contexts hs hrun hc) hh hn
  have hspawn : Ordinary (.syscall DSOS_CALL_SPAWN [0, 0]) := trivial
  have hsleep : Ordinary (.syscall DSOS_CALL_SLEEP [1]) := trivial
  exact ⟨k₀, _, k', p, hs, .snoc (.snoc hrun hspawn hact) hsleep hact', hh'⟩

theorem reached_full (j : Nat) (h : Reached n j) (hn : n < 32) (hj : j ≤ 32) : Reached n 32 := by
  obtain ⟨i, rfl⟩ : ∃ i, j = 32 - i := ⟨32 - j, by omega⟩
  induction i with
  | zero => exact h
  | succ i ih =>
    by_cases hi : i < 32
    · refine ih ?_ (by omega)
      have hopen := reached_open h (by omega) hn
      rwa [show 32 - (i + 1) + 1 = 32 - i by omega] at hopen
    · rw [show 32 - (i + 1) = 32 - i by omega] at h
      exact ih h (by omega)

/-- So many processes can run that none is left with a descriptor to open. -/
theorem reached_all (hn : n < 32) : Reached n 32 := by
  induction n with
  | zero =>
    obtain ⟨k₀, k, hs, h, hh⟩ := exists_hoarded_one
    exact reached_full 1 ⟨k₀, _, k, 0, hs, h, hh⟩ (by decide) (by decide)
  | succ n ih => exact reached_full 0 (reached_next (ih (by omega)) (by omega)) hn (by decide)

theorem Hoarded.owned (hc : Coherent k L) (h : Hoarded n m k r) : Owned .semaphore k := by
  intro d hd
  obtain ⟨p, hp, hlinked⟩ := h.opened d hd
  refine ⟨p, ⟨hp, fun hz => ?_⟩, hlinked⟩
  have hmem : p ∈ (view k L).zombie := (hc.sound.marked.dead p).mpr ⟨hp, hz⟩
  have hnil : (view k L).zombie = [] := by
    show (L .zombieList).map Node.idx = []
    rw [nil_of_first hc.tidy.strung (l := .zombieList) regular_pcb h.zombie]
    rfl
  rw [hnil] at hmem
  cases hmem

/-- A process opens a semaphore that another one has created. -/
theorem open_backed_second :
    ∃ k₀ k, Started (fun _ => 0) k₀ ∧
      Run act (fun _ a => Ordinary a) k₀ [.syscall DSOS_CALL_SEMOPEN [0, 1, 0]] k ∧
      k.running = some 0 ∧ ∃ s, Found .semaphore k (toInt 0) s ∧ Backed .semaphore k 0 s 0 0 0 := by
  obtain ⟨k₀, k, hs, h, hh⟩ := exists_hoarded_one
  obtain ⟨L, hc⟩ := coherent_run hs h
  obtain ⟨s, hfound⟩ := hh.found hc.tidy.strung
  have hfd : (k.pcb 0).fdCounter .semaphore < quota .semaphore := by
    rw [hh.counter]
    decide
  have hne : Table.semaphore ≠ .resource := nofun
  have hflags : hasFlag (toInt 0) DSOS_CREATE = false := by decide
  refine ⟨k₀, k, hs, h, hh.running, s, hfound, ?_⟩
  have hcounter : 0 ≤ (k.pcb 0).fdCounter .semaphore := hh.counter ▸ Int.natCast_nonneg 1
  refine (open_backed_iff hs h hne hh.running hfd hfound hflags 0).mpr ⟨hcounter, ?_⟩
  have hcard := card_inUse hc.tidy.strung.pooled .semDescriptor
  have hfree := hh.free
  have hitems : numItems .semDescriptor = 1024 := rfl
  show ((inUse k .semDescriptor).card : Int) < 1024
  omega

/-- 32 processes sleep with 32 semaphores each. The next one cannot open any. -/
theorem full_pool_refuses :
    ∃ k₀ as k r s, Started (fun _ => 0) k₀ ∧ Run act (fun _ a => Ordinary a) k₀ as k ∧
      k.running = some r ∧ (k.pcb r).lastSemFd = 0 ∧ Owned .semaphore k ∧
      Found .semaphore k (toInt 0) s ∧ ¬ Backed .semaphore k r s 0 0 0 := by
  obtain ⟨k₀, as, k, r, hs, h, hh⟩ := reached_next (reached_all (n := 31) (by decide)) (by decide)
  obtain ⟨L, hc⟩ := coherent_run hs h
  obtain ⟨s, hfound⟩ := hh.found hc.tidy.strung
  have hfd : (k.pcb r).fdCounter .semaphore < quota .semaphore := by
    rw [hh.counter]
    decide
  refine ⟨k₀, as, k, r, s, hs, h, hh.running, hh.counter, hh.owned hc, hfound, fun hw => ?_⟩
  have hflags : hasFlag (toInt 0) DSOS_CREATE = false := by decide
  have hne : Table.semaphore ≠ .resource := nofun
  exact ((backed_iff_size hc hne hh.running hfd hfound hflags).mp hw).2 hh.free

end DisastrOS.Process.Quotas
