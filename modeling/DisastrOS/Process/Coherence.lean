import DisastrOS.Descriptors.Tables
import DisastrOS.Library.Outcome
import DisastrOS.Lists.QueueChains
import DisastrOS.Process.View

/-!
# The invariant of the kernel

`Coherent` says that the lists are sequences, that descriptors and pointers are paired,
and that the process table is consistent. A handler is refined by a move of the process
table when it keeps the first two and does that move.
-/
namespace DisastrOS.Process.Coherence

open DisastrOS.Machine
open DisastrOS.Machine.Kernel
open DisastrOS.Lists.Sequences
open DisastrOS.Lists.Wiring
open DisastrOS.Lists.RegularLists
open DisastrOS.Lists.QueueChains
open DisastrOS.Pool.Blocks
open DisastrOS.Descriptors.Bindings
open DisastrOS.Descriptors.Tables
open DisastrOS.Process.Table
open DisastrOS.Process.Steps
open DisastrOS.Process.View

/-- The lists are sequences, the descriptor tables are paired, and the timer items in use
are those in the timer list. No process knows its timer. -/
structure Tidy (k : Kernel) (L : HeadAddr → List Node) : Prop where
  strung : Strung Regular Retained k L
  tied : ∀ t, Tied t k L
  timers : ∀ i, Allocated k .timerItem i → ⟨.timerItem, i⟩ ∈ L .timerList
  unset : ∀ p, (k.pcb p).timer = none

/-- The invariant of the kernel. -/
structure Coherent (k : Kernel) (L : HeadAddr → List Node) : Prop where
  tidy : Tidy k L
  hung : Hung k L
  sound : Sound (view k L)

/-- The lists that process control works on. -/
def ProcessHead : HeadAddr → Prop
  | .readyList | .waitingList | .zombieList | .timerList | .children _ => True
  | _ => False

/-- Nothing but process control has been at work. -/
structure Beside (k : Kernel) (L : HeadAddr → List Node) (k' : Kernel)
    (L' : HeadAddr → List Node) : Prop where
  rest : k' = { k with
    lists := k'.lists, pool := k'.pool, pcb := k'.pcb, timerItem := k'.timerItem
    running := k'.running, mem := k'.mem }
  counter : ∀ t p, (k'.pcb p).fdCounter t = (k.pcb p).fdCounter t
  pool : ∀ kind, kind ≠ .pcb → kind ≠ .pcbPtr → kind ≠ .timerItem → k'.pool kind = k.pool kind
  lists : ∀ l, ¬ ProcessHead l → L' l = L l

/-- The lists that the scheduler works on. -/
def SchedulerHead : HeadAddr → Prop
  | .readyList | .waitingList | .timerList => True
  | _ => False

/-- Nothing but the scheduler has been at work: no process has been created or freed. -/
structure Scheduled (k : Kernel) (L : HeadAddr → List Node) (k' : Kernel)
    (L' : HeadAddr → List Node) : Prop where
  rest : k' = { k with
    lists := k'.lists, pool := k'.pool, pcb := k'.pcb, timerItem := k'.timerItem
    running := k'.running, mem := k'.mem }
  counter : ∀ t p, (k'.pcb p).fdCounter t = (k.pcb p).fdCounter t
  pool : ∀ kind, kind ≠ .timerItem → k'.pool kind = k.pool kind
  lists : ∀ l, ¬ SchedulerHead l → L' l = L l

/-- A move of the process table has been made, on the regular lists only. -/
structure Moved (k : Kernel) (L : HeadAddr → List Node) (move : ProcessTable → Prop)
    (k' : Kernel) (L' : HeadAddr → List Node) : Prop where
  woven : Woven k k' L'
  others : ∀ l, ¬ Regular l.nodeKind → L' l = L l
  tied : ∀ t, Tied t k' L'
  timers : ∀ i, Allocated k' .timerItem i → ⟨.timerItem, i⟩ ∈ L' .timerList
  unset : ∀ p, (k'.pcb p).timer = none
  move : move (view k' L')

variable {k k' k'' : Kernel} {L L' L'' : HeadAddr → List Node} {p r : Nat} {v : Int}
  {move : ProcessTable → Prop}

theorem Moved.tidy (h : Moved k L move k' L') : Tidy k' L' :=
  ⟨h.woven.strung, h.tied, h.timers, h.unset⟩

theorem Moved.hung (h : Moved k L move k' L') (hh : Hung k L) : Hung k' L' :=
  hh.woven h.woven h.others

theorem Coherent.settled (h : Coherent k L) : Settled k L := ⟨h.tidy.strung, h.hung⟩

/-- The lists after two moves. -/
theorem Moved.trans {move' : ProcessTable → Prop} (h : Moved k L move k' L')
    (h' : Moved k' L' move' k'' L'') : Moved k L move' k'' L'' :=
  ⟨h.woven.step h'.woven.strung h'.woven.confined h'.woven.pool,
    fun l hl => (h'.others l hl).trans (h.others l hl), h'.tied, h'.timers, h'.unset, h'.move⟩

/-- Process control works on regular lists. -/
theorem Beside.others (h : Beside k L k' L') {l : HeadAddr} (hl : ¬ Regular l.nodeKind) :
    L' l = L l := by
  refine h.lists l fun hp => hl ?_
  cases l with
  | readyList | waitingList | zombieList => exact regular_pcb
  | timerList => exact (by decide : Regular .timerItem)
  | children p => exact regular_children p
  | _ => exact hp.elim

theorem Beside.trans (h : Beside k L k' L') (h' : Beside k' L' k'' L'') : Beside k L k'' L'' :=
  ⟨h'.rest.trans (by rw [h.rest]), fun t p => (h'.counter t p).trans (h.counter t p),
    fun kind h₁ h₂ h₃ => (h'.pool kind h₁ h₂ h₃).trans (h.pool kind h₁ h₂ h₃),
    fun l hl => (h'.lists l hl).trans (h.lists l hl)⟩

theorem Scheduled.beside (h : Scheduled k L k' L') : Beside k L k' L' := by
  refine ⟨h.rest, h.counter, fun kind _ _ h₃ => h.pool kind h₃, fun l hl => h.lists l fun hs => ?_⟩
  cases l with
  | readyList | waitingList | timerList => exact hl trivial
  | _ => exact hs.elim

theorem Scheduled.refl : Scheduled k L k L :=
  ⟨rfl, fun _ _ => rfl, fun _ _ => rfl, fun _ _ => rfl⟩

theorem Scheduled.trans (h : Scheduled k L k' L') (h' : Scheduled k' L' k'' L'') :
    Scheduled k L k'' L'' :=
  ⟨h'.rest.trans (by rw [h.rest]), fun t p => (h'.counter t p).trans (h.counter t p),
    fun kind hk => (h'.pool kind hk).trans (h.pool kind hk),
    fun l hl => (h'.lists l hl).trans (h.lists l hl)⟩

theorem Beside.same (h : Beside k L k' L') (t : Table) : SameTable t k L k' L' := by
  have hobj : ¬ ProcessHead (objects t) := by cases t <;> exact id
  have hdk : k'.pool t.descriptorKind = k.pool t.descriptorKind := by
    cases t <;> exact h.pool _ (by decide) (by decide) (by decide)
  have hpk : k'.pool t.pointerKind = k.pool t.pointerKind := by
    cases t <;> exact h.pool _ (by decide) (by decide) (by decide)
  refine ⟨by rw [h.rest], by rw [h.rest], hdk, hpk, fun p x hx => ?_, fun o => ?_,
    fun o => ?_, fun o ho => ?_⟩
  · rwa [h.lists (.opened t p) id] at hx
  · exact h.lists (.users t o) id
  · exact h.lists (.waitingDescriptors o) id
  · unfold ObjectListed
    rwa [h.lists _ hobj]

theorem Tidy.tied_beside (h : Tidy k L) (hb : Beside k L k' L') (t : Table) : Tied t k' L' :=
  tied_same (h.tied t) (hb.same t)

theorem timer_modPcb (f : PCB → PCB) (hf : ∀ q, (f q).timer = q.timer) (q : Nat) :
    ((k.modPcb p f).pcb q).timer = (k.pcb q).timer := by
  unfold modPcb
  simp only [Function.update_apply]
  split
  · next he => rw [hf, he]
  · rfl

@[simp]
theorem timer_setStatus (st : ProcessStatus) (q : Nat) :
    ((k.setStatus p st).pcb q).timer = (k.pcb q).timer :=
  timer_modPcb (fun q => { q with status := st }) (fun _ => rfl) q

@[simp]
theorem timer_setRetvalue (q : Nat) : ((k.setRetvalue p v).pcb q).timer = (k.pcb q).timer :=
  timer_modPcb (fun q => { q with syscallRetvalue := v }) (fun _ => rfl) q

theorem counter_modPcb {f : PCB → PCB} (hf : ∀ q t, (f q).fdCounter t = q.fdCounter t) (t : Table)
    (q : Nat) : ((k.modPcb p f).pcb q).fdCounter t = (k.pcb q).fdCounter t := by
  unfold modPcb
  simp only [Function.update_apply]
  split
  · next he => rw [hf, he]
  · rfl

@[simp]
theorem counter_setStatus (st : ProcessStatus) (t : Table) (q : Nat) :
    ((k.setStatus p st).pcb q).fdCounter t = (k.pcb q).fdCounter t :=
  counter_modPcb (fun _ t => by cases t <;> rfl) t q

@[simp]
theorem counter_setRetvalue (t : Table) (q : Nat) :
    ((k.setRetvalue p v).pcb q).fdCounter t = (k.pcb q).fdCounter t :=
  counter_modPcb (fun _ t => by cases t <;> rfl) t q

theorem counter_signalled (q : PCB) (sig : BitVec 32) (t : Table) :
    (q.signalled sig).fdCounter t = q.fdCounter t := by
  cases t <;> rfl

@[simp]
theorem counter_signal (sig : BitVec 32) (t : Table) (q : Nat) :
    ((k.signal p sig).pcb q).fdCounter t = (k.pcb q).fdCounter t :=
  counter_modPcb (fun q t => counter_signalled q sig t) t q

/-- Nothing but the status of a process changes. -/
theorem scheduled_setStatus (st : ProcessStatus) : Scheduled k L (k.setStatus p st) L :=
  ⟨rfl, counter_setStatus st, fun _ _ => rfl, fun _ _ => rfl⟩

/-- The table does not show links and the pools of other objects. -/
theorem view_of_rest (hpool : k'.pool .pcb = k.pool .pcb)
    (hrest : k' = { k with lists := k'.lists, pool := k'.pool }) : view k' L = view k L := by
  rw [hrest]
  exact view_congr (fun _ => allocated_of_pool hpool) (fun _ => rfl) rfl (fun _ _ => rfl)
    (fun _ _ _ => rfl) (fun _ _ _ => rfl) rfl rfl rfl fun _ _ => rfl

theorem timer_lists {l : HeadAddr} (hl : l.nodeKind = .timerItem) : l = .timerList := by
  cases l with
  | timerList => rfl
  | opened t p => cases t <;> cases hl
  | users t o => cases t <;> cases hl
  | readyList => cases hl
  | waitingList => cases hl
  | zombieList => cases hl
  | resourcesList => cases hl
  | semaphoresList => cases hl
  | messageQueuesList => cases hl
  | children p => cases hl
  | waitingDescriptors s => cases hl
  | queues m => cases hl
  | messages q => cases hl

/-- The running process is in no list. -/
theorem Coherent.running_unlinked (h : Coherent k L) (hr : k.running = some r) :
    Unlinked k.lists ⟨.pcb, r⟩ ∧ ∀ l, l.nodeKind = .pcb → ⟨.pcb, r⟩ ∉ L l := by
  have hr' : (view k L).running = some r := hr
  have hout := h.sound.placed.not_mem_of_running hr'
  exact unlinked_pcb h.tidy.strung (h.sound.placed.live_of_running hr') hout.1 hout.2.1 hout.2.2

/-- Nothing happens but a change of return values and file descriptor counters. -/
theorem moved_same (h : Tidy k L) (hlists : k'.lists = k.lists) (hpool : k'.pool = k.pool)
    (hd : k'.descriptor = k.descriptor) (hp : k'.descriptorPtr = k.descriptorPtr)
    (htimer : ∀ p, (k'.pcb p).timer = (k.pcb p).timer) (hmove : move (view k' L)) :
    Moved k L move k' L := by
  refine ⟨(Woven.refl h.strung).congr hlists hpool, fun _ _ => rfl, fun t => ?_,
    fun i hi => h.timers i ((allocated_congr hpool).mp hi), fun p => ?_, hmove⟩
  · exact tied_same (h.tied t) ⟨by rw [hd], by rw [hp], by rw [hpool], by rw [hpool],
      fun _ _ hx => hx, fun _ => rfl, fun _ => rfl, fun _ ho => ho⟩
  · rw [htimer]
    exact h.unset p

theorem moved_setRetvalue (h : Tidy k L) (hmove : move (view k L)) :
    Moved k L move (k.setRetvalue p v) L :=
  moved_same h rfl rfl rfl rfl (fun q => timer_setRetvalue q) (by rwa [view_setRetvalue])

end DisastrOS.Process.Coherence
