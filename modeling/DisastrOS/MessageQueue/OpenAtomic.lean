import DisastrOS.Process.FdTables

/-!
# When a failed `mqOpen` leaves no trace

`mqOpen` allocates the message queue first, then its queues, then the descriptor. A failure
after the first of these leaves the message queue and its queues behind.
-/
namespace DisastrOS.MessageQueue.OpenAtomic

open DisastrOS.Machine
open DisastrOS.Machine.Kernel
open DisastrOS.Machine.Runs
open DisastrOS.Lists.Sequences
open DisastrOS.Lists.Wiring
open DisastrOS.Lists.RegularLists
open DisastrOS.Pool.Blocks
open DisastrOS.Descriptors.Bindings
open DisastrOS.Descriptors.Tables
open DisastrOS.Process.Coherence
open DisastrOS.Process.FdTables
open DisastrOS.Process.Handles
open DisastrOS.Process.Transitions
open DisastrOS.MessageQueue.Calls
open DisastrOS.MessageQueue.CoherentCalls
open DisastrOS.Library.GuardedRun
open DisastrOS.Library.Outcome

variable {k k' k₁ : Kernel} {L : HeadAddr → List Node} {r mq n o : Nat} {t : Table} {i : Int}
  {args : List Int}

/-- The pools that `mqOpen` allocates from. -/
def OpenKind (kind : Kind) : Prop :=
  kind = .messageQueue ∨ kind = .queue ∨ kind = .mqDescriptor ∨ kind = .mqDescriptorPtr

/-- All message queues, the descriptors of `r` and the free blocks are as before. -/
structure MqUntouched (k : Kernel) (r : Nat) (k' : Kernel) : Prop where
  lists : k'.lists = k.lists
  messageQueue : k'.messageQueue = k.messageQueue
  queue : k'.queue = k.queue
  message : k'.message = k.message
  descriptor : k'.descriptor .mq = k.descriptor .mq
  descriptorPtr : k'.descriptorPtr .mq = k.descriptorPtr .mq
  lastMqFd : (k'.pcb r).lastMqFd = (k.pcb r).lastMqFd
  free : ∀ kind, OpenKind kind → (k'.pool kind).size = (k.pool kind).size

/-- An `mqOpen` that returns an error has changed nothing. -/
def FailsAtomically (k : Kernel) (r : Nat) (args : List Int) : Prop :=
  ∀ k', k.act (.syscall DSOS_CALL_MQOPEN args) = .ok k' → (k'.pcb r).syscallRetvalue < 0 →
    MqUntouched k r k'

/-- `mqOpen` has to create a message queue and can allocate it, but not all of its queues and a
descriptor. -/
def RunsDry (k : Kernel) (r : Nat) : Prop :=
  Creates k r ∧ (k.pool .messageQueue).size ≠ 0 ∧
    ((k.pool .queue).size < toInt (k.arg r 2) + 1 ∨ (k.pool .mqDescriptor).size = 0)

instance : Decidable (RunsDry k r) := inferInstanceAs (Decidable (_ ∧ _ ∧ (_ ∨ _)))

/-! ## Allocation -/

theorem addQueues_pool {kind : Kind} {b : Bool} (hk : kind ≠ .queue)
    (h : addQueues mq i n k = (b, k')) : k'.pool kind = k.pool kind := by
  induction n generalizing i k with
  | zero =>
    cases h
    rfl
  | succ n ih =>
    unfold addQueues queueAlloc newItem at h
    cases hget : k.getBlock .queue with
    | none =>
      rw [hget] at h
      cases h
      rfl
    | some new =>
      obtain ⟨q, k₁⟩ := new
      obtain ⟨_, _, _, rfl⟩ := getBlock_eq_some hget
      rw [hget] at h
      exact (ih h).trans (Function.update_of_ne hk _ _)

/-- All queues are allocated exactly when there are enough blocks. -/
theorem addQueues_flag {b : Bool} (h : Pooled k) (hadd : addQueues mq i n k = (b, k')) :
    b = true ↔ (n : Int) ≤ (k.pool .queue).size := by
  induction n generalizing i k with
  | zero =>
    cases hadd
    exact iff_of_true rfl (size_nonneg h .queue)
  | succ n ih =>
    unfold addQueues queueAlloc at hadd
    cases hnew : k.newItem .queue with
    | none =>
      have hsize := (newItem_eq_none h).mp hnew
      rw [hnew] at hadd
      cases hadd
      exact iff_of_false Bool.false_ne_true (by omega)
    | some new =>
      obtain ⟨q, k₁⟩ := new
      rw [hnew] at hadd
      have hf := newItem_fresh h hnew
      have hsize := hf.size
      simp only at hadd
      refine (ih ?_ hadd).trans ?_
      · exact pooled_congr rfl hf.pooled
      · show (n : Int) ≤ (k₁.pool .queue).size ↔ _
        omega

theorem messageQueueAlloc_size {id priority : Int} (h : Pooled k)
    (halloc : k.messageQueueAlloc id priority = some (mq, k₁)) :
    Pooled k₁ ∧ (k₁.pool .messageQueue).size = (k.pool .messageQueue).size - 1 ∧
      ∀ kind, kind ≠ .messageQueue → k₁.pool kind = k.pool kind := by
  unfold messageQueueAlloc at halloc
  cases hnew : k.newItem .messageQueue with
  | none =>
    rw [hnew] at halloc
    cases halloc
  | some new =>
    obtain ⟨mq', k₂⟩ := new
    rw [hnew] at halloc
    cases halloc
    have hf := newItem_fresh h hnew
    refine ⟨pooled_congr rfl hf.pooled, hf.size, fun kind hk => ?_⟩
    show k₂.pool kind = k.pool kind
    exact fresh_pool hf hk

/-! ## Refusals -/

theorem mqUntouched_setRetvalue (v : Int) : MqUntouched k r (k.setRetvalue r v) := by
  refine ⟨rfl, rfl, rfl, rfl, rfl, rfl, ?_, fun _ _ => rfl⟩
  exact counter_setRetvalue .mq r

theorem mqUntouched_setCall {num : Int} (h : MqUntouched (k.setCall r num args) r k') :
    MqUntouched k r k' := by
  refine ⟨h.lists, h.messageQueue, h.queue, h.message, h.descriptor, h.descriptorPtr, ?_, h.free⟩
  exact h.lastMqFd.trans (counter_setCall .mq r)

/-- Whoever opens a descriptor gets its number, which is not negative. -/
theorem retvalue_added {d ptr : Nat} (h : Added Regular Retained k L t r o d ptr k')
    (hcounter : 0 ≤ (k.pcb r).fdCounter t) : ¬ (k'.pcb r).syscallRetvalue < 0 := by
  rw [h.pcb, Function.update_self]
  exact not_lt.mpr hcounter

/-- The handler called by a process that has counted its descriptors. -/
theorem untouched_of_mqOpen (hc : Coherent k L) (hr : k.running = some r)
    (hcounter : 0 ≤ (k.pcb r).lastMqFd) (hdry : ¬ RunsDry k r) (h : internalMqOpen k = .ok k')
    (hneg : (k'.pcb r).syscallRetvalue < 0) : MqUntouched k r k' := by
  have hs := hc.tidy.strung
  obtain ⟨r', hr', hcases⟩ := mqOpen_cases h
  rw [hr, Option.some.injEq] at hr'
  subst hr'
  obtain rfl | ⟨x, hfound, _, hopen⟩ | ⟨hcreates, mq, k₁, b, k₂, halloc, hadd, rfl⟩ := hcases
  · exact mqUntouched_setRetvalue _
  · rcases opens_found hc hfound hopen with ⟨mq, -, -, rfl⟩ | rfl
    · rcases openDescriptor_tied hs (hc.tidy.tied .mq) r mq DSOS_EMQOPEN with
        ⟨he, _⟩ | ⟨d, ptr, hadded⟩
      · rw [he]
        exact mqUntouched_setRetvalue _
      · exact absurd hneg (retvalue_added hadded hcounter)
    · exact mqUntouched_setRetvalue _
  · -- the message queue has been allocated, so everything else is
    exfalso
    obtain ⟨hpooled₁, hsize, hpool₁⟩ := messageQueueAlloc_size hs.pooled halloc
    have hsome : (k.pool .messageQueue).size ≠ 0 := by
      intro hz
      have hpos := size_nonneg hpooled₁ .messageQueue
      omega
    have hflag := addQueues_flag hpooled₁ hadd
    rw [hpool₁ .queue (by decide)] at hflag
    have hprio : 0 ≤ toInt (k.arg r 2) := hcreates.2.2.2.2.2.1
    obtain ⟨-, L₃, hnew⟩ := messageQueue_created hc halloc hadd
    have hq₃ := hnew.queued
    cases b with
    | false =>
      refine hdry ⟨hcreates, hsome, .inl ?_⟩
      by_contra hno
      exact Bool.false_ne_true (hflag.mpr (by omega))
    | true =>
      rcases openDescriptor_tied hq₃.settled.strung (hq₃.tied (hc.tidy.tied .mq)) r mq DSOS_EMQOPEN
        with ⟨_, hzero⟩ | ⟨d, ptr, hadded⟩
      · have hpool := hq₃.pool .mqDescriptor (by decide)
        exact hdry ⟨hcreates, hsome, .inr ((congrArg PoolAllocator.size hpool).symm.trans hzero)⟩
      · have hpcb : k₂.pcb = k.pcb := (addQueues_pcb hadd).trans (messageQueueAlloc_pcb halloc)
        refine retvalue_added hadded ?_ hneg
        show 0 ≤ (k₂.pcb r).fdCounter .mq
        rw [hpcb]
        exact hcounter

theorem mqOpen_creates {b : Bool} {k₂ : Kernel} (hr : k.running = some r) (h : Creates k r)
    (halloc : k.messageQueueAlloc (toInt (k.arg r 0)) (toInt (k.arg r 2)) = some (mq, k₁))
    (hadd : addQueues mq 0 (toInt (k.arg r 2) + 1).toNat k₁ = (b, k₂)) :
    internalMqOpen k = .ok (if b then (k₂.append .messageQueuesList ⟨.messageQueue, mq⟩).openDescriptor
      .mq r mq DSOS_EMQOPEN else k₂.setRetvalue r DSOS_EMQOPEN) := by
  obtain ⟨hfd, hid, hsearch, hflag, hsize, hprio, hprio'⟩ := h
  unfold internalMqOpen
  rw [deref_eq_ok.mpr hr]
  simp only [bind, Except.bind]
  rw [if_neg (by omega), if_neg (by omega), hsearch]
  simp only
  rw [if_pos hflag, if_neg (by omega), if_neg (by omega), halloc]
  simp only
  rw [hadd]
  cases b <;> rfl

/-- With too few blocks a message queue is left behind. -/
theorem mqOpen_runsDry (hc : Coherent k L) (hr : k.running = some r) (h : RunsDry k r) :
    ∃ k', internalMqOpen k = .ok k' ∧ (k'.pcb r).syscallRetvalue = DSOS_EMQOPEN ∧
      (k'.pool .messageQueue).size = (k.pool .messageQueue).size - 1 := by
  obtain ⟨hcreates, hsome, hshort⟩ := h
  have hpooled := hc.tidy.strung.pooled
  obtain ⟨⟨mq, k₁⟩, halloc⟩ : ∃ new,
      k.messageQueueAlloc (toInt (k.arg r 0)) (toInt (k.arg r 2)) = some new := by
    have hne : k.newItem .messageQueue ≠ none := fun hn =>
      hsome ((newItem_eq_none hpooled).mp hn)
    obtain ⟨⟨i, k₁⟩, hnew⟩ := Option.ne_none_iff_exists'.mp hne
    unfold messageQueueAlloc
    rw [hnew]
    exact ⟨_, rfl⟩
  obtain ⟨b, k₂, hadd⟩ : ∃ b k₂, addQueues mq 0 (toInt (k.arg r 2) + 1).toNat k₁ = (b, k₂) :=
    ⟨_, _, rfl⟩
  obtain ⟨hpooled₁, hsize, hpool₁⟩ := messageQueueAlloc_size hpooled halloc
  have hflag := addQueues_flag hpooled₁ hadd
  rw [hpool₁ .queue (by decide)] at hflag
  have hsize₂ : (k₂.pool .messageQueue).size = (k.pool .messageQueue).size - 1 := by
    rw [addQueues_pool (by decide) hadd, hsize]
  refine ⟨_, mqOpen_creates hr hcreates halloc hadd, ?_⟩
  cases b with
  | false =>
    refine ⟨?_, hsize₂⟩
    show (Function.update k₂.pcb r _ r).syscallRetvalue = _
    rw [Function.update_self]
  | true =>
    -- the queues are there, so it is the descriptor that is missing
    have hlong := hflag.mp rfl
    have hzero : (k.pool .mqDescriptor).size = 0 := hshort.resolve_left (by omega)
    obtain ⟨-, L₃, hnew⟩ := messageQueue_created hc halloc hadd
    have hq₃ := hnew.queued
    have hpool := hq₃.pool .mqDescriptor (by decide)
    rw [if_pos rfl, openDescriptor_full (t := .mq) hq₃.settled.strung.pooled
      ((congrArg PoolAllocator.size hpool).trans hzero)]
    refine ⟨?_, hsize₂⟩
    show (Function.update k₂.pcb r _ r).syscallRetvalue = _
    rw [Function.update_self]

/-! ## The call -/

theorem act_mqOpen (hc : Coherent k L) (hr : k.running = some r) (args : List Int) :
    k.act (.syscall DSOS_CALL_MQOPEN args) =
      internalMqOpen (k.setCall r DSOS_CALL_MQOPEN args) :=
  syscall_direct hc rfl (by decide) (by decide) (by decide) hr args

theorem failsAtomically_iff (hc : Coherent k L) (hr : k.running = some r)
    (hcounter : 0 ≤ (k.pcb r).lastMqFd) :
    FailsAtomically k r args ↔ ¬ RunsDry (k.setCall r DSOS_CALL_MQOPEN args) r := by
  have hc₁ : Coherent (k.setCall r DSOS_CALL_MQOPEN args) L := coherent_setCall hc hr
  have hr₁ : (k.setCall r DSOS_CALL_MQOPEN args).running = some r := hr
  constructor
  · intro h hdry
    obtain ⟨k', hk', hret, hsize⟩ := mqOpen_runsDry hc₁ hr₁ hdry
    have hneg : (k'.pcb r).syscallRetvalue < 0 := by
      rw [hret]
      decide
    have huntouched := h k' ((act_mqOpen hc hr args).trans hk') hneg
    have hsame : _ = (k.pool .messageQueue).size := huntouched.free .messageQueue (.inl rfl)
    have hless : _ = (k.pool .messageQueue).size - 1 := hsize
    omega
  · intro hdry k' hact hneg
    have hopen := (act_mqOpen hc hr args).symm.trans hact
    have hcounter₁ : 0 ≤ ((k.setCall r DSOS_CALL_MQOPEN args).pcb r).lastMqFd := by
      show 0 ≤ ((k.setCall r DSOS_CALL_MQOPEN args).pcb r).fdCounter .mq
      rw [counter_setCall]
      exact hcounter
    exact mqUntouched_setCall (untouched_of_mqOpen hc₁ hr₁ hcounter₁ hdry hopen hneg)

/-- A process has counted its open descriptors. -/
def Counted (s : FdTable) : Prop := (s.fds.length : Int) ≤ s.next

theorem counted_step {s s' : FdTable} (h : Counted s) (hstep : FdStep .mq True s s') : Counted s' := by
  unfold Counted at h ⊢
  cases hstep with
  | kept => exact h
  | opened =>
    rw [List.length_append, List.length_singleton]
    push_cast
    omega
  | closed as fd bs next =>
    simp only [List.length_append, List.length_cons] at h ⊢
    rw [if_neg (by decide)]
    push_cast at h ⊢
    omega

theorem reachable_mqFd {mem : Int → UInt8} {k₀ : Kernel} {as : List Action} (hs : Started mem k₀)
    (h : Run act (fun _ a => Ordinary a) k₀ as k) :
    ∃ L, Coherent k L ∧ ∀ p, Allocated k .pcb p → 0 ≤ (k.pcb p).lastMqFd := by
  have hempty : Counted ⟨[], 0⟩ := le_rfl
  obtain ⟨L, hc, hfds⟩ :=
    run_fdTable (t := .mq) (by decide) hempty (fun _ _ => counted_step) hs h
  exact ⟨L, hc, fun p hp => (Int.natCast_nonneg _).trans (hfds p hp)⟩

/-- In every reachable state a failed `mqOpen` has changed nothing, exactly when it does not run
out of blocks after it has allocated a message queue. -/
theorem mqOpen_fails_atomically_iff {mem : Int → UInt8} {k₀ : Kernel} {as : List Action}
    (hs : Started mem k₀) (h : Run act (fun _ a => Ordinary a) k₀ as k)
    (hr : k.running = some r) (args : List Int) :
    FailsAtomically k r args ↔ ¬ RunsDry (k.setCall r DSOS_CALL_MQOPEN args) r := by
  obtain ⟨L, hc, hfds⟩ := reachable_mqFd hs h
  exact failsAtomically_iff hc hr (hfds r (hc.sound.placed.live_of_running hr))

/-- The first process asks for a message queue that is not there. -/
theorem mqOpen_fails_atomically_missing :
    ∃ k₀ k, Started (fun _ => 0) k₀ ∧ Run act (fun _ a => Ordinary a) k₀ [] k ∧
      k.running = some 0 ∧ FailsAtomically k 0 [7, 0, 0] := by
  obtain ⟨k₀, k, hs, h, htest⟩ := exists_run_from_start (fun _ a => Ordinary a)
    (fun _ a => decide (Ordinary a)) []
    (fun k => k.running = some 0 ∧ ¬ RunsDry (k.setCall 0 DSOS_CALL_MQOPEN [7, 0, 0]) 0)
    (fun _ _ h => of_decide_eq_true h) (by decide +kernel)
  obtain ⟨hr, hdry⟩ := of_decide_eq_true htest
  exact ⟨k₀, k, hs, h, hr, (mqOpen_fails_atomically_iff hs h hr [7, 0, 0]).mpr hdry⟩

/-- The first process creates a message queue with the lowest priority that is accepted. It
needs a queue more than there are. -/
theorem mqOpen_leaves_queues :
    ∃ k₀ k, Started (fun _ => 0) k₀ ∧ Run act (fun _ a => Ordinary a) k₀ [] k ∧
      k.running = some 0 ∧ ¬ FailsAtomically k 0 [1, 1, MAX_NUM_QUEUES] := by
  obtain ⟨k₀, k, hs, h, htest⟩ := exists_run_from_start (fun _ a => Ordinary a)
    (fun _ a => decide (Ordinary a)) []
    (fun k => k.running = some 0 ∧
      RunsDry (k.setCall 0 DSOS_CALL_MQOPEN [1, 1, MAX_NUM_QUEUES]) 0)
    (fun _ _ h => of_decide_eq_true h) (by decide +kernel)
  obtain ⟨hr, hdry⟩ := of_decide_eq_true htest
  obtain ⟨L, hc, hfds⟩ := reachable_mqFd hs h
  have hcounter := hfds 0 (hc.sound.placed.live_of_running hr)
  exact ⟨k₀, k, hs, h, hr, fun hw => (failsAtomically_iff hc hr hcounter).mp hw hdry⟩

end DisastrOS.MessageQueue.OpenAtomic
