import DisastrOS.MessageQueue.Draining

/-!
# The return value of `mqWrite`

Every exit of `mqWrite` pairs a return value with an effect. The exit for a message queue
that is full returns 0, which is also the answer of a successful write to class 0.
-/
namespace DisastrOS.MessageQueue.WriteResults

open DisastrOS.Machine
open DisastrOS.Machine.Kernel
open DisastrOS.Machine.Runs
open DisastrOS.Descriptors.Bindings
open DisastrOS.Lists.Wiring
open DisastrOS.Pool.Blocks
open DisastrOS.Library.GuardedRun
open DisastrOS.Library.Outcome
open DisastrOS.MessageQueue.Calls
open DisastrOS.MessageQueue.Classes
open DisastrOS.MessageQueue.Draining
open DisastrOS.MessageQueue.Representation
open DisastrOS.MessageQueue.TableInvariant

/-- The class that a write with the given priority goes to, in a message queue with the
bound `max`. -/
def classFor (priority max : Int) : Int :=
  if 0 ≤ priority ∧ priority ≤ max then priority else max

/-- The call of `mqWrite` by `r` with the arguments `args` has appended the new message `m`
to the queue `q` of `mq`, and done nothing else. -/
structure Appended (k : Kernel) (L : HeadAddr → List Node) (r mq q m : Nat) (args : List Int)
    (k' : Kernel) : Prop where
  queue : ⟨.queue, q⟩ ∈ L (.queues mq)
  cls : (k.queue q).priority =
    classFor (toInt (args.getD 3 0)) (k.messageQueue mq).priority
  returned : (k'.pcb r).syscallRetvalue = (k.queue q).priority
  fresh : ¬ Allocated k .message m
  allocated : ∀ kind i, Allocated k' kind i ↔ (kind = .message ∧ i = m) ∨ Allocated k kind i
  messages : Wired MqParts k'
    (Function.update L (.messages q) (L (.messages q) ++ [⟨.message, m⟩]))
  others : Confined MqParts k k'
  rest : k' = { k with
    lists := k'.lists
    pool := Function.update k.pool .message (k'.pool .message)
    pcb := ((k.setCall r DSOS_CALL_MQWRITE args).setRetvalue r (k.queue q).priority).pcb
    message := Function.update k.message m ⟨toInt (args.getD 2 0), args.getD 1 0⟩
    messageQueue := Function.update k.messageQueue mq
      { k.messageQueue mq with numMessages := (k.messageQueue mq).numMessages + 1 } }

/-- What a call of `mqWrite` owes: a non-negative result says that a message has been
appended to the class with this number, a negative one that nothing has changed. -/
def WriteFaithful (k : Kernel) (L : HeadAddr → List Node) (r : Nat) (args : List Int) : Prop :=
  ∃ k', k.act (.syscall DSOS_CALL_MQWRITE args) = .ok k' ∧
    (0 ≤ (k'.pcb r).syscallRetvalue ↔ ∃ d mq q m,
      (k.setCall r DSOS_CALL_MQWRITE args).boundTo .mq r (toInt (args.getD 0 0)) =
        .ok (some (d, mq)) ∧ Appended k L r mq q m args k') ∧
    ((k'.pcb r).syscallRetvalue < 0 →
      k' = (k.setCall r DSOS_CALL_MQWRITE args).setRetvalue r (k'.pcb r).syscallRetvalue)

/-- The arguments pass the tests that come before the test for a full message queue. -/
def WellPosed (args : List Int) : Prop :=
  fdOutOfBounds (toInt (args.getD 0 0)) MAX_NUM_MQDESCRIPTORS_PER_PROCESS = false ∧
    args.getD 1 0 ≠ 0 ∧ 0 ≤ toInt (args.getD 2 0) ∧ toInt (args.getD 2 0) ≤ MAX_MESSAGE_LENGTH

/-- A write with arguments in order goes to a message queue that holds
`MAX_NUM_MESSAGES_PER_MQ` messages. -/
def WritesToFull (k : Kernel) (r : Nat) (args : List Int) : Prop :=
  WellPosed args ∧ ∃ d mq,
    (k.setCall r DSOS_CALL_MQWRITE args).boundTo .mq r (toInt (args.getD 0 0)) =
      .ok (some (d, mq)) ∧
    (k.messageQueue mq).numMessages + 1 > MAX_NUM_MESSAGES_PER_MQ

/-- A write with arguments in order, through an open descriptor, with a message block left. -/
def CanAccept (k : Kernel) (r : Nat) (args : List Int) : Prop :=
  WellPosed args ∧ (∃ b, (k.setCall r DSOS_CALL_MQWRITE args).boundTo .mq r
    (toInt (args.getD 0 0)) = .ok (some b)) ∧ (k.pool .message).size ≠ 0

variable {k k' : Kernel} {L L' : HeadAddr → List Node} {r mq q m n : Nat} {args : List Int}

/-- The normalisation of the code keeps the class that was asked for if there is one. -/
theorem effectivePriority_eq {priority max : Int} :
    effectivePriority priority max = classFor priority max := by
  unfold effectivePriority classFor
  split <;> split <;> omega

/-! ## The exits -/

/-- A write with bad arguments is refused. -/
theorem mqWrite_badArgs (hr : k.running = some r) (hbad : ¬ WellPosed args) :
    k.act (.syscall DSOS_CALL_MQWRITE args) =
      .ok ((k.setCall r DSOS_CALL_MQWRITE args).setRetvalue r DSOS_EMQWRITE) := by
  have harg : ∀ j < 4, (k.setCall r DSOS_CALL_MQWRITE args).arg r j = args.getD j 0 :=
    fun j hj => arg_setCall hj
  have hr' : (k.setCall r DSOS_CALL_MQWRITE args).running = some r := hr
  show k.disastrOSSyscall DSOS_CALL_MQWRITE args = _
  rw [syscall_stays args rfl (by decide) (by decide) hr
    (ensures_mono (mqWrite_running _) fun _ h => h.trans hr)]
  unfold internalMqWrite
  simp only [hr', deref, bind, Except.bind, harg 0 (by decide), harg 1 (by decide),
    harg 2 (by decide), pure, Except.pure]
  by_cases hfd : fdOutOfBounds (toInt (args.getD 0 0)) MAX_NUM_MQDESCRIPTORS_PER_PROCESS = true
  · rw [if_pos hfd]
  · rw [if_neg hfd]
    by_cases hbuf : args.getD 1 0 = 0
    · rw [if_pos hbuf]
    · rw [if_neg hbuf]
      by_cases hsize : toInt (args.getD 2 0) < 0 ∨ toInt (args.getD 2 0) > MAX_MESSAGE_LENGTH
      · rw [if_pos hsize]
      · exact absurd ⟨by simpa using hfd, hbuf, by omega, by omega⟩ hbad

/-- A write either is refused, or finds the message queue full, or appends a message. -/
theorem mqWrite_outcomes (hr : k.running = some r) (hw : Wired MqParts k L)
    (htable : ∀ d mq, (k.setCall r DSOS_CALL_MQWRITE args).boundTo .mq r
      (toInt (args.getD 0 0)) = .ok (some (d, mq)) → ClassTable k L mq) :
    ∃ k', k.act (.syscall DSOS_CALL_MQWRITE args) = .ok k' ∧
      ((¬ WritesToFull k r args ∧ ¬ CanAccept k r args ∧
          k' = (k.setCall r DSOS_CALL_MQWRITE args).setRetvalue r DSOS_EMQWRITE) ∨
        (WritesToFull k r args ∧
          k' = (k.setCall r DSOS_CALL_MQWRITE args).setRetvalue r 0) ∨
        (¬ WritesToFull k r args ∧
          ∃ mq q m, Wrote (k.setCall r DSOS_CALL_MQWRITE args) r mq q m k')) := by
  by_cases hposed : WellPosed args
  · have hw₁ : Wired MqParts (k.setCall r DSOS_CALL_MQWRITE args) L := wired_congr hw rfl rfl
    obtain ⟨found, hb⟩ := boundTo_ok (t := .mq) r (toInt (args.getD 0 0)) hw₁
      (.inr (.inl rfl))
    have hfull : ∀ d mq, found = some (d, mq) → (WritesToFull k r args ↔
        (k.messageQueue mq).numMessages + 1 > MAX_NUM_MESSAGES_PER_MQ) := by
      rintro d mq rfl
      constructor
      · rintro ⟨_, d', mq', hb', hn⟩
        cases hb.symm.trans hb'
        exact hn
      · intro hn
        exact ⟨hposed, d, mq, hb, hn⟩
    have harg : ∀ j < 4, (k.setCall r DSOS_CALL_MQWRITE args).arg r j = args.getD j 0 :=
      fun j hj => arg_setCall hj
    have hr' : (k.setCall r DSOS_CALL_MQWRITE args).running = some r := hr
    obtain ⟨hfd, hbuf, hsize⟩ := hposed
    show ∃ k', k.disastrOSSyscall DSOS_CALL_MQWRITE args = .ok k' ∧ _
    rw [syscall_stays args rfl (by decide) (by decide) hr
      (ensures_mono (mqWrite_running _) fun _ h => h.trans hr)]
    unfold internalMqWrite
    have hsize' : ¬ (toInt (args.getD 2 0) < 0 ∨ toInt (args.getD 2 0) > MAX_MESSAGE_LENGTH) := by
      omega
    simp only [hr', deref, bind, Except.bind, harg 0 (by decide), harg 1 (by decide),
      harg 2 (by decide), harg 3 (by decide), hfd, Bool.false_eq_true, if_false, hbuf, hsize', hb,
      pure, Except.pure]
    cases found with
    | none =>
      have hno : ¬ WritesToFull k r args := by
        rintro ⟨_, _, _, hb', _⟩
        cases hb.symm.trans hb'
      have hcan : ¬ CanAccept k r args := by
        rintro ⟨_, ⟨_, hb'⟩, _⟩
        cases hb.symm.trans hb'
      exact ⟨_, rfl, .inl ⟨hno, hcan, rfl⟩⟩
    | some b =>
      obtain ⟨d, mq⟩ := b
      have h := classTable_setCall r DSOS_CALL_MQWRITE args (htable d mq hb)
      by_cases hn : (k.messageQueue mq).numMessages + 1 > MAX_NUM_MESSAGES_PER_MQ
      · refine ⟨_, if_pos hn, .inr (.inl ⟨(hfull d mq rfl).mpr hn, rfl⟩)⟩
      · have hno : ¬ WritesToFull k r args := mt (hfull d mq rfl).mp hn
        have hroom : ¬ ((k.setCall r DSOS_CALL_MQWRITE args).messageQueue mq).numMessages + 1 >
          MAX_NUM_MESSAGES_PER_MQ := hn
        have hmax := h.priority.1
        obtain ⟨q, hq, hprio, hfind⟩ := class_queue h (c := effectivePriority (toInt (args.getD 3 0))
          ((k.setCall r DSOS_CALL_MQWRITE args).messageQueue mq).priority)
          (by unfold effectivePriority; split <;> omega)
          (by unfold effectivePriority; split <;> omega)
        simp only [if_neg hroom, hfind, messageAlloc]
        cases hnew : (k.setCall r DSOS_CALL_MQWRITE args).newItem .message with
        | none =>
          have hsize : (k.pool .message).size = 0 := (newItem_eq_none hw₁.pooled).mp hnew
          exact ⟨_, rfl, .inl ⟨hno, fun hc => hc.2.2 hsize, rfl⟩⟩
        | some new =>
          obtain ⟨m, k₁⟩ := new
          refine ⟨_, rfl, .inr (.inr ⟨hno, mq, q, m, ⟨d, ?_⟩, ?_, ?_, ?_, ?_, ?_, k₁, hnew, ?_⟩)⟩
          · rw [harg 0 (by decide)]
            exact hb
          · rw [harg 0 (by decide)]
            exact hfd
          · rw [harg 1 (by decide)]
            exact hbuf
          · rw [harg 2 (by decide)]
            exact hsize
          · omega
          · rw [harg 3 (by decide)]
            exact hfind
          · rw [harg 1 (by decide), harg 2 (by decide), harg 3 (by decide)]
  · exact ⟨_, mqWrite_badArgs hr hposed,
      .inl ⟨fun hf => hposed hf.1, fun hc => hposed hc.1, rfl⟩⟩

/-- An accepted write appends its message. -/
theorem appended_of_wrote (h : ClassTable k L mq)
    (hw : Wrote (k.setCall r DSOS_CALL_MQWRITE args) r mq q m k') :
    Appended k L r mq q m args k' := by
  have harg : ∀ j < 4, (k.setCall r DSOS_CALL_MQWRITE args).arg r j = args.getD j 0 :=
    fun j hj => arg_setCall hj
  obtain ⟨hq, hprio, hfree, _, hconf, htable⟩ :=
    wrote_classTable (classTable_setCall r DSOS_CALL_MQWRITE args h) hw
  have hcls : (k.queue q).priority =
      classFor (toInt (args.getD 3 0)) (k.messageQueue mq).priority := by
    rw [← effectivePriority_eq, ← harg 3 (by decide)]
    exact hprio
  obtain ⟨k₁, hnew, hk'⟩ := hw.eq
  have hf := newItem_fresh (k := k.setCall r DSOS_CALL_MQWRITE args)
    (pooled_congr (k := k) rfl h.wired.pooled) hnew
  rw [harg 1 (by decide), harg 2 (by decide), ← hprio] at hk'
  have hpool : k'.pool = Function.update k.pool .message (k'.pool .message) := by
    have hk : k'.pool = Function.update k.pool .message (k.pool .message).getBlock.2 := by
      rw [hk', hf.eq]
      rfl
    rw [hk, Function.update_self]
  refine ⟨hq, hcls, ?_, hfree, ?_, htable.wired, ⟨hconf.item, hconf.head⟩, ?_⟩
  · rw [hk', setRetvalue_self]
    rfl
  · rw [hk']
    exact hf.allocated
  · rw [← hpool, hk', hf.eq]
    rfl

/-- A call that only sets the caller's registers has appended nothing. -/
theorem not_appended {v : Int} :
    ¬ Appended k L r mq q m args ((k.setCall r DSOS_CALL_MQWRITE args).setRetvalue r v) := by
  intro h
  exact h.fresh ((h.allocated .message m).mpr (.inl ⟨rfl, rfl⟩))

theorem returned_nonneg (h : ClassTable k L mq) (ha : Appended k L r mq q m args k') :
    0 ≤ (k'.pcb r).syscallRetvalue := by
  rw [ha.returned]
  exact (class_of_queue h ha.queue).1

theorem faithful_of_room (hr : k.running = some r) (hw : Wired MqParts k L)
    (htable : ∀ d mq, (k.setCall r DSOS_CALL_MQWRITE args).boundTo .mq r
      (toInt (args.getD 0 0)) = .ok (some (d, mq)) → ClassTable k L mq)
    (hroom : ¬ WritesToFull k r args) : WriteFaithful k L r args := by
  obtain ⟨k', hact, ⟨_, _, rfl⟩ | ⟨hfull, _⟩ | ⟨_, mq, q, m, hwrote⟩⟩ :=
    mqWrite_outcomes hr hw htable
  · refine ⟨_, hact, ?_, fun _ => ?_⟩
    · rw [setRetvalue_self]
      exact iff_of_false (by decide) fun ⟨_, _, _, _, _, ha⟩ => not_appended ha
    · rw [setRetvalue_self]
  · exact absurd hfull hroom
  · obtain ⟨d, hb⟩ := hwrote.open_
    rw [arg_setCall (by decide)] at hb
    have h := htable d mq hb
    have ha := appended_of_wrote h hwrote
    have hnonneg := returned_nonneg h ha
    exact ⟨k', hact, iff_of_true hnonneg ⟨d, mq, q, m, hb, ha⟩, fun hneg => by omega⟩

theorem room_of_faithful (hr : k.running = some r) (hw : Wired MqParts k L)
    (htable : ∀ d mq, (k.setCall r DSOS_CALL_MQWRITE args).boundTo .mq r
      (toInt (args.getD 0 0)) = .ok (some (d, mq)) → ClassTable k L mq)
    (hfaithful : WriteFaithful k L r args) : ¬ WritesToFull k r args := by
  intro hfull
  obtain ⟨k₁, hact₁, hiff, _⟩ := hfaithful
  obtain ⟨k', hact, ⟨hno, _⟩ | ⟨_, rfl⟩ | ⟨hno, _⟩⟩ := mqWrite_outcomes hr hw htable
  · exact hno hfull
  · cases hact.symm.trans hact₁
    rw [setRetvalue_self] at hiff
    obtain ⟨_, _, _, _, _, ha⟩ := hiff.mp (Int.le_refl 0)
    exact not_appended ha
  · exact hno hfull

/-- The result of a write is faithful exactly when the write, with arguments in order, does
not go to a full message queue. -/
theorem write_result_faithful (hr : k.running = some r) (hw : Wired MqParts k L)
    (htable : ∀ d mq, (k.setCall r DSOS_CALL_MQWRITE args).boundTo .mq r
      (toInt (args.getD 0 0)) = .ok (some (d, mq)) → ClassTable k L mq) :
    WriteFaithful k L r args ↔ ¬ WritesToFull k r args :=
  ⟨room_of_faithful hr hw htable, faithful_of_room hr hw htable⟩

/-! ## A message queue can be filled -/

/-- Process 0 runs, its descriptor 0 is on the message queue 0, and the `n` messages in it are
all there are. -/
structure Filled (n : Nat) (k : Kernel) (L : HeadAddr → List Node) : Prop where
  tables : Tables k L
  running : k.running = some 0
  bound : ∃ d, k.boundTo .mq 0 0 = .ok (some (d, 0))
  count : (k.messageQueue 0).numMessages = n
  pool : (k.pool .message).size = MAX_NUM_MESSAGES - n

theorem written_classTable {d : Nat} (h : Tables k L)
    (hb : (k.setCall r DSOS_CALL_MQWRITE args).boundTo .mq r (toInt (args.getD 0 0)) =
      .ok (some (d, mq))) : ClassTable k L mq :=
  classTable h (boundTo_listed (tables_setCall h) hb)

theorem wired_parts (h : Tables k L) : Wired MqParts k L :=
  wired_restrict h.wired fun _ _ => trivial

theorem filled_step (h : Filled n k L) (hn : n < 128) :
    ∃ k' L', k.act (.syscall DSOS_CALL_MQWRITE [0, 1000, 5, 0]) = .ok k' ∧ Filled (n + 1) k' L' := by
  obtain ⟨d, hb⟩ := h.bound
  have hb' : (k.setCall 0 DSOS_CALL_MQWRITE [0, 1000, 5, 0]).boundTo .mq 0
      (toInt ([0, 1000, 5, 0].getD 0 0)) = .ok (some (d, 0)) := by
    have hfd : toInt ([(0 : Int), 1000, 5, 0].getD 0 0) = 0 := by decide
    rw [hfd, boundTo_setCall, hb]
  have hpool := h.pool
  have hcount := h.count
  unfold MAX_NUM_MESSAGES at hpool
  obtain ⟨k', hact, ⟨_, hno, _⟩ | ⟨⟨_, d', mq', hb₁, hmax⟩, _⟩ | ⟨_, mq, q, m, hwrote⟩⟩ :=
    mqWrite_outcomes h.running (wired_parts h.tables) fun _ _ hb => written_classTable h.tables hb
  · exact absurd ⟨⟨by decide, by decide, by decide, by decide⟩, ⟨_, hb'⟩, by omega⟩ hno
  · cases hb'.symm.trans hb₁
    unfold MAX_NUM_MESSAGES_PER_MQ at hmax
    omega
  · obtain ⟨_, _, _, _, hsize, _, ht⟩ := wrote_tables (tables_setCall h.tables) hwrote
    obtain ⟨d', hopen⟩ := hwrote.open_
    rw [arg_setCall (by decide)] at hopen
    cases hb'.symm.trans hopen
    have ha := appended_of_wrote (written_classTable h.tables hb') hwrote
    refine ⟨k', _, hact, ht, ?_, ⟨d, ?_⟩, ?_, ?_⟩
    · rw [ha.rest]
      exact h.running
    · rw [← hb]
      refine boundTo_opened (S := Everything) h.tables.wired ht.wired trivial ?_ (by rw [ha.rest])
      exact Function.update_of_ne (by simp) _ _
    · rw [ha.rest]
      simp only [Function.update_self]
      rw [hcount]
      push_cast
      rfl
    · rw [hsize]
      show (k.pool .message).size - 1 = 128 - _
      push_cast
      omega

theorem exists_filled (h : Filled 0 k L) (n : Nat) (hn : n ≤ 128) :
    ∃ k' L', Run act (fun _ _ => True) k
      (List.replicate n (.syscall DSOS_CALL_MQWRITE [0, 1000, 5, 0])) k' ∧ Filled n k' L' := by
  induction n with
  | zero => exact ⟨k, L, .nil _, h⟩
  | succ n ih =>
    obtain ⟨k₁, L₁, hrun, hfilled⟩ := ih (by omega)
    obtain ⟨k', L', hact, hnext⟩ := filled_step hfilled (by omega)
    refine ⟨k', L', ?_, hnext⟩
    rw [List.replicate_succ']
    exact .snoc hrun trivial hact

/-- Process 0 can create a message queue and put up to 128 messages into it. -/
theorem exists_filled_run (n : Nat) (hn : n ≤ 128) :
    ∃ k₀ k L, Started (fun _ => 0) k₀ ∧
      Run act (fun _ _ => True) k₀ (.syscall DSOS_CALL_MQOPEN [1, 1, 0] ::
        List.replicate n (.syscall DSOS_CALL_MQWRITE [0, 1000, 5, 0])) k ∧ Filled n k L := by
  obtain ⟨k₀, k₁, hstart, hrun, htest⟩ := exists_run_from_start _ alone
    [.syscall DSOS_CALL_MQOPEN [1, 1, 0]]
    (fun k => decide (k.running = some 0 ∧ firstIsOpen k = true ∧
      (k.messageQueue 0).numMessages = 0 ∧ (k.pool .message).size = 128)) alone_safe
    (by decide +kernel)
  obtain ⟨hr, hopen, hnum, hpool⟩ := of_decide_eq_true htest
  obtain ⟨L, ht⟩ := tables_run hstart hrun
  obtain ⟨k, L', hrun', hfilled⟩ :=
    exists_filled ⟨ht, hr, exists_of_firstIsOpen hopen, hnum, hpool⟩ n hn
  exact ⟨k₀, k, L', hstart, run_trans (run_mono (fun _ _ _ => trivial) hrun) hrun', hfilled⟩

theorem write_result_faithful_first :
    ∃ k₀ k L, Started (fun _ => 0) k₀ ∧
      Run act (fun _ _ => True) k₀ [.syscall DSOS_CALL_MQOPEN [1, 1, 0]] k ∧
      WriteFaithful k L 0 [0, 1000, 5, 0] := by
  obtain ⟨k₀, k, L, hstart, hrun, h⟩ := exists_filled_run 0 (by decide)
  refine ⟨k₀, k, L, hstart, hrun, (write_result_faithful h.running (wired_parts h.tables)
    fun _ _ hb => written_classTable h.tables hb).mpr ?_⟩
  rintro ⟨_, d, mq, hb, hfull⟩
  obtain ⟨d', hopen⟩ := h.bound
  rw [boundTo_setCall] at hb
  cases hopen.symm.trans hb
  rw [h.count] at hfull
  exact absurd hfull (by decide)

/-- The 129th message is not accepted, and the answer is 0. -/
theorem full_write_returns_zero :
    ∃ k₀ k L, Started (fun _ => 0) k₀ ∧
      Run act (fun _ _ => True) k₀ (.syscall DSOS_CALL_MQOPEN [1, 1, 0] ::
        List.replicate 128 (.syscall DSOS_CALL_MQWRITE [0, 1000, 5, 0])) k ∧
      Tables k L ∧ ¬ WriteFaithful k L 0 [0, 1000, 5, 0] := by
  obtain ⟨k₀, k, L, hstart, hrun, h⟩ := exists_filled_run 128 (by decide)
  refine ⟨k₀, k, L, hstart, hrun, h.tables, fun hfaithful => ?_⟩
  refine room_of_faithful h.running (wired_parts h.tables)
    (fun _ _ hb => written_classTable h.tables hb) hfaithful ⟨?_, ?_⟩
  · exact ⟨by decide, by decide, by decide, by decide⟩
  · obtain ⟨d, hopen⟩ := h.bound
    rw [boundTo_setCall]
    refine ⟨d, 0, hopen, ?_⟩
    rw [h.count]
    decide

end DisastrOS.MessageQueue.WriteResults
