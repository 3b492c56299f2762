import DisastrOS.Library.ClassFifo
import DisastrOS.MessageQueue.ReadLoop
import DisastrOS.MessageQueue.Representation

/-!
# The order of deliveries

A message queue behaves as a family of queues, one for each priority class: `mqWrite`
appends to the queue of a class, `mqRead` takes the first message of the smallest class
that has any.
-/
namespace DisastrOS.MessageQueue.DeliveryOrder

open DisastrOS.Machine
open DisastrOS.Machine.Kernel
open DisastrOS.Machine.Runs
open DisastrOS.Lists.Wiring
open DisastrOS.Library.ClassFifo
open DisastrOS.Library.GuardedRun
open DisastrOS.MessageQueue.Calls
open DisastrOS.MessageQueue.Classes
open DisastrOS.MessageQueue.ReadLoop
open DisastrOS.MessageQueue.TableInvariant
open DisastrOS.MessageQueue.Representation

/-- What an observer of `mq` sees of an action. An accepted message is named by the
block it gets, a delivered one by the block it gives back; the class of a delivery is
what the reader finds in `*priority`. -/
def observed (mq : Nat) (k : Kernel) (a : Action) (k' : Kernel) : List (Event Int Nat) :=
  match a with
  | .syscall num args =>
    if num = DSOS_CALL_MQWRITE ∧
        (k'.messageQueue mq).numMessages = (k.messageQueue mq).numMessages + 1 then
      [.accepted (effectivePriority (toInt (args.getD 3 0)) (k.messageQueue mq).priority)
        (k.pool .message).firstIdx.toNat]
    else if num = DSOS_CALL_MQREAD ∧
        (k'.messageQueue mq).numMessages = (k.messageQueue mq).numMessages - 1 then
      [.delivered (k'.intAt (args.getD 3 0)) (k'.pool .message).firstIdx.toNat]
    else []
  | _ => []

/-- The descriptor that a call names, if the process has it open, is on `mq`. -/
def callsOn (mq : Nat) (k : Kernel) (num : Int) (args : List Int) : Bool :=
  match k.running with
  | none => true
  | some r =>
    match (k.setCall r num args).boundTo .mq r (toInt (args.getD 0 0)) with
    | .ok (some (_, o)) => o = mq
    | _ => true

/-- Writing to and reading from `mq`, with process switches and changes of user memory
between the calls. -/
def QueueCall (mq : Nat) (k : Kernel) : Action → Prop
  | .syscall num args =>
    (num = DSOS_CALL_MQWRITE ∨ num = DSOS_CALL_MQREAD) ∧ callsOn mq k num args = true
  | .store _ _ | .dispatch _ => True
  | .timer => False
  | .restart => False

/-- The reader's buffer has room for every message. -/
def longBuffer : Action → Bool
  | .syscall num args => num = DSOS_CALL_MQREAD → MAX_MESSAGE_LENGTH ≤ toInt (args.getD 2 0)
  | _ => true

/-- The message lists of `mq` are the pending items of a history. -/
structure InOrder (mq : Nat) (k : Kernel) (h : List (Event Int Nat))
    (L : HeadAddr → List Node) : Prop where
  table : ClassTable k L mq
  ordered : Ordered h
  queues : ∀ q, ⟨.queue, q⟩ ∈ L (.queues mq) →
    (L (.messages q)).map Node.idx = classItems (ledger h) (k.queue q).priority
  classes : ∀ t ∈ (ledger h).pending, 0 ≤ t.cls ∧ t.cls ≤ (k.messageQueue mq).priority

variable {k k' : Kernel} {L : HeadAddr → List Node} {h : List (Event Int Nat)}
  {r mq q m : Nat}

theorem callsOn_eq {num : Int} {args : List Int} {d o : Nat} (hon : callsOn mq k num args = true)
    (hr : k.running = some r)
    (hb : (k.setCall r num args).boundTo .mq r (toInt (args.getD 0 0)) = .ok (some (d, o))) :
    o = mq := by
  simp only [callsOn, hr, hb, decide_eq_true_eq] at hon
  exact hon

theorem observed_quiet {num : Int} {args : List Int}
    (hn : (k'.messageQueue mq).numMessages = (k.messageQueue mq).numMessages) :
    observed mq k (.syscall num args) k' = [] := by
  have hmore : (k'.messageQueue mq).numMessages ≠ (k.messageQueue mq).numMessages + 1 := by omega
  have hless : (k'.messageQueue mq).numMessages ≠ (k.messageQueue mq).numMessages - 1 := by omega
  simp [observed, hmore, hless]

theorem observed_accepted {args : List Int}
    (hn : (k'.messageQueue mq).numMessages = (k.messageQueue mq).numMessages + 1)
    (hm : (k.pool .message).firstIdx = m) :
    observed mq k (.syscall DSOS_CALL_MQWRITE args) k' = [.accepted
      (effectivePriority (toInt (args.getD 3 0)) (k.messageQueue mq).priority) m] := by
  simp [observed, hn, hm]

theorem observed_delivered {args : List Int} {c : Int}
    (hn : (k'.messageQueue mq).numMessages = (k.messageQueue mq).numMessages - 1)
    (hc : k'.intAt (args.getD 3 0) = c) (hm : (k'.pool .message).firstIdx = m) :
    observed mq k (.syscall DSOS_CALL_MQREAD args) k' = [.delivered c m] := by
  have hne : DSOS_CALL_MQREAD ≠ DSOS_CALL_MQWRITE := by decide
  simp only [observed, hne, false_and, if_false, hn, and_self, if_true, hc, hm, Int.toNat_natCast]

/-- The event of a delivery. -/
theorem delivered_observed {args : List Int} {rest : List Node}
    (ht : ClassTable (k.setCall r DSOS_CALL_MQREAD args) L mq)
    (hf : FirstMessage (k.setCall r DSOS_CALL_MQREAD args) L mq 0 q m rest)
    (hd : Delivered ((k.setCall r DSOS_CALL_MQREAD args).detach (.messages q) ⟨.message, m⟩) r mq
      m (k.queue q).priority (args.getD 1 0) (args.getD 3 0) k') :
    observed mq k (.syscall DSOS_CALL_MQREAD args) k' =
      [.delivered (k.queue q).priority m] := by
  have hclass := class_of_queue ht hf.queue
  change 0 ≤ (k.queue q).priority ∧ (k.queue q).priority ≤ (k.messageQueue mq).priority at hclass
  have hmax : (k.messageQueue mq).priority ≤ MAX_NUM_QUEUES := ht.priority.2
  have hless : (k'.messageQueue mq).numMessages = (k.messageQueue mq).numMessages - 1 := by
    rw [hd.messageQueue, Function.update_self]
    rfl
  refine observed_delivered hless (delivered_intAt hd hclass.1 ?_) (delivered_classTable ht hf hd).1
  unfold MAX_NUM_QUEUES at hmax
  omega

theorem inOrder_congr (hi : InOrder mq k h L) (hlists : k'.lists = k.lists)
    (hpool : k'.pool = k.pool) (hmq : k'.messageQueue = k.messageQueue)
    (hq : k'.queue = k.queue) (hm : k'.message = k.message) : InOrder mq k' h L := by
  refine ⟨classTable_congr hi.table hlists hpool (by rw [hmq]) hq hm, hi.ordered, ?_, ?_⟩
  · rw [hq]
    exact hi.queues
  · rw [hmq]
    exact hi.classes

/-- A pending ticket is a message in the queue of its class. -/
theorem pending_linked (hi : InOrder mq k h L) {t : Ticket Int Nat}
    (ht : t ∈ (ledger h).pending) :
    ∃ q, ⟨.queue, q⟩ ∈ L (.queues mq) ∧ (k.queue q).priority = t.cls ∧
      ⟨.message, t.item⟩ ∈ L (.messages q) := by
  obtain ⟨h0, hle⟩ := hi.classes t ht
  obtain ⟨q, hq, hc, _⟩ := class_queue hi.table h0 hle
  refine ⟨q, hq, hc, mem_idx (l := .messages q) hi.table.wired message_part ?_⟩
  rw [hi.queues q hq, hc]
  exact mem_classItems.mpr ⟨t, ht, rfl, rfl⟩

/-! ## Steps -/

/-- A change of user memory, of process fields and of the running process only. -/
def Quiet (k k' : Kernel) : Prop :=
  k' = { k with pcb := k'.pcb, mem := k'.mem, running := k'.running }

/-- What a call on `mq` can do, and what an observer sees of it. -/
theorem queueCall_cases {a : Action} (ht : ClassTable k L mq) (ha : QueueCall mq k a)
    (hfits : readFits k a = true) (hstep : k.act a = .ok k') :
    (Quiet k k' ∧ observed mq k a k' = []) ∨
      (∃ r args q m, a = .syscall DSOS_CALL_MQWRITE args ∧ k.running = some r ∧
        Wrote (k.setCall r DSOS_CALL_MQWRITE args) r mq q m k' ∧
        observed mq k a k' = [.accepted
          (effectivePriority (toInt (args.getD 3 0)) (k.messageQueue mq).priority) m]) ∨
      ∃ r args q m rest, a = .syscall DSOS_CALL_MQREAD args ∧ k.running = some r ∧
        (k.message m).textLength ≤ toInt (args.getD 2 0) ∧
        FirstMessage (k.setCall r DSOS_CALL_MQREAD args) L mq 0 q m rest ∧
        Delivered ((k.setCall r DSOS_CALL_MQREAD args).detach (.messages q) ⟨.message, m⟩) r mq m
          (k.queue q).priority (args.getD 1 0) (args.getD 3 0) k' ∧
        observed mq k a k' = [.delivered (k.queue q).priority m] := by
  cases a with
  | timer => cases ha
  | restart => cases ha
  | dispatch p =>
    cases hstep
    exact .inl ⟨rfl, rfl⟩
  | store addr v =>
    obtain ⟨_, rfl⟩ := storeChar_eq_ok.mp hstep
    exact .inl ⟨rfl, rfl⟩
  | syscall num args =>
    have hanswer : ∀ r v, k' = (k.setCall r num args).setRetvalue r v →
        Quiet k k' ∧ observed mq k (.syscall num args) k' = [] := by
      intro r v hk
      exact ⟨by rw [hk]; rfl, observed_quiet (by rw [hk]; rfl)⟩
    obtain ⟨rfl | rfl, hon⟩ := ha
    · obtain ⟨r, hr, hcall⟩ := syscall_ok rfl (by decide) (by decide) hstep
      obtain ⟨r', hr', hcase⟩ := mqWrite_cases hcall
      have he : r' = r := Option.some.inj (hr'.symm.trans hr)
      subst he
      rcases hcase with ⟨v, hk⟩ | ⟨mq', q, m, hw⟩
      · exact .inl (hanswer r' v hk)
      · obtain ⟨d, hb⟩ := hw.open_
        rw [arg_setCall (by decide)] at hb
        have hmq : mq' = mq := callsOn_eq hon hr hb
        subst hmq
        have htc := classTable_setCall r' DSOS_CALL_MQWRITE args ht
        have hmore : (k'.messageQueue mq').numMessages =
            (k.messageQueue mq').numMessages + 1 := by
          rw [wrote_messageQueue htc.wired.pooled hw, Function.update_self]
          rfl
        exact .inr (.inl ⟨r', args, q, m, rfl, hr, hw,
          observed_accepted hmore (wrote_classTable htc hw).2.2.2.1⟩)
    · have htable : ∀ r d mq', k.running = some r →
          (k.setCall r DSOS_CALL_MQREAD args).boundTo .mq r (toInt (args.getD 0 0)) =
            .ok (some (d, mq')) → ClassTable k L mq' := by
        intro r d mq' hr hb
        rw [callsOn_eq hon hr hb]
        exact ht
      obtain ⟨r, k₁, hr, rfl, ⟨v, hk⟩ | ⟨d, mq', q, m, rest, hb, hf, _, hlen, hd⟩⟩ :=
        mqRead_fits htable hfits hstep
      · exact .inl (hanswer r v hk)
      · have hmq : mq' = mq := callsOn_eq hon hr hb
        subst hmq
        have htc := classTable_setCall r DSOS_CALL_MQREAD args ht
        have hf' : FirstMessage (k.setCall r DSOS_CALL_MQREAD args) L mq' 0 q m rest :=
          ⟨hf.queue, hf.first, hf.low, hf.smallest⟩
        exact .inr (.inr ⟨r, args, q, m, rest, rfl, hr, hlen, hf', hd,
          delivered_observed htc hf' hd⟩)

/-- An accepted write appends to the queue of its effective class. -/
theorem inOrder_wrote (hi : InOrder mq k h L) (hw : Wrote k r mq q m k') :
    InOrder mq k' (h ++ [.accepted
        (effectivePriority (toInt (k.arg r 3)) (k.messageQueue mq).priority) m])
      (Function.update L (.messages q) (L (.messages q) ++ [⟨.message, m⟩])) := by
  obtain ⟨hq, hprio, hfresh, _, _, ht⟩ := wrote_classTable hi.table hw
  have hmq := wrote_messageQueue hi.table.wired.pooled hw
  have hadm : Admissible (ledger h) (.accepted (k.queue q).priority m) := by
    intro t hp he
    obtain ⟨q', _, _, hm⟩ := pending_linked hi hp
    rw [he] at hm
    exact hfresh (allocated_of_mem (l := .messages q') hi.table.wired message_part hm)
  rw [← hprio]
  refine ⟨ht, ordered_snoc hi.ordered hadm, fun q' hq' => ?_, fun t hp => ?_⟩
  · rw [Function.update_of_ne (by simp)] at hq'
    obtain ⟨k₁, hnew, rfl⟩ := hw.eq
    have hqueue : k₁.queue = k.queue := by
      rw [(newItem_fresh hi.table.wired.pooled hnew).eq]
    change _ = classItems _ (k₁.queue q').priority
    rw [hqueue, ledger_snoc, classItems_accepted]
    by_cases he : q' = q
    · subst he
      rw [Function.update_self, List.map_append, hi.queues q' hq', if_pos rfl]
      rfl
    · have hne : (k.queue q).priority ≠ (k.queue q').priority := fun hc =>
        he (queue_unique hi.table hq hq' hc.symm)
      rw [Function.update_of_ne (by simpa using he), if_neg hne, List.append_nil,
        hi.queues q' hq']
  · have hsame : (k'.messageQueue mq).priority = (k.messageQueue mq).priority := by
      rw [hmq, Function.update_self]
    rw [hsame]
    rw [ledger_snoc, record, List.mem_append, List.mem_singleton] at hp
    rcases hp with hold | rfl
    · exact hi.classes t hold
    · exact class_of_queue hi.table hq

/-- A delivery takes the first message of the smallest class that has any. -/
theorem inOrder_delivered {rest : List Node} {buf priority : Int} (hi : InOrder mq k h L)
    (hf : FirstMessage k L mq 0 q m rest)
    (hd : Delivered (k.detach (.messages q) ⟨.message, m⟩) r mq m (k.queue q).priority buf
      priority k') :
    InOrder mq k' (h ++ [.delivered (k.queue q).priority m])
      (Function.update L (.messages q) rest) := by
  obtain ⟨_, _, ht⟩ := delivered_classTable hi.table hf hd
  have hkept := (wellKept_ledger hi.ordered).1
  have hitems : classItems (ledger h) (k.queue q).priority = m :: rest.map Node.idx := by
    rw [← hi.queues q hf.queue, hf.first]
    rfl
  have hadm : Admissible (ledger h) (.delivered (k.queue q).priority m) := by
    refine admissible_of_first hkept hitems fun c hc => ?_
    by_contra hne
    obtain ⟨i, hin⟩ := List.exists_mem_of_ne_nil _ hne
    obtain ⟨t, hp, rfl, rfl⟩ := mem_classItems.mp hin
    obtain ⟨q', hq', hcls, hm⟩ := pending_linked hi hp
    rw [hf.smallest q' hq' (class_of_queue hi.table hq').1 (by omega)] at hm
    cases hm
  have hrest : k'.queue = k.queue ∧
      (k'.messageQueue mq).priority = (k.messageQueue mq).priority := by
    refine ⟨by rw [hd.rest]; rfl, ?_⟩
    rw [hd.messageQueue, Function.update_self]
    rfl
  refine ⟨ht, ordered_snoc hi.ordered hadm, fun q' hq' => ?_, fun t hp => ?_⟩
  · rw [Function.update_of_ne (by simp)] at hq'
    rw [hrest.1, ledger_snoc]
    by_cases he : q' = q
    · subst he
      rw [Function.update_self, classItems_delivered_self hkept hitems]
    · have hne : (k.queue q').priority ≠ (k.queue q).priority := fun hc =>
        he (queue_unique hi.table hf.queue hq' hc)
      have hmem : m ∈ classItems (ledger h) (k.queue q).priority := by
        rw [hitems]
        exact List.mem_cons_self
      rw [Function.update_of_ne (by simpa using he), hi.queues q' hq',
        classItems_delivered_other hkept hmem hne]
  · rw [hrest.2]
    rw [ledger_snoc, record] at hp
    exact hi.classes t (List.mem_filter.mp hp).1

theorem inOrder_quiet (hi : InOrder mq k h L) (hq : Quiet k k') : InOrder mq k' h L :=
  inOrder_congr hi (by rw [hq]) (by rw [hq]) (by rw [hq]) (by rw [hq]) (by rw [hq])

theorem inOrder_setCall (r : Nat) (num : Int) (args : List Int) (hi : InOrder mq k h L) :
    InOrder mq (k.setCall r num args) h L :=
  inOrder_congr hi rfl rfl rfl rfl rfl

/-- One call keeps the order, if every read meets a message that fits. -/
theorem inOrder_step {a : Action} (hi : InOrder mq k h L) (ha : QueueCall mq k a)
    (hfits : readFits k a = true) (hstep : k.act a = .ok k') :
    ∃ L', InOrder mq k' (h ++ observed mq k a k') L' := by
  rcases queueCall_cases hi.table ha hfits hstep with ⟨hq, ho⟩ |
    ⟨r, args, q, m, rfl, _, hw, ho⟩ | ⟨r, args, q, m, rest, _, _, _, hf, hd, ho⟩
  · rw [ho, List.append_nil]
    exact ⟨L, inOrder_quiet hi hq⟩
  · have hkeep := inOrder_wrote (inOrder_setCall _ _ _ hi) hw
    rw [arg_setCall (by decide)] at hkeep
    rw [ho]
    exact ⟨_, hkeep⟩
  · have hkeep := inOrder_delivered
      (inOrder_setCall r DSOS_CALL_MQREAD args hi) hf hd
    rw [ho]
    exact ⟨_, hkeep⟩

/-- A read with a long buffer fits. -/
theorem readFits_of_long {a : Action} (h : ClassTable k L mq) (ha : QueueCall mq k a)
    (hlong : longBuffer a = true) : readFits k a = true := by
  cases a with
  | syscall num args =>
    by_cases hnum : num = DSOS_CALL_MQREAD
    · subst hnum
      have hlen : MAX_MESSAGE_LENGTH ≤ toInt (args.getD 2 0) := by
        simpa [longBuffer] using hlong
      simp only [readFits, if_true]
      split
      · rfl
      · next r hr =>
        split
        · next d o hb =>
          rw [callsOn_eq ha.2 hr hb]
          exact firstFits_of_long (classTable_setCall _ _ _ h) hlen 0 _
        · rfl
    · simp only [readFits, if_neg hnum]
  | _ => rfl

theorem inOrder_start (h : ClassTable k L mq)
    (hempty : ∀ q, ⟨.queue, q⟩ ∈ L (.queues mq) → L (.messages q) = []) : InOrder mq k [] L := by
  refine ⟨h, ordered_nil, fun q hq => ?_, (fun _ ht => nomatch ht)⟩
  rw [hempty q hq]
  rfl

/-- From a message queue without messages, every run of calls on it delivers in order:
each delivery is the oldest pending message of its class, which is the smallest class
with a pending message, and each accepted message is delivered at most once. -/
theorem delivery_order {k₀ k : Kernel} {as : List Action} (hmq : ClassTable k₀ L mq)
    (hempty : ∀ q, ⟨.queue, q⟩ ∈ L (.queues mq) → L (.messages q) = [])
    (hrun : Run (withHistory act (observed mq))
      (fun s a => QueueCall mq s.1 a ∧ longBuffer a = true) (k₀, []) as (k, h)) :
    Ordered h ∧ ((ledger h).served.map Ticket.number).Nodup ∧
      (ledger h).served.length = h.countP Event.isDelivery := by
  have hinv : ∃ L, InOrder mq k h L := by
    refine run_invariant (I := fun s => ∃ L, InOrder mq s.1 s.2 L) ?_
      ⟨L, inOrder_start hmq hempty⟩ hrun
    rintro s a t ⟨L, hs⟩ ⟨ha, hlong⟩ hstep
    obtain ⟨hact, hhist⟩ := withHistory_ok.mp hstep
    rw [hhist]
    exact inOrder_step hs ha (readFits_of_long hs.table ha hlong) hact
  obtain ⟨L, hi⟩ := hinv
  obtain ⟨hkept, hlen⟩ := wellKept_ledger hi.ordered
  exact ⟨hi.ordered, hkept.once, hlen⟩

/-- The class of a message comes before its age. -/
theorem delivery_order_three_messages :
    ∃ k₀ k h, Run (withHistory act (observed 0))
        (fun s a => QueueCall 0 s.1 a ∧ longBuffer a = true) (k₀, [])
        [.syscall DSOS_CALL_MQWRITE [0, 1000, 3, 1], .syscall DSOS_CALL_MQWRITE [0, 1100, 5, 0],
          .syscall DSOS_CALL_MQWRITE [0, 1200, 0, 0],
          .syscall DSOS_CALL_MQREAD [0, 2000, 32, 3000],
          .syscall DSOS_CALL_MQREAD [0, 2000, 40, 3000]] (k, h) ∧
      h = [.accepted 1 0, .accepted 0 1, .accepted 0 2, .delivered 0 1, .delivered 0 2] ∧
      Ordered h := by
  obtain ⟨k₀, L, ht, hl, hnum, htest⟩ := exists_created [1, 1, 2] (fun k =>
      (exec (withHistory act (observed 0)) (fun s => onCalls (fun k num args =>
          (num = DSOS_CALL_MQWRITE ∨ num = DSOS_CALL_MQREAD) ∧ callsOn 0 k num args = true ∧
            longBuffer (.syscall num args) = true) s.1) (k, [])
        [.syscall DSOS_CALL_MQWRITE [0, 1000, 3, 1], .syscall DSOS_CALL_MQWRITE [0, 1100, 5, 0],
          .syscall DSOS_CALL_MQWRITE [0, 1200, 0, 0],
          .syscall DSOS_CALL_MQREAD [0, 2000, 32, 3000],
          .syscall DSOS_CALL_MQREAD [0, 2000, 40, 3000]]).any fun s =>
          s.2 = [.accepted 1 0, .accepted 0 1, .accepted 0 2, .delivered 0 1, .delivered 0 2])
    (by decide +kernel)
  have hzero : linkedMessages L 0 = 0 := by
    have := ht.counted 0 hl
    omega
  obtain ⟨⟨k, h⟩, hrun, heq⟩ := exists_run (fun s a => QueueCall 0 s.1 a ∧
    longBuffer a = true) (fun s a hc => by
      obtain ⟨num, args, rfl, hc⟩ := onCalls_eq_true hc
      obtain ⟨hn, hon, hlong⟩ := of_decide_eq_true hc
      exact ⟨⟨hn, hon⟩, hlong⟩) htest
  refine ⟨k₀, k, h, hrun, of_decide_eq_true heq, ?_⟩
  exact (delivery_order (classTable ht hl) ((linkedMessages_eq_zero ht).mp hzero) hrun).1

end DisastrOS.MessageQueue.DeliveryOrder
