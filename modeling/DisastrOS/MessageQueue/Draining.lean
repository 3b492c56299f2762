import Mathlib.Data.Nat.Find
import DisastrOS.MessageQueue.DeliveryOrder

/-!
# Draining a message queue

`mqWrite` puts a message with a priority outside `0..mq.priority-1` into the class
`mq.priority`, and the loop of `mqRead` ends before that class. As long as no such
message is accepted, and no read drops a message, every accepted message can be read
and the empty message queue can be removed.
-/
namespace DisastrOS.MessageQueue.Draining

open DisastrOS.Machine
open DisastrOS.Machine.Kernel
open DisastrOS.Machine.Runs
open DisastrOS.Descriptors.Bindings
open DisastrOS.Lists.Sequences
open DisastrOS.Lists.Wiring
open DisastrOS.Pool.Blocks
open DisastrOS.Library.ClassFifo
open DisastrOS.Library.GuardedRun
open DisastrOS.Library.LinkedSequence
open DisastrOS.Library.Outcome
open DisastrOS.MessageQueue.Calls
open DisastrOS.MessageQueue.Classes
open DisastrOS.MessageQueue.ReadLoop
open DisastrOS.MessageQueue.DeliveryOrder
open DisastrOS.MessageQueue.Representation
open DisastrOS.MessageQueue.TableInvariant

/-- The tests of `mqWrite` on a descriptor open on `mq` succeed. -/
def Accepts (k : Kernel) (r mq : Nat) : Prop :=
  fdOutOfBounds (toInt (k.arg r 0)) MAX_NUM_MQDESCRIPTORS_PER_PROCESS = false ∧
    k.arg r 1 ≠ 0 ∧ (0 ≤ toInt (k.arg r 2) ∧ toInt (k.arg r 2) ≤ MAX_MESSAGE_LENGTH) ∧
    (∃ d, k.boundTo .mq r (toInt (k.arg r 0)) = .ok (some (d, mq))) ∧
    (k.messageQueue mq).numMessages + 1 ≤ MAX_NUM_MESSAGES_PER_MQ ∧
    (k.getBlock .message).isSome = true

/-- An accepted write asks for a priority outside `0..mq.priority-1`. -/
def Strands (mq : Nat) (k : Kernel) : Action → Prop
  | .syscall num args => num = DSOS_CALL_MQWRITE ∧
      ∃ r, k.running = some r ∧ Accepts (k.setCall r num args) r mq ∧
        ¬ (0 ≤ toInt (args.getD 3 0) ∧ toInt (args.getD 3 0) < (k.messageQueue mq).priority)
  | _ => False

/-- Closing a descriptor on `mq`. -/
def CloseCall (mq : Nat) (k : Kernel) : Action → Prop
  | .syscall num args => num = DSOS_CALL_MQCLOSE ∧ callsOn mq k num args = true
  | _ => False

/-- The calls on `mq` that strand no message and drop none. -/
def DrainCall (mq : Nat) (k : Kernel) (a : Action) : Prop :=
  (QueueCall mq k a ∧ ¬ Strands mq k a ∧ readFits k a = true) ∨ CloseCall mq k a

/-- The message queue is found by its id, its descriptors are bound, and its item is
not linked with its own queues. -/
structure Anchored (mq : Nat) (k : Kernel) (L : HeadAddr → List Node) : Prop where
  bound : Bound .mq k L
  found : k.messageQueueListById .messageQueuesList (k.messageQueue mq).id =
    .ok (some ⟨.messageQueue, mq⟩)
  aside : ∀ x ∈ L (.queues mq), (k.lists.item ⟨.messageQueue, mq⟩).prev ≠ some x ∧
    (k.lists.item ⟨.messageQueue, mq⟩).next ≠ some x

/-- All pending messages of `mq` are in classes that the read loop reaches. -/
structure Drainable (mq : Nat) (k : Kernel) (h : List (Event Int Nat))
    (L : HeadAddr → List Node) : Prop where
  order : InOrder mq k h L
  anchored : Anchored mq k L
  below : ∀ t ∈ (ledger h).pending, t.cls < (k.messageQueue mq).priority
  counted : (k.messageQueue mq).numMessages = (ledger h).pending.length

variable {k k' : Kernel} {L L' : HeadAddr → List Node} {h : List (Event Int Nat)}
  {r mq q m : Nat}

theorem messageQueue_no_part : ¬ MqParts .messageQueue := by decide

/-- Changes confined to messages and descriptors keep the anchoring. -/
theorem anchored_confined (ha : Anchored mq k L) (hc : Confined MqParts k k')
    (hb : Bound .mq k' L') (hid : ∀ i, (k'.messageQueue i).id = (k.messageQueue i).id)
    (hqueue : k'.queue = k.queue) (hL : L' (.queues mq) = L (.queues mq)) : Anchored mq k' L' := by
  refine ⟨hb, ?_, ?_⟩
  · have hsearch : k'.messageQueueListById .messageQueuesList (k'.messageQueue mq).id =
        k.messageQueueListById .messageQueuesList (k.messageQueue mq).id := by
      rw [hid]
      refine byId_frame (hc.head .messageQueuesList messageQueue_no_part)
        (fun x hx => hc.item x ?_) hid hqueue
      rcases hx with hx | hx
      · rw [hx]
        exact messageQueue_no_part
      · rw [hx]
        exact queue_no_part
    rw [hsearch]
    exact ha.found
  · rw [hL, hc.item _ messageQueue_no_part]
    exact ha.aside

theorem bound_messages {xs : List Node} (hb : Bound .mq k L) (hd : k'.descriptor = k.descriptor)
    (hp : k'.descriptorPtr = k.descriptorPtr) :
    Bound .mq k' (Function.update L (.messages q) xs) := by
  refine bound_congr hb (fun p => Function.update_of_ne (by simp) _ _) (fun o ptr => ?_)
    (fun _ _ _ => by rw [hd]) fun _ _ _ => by rw [hp]
  unfold PointerListed
  rw [Function.update_of_ne (by simp), Function.update_of_ne (by simp)]

/-! ## Steps -/

theorem wrote_accepts (hw : Wrote k r mq q m k') : Accepts k r mq := by
  obtain ⟨k₁, hnew, _⟩ := hw.eq
  refine ⟨hw.fd, hw.buffer, hw.size, hw.open_, hw.room, ?_⟩
  unfold Kernel.newItem at hnew
  cases hget : k.getBlock .message with
  | none =>
    rw [hget] at hnew
    cases hnew
  | some new => rfl

theorem wrote_rest (hp : Pooled k) (hw : Wrote k r mq q m k') :
    k'.descriptor = k.descriptor ∧ k'.descriptorPtr = k.descriptorPtr ∧ k'.queue = k.queue := by
  obtain ⟨k₁, hnew, rfl⟩ := hw.eq
  have hrest : k₁.descriptor = k.descriptor ∧ k₁.descriptorPtr = k.descriptorPtr ∧
      k₁.queue = k.queue := by
    rw [(newItem_fresh hp hnew).eq]
    exact ⟨rfl, rfl, rfl⟩
  exact hrest

theorem drainable_congr (hd : Drainable mq k h L) (hlists : k'.lists = k.lists)
    (hpool : k'.pool = k.pool) (hmq : k'.messageQueue = k.messageQueue)
    (hq : k'.queue = k.queue) (hm : k'.message = k.message)
    (hdesc : k'.descriptor = k.descriptor) (hptr : k'.descriptorPtr = k.descriptorPtr) :
    Drainable mq k' h L := by
  refine ⟨inOrder_congr hd.order hlists hpool hmq hq hm, ?_, ?_, ?_⟩
  · refine anchored_confined hd.anchored (confined_of_lists hlists) ?_ (by simp [hmq]) hq rfl
    exact bound_congr hd.anchored.bound (fun _ => rfl) (fun _ _ => Iff.rfl)
      (fun _ _ _ => by rw [hdesc]) fun _ _ _ => by rw [hptr]
  · rw [hmq]
    exact hd.below
  · rw [hmq]
    exact hd.counted

theorem drainable_setCall (r : Nat) (num : Int) (args : List Int) (hd : Drainable mq k h L) :
    Drainable mq (k.setCall r num args) h L :=
  drainable_congr hd rfl rfl rfl rfl rfl rfl rfl

theorem drainable_wrote (hd : Drainable mq k h L) (hw : Wrote k r mq q m k')
    (h0 : 0 ≤ toInt (k.arg r 3)) (hlt : toInt (k.arg r 3) < (k.messageQueue mq).priority) :
    Drainable mq k' (h ++ [.accepted
        (effectivePriority (toInt (k.arg r 3)) (k.messageQueue mq).priority) m])
      (Function.update L (.messages q) (L (.messages q) ++ [⟨.message, m⟩])) := by
  have hp := hd.order.table.wired.pooled
  have hmq := wrote_messageQueue hp hw
  obtain ⟨_, _, _, _, hconf, _⟩ := wrote_classTable hd.order.table hw
  obtain ⟨hdesc, hptr, hqueue⟩ := wrote_rest hp hw
  refine ⟨inOrder_wrote hd.order hw, anchored_confined hd.anchored hconf
    (bound_messages hd.anchored.bound hdesc hptr) (fun i => ?_) hqueue
    (Function.update_of_ne (by simp) _ _), fun t ht => ?_, ?_⟩
  · rw [hmq, Function.update_apply]
    split
    · next he => rw [he]
    · rfl
  · rw [hmq, Function.update_self]
    rw [ledger_snoc, record, List.mem_append, List.mem_singleton] at ht
    rcases ht with hold | rfl
    · exact hd.below t hold
    · change effectivePriority _ _ < _
      unfold effectivePriority
      rw [if_neg (by omega)]
      exact hlt
  · rw [hmq, Function.update_self, ledger_snoc, record, List.length_append,
      List.length_singleton]
    have hcount := hd.counted
    push_cast
    omega

theorem drainable_delivered {rest : List Node} {buf priority : Int} (hd : Drainable mq k h L)
    (hf : FirstMessage k L mq 0 q m rest)
    (hdel : Delivered (k.detach (.messages q) ⟨.message, m⟩) r mq m (k.queue q).priority buf
      priority k') :
    Drainable mq k' (h ++ [.delivered (k.queue q).priority m])
      (Function.update L (.messages q) rest) := by
  obtain ⟨_, hconf, _⟩ := delivered_classTable hd.order.table hf hdel
  have hkept := (wellKept_ledger hd.order.ordered).1
  have hmem : m ∈ classItems (ledger h) (k.queue q).priority := by
    rw [← hd.order.queues q hf.queue, hf.first]
    exact List.mem_cons_self
  obtain ⟨t, ht, _, hitem⟩ := mem_classItems.mp hmem
  have hless := pending_delivered (c := (k.queue q).priority) hkept ht hitem
  refine ⟨inOrder_delivered hd.order hf hdel, anchored_confined hd.anchored hconf
    (bound_messages hd.anchored.bound (by rw [hdel.rest]; rfl) (by rw [hdel.rest]; rfl))
    (fun i => ?_) (by rw [hdel.rest]; rfl) (Function.update_of_ne (by simp) _ _), fun u hu => ?_, ?_⟩
  · rw [hdel.messageQueue, Function.update_apply]
    split
    · next he =>
      rw [he]
      rfl
    · rfl
  · rw [hdel.messageQueue, Function.update_self]
    rw [ledger_snoc, record] at hu
    exact hd.below u (List.mem_filter.mp hu).1
  · rw [hdel.messageQueue, Function.update_self, ledger_snoc]
    have hcount := hd.counted
    change (k.messageQueue mq).numMessages - 1 = _
    omega

/-- Closing a descriptor on the message queue leaves its messages alone. -/
theorem drainable_close (hd : Drainable mq k h L) {args : List Int}
    (hon : callsOn mq k DSOS_CALL_MQCLOSE args = true)
    (hstep : k.act (.syscall DSOS_CALL_MQCLOSE args) = .ok k') : ∃ L', Drainable mq k' h L' := by
  obtain ⟨r, hr, hcall⟩ := syscall_ok rfl (by decide) (by decide) hstep
  have hc := drainable_setCall r DSOS_CALL_MQCLOSE args hd
  obtain ⟨r', hr', ⟨v, rfl⟩ | ⟨d, mq', v, hb, rfl⟩⟩ := mqClose_cases hcall
  · exact ⟨L, drainable_congr hc rfl rfl rfl rfl rfl rfl rfl⟩
  · have he : r' = r := Option.some.inj (hr'.symm.trans hr)
    subst he
    have hmq : mq' = mq := by
      rw [arg_setCall (by decide)] at hb
      exact callsOn_eq hon hr hb
    subst hmq
    generalize k.setCall r' DSOS_CALL_MQCLOSE args = k₁ at hc hb ⊢
    have hw := hc.order.table.wired
    have hS : MqParts Table.mq.descriptorKind := .inr (.inl rfl)
    have hS' : MqParts Table.mq.pointerKind := .inr (.inr rfl)
    obtain ⟨hm, _, ho⟩ := boundTo_some hw hS hb
    obtain ⟨ptr, hptr, hu⟩ := pointer_of_open hc.anchored.bound (by decide) hm ho
    obtain ⟨_, hclosed⟩ := closeDescriptor_closed hw hS hS' hm hptr hu
    have hbound := bound_closed hw hS hS' hc.anchored.bound hm hclosed
    have hrest := hclosed.rest
    generalize (k₁.closeDescriptor .mq r' d mq').2 = k₂ at hclosed hbound hrest ⊢
    have hother : ∀ l, (∀ p, l ≠ .opened .mq p) → (∀ o, l ≠ .users .mq o) →
        Function.update (Function.update L (.opened .mq r')
          ((L (.opened .mq r')).erase ⟨Table.mq.descriptorKind, d⟩)) (.users .mq mq')
          ((L (.users .mq mq')).erase ⟨Table.mq.pointerKind, ptr⟩) l = L l := by
      intro l hno hnu
      rw [Function.update_of_ne (hnu mq'), Function.update_of_ne (hno r')]
    have hsame : k₂.messageQueue = k₁.messageQueue ∧ k₂.queue = k₁.queue ∧
        k₂.message = k₁.message := by
      rw [hrest]
      exact ⟨rfl, rfl, rfl⟩
    have hqueues : Holds k₂.lists (.queues mq') (L (.queues mq')) :=
      holds_confined (l := .queues mq') hclosed.confined queue_no_part
        (queues_apart hc.order.table) hc.order.table.queues
    have htable : ClassTable k₂ (Function.update (Function.update L (.opened .mq r')
        ((L (.opened .mq r')).erase ⟨Table.mq.descriptorKind, d⟩)) (.users .mq mq')
        ((L (.users .mq mq')).erase ⟨Table.mq.pointerKind, ptr⟩)) mq' :=
      classTable_rewire hc.order.table hclosed.wired (hother _ (by simp) (by simp))
        (fun q => hother _ (by simp) (by simp)) hqueues (by rw [hsame.1]) hsame.2.1 hsame.2.2
    have hanchored : Anchored mq' k₂ _ := anchored_confined hc.anchored hclosed.confined hbound
      (fun i => by rw [hsame.1]) hsame.2.1 (hother _ (by simp) (by simp))
    refine ⟨_, drainable_congr ⟨⟨htable, hc.order.ordered, fun q hq => ?_, ?_⟩, hanchored,
      ?_, ?_⟩ rfl rfl rfl rfl rfl rfl rfl⟩
    · rw [hother _ (by simp) (by simp)] at hq ⊢
      rw [hsame.2.1]
      exact hc.order.queues q hq
    · rw [hsame.1]
      exact hc.order.classes
    · rw [hsame.1]
      exact hc.below
    · rw [hsame.1]
      exact hc.counted

theorem drainable_step {a : Action} (hd : Drainable mq k h L) (ha : DrainCall mq k a)
    (hstep : k.act a = .ok k') : ∃ L', Drainable mq k' (h ++ observed mq k a k') L' := by
  rcases ha with ⟨hcall, hgood, hfits⟩ | hclose
  · rcases queueCall_cases hd.order.table hcall hfits hstep with ⟨hq, ho⟩ |
      ⟨r, args, q, m, rfl, hr, hw, ho⟩ | ⟨r, args, q, m, rest, _, _, _, hf, hdel, ho⟩
    · rw [ho, List.append_nil]
      exact ⟨L, drainable_congr hd (by rw [hq]) (by rw [hq]) (by rw [hq]) (by rw [hq])
        (by rw [hq]) (by rw [hq]) (by rw [hq])⟩
    · have hin : 0 ≤ toInt (args.getD 3 0) ∧
          toInt (args.getD 3 0) < (k.messageQueue mq).priority := by
        by_contra hno
        exact hgood ⟨rfl, r, hr, wrote_accepts hw, hno⟩
      have hkeep := drainable_wrote (drainable_setCall _ _ _ hd) hw
      rw [arg_setCall (by decide)] at hkeep
      rw [ho]
      exact ⟨_, hkeep hin.1 hin.2⟩
    · have hkeep := drainable_delivered
        (drainable_setCall r DSOS_CALL_MQREAD args hd) hf hdel
      rw [ho]
      exact ⟨_, hkeep⟩
  · cases a with
    | syscall num args =>
      obtain ⟨rfl, hon⟩ := hclose
      have hquiet : observed mq k (.syscall DSOS_CALL_MQCLOSE args) k' = [] := rfl
      rw [hquiet, List.append_nil]
      exact drainable_close hd hon hstep
    | timer => cases hclose
    | restart => cases hclose
    | store addr v => cases hclose
    | dispatch p => cases hclose

/-! ## Reading what is pending -/

/-- The oldest pending message of the smallest class. -/
theorem exists_first (hi : InOrder mq k h L) (hpend : (ledger h).pending ≠ []) :
    ∃ q m rest, FirstMessage k L mq 0 q m rest ∧
      ∃ t ∈ (ledger h).pending, t.cls = (k.queue q).priority ∧ t.item = m := by
  have hex : ∃ c : Nat, ∃ t ∈ (ledger h).pending, t.cls = c := by
    obtain ⟨t, ht⟩ := List.exists_mem_of_ne_nil _ hpend
    exact ⟨t.cls.toNat, t, ht, (Int.toNat_of_nonneg (hi.classes t ht).1).symm⟩
  classical
  obtain ⟨t, ht, hc⟩ := Nat.find_spec hex
  have hmin : ∀ c' < Nat.find hex, ¬ ∃ t ∈ (ledger h).pending, t.cls = (c' : Int) :=
    fun c' => Nat.find_min hex
  obtain ⟨q, hq, hqc, hm⟩ := pending_linked hi ht
  have hsmallest : ∀ q', ⟨.queue, q'⟩ ∈ L (.queues mq) →
      (k.queue q').priority < (k.queue q).priority → L (.messages q') = [] := by
    intro q' hq' hlt
    refine List.eq_nil_iff_forall_not_mem.mpr fun x hx => ?_
    have hin : x.idx ∈ classItems (ledger h) (k.queue q').priority := by
      rw [← hi.queues q' hq']
      exact List.mem_map.mpr ⟨x, hx, rfl⟩
    obtain ⟨u, hu, huc, _⟩ := mem_classItems.mp hin
    have h0 := (class_of_queue hi.table hq').1
    exact hmin (k.queue q').priority.toNat (by omega) ⟨u, hu, by omega⟩
  cases hL : L (.messages q) with
  | nil =>
    rw [hL] at hm
    cases hm
  | cons x rest =>
    have hx : x = ⟨.message, x.idx⟩ := node_eq (l := .messages q) hi.table.wired message_part
      (by rw [hL]; exact List.mem_cons_self)
    have hin : x.idx ∈ classItems (ledger h) (k.queue q).priority := by
      rw [← hi.queues q hq, hL]
      exact List.mem_cons_self
    obtain ⟨u, hu, huc, hui⟩ := mem_classItems.mp hin
    refine ⟨q, x.idx, rest, ⟨hq, by rw [hL, ← hx], by omega, fun q' hq' _ hlt => ?_⟩, u, hu, huc,
      hui⟩
    exact hsmallest q' hq' hlt

/-- The arguments of a read by `p` through a descriptor on `mq`, with a long buffer. -/
structure ReadsFrom (mq : Nat) (k : Kernel) (p : Nat) (args : List Int) : Prop where
  fd : fdOutOfBounds (toInt (args.getD 0 0)) MAX_NUM_MQDESCRIPTORS_PER_PROCESS = false
  open_ : ∃ d, k.boundTo .mq p (toInt (args.getD 0 0)) = .ok (some (d, mq))
  buffer : args.getD 1 0 ≠ 0
  long : MAX_MESSAGE_LENGTH ≤ toInt (args.getD 2 0)
  priority : args.getD 3 0 ≠ 0

theorem readsFrom_congr {p : Nat} {args : List Int} (hread : ReadsFrom mq k p args)
    (hlists : k'.lists = k.lists) (hdesc : k'.descriptor = k.descriptor) :
    ReadsFrom mq k' p args := by
  refine ⟨hread.fd, ?_, hread.buffer, hread.long, hread.priority⟩
  rw [boundTo_congr hlists hdesc]
  exact hread.open_

/-- Such a read delivers a message, if there is one. -/
theorem read_delivers {args : List Int} (hd : Drainable mq k h L) (hr : k.running = some r)
    (hread : ReadsFrom mq k r args) (hpend : (ledger h).pending ≠ []) :
    ∃ k' q m rest, k.act (.syscall DSOS_CALL_MQREAD args) = .ok k' ∧
      FirstMessage (k.setCall r DSOS_CALL_MQREAD args) L mq 0 q m rest ∧
      Delivered ((k.setCall r DSOS_CALL_MQREAD args).detach (.messages q) ⟨.message, m⟩) r mq m
        (k.queue q).priority (args.getD 1 0) (args.getD 3 0) k' ∧
      ∃ t ∈ (ledger h).pending, t.cls = (k.queue q).priority ∧ t.item = m := by
  obtain ⟨q, m, rest, hf, t, ht, htc, htm⟩ := exists_first hd.order hpend
  have hf' : FirstMessage (k.setCall r DSOS_CALL_MQREAD args) L mq 0 q m rest :=
    ⟨hf.queue, hf.first, hf.low, hf.smallest⟩
  have hc := drainable_setCall r DSOS_CALL_MQREAD args hd
  have hread' : ReadsFrom mq (k.setCall r DSOS_CALL_MQREAD args) r args :=
    readsFrom_congr hread rfl rfl
  obtain ⟨d, hb⟩ := hread'.open_
  have hnum : ((k.setCall r DSOS_CALL_MQREAD args).messageQueue mq).numMessages ≠ 0 := by
    rw [hc.counted]
    simpa using hpend
  have hpriority := hd.order.table.priority.1
  have hbelow := hd.below t ht
  have htext : (k.message m).textLength ≤ toInt (args.getD 2 0) := by
    have := (hd.order.table.texts q ⟨.message, m⟩ hf.queue
      (by rw [hf.first]; exact List.mem_cons_self)).2.1
    exact this.trans hread.long
  have hhigh : (k.queue q).priority < 0 + (((k.messageQueue mq).priority.toNat : Nat) : Int) := by
    omega
  obtain ⟨k', hloop, hdel⟩ := readClasses_delivers (r := r) hc.order.table (Int.le_refl 0) hf'
    hhigh htext hread.buffer hread.priority
  refine ⟨k', q, m, rest, ?_, hf', hdel, t, ht, htc, htm⟩
  have harg : ∀ i < 4, (k.setCall r DSOS_CALL_MQREAD args).arg r i = args.getD i 0 :=
    fun i hi => arg_setCall hi
  have hcall := mqRead_eq (k := k.setCall r DSOS_CALL_MQREAD args) (d := d) hr
    (by rw [harg 0 (by decide)]; exact hread.fd) (by rw [harg 0 (by decide)]; exact hb) hnum
  rw [harg 1 (by decide), harg 2 (by decide), harg 3 (by decide)] at hcall
  rw [Kernel.act, syscall_stays args rfl (by decide) (by decide) hr
    (ensures_mono (mqRead_running _) fun _ h => h.trans hr), hcall]
  exact hloop

/-- Reads leave the descriptors of all processes alone. -/
theorem readsFrom_delivered {rest : List Node} {buf priority : Int} {p : Nat} {args : List Int}
    (hd : Drainable mq k h L) (hf : FirstMessage k L mq 0 q m rest)
    (hdel : Delivered (k.detach (.messages q) ⟨.message, m⟩) r mq m (k.queue q).priority buf
      priority k') (hread : ReadsFrom mq k p args) : ReadsFrom mq k' p args := by
  have hw := (delivered_classTable hd.order.table hf hdel).2.2.wired
  have hbound : k'.boundTo .mq p (toInt (args.getD 0 0)) =
      k.boundTo .mq p (toInt (args.getD 0 0)) :=
    boundTo_opened hd.order.table.wired hw (.inr (.inl rfl))
      (Function.update_of_ne (by simp) _ _) (by rw [hdel.rest]; rfl)
  refine ⟨hread.fd, ?_, hread.buffer, hread.long, hread.priority⟩
  rw [hbound]
  exact hread.open_

/-- As many such reads as there are pending messages leave none. -/
theorem reads_drain {reads : List (Nat × List Int)} (hd : Drainable mq k h L)
    (hreads : ∀ x ∈ reads, ReadsFrom mq k x.1 x.2)
    (hlen : reads.length = (ledger h).pending.length) :
    ∃ k' h', Run (withHistory act (observed mq)) (fun s a => DrainCall mq s.1 a) (k, h)
      (reads.flatMap fun x => [.dispatch x.1, .syscall DSOS_CALL_MQREAD x.2]) (k', h') ∧
      (ledger h').pending = [] ∧ (k'.messageQueue mq).numMessages = 0 := by
  induction reads generalizing k h L with
  | nil =>
    refine ⟨k, h, .nil _, List.length_eq_zero_iff.mp hlen.symm, ?_⟩
    rw [hd.counted, ← hlen]
    rfl
  | cons x reads ih =>
    obtain ⟨p, args⟩ := x
    have hk₁ : Drainable mq { k with running := some p } h L :=
      drainable_congr hd rfl rfl rfl rfl rfl rfl rfl
    have hread₁ : ∀ y ∈ (p, args) :: reads, ReadsFrom mq { k with running := some p } y.1 y.2 := by
      exact fun y hy => readsFrom_congr (hreads y hy) rfl rfl
    have hpend : (ledger h).pending ≠ [] := by
      intro he
      rw [he] at hlen
      cases hlen
    have hread := hread₁ (p, args) List.mem_cons_self
    obtain ⟨k₂, q, m, rest, hact, hf, hdel, t, ht, _, htm⟩ := read_delivers hk₁ rfl hread hpend
    have hobs := delivered_observed (drainable_setCall _ _ _ hk₁).order.table hf hdel
    have hk₂ := drainable_delivered (drainable_setCall _ _ _ hk₁) hf hdel
    have hless := pending_delivered (c := (k.queue q).priority)
      (wellKept_ledger hd.order.ordered).1 ht htm
    obtain ⟨k', h', hrun, hnil, hzero⟩ := ih hk₂
      (fun y hy => readsFrom_delivered (drainable_setCall _ _ _ hk₁) hf hdel
        (readsFrom_congr (hread₁ y (List.mem_cons_of_mem _ hy)) rfl rfl))
      (by
        rw [ledger_snoc]
        change reads.length = (record (ledger h) (.delivered (k.queue q).priority m)).pending.length
        simp only [List.length_cons] at hlen
        omega)
    have hcall : QueueCall mq { k with running := some p } (.syscall DSOS_CALL_MQREAD args) := by
      refine ⟨.inr rfl, ?_⟩
      have hread' : ReadsFrom mq (({ k with running := some p } : Kernel).setCall p
          DSOS_CALL_MQREAD args) p args := readsFrom_congr hread rfl rfl
      obtain ⟨d, hb⟩ := hread'.open_
      simp only [callsOn, hb, decide_true]
    have hguard : DrainCall mq { k with running := some p } (.syscall DSOS_CALL_MQREAD args) := by
      refine .inl ⟨hcall, (fun hs => absurd hs.1 (by decide)), ?_⟩
      exact readFits_of_long hk₁.order.table hcall (by simpa [longBuffer] using hread.long)
    have hstep : withHistory act (observed mq) ({ k with running := some p }, h)
        (.syscall DSOS_CALL_MQREAD args) = .ok (k₂, h ++ [.delivered (k.queue q).priority m]) :=
      withHistory_ok.mpr ⟨hact, by rw [hobs]⟩
    have hswitch : withHistory act (observed mq) (k, h) (.dispatch p) =
        .ok ({ k with running := some p }, h) :=
      withHistory_ok.mpr ⟨rfl, (List.append_nil h).symm⟩
    refine ⟨k', h', ?_, hnil, hzero⟩
    exact run_cons (.inl ⟨trivial, id, rfl⟩) hswitch (run_cons hguard hstep hrun)

/-! ## Removing the message queue -/

/-- The dismantling loop on a list of queues without messages. -/
theorem removeQueues_holds {xs : List Node} (hh : Holds k.lists (.queues mq) xs) (hn : xs.Nodup)
    (hk : ∀ x ∈ xs, x.kind = .queue) (hempty : ∀ x ∈ xs, Holds k.lists (.messages x.idx) []) :
    ∃ k', removeQueues mq xs.length k = .ok k' ∧ ∀ l, l ≠ .queues mq → k'.head l = k.head l := by
  induction xs generalizing k with
  | nil => exact ⟨k, rfl, fun _ _ => rfl⟩
  | cons x xs ih =>
    have hfirst : (k.head (.queues mq)).first = some x := hh.first
    have hkind : x.kind = .queue := hk x List.mem_cons_self
    have hdet : k.detachFirst (.queues mq) = .ok (x.idx, k.detach (.queues mq) x) := by
      simp [detachFirst, hfirst, deref, castTo, HeadAddr.nodeKind, hkind, bind, Except.bind, pure,
        Except.pure]
    have hhead : ∀ l, l ≠ .queues mq → (k.detach (.queues mq) x).head l = k.head l :=
      fun l hne => detach_head _ _ hne
    have hmessages : ∀ y ∈ x :: xs, Holds (k.detach (.queues mq) x).lists (.messages y.idx) [] :=
      fun y hy => holds_frame (hempty y hy) (hhead _ (by simp)) (fun _ hz => absurd hz List.not_mem_nil)
    have hnil := hmessages x List.mem_cons_self
    have hsize : ((k.detach (.queues mq) x).head (.messages x.idx)).size = 0 := hnil.size
    have hfree : (k.detach (.queues mq) x).queueFree x.idx =
        .ok ((k.detach (.queues mq) x).releaseBlock .queue x.idx) := by
      unfold queueFree freeUnused
      rw [if_pos ⟨hnil.first, hnil.last⟩]
    have hrest : Holds (k.detach (.queues mq) x).lists (.queues mq) xs :=
      holds_detach (show Holds k.lists (.queues mq) ([] ++ x :: xs) from hh) hn
    obtain ⟨k', hrun, hsame⟩ := ih (k := (k.detach (.queues mq) x).releaseBlock .queue x.idx)
      hrest (List.nodup_cons.mp hn).2 (fun y hy => hk y (List.mem_cons_of_mem _ hy))
      (fun y hy => hmessages y (List.mem_cons_of_mem _ hy))
    refine ⟨k', ?_, fun l hne => (hsame l hne).trans (hhead l hne)⟩
    rw [List.length_cons, removeQueues, hdet]
    simp only [bind, Except.bind, hsize, if_true, hfree]
    exact hrun

/-- `mqUnlink` removes a message queue without messages and descriptors. -/
theorem unlink_succeeds {args : List Int} (hd : Drainable mq k h L)
    (hpend : (ledger h).pending = []) (husers : (k.head (.users .mq mq)).size = 0)
    (hr : k.running = some r) (hid : toInt (args.getD 0 0) = (k.messageQueue mq).id) :
    ∃ k', k.act (.syscall DSOS_CALL_MQUNLINK args) = .ok k' ∧
      (k'.pcb r).syscallRetvalue = 0 := by
  have hc := drainable_setCall r DSOS_CALL_MQUNLINK args hd
  have hr' : (k.setCall r DSOS_CALL_MQUNLINK args).running = some r := hr
  have harg : (k.setCall r DSOS_CALL_MQUNLINK args).arg r 0 = args.getD 0 0 :=
    arg_setCall (by decide)
  have husers' : ((k.setCall r DSOS_CALL_MQUNLINK args).head (.users .mq mq)).size = 0 := husers
  rw [Kernel.act, syscall_stays args rfl (by decide) (by decide) hr
    (ensures_mono (mqUnlink_running _) fun _ h => h.trans hr)]
  change toInt _ = ((k.setCall r DSOS_CALL_MQUNLINK args).messageQueue mq).id at hid
  generalize k.setCall r DSOS_CALL_MQUNLINK args = k₁ at hc hr' harg husers' hid ⊢
  have ht := hc.order.table
  have hfound := hc.anchored.found
  have hnum : (k₁.messageQueue mq).numMessages = 0 := by
    rw [hc.counted, hpend]
    rfl
  have hempty : ∀ x ∈ L (.queues mq), Holds k₁.lists (.messages x.idx) [] := by
    intro x hx
    have hitems := hc.order.queues x.idx (queue_node ht hx ▸ hx)
    have hnil : L (.messages x.idx) = [] := by
      simpa [classItems, hpend] using hitems
    have hholds := holds (l := .messages x.idx) ht.wired message_part
    rwa [hnil] at hholds
  have hhead : ∀ l, l ≠ .messageQueuesList →
      (k₁.detach .messageQueuesList ⟨.messageQueue, mq⟩).head l = k₁.head l :=
    fun l hne => detach_head _ _ hne
  have hqueues : Holds (k₁.detach .messageQueuesList ⟨.messageQueue, mq⟩).lists (.queues mq)
      (L (.queues mq)) := by
    refine holds_frame ht.queues (hhead _ (by simp)) fun x hx => ?_
    obtain ⟨hprev, hnext⟩ := hc.anchored.aside x hx
    refine detach_item_far _ _ (fun he => ?_) hprev hnext
    have hkind := ht.kind x hx
    rw [he] at hkind
    cases hkind
  obtain ⟨k₂, hrun, hsame⟩ := removeQueues_holds hqueues
    ((classes_nodup ht).of_map _) ht.kind fun x hx =>
      holds_frame (hempty x hx) (hhead _ (by simp)) (fun _ hz => absurd hz List.not_mem_nil)
  rw [queues_length ht] at hrun
  have hnil : L (.users .mq mq) = [] :=
    (size_zero_iff (l := .users .mq mq) ht.wired (.inr (.inr rfl))).mp husers'
  have hlast : (k₂.head (.users .mq mq)).first = none ∧ (k₂.head (.users .mq mq)).last = none := by
    rw [hsame _ (by simp), hhead _ (by simp),
      first_eq (l := .users .mq mq) ht.wired (.inr (.inr rfl)),
      last_eq (l := .users .mq mq) ht.wired (.inr (.inr rfl)), hnil]
    exact ⟨rfl, rfl⟩
  have hfree : k₂.messageQueueFree mq = .ok (k₂.releaseBlock .messageQueue mq) := by
    unfold messageQueueFree freeUnused
    rw [if_pos hlast]
  refine ⟨(k₂.releaseBlock .messageQueue mq).setRetvalue r 0, ?_, setRetvalue_self _ r 0⟩
  have hpri : (k₁.detach .messageQueuesList ⟨.messageQueue, mq⟩).messageQueue =
      k₁.messageQueue := rfl
  unfold internalMqUnlink
  simp only [hr', deref, bind, Except.bind, harg, hid, hfound, castTo, if_true, hnum, husers', ne_eq,
    not_true_eq_false, if_false, hpri, hrun, hfree]
  rfl

/-! ## Runs -/

/-- A message queue without messages, as its creation leaves it. -/
structure StartsEmpty (mq : Nat) (k : Kernel) (L : HeadAddr → List Node) : Prop where
  table : ClassTable k L mq
  anchored : Anchored mq k L
  empty : ∀ q, ⟨.queue, q⟩ ∈ L (.queues mq) → L (.messages q) = []
  counted : (k.messageQueue mq).numMessages = 0

/-- Every accepted message that has not been delivered can be read. -/
structure NothingStranded (mq : Nat) (k : Kernel) (h : List (Event Int Nat)) : Prop where
  delivers : ∀ r args, k.running = some r → ReadsFrom mq k r args → (ledger h).pending ≠ [] →
    ∃ k' t, k.act (.syscall DSOS_CALL_MQREAD args) = .ok k' ∧ t ∈ (ledger h).pending ∧
      observed mq k (.syscall DSOS_CALL_MQREAD args) k' = [.delivered t.cls t.item] ∧
      (k'.messageQueue mq).numMessages = (k.messageQueue mq).numMessages - 1 ∧
      k'.intAt (args.getD 3 0) = t.cls
  drains : ∀ reads : List (Nat × List Int), (∀ x ∈ reads, ReadsFrom mq k x.1 x.2) →
    reads.length = (ledger h).pending.length →
    ∃ k' h', Run (withHistory act (observed mq)) (fun s a => DrainCall mq s.1 a) (k, h)
      (reads.flatMap fun x => [.dispatch x.1, .syscall DSOS_CALL_MQREAD x.2]) (k', h') ∧
      (ledger h').pending = [] ∧ (k'.messageQueue mq).numMessages = 0
  removes : (ledger h).pending = [] → (k.head (.users .mq mq)).size = 0 →
    ∀ r args, k.running = some r → toInt (args.getD 0 0) = (k.messageQueue mq).id →
    ∃ k', k.act (.syscall DSOS_CALL_MQUNLINK args) = .ok k' ∧ (k'.pcb r).syscallRetvalue = 0

theorem nothingStranded_of_drainable (hd : Drainable mq k h L) : NothingStranded mq k h := by
  refine ⟨fun r args hr hread hpend => ?_, fun reads hreads hlen => reads_drain hd hreads hlen,
    fun hpend husers r args hr hid => unlink_succeeds hd hpend husers hr hid⟩
  obtain ⟨k', q, m, rest, hact, hf, hdel, t, ht, htc, htm⟩ := read_delivers hd hr hread hpend
  have htable := (drainable_setCall r DSOS_CALL_MQREAD args
    hd).order.table
  obtain ⟨h0, hle⟩ := class_of_queue hd.order.table hf.queue
  have hmax := hd.order.table.priority.2
  refine ⟨k', t, hact, ht, ?_, ?_, ?_⟩
  · rw [delivered_observed htable hf hdel, htc, htm]
  · rw [hdel.messageQueue, Function.update_self]
    rfl
  · rw [htc]
    refine delivered_intAt hdel h0 ?_
    unfold MAX_NUM_QUEUES at hmax
    omega

/-- A listed message queue without messages starts empty. -/
theorem startsEmpty_of_tables (ht : Tables k L) (hl : Listed L mq)
    (hnum : (k.messageQueue mq).numMessages = 0) : StartsEmpty mq k L := by
  have hzero : linkedMessages L mq = 0 := by
    have := ht.counted mq hl
    omega
  refine ⟨classTable ht hl, ⟨ht.bound, ?_, fun x hx => ?_⟩, (linkedMessages_eq_zero ht).mp hzero,
    hnum⟩
  · obtain ⟨as, bs, hsplit⟩ := List.append_of_mem hl
    have hn := nodup (l := .messageQueuesList) ht.wired trivial
    rw [byId_eq ht.wired trivial, Except.ok.injEq, List.find?_eq_some_iff_append]
    refine ⟨by simp [intAtId], as, bs, hsplit, fun x hx => ?_⟩
    -- what is before it has another id
    have hm : x ∈ L .messageQueuesList := by
      rw [hsplit]
      exact List.mem_append_left _ hx
    have hnode := node_eq (l := .messageQueuesList) ht.wired trivial hm
    rw [hnode] at hm hx ⊢
    have hne : (k.messageQueue x.idx).id ≠ (k.messageQueue mq).id := by
      intro he
      rw [ht.id_inj x.idx mq hm hl he] at hx
      rw [hsplit, List.nodup_append] at hn
      exact hn.2.2 _ hx _ List.mem_cons_self rfl
    have hint : k.intAtId ⟨HeadAddr.messageQueuesList.nodeKind, x.idx⟩ =
        .ok (k.messageQueue x.idx).id := rfl
    simpa [hint] using hne
  · obtain ⟨as, bs, hsplit⟩ := List.append_of_mem hl
    have hholds := holds (l := .messageQueuesList) ht.wired trivial
    rw [hsplit] at hholds
    have hno : x ∉ L .messageQueuesList := fun hm => by
      cases apart (l := .queues mq) (j := .messageQueuesList) ht.wired trivial trivial hx hm
    rw [hsplit, List.mem_append, List.mem_cons, not_or, not_or] at hno
    rw [cell_of_split hholds]
    exact ⟨fun he => hno.1 (List.mem_of_getLast? he), fun he => hno.2.2 (List.mem_of_head? he)⟩

theorem drainable_start (hs : StartsEmpty mq k L) : Drainable mq k [] L :=
  ⟨inOrder_start hs.table hs.empty, hs.anchored, (fun _ ht => absurd ht List.not_mem_nil), hs.counted⟩

/-- In every run on a message queue that starts empty, as long as no accepted write asks
for a priority outside `0..mq.priority-1` and no read meets a message too long for its
buffer, nothing is stranded in any state. -/
theorem nothing_stranded {k₀ : Kernel} {as : List Action} (hs : StartsEmpty mq k₀ L)
    (hrun : Run (withHistory act (observed mq)) (fun s a => DrainCall mq s.1 a) (k₀, []) as
      (k, h)) : NothingStranded mq k h := by
  have hinv : ∃ L, Drainable mq k h L := by
    refine run_invariant (I := fun s => ∃ L, Drainable mq s.1 s.2 L) ?_
      ⟨L, drainable_start hs⟩ hrun
    rintro s a t ⟨L, hd⟩ ha hstep
    obtain ⟨hact, hhist⟩ := withHistory_ok.mp hstep
    rw [hhist]
    exact drainable_step hd ha hact
  obtain ⟨L, hd⟩ := hinv
  exact nothingStranded_of_drainable hd

theorem nothing_stranded_one_left :
    ∃ k₀ L k h, StartsEmpty 0 k₀ L ∧
      Run (withHistory act (observed 0)) (fun s a => DrainCall 0 s.1 a) (k₀, [])
        [.syscall DSOS_CALL_MQWRITE [0, 1000, 3, 1], .syscall DSOS_CALL_MQWRITE [0, 1100, 5, 0],
          .syscall DSOS_CALL_MQREAD [0, 2000, 10, 3000]] (k, h) ∧
      h = [.accepted 1 0, .accepted 0 1, .delivered 0 1] ∧ NothingStranded 0 k h := by
  obtain ⟨k₀, L, ht, hl, hnum, htest⟩ := exists_created [1, 1, 2] (fun k =>
      (exec (withHistory act (observed 0)) (fun s => onCalls (fun k num args =>
          (num = DSOS_CALL_MQWRITE ∨ num = DSOS_CALL_MQREAD) ∧ callsOn 0 k num args = true ∧
            readFits k (.syscall num args) = true ∧
            (num = DSOS_CALL_MQWRITE → 0 ≤ toInt (args.getD 3 0) ∧
              toInt (args.getD 3 0) < (k.messageQueue 0).priority)) s.1) (k, [])
        [.syscall DSOS_CALL_MQWRITE [0, 1000, 3, 1], .syscall DSOS_CALL_MQWRITE [0, 1100, 5, 0],
          .syscall DSOS_CALL_MQREAD [0, 2000, 10, 3000]]).any fun s =>
          s.2 = [.accepted 1 0, .accepted 0 1, .delivered 0 1])
    (by decide +kernel)
  have hstart := startsEmpty_of_tables ht hl hnum
  obtain ⟨⟨k, h⟩, hrun, heq⟩ := exists_run (fun s a => DrainCall 0 s.1 a) (fun s a hc => by
      obtain ⟨num, args, rfl, hc⟩ := onCalls_eq_true hc
      obtain ⟨hn, hon, hfits, hprio⟩ := of_decide_eq_true hc
      exact .inl ⟨⟨hn, hon⟩, fun ⟨hw, _, _, _, hno⟩ => hno (hprio hw), hfits⟩) htest
  exact ⟨k₀, L, k, h, hstart, hrun, of_decide_eq_true heq, nothing_stranded hstart hrun⟩

/-- The descriptor 0 of process 0 is on the message queue 0. -/
def firstIsOpen (k : Kernel) : Bool :=
  match k.boundTo .mq 0 0 with
  | .ok (some (_, o)) => o = 0
  | _ => false

/-- A read with a buffer for every message completes and delivers nothing. -/
def readsNothing (k : Kernel) : Bool :=
  match k.act (.syscall DSOS_CALL_MQREAD [0, 2000, 32, 3000]) with
  | .ok k' => (observed 0 k (.syscall DSOS_CALL_MQREAD [0, 2000, 32, 3000]) k').isEmpty
  | .error _ => false

theorem exists_of_firstIsOpen (h : firstIsOpen k = true) :
    ∃ d, k.boundTo .mq 0 0 = .ok (some (d, 0)) := by
  unfold firstIsOpen at h
  split at h
  · next d o heq =>
    rw [of_decide_eq_true h] at heq
    exact ⟨d, heq⟩
  · cases h

/-- A message with priority 5 on a message queue with the bound 1 goes to class 1, and
no read ever takes it. -/
theorem normalised_write_is_stranded :
    ∃ k₀ L k h, StartsEmpty 0 k₀ L ∧
      Run (withHistory act (observed 0)) (fun s a => QueueCall 0 s.1 a ∧ longBuffer a = true)
        (k₀, []) [.syscall DSOS_CALL_MQWRITE [0, 1000, 3, 5]] (k, h) ∧
      ¬ NothingStranded 0 k h := by
  obtain ⟨k₀, L, ht, hl, hnum, htest⟩ := exists_created [1, 1, 1] (fun k =>
      (exec (withHistory act (observed 0)) (fun s => onCalls (fun k num args =>
          num = DSOS_CALL_MQWRITE ∧ callsOn 0 k num args = true) s.1) (k, [])
        [.syscall DSOS_CALL_MQWRITE [0, 1000, 3, 5]]).any
          fun (s : Kernel × List (Event Int Nat)) =>
          decide (s.2 = [.accepted 1 0] ∧ s.1.running = some 0 ∧ firstIsOpen s.1 = true ∧
            readsNothing s.1 = true))
    (by decide +kernel)
  obtain ⟨⟨k, h⟩, hrun, heq⟩ := exists_run (fun s a => QueueCall 0 s.1 a ∧ longBuffer a = true)
    (fun s a hc => by
      obtain ⟨num, args, rfl, hc⟩ := onCalls_eq_true hc
      obtain ⟨rfl, hon⟩ := of_decide_eq_true hc
      exact ⟨⟨.inl rfl, hon⟩, rfl⟩) htest
  obtain ⟨rfl, hr, hopen, hread⟩ := of_decide_eq_true heq
  refine ⟨k₀, L, k, _, startsEmpty_of_tables ht hl hnum, hrun, fun hn => ?_⟩
  obtain ⟨k', t, hact, _, hobs, _⟩ := hn.delivers 0 [0, 2000, 32, 3000] hr
    ⟨by decide, exists_of_firstIsOpen hopen, by decide, by decide, by decide⟩ (by decide)
  unfold readsNothing at hread
  rw [hact] at hread
  simp only [hobs] at hread
  cases hread

end DisastrOS.MessageQueue.Draining
