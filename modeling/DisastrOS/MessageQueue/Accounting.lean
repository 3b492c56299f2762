import Mathlib.Algebra.BigOperators.Ring.Finset
import DisastrOS.MessageQueue.ReadLoop
import DisastrOS.MessageQueue.Representation

/-!
# Message accounting

The count kept in the message queue, the sizes of the message lists and the number of
message blocks in use move together, as long as no read meets a message that is too
long for its buffer. `mqRead` detaches such a message before it compares the lengths.
-/
namespace DisastrOS.MessageQueue.Accounting

open DisastrOS.Machine
open DisastrOS.Machine.Kernel
open DisastrOS.Machine.Runs
open DisastrOS.Lists.Boot
open DisastrOS.Lists.Sequences
open DisastrOS.Lists.Wiring
open DisastrOS.Pool.Blocks
open DisastrOS.Library.GuardedRun
open DisastrOS.Library.LinkedSequence
open DisastrOS.MessageQueue.Calls
open DisastrOS.MessageQueue.Classes
open DisastrOS.MessageQueue.TableInvariant
open DisastrOS.MessageQueue.Lifecycle
open DisastrOS.MessageQueue.Representation
open DisastrOS.MessageQueue.ReadLoop

/-- The three counts of the messages of `mqs` agree. -/
structure CountsAgree (k : Kernel) (mqs : List Nat) (queuesOf messagesOf : Nat → List Nat) :
    Prop where
  list : Holds k.lists .messageQueuesList (mqs.map (Node.mk .messageQueue))
  queues : ∀ mq ∈ mqs, Holds k.lists (.queues mq) ((queuesOf mq).map (Node.mk .queue))
  messages : ∀ mq ∈ mqs, ∀ q ∈ queuesOf mq,
    Holds k.lists (.messages q) ((messagesOf q).map (Node.mk .message))
  counted : ∀ mq ∈ mqs, (k.messageQueue mq).numMessages =
    ((queuesOf mq).map fun q => (k.head (.messages q)).size).sum
  blocks : (k.pool .message).sizeMax - (k.pool .message).size =
    (mqs.map fun mq => ((queuesOf mq).map fun q => ((messagesOf q).length : Int)).sum).sum

def MessagesAccounted (k : Kernel) : Prop :=
  ∃ mqs queuesOf messagesOf, CountsAgree k mqs queuesOf messagesOf

/-- The five message queue calls where every `mqOpen` names the message queue `id`. -/
def OneQueueCall (id : Int) (a : Action) : Prop :=
  MqCall a ∧ ∀ args, a = .syscall DSOS_CALL_MQOPEN args → toInt (args.getD 0 0) = id

/-- The number of messages linked in the queues of all listed message queues. -/
def allLinked (L : HeadAddr → List Node) : Nat :=
  ((L .messageQueuesList).map fun x => linkedMessages L x.idx).sum

/-- The tables with exact counts, for the message queue `id` alone. -/
structure Accounted (id : Int) (k : Kernel) (L : HeadAddr → List Node) : Prop where
  tables : Tables k L
  sameId : ∀ mq, Listed L mq → (k.messageQueue mq).id = id
  exact : ∀ mq, Listed L mq → (k.messageQueue mq).numMessages = linkedMessages L mq
  blocks : numItems .message - (k.pool .message).size = allLinked L

variable {k k' : Kernel} {L L' : HeadAddr → List Node} {mq q : Nat} {id : Int}

theorem allLinked_update (h : Tables k L) (hl : Listed L mq)
    (hq : ⟨.queue, q⟩ ∈ L (.queues mq)) (xs : List Node) :
    allLinked (Function.update L (.messages q) xs) + (L (.messages q)).length =
      allLinked L + xs.length := by
  have hlist : Function.update L (.messages q) xs .messageQueuesList = L .messageQueuesList :=
    Function.update_of_ne (by simp) _ _
  have hsum := sum_map_update (x := ⟨.messageQueue, mq⟩)
    (f := fun x => linkedMessages L x.idx)
    (g := fun x => linkedMessages (Function.update L (.messages q) xs) x.idx)
    (nodup (l := .messageQueuesList) h.wired trivial) hl fun y hy hne => by
      refine linkedMessages_update_other (fun hm => hne ?_) h xs
      rw [node_eq (l := .messageQueuesList) h.wired trivial hy, queue_owner h hq hm]
      rfl
  have hmq := linkedMessages_update h hq xs
  unfold allLinked
  rw [hlist]
  simp only at hsum
  omega

/-- A message list and both counts move together. -/
theorem accounted_update {xs : List Node} {n : Int} (h : Accounted id k L) (hl : Listed L mq)
    (hq : ⟨.queue, q⟩ ∈ L (.queues mq))
    (ht : Tables k' (Function.update L (.messages q) xs))
    (hmq : k'.messageQueue = Function.update k.messageQueue mq
      { k.messageQueue mq with numMessages := n })
    (hn : n = (k.messageQueue mq).numMessages + xs.length - (L (.messages q)).length)
    (hpool : (k'.pool .message).size =
      (k.pool .message).size + (L (.messages q)).length - xs.length) :
    Accounted id k' (Function.update L (.messages q) xs) := by
  have hlisted : ∀ i, Listed (Function.update L (.messages q) xs) i → Listed L i := by
    intro i hi
    rwa [Listed, Function.update_of_ne (by simp)] at hi
  refine ⟨ht, fun i hi => ?_, fun i hi => ?_, ?_⟩
  · rw [hmq, Function.update_apply]
    split
    · next he =>
      rw [← h.sameId mq hl]
    · exact h.sameId i (hlisted i hi)
  · by_cases he : i = mq
    · subst he
      have hcount := linkedMessages_update h.tables hq xs
      have hexact := h.exact i hl
      rw [hmq, Function.update_self]
      simp only
      omega
    · have hout : ⟨.queue, q⟩ ∉ L (.queues i) := fun hm => he (queue_owner h.tables hq hm)
      rw [hmq, Function.update_of_ne he, linkedMessages_update_other hout h.tables]
      exact h.exact i (hlisted i hi)
  · have hall := allLinked_update h.tables hl hq xs
    have hblocks := h.blocks
    omega

theorem accounted_setRetvalue {r : Nat} {v : Int} (h : Accounted id k L) :
    Accounted id (k.setRetvalue r v) L :=
  ⟨tables_setRetvalue h.tables, h.sameId, h.exact, h.blocks⟩

theorem accounted_setCall (r : Nat) (num : Int) (args : List Int) (h : Accounted id k L) :
    Accounted id (k.setCall r num args) L :=
  ⟨tables_setCall h.tables, h.sameId, h.exact, h.blocks⟩

/-- The counts are kept by every change outside the message lists. -/
theorem accounted_sameQueues (h : Accounted id k L) (ht : Tables k' L') (hL : SameQueues L L')
    (hmq : ∀ i, Listed L i → k'.messageQueue i = k.messageQueue i)
    (hpool : k'.pool .message = k.pool .message) : Accounted id k' L' := by
  have hlisted : ∀ i, Listed L' i → Listed L i := by
    intro i hi
    rwa [Listed, hL _ (by simp) (by simp)] at hi
  have hlinked : ∀ i, linkedMessages L' i = linkedMessages L i := by
    intro i
    unfold linkedMessages
    rw [hL _ (by simp) (by simp)]
    congr 1
    exact List.map_congr_left fun x _ => by rw [hL _ (by simp) (by simp)]
  refine ⟨ht, fun i hi => ?_, fun i hi => ?_, ?_⟩
  · rw [hmq i (hlisted i hi)]
    exact h.sameId i (hlisted i hi)
  · rw [hmq i (hlisted i hi), hlinked]
    exact h.exact i (hlisted i hi)
  · unfold allLinked
    rw [hL _ (by simp) (by simp), hpool]
    simp only [hlinked]
    exact h.blocks

/-- The counts after the removal of a message queue that has no messages. -/
theorem accounted_unlinked (h : Accounted id k L) (hl : Listed L mq)
    (hnum : (k.messageQueue mq).numMessages = 0)
    (ht : Tables k' (Function.update (Function.update L .messageQueuesList
      ((L .messageQueuesList).erase ⟨.messageQueue, mq⟩)) (.queues mq) []))
    (hmq : k'.messageQueue = k.messageQueue) (hpool : k'.pool .message = k.pool .message) :
    Accounted id k' (Function.update (Function.update L .messageQueuesList
      ((L .messageQueuesList).erase ⟨.messageQueue, mq⟩)) (.queues mq) []) := by
  have hn := nodup (l := .messageQueuesList) h.tables.wired trivial
  generalize hL : Function.update (Function.update L .messageQueuesList
    ((L .messageQueuesList).erase ⟨.messageQueue, mq⟩)) (.queues mq) [] = L' at ht ⊢
  have hlist : L' .messageQueuesList = (L .messageQueuesList).erase ⟨.messageQueue, mq⟩ := by
    rw [← hL, Function.update_of_ne (by simp), Function.update_self]
  have hother : ∀ l, l ≠ .messageQueuesList → l ≠ .queues mq → L' l = L l := by
    intro l hne hne'
    rw [← hL, Function.update_of_ne hne', Function.update_of_ne hne]
  have hlisted : ∀ i, Listed L' i → Listed L i ∧ i ≠ mq := by
    intro i hi
    rw [Listed, hlist, hn.mem_erase_iff] at hi
    exact ⟨hi.2, fun he => hi.1 (by rw [he])⟩
  have hlinked : ∀ i, i ≠ mq → linkedMessages L' i = linkedMessages L i := by
    intro i hne
    unfold linkedMessages
    rw [hother _ (by simp) (by simpa using hne)]
    congr 1
    exact List.map_congr_left fun x _ => by rw [hother _ (by simp) (by simp)]
  refine ⟨ht, fun i hi => ?_, fun i hi => ?_, ?_⟩
  · rw [hmq]
    exact h.sameId i (hlisted i hi).1
  · rw [hmq, hlinked i (hlisted i hi).2]
    exact h.exact i (hlisted i hi).1
  · have hzero := h.exact mq hl
    have herase := List.sum_map_erase (fun x : Node => linkedMessages L x.idx) hl
    have hrest : allLinked L' = (((L .messageQueuesList).erase ⟨.messageQueue, mq⟩).map
        fun x => linkedMessages L x.idx).sum := by
      unfold allLinked
      rw [hlist]
      congr 1
      refine List.map_congr_left fun x hx => hlinked x.idx fun he => ?_
      obtain ⟨hne, hx⟩ := hn.mem_erase_iff.mp hx
      exact hne (by rw [node_eq (l := .messageQueuesList) h.tables.wired trivial hx, he]; rfl)
    have hblocks := h.blocks
    rw [hpool, hrest]
    unfold allLinked at hblocks
    simp only at herase
    omega

/-- One call keeps the counts, if no read meets a message too long for its buffer. -/
theorem accounted_step {a : Action} (h : Accounted id k L) (ha : OneQueueCall id a)
    (hfits : readFits k a = true) (hstep : k.act a = .ok k') : ∃ L', Accounted id k' L' := by
  cases a with
  | dispatch p =>
    cases hstep
    exact ⟨L, tables_dispatch h.tables, h.sameId, h.exact, h.blocks⟩
  | timer => cases ha.1
  | restart => cases ha.1
  | store addr v => cases ha.1
  | syscall num args =>
    rcases ha.1 with rfl | rfl | rfl | rfl | rfl
    · obtain ⟨r, hr, hcall⟩ := syscall_ok rfl (by decide) (by decide) hstep
      have hc := accounted_setCall r DSOS_CALL_MQOPEN args h
      have hr' : (k.setCall r DSOS_CALL_MQOPEN args).running = some r := hr
      have hid : toInt ((k.setCall r DSOS_CALL_MQOPEN args).arg r 0) = id := by
        rw [arg_setCall (by decide)]
        exact ha.2 args rfl
      have hgood : ∀ r', (k.setCall r DSOS_CALL_MQOPEN args).running = some r' →
          Creates (k.setCall r DSOS_CALL_MQOPEN args) r' →
          (k.setCall r DSOS_CALL_MQOPEN args |>.head .messageQueuesList).first = none := by
        intro r' hrun hcreates
        have he : r' = r := Option.some.inj (hrun.symm.trans hr')
        subst he
        have hsearch := hcreates.2.2.1
        rw [hid] at hsearch
        rw [first_eq (l := .messageQueuesList) hc.tables.wired trivial,
          List.head?_eq_none_iff]
        refine List.eq_nil_iff_forall_not_mem.mpr fun x hx => ?_
        rw [byId_eq hc.tables.wired trivial, Except.ok.injEq, List.find?_eq_none] at hsearch
        refine hsearch x hx (decide_eq_true ?_)
        have hnode := node_eq (l := .messageQueuesList) hc.tables.wired trivial hx
        rw [hnode] at hx ⊢
        exact congrArg _ (hc.sameId x.idx hx)
      rcases mqOpen_tables hc.tables hcall fun r' hrun hcr _ _ => hgood r' hrun hcr with
        ⟨L', ht, hL, hmq, hpool⟩ | ⟨hidle, L', ht, hmsg, hnew, hpool⟩
      · exact ⟨L', accounted_sameQueues hc ht hL hmq hpool⟩
      · have hlinked : ∀ i, linkedMessages L' i = 0 := fun i =>
          (linkedMessages_eq_zero ht).mpr fun q _ => hmsg q
        refine ⟨L', ht, fun i hi => ?_, fun i hi => ?_, ?_⟩
        · rw [hnew r hr' i hi]
          exact hid
        · rw [hnew r hr' i hi, hlinked]
          rfl
        · have hblocks := hc.blocks
          have hzero : allLinked L = 0 := by
            unfold allLinked
            rw [hidle.list]
            rfl
          have hzero' : allLinked L' = 0 := by
            unfold allLinked
            refine List.sum_eq_zero fun n hn => ?_
            obtain ⟨x, _, rfl⟩ := List.mem_map.mp hn
            exact hlinked x.idx
          rw [hpool, hzero']
          omega
    · obtain ⟨r, hr, hcall⟩ := syscall_ok rfl (by decide) (by decide) hstep
      have hc := accounted_setCall r DSOS_CALL_MQCLOSE args h
      obtain ⟨L', ht, hL, hmq, hpool⟩ := mqClose_tables hc.tables hcall
      exact ⟨L', accounted_sameQueues hc ht hL (fun i _ => congrFun hmq i) hpool⟩
    · have htable : ∀ r d mq, k.running = some r → (k.setCall r DSOS_CALL_MQREAD args).boundTo
          .mq r (toInt (args.getD 0 0)) = .ok (some (d, mq)) → ClassTable k L mq :=
        fun _ _ _ _ hb => classTable h.tables (boundTo_listed (tables_setCall h.tables) hb)
      obtain ⟨r, k₁, _, rfl, ⟨v, rfl⟩ | ⟨d, mq, q, m, rest, hb, hf, _, _, hd⟩⟩ :=
        mqRead_fits htable hfits hstep
      · exact ⟨L, accounted_setRetvalue (accounted_setCall _ _ _ h)⟩
      · have hl := boundTo_listed (tables_setCall h.tables) hb
        have hc := accounted_setCall r DSOS_CALL_MQREAD args h
        have hm : ⟨.message, m⟩ ∈ L (.messages q) := by
          rw [hf.first]
          exact List.mem_cons_self
        have hrel := releaseBlock_returned .message m hc.tables.wired.pooled
          (allocated_of_mem (l := .messages q) hc.tables.wired trivial hm)
        have hf' : FirstMessage (k.setCall r DSOS_CALL_MQREAD args) L mq 0 q m rest :=
          ⟨hf.queue, hf.first, hf.low, hf.smallest⟩
        refine ⟨_, accounted_update hc hl hf.queue (tables_delivered hc.tables hl hf' hd)
          hd.messageQueue ?_ ?_⟩
        · rw [hf.first, List.length_cons]
          change (k.messageQueue mq).numMessages - 1 = (k.messageQueue mq).numMessages + _ - _
          push_cast
          omega
        · rw [hd.pool, hf.first, List.length_cons]
          have hsize := hrel.size
          change ((k.setCall r DSOS_CALL_MQREAD args).releaseBlock .message m |>.pool .message).size
            = _
          rw [hsize]
          push_cast
          omega
    · obtain ⟨r, hr, hcall⟩ := syscall_ok rfl (by decide) (by decide) hstep
      have hc := accounted_setCall r DSOS_CALL_MQWRITE args h
      obtain ⟨r', _, ⟨v, rfl⟩ | ⟨mq, q, m, hw⟩⟩ := mqWrite_cases hcall
      · exact ⟨L, accounted_setRetvalue hc⟩
      · obtain ⟨hl, hq, _, _, hsize, _, ht⟩ := wrote_tables hc.tables hw
        refine ⟨_, accounted_update hc hl hq ht (wrote_messageQueue hc.tables.wired.pooled hw) ?_ ?_⟩
        · rw [List.length_append, List.length_singleton]
          push_cast
          omega
        · rw [hsize, List.length_append, List.length_singleton]
          push_cast
          omega
    · obtain ⟨r, hr, hcall⟩ := syscall_ok rfl (by decide) (by decide) hstep
      have hc := accounted_setCall r DSOS_CALL_MQUNLINK args h
      rcases mqUnlink_tables hc.tables hcall with ⟨r', v, rfl⟩ | ⟨mq, hl, _, hnum, ht, hmq, hpool⟩
      · exact ⟨L, accounted_setRetvalue hc⟩
      · exact ⟨_, accounted_unlinked hc hl hnum ht hmq hpool⟩

theorem messagesAccounted_of_accounted (h : Accounted id k L) : MessagesAccounted k := by
  have ht := h.tables
  have hmem : ∀ mq, mq ∈ (L .messageQueuesList).map Node.idx → Listed L mq := fun mq hm =>
    mem_idx (l := .messageQueuesList) ht.wired trivial hm
  refine ⟨(L .messageQueuesList).map Node.idx, fun mq => (L (.queues mq)).map Node.idx,
    fun q => (L (.messages q)).map Node.idx,
    holds_idx (l := .messageQueuesList) ht.wired trivial,
    fun mq _ => holds_idx (l := .queues mq) ht.wired trivial,
    fun _ _ q _ => holds_idx (l := .messages q) ht.wired trivial, fun mq hm => ?_, ?_⟩
  · rw [h.exact mq (hmem mq hm), linkedMessages, Nat.cast_list_sum, List.map_map, List.map_map]
    congr 1
    exact List.map_congr_left fun x _ => (size_eq (l := .messages x.idx) ht.wired trivial).symm
  · have hblocks := h.blocks
    rw [(ht.wired.pooled .message).sizeMax, hblocks, allLinked, Nat.cast_list_sum, List.map_map,
      List.map_map]
    congr 1
    refine List.map_congr_left fun x _ => ?_
    simp [linkedMessages, Nat.cast_list_sum, List.map_map, Function.comp_def]

/-- In every run on one message queue in which no read meets a message that is too long
for its buffer, the three counts agree in every state. -/
theorem message_accounting {mem : Int → UInt8} {k₀ : Kernel} {as : List Action}
    (hstart : Started mem k₀)
    (hrun : Run act (fun k a => OneQueueCall id a ∧ readFits k a = true) k₀ as k) :
    MessagesAccounted k := by
  have hboot := start_booted hstart
  have hinit : Accounted id k₀ fun _ => [] := by
    refine ⟨tables_start hstart, (fun _ hi => nomatch hi), (fun _ hi => nomatch hi), ?_⟩
    rw [hboot.size .message (by decide)]
    simp [allLinked]
  have hinv : ∃ L, Accounted id k L := by
    refine run_invariant (I := fun k => ∃ L, Accounted id k L) ?_ ⟨_, hinit⟩ hrun
    rintro s a t ⟨L, hs⟩ ⟨ha, hfits⟩ hstep
    exact accounted_step hs ha hfits hstep
  obtain ⟨L, h⟩ := hinv
  exact messagesAccounted_of_accounted h

theorem message_accounting_two_writes_one_read :
    ∃ k₀ k, Started (fun _ => 0) k₀ ∧
      Run act (fun k a => OneQueueCall 1 a ∧ readFits k a = true) k₀
        [.syscall DSOS_CALL_MQOPEN [1, 1, 1], .syscall DSOS_CALL_MQWRITE [0, 1000, 3, 0],
          .syscall DSOS_CALL_MQWRITE [0, 1100, 5, 7], .syscall DSOS_CALL_MQREAD [0, 2000, 4, 3000]] k ∧
      (k.messageQueue 0).numMessages = 1 ∧ MessagesAccounted k := by
  obtain ⟨k₀, k, hstart, hrun, htest⟩ := exists_run_from_start
    (fun k a => OneQueueCall 1 a ∧ readFits k a = true)
    (onCalls fun k num args => MqCall (.syscall num args) ∧
      (num = DSOS_CALL_MQOPEN → toInt (args.getD 0 0) = 1) ∧
      readFits k (.syscall num args) = true)
    [.syscall DSOS_CALL_MQOPEN [1, 1, 1], .syscall DSOS_CALL_MQWRITE [0, 1000, 3, 0],
      .syscall DSOS_CALL_MQWRITE [0, 1100, 5, 7], .syscall DSOS_CALL_MQREAD [0, 2000, 4, 3000]]
    (fun k => (k.messageQueue 0).numMessages = 1)
    (fun k a h => by
      obtain ⟨num, args, rfl, h⟩ := onCalls_eq_true h
      obtain ⟨hcall, hid, hfits⟩ := of_decide_eq_true h
      exact ⟨⟨hcall, fun args' he => by cases he; exact hid rfl⟩, hfits⟩)
    (by decide +kernel)
  exact ⟨k₀, k, hstart, hrun, of_decide_eq_true htest, message_accounting hstart hrun⟩

/-- A read with a buffer that is too small drops the message but keeps counting it. -/
theorem short_read_loses_message :
    ∃ k₀ k, Started (fun _ => 0) k₀ ∧
      Run act (fun _ a => OneQueueCall 1 a) k₀
        [.syscall DSOS_CALL_MQOPEN [1, 1, 1], .syscall DSOS_CALL_MQWRITE [0, 1000, 3, 0],
          .syscall DSOS_CALL_MQREAD [0, 2000, 1, 3000]] k ∧
      ¬ MessagesAccounted k := by
  obtain ⟨k₀, k, hstart, hrun, htest⟩ := exists_run_from_start (fun _ a => OneQueueCall 1 a)
    (onCalls fun _ num args => MqCall (.syscall num args) ∧
      (num = DSOS_CALL_MQOPEN → toInt (args.getD 0 0) = 1))
    [.syscall DSOS_CALL_MQOPEN [1, 1, 1], .syscall DSOS_CALL_MQWRITE [0, 1000, 3, 0],
      .syscall DSOS_CALL_MQREAD [0, 2000, 1, 3000]]
    (fun k => (k.head .messageQueuesList).first = some ⟨.messageQueue, 0⟩ ∧
      follow k.lists.item 0 (k.head (.queues 0)).first = some ⟨.queue, 1⟩ ∧
      follow k.lists.item 1 (k.head (.queues 0)).first = some ⟨.queue, 0⟩ ∧
      follow k.lists.item 2 (k.head (.queues 0)).first = none ∧
      (k.messageQueue 0).numMessages = 1 ∧ (k.head (.messages 0)).size = 0 ∧
      (k.head (.messages 1)).size = 0)
    (fun k a h => by
      obtain ⟨num, args, rfl, h⟩ := onCalls_eq_true h
      obtain ⟨hcall, hid⟩ := of_decide_eq_true h
      exact ⟨hcall, fun args' he => by cases he; exact hid rfl⟩)
    (by decide +kernel)
  obtain ⟨hfirst, hq₀, hq₁, hq₂, hnum, hsize₀, hsize₁⟩ := of_decide_eq_true htest
  refine ⟨k₀, k, hstart, hrun, ?_⟩
  rintro ⟨mqs, queuesOf, messagesOf, h⟩
  have hmem : 0 ∈ mqs := by
    have hhead := h.list.first
    change (k.head .messageQueuesList).first = _ at hhead
    rw [hfirst, List.head?_map] at hhead
    cases mqs with
    | nil => cases hhead
    | cons mq mqs =>
      cases hhead
      exact List.mem_cons_self
  have hqueues := represents_follow (h.queues 0 hmem)
  change ∀ n, follow k.lists.item n (k.head (.queues 0)).first = _ at hqueues
  rw [hqueues] at hq₀ hq₁ hq₂
  have hlist : queuesOf 0 = [1, 0] := by
    rcases hql : queuesOf 0 with _ | ⟨a, _ | ⟨b, _ | ⟨c, cs⟩⟩⟩ <;> simp_all
  have hcount := h.counted 0 hmem
  rw [hnum, hlist] at hcount
  simp [hsize₀, hsize₁] at hcount

end DisastrOS.MessageQueue.Accounting
