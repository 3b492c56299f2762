import DisastrOS.MessageQueue.Calls
import DisastrOS.Process.Handles

/-!
# Message queue calls on coherent kernels

What the five calls do to a coherent kernel, whatever `mqOpen` has made of the chains of
message queues and queues. No call changes the process table.
-/
namespace DisastrOS.MessageQueue.CoherentCalls

open DisastrOS.Machine
open DisastrOS.Machine.Kernel
open DisastrOS.Lists.Sequences
open DisastrOS.Lists.Wiring
open DisastrOS.Lists.RegularLists
open DisastrOS.Lists.Chains
open DisastrOS.Lists.QueueChains
open DisastrOS.Pool.Blocks
open DisastrOS.Descriptors.Bindings
open DisastrOS.Descriptors.Tables
open DisastrOS.Process.View
open DisastrOS.Process.Coherence
open DisastrOS.Process.Handles
open DisastrOS.MessageQueue.Calls
open DisastrOS.Library.Outcome

/-- The types of the objects that only the message queue calls work on. -/
def QueueKind (kind : Kind) : Prop := kind = .messageQueue ∨ kind = .queue ∨ kind = .message

instance : DecidablePred QueueKind := fun _ => inferInstanceAs (Decidable (_ ∨ _ ∨ _))

/-- Only message queues, queues and messages, user memory and return values have changed,
and no message queue with users has left the global list. -/
structure Queued (k : Kernel) (L : HeadAddr → List Node) (k' : Kernel)
    (L' : HeadAddr → List Node) : Prop where
  settled : Settled k' L'
  pcb : ∀ p, k'.pcb p = { k.pcb p with syscallRetvalue := (k'.pcb p).syscallRetvalue }
  pool : ∀ kind, ¬ QueueKind kind → k'.pool kind = k.pool kind
  lists : ∀ l, ¬ QueueKind l.nodeKind → L' l = L l
  object : ∀ mq, L (.users .mq mq) ≠ [] → ObjectListed L .mq mq → ObjectListed L' .mq mq
  rest : k' = { k with
    lists := k'.lists, pool := k'.pool, pcb := k'.pcb, messageQueue := k'.messageQueue
    queue := k'.queue, message := k'.message, mem := k'.mem }

variable {k k' k'' k₁ k₂ : Kernel} {L L' L'' L₁ : HeadAddr → List Node} {r mq q m d ptr n : Nat}
  {i : Int}

theorem not_queueKind_table (t : Table) :
    ¬ QueueKind t.descriptorKind ∧ ¬ QueueKind t.pointerKind := by
  cases t <;> exact ⟨by decide, by decide⟩

theorem Queued.trans (h : Queued k L k' L') (h' : Queued k' L' k'' L'') : Queued k L k'' L'' := by
  refine ⟨h'.settled, fun p => ?_, fun kind hk => (h'.pool kind hk).trans (h.pool kind hk),
    fun l hl => (h'.lists l hl).trans (h.lists l hl), fun mq hu ho => ?_, ?_⟩
  · rw [h'.pcb p, h.pcb p]
  · refine h'.object mq ?_ (h.object mq hu ho)
    rwa [h.lists (.users .mq mq) (not_queueKind_table .mq).2]
  · rw [h'.rest, h.rest]

theorem queued_same (hs : Settled k' L) (hpcb : k'.pcb = k.pcb)
    (hpool : ∀ kind, ¬ QueueKind kind → k'.pool kind = k.pool kind)
    (hrest : k' = { k with
      lists := k'.lists, pool := k'.pool, pcb := k'.pcb, messageQueue := k'.messageQueue
      queue := k'.queue, message := k'.message, mem := k'.mem }) : Queued k L k' L :=
  ⟨hs, fun p => by rw [hpcb], hpool, fun _ _ => rfl, fun _ _ ho => ho, hrest⟩

theorem queued_setRetvalue (hs : Settled k L) (r : Nat) (v : Int) :
    Queued k L (k.setRetvalue r v) L := by
  refine ⟨hs.congr rfl rfl, fun p => ?_, fun _ _ => rfl, fun _ _ => rfl, fun _ _ ho => ho, rfl⟩
  unfold setRetvalue modPcb
  simp only [Function.update_apply]
  split
  · next he => rw [he]
  · rfl

/-! ## The invariant is kept -/

theorem Queued.view_eq (h : Queued k L k' L') : view k' L' = view k L := by
  have hpcb : k'.pool .pcb = k.pool .pcb := h.pool _ (by decide)
  refine view_congr (fun _ => allocated_of_pool hpcb) (fun p => ?_) (by rw [h.rest])
    (fun _ _ => by rw [h.rest]) (fun _ _ _ => by rw [h.rest]) (fun _ _ _ => by rw [h.rest]; rfl)
    (by rw [h.rest]) (by rw [h.rest]) (by rw [h.rest]) fun l hl => h.lists l ?_
  · rw [h.pcb p]
    rfl
  · cases l with
    | readyList | waitingList | zombieList => exact (by decide : ¬ QueueKind .pcb)
    | timerList => exact (by decide : ¬ QueueKind .timerItem)
    | children p => exact (by decide : ¬ QueueKind .pcbPtr)
    | waitingDescriptors s => exact (by decide : ¬ QueueKind .semDescriptorPtr)
    | _ => exact hl.elim

theorem Queued.tied (h : Queued k L k' L') {t : Table} (ht : Tied t k L) : Tied t k' L' := by
  obtain ⟨hdk, hpk⟩ := not_queueKind_table t
  have husers : ∀ o, L' (.users t o) = L (.users t o) := fun o => h.lists (.users t o) hpk
  refine tied_kept ht (by rw [h.rest]) (by rw [h.rest]) (h.pool _ hdk) (h.pool _ hpk)
    (fun p x hx => ?_) (fun o ptr hl => ?_) fun o x hx => ?_
  · rwa [h.lists (.opened t p) hdk] at hx
  · unfold PointerListed
    rwa [husers, h.lists (.waitingDescriptors o) (by decide : ¬ QueueKind .semDescriptorPtr)]
  · rw [husers] at hx
    have ho := ht.housed o x hx
    cases t with
    | mq => exact h.object o (fun he => by rw [he] at hx; cases hx) ho
    | resource =>
      unfold ObjectListed at ho ⊢
      rwa [h.lists (objects .resource) (by decide)]
    | semaphore =>
      unfold ObjectListed at ho ⊢
      rwa [h.lists (objects .semaphore) (by decide)]

theorem Queued.tidy (h : Queued k L k' L') (hc : Tidy k L) : Tidy k' L' := by
  refine ⟨h.settled.strung, fun t => h.tied (hc.tied t), fun i hi => ?_, fun p => ?_⟩
  · rw [h.lists .timerList (by decide)]
    exact hc.timers i ((allocated_of_pool (h.pool .timerItem (by decide))).mp hi)
  · rw [h.pcb p]
    exact hc.unset p

theorem Queued.coherent (h : Queued k L k' L') (hc : Coherent k L) : Coherent k' L' :=
  ⟨h.tidy hc.tidy, h.settled.hung, by rw [h.view_eq]; exact hc.sound⟩

/-! ## Creating -/

/-- The block `q` is a new queue with an empty list of messages. -/
structure NewQueue (k : Kernel) (L : HeadAddr → List Node) (q : Nat) (k' : Kernel) : Prop where
  queued : Queued k L k' (Function.update L (.messages q) [])
  fresh : ¬ Allocated k .queue q
  allocated : ∀ kind i, Allocated k' kind i ↔ (kind = .queue ∧ i = q) ∨ Allocated k kind i
  unlinked : Unlinked k'.lists ⟨.queue, q⟩
  head : ∀ l, l ≠ .messages q → k'.head l = k.head l
  item : ∀ x, x ≠ ⟨.queue, q⟩ → k'.lists.item x = k.lists.item x
  queue : ∀ o, o ≠ q → k'.queue o = k.queue o
  same : k'.messageQueue = k.messageQueue ∧ k'.message = k.message

theorem queueAlloc_queued (h : Settled k L) (hq : k.queueAlloc i = some (q, k')) :
    NewQueue k L q k' := by
  unfold queueAlloc at hq
  cases hnew : k.newItem .queue with
  | none =>
    rw [hnew] at hq
    cases hq
  | some new =>
    obtain ⟨q', k₁⟩ := new
    rw [hnew] at hq
    cases hq
    have hf := newItem_fresh h.strung.pooled hnew
    have hs₁ : Settled { k₁ with queue := Function.update k₁.queue q ⟨i⟩ } L :=
      (h.newItem hf).congr rfl rfl
    have hreg : Regular (HeadAddr.messages q).nodeKind := (by decide : Regular .message)
    have hs₂ := hs₁.initRegular (l := .messages q) hreg (by rintro ⟨⟩)
    refine ⟨⟨hs₂, fun p => ?_, fun kind hk => ?_, fun l hl => ?_, fun o _ ho => ?_, ?_⟩,
      hf.fresh, hf.allocated, ?_, fun l hl => ?_, fun x hx => ?_, fun o ho => ?_, ?_, ?_⟩
    · show k₁.pcb p = { k.pcb p with syscallRetvalue := (k₁.pcb p).syscallRetvalue }
      rw [hf.eq]
    · show k₁.pool kind = k.pool kind
      exact fresh_pool hf fun he => hk (.inr (.inl he))
    · refine Function.update_of_ne (fun he => hl ?_) _ _
      rw [he]
      exact .inr (.inr rfl)
    · unfold ObjectListed
      rwa [Function.update_of_ne (by simp [objects])]
    · show ({ k₁ with queue := _, lists := _ } : Kernel) = _
      rw [hf.eq]
      rfl
    · show Unlinked k₁.lists _
      exact unlinked_fresh hf
    · refine (Function.update_of_ne (f := k₁.lists.head) hl ⟨none, none, 0⟩).trans ?_
      rw [hf.eq]
      rfl
    · show k₁.lists.item x = _
      rw [hf.eq]
      exact Function.update_of_ne hx _ _
    · show Function.update k₁.queue q ⟨i⟩ o = _
      rw [Function.update_of_ne ho, hf.eq]
    · show k₁.messageQueue = _
      rw [hf.eq]
    · show k₁.message = _
      rw [hf.eq]

/-- Queues of `mq` have been linked into the chain of `j`, between `as` and `bs`. What has been
there before is as it was but for its place in that chain. -/
structure QueuesAdded (k : Kernel) (L : HeadAddr → List Node) (mq : Nat) (j : HeadAddr)
    (as bs : List Node) (k' : Kernel) (L' : HeadAddr → List Node) : Prop where
  split : L j = as ++ bs
  queued : Queued k L k' L'
  grown : ∀ kind i, Allocated k kind i → Allocated k' kind i
  chain : ∃ qs, L' j = as ++ (qs ++ bs) ∧ ∀ x ∈ qs, x.kind = .queue ∧ ¬ Allocated k x.kind x.idx
  others : ∀ l, Irregular l → l ≠ j → L' l = L l
  head : ∀ l, Irregular l → l ≠ .queues mq → k'.head l = k.head l
  item : ∀ x, ¬ Regular x.kind → Allocated k x.kind x.idx → x ∉ L j →
    k'.lists.item x = k.lists.item x
  queue : ∀ q, Allocated k .queue q → k'.queue q = k.queue q ∧ L' (.messages q) = L (.messages q)
  same : k'.messageQueue = k.messageQueue ∧ k'.message = k.message

theorem QueuesAdded.refl {j : HeadAddr} {as bs : List Node} (h : Settled k L)
    (hsplit : L j = as ++ bs) : QueuesAdded k L mq j as bs k L :=
  ⟨hsplit, queued_same h rfl (fun _ _ => rfl) rfl, fun _ _ ha => ha, ⟨[], hsplit, nofun⟩,
    fun _ _ _ => rfl, fun _ _ _ => rfl, fun _ _ _ _ => rfl, fun _ _ => ⟨rfl, rfl⟩, rfl, rfl⟩

theorem QueuesAdded.trans {j : HeadAddr} {as bs cs : List Node}
    (h : QueuesAdded k L mq j as bs k' L') (h' : QueuesAdded k' L' mq j as cs k'' L'') :
    QueuesAdded k L mq j as bs k'' L'' := by
  obtain ⟨qs, hqs, hnew⟩ := h.chain
  obtain ⟨qs', hqs', hnew'⟩ := h'.chain
  have hcs : cs = qs ++ bs := List.append_cancel_left (h'.split.symm.trans hqs)
  refine ⟨h.split, h.queued.trans h'.queued, fun kind i ha => h'.grown kind i (h.grown kind i ha),
    ⟨qs' ++ qs, ?_, fun x hx => ?_⟩, fun l hl hne => (h'.others l hl hne).trans (h.others l hl hne),
    fun l hl hne => (h'.head l hl hne).trans (h.head l hl hne), fun x hx ha hout => ?_,
    fun q ha => ?_, h'.same.1.trans h.same.1, h'.same.2.trans h.same.2⟩
  · rw [hqs', hcs, List.append_assoc]
  · rcases List.mem_append.mp hx with hx | hx
    · exact ⟨(hnew' x hx).1, fun ha => (hnew' x hx).2 (h.grown _ _ ha)⟩
    · exact hnew x hx
  · refine (h'.item x hx (h.grown _ _ ha) fun hm => ?_).trans (h.item x hx ha hout)
    rw [hqs] at hm
    rcases List.mem_append.mp hm with hm | hm
    · exact hout (by rw [h.split]; exact List.mem_append_left _ hm)
    · rcases List.mem_append.mp hm with hm | hm
      · exact (hnew x hm).2 ha
      · exact hout (by rw [h.split]; exact List.mem_append_right _ hm)
  · obtain ⟨hq, hL⟩ := h.queue q ha
    obtain ⟨hq', hL'⟩ := h'.queue q (h.grown _ _ ha)
    exact ⟨hq'.trans hq, hL'.trans hL⟩

/-- Only new queues come into the chains. -/
theorem QueuesAdded.kinds {j : HeadAddr} {as bs : List Node} {x : Node} {l : HeadAddr}
    (h : QueuesAdded k L mq j as bs k' L') (hl : Irregular l) (hx : x ∈ L' l) :
    x ∈ L l ∨ (x.kind = .queue ∧ ¬ Allocated k x.kind x.idx) := by
  by_cases he : l = j
  · subst he
    obtain ⟨qs, hqs, hnew⟩ := h.chain
    rw [hqs] at hx
    rw [h.split, List.mem_append]
    rcases List.mem_append.mp hx with hx | hx
    · exact .inl (.inl hx)
    · rcases List.mem_append.mp hx with hx | hx
      · exact .inr (hnew x hx)
      · exact .inl (.inr hx)
  · rw [h.others l hl he] at hx
    exact .inl hx

/-- One round of the loop of `internal_mqOpen`, whichever chain the last message queue is in. -/
theorem queue_added {j : HeadAddr} {as bs : List Node} (h : Settled k L) (hj : Irregular j)
    (hsplit : L j = as ++ bs) (hplace : as ≠ [] ∨ .queues mq = j)
    (hlast : (k.head .messageQueuesList).last = as.getLast?)
    (hq : k.queueAlloc i = some (q, k₁)) :
    QueuesAdded k L mq j as bs (k₁.insert (.queues mq) as.getLast? ⟨.queue, q⟩)
      (Function.update (Function.update L (.messages q) []) j (as ++ ⟨.queue, q⟩ :: bs)) := by
  have hn := queueAlloc_queued h hq
  have hirr : ∀ l, Irregular l → Function.update L (.messages q) [] l = L l := fun l hl =>
    Function.update_of_ne (ne_of_irregular (j := .messages q) hl (by decide : Regular .message)) _ _
  have hout : ∀ l, Irregular l → ⟨.queue, q⟩ ∉ Function.update L (.messages q) [] l := by
    intro l hl
    rw [hirr l hl]
    exact h.hung.fresh_unlisted hn.fresh hl
  have hsplit₁ : Function.update L (.messages q) [] j = as ++ bs := by rw [hirr j hj, hsplit]
  have ha : Allocated k₁ .queue q := (hn.allocated _ _).mpr (.inl ⟨rfl, rfl⟩)
  have hlast₁ : (k₁.head .messageQueuesList).last = as.getLast? := by
    rw [hn.head _ (by simp), hlast]
  have hs₂ := hn.queued.settled.insertQueue hj hsplit₁ hplace hlast₁ ha hn.unlinked hout
  refine ⟨hsplit, hn.queued.trans ⟨hs₂, fun _ => rfl, fun _ _ => rfl, fun l hl => ?_,
    fun o _ ho => ?_, rfl⟩, fun kind i ha => (hn.allocated _ _).mpr (.inr ha),
    ⟨[⟨.queue, q⟩], ?_, fun x hx => ?_⟩, fun l hl hne => ?_, fun l hl hne => ?_,
    fun x hx hlive hm => ?_, fun p hlive => ?_, hn.same⟩
  · refine Function.update_of_ne (fun he => hl ?_) _ _
    rw [he]
    by_contra hk
    exact hj ⟨fun hm => hk (.inl hm), fun hm => hk (.inr (.inl hm))⟩
  · exact (mem_splice hsplit₁).mpr (.inl ho)
  · rw [Function.update_self]
    rfl
  · rw [List.mem_singleton.mp hx]
    exact ⟨rfl, hn.fresh⟩
  · rw [Function.update_of_ne hne, hirr l hl]
  · refine (insert_head k₁.lists _ _ hne).trans (hn.head l fun he => hl ?_)
    rw [he]
    exact (by decide : Regular .message)
  · have hne : x ≠ ⟨.queue, q⟩ := by
      rintro rfl
      exact hn.fresh hlive
    refine (chained_insert_item hn.queued.settled.hung.chained hj hsplit₁ hn.unlinked (hout j hj)
      hplace ?_ hne).trans (hn.item x hne)
    rwa [hirr j hj]
  · have hne : p ≠ q := by
      rintro rfl
      exact hn.fresh hlive
    refine ⟨hn.queue p hne, ?_⟩
    have hmessages : Regular (HeadAddr.messages p).nodeKind := (by decide : Regular .message)
    rw [Function.update_of_ne (ne_of_irregular hj hmessages).symm,
      Function.update_of_ne (by simpa using hne)]

/-- The loop of `internal_mqOpen`. -/
theorem addQueues_added {j : HeadAddr} {as bs : List Node} {b : Bool} (h : Settled k L)
    (hj : Irregular j) (hsplit : L j = as ++ bs) (hplace : as ≠ [] ∨ .queues mq = j)
    (hlast : (k.head .messageQueuesList).last = as.getLast?)
    (hadd : addQueues mq i n k = (b, k')) :
    ∃ L', QueuesAdded k L mq j as bs k' L' := by
  induction n generalizing i k L bs with
  | zero =>
    cases hadd
    exact ⟨L, .refl h hsplit⟩
  | succ n ih =>
    unfold addQueues at hadd
    cases hq : k.queueAlloc i with
    | none =>
      rw [hq] at hadd
      cases hadd
      exact ⟨L, .refl h hsplit⟩
    | some new =>
      obtain ⟨q, k₁⟩ := new
      have hone := queue_added h hj hsplit hplace hlast hq
      have hlast₁ : (k₁.head .messageQueuesList).last = as.getLast? := by
        rw [(queueAlloc_queued h hq).head _ (by simp), hlast]
      rw [hq] at hadd
      simp only [hlast₁] at hadd
      have hlast₂ : ((k₁.insert (.queues mq) as.getLast? ⟨.queue, q⟩).head .messageQueuesList).last =
          as.getLast? := by
        rw [hone.head _ irregular_messageQueues (by simp), hlast]
      obtain ⟨L', hrest⟩ := ih hone.queued.settled (Function.update_self ..) hlast₂ hadd
      exact ⟨L', hone.trans hrest⟩

/-- The block `mq` is a new message queue without queues. -/
structure NewMessageQueue (k : Kernel) (L : HeadAddr → List Node) (mq : Nat) (id priority : Int)
    (k' : Kernel) : Prop where
  queued : Queued k L k' (Function.update L (.queues mq) [])
  fresh : ¬ Allocated k .messageQueue mq
  allocated : ∀ kind i, Allocated k' kind i ↔ (kind = .messageQueue ∧ i = mq) ∨ Allocated k kind i
  unlinked : Unlinked k'.lists ⟨.messageQueue, mq⟩
  head : ∀ l, Irregular l → l ≠ .queues mq → k'.head l = k.head l
  item : ∀ x, x ≠ ⟨.messageQueue, mq⟩ → k'.lists.item x = k.lists.item x
  record : k'.messageQueue = Function.update k.messageQueue mq ⟨id, priority, 0⟩
  same : k'.queue = k.queue ∧ k'.message = k.message

theorem messageQueueAlloc_queued (hc : Tidy k L) (hh : Hung k L) {id priority : Int}
    (h : k.messageQueueAlloc id priority = some (mq, k')) :
    NewMessageQueue k L mq id priority k' := by
  unfold messageQueueAlloc at h
  cases hnew : k.newItem .messageQueue with
  | none =>
    rw [hnew] at h
    cases h
  | some new =>
    obtain ⟨mq', k₁⟩ := new
    rw [hnew] at h
    cases h
    have hs : Settled k L := ⟨hc.strung, hh⟩
    have hf := newItem_fresh hs.strung.pooled hnew
    have hs₁ : Settled { k₁ with
        messageQueue := Function.update k₁.messageQueue mq ⟨id, priority, 0⟩ } L :=
      (hs.newItem hf).congr rfl rfl
    have hreg : Regular (HeadAddr.users .mq mq).nodeKind := regular_pointerKind .mq
    have hs₂ := (hs₁.initQueues mq).initRegular (l := .users .mq mq) hreg (by rintro ⟨⟩)
    -- a message queue with users is in the chain, so the new one has none
    have hnone : L (.users .mq mq) = [] := by
      cases hL : L (.users .mq mq) with
      | nil => rfl
      | cons x xs =>
        have hl := (hc.tied .mq).housed mq x (by rw [hL]; exact List.mem_cons_self)
        exact absurd (hh.live _ _ irregular_messageQueues hl) hf.fresh
    have hL : Function.update (Function.update L (.queues mq) []) (.users .mq mq) [] =
        Function.update L (.queues mq) [] := by
      have hne : HeadAddr.users .mq mq ≠ .queues mq := by rintro ⟨⟩
      have hsame : Function.update L (.queues mq) [] (.users .mq mq) = [] :=
        (Function.update_of_ne hne _ _).trans hnone
      nth_rewrite 2 [← hsame]
      exact Function.update_eq_self _ _
    rw [hL] at hs₂
    refine ⟨⟨hs₂, fun p => ?_, fun kind hk => ?_, fun l hl => ?_, fun o _ ho => ?_, ?_⟩,
      hf.fresh, hf.allocated, ?_, fun l hl hne => ?_, fun x hx => ?_, ?_, ?_, ?_⟩
    · show k₁.pcb p = { k.pcb p with syscallRetvalue := (k₁.pcb p).syscallRetvalue }
      rw [hf.eq]
    · show k₁.pool kind = k.pool kind
      exact fresh_pool hf fun he => hk (.inl he)
    · refine Function.update_of_ne (fun he => hl ?_) _ _
      rw [he]
      exact .inr (.inl rfl)
    · unfold ObjectListed
      rwa [Function.update_of_ne (by simp [objects])]
    · show ({ k₁ with messageQueue := _, lists := _ } : Kernel) = _
      rw [hf.eq]
      rfl
    · show Unlinked k₁.lists _
      exact unlinked_fresh hf
    · refine (Function.update_of_ne (ne_of_irregular hl hreg) ⟨none, none, 0⟩ _).trans
        ((Function.update_of_ne (f := k₁.lists.head) hne ⟨none, none, 0⟩).trans ?_)
      rw [hf.eq]
      rfl
    · show k₁.lists.item x = _
      rw [hf.eq]
      exact Function.update_of_ne hx _ _
    · show Function.update k₁.messageQueue mq _ = _
      rw [hf.eq]
    · show k₁.queue = _
      rw [hf.eq]
    · show k₁.message = _
      rw [hf.eq]

/-- A message queue `mq` has been created and listed behind the last one that is known. What
has been there before is as it was but for its place in the list of message queues. -/
structure MqCreated (k : Kernel) (L : HeadAddr → List Node) (mq : Nat) (id priority : Int)
    (k' : Kernel) (L' : HeadAddr → List Node) : Prop where
  queued : Queued k L k' L'
  fresh : ¬ Allocated k .messageQueue mq
  chain : ∃ as bs qs, L .messageQueuesList = as ++ bs ∧
    L' .messageQueuesList = as ++ ⟨.messageQueue, mq⟩ :: (qs ++ bs)
  record : k'.messageQueue = Function.update k.messageQueue mq ⟨id, priority, 0⟩
  message : k'.message = k.message
  queues : ∀ o, o ≠ mq → k'.head (.queues o) = k.head (.queues o) ∧ L' (.queues o) = L (.queues o)
  queue : ∀ q, Allocated k .queue q → k'.queue q = k.queue q ∧ L' (.messages q) = L (.messages q)
  item : ∀ q, Allocated k .queue q → ⟨.queue, q⟩ ∉ L .messageQueuesList →
    k'.lists.item ⟨.queue, q⟩ = k.lists.item ⟨.queue, q⟩

/-- A message queue gets its queues, as far as there are blocks, and is listed. -/
theorem messageQueue_created {id priority : Int} {b : Bool} (hc : Coherent k L)
    (halloc : k.messageQueueAlloc id priority = some (mq, k₁))
    (hadd : addQueues mq i n k₁ = (b, k₂)) :
    (∃ L₂, Queued k L k₂ L₂) ∧
      ∃ L₃, MqCreated k L mq id priority (k₂.append .messageQueuesList ⟨.messageQueue, mq⟩) L₃ := by
  have hn := messageQueueAlloc_queued hc.tidy hc.hung halloc
  have hM : Function.update L (.queues mq) [] .messageQueuesList = L .messageQueuesList :=
    Function.update_of_ne (by simp) _ _
  obtain ⟨as, bs, hsplit, hplaced, hbehind⟩ := hc.hung.placed
  have hlast : (k₁.head .messageQueuesList).last = as.getLast? := by
    rw [hn.head _ irregular_messageQueues (by simp), hplaced]
  have hout : ∀ l, Irregular l →
      ⟨.messageQueue, mq⟩ ∉ Function.update L (.queues mq) [] l := by
    intro l hl hx
    by_cases he : l = .queues mq
    · subst he
      rw [Function.update_self] at hx
      cases hx
    · rw [Function.update_of_ne he] at hx
      exact hc.hung.fresh_unlisted hn.fresh hl hx
  -- with no message queue before it the new one gets its queues, else they follow the last one
  obtain ⟨L₂, ⟨j, as', bs', hadded, hj, hchain⟩, qs, htail, hkinds⟩ : ∃ L₂, (∃ j as' bs',
      QueuesAdded k₁ (Function.update L (.queues mq) []) mq j as' bs' k₂ L₂ ∧
        (j = .queues mq ∨ j = .messageQueuesList) ∧
        (∀ x ∈ Function.update L (.queues mq) [] j, x ∈ L .messageQueuesList)) ∧
      ∃ qs, L₂ .messageQueuesList = as ++ (qs ++ bs) ∧ ∀ x ∈ qs, x.kind = .queue := by
    by_cases hnil : as = []
    · subst hnil
      have hempty : Function.update L (.queues mq) [] (.queues mq) = [] ++ ([] : List Node) :=
        Function.update_self ..
      obtain ⟨L₂, h⟩ := addQueues_added hn.queued.settled (irregular_queues mq) hempty (.inr rfl)
        hlast hadd
      refine ⟨L₂, ⟨_, _, _, h, .inl rfl, fun x hx => ?_⟩, [], ?_, nofun⟩
      · rw [hempty] at hx
        cases hx
      · rw [h.others _ irregular_messageQueues (by simp), hM, hsplit]
        rfl
    · obtain ⟨L₂, h⟩ := addQueues_added hn.queued.settled irregular_messageQueues
        (hM.trans hsplit) (.inl hnil) hlast hadd
      obtain ⟨qs, hqs, hnew⟩ := h.chain
      refine ⟨L₂, ⟨_, _, _, h, .inr rfl, fun y hy => ?_⟩, qs, hqs, fun x hx => (hnew x hx).1⟩
      rwa [hM] at hy
  have hbehind₂ : qs ++ bs = [] ∨ ∃ x ∈ qs ++ bs, x.kind = .queue := by
    cases qs with
    | nil => exact hbehind
    | cons q qs => exact .inr ⟨q, List.mem_cons_self, hkinds q List.mem_cons_self⟩
  have hq₂ := hn.queued.trans hadded.queued
  have hgrown : ∀ kind i, Allocated k kind i → Allocated k₁ kind i := fun kind i ha =>
    (hn.allocated _ _).mpr (.inr ha)
  have hmq : Allocated k₁ .messageQueue mq := (hn.allocated _ _).mpr (.inl ⟨rfl, rfl⟩)
  have hlast₂ : (k₂.head .messageQueuesList).last = as.getLast? := by
    rw [hadded.head _ irregular_messageQueues (by simp), hlast]
  have hjirr : Irregular j := by
    rcases hj with rfl | rfl
    · exact irregular_queues mq
    · exact irregular_messageQueues
  have hout₂ : ∀ l, Irregular l → ⟨.messageQueue, mq⟩ ∉ L₂ l := by
    intro l hl hx
    rcases hadded.kinds hl hx with hx | ⟨hx, _⟩
    · exact hout l hl hx
    · cases hx
  have hu₂ : Unlinked k₂.lists ⟨.messageQueue, mq⟩ :=
    (hadded.item ⟨.messageQueue, mq⟩ irregular_messageQueues hmq (hout j hjirr)).trans hn.unlinked
  have hs₃ := hq₂.settled.appendMessageQueue htail hlast₂ hbehind₂ (hadded.grown _ _ hmq) hu₂ hout₂
  refine ⟨⟨L₂, hq₂⟩, _, hq₂.trans ⟨hs₃, fun _ => rfl, fun _ _ => rfl, fun l hl => ?_,
    fun o _ ho => ?_, rfl⟩, hn.fresh, ⟨as, bs, qs, hsplit, ?_⟩, hadded.same.1.trans hn.record,
    hadded.same.2.trans hn.same.2, fun o ho => ⟨?_, ?_⟩, fun q ha => ⟨?_, ?_⟩, fun q ha hm => ?_⟩
  · refine Function.update_of_ne (fun he => hl ?_) _ _
    rw [he]
    exact .inl rfl
  · exact (mem_splice htail).mpr (.inl ho)
  · exact Function.update_self ..
  · refine (insert_head k₂.lists _ _ (by simp)).trans ?_
    have hne : HeadAddr.queues o ≠ .queues mq := by simpa using ho
    exact (hadded.head _ (irregular_queues o) hne).trans (hn.head _ (irregular_queues o) hne)
  · have hne : HeadAddr.queues o ≠ .queues mq := by simpa using ho
    have hnej : HeadAddr.queues o ≠ j := by
      rcases hj with rfl | rfl
      · exact hne
      · simp
    rw [Function.update_of_ne (by simp), hadded.others _ (irregular_queues o) hnej,
      Function.update_of_ne hne]
  · show k₂.queue q = _
    rw [(hadded.queue q (hgrown _ _ ha)).1, hn.same.1]
  · rw [Function.update_of_ne (by simp), (hadded.queue q (hgrown _ _ ha)).2,
      Function.update_of_ne (by simp)]
  · have hne : (⟨.queue, q⟩ : Node) ≠ ⟨.messageQueue, mq⟩ := nofun
    have hfar : ⟨.queue, q⟩ ∉ L₂ .messageQueuesList := by
      intro hx
      rcases hadded.kinds irregular_messageQueues hx with hx | ⟨_, hx⟩
      · exact hm (by rwa [hM] at hx)
      · exact hx (hgrown _ _ ha)
    have happend : (k₂.append .messageQueuesList ⟨.messageQueue, mq⟩).lists.item ⟨.queue, q⟩ =
        k₂.lists.item ⟨.queue, q⟩ := by
      unfold append
      rw [hlast₂]
      exact chained_insert_item hq₂.settled.hung.chained irregular_messageQueues htail hu₂
        (hout₂ _ irregular_messageQueues) (.inr rfl) hfar hne
    have hkept := hadded.item ⟨.queue, q⟩ (irregular_queues mq) (hgrown _ _ ha) fun hx =>
      hm (hchain _ hx)
    exact happend.trans (hkept.trans (hn.item _ hne))

theorem MqCreated.listed {id priority : Int} (h : MqCreated k L mq id priority k' L') :
    ObjectListed L' .mq mq := by
  obtain ⟨as, bs, qs, -, hL⟩ := h.chain
  show ⟨.messageQueue, mq⟩ ∈ L' .messageQueuesList
  rw [hL]
  exact List.mem_append_right _ List.mem_cons_self

/-! ## Opening and closing -/

/-- The outcomes of `internal_mqOpen`: whatever has been created, a descriptor is opened in
the end or not. -/
inductive MqOpened (k : Kernel) (L : HeadAddr → List Node) (r : Nat) :
    Kernel → (HeadAddr → List Node) → Prop
  | unopened {k' : Kernel} {L' : HeadAddr → List Node} (h : Queued k L k' L')
      (hv : (k'.pcb r).syscallRetvalue = DSOS_EMQOPEN) : MqOpened k L r k' L'
  | opened {mq d ptr : Nat} {k₁ k' : Kernel} {L₁ : HeadAddr → List Node} (hq : Queued k L k₁ L₁)
      (hpcb : k₁.pcb = k.pcb) (hmq : ObjectListed L₁ .mq mq)
      (h : Added Regular Retained k₁ L₁ .mq r mq d ptr k') :
      MqOpened k L r k' (withOpened L₁ .mq r mq d ptr)

theorem mqOpened_of_listed (hc : Coherent k L) (hq : Queued k L k₁ L₁) (hpcb : k₁.pcb = k.pcb)
    (hmq : ObjectListed L₁ .mq mq) :
    ∃ L', MqOpened k L r (k₁.openDescriptor .mq r mq DSOS_EMQOPEN) L' := by
  rcases openDescriptor_tied hq.settled.strung (hq.tied (hc.tidy.tied .mq)) r mq DSOS_EMQOPEN with
    ⟨he, _⟩ | ⟨d, ptr, ha⟩
  · rw [he]
    exact ⟨L₁, .unopened (hq.trans (queued_setRetvalue hq.settled r _)) (setRetvalue_self _ _ _)⟩
  · exact ⟨_, .opened hq hpcb hmq ha⟩

/-- Without a block for the descriptor or for its pointer nothing is opened. -/
theorem openDescriptor_refused (hs : Strung Regular Retained k L) (ht : Tied .mq k L) (r i : Nat)
    (h : k.newItem .mqDescriptor = none ∨ k.newItem .mqDescriptorPtr = none) :
    k.openDescriptor .mq r i DSOS_EMQOPEN = k.setRetvalue r DSOS_EMQOPEN := by
  rw [newItem_eq_none hs.pooled, newItem_eq_none hs.pooled] at h
  refine openDescriptor_full hs.pooled (h.elim id fun hfull => ?_) r i DSOS_EMQOPEN
  rw [ht.level]
  exact hfull

/-- A message queue that has been found is opened. A queue is not, and there is no fault only
where there is no block. -/
theorem opens_found (hc : Coherent k L) {x : Node}
    (hfound : k.messageQueueListById .messageQueuesList (toInt (k.arg r 0)) = .ok (some x))
    (h : k.openFound r x = .ok k') : (∃ mq, x = ⟨.messageQueue, mq⟩ ∧ ObjectListed L .mq mq ∧
      k' = k.openDescriptor .mq r mq DSOS_EMQOPEN) ∨ k' = k.setRetvalue r DSOS_EMQOPEN := by
  obtain ⟨rfl, hx | hno⟩ := openFound_ok h
  · obtain ⟨kind, mq⟩ := x
    cases hx
    exact .inl ⟨mq, rfl, hc.settled.listed_of_byId hfound, rfl⟩
  · exact .inr (openDescriptor_refused hc.tidy.strung (hc.tidy.tied .mq) r _ hno)

theorem addQueues_pcb {b : Bool} (h : addQueues mq i n k = (b, k')) : k'.pcb = k.pcb := by
  induction n generalizing i k with
  | zero =>
    cases h
    rfl
  | succ n ih =>
    unfold addQueues queueAlloc newItem at h
    cases hget : k.getBlock .queue with
    | none =>
      rw [hget] at h
      cases h
      rfl
    | some new =>
      obtain ⟨q, k₁⟩ := new
      obtain ⟨_, _, _, rfl⟩ := getBlock_eq_some hget
      rw [hget] at h
      have hrest := ih h
      exact hrest

theorem messageQueueAlloc_pcb {id priority : Int}
    (h : k.messageQueueAlloc id priority = some (mq, k')) : k'.pcb = k.pcb := by
  unfold messageQueueAlloc newItem at h
  cases hget : k.getBlock .messageQueue with
  | none =>
    rw [hget] at h
    cases h
  | some new =>
    obtain ⟨q, k₁⟩ := new
    obtain ⟨_, _, _, rfl⟩ := getBlock_eq_some hget
    rw [hget] at h
    cases h
    rfl

theorem mqOpen_ok (hc : Coherent k L) (hr : k.running = some r) (h : internalMqOpen k = .ok k') :
    ∃ L', MqOpened k L r k' L' := by
  obtain ⟨r', hr', hcases⟩ := mqOpen_cases h
  rw [hr, Option.some.injEq] at hr'
  subst hr'
  have hself : Queued k L k L := queued_same hc.settled rfl (fun _ _ => rfl) rfl
  obtain rfl | ⟨x, hfound, _, hopen⟩ | ⟨-, mq, k₁, b, k₂, halloc, hadd, rfl⟩ := hcases
  · exact ⟨L, .unopened (queued_setRetvalue hc.settled r _) (setRetvalue_self _ _ _)⟩
  · rcases opens_found hc hfound hopen with ⟨mq, -, hlisted, rfl⟩ | rfl
    · exact mqOpened_of_listed hc hself rfl hlisted
    · exact ⟨L, .unopened (queued_setRetvalue hc.settled r _) (setRetvalue_self _ _ _)⟩
  · obtain ⟨⟨L₂, hq₂⟩, L₃, hnew⟩ := messageQueue_created hc halloc hadd
    have hpcb : k₂.pcb = k.pcb := (addQueues_pcb hadd).trans (messageQueueAlloc_pcb halloc)
    cases b with
    | false =>
      exact ⟨L₂, .unopened (hq₂.trans (queued_setRetvalue hq₂.settled r _)) (setRetvalue_self _ _ _)⟩
    | true => exact mqOpened_of_listed hc hnew.queued hpcb hnew.listed

/-- The outcomes of `internal_mqClose`. -/
inductive MqClosed (k : Kernel) (L : HeadAddr → List Node) (r : Nat) :
    Kernel → (HeadAddr → List Node) → Prop
  | refused (v : Int) : MqClosed k L r (k.setRetvalue r v) L
  | closed {d mq ptr : Nat} {k₁ : Kernel} (v : Int)
      (hb : k.boundTo .mq r (toInt (k.arg r 0)) = .ok (some (d, mq)))
      (hptr : (k.descriptor .mq d).ptr = some ptr) (hm : ⟨.mqDescriptor, d⟩ ∈ L (.opened .mq r))
      (hu : ⟨.mqDescriptorPtr, ptr⟩ ∈ L (.users .mq mq))
      (h : Removed Regular Retained k L .mq r mq d ptr k₁) :
      MqClosed k L r
        ((k₁.modPcb r fun q => q.setFdCounter .mq (q.fdCounter .mq - 1)).setRetvalue r v)
        (withClosed L .mq r mq d ptr)

theorem mqClose_ok (hc : Coherent k L) (hr : k.running = some r)
    (h : internalMqClose k = .ok k') : ∃ L', MqClosed k L r k' L' := by
  obtain ⟨r', hr', ⟨v, rfl⟩ | ⟨d, mq, v, hb, rfl⟩⟩ := mqClose_cases h
  · rw [hr, Option.some.injEq] at hr'
    subst hr'
    exact ⟨L, .refused v⟩
  · rw [hr, Option.some.injEq] at hr'
    subst hr'
    have hs := hc.tidy.strung
    obtain ⟨hm, _, ho⟩ := boundTo_listed hs hb
    obtain ⟨ptr, hptr, _, hu, _⟩ := Coherent.pointer_listed hc hr hm ho
    rw [closeDescriptor_eq hptr]
    exact ⟨_, .closed v hb hptr hm hu (unlist_removed hs (regular_descriptorKind .mq)
      (regular_pointerKind .mq) hm hu)⟩

theorem MqOpened.coherent (hc : Coherent k L) (h : MqOpened k L r k' L') :
    Coherent k' L' ∧ view k' L' = view k L := by
  cases h with
  | unopened h => exact ⟨h.coherent hc, h.view_eq⟩
  | @opened mq d ptr k₁ _ L₁ hq _ hmq h =>
    have hc₁ := hq.coherent hc
    have hm : Moved k₁ L₁ (fun s => s = view k L) k' (withOpened L₁ .mq r mq d ptr) :=
      moved_added hc₁.tidy h hmq hq.view_eq
    exact ⟨⟨hm.tidy, hm.hung hc₁.hung, by rw [hm.move]; exact hc.sound⟩, hm.move⟩

theorem MqClosed.coherent (hc : Coherent k L) (h : MqClosed k L r k' L') :
    Coherent k' L' ∧ view k' L' = view k L := by
  cases h with
  | refused v =>
    have hq := queued_setRetvalue hc.settled r v
    exact ⟨hq.coherent hc, hq.view_eq⟩
  | @closed d mq ptr k₁ v _ hptr hm hu h =>
    have hm₁ : Moved k L (fun s => s = view k L) k₁ (withClosed L .mq r mq d ptr) :=
      moved_removed hc.tidy hm hptr hu h rfl
    have hm₂ : Moved k₁ (withClosed L .mq r mq d ptr) (fun s => s = view k L)
        (k₁.modPcb r fun q => q.setFdCounter .mq (q.fdCounter .mq - 1))
        (withClosed L .mq r mq d ptr) := by
      refine moved_same hm₁.tidy rfl rfl rfl rfl (fun q => ?_) ?_
      · exact timer_modPcb (fun q => q.setFdCounter .mq (q.fdCounter .mq - 1)) (fun _ => rfl) q
      · rw [view_setCounter (n := fun n => n - 1)]
        exact hm₁.move
    have hm₃ : Moved _ _ (fun s => s = view k L) _ _ :=
      moved_setRetvalue (p := r) (v := v) hm₂.tidy hm₂.move
    have hm := (hm₁.trans hm₂).trans hm₃
    exact ⟨⟨hm.tidy, hm.hung hc.hung, by rw [hm.move]; exact hc.sound⟩, hm.move⟩

/-! ## Removing -/

/-- Dismantling frees the queues that are empty and loses the others. -/
theorem removeQueues_queued (h : Settled k L) (hrun : removeQueues mq n k = .ok k') :
    ∃ L', Queued k L k' L' ∧ L' .messageQueuesList = L .messageQueuesList ∧
      (∀ l x, x ∈ L' l → x ∈ L l) ∧ k'.pcb = k.pcb ∧
      k'.pool .messageQueue = k.pool .messageQueue := by
  induction n generalizing k L with
  | zero =>
    cases hrun
    exact ⟨L, queued_same h rfl (fun _ _ => rfl) rfl, rfl, fun _ _ hx => hx, rfl, rfl⟩
  | succ n ih =>
    unfold removeQueues at hrun
    obtain ⟨⟨q, k₁⟩, hd, hrun⟩ := bind_eq_ok.mp hrun
    obtain ⟨rest, hL, rfl, hs₁⟩ := h.detachFirstQueue hd
    have hsub : ∀ l x, x ∈ Function.update L (.queues mq) rest l → x ∈ L l := by
      intro l x hx
      by_cases he : l = .queues mq
      · subst he
        rw [Function.update_self] at hx
        rw [hL]
        exact List.mem_cons_of_mem _ hx
      · rwa [Function.update_of_ne he] at hx
    have hq₁ : Queued k L (k.detach (.queues mq) ⟨.queue, q⟩)
        (Function.update L (.queues mq) rest) := by
      refine ⟨hs₁, fun _ => rfl, fun _ _ => rfl, fun l hl => ?_, fun o _ ho => ?_, rfl⟩
      · refine Function.update_of_ne (fun he => hl ?_) _ _
        rw [he]
        exact .inr (.inl rfl)
      · unfold ObjectListed
        rwa [Function.update_of_ne (by simp [objects])]
    have hM : Function.update L (.queues mq) rest .messageQueuesList = L .messageQueuesList :=
      Function.update_of_ne (by simp) _ _
    simp only at hrun
    split at hrun
    · obtain ⟨k₂, hfree, hrun⟩ := bind_eq_ok.mp hrun
      unfold queueFree freeUnused at hfree
      split at hfree
      · cases hfree
        have hs₂ := h.releaseFirstQueue hL hs₁
        have hq₂ : Queued (k.detach (.queues mq) ⟨.queue, q⟩) (Function.update L (.queues mq) rest)
            ((k.detach (.queues mq) ⟨.queue, q⟩).releaseBlock .queue q)
            (Function.update L (.queues mq) rest) := by
          refine queued_same hs₂ rfl (fun kind hk => releaseBlock_pool _ _ ?_) rfl
          exact fun he => hk (.inr (.inl he))
        obtain ⟨L', hq', hM', hsub', hpcb', hpool'⟩ := ih hs₂ hrun
        refine ⟨L', (hq₁.trans hq₂).trans hq', hM'.trans hM,
          fun l x hx => hsub l x (hsub' l x hx), hpcb', hpool'.trans ?_⟩
        exact releaseBlock_pool _ _ (by decide)
      · cases hfree
    · obtain ⟨L', hq', hM', hsub', hpcb', hpool'⟩ := ih hs₁ hrun
      exact ⟨L', hq₁.trans hq', hM'.trans hM, fun l x hx => hsub l x (hsub' l x hx), hpcb', hpool'⟩

theorem mqUnlink_ok (hc : Coherent k L) (h : internalMqUnlink k = .ok k') : ∃ L', Queued k L k' L' := by
  obtain ⟨r', hr', ⟨v, rfl⟩ | ⟨mq, k₁, k₂, hfound, _, husers, hrun, hfree, rfl⟩⟩ := mqUnlink_cases h
  · exact ⟨L, queued_setRetvalue hc.settled _ v⟩
  · have hmem := hc.settled.listed_of_byId hfound
    have hs := hc.tidy.strung
    have hunused : L (.users .mq mq) = [] :=
      (hs.size_zero_iff (l := .users .mq mq) (regular_pointerKind .mq)).mp husers
    have hn := hc.hung.chained.nodup _ irregular_messageQueues
    have hs₁ := hc.settled.detachMessageQueue hmem
    have hq₁ : Queued k L (k.detach .messageQueuesList ⟨.messageQueue, mq⟩)
        (Function.update L .messageQueuesList
          ((L .messageQueuesList).erase ⟨.messageQueue, mq⟩)) := by
      refine ⟨hs₁, fun _ => rfl, fun _ _ => rfl, fun l hl => ?_, fun o hu ho => ?_, rfl⟩
      · refine Function.update_of_ne (fun he => hl ?_) _ _
        rw [he]
        exact .inl rfl
      · refine (mem_erase_update hn).mpr ⟨ho, ?_⟩
        rintro ⟨_, he⟩
        cases he
        exact hu hunused
    obtain ⟨L₂, hq₂, hM, hsub, hpcb, hpool⟩ := removeQueues_queued hs₁ hrun
    unfold messageQueueFree freeUnused at hfree
    split at hfree
    · cases hfree
      have ha : Allocated k₁ .messageQueue mq :=
        (allocated_of_pool hpool).mpr (hc.hung.live _ _ irregular_messageQueues hmem)
      have hout : ∀ l, Irregular l → ⟨.messageQueue, mq⟩ ∉ L₂ l := by
        intro l hl hx
        obtain ⟨hx, hno⟩ := (mem_erase_update hn).mp (hsub l _ hx)
        exact hno ⟨hc.hung.chained.apart l _ _ hl irregular_messageQueues hx hmem, rfl⟩
      have hs₃ := hq₂.settled.releaseBlock (by decide : ¬ Regular .messageQueue) ha hout
      have hq₃ : Queued k₁ L₂ (k₁.releaseBlock .messageQueue mq) L₂ := by
        refine queued_same hs₃ rfl (fun kind hk => releaseBlock_pool _ _ ?_) rfl
        exact fun he => hk (.inl he)
      have hq := (hq₁.trans hq₂).trans hq₃
      exact ⟨L₂, hq.trans (queued_setRetvalue hq.settled r' 0)⟩
    · cases hfree

/-! ## Messages -/

theorem mqWrite_ok (hc : Coherent k L) (h : internalMqWrite k = .ok k') :
    ∃ L', Queued k L k' L' := by
  obtain ⟨r', hr', ⟨v, rfl⟩ | ⟨mq, q, m, hw⟩⟩ := mqWrite_cases h
  · exact ⟨L, queued_setRetvalue hc.settled _ v⟩
  · obtain ⟨k₁, hnew, rfl⟩ := hw.eq
    have hreg : Regular (HeadAddr.messages q).nodeKind := (by decide : Regular .message)
    have hf := newItem_fresh hc.tidy.strung.pooled hnew
    have hw₁ : Woven k { k₁ with
        message := Function.update k₁.message m ⟨toInt (k.arg r' 2), k.arg r' 1⟩ } L :=
      ((Woven.refl hc.tidy.strung).newItem (by decide : Regular .message) hf).congr rfl rfl
    have ha : Allocated k₁ .message m := (hf.allocated _ _).mpr (.inl ⟨rfl, rfl⟩)
    have hu : Unlinked k₁.lists ⟨.message, m⟩ := unlinked_fresh hf
    have hw₂ := hw₁.append (l := .messages q) (x := ⟨.message, m⟩) hreg rfl ha hu fun l hl => by
        have hl' : Regular l.nodeKind := by
          rw [hl]
          exact (by decide : Regular .message)
        exact hc.tidy.strung.fresh_unlisted hf.fresh hl'
    have hirr : ∀ l, Irregular l → Function.update L (.messages q)
        (L (.messages q) ++ [⟨.message, m⟩]) l = L l := fun l hl =>
      Function.update_of_ne (ne_of_irregular (j := .messages q) hl hreg) _ _
    obtain ⟨k₂, hk₂⟩ : ∃ k₂, ({ k₁ with
        message := Function.update k₁.message m ⟨toInt (k.arg r' 2), k.arg r' 1⟩ } : Kernel).append
          (.messages q) ⟨.message, m⟩ = k₂ := ⟨_, rfl⟩
    rw [hk₂] at hw₂ ⊢
    have hrest : k₂ = { k with lists := k₂.lists, pool := k₁.pool, message := k₂.message } := by
      rw [← hk₂, hf.eq]
      rfl
    have hq₂ : Queued k L k₂ (Function.update L (.messages q)
        (L (.messages q) ++ [⟨.message, m⟩])) := by
      refine ⟨⟨hw₂.strung, hc.hung.woven hw₂ hirr⟩, fun p => ?_, fun kind hk => ?_, fun l hl => ?_,
        fun o _ ho => ?_, ?_⟩
      · rw [hrest]
      · rw [hrest]
        show k₁.pool kind = k.pool kind
        exact fresh_pool hf fun he => hk (.inr (.inr he))
      · refine Function.update_of_ne (fun he => hl ?_) _ _
        rw [he]
        exact .inr (.inr rfl)
      · unfold ObjectListed
        rwa [Function.update_of_ne (by simp [objects])]
      · rw [hrest]
    have hq₃ : Queued k₂ _ (k₂.modMessageQueue mq
        fun x => { x with numMessages := x.numMessages + 1 }) _ :=
      queued_same (hq₂.settled.congr rfl rfl) rfl (fun _ _ => rfl) rfl
    exact ⟨_, (hq₂.trans hq₃).trans (queued_setRetvalue hq₃.settled r' _)⟩

/-- A message leaves its queue. -/
theorem detachMessage_queued (h : Settled k L) (hd : k.detachFirst (.messages q) = .ok (m, k')) :
    ∃ rest, L (.messages q) = ⟨.message, m⟩ :: rest ∧
      Queued k L k' (Function.update L (.messages q) rest) ∧ k' = { k with lists := k'.lists } := by
  have hreg : Regular (HeadAddr.messages q).nodeKind := (by decide : Regular .message)
  obtain ⟨rest, hL, hk', hw⟩ := (Woven.refl h.strung).detachFirst_ok hreg hd
  have hirr : ∀ l, Irregular l → Function.update L (.messages q) rest l = L l := fun l hl =>
    Function.update_of_ne (ne_of_irregular (j := .messages q) hl hreg) _ _
  have heq : k' = { k with lists := k'.lists } := by
    rw [hk']
    rfl
  refine ⟨rest, hL, ⟨⟨hw.strung, h.hung.woven hw hirr⟩, fun p => ?_, fun kind _ => ?_,
    fun l hl => ?_, fun o _ ho => ?_, ?_⟩, heq⟩
  · rw [heq]
  · rw [heq]
  · refine Function.update_of_ne (fun he => hl ?_) _ _
    rw [he]
    exact .inr (.inr rfl)
  · unfold ObjectListed
    rwa [Function.update_of_ne (by simp [objects])]
  · rw [heq]

theorem delivered_queued {buf priority : Int} (h : Settled k L) (ha : Allocated k .message m)
    (hout : ∀ l, Regular l.nodeKind → ⟨.message, m⟩ ∉ L l)
    (hd : Delivered k r mq m i buf priority k') : Queued k L k' L := by
  have hkind : Regular .message := by decide
  have hs₁ : Settled (k.releaseBlock .message m) L := by
    refine ⟨h.strung.releaseBlock .message m ha hout, h.hung.confined (confined_of_lists rfl)
      (fun _ _ => rfl) fun kind j hk haj => ?_⟩
    exact (allocated_of_pool (releaseBlock_pool _ _ fun he => hk (by rwa [he]))).mpr haj
  refine ⟨hs₁.congr hd.lists hd.pool, fun p => ?_, fun kind hk => ?_, fun _ _ => rfl,
    fun _ _ ho => ho, ?_⟩
  · rw [hd.pcb, Function.update_apply]
    split
    · next he => rw [he]
    · rfl
  · rw [hd.pool]
    exact releaseBlock_pool _ _ fun he => hk (.inr (.inr he))
  · rw [hd.rest]

theorem readClasses_queued {buf bufSize priority : Int} (h : Settled k L)
    (hrun : readClasses r mq buf bufSize priority i n k = .ok k') : ∃ L', Queued k L k' L' := by
  induction n generalizing i k L with
  | zero =>
    cases hrun
    exact ⟨L, queued_setRetvalue h r 0⟩
  | succ n ih =>
    unfold readClasses at hrun
    obtain ⟨found, _, hrun⟩ := bind_eq_ok.mp hrun
    cases found with
    | none =>
      cases hrun
      exact ⟨L, queued_setRetvalue h r _⟩
    | some q =>
      simp only at hrun
      split at hrun
      · obtain ⟨⟨m, k₁⟩, hd, hrun⟩ := bind_eq_ok.mp hrun
        obtain ⟨rest, hL, hq₁, hk₁⟩ := detachMessage_queued h hd
        have hreg : Regular (HeadAddr.messages q).nodeKind := (by decide : Regular .message)
        have hmem : ⟨.message, m⟩ ∈ L (.messages q) := by
          rw [hL]
          exact List.mem_cons_self
        have ha : Allocated k₁ .message m := by
          rw [hk₁]
          exact h.strung.live _ _ hreg hmem
        have hout : ∀ l, Regular l.nodeKind →
            ⟨.message, m⟩ ∉ Function.update L (.messages q) rest l := by
          intro l hl hx
          have hn := h.strung.nodup hreg
          rw [hL] at hn
          by_cases he : l = .messages q
          · subst he
            rw [Function.update_self] at hx
            exact (List.nodup_cons.mp hn).1 hx
          · rw [Function.update_of_ne he] at hx
            exact he (h.strung.apart hl hreg hx hmem)
        simp only at hrun
        split at hrun
        · exact ⟨_, hq₁.trans (delivered_queued hq₁.settled ha hout (deliver_iff.mp hrun))⟩
        · obtain ⟨L', hq'⟩ := ih hq₁.settled hrun
          exact ⟨L', hq₁.trans hq'⟩
      · exact ih h hrun

theorem mqRead_ok (hc : Coherent k L) (h : internalMqRead k = .ok k') :
    ∃ L', Queued k L k' L' := by
  obtain ⟨r', _, ⟨v, rfl⟩ | ⟨_, _, _, _, hrun⟩⟩ := mqRead_cases h
  · exact ⟨L, queued_setRetvalue hc.settled _ v⟩
  · exact readClasses_queued hc.settled hrun

end DisastrOS.MessageQueue.CoherentCalls
