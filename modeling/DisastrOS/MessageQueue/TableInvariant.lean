import Mathlib.Algebra.BigOperators.Group.List.Basic
import DisastrOS.Descriptors.Bindings
import DisastrOS.MessageQueue.Classes

/-!
# The message queue tables

`Tables` is the representation invariant of the message queues: one queue for each
priority class, every open descriptor on a listed message queue, and no more linked
messages than the message queue counts.
-/
namespace DisastrOS.MessageQueue.TableInvariant

open DisastrOS.Machine
open DisastrOS.Machine.Kernel
open DisastrOS.Lists.Wiring
open DisastrOS.Descriptors.Bindings
open DisastrOS.Pool.Blocks
open DisastrOS.Pool.BlockContract
open DisastrOS.Library.Outcome
open DisastrOS.MessageQueue.Calls
open DisastrOS.MessageQueue.Classes

/-- The message queue `mq` is in `messageQueues_list`. -/
def Listed (L : HeadAddr → List Node) (mq : Nat) : Prop :=
  ⟨.messageQueue, mq⟩ ∈ L .messageQueuesList

/-- The number of messages linked in the queues of `mq`. -/
def linkedMessages (L : HeadAddr → List Node) (mq : Nat) : Nat :=
  ((L (.queues mq)).map fun x => (L (.messages x.idx)).length).sum

structure Tables (k : Kernel) (L : HeadAddr → List Node) : Prop where
  wired : Wired Everything k L
  bound : Bound .mq k L
  openListed : ∀ p d o, ⟨.mqDescriptor, d⟩ ∈ L (.opened .mq p) →
    (k.descriptor .mq d).object = some o → Listed L o
  id_nonneg : ∀ mq, Listed L mq → 0 ≤ (k.messageQueue mq).id
  id_inj : ∀ mq mq', Listed L mq → Listed L mq' →
    (k.messageQueue mq).id = (k.messageQueue mq').id → mq = mq'
  priority : ∀ mq, Listed L mq →
    0 ≤ (k.messageQueue mq).priority ∧ (k.messageQueue mq).priority ≤ MAX_NUM_QUEUES
  classes : ∀ mq, Listed L mq →
    (classesOf k L mq).Perm (ascending 0 ((k.messageQueue mq).priority + 1).toNat)
  ownQueues : ∀ mq, L (.queues mq) ≠ [] → Allocated k .messageQueue mq
  ownMessages : ∀ q, L (.messages q) ≠ [] →
    ∃ mq, Listed L mq ∧ ⟨.queue, q⟩ ∈ L (.queues mq)
  counted : ∀ mq, Listed L mq → (linkedMessages L mq : Int) ≤ (k.messageQueue mq).numMessages
  texts : ∀ q x, x ∈ L (.messages q) → TextOk k x

variable {k k' : Kernel} {L L' : HeadAddr → List Node} {r mq mq' q m : Nat} {v : Int}

/-- The tables depend on the listed message queues only. -/
theorem tables_frame (h : Tables k L) (hw : Wired Everything k' L)
    (hpool : ∀ i, Allocated k .messageQueue i → Allocated k' .messageQueue i)
    (hmq : ∀ i, Listed L i → k'.messageQueue i = k.messageQueue i) (hq : k'.queue = k.queue)
    (hm : k'.message = k.message) (hd : k'.descriptor = k.descriptor)
    (hp : k'.descriptorPtr = k.descriptorPtr) : Tables k' L := by
  refine ⟨hw, ?_, ?_, ?_, ?_, ?_, ?_, fun i hne => hpool i (h.ownQueues i hne), h.ownMessages,
    ?_, ?_⟩
  · exact bound_congr h.bound (fun _ => rfl) (fun _ _ => Iff.rfl) (fun _ _ _ => by rw [hd])
      fun _ _ _ => by rw [hp]
  · rw [hd]
    exact h.openListed
  · intro i hi
    rw [hmq i hi]
    exact h.id_nonneg i hi
  · intro i j hi hj he
    rw [hmq i hi, hmq j hj] at he
    exact h.id_inj i j hi hj he
  · intro i hi
    rw [hmq i hi]
    exact h.priority i hi
  · intro i hi
    unfold classesOf
    rw [hq, hmq i hi]
    exact h.classes i hi
  · intro i hi
    rw [hmq i hi]
    exact h.counted i hi
  · unfold TextOk
    rw [hm]
    exact h.texts

theorem tables_congr (h : Tables k L) (hlists : k'.lists = k.lists) (hpool : k'.pool = k.pool)
    (hmq : k'.messageQueue = k.messageQueue) (hq : k'.queue = k.queue)
    (hm : k'.message = k.message) (hd : k'.descriptor = k.descriptor)
    (hp : k'.descriptorPtr = k.descriptorPtr) : Tables k' L :=
  tables_frame h (wired_congr h.wired hlists hpool) (fun _ hi => (allocated_congr hpool).mpr hi)
    (fun _ _ => congrFun hmq _) hq hm hd hp

theorem tables_setRetvalue (h : Tables k L) : Tables (k.setRetvalue r v) L :=
  tables_congr h rfl rfl rfl rfl rfl rfl rfl

theorem tables_setCall {num : Int} {args : List Int} (h : Tables k L) :
    Tables (k.setCall r num args) L :=
  tables_congr h rfl rfl rfl rfl rfl rfl rfl

theorem tables_dispatch (h : Tables k L) : Tables { k with running := some r } L :=
  tables_congr h rfl rfl rfl rfl rfl rfl rfl

/-- Every listed message queue has its classes. -/
theorem classTable (h : Tables k L) (hl : Listed L mq) : ClassTable k L mq :=
  ⟨wired_restrict h.wired fun _ _ => trivial, holds (l := .queues mq) h.wired trivial,
    fun x hx => h.wired.kind (.queues mq) x trivial hx, h.priority mq hl, h.classes mq hl,
    fun q x _ hx => h.texts q x hx⟩

/-- A queue belongs to one message queue. -/
theorem queue_owner (h : Tables k L) (hq : ⟨.queue, q⟩ ∈ L (.queues mq))
    (hq' : ⟨.queue, q⟩ ∈ L (.queues mq')) : mq' = mq := by
  have := apart (l := .queues mq') (j := .queues mq) h.wired trivial trivial hq' hq
  cases this
  rfl

/-- The object of an open descriptor is a listed message queue. -/
theorem boundTo_listed (h : Tables k L) {d : Nat} {fd : Int}
    (hb : k.boundTo .mq r fd = .ok (some (d, mq))) : Listed L mq := by
  obtain ⟨hm, _, ho⟩ := boundTo_some h.wired trivial hb
  exact h.openListed r d mq hm ho

/-! ## Linked messages -/

theorem sum_map_update {l : List Node} {x : Node} {f g : Node → Nat} (hn : l.Nodup)
    (hx : x ∈ l) (hfg : ∀ y ∈ l, y ≠ x → g y = f y) :
    (l.map g).sum + f x = (l.map f).sum + g x := by
  have hrest : (l.erase x).map g = (l.erase x).map f := by
    refine List.map_congr_left fun y hy => ?_
    obtain ⟨hne, hy⟩ := hn.mem_erase_iff.mp hy
    exact hfg y hy hne
  have hf := List.sum_map_erase f hx
  have hg := List.sum_map_erase g hx
  rw [hrest] at hg
  omega

/-- Changing one message list changes the count of its owner. -/
theorem linkedMessages_update (h : Tables k L) (hq : ⟨.queue, q⟩ ∈ L (.queues mq))
    (xs : List Node) :
    linkedMessages (Function.update L (.messages q) xs) mq + (L (.messages q)).length =
      linkedMessages L mq + xs.length := by
  unfold linkedMessages
  have hqueues : Function.update L (.messages q) xs (.queues mq) = L (.queues mq) :=
    Function.update_of_ne (by simp) _ _
  rw [hqueues]
  have hsum := sum_map_update (x := ⟨.queue, q⟩)
    (f := fun x => (L (.messages x.idx)).length)
    (g := fun x => (Function.update L (.messages q) xs (.messages x.idx)).length)
    (nodup (l := .queues mq) h.wired trivial) hq fun y hy hne => by
      have hidx : y.idx ≠ q := fun he => hne (by
        rw [node_eq (l := .queues mq) h.wired trivial hy, he]
        rfl)
      simp only [Function.update_of_ne (show HeadAddr.messages y.idx ≠ .messages q by simpa using hidx)]
  simpa using hsum

theorem linkedMessages_update_other (hq : ⟨.queue, q⟩ ∉ L (.queues mq))
    (h : Tables k L) (xs : List Node) :
    linkedMessages (Function.update L (.messages q) xs) mq = linkedMessages L mq := by
  unfold linkedMessages
  have hqueues : Function.update L (.messages q) xs (.queues mq) = L (.queues mq) :=
    Function.update_of_ne (by simp) _ _
  rw [hqueues]
  congr 1
  refine List.map_congr_left fun y hy => ?_
  have hidx : y.idx ≠ q := by
    rintro rfl
    rw [node_eq (l := .queues mq) h.wired trivial hy] at hy
    exact hq hy
  rw [Function.update_of_ne (by simpa using hidx)]

theorem linkedMessages_eq_zero (h : Tables k L) :
    linkedMessages L mq = 0 ↔ ∀ q, ⟨.queue, q⟩ ∈ L (.queues mq) → L (.messages q) = [] := by
  unfold linkedMessages
  rw [List.sum_eq_zero_iff_forall_eq_nat]
  constructor
  · intro hzero q hq
    exact List.length_eq_zero_iff.mp (hzero _ (List.mem_map.mpr ⟨_, hq, rfl⟩))
  · intro hempty n hn
    obtain ⟨x, hx, rfl⟩ := List.mem_map.mp hn
    rw [node_eq (l := .queues mq) h.wired trivial hx] at hx
    exact List.length_eq_zero_iff.mpr (hempty x.idx hx)

/-- Changing one message list, together with the count of its owner. -/
theorem tables_update_messages {n : Int} {xs : List Node} (h : Tables k L) (hl : Listed L mq)
    (hq : ⟨.queue, q⟩ ∈ L (.queues mq))
    (hw : Wired Everything k' (Function.update L (.messages q) xs))
    (hmq : k'.messageQueue = Function.update k.messageQueue mq
      { k.messageQueue mq with numMessages := n })
    (hqueue : k'.queue = k.queue) (hd : k'.descriptor = k.descriptor)
    (hp : k'.descriptorPtr = k.descriptorPtr)
    (hpool : ∀ i, Allocated k .messageQueue i → Allocated k' .messageQueue i)
    (htexts : ∀ j x, x ∈ Function.update L (.messages q) xs (.messages j) → TextOk k' x)
    (hcount : (linkedMessages L mq : Int) + xs.length ≤ n + (L (.messages q)).length) :
    Tables k' (Function.update L (.messages q) xs) := by
  have hL : ∀ l, (∀ j, l ≠ .messages j) → Function.update L (.messages q) xs l = L l :=
    fun l hne => Function.update_of_ne (hne q) _ _
  have hlisted : ∀ i, Listed (Function.update L (.messages q) xs) i ↔ Listed L i := by
    intro i
    unfold Listed
    rw [hL _ (by simp)]
  have hid : ∀ i, (k'.messageQueue i).id = (k.messageQueue i).id ∧
      (k'.messageQueue i).priority = (k.messageQueue i).priority := by
    intro i
    rw [hmq, Function.update_apply]
    split
    · next he => simp [he]
    · simp
  have hclasses : ∀ i, classesOf k' (Function.update L (.messages q) xs) i = classesOf k L i := by
    intro i
    unfold classesOf
    rw [hL _ (by simp), hqueue]
  constructor
  · exact hw
  · refine bound_congr h.bound (fun p => hL _ (by simp)) (fun o ptr => ?_)
      (fun _ _ _ => by rw [hd]) fun _ _ _ => by rw [hp]
    unfold PointerListed
    rw [hL _ (by simp), hL _ (by simp)]
  · intro p d o hm ho
    rw [hL _ (by simp)] at hm
    rw [hd] at ho
    exact (hlisted o).mpr (h.openListed p d o hm ho)
  · intro i hi
    rw [(hid i).1]
    exact h.id_nonneg i ((hlisted i).mp hi)
  · intro i j hi hj he
    rw [(hid i).1, (hid j).1] at he
    exact h.id_inj i j ((hlisted i).mp hi) ((hlisted j).mp hj) he
  · intro i hi
    rw [(hid i).2]
    exact h.priority i ((hlisted i).mp hi)
  · intro i hi
    rw [hclasses, (hid i).2]
    exact h.classes i ((hlisted i).mp hi)
  · intro i hne
    rw [hL _ (by simp)] at hne
    exact hpool i (h.ownQueues i hne)
  · intro j hne
    by_cases hj : j = q
    · subst hj
      exact ⟨mq, (hlisted mq).mpr hl, by rwa [hL _ (by simp)]⟩
    · rw [Function.update_of_ne (by simpa using hj)] at hne
      obtain ⟨i, hi, hm⟩ := h.ownMessages j hne
      exact ⟨i, (hlisted i).mpr hi, by rwa [hL _ (by simp)]⟩
  · intro i hi
    by_cases he : i = mq
    · subst he
      rw [hmq, Function.update_self]
      have := linkedMessages_update h hq xs
      change _ ≤ n
      omega
    · have hout : ⟨.queue, q⟩ ∉ L (.queues i) := fun hm => he (queue_owner h hq hm)
      rw [hmq, Function.update_of_ne he, linkedMessages_update_other hout h]
      exact h.counted i ((hlisted i).mp hi)
  · exact htexts

/-! ## Writing -/

/-- What an accepted write does to the tables. -/
theorem wrote_tables (h : Tables k L) (hw : Wrote k r mq q m k') :
    Listed L mq ∧ ⟨.queue, q⟩ ∈ L (.queues mq) ∧
      (k.queue q).priority =
        effectivePriority (toInt (k.arg r 3)) (k.messageQueue mq).priority ∧
      ¬ Allocated k .message m ∧
      (k'.pool .message).size = (k.pool .message).size - 1 ∧
      (∀ kind i, Allocated k' kind i ↔ (kind = .message ∧ i = m) ∨ Allocated k kind i) ∧
      Tables k' (Function.update L (.messages q) (L (.messages q) ++ [⟨.message, m⟩])) := by
  obtain ⟨d, hb⟩ := hw.open_
  have hl := boundTo_listed h hb
  obtain ⟨hq, hprio⟩ := queueListByPriority_some (classTable h hl) hw.queue
  obtain ⟨k₁, hnew, rfl⟩ := hw.eq
  have hf := newItem_fresh h.wired.pooled hnew
  have hw₁ := wired_newItem h.wired hf
  generalize hk₂ : ({ k₁ with
    message := Function.update k₁.message m ⟨toInt (k.arg r 2), k.arg r 1⟩ } : Kernel) = k₂
  have hw₂ : Wired Everything k₂ L := wired_congr hw₁ (by rw [← hk₂]) (by rw [← hk₂])
  have hall₂ : ∀ kind i, Allocated k₂ kind i ↔ (kind = .message ∧ i = m) ∨ Allocated k kind i :=
    fun kind i => (allocated_congr (by rw [← hk₂])).trans (hf.allocated kind i)
  have hw₃ := wired_append (l := .messages q) (x := ⟨.message, m⟩) hw₂ trivial rfl
    ((hall₂ _ _).mpr (.inl ⟨rfl, rfl⟩)) fun l hl => fresh_unlisted h.wired hf.fresh hl
  refine ⟨hl, hq, hprio, hf.fresh, ?_, hall₂, ?_⟩
  · rw [← hk₂]
    exact hf.size
  · have hrest : k₂.messageQueue = k.messageQueue ∧ k₂.queue = k.queue ∧
        k₂.descriptor = k.descriptor ∧ k₂.descriptorPtr = k.descriptorPtr := by
      rw [← hk₂, hf.eq]
      exact ⟨rfl, rfl, rfl, rfl⟩
    refine tables_update_messages (n := (k.messageQueue mq).numMessages + 1) h hl hq
      (wired_congr hw₃ rfl rfl) ?_ hrest.2.1 hrest.2.2.1 hrest.2.2.2 (fun i hi => ?_)
      (fun j x hx => ?_) ?_
    · rw [← hrest.1]
      rfl
    · exact (hall₂ _ _).mpr (.inr hi)
    · have hmsg : k₂.message =
          Function.update k.message m ⟨toInt (k.arg r 2), k.arg r 1⟩ := by
        rw [← hk₂, hf.eq]
      change TextOk k₂ x
      unfold TextOk
      rw [hmsg]
      rcases mem_append_update.mp hx with hold | ⟨_, rfl⟩
      · have hne : x.idx ≠ m := by
          rintro rfl
          rw [node_eq (l := .messages j) h.wired trivial hold] at hold
          exact fresh_unlisted (l := .messages j) h.wired hf.fresh trivial hold
        rw [Function.update_of_ne hne]
        exact h.texts j x hold
      · rw [Function.update_self]
        exact ⟨hw.size.1, hw.size.2, hw.buffer⟩
    · have := h.counted mq hl
      simp only [List.length_append, List.length_singleton]
      push_cast
      omega

/-! ## Reading -/

theorem mem_of_mem_rest {l l' : HeadAddr} {x y : Node} {rest : List Node} (hL : L l = x :: rest)
    (hy : y ∈ Function.update L l rest l') : y ∈ L l' := by
  by_cases he : l' = l
  · subst he
    rw [Function.update_self] at hy
    rw [hL]
    exact List.mem_cons_of_mem _ hy
  · rwa [Function.update_of_ne he] at hy

/-- Taking the first message of a queue without counting it. -/
theorem tables_drop {rest : List Node} (h : Tables k L) (hl : Listed L mq)
    (hq : ⟨.queue, q⟩ ∈ L (.queues mq)) (hL : L (.messages q) = ⟨.message, m⟩ :: rest) :
    Tables (k.detach (.messages q) ⟨.message, m⟩) (Function.update L (.messages q) rest) := by
  have hw := wired_detach (l := .messages q) (x := ⟨.message, m⟩) h.wired trivial
    (by rw [hL]; exact List.mem_cons_self)
  rw [hL, List.erase_cons_head] at hw
  refine tables_update_messages (n := (k.messageQueue mq).numMessages) h hl hq hw ?_ rfl rfl rfl
    (fun _ hi => hi) (fun j x hx => h.texts j x (mem_of_mem_rest hL hx)) ?_
  · exact (Function.update_eq_self mq k.messageQueue).symm
  · have := h.counted mq hl
    rw [hL, List.length_cons]
    push_cast
    omega

/-- Taking the first message of a queue, counting it and freeing its block. -/
theorem tables_take {rest : List Node} (h : Tables k L) (hl : Listed L mq)
    (hq : ⟨.queue, q⟩ ∈ L (.queues mq)) (hL : L (.messages q) = ⟨.message, m⟩ :: rest)
    (hlists : k'.lists = (k.detach (.messages q) ⟨.message, m⟩).lists)
    (hpool : k'.pool = (k.releaseBlock .message m).pool)
    (hmq : k'.messageQueue = Function.update k.messageQueue mq
      { k.messageQueue mq with numMessages := (k.messageQueue mq).numMessages - 1 })
    (hqueue : k'.queue = k.queue) (hmsg : k'.message = k.message)
    (hd : k'.descriptor = k.descriptor) (hp : k'.descriptorPtr = k.descriptorPtr) :
    Tables k' (Function.update L (.messages q) rest) := by
  have hm : ⟨.message, m⟩ ∈ L (.messages q) := by
    rw [hL]
    exact List.mem_cons_self
  have hw := wired_detach (l := .messages q) (x := ⟨.message, m⟩) h.wired trivial hm
  have ha : Allocated k .message m := allocated_of_mem (l := .messages q) h.wired trivial hm
  have hrel := releaseBlock_returned _ _ h.wired.pooled ha
  have hw' := wired_releaseBlock .message m hw ha fun _ _ =>
    h.wired.threaded.not_mem_erased trivial hm trivial
  rw [hL, List.erase_cons_head] at hw'
  refine tables_update_messages h hl hq (wired_congr hw' hlists hpool) hmq hqueue hd hp
    (fun i hi => ?_) (fun j x hx => ?_) ?_
  · refine (allocated_congr hpool).mpr ((hrel.allocated _ _).mpr ⟨fun he => ?_, hi⟩)
    cases he.1
  · unfold TextOk
    rw [hmsg]
    exact h.texts j x (mem_of_mem_rest hL hx)
  · have := h.counted mq hl
    rw [hL, List.length_cons]
    push_cast
    omega

/-- The read loop keeps the tables, whatever it detaches on the way. -/
theorem readClasses_tables {buf bufSize priority : Int} {i : Int} {n : Nat} (h : Tables k L)
    (hl : Listed L mq) (hr : readClasses r mq buf bufSize priority i n k = .ok k') :
    ∃ L', Tables k' L' := by
  induction n generalizing i k L with
  | zero =>
    cases hr
    exact ⟨L, tables_setRetvalue h⟩
  | succ n ih =>
    rw [readClasses] at hr
    obtain ⟨found, hq, hr⟩ := bind_eq_ok.mp hr
    cases found with
    | none =>
      cases hr
      exact ⟨L, tables_setRetvalue h⟩
    | some q =>
      simp only at hr
      have hqm := (queueListByPriority_some (classTable h hl) hq).1
      split at hr
      · obtain ⟨⟨m, k₁⟩, hd, hr⟩ := bind_eq_ok.mp hr
        obtain ⟨rest, hL, rfl, _⟩ := detachFirst_ok (l := .messages q) h.wired trivial hd
        simp only at hr
        split at hr
        · have hdel := deliver_iff.mp hr
          exact ⟨_, tables_take h hl hqm hL hdel.lists hdel.pool hdel.messageQueue
            (by rw [hdel.rest]; rfl) (by rw [hdel.rest]; rfl) (by rw [hdel.rest]; rfl)
            (by rw [hdel.rest]; rfl)⟩
        · refine ih (tables_drop h hl hqm hL) ?_ hr
          unfold Listed
          rwa [Function.update_of_ne (by simp)]
      · exact ih h hl hr

end DisastrOS.MessageQueue.TableInvariant
