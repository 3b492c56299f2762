import DisastrOS.Lists.Wiring
import DisastrOS.MessageQueue.Calls

/-!
# The queues of one message queue

`ClassTable` is what `mqWrite` and `mqRead` rely on for one message queue: a queue for
each priority class, in any order, and message lists that are well formed. It says
nothing about the other lists of the kernel.
-/
namespace DisastrOS.MessageQueue.Classes

open DisastrOS.Machine
open DisastrOS.Machine.Kernel
open DisastrOS.Lists.Sequences
open DisastrOS.Lists.Wiring
open DisastrOS.Pool.Blocks
open DisastrOS.Pool.BlockContract
open DisastrOS.MessageQueue.Calls

/-- The priority classes of the queues of `mq`, in list order. -/
def classesOf (k : Kernel) (L : HeadAddr → List Node) (mq : Nat) : List Int :=
  (L (.queues mq)).map fun x => (k.queue x.idx).priority

/-- The text of a message is readable and not too long. -/
def TextOk (k : Kernel) (x : Node) : Prop :=
  0 ≤ (k.message x.idx).textLength ∧ (k.message x.idx).textLength ≤ MAX_MESSAGE_LENGTH ∧
    (k.message x.idx).text ≠ 0

/-- The kinds of the objects that hang on a message queue, its queues apart. -/
abbrev MqParts : Kind → Prop := fun kind =>
  kind = .message ∨ kind = .mqDescriptor ∨ kind = .mqDescriptorPtr

theorem message_part : MqParts .message := .inl rfl

theorem queue_no_part : ¬ MqParts .queue := by decide

structure ClassTable (k : Kernel) (L : HeadAddr → List Node) (mq : Nat) : Prop where
  wired : Wired MqParts k L
  queues : Holds k.lists (.queues mq) (L (.queues mq))
  kind : ∀ x ∈ L (.queues mq), x.kind = .queue
  priority : 0 ≤ (k.messageQueue mq).priority ∧
    (k.messageQueue mq).priority ≤ MAX_NUM_QUEUES
  classes : (classesOf k L mq).Perm (ascending 0 ((k.messageQueue mq).priority + 1).toNat)
  texts : ∀ q x, ⟨.queue, q⟩ ∈ L (.queues mq) → x ∈ L (.messages q) → TextOk k x

variable {k k' : Kernel} {L : HeadAddr → List Node} {r mq q m : Nat}

theorem classTable_congr (h : ClassTable k L mq) (hlists : k'.lists = k.lists)
    (hpool : k'.pool = k.pool)
    (hmq : (k'.messageQueue mq).priority = (k.messageQueue mq).priority)
    (hq : k'.queue = k.queue) (hm : k'.message = k.message) : ClassTable k' L mq := by
  refine ⟨wired_congr h.wired hlists hpool, ?_, h.kind, ?_, ?_, ?_⟩
  · rw [hlists]
    exact h.queues
  · rw [hmq]
    exact h.priority
  · unfold classesOf
    rw [hq, hmq]
    exact h.classes
  · unfold TextOk
    rw [hm]
    exact h.texts

theorem classTable_setCall (r : Nat) (num : Int) (args : List Int) (h : ClassTable k L mq) :
    ClassTable (k.setCall r num args) L mq :=
  classTable_congr h rfl rfl rfl rfl rfl

/-! ## Classes -/

theorem queue_node (h : ClassTable k L mq) {x : Node} (hx : x ∈ L (.queues mq)) :
    x = ⟨.queue, x.idx⟩ := by
  have hk := h.kind x hx
  cases x
  subst hk
  rfl

theorem queues_apart (h : ClassTable k L mq) : ∀ x ∈ L (.queues mq), ¬ MqParts x.kind := by
  intro x hx
  rw [h.kind x hx]
  exact queue_no_part

theorem classes_nodup (h : ClassTable k L mq) : (classesOf k L mq).Nodup :=
  h.classes.nodup_iff.mpr (nodup_ascending 0 _)

theorem class_of_queue (h : ClassTable k L mq) (hq : ⟨.queue, q⟩ ∈ L (.queues mq)) :
    0 ≤ (k.queue q).priority ∧ (k.queue q).priority ≤ (k.messageQueue mq).priority := by
  have hm : (k.queue q).priority ∈ classesOf k L mq := List.mem_map.mpr ⟨_, hq, rfl⟩
  rw [h.classes.mem_iff, mem_ascending] at hm
  have := h.priority.1
  omega

/-- Two queues of one message queue have different classes. -/
theorem queue_unique (h : ClassTable k L mq) {q' : Nat} (hq : ⟨.queue, q⟩ ∈ L (.queues mq))
    (hq' : ⟨.queue, q'⟩ ∈ L (.queues mq)) (he : (k.queue q').priority = (k.queue q).priority) :
    q' = q := by
  have hinj := List.inj_on_of_nodup_map (classes_nodup h) hq' hq he
  exact congrArg Node.idx hinj

theorem queues_length (h : ClassTable k L mq) :
    (L (.queues mq)).length = ((k.messageQueue mq).priority + 1).toNat := by
  have hlen := h.classes.length_eq
  rwa [length_ascending, classesOf, List.length_map] at hlen

/-- The lookup by priority is a search through the queues. -/
theorem queueListByPriority_eq (h : ClassTable k L mq) (c : Int) :
    k.queueListByPriority (.queues mq) c =
      .ok (((L (.queues mq)).map Node.idx).find? fun q => (k.queue q).priority = c) := by
  have hlen : (L (.queues mq)).length ≤ 1024 := by
    have hp := h.priority.2
    rw [queues_length h]
    unfold MAX_NUM_QUEUES at hp
    omega
  refine (search_holds (l := .queues mq) h.queues h.kind hlen _).trans ?_
  exact List.findM?_pure _ _

theorem queueListByPriority_some (h : ClassTable k L mq) {c : Int}
    (hs : k.queueListByPriority (.queues mq) c = .ok (some q)) :
    ⟨.queue, q⟩ ∈ L (.queues mq) ∧ (k.queue q).priority = c := by
  rw [queueListByPriority_eq h, Except.ok.injEq] at hs
  obtain ⟨x, hx, rfl⟩ := List.mem_map.mp (List.mem_of_find?_eq_some hs)
  rw [queue_node h hx] at hx
  exact ⟨hx, by simpa using List.find?_some hs⟩

/-- Each class has its queue, and the lookup by priority finds it. -/
theorem class_queue (h : ClassTable k L mq) {c : Int} (h0 : 0 ≤ c)
    (hle : c ≤ (k.messageQueue mq).priority) :
    ∃ q, ⟨.queue, q⟩ ∈ L (.queues mq) ∧ (k.queue q).priority = c ∧
      k.queueListByPriority (.queues mq) c = .ok (some q) := by
  have hm : c ∈ classesOf k L mq := by
    rw [h.classes.mem_iff, mem_ascending]
    omega
  obtain ⟨x, hx, hc⟩ := List.mem_map.mp hm
  cases hs : ((L (.queues mq)).map Node.idx).find? fun q => (k.queue q).priority = c with
  | none =>
    have hno := List.find?_eq_none.mp hs x.idx (List.mem_map.mpr ⟨x, hx, rfl⟩)
    exact absurd hc (by simpa using hno)
  | some q =>
    have hfind : k.queueListByPriority (.queues mq) c = .ok (some q) := by
      rw [queueListByPriority_eq h, hs]
    obtain ⟨hq, hp⟩ := queueListByPriority_some h hfind
    exact ⟨q, hq, hp, hfind⟩

/-! ## Changing one message list -/

/-- Other lists of descriptors. -/
theorem classTable_rewire {L' : HeadAddr → List Node} (h : ClassTable k L mq)
    (hw : Wired MqParts k' L') (hL : L' (.queues mq) = L (.queues mq))
    (hmessages : ∀ q, L' (.messages q) = L (.messages q))
    (hqueues : Holds k'.lists (.queues mq) (L (.queues mq)))
    (hmq : (k'.messageQueue mq).priority = (k.messageQueue mq).priority)
    (hq : k'.queue = k.queue) (hm : k'.message = k.message) : ClassTable k' L' mq := by
  refine ⟨hw, ?_, ?_, ?_, ?_, ?_⟩
  · rw [hL]
    exact hqueues
  · rw [hL]
    exact h.kind
  · rw [hmq]
    exact h.priority
  · unfold classesOf
    rw [hL, hq, hmq]
    exact h.classes
  · unfold TextOk
    simp only [hL, hmessages, hm]
    exact h.texts

/-- Another sequence in one message list. -/
theorem classTable_update {xs : List Node} (h : ClassTable k L mq)
    (hw : Wired MqParts k' (Function.update L (.messages q) xs))
    (hqueues : Holds k'.lists (.queues mq) (L (.queues mq)))
    (hmq : (k'.messageQueue mq).priority = (k.messageQueue mq).priority)
    (hq : k'.queue = k.queue)
    (htexts : ∀ j x, ⟨.queue, j⟩ ∈ L (.queues mq) →
      x ∈ Function.update L (.messages q) xs (.messages j) → TextOk k' x) :
    ClassTable k' (Function.update L (.messages q) xs) mq := by
  have hL : Function.update L (.messages q) xs (.queues mq) = L (.queues mq) :=
    Function.update_of_ne (by simp) _ _
  refine ⟨hw, ?_, ?_, ?_, ?_, ?_⟩
  · rw [hL]
    exact hqueues
  · rw [hL]
    exact h.kind
  · rw [hmq]
    exact h.priority
  · unfold classesOf
    rw [hL, hq, hmq]
    exact h.classes
  · rw [hL]
    exact htexts

theorem wrote_messageQueue (hp : Pooled k) (hw : Wrote k r mq q m k') :
    k'.messageQueue = Function.update k.messageQueue mq
      { k.messageQueue mq with numMessages := (k.messageQueue mq).numMessages + 1 } := by
  obtain ⟨k₁, hnew, rfl⟩ := hw.eq
  have hmq : k₁.messageQueue = k.messageQueue := by rw [(newItem_fresh hp hnew).eq]
  change Function.update k₁.messageQueue mq _ = _
  rw [hmq]
  rfl

/-- What an accepted write does to the queues of the message queue. -/
theorem wrote_classTable (h : ClassTable k L mq) (hw : Wrote k r mq q m k') :
    ⟨.queue, q⟩ ∈ L (.queues mq) ∧
      (k.queue q).priority =
        effectivePriority (toInt (k.arg r 3)) (k.messageQueue mq).priority ∧
      ¬ Allocated k .message m ∧ (k.pool .message).firstIdx = m ∧ Confined MqParts k k' ∧
      ClassTable k' (Function.update L (.messages q) (L (.messages q) ++ [⟨.message, m⟩])) mq := by
  obtain ⟨hq, hprio⟩ := queueListByPriority_some h hw.queue
  obtain ⟨k₁, hnew, rfl⟩ := hw.eq
  have hf := newItem_fresh h.wired.pooled hnew
  generalize hk₂ : ({ k₁ with
    message := Function.update k₁.message m ⟨toInt (k.arg r 2), k.arg r 1⟩ } : Kernel) = k₂
  have hlists : k₂.lists = k₁.lists := by rw [← hk₂]
  have hrest : k₂.messageQueue = k.messageQueue ∧ k₂.queue = k.queue ∧
      k₂.message = Function.update k.message m ⟨toInt (k.arg r 2), k.arg r 1⟩ := by
    rw [← hk₂, hf.eq]
    exact ⟨rfl, rfl, rfl⟩
  have hw₂ : Wired MqParts k₂ L :=
    wired_congr (wired_newItem h.wired hf) hlists (by rw [← hk₂])
  have ha₂ : Allocated k₂ .message m :=
    (allocated_congr (by rw [← hk₂])).mpr ((hf.allocated _ _).mpr (.inl ⟨rfl, rfl⟩))
  have hout : ∀ l : HeadAddr, MqParts l.nodeKind → ⟨.message, m⟩ ∉ L l :=
    fun l hl => fresh_unlisted h.wired hf.fresh hl
  have hw₃ := wired_append (l := .messages q) (x := ⟨.message, m⟩) hw₂ message_part rfl ha₂ hout
  have hconf := confined_trans
    (confined_trans (confined_newItem message_part hf) (confined_of_lists hlists))
    (confined_append (l := .messages q) (x := ⟨.message, m⟩) hw₂ message_part rfl ha₂ hout)
  have hholds := holds_confined (l := .queues mq) hconf queue_no_part (queues_apart h) h.queues
  refine ⟨hq, hprio, hf.fresh, hf.first, ⟨hconf.item, hconf.head⟩,
    classTable_update h (wired_congr hw₃ rfl rfl) hholds ?_ hrest.2.1 fun j x hj hx => ?_⟩
  · have hmq : k₂.messageQueue mq = k.messageQueue mq := congrFun hrest.1 mq
    change (Function.update k₂.messageQueue mq _ mq).priority = _
    rw [Function.update_self]
    change (k₂.messageQueue mq).priority = _
    rw [hmq]
  · change TextOk k₂ x
    unfold TextOk
    rw [hrest.2.2]
    rcases mem_append_update.mp hx with hold | ⟨_, rfl⟩
    · have hne : x.idx ≠ m := by
        rintro rfl
        rw [node_eq (l := .messages j) h.wired message_part hold] at hold
        exact hout (.messages j) message_part hold
      rw [Function.update_of_ne hne]
      exact h.texts j x hj hold
    · rw [Function.update_self]
      exact ⟨hw.size.1, hw.size.2, hw.buffer⟩

end DisastrOS.MessageQueue.Classes
