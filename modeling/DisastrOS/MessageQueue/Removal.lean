import DisastrOS.MessageQueue.Draining
import Mathlib.Data.List.Find

/-!
# Removing a message queue

`mqUnlink` on a list of message queues in good order, of which nothing else is known:
no assumption is made about the other lists of the kernel.
-/
namespace DisastrOS.MessageQueue.Removal

open DisastrOS.Machine
open DisastrOS.Machine.Kernel
open DisastrOS.Machine.Runs
open DisastrOS.Lists.Sequences
open DisastrOS.Lists.Wiring
open DisastrOS.Pool.Blocks
open DisastrOS.Pool.BlockContract
open DisastrOS.Library.GuardedRun
open DisastrOS.Library.LinkedSequence
open DisastrOS.Library.Outcome
open DisastrOS.MessageQueue.Calls
open DisastrOS.MessageQueue.Classes
open DisastrOS.MessageQueue.Draining
open DisastrOS.MessageQueue.Representation
open DisastrOS.MessageQueue.TableInvariant

/-- The lists that make up the listed message queues. -/
def OfMessageQueues (L : HeadAddr → List Node) : HeadAddr → Prop
  | .messageQueuesList => True
  | .queues mq => Listed L mq
  | .users .mq mq => Listed L mq
  | .messages q => ∃ mq, Listed L mq ∧ ⟨.queue, q⟩ ∈ L (.queues mq)
  | _ => False

/-- The message queues are in good order. -/
structure Orderly (k : Kernel) (L : HeadAddr → List Node) : Prop where
  threaded : Threaded (OfMessageQueues L) k.lists L
  listed : ∀ x ∈ L .messageQueuesList, x.kind = .messageQueue ∧ Allocated k .messageQueue x.idx
  queues : ∀ mq, Listed L mq →
    ∀ x ∈ L (.queues mq), x.kind = .queue ∧ Allocated k .queue x.idx
  ids : ∀ mq mq', Listed L mq → Listed L mq' →
    (k.messageQueue mq).id = (k.messageQueue mq').id → mq = mq'
  classes : ∀ mq, Listed L mq →
    (classesOf k L mq).Perm (ascending 0 ((k.messageQueue mq).priority + 1).toNat)
  counted : ∀ mq, Listed L mq → (k.messageQueue mq).numMessages = linkedMessages L mq
  pooled : Pooled k

/-- The message queue with the given id is there, holds no messages and has no open
descriptors. -/
def Deletable (k : Kernel) (L : HeadAddr → List Node) (id : Int) (mq : Nat) : Prop :=
  Listed L mq ∧ (k.messageQueue mq).id = id ∧
    (∀ x ∈ L (.queues mq), L (.messages x.idx) = []) ∧ L (.users .mq mq) = []

/-- The sequences without the message queue `mq`. -/
def without (L : HeadAddr → List Node) (mq : Nat) : HeadAddr → List Node :=
  Function.update (Function.update L .messageQueuesList
    ((L .messageQueuesList).erase ⟨.messageQueue, mq⟩)) (.queues mq) []

/-- The call by `r` with the arguments `args` has removed `mq` and done nothing else. -/
structure Removed (k : Kernel) (L : HeadAddr → List Node) (r mq : Nat) (args : List Int)
    (k' : Kernel) : Prop where
  notFound : k'.messageQueueListById .messageQueuesList (k.messageQueue mq).id = .ok none
  inOrder : Orderly k' (without L mq)
  queues : ∀ i, Allocated k' .queue i ↔ Allocated k .queue i ∧ ⟨.queue, i⟩ ∉ L (.queues mq)
  queuePool : (k'.pool .queue).size =
    (k.pool .queue).size + ((k.messageQueue mq).priority + 1).toNat
  messageQueues : ∀ i, Allocated k' .messageQueue i ↔ Allocated k .messageQueue i ∧ i ≠ mq
  messageQueuePool : (k'.pool .messageQueue).size = (k.pool .messageQueue).size + 1
  pools : ∀ kind, kind ≠ .queue → kind ≠ .messageQueue → k'.pool kind = k.pool kind
  heads : ∀ l, l ≠ .messageQueuesList → l ≠ .queues mq → k'.head l = k.head l
  items : ∀ x, x ∉ L .messageQueuesList → x ∉ L (.queues mq) →
    k'.lists.item x = k.lists.item x
  rest : k' = { k with
    lists := k'.lists
    pool := k'.pool
    pcb := ((k.setCall r DSOS_CALL_MQUNLINK args).setRetvalue r 0).pcb }

/-- What a call of `mqUnlink` owes. -/
def UnlinkExact (k : Kernel) (L : HeadAddr → List Node) (r : Nat) (args : List Int) : Prop :=
  ∃ k', k.act (.syscall DSOS_CALL_MQUNLINK args) = .ok k' ∧
    ((k'.pcb r).syscallRetvalue = 0 ↔ ∃ mq, Deletable k L (toInt (args.getD 0 0)) mq) ∧
    (∀ mq, Deletable k L (toInt (args.getD 0 0)) mq → Removed k L r mq args k') ∧
    ((k'.pcb r).syscallRetvalue ≠ 0 → (k'.pcb r).syscallRetvalue < 0 ∧
      k' = (k.setCall r DSOS_CALL_MQUNLINK args).setRetvalue r (k'.pcb r).syscallRetvalue)

variable {k k' : Kernel} {L : HeadAddr → List Node} {r mq mq' q n : Nat} {args : List Int}

/-! ## Looking up -/

theorem length_listed (h : Orderly k L) : (L .messageQueuesList).length ≤ 1024 :=
  length_le_of_live h.pooled (h.threaded.nodup .messageQueuesList trivial) h.listed

theorem listed_node (h : Orderly k L) {x : Node} (hx : x ∈ L .messageQueuesList) :
    x = ⟨.messageQueue, x.idx⟩ := by
  have hk := (h.listed x hx).1
  cases x
  cases hk
  rfl

theorem queue_node (h : Orderly k L) (hl : Listed L mq) {x : Node} (hx : x ∈ L (.queues mq)) :
    x = ⟨.queue, x.idx⟩ := by
  have hk := (h.queues mq hl x hx).1
  cases x
  cases hk
  rfl

/-- The lookup by id is a search through the list. -/
theorem byId_eq (h : Orderly k L) (id : Int) :
    k.messageQueueListById .messageQueuesList id =
      .ok ((L .messageQueuesList).find? fun x => (k.messageQueue x.idx).id = id) := by
  have hholds := h.threaded.holds .messageQueuesList trivial
  have hlen := length_listed h
  unfold messageQueueListById
  rw [show (k.head .messageQueuesList).first = _ from hholds.first,
    findById_eq hholds.links (fun x hx => .inl (h.listed x hx).1) (by unfold LOOP_BOUND; omega)]
  refine congrArg _ (List.find?_congr fun x hx => ?_)
  have hint : k.intAtId x = .ok (k.messageQueue x.idx).id := by
    unfold intAtId
    rw [(h.listed x hx).1]
  simp only [hint, Except.ok.injEq]

theorem byId_some (h : Orderly k L) {id : Int} {x : Node}
    (hs : k.messageQueueListById .messageQueuesList id = .ok (some x)) :
    ∃ mq, x = ⟨.messageQueue, mq⟩ ∧ Listed L mq ∧ (k.messageQueue mq).id = id := by
  rw [byId_eq h, Except.ok.injEq] at hs
  have hx := List.mem_of_find?_eq_some hs
  have hid := List.find?_some hs
  rw [listed_node h hx] at hx
  exact ⟨x.idx, (listed_node h (List.mem_of_find?_eq_some hs)), hx, by simpa using hid⟩

theorem byId_none (h : Orderly k L) {id : Int} :
    k.messageQueueListById .messageQueuesList id = .ok none ↔
      ∀ mq, Listed L mq → (k.messageQueue mq).id ≠ id := by
  rw [byId_eq h, Except.ok.injEq, List.find?_eq_none]
  constructor
  · intro hall mq hl
    simpa using hall _ hl
  · intro hall x hx
    rw [listed_node h hx] at hx
    simpa using hall x.idx hx

theorem byId_found (h : Orderly k L) {id : Int} (hl : Listed L mq)
    (hid : (k.messageQueue mq).id = id) :
    k.messageQueueListById .messageQueuesList id = .ok (some ⟨.messageQueue, mq⟩) := by
  cases hs : k.messageQueueListById .messageQueuesList id with
  | error e =>
    rw [byId_eq h] at hs
    cases hs
  | ok found =>
    cases found with
    | none => exact absurd hid ((byId_none h).mp hs mq hl)
    | some x =>
      obtain ⟨i, rfl, hi, he⟩ := byId_some h hs
      rw [h.ids i mq hi hl (he.trans hid.symm)]

/-! ## The loop -/

/-- The loop of `mqUnlink` has taken all queues off `mq` and freed them. -/
structure Dismantled (S : HeadAddr → Prop) (k : Kernel) (L : HeadAddr → List Node) (mq : Nat)
    (k' : Kernel) : Prop where
  threaded : Threaded S k'.lists (Function.update L (.queues mq) [])
  pooled : Pooled k'
  queues : ∀ i, Allocated k' .queue i ↔ Allocated k .queue i ∧ ⟨.queue, i⟩ ∉ L (.queues mq)
  size : (k'.pool .queue).size = (k.pool .queue).size + (L (.queues mq)).length
  pools : ∀ kind, kind ≠ .queue → k'.pool kind = k.pool kind
  heads : ∀ l, l ≠ .queues mq → k'.head l = k.head l
  items : ∀ x, x ∉ L (.queues mq) → k'.lists.item x = k.lists.item x
  rest : k' = { k with lists := k'.lists, pool := k'.pool }

theorem removeQueues_dismantled {S : HeadAddr → Prop} (h : Threaded S k.lists L)
    (hS : S (.queues mq)) (hp : Pooled k)
    (hq : ∀ x ∈ L (.queues mq), x.kind = .queue ∧ Allocated k .queue x.idx ∧
      Holds k.lists (.messages x.idx) []) (hn : (L (.queues mq)).length = n) :
    ∃ k', removeQueues mq n k = .ok k' ∧ Dismantled S k L mq k' := by
  induction n generalizing k L with
  | zero =>
    have hnil : L (.queues mq) = [] := List.length_eq_zero_iff.mp hn
    refine ⟨k, rfl, ⟨?_, hp, fun i => ?_, ?_, fun _ _ => rfl, fun _ _ => rfl, fun _ _ => rfl,
      rfl⟩⟩
    · rwa [← hnil, Function.update_eq_self]
    · rw [hnil]
      simp
    · rw [hnil]
      simp
  | succ n ih =>
    cases hL : L (.queues mq) with
    | nil =>
      rw [hL] at hn
      cases hn
    | cons x rest =>
      have hx : x ∈ L (.queues mq) := by
        rw [hL]
        exact List.mem_cons_self
      obtain ⟨hkind, ha, hmsg⟩ := hq x hx
      have hnode : x = ⟨.queue, x.idx⟩ := by
        cases x
        cases hkind
        rfl
      have hnodup := h.nodup _ hS
      rw [hL] at hnodup
      have hout : x ∉ rest := (List.nodup_cons.mp hnodup).1
      -- one iteration: the first queue is detached and its block returned
      have hdet : k.detachFirst (.queues mq) = .ok (x.idx, k.detach (.queues mq) x) := by
        have hfirst : (k.head (.queues mq)).first = some x := by
          have hf := (h.holds _ hS).first
          rwa [hL] at hf
        unfold detachFirst
        rw [hfirst]
        simp [deref, castTo, bind, Except.bind, pure, Except.pure, hkind, HeadAddr.nodeKind]
      have hhead : (k.detach (.queues mq) x).head (.messages x.idx) =
          k.head (.messages x.idx) := detach_head _ _ (by simp)
      have hempty : (k.head (.messages x.idx)).first = none ∧
          (k.head (.messages x.idx)).last = none ∧ (k.head (.messages x.idx)).size = 0 :=
        ⟨hmsg.first, hmsg.last, hmsg.size⟩
      have hfree : (k.detach (.queues mq) x).queueFree x.idx =
          .ok ((k.detach (.queues mq) x).releaseBlock .queue x.idx) := by
        unfold queueFree freeUnused
        rw [hhead, if_pos ⟨hempty.1, hempty.2.1⟩]
      have hrel := releaseBlock_returned (k := k.detach (.queues mq) x) .queue x.idx
        (pooled_congr rfl hp) ha
      have ht := threaded_detach h hS hx
      rw [hL, List.erase_cons_head] at ht
      obtain ⟨k', hrun, hd⟩ := ih (k := (k.detach (.queues mq) x).releaseBlock .queue x.idx)
        (L := Function.update L (.queues mq) rest) ht hrel.pooled
        (fun y hy => by
          rw [Function.update_self] at hy
          obtain ⟨hk', ha', hm'⟩ := hq y (by rw [hL]; exact List.mem_cons_of_mem _ hy)
          refine ⟨hk', (hrel.allocated _ _).mpr ⟨fun he => hout ?_, ha'⟩, ?_⟩
          · have hnode' : y = x := by
              rw [hnode, ← he.2]
              cases y
              cases hk'
              rfl
            rwa [hnode'] at hy
          · have hsame : (k.detach (.queues mq) x).head (.messages y.idx) =
                k.head (.messages y.idx) := detach_head _ _ (by simp)
            exact holds_frame hm' hsame fun z hz => absurd hz List.not_mem_nil)
        (by
          rw [hL, List.length_cons] at hn
          rw [Function.update_self]
          omega)
      have hself : ∀ i, (⟨.queue, i⟩ : Node) = x ↔ i = x.idx := by
        intro i
        rw [hnode]
        simp
      refine ⟨k', ?_, ⟨?_, hd.pooled, fun i => ?_, ?_, fun kind hne => ?_, fun l hne => ?_,
        fun y hy => ?_, hd.rest⟩⟩
      · rw [removeQueues, hdet]
        simp only [bind, Except.bind, hhead, hempty.2.2, if_true, hfree]
        exact hrun
      · have ht' := hd.threaded
        rwa [Function.update_idem] at ht'
      · have ha' : Allocated ((k.detach (.queues mq) x).releaseBlock .queue x.idx) .queue i ↔
            ¬ (Kind.queue = .queue ∧ i = x.idx) ∧ Allocated k .queue i := hrel.allocated .queue i
        rw [hd.queues, ha', Function.update_self, hL, List.mem_cons, hself]
        tauto
      · have hs : (((k.detach (.queues mq) x).releaseBlock .queue x.idx).pool .queue).size =
            (k.pool .queue).size + 1 := hrel.size
        rw [hd.size, hs, Function.update_self, hL, List.length_cons]
        push_cast
        omega
      · exact (hd.pools kind hne).trans (releaseBlock_pool _ _ hne)
      · exact (hd.heads l hne).trans (detach_head _ _ hne)
      · have hrest : y ∉ Function.update L (.queues mq) rest (.queues mq) := by
          rw [Function.update_self]
          exact fun hm => hy (by rw [hL]; exact List.mem_cons_of_mem _ hm)
        exact (hd.items y hrest).trans (threaded_detach_item h hS hx hy)

/-! ## The call -/

theorem without_list : without L mq .messageQueuesList =
    (L .messageQueuesList).erase ⟨.messageQueue, mq⟩ := by
  unfold without
  rw [Function.update_of_ne (by simp), Function.update_self]

theorem without_other {l : HeadAddr} (h : l ≠ .messageQueuesList) (hq : l ≠ .queues mq) :
    without L mq l = L l := by
  unfold without
  rw [Function.update_of_ne hq, Function.update_of_ne h]

theorem listed_without (h : Orderly k L) {i : Nat} :
    Listed (without L mq) i ↔ Listed L i ∧ i ≠ mq := by
  have hn := h.threaded.nodup .messageQueuesList trivial
  rw [Listed, without_list, hn.mem_erase_iff, and_comm]
  simp [Listed]

/-- Removing an unused message queue leaves the others in good order. -/
theorem orderly_without (h : Orderly k L) (hl : Listed L mq)
    (ht : Threaded (OfMessageQueues L) k'.lists (without L mq)) (hp : Pooled k')
    (hqueues : ∀ i, Allocated k' .queue i ↔ Allocated k .queue i ∧ ⟨.queue, i⟩ ∉ L (.queues mq))
    (hmqs : ∀ i, Allocated k' .messageQueue i ↔ Allocated k .messageQueue i ∧ i ≠ mq)
    (hmq : k'.messageQueue = k.messageQueue) (hq : k'.queue = k.queue) :
    Orderly k' (without L mq) := by
  have hsub : ∀ l, OfMessageQueues (without L mq) l → OfMessageQueues L l := by
    intro l hl'
    cases l with
    | messageQueuesList => trivial
    | queues i => exact ((listed_without h).mp hl').1
    | users t i =>
      cases t with
      | mq => exact ((listed_without h).mp hl').1
      | resource => exact hl'
      | semaphore => exact hl'
    | messages q =>
      obtain ⟨i, hi, hm⟩ := hl'
      obtain ⟨hi, hne⟩ := (listed_without h).mp hi
      rw [without_other (by simp) (by simpa using hne)] at hm
      exact ⟨i, hi, hm⟩
    | _ => exact hl'
  refine ⟨⟨fun l hl' => ht.holds l (hsub l hl'), fun l hl' => ht.nodup l (hsub l hl'),
    fun l j x hl' hj => ht.apart l j x (hsub l hl') (hsub j hj)⟩, ?_, ?_, ?_, ?_, ?_, hp⟩
  · intro x hx
    rw [without_list] at hx
    obtain ⟨hne, hx⟩ := (h.threaded.nodup .messageQueuesList trivial).mem_erase_iff.mp hx
    obtain ⟨hkind, ha⟩ := h.listed x hx
    refine ⟨hkind, (hmqs _).mpr ⟨ha, fun he => hne ?_⟩⟩
    rw [listed_node h hx, he]
  · intro i hi x hx
    obtain ⟨hi, hne⟩ := (listed_without h).mp hi
    rw [without_other (by simp) (by simpa using hne)] at hx
    obtain ⟨hkind, ha⟩ := h.queues i hi x hx
    refine ⟨hkind, (hqueues _).mpr ⟨ha, fun hm => hne ?_⟩⟩
    have hnode := queue_node h hi hx
    rw [hnode] at hx
    have he := h.threaded.apart (.queues i) (.queues mq) _ hi hl hx hm
    simpa using he
  · intro i j hi hj he
    rw [hmq] at he
    exact h.ids i j ((listed_without h).mp hi).1 ((listed_without h).mp hj).1 he
  · intro i hi
    obtain ⟨hi, hne⟩ := (listed_without h).mp hi
    unfold classesOf
    rw [without_other (by simp) (by simpa using hne), hq, hmq]
    exact h.classes i hi
  · intro i hi
    obtain ⟨hi, hne⟩ := (listed_without h).mp hi
    have hsame : linkedMessages (without L mq) i = linkedMessages L i := by
      unfold linkedMessages
      rw [without_other (by simp) (by simpa using hne)]
      refine congrArg List.sum (List.map_congr_left fun x _ => ?_)
      rw [without_other (by simp) (by simp)]
    rw [hmq, hsame]
    exact h.counted i hi

theorem mqUnlink_eq (hr : k.running = some r) :
    k.act (.syscall DSOS_CALL_MQUNLINK args) =
      (k.setCall r DSOS_CALL_MQUNLINK args).internalMqUnlink :=
  syscall_stays args rfl (by decide) (by decide) hr
    (ensures_mono (mqUnlink_running _) fun _ h => h.trans hr)

theorem queues_length (h : Orderly k L) (hl : Listed L mq) :
    (L (.queues mq)).length = ((k.messageQueue mq).priority + 1).toNat := by
  have hlen := (h.classes mq hl).length_eq
  rwa [length_ascending, classesOf, List.length_map] at hlen

theorem linkedMessages_empty :
    linkedMessages L mq = 0 ↔ ∀ x ∈ L (.queues mq), L (.messages x.idx) = [] := by
  unfold linkedMessages
  rw [List.sum_eq_zero_iff_forall_eq_nat]
  simp only [List.mem_map, forall_exists_index, and_imp, forall_apply_eq_imp_iff₂,
    List.length_eq_zero_iff]

/-- The loop of a call that has taken `mq` off the list of message queues. -/
theorem queues_dismantled (h : Orderly k L) (hl : Listed L mq)
    (hempty : ∀ x ∈ L (.queues mq), L (.messages x.idx) = []) :
    ∃ k', removeQueues mq ((k.messageQueue mq).priority + 1).toNat
        (k.detach .messageQueuesList ⟨.messageQueue, mq⟩) = .ok k' ∧
      Dismantled (OfMessageQueues L) (k.detach .messageQueuesList ⟨.messageQueue, mq⟩)
        (Function.update L .messageQueuesList
          ((L .messageQueuesList).erase ⟨.messageQueue, mq⟩)) mq k' := by
  have hmem : ⟨.messageQueue, mq⟩ ∈ L .messageQueuesList := hl
  have ht : Threaded (OfMessageQueues L) (k.detach .messageQueuesList ⟨.messageQueue, mq⟩).lists
      (Function.update L .messageQueuesList
        ((L .messageQueuesList).erase ⟨.messageQueue, mq⟩)) :=
    threaded_detach h.threaded trivial hmem
  have hsame : ∀ l, l ≠ .messageQueuesList → Function.update L .messageQueuesList
      ((L .messageQueuesList).erase ⟨.messageQueue, mq⟩) l = L l :=
    fun l hne => Function.update_of_ne hne _ _
  refine removeQueues_dismantled ht hl (pooled_congr (k := k) rfl h.pooled) (fun x hx => ?_) ?_
  · rw [hsame _ (by simp)] at hx
    obtain ⟨hkind, ha⟩ := h.queues mq hl x hx
    refine ⟨hkind, ha, ?_⟩
    have hin : OfMessageQueues L (.messages x.idx) := ⟨mq, hl, by rwa [queue_node h hl hx] at hx⟩
    have hh := ht.holds (.messages x.idx) hin
    rwa [hsame _ (by simp), hempty x hx] at hh
  · rw [hsame _ (by simp), queues_length h hl]

/-- What is left when the message queue itself has been freed. -/
theorem removed_of_dismantled (h : Orderly k L) (hl : Listed L mq)
    (hd : Dismantled (OfMessageQueues L)
      ((k.setCall r DSOS_CALL_MQUNLINK args).detach .messageQueuesList ⟨.messageQueue, mq⟩)
      (Function.update L .messageQueuesList
        ((L .messageQueuesList).erase ⟨.messageQueue, mq⟩)) mq k') :
    Removed k L r mq args ((k'.releaseBlock .messageQueue mq).setRetvalue r 0) := by
  have hpool : k'.pool .messageQueue = k.pool .messageQueue := hd.pools _ (by decide)
  have ha : Allocated k' .messageQueue mq := by
    unfold Allocated
    rw [hpool]
    exact (h.listed _ hl).2
  have hrel := releaseBlock_returned .messageQueue mq hd.pooled ha
  have hown : Function.update L .messageQueuesList
      ((L .messageQueuesList).erase ⟨.messageQueue, mq⟩) (.queues mq) = L (.queues mq) :=
    Function.update_of_ne (by simp) _ _
  have hqueues : ∀ i, Allocated (k'.releaseBlock .messageQueue mq) .queue i ↔
      Allocated k .queue i ∧ ⟨.queue, i⟩ ∉ L (.queues mq) := by
    intro i
    rw [hrel.allocated, hd.queues, hown]
    simp only [reduceCtorEq, false_and, not_false_eq_true, true_and]
    exact Iff.rfl
  have hmqs : ∀ i, Allocated (k'.releaseBlock .messageQueue mq) .messageQueue i ↔
      Allocated k .messageQueue i ∧ i ≠ mq := by
    intro i
    have hi : Allocated k' .messageQueue i ↔ Allocated k .messageQueue i := by
      unfold Allocated
      rw [hpool]
    rw [hrel.allocated, hi]
    simp [and_comm]
  have hrec : k'.messageQueue = k.messageQueue ∧ k'.queue = k.queue := by
    rw [hd.rest]
    exact ⟨rfl, rfl⟩
  have horder : Orderly ((k'.releaseBlock .messageQueue mq).setRetvalue r 0) (without L mq) :=
    orderly_without h hl hd.threaded hrel.pooled hqueues hmqs hrec.1 hrec.2
  refine ⟨?_, horder, hqueues, ?_, hmqs, ?_, fun kind hq hm => ?_, fun l hne hneq => ?_,
    fun x hx hxq => ?_, ?_⟩
  · refine (byId_none horder).mpr fun i hi he => ?_
    obtain ⟨hi, hne⟩ := (listed_without h).mp hi
    have he' : (k'.messageQueue i).id = (k.messageQueue mq).id := he
    rw [hrec.1] at he'
    exact hne (h.ids i mq hi hl he')
  · have hs : ((k'.releaseBlock .messageQueue mq).pool .queue).size = (k'.pool .queue).size := by
      rw [releaseBlock_pool _ _ (by decide)]
    rw [← queues_length h hl, ← hown]
    exact hs.trans hd.size
  · refine hrel.size.trans ?_
    rw [hpool]
  · exact (releaseBlock_pool _ _ hm).trans (hd.pools kind hq)
  · exact (hd.heads l hneq).trans (detach_head _ _ hne)
  · refine (hd.items x (by rwa [hown])).trans ?_
    exact threaded_detach_item (l := HeadAddr.messageQueuesList) h.threaded trivial hl hx
  · rw [hd.rest]
    rfl

/-- A message queue that may be deleted is deleted. -/
theorem mqUnlink_removed (h : Orderly k L) (hr : k.running = some r)
    (hdel : Deletable k L (toInt (args.getD 0 0)) mq) :
    ∃ k', k.act (.syscall DSOS_CALL_MQUNLINK args) = .ok k' ∧
      (k'.pcb r).syscallRetvalue = 0 ∧ Removed k L r mq args k' := by
  obtain ⟨hl, hid, hempty, husers⟩ := hdel
  have harg : (k.setCall r DSOS_CALL_MQUNLINK args).arg r 0 = args.getD 0 0 :=
    arg_setCall (by decide)
  rw [mqUnlink_eq hr]
  have h₀ : Orderly (k.setCall r DSOS_CALL_MQUNLINK args) L :=
    ⟨h.threaded, h.listed, h.queues, h.ids, h.classes, h.counted, h.pooled⟩
  have hfound := byId_found h₀ hl hid
  obtain ⟨k₂, hrun, hd⟩ := queues_dismantled h₀ hl hempty
  have hremoved := removed_of_dismantled h hl hd
  have hr₀ : (k.setCall r DSOS_CALL_MQUNLINK args).running = some r := hr
  generalize k.setCall r DSOS_CALL_MQUNLINK args = k₀ at *
  have hnum : (k₀.messageQueue mq).numMessages = 0 := by
    rw [h₀.counted mq hl, linkedMessages_empty.mpr hempty]
    rfl
  have hh := h₀.threaded.holds (.users .mq mq) hl
  rw [husers] at hh
  have hhead : k₂.head (.users .mq mq) = k₀.head (.users .mq mq) :=
    (hd.heads _ (by simp)).trans (detach_head _ _ (by simp))
  have hfree : k₂.messageQueueFree mq = .ok (k₂.releaseBlock .messageQueue mq) := by
    unfold messageQueueFree freeUnused
    rw [hhead, if_pos ⟨hh.first, hh.last⟩]
  refine ⟨(k₂.releaseBlock .messageQueue mq).setRetvalue r 0, ?_, setRetvalue_self _ r 0, hremoved⟩
  unfold internalMqUnlink
  have husers₀ : (k₀.head (.users .mq mq)).size = 0 := hh.size
  have hrun' : removeQueues mq
      (((k₀.detach .messageQueuesList ⟨.messageQueue, mq⟩).messageQueue mq).priority + 1).toNat
      (k₀.detach .messageQueuesList ⟨.messageQueue, mq⟩) = .ok k₂ := hrun
  simp only [hr₀, deref, bind, Except.bind, harg, hfound, castTo, if_true, hnum, husers₀, ne_eq,
    not_true_eq_false, if_false, hrun', hfree]
  rfl

/-- Every other call changes nothing. -/
theorem mqUnlink_refused (h : Orderly k L) (hr : k.running = some r)
    (hno : ¬ ∃ mq, Deletable k L (toInt (args.getD 0 0)) mq) :
    k.act (.syscall DSOS_CALL_MQUNLINK args) =
      .ok ((k.setCall r DSOS_CALL_MQUNLINK args).setRetvalue r DSOS_EMQUNLINK) := by
  have harg : (k.setCall r DSOS_CALL_MQUNLINK args).arg r 0 = args.getD 0 0 :=
    arg_setCall (by decide)
  have hr' : (k.setCall r DSOS_CALL_MQUNLINK args).running = some r := hr
  have hsame : (k.setCall r DSOS_CALL_MQUNLINK args).messageQueueListById .messageQueuesList
      (toInt (args.getD 0 0)) =
      k.messageQueueListById .messageQueuesList (toInt (args.getD 0 0)) :=
    byId_frame rfl (fun _ _ => rfl) (fun _ => rfl) rfl
  rw [mqUnlink_eq hr]
  unfold internalMqUnlink
  simp only [hr', deref, bind, Except.bind, harg, hsame]
  cases hs : k.messageQueueListById .messageQueuesList (toInt (args.getD 0 0)) with
  | error e =>
    rw [byId_eq h] at hs
    cases hs
  | ok found =>
    cases found with
    | none => rfl
    | some x =>
      obtain ⟨mq, rfl, hl, hid⟩ := byId_some h hs
      by_cases hnum : (k.messageQueue mq).numMessages = 0
      · by_cases husers : (k.head (.users .mq mq)).size = 0
        · refine absurd ⟨mq, hl, hid, linkedMessages_empty.mp ?_, ?_⟩ hno
          · have hc := h.counted mq hl
            omega
          · have hh := (h.threaded.holds (.users .mq mq) hl).size
            have hlen : ((L (.users .mq mq)).length : Int) = 0 := hh.symm.trans husers
            exact List.length_eq_zero_iff.mp (by exact_mod_cast hlen)
        · exact if_neg (not_not.mpr hnum) |>.trans (if_pos husers)
      · exact if_pos hnum

/-- `mqUnlink` removes the message queue with the given id if there is one without
messages and descriptors, and otherwise reports an error and changes nothing. -/
theorem mqUnlink_exact (h : Orderly k L) (hr : k.running = some r) (args : List Int) :
    UnlinkExact k L r args := by
  by_cases hdel : ∃ mq, Deletable k L (toInt (args.getD 0 0)) mq
  · obtain ⟨mq, hdel⟩ := hdel
    obtain ⟨k', hact, hzero, hremoved⟩ := mqUnlink_removed h hr hdel
    refine ⟨k', hact, iff_of_true hzero ⟨mq, hdel⟩, fun mq' hdel' => ?_, fun hne => ?_⟩
    · rwa [h.ids mq' mq hdel'.1 hdel.1 (hdel'.2.1.trans hdel.2.1.symm)]
    · exact absurd hzero hne
  · refine ⟨_, mqUnlink_refused h hr hdel, ?_, fun mq hd => absurd ⟨mq, hd⟩ hdel, fun _ => ?_⟩
    · rw [setRetvalue_self]
      exact iff_of_false (by decide) hdel
    · rw [setRetvalue_self]
      exact ⟨by decide, rfl⟩

/-! ## A message queue that was closed -/

/-- The tables of a run are in good order if no message has been lost. -/
theorem orderly_of_tables (h : Tables k L)
    (hcount : ∀ mq, Listed L mq → (k.messageQueue mq).numMessages = linkedMessages L mq) :
    Orderly k L := by
  refine ⟨⟨fun l _ => holds h.wired trivial, fun l _ => nodup h.wired trivial,
    fun l j x _ _ => apart h.wired trivial trivial⟩, fun x hx => ?_, fun mq hl x hx => ?_,
    h.id_inj, h.classes, hcount, h.wired.pooled⟩
  · have hkind : x.kind = .messageQueue := h.wired.kind .messageQueuesList x trivial hx
    refine ⟨hkind, ?_⟩
    rw [← hkind]
    exact h.wired.live .messageQueuesList x trivial hx
  · have hkind : x.kind = .queue := h.wired.kind (.queues mq) x trivial hx
    refine ⟨hkind, ?_⟩
    rw [← hkind]
    exact h.wired.live (.queues mq) x trivial hx

theorem mqUnlink_exact_after_close :
    ∃ k₀ k L, Started (fun _ => 0) k₀ ∧
      Run act (fun k a => MqCall a ∧ ¬ CreatesBehindAnother k a) k₀
        [.syscall DSOS_CALL_MQOPEN [1, 1, 2], .syscall DSOS_CALL_MQCLOSE [0]] k ∧
      Deletable k L 1 0 ∧ UnlinkExact k L 0 [1] := by
  obtain ⟨k₀, k, hstart, hrun, htest⟩ := exists_run_from_start _ alone
    [.syscall DSOS_CALL_MQOPEN [1, 1, 2], .syscall DSOS_CALL_MQCLOSE [0]]
    (fun k => decide (k.running = some 0 ∧
      (k.head .messageQueuesList).first = some ⟨.messageQueue, 0⟩ ∧
      (k.head .messageQueuesList).size = 1 ∧ (k.messageQueue 0).id = 1 ∧
      (k.messageQueue 0).numMessages = 0 ∧ (k.head (.users .mq 0)).size = 0)) alone_safe
    (by decide +kernel)
  obtain ⟨hr, hfirst, hsize, hid, hnum, husers⟩ := of_decide_eq_true htest
  obtain ⟨L, ht⟩ := tables_run hstart hrun
  have hlist : L .messageQueuesList = [⟨.messageQueue, 0⟩] := by
    rw [first_eq (l := .messageQueuesList) ht.wired trivial] at hfirst
    rw [size_eq (l := .messageQueuesList) ht.wired trivial] at hsize
    obtain ⟨x, hx⟩ := List.length_eq_one_iff.mp (by exact_mod_cast hsize)
    rw [hx] at hfirst ⊢
    simpa using hfirst
  have hl : Listed L 0 := by
    rw [Listed, hlist]
    exact List.mem_singleton.mpr rfl
  have hzero : linkedMessages L 0 = 0 := by
    have := ht.counted 0 hl
    omega
  have horder : Orderly k L := by
    refine orderly_of_tables ht fun mq hmq => ?_
    rw [Listed, hlist, List.mem_singleton, Node.mk.injEq] at hmq
    rw [hmq.2, hnum, hzero]
    rfl
  refine ⟨k₀, k, L, hstart, hrun, ⟨hl, hid, linkedMessages_empty.mp hzero, ?_⟩,
    mqUnlink_exact horder hr [1]⟩
  exact (size_zero_iff (l := .users .mq 0) ht.wired trivial).mp husers

end DisastrOS.MessageQueue.Removal
