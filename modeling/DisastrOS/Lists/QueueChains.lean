import DisastrOS.Lists.Chains
import DisastrOS.Lists.RegularLists

/-!
# The chains of message queues and queues

`mqOpen` passes the last message queue as the place of a new queue, which links the
queue into the wrong list and leaves the ends of both heads out of date. `Hung` is what
holds all the same: the message queues and the queues are in disjoint chains of blocks
in use, and the item that the head of the message queues has as its last one is `Placed`: it
is in the chain, and what is behind it starts with queues if there is anything.
-/
namespace DisastrOS.Lists.QueueChains

open DisastrOS.Machine
open DisastrOS.Machine.Kernel
open DisastrOS.Lists.Sequences
open DisastrOS.Lists.Wiring
open DisastrOS.Lists.RegularLists
open DisastrOS.Lists.Chains
open DisastrOS.Pool.Blocks
open DisastrOS.Library.LinkedSequence
open DisastrOS.Library.Outcome

/-- The heads for message queues and queues. -/
abbrev Irregular (l : HeadAddr) : Prop := ¬ Regular l.nodeKind

/-- The item that a head has as its last one ends a first part of the chain. If there is
anything behind it, a queue is. -/
def Placed (last : Option Node) (chain : List Node) : Prop :=
  ∃ as bs, chain = as ++ bs ∧ last = as.getLast? ∧ (bs = [] ∨ ∃ x ∈ bs, x.kind = .queue)

/-- Message queues and queues are in the chains `L`. -/
structure Hung (k : Kernel) (L : HeadAddr → List Node) : Prop where
  chained : Chained Irregular k.lists L
  kind : ∀ l x, Irregular l → x ∈ L l → ¬ Regular x.kind
  queue : ∀ mq, ∀ x ∈ L (.queues mq), x.kind = .queue
  live : ∀ l x, Irregular l → x ∈ L l → Allocated k x.kind x.idx
  placed : Placed (k.head .messageQueuesList).last (L .messageQueuesList)

/-- All lists are as they should be, and the chains are what they may be. -/
structure Settled (k : Kernel) (L : HeadAddr → List Node) : Prop where
  strung : Strung Regular Retained k L
  hung : Hung k L

variable {k k' : Kernel} {L L' : HeadAddr → List Node} {l j : HeadAddr} {x y : Node}
  {kind : Kind} {i mq q : Nat}

/-- A queue that is put behind the last known node, which is not the end of an empty part. -/
theorem Placed.queue {as bs : List Node} {q : Nat} :
    Placed as.getLast? (as ++ ⟨.queue, q⟩ :: bs) :=
  ⟨as, _, rfl, rfl, .inr ⟨⟨.queue, q⟩, List.mem_cons_self, rfl⟩⟩

theorem irregular_messageQueues : Irregular .messageQueuesList :=
  (by decide : ¬ Regular .messageQueue)

theorem irregular_queues (mq : Nat) : Irregular (.queues mq) := (by decide : ¬ Regular .queue)

theorem retained_regular (kind : Kind) (h : Retained kind) : Regular kind := by
  cases h
  decide

/-- Work on the regular lists does not touch the chains. -/
theorem Hung.confined (h : Hung k L) (hc : Confined Regular k k')
    (hL : ∀ l, Irregular l → L' l = L l)
    (hlive : ∀ kind i, ¬ Regular kind → Allocated k kind i → Allocated k' kind i) :
    Hung k' L' := by
  have hchained : Chained Irregular k'.lists L := by
    refine chained_frame h.chained (fun l hl => hc.head l hl) fun l x hl hx => ?_
    exact hc.item x (h.kind l x hl hx)
  refine ⟨⟨fun l hl => ?_, fun l hl => ?_, fun l hl => ?_, fun l l' x hl hl' hx hx' => ?_⟩,
    fun l x hl hx => ?_, fun mq x hx => ?_, fun l x hl hx => ?_, ?_⟩
  · rw [hL l hl]
    exact hchained.first l hl
  · rw [hL l hl]
    exact hchained.links l hl
  · rw [hL l hl]
    exact hchained.nodup l hl
  · rw [hL l hl] at hx
    rw [hL l' hl'] at hx'
    exact hchained.apart l l' x hl hl' hx hx'
  · rw [hL l hl] at hx
    exact h.kind l x hl hx
  · rw [hL _ (irregular_queues mq)] at hx
    exact h.queue mq x hx
  · rw [hL l hl] at hx
    exact hlive _ _ (h.kind l x hl hx) (h.live l x hl hx)
  · rw [hL _ irregular_messageQueues]
    show Placed (k'.lists.head .messageQueuesList).last _
    rw [hc.head _ irregular_messageQueues]
    exact h.placed

/-- The chains depend on the lists and on the blocks in use. -/
theorem Hung.congr (h : Hung k L) (hlists : k'.lists = k.lists) (hpool : k'.pool = k.pool) :
    Hung k' L :=
  h.confined (confined_of_lists hlists) (fun _ _ => rfl) fun _ _ _ =>
    (allocated_congr hpool).mpr

theorem Settled.congr (h : Settled k L) (hlists : k'.lists = k.lists) (hpool : k'.pool = k.pool) :
    Settled k' L :=
  ⟨h.strung.congr hlists hpool, h.hung.congr hlists hpool⟩

/-- The chains are as before after work on the regular lists. -/
theorem Hung.woven (h : Hung k L) (hw : Woven k k' L')
    (hL : ∀ l, Irregular l → L' l = L l) : Hung k' L' :=
  h.confined hw.confined hL fun kind _ hk => (allocated_of_pool (hw.pool kind hk)).mpr

/-! ## Blocks -/

/-- A block that was free is in no chain. -/
theorem Hung.fresh_unlisted (h : Hung k L) (hf : ¬ Allocated k kind i) (hl : Irregular l) :
    ⟨kind, i⟩ ∉ L l :=
  fun hx => hf (h.live l _ hl hx)

theorem Settled.newItem (h : Settled k L) (hf : Fresh k kind i k') : Settled k' L := by
  refine ⟨h.strung.newItem hf, ?_⟩
  have hlists : k'.lists =
      { k.lists with item := Function.update k.lists.item ⟨kind, i⟩ ⟨none, none⟩ } := by
    rw [hf.eq]
  refine ⟨?_, h.hung.kind, h.hung.queue, fun l x hl hx => ?_, ?_⟩
  · rw [hlists]
    exact chained_setItem h.hung.chained (fun l hl => h.hung.fresh_unlisted hf.fresh hl) _
  · exact (hf.allocated _ _).mpr (.inr (h.hung.live l x hl hx))
  · unfold head
    rw [hlists]
    exact h.hung.placed

/-- A node of a kind for chains is in no regular list. -/
theorem Settled.irregular_unlisted (h : Settled k L) (hx : ¬ Regular x.kind)
    (hl : Regular l.nodeKind) : x ∉ L l :=
  fun hm => hx (h.strung.kind l x hl hm ▸ hl)

/-- Returning a message queue or queue that is in no chain. -/
theorem Settled.releaseBlock (h : Settled k L) (hkind : ¬ Regular kind) (hi : Allocated k kind i)
    (hout : ∀ l, Irregular l → ⟨kind, i⟩ ∉ L l) : Settled (k.releaseBlock kind i) L := by
  have hr := releaseBlock_returned _ _ h.strung.pooled hi
  refine ⟨h.strung.releaseBlock kind i hi fun l hl => h.irregular_unlisted hkind hl,
    h.hung.chained, h.hung.kind, h.hung.queue, fun l x hl hx => ?_, h.hung.placed⟩
  refine (hr.allocated _ _).mpr ⟨?_, h.hung.live l x hl hx⟩
  rintro ⟨rfl, rfl⟩
  exact hout l hl hx

/-- Initialising a head for nodes of a regular kind that are not kept. -/
theorem Settled.initRegular (h : Settled k L) (hl : Regular l.nodeKind)
    (hL : l.nodeKind ≠ .pcb) : Settled (k.initList l) (Function.update L l []) := by
  refine ⟨h.strung.initList hl fun ht => absurd ht hL, h.hung.confined ?_ ?_ fun _ _ _ ha => ha⟩
  · refine ⟨fun _ _ => rfl, fun l' hl' => ?_⟩
    exact Function.update_of_ne (ne_of_irregular hl' hl) _ _
  · exact fun l' hl' => Function.update_of_ne (ne_of_irregular hl' hl) _ _

/-- Initialising the head of a message queue. -/
theorem Settled.initQueues (h : Settled k L) (mq : Nat) :
    Settled (k.initList (.queues mq)) (Function.update L (.queues mq) []) := by
  have hne : ∀ l : HeadAddr, Regular l.nodeKind → l ≠ .queues mq := fun l hl =>
    (ne_of_irregular (irregular_queues mq) hl).symm
  have hsub : ∀ l x, x ∈ Function.update L (.queues mq) [] l → x ∈ L l := by
    intro l x hx
    by_cases he : l = .queues mq
    · subst he
      rw [Function.update_self] at hx
      cases hx
    · rwa [Function.update_of_ne he] at hx
  refine ⟨h.strung.frame retained_regular (fun _ _ => rfl) (fun l hl => ?_) (fun _ _ => rfl)
    h.strung.pooled fun l hl => ?_, chained_init h.hung.chained, fun l x hl hx => ?_,
    fun m x hx => ?_, fun l x hl hx => ?_, ?_⟩
  · exact Function.update_of_ne (hne l hl) _ _
  · exact Function.update_of_ne (hne l hl) _ _
  · exact h.hung.kind l x hl (hsub l x hx)
  · exact h.hung.queue m x (hsub _ x hx)
  · exact h.hung.live l x hl (hsub l x hx)
  · rw [Function.update_of_ne (by simp)]
    have hne : HeadAddr.messageQueuesList ≠ .queues mq := nofun
    have hhead : (k.initList (.queues mq)).lists.head .messageQueuesList =
        k.lists.head .messageQueuesList := Function.update_of_ne hne ⟨none, none, 0⟩ _
    unfold head
    rw [hhead]
    exact h.hung.placed

/-! ## Linking and unlinking -/

/-- Inserting a queue behind a node of a chain, or at the front of its own message queue. -/
theorem Settled.insertQueue {as bs : List Node} (h : Settled k L) (hj : Irregular j)
    (hsplit : L j = as ++ bs) (hplace : as ≠ [] ∨ .queues mq = j)
    (hlast : (k.head .messageQueuesList).last = as.getLast?)
    (ha : Allocated k .queue q)
    (hloose : Unlinked k.lists ⟨.queue, q⟩) (hout : ∀ l, Irregular l → ⟨.queue, q⟩ ∉ L l) :
    Settled (k.insert (.queues mq) as.getLast? ⟨.queue, q⟩)
      (Function.update L j (as ++ ⟨.queue, q⟩ :: bs)) := by
  have hkind : ¬ Regular (⟨.queue, q⟩ : Node).kind := (by decide : ¬ Regular .queue)
  refine ⟨h.strung.frame retained_regular (fun x hx => ?_) (fun l hl => ?_) (fun _ _ => rfl)
    h.strung.pooled fun l hl => ?_, chained_insert h.hung.chained hj hsplit hloose hout hplace,
    fun l x hl hx => ?_, fun m x hx => ?_, fun l x hl hx => ?_, ?_⟩
  · refine chained_insert_item h.hung.chained hj hsplit hloose (hout j hj) hplace (fun hm => ?_)
      fun he => ?_
    · exact h.hung.kind j x hj hm hx
    · exact hkind (he ▸ hx)
  · exact insert_head _ _ _ fun he => irregular_queues mq (he ▸ hl)
  · exact Function.update_of_ne (ne_of_irregular hj hl).symm _ _
  · rcases (mem_splice hsplit).mp hx with hx | ⟨rfl, rfl⟩
    · exact h.hung.kind l x hl hx
    · exact hkind
  · rcases (mem_splice hsplit).mp hx with hx | ⟨_, rfl⟩
    · exact h.hung.queue m x hx
    · rfl
  · rcases (mem_splice hsplit).mp hx with hx | ⟨_, rfl⟩
    · exact h.hung.live l x hl hx
    · exact ha
  · show Placed ((listInsert k.lists _ _ _).2.head .messageQueuesList).last _
    rw [insert_head _ _ _ (by simp)]
    by_cases he : j = .messageQueuesList
    · subst he
      rw [Function.update_self, show (k.lists.head _).last = _ from hlast]
      exact .queue
    · rw [Function.update_of_ne (Ne.symm he)]
      exact h.hung.placed

/-- Inserting a message queue behind the last one that is known. -/
theorem Settled.appendMessageQueue {as bs : List Node} (h : Settled k L)
    (hsplit : L .messageQueuesList = as ++ bs)
    (hlast : (k.head .messageQueuesList).last = as.getLast?)
    (hbehind : bs = [] ∨ ∃ x ∈ bs, x.kind = .queue)
    (ha : Allocated k .messageQueue mq) (hloose : Unlinked k.lists ⟨.messageQueue, mq⟩)
    (hout : ∀ l, Irregular l → ⟨.messageQueue, mq⟩ ∉ L l) :
    Settled (k.append .messageQueuesList ⟨.messageQueue, mq⟩)
      (Function.update L .messageQueuesList (as ++ ⟨.messageQueue, mq⟩ :: bs)) := by
  have hj := irregular_messageQueues
  have hkind : ¬ Regular (⟨.messageQueue, mq⟩ : Node).kind := (by decide : ¬ Regular .messageQueue)
  have hplace : as ≠ [] ∨ HeadAddr.messageQueuesList = .messageQueuesList := .inr rfl
  unfold append
  rw [hlast]
  refine ⟨h.strung.frame retained_regular (fun x hx => ?_) (fun l hl => ?_) (fun _ _ => rfl)
    h.strung.pooled fun l hl => ?_, chained_insert h.hung.chained hj hsplit hloose hout hplace,
    fun l x hl hx => ?_, fun m x hx => ?_, fun l x hl hx => ?_, ?_⟩
  · refine chained_insert_item h.hung.chained hj hsplit hloose (hout _ hj) hplace (fun hm => ?_)
      fun he => ?_
    · exact h.hung.kind _ x hj hm hx
    · exact hkind (he ▸ hx)
  · exact insert_head _ _ _ fun he => hj (he ▸ hl)
  · exact Function.update_of_ne (ne_of_irregular hj hl).symm _ _
  · rcases (mem_splice hsplit).mp hx with hx | ⟨rfl, rfl⟩
    · exact h.hung.kind l x hl hx
    · exact hkind
  · rcases (mem_splice hsplit).mp hx with hx | ⟨he, _⟩
    · exact h.hung.queue m x hx
    · cases he
  · rcases (mem_splice hsplit).mp hx with hx | ⟨_, rfl⟩
    · exact h.hung.live l x hl hx
    · exact ha
  · rw [Function.update_self]
    show Placed ((listInsert k.lists _ _ _).2.head .messageQueuesList).last _
    have hnext := nextOf_chained h.hung.chained hj hsplit hplace
    rcases hbehind with rfl | ⟨x, hx, hqueue⟩
    · -- nothing is behind the new last one
      refine ⟨as ++ [⟨.messageQueue, mq⟩], [], by simp, ?_, .inl rfl⟩
      rw [insert_last hloose, hnext, List.getLast?_concat]
      rfl
    · -- a node with something behind it is not made the last one
      refine ⟨as, _, rfl, ?_, .inr ⟨x, List.mem_cons_of_mem _ hx, hqueue⟩⟩
      rw [insert_last hloose, hnext, if_neg (by cases bs <;> simp at hx ⊢)]
      exact hlast

/-- Taking a message queue out of the chain. -/
theorem Settled.detachMessageQueue (h : Settled k L)
    (hx : ⟨.messageQueue, mq⟩ ∈ L .messageQueuesList) :
    Settled (k.detach .messageQueuesList ⟨.messageQueue, mq⟩) (Function.update L .messageQueuesList
      ((L .messageQueuesList).erase ⟨.messageQueue, mq⟩)) := by
  have hj := irregular_messageQueues
  have hn := h.hung.chained.nodup _ hj
  refine ⟨h.strung.frame retained_regular (fun x hreg => ?_) (fun l hl => ?_) (fun _ _ => rfl)
    h.strung.pooled fun l hl => ?_, chained_detach h.hung.chained hj hx,
    fun l x hl hx => ?_, fun m x hx => ?_, fun l x hl hx => ?_, ?_⟩
  · exact chained_detach_item h.hung.chained hj hx fun hm => h.hung.kind _ x hj hm hreg
  · exact detach_head _ _ fun he => hj (he ▸ hl)
  · exact Function.update_of_ne (ne_of_irregular hj hl).symm _ _
  · exact h.hung.kind l x hl ((mem_erase_update hn).mp hx).1
  · exact h.hung.queue m x ((mem_erase_update hn).mp hx).1
  · exact h.hung.live l x hl ((mem_erase_update hn).mp hx).1
  · rw [Function.update_self]
    obtain ⟨as, bs, hsplit, hlast, hbehind⟩ := h.hung.placed
    refine ⟨as.erase ⟨.messageQueue, mq⟩, if ⟨.messageQueue, mq⟩ ∈ as then bs else
      bs.erase ⟨.messageQueue, mq⟩, ?_, chained_detach_last h.hung.chained hj hsplit hlast, ?_⟩
    · rw [hsplit, List.erase_append]
      split
      · rfl
      · next hno => rw [List.erase_of_not_mem hno]
    · split
      · exact hbehind
      · rcases hbehind with rfl | ⟨x, hx, hqueue⟩
        · exact .inl rfl
        · refine .inr ⟨x, ?_, hqueue⟩
          refine (List.mem_erase_of_ne ?_).mpr hx
          rintro rfl
          cases hqueue

/-- Taking the first queue of a message queue. -/
theorem Settled.detachFirstQueue (h : Settled k L)
    (hd : k.detachFirst (.queues mq) = .ok (q, k')) :
    ∃ rest, L (.queues mq) = ⟨.queue, q⟩ :: rest ∧ k' = k.detach (.queues mq) ⟨.queue, q⟩ ∧
      Settled k' (Function.update L (.queues mq) rest) := by
  have hj := irregular_queues mq
  unfold detachFirst at hd
  obtain ⟨x, hx, hd⟩ := bind_eq_ok.mp hd
  obtain ⟨i, hi, hd⟩ := bind_eq_ok.mp hd
  have hnode : x = ⟨.queue, i⟩ := castTo_eq_ok.mp hi
  subst hnode
  cases hd
  have hfirst : (L (.queues mq)).head? = some ⟨.queue, q⟩ := by
    rw [← h.hung.chained.first _ hj]
    exact deref_eq_ok.mp hx
  obtain ⟨rest, hL⟩ := List.head?_eq_some_iff.mp hfirst
  have hmem : ⟨.queue, q⟩ ∈ L (.queues mq) := by
    rw [hL]
    exact List.mem_cons_self
  have hch := chained_detach h.hung.chained hj hmem
  rw [hL, List.erase_cons_head] at hch
  have hsub : ∀ l y, y ∈ Function.update L (.queues mq) rest l → y ∈ L l := by
    intro l y hy
    by_cases he : l = .queues mq
    · subst he
      rw [Function.update_self] at hy
      rw [hL]
      exact List.mem_cons_of_mem _ hy
    · rwa [Function.update_of_ne he] at hy
  refine ⟨rest, hL, rfl, h.strung.frame retained_regular (fun y hy => ?_) (fun l hl => ?_)
    (fun _ _ => rfl) h.strung.pooled fun l hl => ?_, hch, fun l y hl hy => ?_, fun m y hy => ?_,
    fun l y hl hy => ?_, ?_⟩
  · exact chained_detach_item h.hung.chained hj hmem fun hm => h.hung.kind _ y hj hm hy
  · exact detach_head _ _ fun he => hj (he ▸ hl)
  · exact Function.update_of_ne (ne_of_irregular hj hl).symm _ _
  · exact h.hung.kind l y hl (hsub l y hy)
  · exact h.hung.queue m y (hsub _ y hy)
  · exact h.hung.live l y hl (hsub l y hy)
  · rw [Function.update_of_ne (by simp)]
    show Placed ((listDetach k.lists _ _).head .messageQueuesList).last _
    rw [detach_head _ _ (by simp)]
    exact h.hung.placed

/-- The first queue is in one chain only, and once, so it can be returned after it is taken. -/
theorem Settled.releaseFirstQueue {rest : List Node} (h : Settled k L)
    (hL : L (.queues mq) = ⟨.queue, q⟩ :: rest)
    (hs : Settled (k.detach (.queues mq) ⟨.queue, q⟩) (Function.update L (.queues mq) rest)) :
    Settled ((k.detach (.queues mq) ⟨.queue, q⟩).releaseBlock .queue q)
      (Function.update L (.queues mq) rest) := by
  have hj := irregular_queues mq
  have hmem : ⟨.queue, q⟩ ∈ L (.queues mq) := by
    rw [hL]
    exact List.mem_cons_self
  have ha : Allocated k .queue q := h.hung.live (.queues mq) ⟨.queue, q⟩ hj hmem
  refine hs.releaseBlock (by decide : ¬ Regular .queue) ha fun l hl hx => ?_
  by_cases he : l = .queues mq
  · subst he
    have hn := h.hung.chained.nodup _ hj
    rw [hL] at hn
    rw [Function.update_self] at hx
    exact (List.nodup_cons.mp hn).1 hx
  · rw [Function.update_of_ne he] at hx
    exact he (h.hung.chained.apart l (.queues mq) _ hl hj hx hmem)

/-! ## Searching -/

/-- A node of a chain is a message queue or a queue. -/
theorem irregular_kind (h : ¬ Regular kind) : kind = .messageQueue ∨ kind = .queue := by
  cases kind <;> simp_all [Regular]

/-- A chain is no longer than the two pools. -/
theorem Settled.length_chain (h : Settled k L) (hl : Irregular l) : (L l).length ≤ 2048 := by
  have hpart : ∀ kind, ((L l).filter fun x => x.kind = kind).length ≤ 1024 := by
    intro kind
    have hlive : ∀ x ∈ (L l).filter fun x => x.kind = kind,
        x.kind = kind ∧ Allocated k kind x.idx := by
      intro x hx
      have hkind : x.kind = kind := by simpa using (List.mem_filter.mp hx).2
      exact ⟨hkind, hkind ▸ h.hung.live l x hl (List.mem_filter.mp hx).1⟩
    exact length_le_of_live h.strung.pooled ((h.hung.chained.nodup l hl).filter _) hlive
  have hsum := (L l).length_eq_length_filter_add fun x => x.kind = .messageQueue
  have hrest : (L l).filter (fun x => !decide (x.kind = .messageQueue)) =
      (L l).filter fun x => x.kind = .queue := by
    refine List.filter_congr fun x hx => ?_
    rcases irregular_kind (h.hung.kind l x hl hx) with he | he <;> simp [he]
  rw [hrest] at hsum
  have h₁ := hpart .messageQueue
  have h₂ := hpart .queue
  omega

/-- `MessageQueueList_byId` finds the first node of the chain with the int in its place. -/
theorem Settled.byId_eq (h : Settled k L) (id : Int) :
    k.messageQueueListById .messageQueuesList id =
      .ok ((L .messageQueuesList).find? fun x => k.intAtId x = .ok id) := by
  have hj := irregular_messageQueues
  have hlen := h.length_chain hj
  unfold messageQueueListById
  rw [show (k.head .messageQueuesList).first = _ from h.hung.chained.first _ hj]
  exact findById_eq (h.hung.chained.links _ hj) (fun x hx => irregular_kind (h.hung.kind _ x hj hx))
    (by unfold LOOP_BOUND; omega)

/-- The node that is found is in the chain. -/
theorem Settled.listed_of_byId {id : Int} (h : Settled k L)
    (hs : k.messageQueueListById .messageQueuesList id = .ok (some x)) :
    x ∈ L .messageQueuesList := by
  rw [h.byId_eq, Except.ok.injEq] at hs
  exact List.mem_of_find?_eq_some hs

end DisastrOS.Lists.QueueChains
