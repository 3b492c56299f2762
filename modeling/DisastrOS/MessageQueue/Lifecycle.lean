import DisastrOS.MessageQueue.TableInvariant

/-!
# Opening, closing, creating and removing message queues

How the calls that change the set of descriptors and message queues act on the
tables.
-/
namespace DisastrOS.MessageQueue.Lifecycle

open DisastrOS.Machine
open DisastrOS.Machine.Kernel
open DisastrOS.Lists
open DisastrOS.Lists.Wiring
open DisastrOS.Descriptors.Bindings
open DisastrOS.Pool.Blocks
open DisastrOS.Pool.BlockContract
open DisastrOS.Library.Outcome
open DisastrOS.MessageQueue.Calls
open DisastrOS.MessageQueue.Classes
open DisastrOS.MessageQueue.TableInvariant

variable {k k' : Kernel} {L L' : HeadAddr → List Node} {r mq q d ptr : Nat} {v err : Int}

/-- Changing descriptors only. -/
theorem tables_rebind (h : Tables k L) (hw : Wired Everything k' L') (hb : Bound .mq k' L')
    (hopen : ∀ p d o, ⟨.mqDescriptor, d⟩ ∈ L' (.opened .mq p) →
      (k'.descriptor .mq d).object = some o → Listed L o)
    (hL : ∀ l, (∀ p, l ≠ .opened .mq p) → (∀ o, l ≠ .users .mq o) → L' l = L l)
    (hmq : k'.messageQueue = k.messageQueue) (hqueue : k'.queue = k.queue)
    (hmsg : k'.message = k.message) (hpool : k'.pool .messageQueue = k.pool .messageQueue) :
    Tables k' L' := by
  have hlisted : ∀ i, Listed L' i ↔ Listed L i := by
    intro i
    unfold Listed
    rw [hL _ (by simp) (by simp)]
  have hqueues : ∀ i, L' (.queues i) = L (.queues i) := fun i => hL _ (by simp) (by simp)
  have hmessages : ∀ i, L' (.messages i) = L (.messages i) := fun i => hL _ (by simp) (by simp)
  refine ⟨hw, hb, ?_, ?_, ?_, ?_, ?_, ?_, ?_, ?_, ?_⟩
  · intro p d o hm ho
    exact (hlisted o).mpr (hopen p d o hm ho)
  · intro i hi
    rw [hmq]
    exact h.id_nonneg i ((hlisted i).mp hi)
  · intro i j hi hj he
    rw [hmq] at he
    exact h.id_inj i j ((hlisted i).mp hi) ((hlisted j).mp hj) he
  · intro i hi
    rw [hmq]
    exact h.priority i ((hlisted i).mp hi)
  · intro i hi
    unfold classesOf
    rw [hqueues, hqueue, hmq]
    exact h.classes i ((hlisted i).mp hi)
  · intro i hne
    rw [hqueues] at hne
    unfold Allocated
    rw [hpool]
    exact h.ownQueues i hne
  · intro j hne
    rw [hmessages] at hne
    obtain ⟨i, hi, hm⟩ := h.ownMessages j hne
    exact ⟨i, (hlisted i).mpr hi, by rwa [hqueues]⟩
  · intro i hi
    unfold linkedMessages
    simp only [hqueues, hmessages, hmq]
    exact h.counted i ((hlisted i).mp hi)
  · intro j x hx
    rw [hmessages] at hx
    unfold TextOk
    rw [hmsg]
    exact h.texts j x hx

/-! ## Descriptors -/

/-- The lists other than those of the descriptors are the same. -/
def SameQueues (L L' : HeadAddr → List Node) : Prop :=
  ∀ l, (∀ p, l ≠ .opened .mq p) → (∀ o, l ≠ .users .mq o) → L' l = L l

theorem tables_opened (h : Tables k L) (hl : Listed L mq)
    (ho : Opened Everything k L .mq r mq d ptr k') :
    Tables k' (Function.update
      (Function.update L (.opened .mq r) (L (.opened .mq r) ++ [⟨.mqDescriptor, d⟩]))
      (.users .mq mq) (L (.users .mq mq) ++ [⟨.mqDescriptorPtr, ptr⟩])) := by
  have hb := bound_opened h.wired trivial trivial h.bound ho
  refine tables_rebind h ho.wired hb ?_ ?_ ?_ ?_ ?_ ?_
  · intro p d' o hm hobj
    rw [ho.descriptor, Function.update_self] at hobj
    rcases opened_mem.mp hm with hold | ⟨_, he⟩ | ⟨he, _⟩
    · have hne : d' ≠ d := by
        rintro rfl
        exact ho.freshDescriptor (allocated_of_mem (l := .opened .mq p) h.wired trivial hold)
      rw [Function.update_of_ne hne] at hobj
      exact h.openListed p d' o hold hobj
    · cases he
      rw [Function.update_self] at hobj
      cases hobj
      exact hl
    · cases he
  · intro l hno hnu
    rw [Function.update_of_ne (hnu mq), Function.update_of_ne (hno r)]
  · rw [ho.rest]
  · rw [ho.rest]
  · rw [ho.rest]
  · exact ho.pool _ (by decide) (by decide)

theorem tables_unopened (h : Tables k L) (hu : Unopened Everything k L .mq r err k') :
    Tables k' L := by
  refine tables_rebind h hu.wired (bound_unopened h.wired trivial h.bound hu) ?_
    (fun _ _ _ => rfl) ?_ ?_ ?_ ?_
  · intro p d o hm hobj
    have ha := allocated_of_mem (l := .opened .mq p) h.wired trivial hm
    rw [hu.descriptor .mq d (.inr ha)] at hobj
    exact h.openListed p d o hm hobj
  · rw [hu.rest]
  · rw [hu.rest]
  · rw [hu.rest]
  · exact hu.pool _ (by decide) (by decide)

/-- Opening a listed message queue keeps all lists but those of the descriptors. -/
theorem tables_openDescriptor (h : Tables k L) (hl : Listed L mq) (r : Nat) (err : Int) :
    ∃ L', Tables (k.openDescriptor .mq r mq err) L' ∧ SameQueues L L' ∧
      (k.openDescriptor .mq r mq err).messageQueue = k.messageQueue ∧
      (k.openDescriptor .mq r mq err).pool .message = k.pool .message := by
  rcases openDescriptor_cases h.wired (t := .mq) trivial trivial r mq err with
    ⟨d, ptr, ho⟩ | hu
  · refine ⟨_, tables_opened h hl ho, fun l hno hnu => ?_, ?_, ?_⟩
    · rw [Function.update_of_ne (hnu mq), Function.update_of_ne (hno r)]
    · rw [ho.rest]
    · exact ho.pool _ (by decide) (by decide)
  · refine ⟨_, tables_unopened h hu, fun _ _ _ => rfl, ?_, ?_⟩
    · rw [hu.rest]
    · exact hu.pool _ (by decide) (by decide)

theorem tables_closed (h : Tables k L) (hm : ⟨.mqDescriptor, d⟩ ∈ L (.opened .mq r))
    (hc : Closed Everything k L .mq r mq d ptr k') :
    Tables k' (Function.update
      (Function.update L (.opened .mq r) ((L (.opened .mq r)).erase ⟨.mqDescriptor, d⟩))
      (.users .mq mq) ((L (.users .mq mq)).erase ⟨.mqDescriptorPtr, ptr⟩)) := by
  have hb := bound_closed h.wired trivial trivial h.bound hm hc
  refine tables_rebind h hc.wired hb ?_ ?_ ?_ ?_ ?_ ?_
  · intro p d' o hx hobj
    have hx := ((closed_mem (nodup (l := .opened .mq r) h.wired trivial)
      (nodup (l := .users .mq mq) h.wired trivial)).mp hx).1
    rw [hc.rest] at hobj
    exact h.openListed p d' o hx hobj
  · intro l hno hnu
    rw [Function.update_of_ne (hnu mq), Function.update_of_ne (hno r)]
  · rw [hc.rest]
  · rw [hc.rest]
  · rw [hc.rest]
  · exact hc.pool _ (by decide) (by decide)

/-- `mqClose` keeps all lists but those of the descriptors. -/
theorem mqClose_tables (h : Tables k L) (hclose : internalMqClose k = .ok k') :
    ∃ L', Tables k' L' ∧ SameQueues L L' ∧
      k'.messageQueue = k.messageQueue ∧ k'.pool .message = k.pool .message := by
  obtain ⟨r, _, ⟨v, rfl⟩ | ⟨d, mq, v, hb, rfl⟩⟩ := mqClose_cases hclose
  · exact ⟨L, tables_setRetvalue h, fun _ _ _ => rfl, rfl, rfl⟩
  · obtain ⟨hm, _, ho⟩ := boundTo_some h.wired trivial hb
    obtain ⟨ptr, hptr, hu⟩ := pointer_of_open h.bound (by decide) hm ho
    obtain ⟨_, hc⟩ := closeDescriptor_closed (t := .mq) h.wired trivial trivial hm hptr hu
    refine ⟨_, tables_setRetvalue (tables_closed h hm hc), fun l hno hnu => ?_, ?_, ?_⟩
    · rw [Function.update_of_ne (hnu mq), Function.update_of_ne (hno r)]
    · change (k.closeDescriptor .mq r d mq).2.messageQueue = _
      rw [hc.rest]
    · exact hc.pool _ (by decide) (by decide)

/-! ## Creation -/

theorem nodeKind_messageQueue {l : HeadAddr} (h : l.nodeKind = .messageQueue) :
    l = .messageQueuesList := by
  cases l with
  | messageQueuesList => rfl
  | opened t p => cases t <;> cases h
  | users t o => cases t <;> cases h
  | _ => cases h

/-- No message queue is listed, and nothing is open or queued. -/
structure Idle (k : Kernel) (L : HeadAddr → List Node) : Prop where
  wired : Wired Everything k L
  list : L .messageQueuesList = []
  opened : ∀ p, L (.opened .mq p) = []
  users : ∀ o, L (.users .mq o) = []
  ownQueues : ∀ mq, L (.queues mq) ≠ [] → Allocated k .messageQueue mq
  messages : ∀ q, L (.messages q) = []

theorem tables_of_idle (h : Idle k L) : Tables k L := by
  have hno : ∀ i, ¬ Listed L i := by
    intro i hi
    rw [Listed, h.list] at hi
    cases hi
  refine ⟨h.wired, ⟨?_, ?_⟩, ?_, ?_, ?_, ?_, ?_, h.ownQueues, ?_, ?_, ?_⟩
  · intro p d hm
    rw [h.opened] at hm
    cases hm
  · rintro o ptr (hm | ⟨hc, _⟩)
    · rw [h.users] at hm
      cases hm
    · cases hc
  · intro p d o hm
    rw [h.opened] at hm
    cases hm
  · exact fun i hi => absurd hi (hno i)
  · exact fun i _ hi => absurd hi (hno i)
  · exact fun i hi => absurd hi (hno i)
  · exact fun i hi => absurd hi (hno i)
  · exact fun j hne => absurd (h.messages j) hne
  · exact fun i hi => absurd hi (hno i)
  · intro j x hx
    rw [h.messages] at hx
    cases hx

/-- A pointer listed by an object makes the object a listed message queue. -/
theorem listed_of_users (h : Tables k L) (hne : L (.users .mq mq) ≠ []) : Listed L mq := by
  obtain ⟨x, hx⟩ := List.exists_mem_of_ne_nil _ hne
  rw [node_eq (l := .users .mq mq) h.wired trivial hx] at hx
  obtain ⟨p, d, _, _, ho, hm⟩ := h.bound.pointed mq x.idx (.inl hx)
  exact h.openListed p d mq hm ho

theorem idle_of_tables (h : Tables k L) (hlist : L .messageQueuesList = []) : Idle k L := by
  have hno : ∀ i, ¬ Listed L i := by
    intro i hi
    rw [Listed, hlist] at hi
    cases hi
  refine ⟨h.wired, hlist, fun p => ?_, fun o => ?_, h.ownQueues, fun j => ?_⟩
  · refine List.eq_nil_iff_forall_not_mem.mpr fun x hx => ?_
    rw [node_eq (l := .opened .mq p) h.wired trivial hx] at hx
    obtain ⟨o, _, _, ho, _⟩ := h.bound.opened p x.idx hx
    exact hno o (h.openListed p x.idx o hx ho)
  · exact Classical.byContradiction fun hne => hno o (listed_of_users h hne)
  · refine Classical.byContradiction fun hne => ?_
    obtain ⟨i, hi, _⟩ := h.ownMessages j hne
    exact hno i hi

/-- Allocating a message queue, which is not listed yet. -/
theorem tables_messageQueueAlloc {id priority : Int} {k₁ : Kernel} (h : Tables k L)
    (ha : k.messageQueueAlloc id priority = some (mq, k₁)) :
    Tables k₁ L ∧ ¬ Listed L mq ∧ L (.queues mq) = [] ∧ Allocated k₁ .messageQueue mq ∧
      k₁.messageQueue = Function.update k.messageQueue mq ⟨id, priority, 0⟩ ∧
      ∀ kind, kind ≠ .messageQueue → k₁.pool kind = k.pool kind := by
  unfold messageQueueAlloc at ha
  split at ha
  · cases ha
  · next i k₀ hnew =>
    obtain ⟨rfl, rfl⟩ := Prod.mk.inj (Option.some.inj ha)
    have hf := newItem_fresh h.wired.pooled hnew
    have hlisted : ¬ Listed L i := fun hl =>
      hf.fresh (allocated_of_mem (l := .messageQueuesList) h.wired trivial hl)
    have hqueues : L (.queues i) = [] :=
      Classical.byContradiction fun hne => hf.fresh (h.ownQueues i hne)
    have husers : L (.users .mq i) = [] :=
      Classical.byContradiction fun hne => hlisted (listed_of_users h hne)
    have hw : Wired Everything ((({ k₀ with
        messageQueue := Function.update k₀.messageQueue i ⟨id, priority, 0⟩ } : Kernel).initList
          (.queues i)).initList (.users .mq i)) L :=
      wired_initList (wired_initList (wired_congr (wired_newItem h.wired hf) rfl rfl)
        fun _ => hqueues) fun _ => husers
    have hrest : k₀.queue = k.queue ∧ k₀.message = k.message ∧ k₀.descriptor = k.descriptor ∧
        k₀.descriptorPtr = k.descriptorPtr ∧ k₀.messageQueue = k.messageQueue := by
      rw [hf.eq]
      exact ⟨rfl, rfl, rfl, rfl, rfl⟩
    refine ⟨tables_frame h hw (fun x hx => (hf.allocated _ _).mpr (.inr hx)) (fun x hx => ?_)
      hrest.1 hrest.2.1 hrest.2.2.1 hrest.2.2.2.1, hlisted, hqueues, ?_, ?_, ?_⟩
    · change Function.update k₀.messageQueue i _ x = _
      have hne : x ≠ i := by
        rintro rfl
        exact hlisted hx
      rw [Function.update_of_ne hne, hrest.2.2.2.2]
    · exact (hf.allocated _ _).mpr (.inl ⟨rfl, rfl⟩)
    · change Function.update k₀.messageQueue i _ = _
      rw [hrest.2.2.2.2]
    · intro kind hne
      change k₀.pool kind = _
      exact fresh_pool hf hne

/-- Behind an empty list, `addQueues` pushes one queue for each class. -/
theorem addQueues_idle {n : Nat} {i : Int} {b : Bool} (h : Idle k L) (hi : 0 ≤ i)
    (ha : Allocated k .messageQueue mq)
    (hc : classesOf k L mq = (ascending 0 i.toNat).reverse)
    (hadd : addQueues mq i n k = (b, k')) :
    ∃ L', Idle k' L' ∧ Allocated k' .messageQueue mq ∧ k'.messageQueue = k.messageQueue ∧
      k'.pool .message = k.pool .message ∧
      (b = true → classesOf k' L' mq = (ascending 0 (i + n).toNat).reverse) := by
  induction n generalizing i k L with
  | zero =>
    cases hadd
    exact ⟨L, h, ha, rfl, rfl, fun _ => by simpa using hc⟩
  | succ n ih =>
    rw [addQueues] at hadd
    split at hadd
    · cases hadd
      exact ⟨L, h, ha, rfl, rfl, fun hb => nomatch hb⟩
    · next q k₁ halloc =>
      unfold queueAlloc at halloc
      split at halloc
      · cases halloc
      · next j k₀ hnew =>
        obtain ⟨rfl, rfl⟩ := Prod.mk.inj (Option.some.inj halloc)
        have hf := newItem_fresh h.wired.pooled hnew
        have hrest : k₀.queue = k.queue ∧ k₀.messageQueue = k.messageQueue ∧
            k₀.pool .message = k.pool .message := by
          refine ⟨?_, ?_, fresh_pool hf (by decide)⟩ <;> rw [hf.eq]
        generalize hk₁ : ({ k₀ with queue := Function.update k₀.queue j ⟨i⟩ } : Kernel).initList
          (.messages j) = k₁ at hadd
        have hw₁ : Wired Everything k₁ L := by
          rw [← hk₁]
          exact wired_initList (wired_congr (wired_newItem h.wired hf) rfl rfl)
            fun _ => h.messages j
        have hall : ∀ kind x, Allocated k₁ kind x ↔ (kind = .queue ∧ x = j) ∨ Allocated k kind x :=
          fun kind x => (allocated_congr (by rw [← hk₁]; rfl)).trans (hf.allocated kind x)
        have hlast : (k₁.head .messageQueuesList).last = none := by
          rw [last_eq (l := .messageQueuesList) hw₁ trivial, h.list]
          rfl
        rw [hlast] at hadd
        have hw₂ := wired_push (l := .queues mq) (x := ⟨.queue, j⟩) hw₁ trivial rfl
          ((hall _ _).mpr (.inl ⟨rfl, rfl⟩))
          fun l _ => fresh_unlisted (l := l) h.wired hf.fresh trivial
        have hL : ∀ l, l ≠ .queues mq →
            Function.update L (.queues mq) (⟨.queue, j⟩ :: L (.queues mq)) l = L l :=
          fun l hne => Function.update_of_ne hne _ _
        have hidle : Idle (k₁.insert (.queues mq) none ⟨.queue, j⟩)
            (Function.update L (.queues mq) (⟨.queue, j⟩ :: L (.queues mq))) := by
          refine ⟨hw₂, ?_, fun p => ?_, fun o => ?_, fun x hne => ?_, fun x => ?_⟩
          · rw [hL _ (by simp), h.list]
          · rw [hL _ (by simp), h.opened]
          · rw [hL _ (by simp), h.users]
          · refine (hall _ _).mpr (.inr ?_)
            by_cases hx : x = mq
            · rwa [hx]
            · rw [hL _ (by simpa using hx)] at hne
              exact h.ownQueues x hne
          · rw [hL _ (by simp), h.messages]
        have hclasses : classesOf (k₁.insert (.queues mq) none ⟨.queue, j⟩)
            (Function.update L (.queues mq) (⟨.queue, j⟩ :: L (.queues mq))) mq =
              (ascending 0 (i + 1).toNat).reverse := by
          have hq₁ : k₁.queue = Function.update k.queue j ⟨i⟩ := by
            rw [← hk₁, ← hrest.1]
            rfl
          have hsucc : ascending 0 (i + 1).toNat = ascending 0 i.toNat ++ [i] := by
            rw [show (i + 1).toNat = i.toNat + 1 by omega, ascending_succ]
            congr 2
            omega
          unfold classesOf
          rw [Function.update_self, List.map_cons]
          change (k₁.queue j).priority :: List.map (fun x : Node => (k₁.queue x.idx).priority) _ = _
          rw [hq₁, Function.update_self, hsucc, List.reverse_append, ← hc]
          refine congrArg (i :: ·) (List.map_congr_left fun x hx => ?_)
          have hne : x.idx ≠ j := by
            rintro rfl
            rw [node_eq (l := .queues mq) h.wired trivial hx] at hx
            exact fresh_unlisted (l := .queues mq) h.wired hf.fresh trivial hx
          rw [Function.update_of_ne hne]
        obtain ⟨L', hidle', ha', hmq, hpool, hb⟩ := ih hidle (by omega)
          ((hall _ _).mpr (.inr ha)) hclasses hadd
        refine ⟨L', hidle', ha', ?_, ?_, fun hbt => ?_⟩
        · rw [hmq]
          change k₁.messageQueue = _
          rw [← hk₁, ← hrest.2.1]
          rfl
        · rw [hpool]
          change k₁.pool .message = _
          rw [← hk₁, ← hrest.2.2]
          rfl
        · rw [hb hbt]
          congr 3
          omega

/-- A message queue with its classes complete becomes the only listed one. -/
theorem tables_listed (h : Idle k L) (ha : Allocated k .messageQueue mq)
    (hid : 0 ≤ (k.messageQueue mq).id) (hprio : 0 ≤ (k.messageQueue mq).priority)
    (hmax : (k.messageQueue mq).priority ≤ MAX_NUM_QUEUES)
    (hnum : (k.messageQueue mq).numMessages = 0)
    (hc : classesOf k L mq = (ascending 0 ((k.messageQueue mq).priority + 1).toNat).reverse) :
    Tables (k.append .messageQueuesList ⟨.messageQueue, mq⟩)
      (Function.update L .messageQueuesList [⟨.messageQueue, mq⟩]) := by
  have hw := wired_append (l := .messageQueuesList) (x := ⟨.messageQueue, mq⟩) h.wired trivial rfl
    ha (unlisted_of_kind h.wired fun l hk hx => by
      rw [nodeKind_messageQueue hk, h.list] at hx
      cases hx)
  rw [h.list, List.nil_append] at hw
  have hL : ∀ l, l ≠ .messageQueuesList →
      Function.update L .messageQueuesList [⟨.messageQueue, mq⟩] l = L l :=
    fun l hne => Function.update_of_ne hne _ _
  have hlisted : ∀ i, Listed (Function.update L .messageQueuesList [⟨.messageQueue, mq⟩]) i →
      i = mq := by
    intro i hi
    rw [Listed, Function.update_self, List.mem_singleton] at hi
    cases hi
    rfl
  refine ⟨hw, ⟨?_, ?_⟩, ?_, ?_, ?_, ?_, ?_, ?_, ?_, ?_, ?_⟩
  · intro p d hm
    rw [hL _ (by simp), h.opened] at hm
    cases hm
  · rintro o ptr (hm | ⟨hc, _⟩)
    · rw [hL _ (by simp), h.users] at hm
      cases hm
    · cases hc
  · intro p d o hm
    rw [hL _ (by simp), h.opened] at hm
    cases hm
  · intro i hi
    obtain rfl := hlisted i hi
    exact hid
  · intro i j hi hj _
    rw [hlisted i hi, hlisted j hj]
  · intro i hi
    obtain rfl := hlisted i hi
    exact ⟨hprio, hmax⟩
  · intro i hi
    obtain rfl := hlisted i hi
    unfold classesOf
    rw [hL _ (by simp)]
    change (classesOf k L i).Perm (ascending 0 ((k.messageQueue i).priority + 1).toNat)
    rw [hc]
    exact List.reverse_perm _
  · intro i hne
    rw [hL _ (by simp)] at hne
    exact h.ownQueues i hne
  · intro j hne
    rw [hL _ (by simp), h.messages] at hne
    exact absurd rfl hne
  · intro i hi
    obtain rfl := hlisted i hi
    have hzero : linkedMessages (Function.update L .messageQueuesList [⟨.messageQueue, i⟩]) i = 0 := by
      unfold linkedMessages
      refine List.sum_eq_zero fun n hn => ?_
      obtain ⟨x, _, rfl⟩ := List.mem_map.mp hn
      rw [hL _ (by simp), h.messages]
      rfl
    rw [hzero]
    change _ ≤ (k.messageQueue i).numMessages
    omega
  · intro j x hx
    rw [hL _ (by simp), h.messages] at hx
    cases hx

/-- Creating a message queue while none is listed, up to its descriptor. -/
theorem created_tables {id priority : Int} {k₁ k₂ : Kernel} {b : Bool} (h : Idle k L)
    (hid : 0 ≤ id) (h0 : 0 ≤ priority) (hmax : priority ≤ MAX_NUM_QUEUES)
    (ha : k.messageQueueAlloc id priority = some (mq, k₁))
    (hadd : addQueues mq 0 (priority + 1).toNat k₁ = (b, k₂)) :
    k₂.pool .message = k.pool .message ∧ ∃ L₂, Idle k₂ L₂ ∧
      (b = true → k₂.messageQueue mq = ⟨id, priority, 0⟩ ∧
        Tables (k₂.append .messageQueuesList ⟨.messageQueue, mq⟩)
          (Function.update L₂ .messageQueuesList [⟨.messageQueue, mq⟩])) := by
  obtain ⟨ht, _, hq, hall, hobj, hpool⟩ := tables_messageQueueAlloc (tables_of_idle h) ha
  have hidle₁ : Idle k₁ L := idle_of_tables ht h.list
  have hnil : classesOf k₁ L mq = (ascending 0 (0 : Int).toNat).reverse := by
    unfold classesOf
    rw [hq]
    rfl
  obtain ⟨L₂, hidle₂, hall₂, hmq₂, hpool₂, hclasses⟩ :=
    addQueues_idle hidle₁ (Int.le_refl 0) hall hnil hadd
  have hobj₂ : k₂.messageQueue mq = ⟨id, priority, 0⟩ := by
    rw [hmq₂, hobj, Function.update_self]
  refine ⟨hpool₂.trans (hpool _ (by decide)), L₂, hidle₂, fun hb => ?_⟩
  refine ⟨hobj₂, tables_listed hidle₂ hall₂ ?_ ?_ ?_ ?_ ?_⟩
  · rw [hobj₂]
    exact hid
  · rw [hobj₂]
    exact h0
  · rw [hobj₂]
    exact hmax
  · rw [hobj₂]
  · rw [hclasses hb, hobj₂]
    congr 3
    change _ = priority + 1
    omega

theorem newItem_eq_none_iff (kind : Kind) : k.newItem kind = none ↔ k.getBlock kind = none := by
  unfold newItem
  cases k.getBlock kind <;> simp

/-- Without a free queue block, `addQueues` fails at once. -/
theorem addQueues_none {n : Nat} {i : Int} (hn : 0 < n) (hq : k.getBlock .queue = none) :
    addQueues mq i n k = (false, k) := by
  cases n with
  | zero => omega
  | succ n =>
    rw [addQueues, queueAlloc, (newItem_eq_none_iff .queue).mpr hq]

/-- What is found in the list of message queues is one of them. -/
theorem listed_of_byId {id : Int} {x : Node} (h : Tables k L)
    (hfound : k.messageQueueListById .messageQueuesList id = .ok (some x)) :
    x.kind = .messageQueue ∧ Listed L x.idx := by
  rw [byId_eq h.wired trivial, Except.ok.injEq] at hfound
  have hx := List.mem_of_find?_eq_some hfound
  have hkind : x.kind = .messageQueue := h.wired.kind .messageQueuesList x trivial hx
  refine ⟨hkind, ?_⟩
  obtain ⟨kind, i⟩ := x
  cases hkind
  exact hx

/-- `mqOpen` keeps the tables unless it inserts queues behind a listed message queue.
Either the message queues stay as they are, or one is created as the first. -/
theorem mqOpen_tables (h : Tables k L) (hopen : internalMqOpen k = .ok k')
    (hgood : ∀ r, k.running = some r → Creates k r → (k.getBlock .messageQueue).isSome →
      (k.getBlock .queue).isSome → (k.head .messageQueuesList).first = none) :
    (∃ L', Tables k' L' ∧ SameQueues L L' ∧
        (∀ i, Listed L i → k'.messageQueue i = k.messageQueue i) ∧
        k'.pool .message = k.pool .message) ∨
      (Idle k L ∧ ∃ L', Tables k' L' ∧ (∀ q, L' (.messages q) = []) ∧
        (∀ r, k.running = some r → ∀ i, Listed L' i →
          k'.messageQueue i = ⟨toInt (k.arg r 0), toInt (k.arg r 2), 0⟩) ∧
        k'.pool .message = k.pool .message) := by
  obtain ⟨r, hr, rfl | ⟨x, hfound, _, hx⟩ | ⟨hc, mq, k₁, b, k₂, halloc, hadd, rfl⟩⟩ :=
    mqOpen_cases hopen
  · exact .inl ⟨L, tables_setRetvalue h, fun _ _ _ => rfl, fun _ _ => rfl, rfl⟩
  · obtain ⟨L', ht, hL, hmq, hpool⟩ :=
      tables_openDescriptor h (listed_of_byId h hfound).2 r DSOS_EMQOPEN
    obtain ⟨rfl, -⟩ := openFound_ok hx
    exact .inl ⟨L', ht, hL, fun i _ => congrFun hmq i, hpool⟩
  · have hmqblock : (k.getBlock .messageQueue).isSome := by
      by_contra hno
      rw [Option.not_isSome_iff_eq_none] at hno
      rw [messageQueueAlloc, (newItem_eq_none_iff .messageQueue).mpr hno] at halloc
      cases halloc
    obtain ⟨ht₁, hno₁, _, _, hobj₁, hpool₁⟩ := tables_messageQueueAlloc h halloc
    cases hqblock : k.getBlock .queue with
    | none =>
      have hnone : k₁.getBlock .queue = none := by
        rw [getBlock_eq_none ht₁.wired.pooled, hpool₁ .queue (by decide)]
        exact (getBlock_eq_none h.wired.pooled).mp hqblock
      have hpos : 0 < (toInt (k.arg r 2) + 1).toNat := by
        have := hc.2.2.2.2.2.1
        omega
      rw [addQueues_none hpos hnone] at hadd
      cases hadd
      refine .inl ⟨L, tables_setRetvalue ht₁, fun _ _ _ => rfl, fun i hi => ?_, ?_⟩
      · change k₁.messageQueue i = _
        have hne : i ≠ mq := by
          rintro rfl
          exact hno₁ hi
        rw [hobj₁, Function.update_of_ne hne]
      · exact hpool₁ _ (by decide)
    | some _ =>
      have hfirst := hgood r hr hc hmqblock (by rw [hqblock]; rfl)
      have hlist : L .messageQueuesList = [] := by
        rw [first_eq (l := .messageQueuesList) h.wired trivial] at hfirst
        exact List.head?_eq_none_iff.mp hfirst
      have hidle := idle_of_tables h hlist
      obtain ⟨hpool, L₂, hidle₂, hnew⟩ := created_tables hidle hc.2.1 hc.2.2.2.2.2.1
        hc.2.2.2.2.2.2 halloc hadd
      refine .inr ⟨hidle, ?_⟩
      cases b with
      | false =>
        refine ⟨L₂, tables_setRetvalue (tables_of_idle hidle₂), hidle₂.messages, ?_, hpool⟩
        intro _ _ i hi
        rw [Listed, hidle₂.list] at hi
        cases hi
      | true =>
        obtain ⟨hobj, ht⟩ := hnew rfl
        have hl : Listed (Function.update L₂ .messageQueuesList [⟨.messageQueue, mq⟩]) mq := by
          rw [Listed, Function.update_self]
          exact List.mem_singleton_self _
        obtain ⟨L', ht', hL, hmq, hpool'⟩ := tables_openDescriptor ht hl r DSOS_EMQOPEN
        refine ⟨L', ht', fun q => ?_, fun r' hr' i hi => ?_, hpool'.trans hpool⟩
        · rw [hL _ (by simp) (by simp), Function.update_of_ne (by simp), hidle₂.messages]
        · rw [Listed, hL _ (by simp) (by simp), Function.update_self, List.mem_singleton] at hi
          cases hi
          have he : r' = r := Option.some.inj (hr'.symm.trans hr)
          rw [if_pos rfl, hmq, he]
          exact hobj

/-! ## Removal -/

/-- Taking an empty queue off an unlisted message queue and freeing it. -/
theorem tables_freeQueue {rest : List Node} (h : Tables k L) (hno : ¬ Listed L mq)
    (hL : L (.queues mq) = ⟨.queue, q⟩ :: rest) :
    Tables ((k.detach (.queues mq) ⟨.queue, q⟩).releaseBlock .queue q)
      (Function.update L (.queues mq) rest) := by
  have hq : ⟨.queue, q⟩ ∈ L (.queues mq) := by
    rw [hL]
    exact List.mem_cons_self
  have ha : Allocated k .queue q := allocated_of_mem (l := .queues mq) h.wired trivial hq
  have hw := wired_releaseBlock .queue q
    (wired_detach (l := .queues mq) h.wired trivial hq) ha fun _ _ =>
      h.wired.threaded.not_mem_erased trivial hq trivial
  rw [hL, List.erase_cons_head] at hw
  have hrel := releaseBlock_returned (k := k.detach (.queues mq) ⟨.queue, q⟩)
    .queue q (pooled_congr rfl h.wired.pooled) ha
  have hother : ∀ l, l ≠ .queues mq → Function.update L (.queues mq) rest l = L l :=
    fun l hne => Function.update_of_ne hne _ _
  have hlisted : ∀ i, Listed (Function.update L (.queues mq) rest) i → Listed L i ∧ i ≠ mq := by
    intro i hi
    rw [Listed, hother _ (by simp)] at hi
    exact ⟨hi, fun he => hno (he ▸ hi)⟩
  have hqueues : ∀ i, i ≠ mq → Function.update L (.queues mq) rest (.queues i) = L (.queues i) :=
    fun i hne => hother _ (by simpa using hne)
  have hmessages : ∀ j, Function.update L (.queues mq) rest (.messages j) = L (.messages j) :=
    fun j => hother _ (by simp)
  have hback : ∀ i, Listed L i → Listed (Function.update L (.queues mq) rest) i := by
    intro i hi
    rwa [Listed, hother _ (by simp)]
  refine ⟨hw, ?_, ?_, ?_, ?_, ?_, ?_, ?_, ?_, ?_, ?_⟩
  · refine bound_congr h.bound (fun p => hother _ (by simp)) (fun o ptr => ?_) (fun _ _ _ => rfl)
      fun _ _ _ => rfl
    unfold PointerListed
    rw [hother _ (by simp), hother _ (by simp)]
  · intro p d o hm ho
    rw [hother _ (by simp)] at hm
    exact hback o (h.openListed p d o hm ho)
  · exact fun i hi => h.id_nonneg i (hlisted i hi).1
  · exact fun i j hi hj he => h.id_inj i j (hlisted i hi).1 (hlisted j hj).1 he
  · exact fun i hi => h.priority i (hlisted i hi).1
  · intro i hi
    unfold classesOf
    rw [hqueues i (hlisted i hi).2]
    exact h.classes i (hlisted i hi).1
  · intro i hne
    refine (hrel.allocated _ _).mpr ⟨(fun he => nomatch he.1), h.ownQueues i ?_⟩
    by_cases hi : i = mq
    · rw [hi, hL]
      exact List.cons_ne_nil _ _
    · rwa [hqueues i hi] at hne
  · intro j hne
    rw [hmessages] at hne
    obtain ⟨i, hi, hm⟩ := h.ownMessages j hne
    have hi' := hback i hi
    exact ⟨i, hi', by rwa [hqueues i (hlisted i hi').2]⟩
  · intro i hi
    unfold linkedMessages
    rw [hqueues i (hlisted i hi).2]
    simp only [hmessages]
    exact h.counted i (hlisted i hi).1
  · intro j x hx
    rw [hmessages] at hx
    exact h.texts j x hx

/-- `removeQueues` takes all queues, which hold no messages, off an unlisted message queue. -/
theorem removeQueues_ok {n : Nat} (h : Tables k L) (hno : ¬ Listed L mq)
    (hempty : ∀ q, ⟨.queue, q⟩ ∈ L (.queues mq) → L (.messages q) = [])
    (hn : (L (.queues mq)).length = n) :
    ∃ k', removeQueues mq n k = .ok k' ∧ Tables k' (Function.update L (.queues mq) []) ∧
      k'.messageQueue = k.messageQueue ∧ k'.pool .message = k.pool .message ∧
      k'.pool .messageQueue = k.pool .messageQueue := by
  induction n generalizing k L with
  | zero =>
    have hnil : L (.queues mq) = [] := List.length_eq_zero_iff.mp hn
    refine ⟨k, rfl, ?_, rfl, rfl, rfl⟩
    rwa [← hnil, Function.update_eq_self]
  | succ n ih =>
    cases hL : L (.queues mq) with
    | nil =>
      rw [hL] at hn
      cases hn
    | cons x rest =>
      have hx : x ∈ L (.queues mq) := by
        rw [hL]
        exact List.mem_cons_self
      rw [node_eq (l := .queues mq) h.wired trivial hx] at hL hx
      have hq : L (.messages x.idx) = [] := hempty x.idx hx
      have hfirst : (k.head (.messages x.idx)).first = none := by
        rw [first_eq (l := .messages x.idx) h.wired trivial, hq]
        rfl
      have hlast : (k.head (.messages x.idx)).last = none := by
        rw [last_eq (l := .messages x.idx) h.wired trivial, hq]
        rfl
      have hsize : (k.head (.messages x.idx)).size = 0 :=
        (size_zero_iff (l := .messages x.idx) h.wired trivial).mpr hq
      have hhead : ((k.detach (.queues mq) ⟨.queue, x.idx⟩).head (.messages x.idx)) =
          k.head (.messages x.idx) := Sequences.detach_head k.lists _ (by simp)
      have hfree : (k.detach (.queues mq) ⟨.queue, x.idx⟩).queueFree x.idx =
          .ok ((k.detach (.queues mq) ⟨.queue, x.idx⟩).releaseBlock .queue x.idx) := by
        unfold queueFree freeUnused
        rw [hhead, if_pos ⟨hfirst, hlast⟩]
      have ht := tables_freeQueue h hno hL
      obtain ⟨k', hrun, ht', hmq, hpool, hpool'⟩ := ih ht
        (by rwa [Listed, Function.update_of_ne (by simp)])
        (fun q hqm => by
          rw [Function.update_self] at hqm
          rw [Function.update_of_ne (by simp)]
          refine hempty q ?_
          rw [hL]
          exact List.mem_cons_of_mem _ hqm)
        (by
          rw [hL, List.length_cons] at hn
          rw [Function.update_self]
          omega)
      refine ⟨k', ?_, ?_, hmq, ?_, ?_⟩
      · have hd : k.detachFirst (.queues mq) =
            .ok (x.idx, k.detach (.queues mq) ⟨.queue, x.idx⟩) :=
          detachFirst_cons (l := .queues mq) h.wired trivial hL
        rw [removeQueues, hd]
        simp only [bind, Except.bind, hhead, hsize, if_true, hfree]
        exact hrun
      · rwa [Function.update_idem] at ht'
      · exact hpool.trans (releaseBlock_pool _ _ (by decide))
      · exact hpool'.trans (releaseBlock_pool _ _ (by decide))

/-- Taking a message queue without users and messages out of the list. -/
theorem tables_unlisted (h : Tables k L) (hl : Listed L mq) (husers : L (.users .mq mq) = [])
    (hempty : ∀ q, ⟨.queue, q⟩ ∈ L (.queues mq) → L (.messages q) = []) :
    Tables (k.detach .messageQueuesList ⟨.messageQueue, mq⟩)
        (Function.update L .messageQueuesList
          ((L .messageQueuesList).erase ⟨.messageQueue, mq⟩)) ∧
      ¬ Listed (Function.update L .messageQueuesList
          ((L .messageQueuesList).erase ⟨.messageQueue, mq⟩)) mq := by
  have hn := nodup (l := .messageQueuesList) h.wired trivial
  have hother : ∀ l, l ≠ .messageQueuesList → Function.update L .messageQueuesList
      ((L .messageQueuesList).erase ⟨.messageQueue, mq⟩) l = L l :=
    fun l hne => Function.update_of_ne hne _ _
  have hlisted : ∀ i, Listed (Function.update L .messageQueuesList
      ((L .messageQueuesList).erase ⟨.messageQueue, mq⟩)) i ↔ Listed L i ∧ i ≠ mq := by
    intro i
    unfold Listed
    rw [mem_erase_update hn]
    simp
  have hmessages : ∀ j, Function.update L .messageQueuesList
      ((L .messageQueuesList).erase ⟨.messageQueue, mq⟩) (.messages j) = L (.messages j) :=
    fun j => hother _ (by simp)
  have hqueues : ∀ i, Function.update L .messageQueuesList
      ((L .messageQueuesList).erase ⟨.messageQueue, mq⟩) (.queues i) = L (.queues i) :=
    fun i => hother _ (by simp)
  refine ⟨⟨wired_detach (l := .messageQueuesList) h.wired trivial hl, ?_, ?_, ?_, ?_, ?_, ?_, ?_,
    ?_, ?_, ?_⟩, fun hc => ((hlisted mq).mp hc).2 rfl⟩
  · refine bound_congr h.bound (fun p => hother _ (by simp)) (fun o ptr => ?_) (fun _ _ _ => rfl)
      fun _ _ _ => rfl
    unfold PointerListed
    rw [hother _ (by simp), hother _ (by simp)]
  · intro p d o hm ho
    rw [hother _ (by simp)] at hm
    refine (hlisted o).mpr ⟨h.openListed p d o hm ho, ?_⟩
    rintro rfl
    obtain ⟨ptr, _, hu⟩ := pointer_of_open h.bound (by decide) hm ho
    rw [husers] at hu
    cases hu
  · exact fun i hi => h.id_nonneg i ((hlisted i).mp hi).1
  · exact fun i j hi hj he => h.id_inj i j ((hlisted i).mp hi).1 ((hlisted j).mp hj).1 he
  · exact fun i hi => h.priority i ((hlisted i).mp hi).1
  · intro i hi
    unfold classesOf
    rw [hqueues]
    exact h.classes i ((hlisted i).mp hi).1
  · intro i hne
    rw [hqueues] at hne
    exact h.ownQueues i hne
  · intro j hne
    rw [hmessages] at hne
    obtain ⟨i, hi, hm⟩ := h.ownMessages j hne
    refine ⟨i, (hlisted i).mpr ⟨hi, ?_⟩, by rwa [hqueues]⟩
    rintro rfl
    exact hne (hempty j hm)
  · intro i hi
    unfold linkedMessages
    simp only [hqueues, hmessages]
    exact h.counted i ((hlisted i).mp hi).1
  · intro j x hx
    rw [hmessages] at hx
    exact h.texts j x hx

/-- Freeing an unlisted message queue without queues. -/
theorem tables_freeMessageQueue (h : Tables k L) (hno : ¬ Listed L mq)
    (hqueues : L (.queues mq) = []) (ha : Allocated k .messageQueue mq) :
    Tables (k.releaseBlock .messageQueue mq) L := by
  have hw := wired_releaseBlock _ _ h.wired ha (unlisted_of_kind h.wired fun l hk hx =>
    hno (by rwa [nodeKind_messageQueue hk] at hx))
  have hrel := releaseBlock_returned _ _ h.wired.pooled ha
  refine ⟨hw, bound_congr h.bound (fun _ => rfl) (fun _ _ => Iff.rfl) (fun _ _ _ => rfl)
    fun _ _ _ => rfl, h.openListed, h.id_nonneg, h.id_inj, h.priority, h.classes,
    fun i hne => ?_, h.ownMessages, h.counted, h.texts⟩
  refine (hrel.allocated _ _).mpr ⟨fun he => ?_, h.ownQueues i hne⟩
  rw [he.2] at hne
  exact hne hqueues

/-- A message queue without messages and descriptors is removed. -/
theorem mqUnlink_removes (h : Tables k L) (hr : k.running = some r)
    (hfound : k.messageQueueListById .messageQueuesList (toInt (k.arg r 0)) =
      .ok (some ⟨.messageQueue, mq⟩))
    (hnum : (k.messageQueue mq).numMessages = 0) (husers : (k.head (.users .mq mq)).size = 0) :
    ∃ k', internalMqUnlink k = .ok k' ∧
      Tables k' (Function.update (Function.update L .messageQueuesList
        ((L .messageQueuesList).erase ⟨.messageQueue, mq⟩)) (.queues mq) []) ∧
      (k'.pcb r).syscallRetvalue = 0 ∧ k'.messageQueue = k.messageQueue ∧
      k'.pool .message = k.pool .message := by
  have hl : Listed L mq := (listed_of_byId h hfound).2
  have husers' : L (.users .mq mq) = [] :=
    (size_zero_iff (l := .users .mq mq) h.wired trivial).mp husers
  have hzero : linkedMessages L mq = 0 := by
    have := h.counted mq hl
    omega
  have hempty := (linkedMessages_eq_zero h).mp hzero
  obtain ⟨ht₁, hno₁⟩ := tables_unlisted h hl husers' hempty
  generalize hL₁ : Function.update L .messageQueuesList
    ((L .messageQueuesList).erase ⟨.messageQueue, mq⟩) = L₁ at ht₁ hno₁ ⊢
  generalize hk₁ : k.detach .messageQueuesList ⟨.messageQueue, mq⟩ = k₁ at ht₁
  have hother : ∀ l, l ≠ .messageQueuesList → L₁ l = L l := by
    intro l hne
    rw [← hL₁, Function.update_of_ne hne]
  have hmq₁ : k₁.messageQueue = k.messageQueue := by rw [← hk₁]; rfl
  have hpool₁ : k₁.pool = k.pool := by rw [← hk₁]; rfl
  have hlen : (L₁ (.queues mq)).length = ((k₁.messageQueue mq).priority + 1).toNat := by
    have hp := (h.classes mq hl).length_eq
    rw [length_ascending, classesOf, List.length_map] at hp
    rw [hother _ (by simp), hmq₁, hp]
  have hempty₁ : ∀ q, ⟨.queue, q⟩ ∈ L₁ (.queues mq) → L₁ (.messages q) = [] := by
    intro q hq
    rw [hother _ (by simp)] at hq ⊢
    exact hempty q hq
  obtain ⟨k₂, hrun, ht₂, hmq₂, hpool₂, hpoolmq₂⟩ := removeQueues_ok ht₁ hno₁ hempty₁ hlen
  have ha₂ : Allocated k₂ .messageQueue mq := by
    unfold Allocated
    rw [hpoolmq₂, hpool₁]
    exact allocated_of_mem (l := .messageQueuesList) h.wired trivial hl
  have hno₂ : ¬ Listed (Function.update L₁ (.queues mq) []) mq := by
    rwa [Listed, Function.update_of_ne (by simp)]
  have ht₃ := tables_freeMessageQueue ht₂ hno₂ (Function.update_self ..) ha₂
  have hnil : Function.update L₁ (.queues mq) [] (.users .mq mq) = [] := by
    rw [Function.update_of_ne (by simp), hother _ (by simp), husers']
  have hfree : k₂.messageQueueFree mq = .ok (k₂.releaseBlock .messageQueue mq) := by
    unfold messageQueueFree freeUnused
    rw [if_pos]
    rw [first_eq (l := .users .mq mq) ht₂.wired trivial,
      last_eq (l := .users .mq mq) ht₂.wired trivial, hnil]
    exact ⟨rfl, rfl⟩
  refine ⟨(k₂.releaseBlock .messageQueue mq).setRetvalue r 0, ?_, tables_setRetvalue ht₃, ?_,
    ?_, ?_⟩
  · unfold internalMqUnlink
    simp only [hr, deref, bind, Except.bind, hfound, castTo, if_true, hnum, husers, ne_eq, not_true_eq_false,
      if_false, hk₁, hrun, hfree]
    rfl
  · exact setRetvalue_self _ r 0
  · exact hmq₂.trans hmq₁
  · change (k₂.releaseBlock .messageQueue mq).pool .message = _
    rw [releaseBlock_pool _ _ (by decide), hpool₂, hpool₁]

theorem mqUnlink_tables (h : Tables k L) (hunlink : internalMqUnlink k = .ok k') :
    (∃ r v, k' = k.setRetvalue r v) ∨
      ∃ mq, Listed L mq ∧ L (.users .mq mq) = [] ∧ (k.messageQueue mq).numMessages = 0 ∧
        Tables k' (Function.update (Function.update L .messageQueuesList
          ((L .messageQueuesList).erase ⟨.messageQueue, mq⟩)) (.queues mq) []) ∧
        k'.messageQueue = k.messageQueue ∧ k'.pool .message = k.pool .message := by
  obtain ⟨r, hr, ⟨v, rfl⟩ | ⟨mq, k₁, k₂, hfound, hnum, husers, _⟩⟩ := mqUnlink_cases hunlink
  · exact .inl ⟨r, v, rfl⟩
  · obtain ⟨k'', hrun, ht, _, hmq, hpool⟩ := mqUnlink_removes h hr hfound hnum husers
    rw [hunlink, Except.ok.injEq] at hrun
    subst hrun
    exact .inr ⟨mq, (listed_of_byId h hfound).2,
      (size_zero_iff (l := .users .mq mq) h.wired trivial).mp husers, hnum, ht, hmq, hpool⟩

end DisastrOS.MessageQueue.Lifecycle
