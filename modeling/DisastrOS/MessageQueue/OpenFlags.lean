import DisastrOS.MessageQueue.OpenAtomic
import Mathlib.Data.List.Find

/-!
# The flags of `mqOpen`

On a well-formed list `mqOpen` finds the message queue with the given id or creates it, as its
two flags say. It looks at `DSOS_EXCL` only where `DSOS_CREATE` is set, and it gives the number
that the caller counts to the new descriptor, whether or not that number is in use.
-/
namespace DisastrOS.MessageQueue.OpenFlags

open DisastrOS.Machine
open DisastrOS.Machine.Kernel
open DisastrOS.Machine.Runs
open DisastrOS.Lists.Sequences
open DisastrOS.Lists.Wiring
open DisastrOS.Lists.RegularLists
open DisastrOS.Lists.Chains
open DisastrOS.Lists.QueueChains
open DisastrOS.Pool.Blocks
open DisastrOS.Descriptors.Bindings
open DisastrOS.Descriptors.Tables
open DisastrOS.Process.Coherence
open DisastrOS.Process.FdTables
open DisastrOS.Process.Handles
open DisastrOS.Process.SystemRuns
open DisastrOS.Process.Transitions
open DisastrOS.MessageQueue.Calls
open DisastrOS.MessageQueue.CoherentCalls
open DisastrOS.MessageQueue.OpenAtomic
open DisastrOS.Library.GuardedRun
open DisastrOS.Library.LinkedSequence
open DisastrOS.Library.Outcome

variable {k k' k₁ : Kernel} {L L' L₁ : HeadAddr → List Node} {r mq d ptr : Nat} {mqs : List Nat}
  {args : List Int} {id : Int}

/-- A message queue of the list has the id that `r` asks for. -/
def Known (k : Kernel) (r : Nat) (mqs : List Nat) : Prop :=
  ∃ mq ∈ mqs, (k.messageQueue mq).id = toInt (k.arg r 0)

/-- The message queue is there and may be shared, or it is missing and may be created. -/
def Allowed (k : Kernel) (r : Nat) (mqs : List Nat) : Prop :=
  (Known k r mqs ∧ hasFlag (toInt (k.arg r 1)) DSOS_EXCL = false) ∨
    (¬ Known k r mqs ∧ hasFlag (toInt (k.arg r 1)) DSOS_CREATE = true)

/-- The id and the priority are accepted, and no quota and no pool is exhausted. -/
def Room (k : Kernel) (r : Nat) : Prop :=
  0 ≤ toInt (k.arg r 0) ∧ 0 ≤ toInt (k.arg r 2) ∧ toInt (k.arg r 2) ≤ MAX_NUM_QUEUES ∧
    (k.pcb r).lastMqFd + 1 ≤ MAX_NUM_MQDESCRIPTORS_PER_PROCESS ∧
    (k.head .messageQueuesList).size + 1 ≤ MAX_NUM_MQS ∧
    (k.pool .messageQueue).size ≠ 0 ∧ toInt (k.arg r 2) + 1 ≤ (k.pool .queue).size ∧
    (k.pool .mqDescriptor).size ≠ 0

instance : Decidable (Known k r mqs) := inferInstanceAs (Decidable (∃ _ ∈ mqs, _))

instance : Decidable (Room k r) := inferInstanceAs (Decidable (_ ∧ _))

/-- The message queues `mqs` with their queues and messages are as before, and so are all
descriptors and the lists that they are in. Only the descriptor `d` of `r` on `mq` is new. -/
structure OthersKept (k : Kernel) (mqs : List Nat) (r mq d ptr : Nat) (k' : Kernel) : Prop where
  record : ∀ o ∈ mqs, k'.messageQueue o = k.messageQueue o
  queues : ∀ o ∈ mqs, k'.head (.queues o) = k.head (.queues o)
  queue : ∀ q, Allocated k .queue q → k'.queue q = k.queue q ∧
    k'.lists.item ⟨.queue, q⟩ = k.lists.item ⟨.queue, q⟩
  messages : ∀ q, Allocated k .queue q → ∀ ms, Holds k.lists (.messages q) ms →
    Holds k'.lists (.messages q) ms
  message : k'.message = k.message
  descriptor : ∀ e, Allocated k .mqDescriptor e → k'.descriptor .mq e = k.descriptor .mq e
  pointer : ∀ e, Allocated k .mqDescriptorPtr e → k'.descriptorPtr .mq e = k.descriptorPtr .mq e
  opened : ∀ p ds, Holds k.lists (.opened .mq p) ds →
    Holds k'.lists (.opened .mq p) (if p = r then ds ++ [⟨.mqDescriptor, d⟩] else ds)
  users : ∀ o ∈ mqs, ∀ ps, Holds k.lists (.users .mq o) ps →
    Holds k'.lists (.users .mq o) (if o = mq then ps ++ [⟨.mqDescriptorPtr, ptr⟩] else ps)

/-- The number that is returned is bound to the message queue with the id, which is the one that
was there if there was one. -/
def OpensIt (k : Kernel) (r : Nat) (mqs : List Nat) (k' : Kernel) : Prop :=
  ∃ mq d ptr e, k'.boundTo .mq r (k'.pcb r).syscallRetvalue = .ok (some (e, mq)) ∧
    k'.messageQueueListById .messageQueuesList (toInt (k.arg r 0)) =
      .ok (some ⟨.messageQueue, mq⟩) ∧
    (Known k r mqs → mq ∈ mqs) ∧ OthersKept k mqs r mq d ptr k'

/-- What the flags promise of the call, on the state `k` with the registers filled in. -/
def Follows (k : Kernel) (r : Nat) (mqs : List Nat) (result : Except Fault Kernel) : Prop :=
  ∃ k', result = .ok k' ∧ (0 ≤ (k'.pcb r).syscallRetvalue ↔ Allowed k r mqs) ∧
    (0 ≤ (k'.pcb r).syscallRetvalue → OpensIt k r mqs k') ∧
    ((k'.pcb r).syscallRetvalue < 0 → MqUntouched k r k')

/-- The call follows its flags. -/
def FollowsFlags (k : Kernel) (r : Nat) (mqs : List Nat) (args : List Int) : Prop :=
  Follows (k.setCall r DSOS_CALL_MQOPEN args) r mqs (k.act (.syscall DSOS_CALL_MQOPEN args))

/-- The message queue is there, and `DSOS_EXCL` is set without `DSOS_CREATE`. -/
def ExclusiveOnly (k : Kernel) (r : Nat) (mqs : List Nat) : Prop :=
  Known k r mqs ∧ hasFlag (toInt (k.arg r 1)) DSOS_EXCL = true ∧
    hasFlag (toInt (k.arg r 1)) DSOS_CREATE = false

/-- A descriptor that `r` has open on another message queue has the number that `r` counts. -/
def NumberTaken (k : Kernel) (r : Nat) : Prop :=
  ∃ e o, k.boundTo .mq r (k.pcb r).lastMqFd = .ok (some (e, o)) ∧
    k.messageQueueListById .messageQueuesList (toInt (k.arg r 0)) ≠ .ok (some ⟨.messageQueue, o⟩)

/-! ## Searching the list -/

/-- A well-formed list is the chain of its head. -/
theorem chain_eq (h : Hung k L) {xs : List Node} (hw : Holds k.lists .messageQueuesList xs) :
    L .messageQueuesList = xs :=
  seg_unique (h.chained.links _ irregular_messageQueues) hw.links
    ((h.chained.first _ irregular_messageQueues).symm.trans hw.first)

theorem byId_missing (h : Settled k L) (hL : L .messageQueuesList = mqs.map (Node.mk .messageQueue))
    (hno : ∀ mq ∈ mqs, (k.messageQueue mq).id ≠ id) :
    k.messageQueueListById .messageQueuesList id = .ok none := by
  rw [h.byId_eq, hL]
  refine congrArg _ (List.find?_eq_none.mpr fun x hx => ?_)
  obtain ⟨mq, hmq, rfl⟩ := List.mem_map.mp hx
  simpa [intAtId] using hno mq hmq

/-- The message queue `mq` is in the chain, behind message queues with other ids. -/
structure FirstWithId (k : Kernel) (L : HeadAddr → List Node) (id : Int) (mq : Nat) : Prop where
  chain : ∃ as bs, L .messageQueuesList = as ++ ⟨.messageQueue, mq⟩ :: bs ∧
    ∀ x ∈ as, x.kind = .messageQueue ∧ (k.messageQueue x.idx).id ≠ id
  id : (k.messageQueue mq).id = id

theorem byId_first (h : Settled k L) (hmq : FirstWithId k L id mq) :
    k.messageQueueListById .messageQueuesList id = .ok (some ⟨.messageQueue, mq⟩) := by
  obtain ⟨as, bs, hL, has⟩ := hmq.chain
  rw [h.byId_eq, Except.ok.injEq, List.find?_eq_some_iff_append]
  refine ⟨by simp [intAtId, hmq.id], as, bs, hL, fun x hx => ?_⟩
  obtain ⟨hkind, hid⟩ := has x hx
  simp [intAtId, hkind, hid]

/-- The first message queue with the id, or none has it. -/
theorem first_or_missing (k : Kernel) (mqs : List Nat) (id : Int) :
    (∃ as mq bs, mqs = as ++ mq :: bs ∧ (∀ o ∈ as, (k.messageQueue o).id ≠ id) ∧
      (k.messageQueue mq).id = id) ∨ ∀ mq ∈ mqs, (k.messageQueue mq).id ≠ id := by
  induction mqs with
  | nil => exact .inr nofun
  | cons m mqs ih =>
    by_cases hm : (k.messageQueue m).id = id
    · exact .inl ⟨[], m, mqs, rfl, nofun, hm⟩
    · rcases ih with ⟨as, mq, bs, rfl, has, hmq⟩ | hno
      · refine .inl ⟨m :: as, mq, bs, rfl, fun o ho => ?_, hmq⟩
        rcases List.mem_cons.mp ho with rfl | ho
        · exact hm
        · exact has o ho
      · refine .inr fun o ho => ?_
        rcases List.mem_cons.mp ho with rfl | ho
        · exact hm
        · exact hno o ho

/-! ## The descriptor -/

/-- The message queue `mq` with the id is in the chain, and nothing else has been touched. -/
structure Provided (k : Kernel) (L : HeadAddr → List Node) (mqs : List Nat) (id : Int) (mq : Nat)
    (k' : Kernel) (L' : HeadAddr → List Node) : Prop where
  queued : Queued k L k' L'
  pcb : k'.pcb = k.pcb
  first : FirstWithId k' L' id mq
  record : ∀ o ∈ mqs, k'.messageQueue o = k.messageQueue o
  queues : ∀ o ∈ mqs, k'.head (.queues o) = k.head (.queues o)
  queue : ∀ q, Allocated k .queue q → k'.queue q = k.queue q ∧
    k'.lists.item ⟨.queue, q⟩ = k.lists.item ⟨.queue, q⟩
  messages : ∀ q, Allocated k .queue q → L' (.messages q) = L (.messages q)
  message : k'.message = k.message

theorem provided_found (hc : Coherent k L) {as bs : List Nat}
    (hL : L .messageQueuesList = (as ++ mq :: bs).map (Node.mk .messageQueue))
    (has : ∀ o ∈ as, (k.messageQueue o).id ≠ id) (hmq : (k.messageQueue mq).id = id) :
    Provided k L mqs id mq k L := by
  refine ⟨queued_same hc.settled rfl (fun _ _ => rfl) rfl, rfl,
    ⟨⟨as.map (Node.mk .messageQueue), bs.map (Node.mk .messageQueue), ?_, fun x hx => ?_⟩, hmq⟩,
    fun _ _ => rfl, fun _ _ => rfl, fun _ _ => ⟨rfl, rfl⟩, fun _ _ => rfl, rfl⟩
  · rw [hL, List.map_append, List.map_cons]
  · obtain ⟨o, ho, rfl⟩ := List.mem_map.mp hx
    exact ⟨rfl, has o ho⟩

theorem provided_created {priority : Int} (hc : Coherent k L)
    (hL : L .messageQueuesList = mqs.map (Node.mk .messageQueue))
    (hno : ∀ o ∈ mqs, (k.messageQueue o).id ≠ id) (hpcb : k'.pcb = k.pcb)
    (h : MqCreated k L mq id priority k' L') : Provided k L mqs id mq k' L' := by
  have hne : ∀ o ∈ mqs, o ≠ mq := by
    rintro o ho rfl
    refine h.fresh (hc.hung.live _ _ irregular_messageQueues ?_ : Allocated k _ (Node.mk _ o).idx)
    rw [hL]
    exact List.mem_map.mpr ⟨o, ho, rfl⟩
  have hrecord : ∀ o ∈ mqs, k'.messageQueue o = k.messageQueue o := by
    intro o ho
    rw [h.record, Function.update_of_ne (hne o ho)]
  obtain ⟨as, bs, qs, hsplit, hchain⟩ := h.chain
  refine ⟨h.queued, hpcb, ⟨⟨as, qs ++ bs, hchain, fun x hx => ?_⟩, ?_⟩, hrecord,
    fun o ho => (h.queues o (hne o ho)).1, fun q ha => ⟨(h.queue q ha).1, h.item q ha ?_⟩,
    fun q ha => (h.queue q ha).2, h.message⟩
  · have hx := List.mem_append_left bs hx
    rw [← hsplit, hL] at hx
    obtain ⟨o, ho, rfl⟩ := List.mem_map.mp hx
    refine ⟨rfl, ?_⟩
    rw [hrecord o ho]
    exact hno o ho
  · rw [h.record, Function.update_self]
  · rw [hL]
    intro hm
    obtain ⟨_, _, he⟩ := List.mem_map.mp hm
    cases he

/-- The number that is counted is bound to what it was bound to before, or else to the new
descriptor. -/
theorem boundTo_added (hs : Strung Regular Retained k L) (ht : Tied .mq k L)
    (h : Added Regular Retained k L .mq r mq d ptr k') :
    k'.boundTo .mq r (k.pcb r).lastMqFd = (k.boundTo .mq r (k.pcb r).lastMqFd).map
      fun found => some (found.getD (d, mq)) := by
  have hreg : Regular (HeadAddr.opened .mq r).nodeKind := regular_descriptorKind .mq
  have hd : k'.descriptor .mq d = ⟨some r, some mq, (k.pcb r).lastMqFd, some ptr⟩ := by
    rw [h.descriptor, Function.update_self, Function.update_self]
    rfl
  have hold : ∀ e ∈ (L (.opened .mq r)).map Node.idx, k'.descriptor .mq e = k.descriptor .mq e := by
    intro e he
    have hne : e ≠ d := by
      rintro rfl
      exact h.freshDescriptor (hs.allocated hreg (hs.mem_idx hreg he))
    rw [h.descriptor, Function.update_self, Function.update_of_ne hne]
  have hlist : withOpened L .mq r mq d ptr (.opened .mq r) =
      L (.opened .mq r) ++ [⟨.mqDescriptor, d⟩] := by
    unfold withOpened
    rw [Function.update_of_ne (by simp), Function.update_self]
    rfl
  unfold boundTo descriptorListByFd
  rw [h.strung.search_pure hreg, hs.search_pure hreg, hlist, List.map_append, List.find?_append]
  have hfind : ((L (.opened .mq r)).map Node.idx).find?
      (fun e => decide ((k'.descriptor .mq e).fd = (k.pcb r).lastMqFd)) =
      ((L (.opened .mq r)).map Node.idx).find?
        fun e => decide ((k.descriptor .mq e).fd = (k.pcb r).lastMqFd) := by
    refine List.find?_congr fun e he => ?_
    rw [hold e he]
  rw [hfind]
  cases hf : ((L (.opened .mq r)).map Node.idx).find?
      fun e => decide ((k.descriptor .mq e).fd = (k.pcb r).lastMqFd) with
  | none =>
    simp [hd, bind, Except.bind, pure, Except.pure, Except.map]
  | some e =>
    have he := List.mem_of_find?_eq_some hf
    obtain ⟨o, _, ho, -⟩ := ht.bound e (hs.allocated hreg (hs.mem_idx hreg he))
    simp [hold e he, ho, bind, Except.bind, pure, Except.pure, Except.map]

/-- A descriptor on the message queue leaves all others as they are. -/
theorem othersKept_added (hc : Coherent k L) (hp : Provided k L mqs id mq k₁ L₁)
    (h : Added Regular Retained k₁ L₁ .mq r mq d ptr k') : OthersKept k mqs r mq d ptr k' := by
  have hs := hc.tidy.strung
  have hirr : ∀ q, ¬ Regular (⟨.queue, q⟩ : Node).kind := fun q => irregular_queues q
  have hkept : ∀ {l : HeadAddr} {xs : List Node}, Regular l.nodeKind → Holds k.lists l xs →
      xs = L l := fun hl hxs => represents_unique hxs (hs.holds hl)
  have hd : k₁.descriptor = k.descriptor := by rw [hp.queued.rest]
  have hptr : k₁.descriptorPtr = k.descriptorPtr := by rw [hp.queued.rest]
  refine ⟨fun o ho => ?_, fun o ho => ?_, fun q ha => ⟨?_, ?_⟩, fun q ha ms hms => ?_, ?_,
    fun e he => ?_, fun e he => ?_, fun p ds hds => ?_, fun o _ ps hps => ?_⟩
  · rw [h.rest]
    exact hp.record o ho
  · exact (h.confined.head _ (irregular_queues o)).trans (hp.queues o ho)
  · rw [h.rest]
    exact (hp.queue q ha).1
  · exact (h.confined.item _ (hirr q)).trans (hp.queue q ha).2
  · have hl : Regular (HeadAddr.messages q).nodeKind := (by decide : Regular .message)
    have hholds := h.strung.holds hl
    rwa [withOpened, Function.update_of_ne (by simp), Function.update_of_ne (by simp),
      hp.messages q ha, ← hkept hl hms] at hholds
  · rw [h.rest]
    exact hp.message
  · have hne : e ≠ d := by
      rintro rfl
      exact h.freshDescriptor ((allocated_of_pool (hp.queued.pool _ (by decide))).mpr he)
    rw [h.descriptor, Function.update_self, Function.update_of_ne hne, hd]
  · have hne : e ≠ ptr := by
      rintro rfl
      exact h.freshPointer ((allocated_of_pool (hp.queued.pool _ (by decide))).mpr he)
    rw [h.descriptorPtr, Function.update_self, Function.update_of_ne hne, hptr]
  · have hl : Regular (HeadAddr.opened .mq p).nodeKind := regular_descriptorKind .mq
    have hholds := h.strung.holds hl
    have hsame : L₁ (.opened .mq p) = ds :=
      (hp.queued.lists (.opened .mq p) (not_queueKind_table .mq).1).trans (hkept hl hds).symm
    rw [withOpened, Function.update_of_ne (by simp)] at hholds
    split
    · next he =>
      subst he
      rwa [Function.update_self, hsame] at hholds
    · next he => rwa [Function.update_of_ne (by simpa using he), hsame] at hholds
  · have hl : Regular (HeadAddr.users .mq o).nodeKind := regular_pointerKind .mq
    have hholds := h.strung.holds hl
    have hsame : L₁ (.users .mq o) = ps :=
      (hp.queued.lists (.users .mq o) (not_queueKind_table .mq).2).trans (hkept hl hps).symm
    rw [withOpened] at hholds
    split
    · next he =>
      subst he
      rwa [Function.update_self, hsame] at hholds
    · next he =>
      rwa [Function.update_of_ne (by simpa using he), Function.update_of_ne (by simp), hsame]
        at hholds

theorem boundTo_completes (hs : Strung Regular Retained k L) (fd : Int) :
    ∃ found, k.boundTo .mq r fd = .ok found := by
  have hreg : Regular (HeadAddr.opened .mq r).nodeKind := regular_descriptorKind .mq
  unfold boundTo descriptorListByFd
  rw [hs.search_pure hreg]
  cases ((L (.opened .mq r)).map Node.idx).find?
      fun e => decide ((k.descriptor .mq e).fd = fd) with
  | none => exact ⟨_, rfl⟩
  | some e => exact ⟨_, rfl⟩

/-- The message queue that a number of the running process is bound to is there. -/
theorem bound_live {fd : Int} {e o : Nat} (hc : Coherent k L) (hr : k.running = some r)
    (h : k.boundTo .mq r fd = .ok (some (e, o))) : Allocated k .messageQueue o := by
  obtain ⟨hm, _, ho⟩ := boundTo_listed hc.tidy.strung h
  obtain ⟨_, _, _, _, hlisted⟩ := Coherent.pointer_listed hc hr hm ho
  exact hc.hung.live _ _ irregular_messageQueues hlisted

/-- An open that is allowed does what it should unless its number is taken. -/
theorem follows_opened (hc : Coherent k L) (hr : k.running = some r) (hcounter : 0 ≤ (k.pcb r).lastMqFd)
    (hallowed : Allowed k r mqs) (hknown : Known k r mqs → mq ∈ mqs)
    (hp : Provided k L mqs (toInt (k.arg r 0)) mq k₁ L₁)
    (h : Added Regular Retained k₁ L₁ .mq r mq d ptr k')
    (hfound : ∀ o, Allocated k .messageQueue o →
      (k.messageQueueListById .messageQueuesList (toInt (k.arg r 0)) =
        .ok (some ⟨.messageQueue, o⟩) ↔ o = mq)) :
    Follows k r mqs (.ok k') ↔ ¬ NumberTaken k r := by
  have hs := hc.tidy.strung
  have hreg : Regular (HeadAddr.opened .mq r).nodeKind := regular_descriptorKind .mq
  have hc₁ := hp.queued.coherent hc
  have hlisted : ObjectListed L₁ .mq mq := by
    obtain ⟨as, bs, hL, -⟩ := hp.first.chain
    show ⟨.messageQueue, mq⟩ ∈ L₁ .messageQueuesList
    rw [hL]
    exact List.mem_append_right _ List.mem_cons_self
  have hret : (k'.pcb r).syscallRetvalue = (k.pcb r).lastMqFd := by
    rw [h.pcb, Function.update_self, hp.pcb]
    rfl
  have hpos : 0 ≤ (k'.pcb r).syscallRetvalue := by
    rw [hret]
    exact hcounter
  have hbyId : k'.messageQueueListById .messageQueuesList (toInt (k.arg r 0)) =
      .ok (some ⟨.messageQueue, mq⟩) := by
    have hsettled := ((MqOpened.opened hp.queued hp.pcb hlisted h).coherent hc).1.settled
    refine byId_first hsettled ⟨?_, ?_⟩
    · rw [withOpened, Function.update_of_ne (by simp), Function.update_of_ne (by simp), h.rest]
      exact hp.first.chain
    · rw [h.rest]
      exact hp.first.id
  have hbound : k'.boundTo .mq r (k.pcb r).lastMqFd =
      (k.boundTo .mq r (k.pcb r).lastMqFd).map fun found => some (found.getD (d, mq)) := by
    have hsame : k₁.boundTo .mq r (k.pcb r).lastMqFd = k.boundTo .mq r (k.pcb r).lastMqFd := by
      unfold boundTo descriptorListByFd
      rw [hc₁.tidy.strung.search_pure hreg, hs.search_pure hreg,
        hp.queued.lists (.opened .mq r) (not_queueKind_table .mq).1, hp.queued.rest]
    have hadded := boundTo_added hc₁.tidy.strung (hc₁.tidy.tied .mq) h
    rwa [hp.pcb, hsame] at hadded
  constructor
  · rintro ⟨k'', hk'', _, hopens, _⟩ ⟨e, o, ho, hno⟩
    cases hk''
    obtain ⟨mq', _, _, e', he', hbyId', _, _⟩ := hopens hpos
    have hmq := Option.some.inj (Except.ok.inj (hbyId'.symm.trans hbyId))
    obtain rfl : mq' = mq := congrArg Node.idx hmq
    rw [hret, hbound, ho] at he'
    cases he'
    exact hno ((hfound _ (bound_live hc hr ho)).mpr rfl)
  · intro hfree
    refine ⟨k', rfl, iff_of_true hpos hallowed, fun _ => ?_, fun hneg => absurd hpos hneg.not_ge⟩
    have hkept := othersKept_added hc hp h
    rw [OpensIt, hret, hbound]
    obtain ⟨found, hb⟩ := boundTo_completes (r := r) hs (k.pcb r).lastMqFd
    rw [hb]
    cases found with
    | none => exact ⟨mq, d, ptr, d, rfl, hbyId, hknown, hkept⟩
    | some b =>
      obtain ⟨e, o⟩ := b
      have ho : o = mq := by
        by_contra hne
        have hlive := bound_live hc hr hb
        exact hfree ⟨e, o, hb, fun hid => hne ((hfound o hlive).mp hid)⟩
      subst ho
      exact ⟨o, d, ptr, e, rfl, hbyId, hknown, hkept⟩

/-! ## The handler -/

theorem mqOpen_found (hr : k.running = some r) (hroom : Room k r)
    (hfound : k.messageQueueListById .messageQueuesList (toInt (k.arg r 0)) =
      .ok (some ⟨.messageQueue, mq⟩)) :
    internalMqOpen k = .ok (if hasFlag (toInt (k.arg r 1)) DSOS_CREATE ∧
        hasFlag (toInt (k.arg r 1)) DSOS_EXCL then k.setRetvalue r DSOS_EMQOPEN
      else k.openDescriptor .mq r mq DSOS_EMQOPEN) := by
  obtain ⟨hid, _, _, hfd, _⟩ := hroom
  unfold internalMqOpen
  rw [deref_eq_ok.mpr hr]
  simp only [bind, Except.bind]
  rw [if_neg (by omega), if_neg (by omega), hfound]
  simp only
  split <;> rfl

theorem mqOpen_missing (hr : k.running = some r) (hroom : Room k r)
    (hmissing : k.messageQueueListById .messageQueuesList (toInt (k.arg r 0)) = .ok none)
    (hflag : hasFlag (toInt (k.arg r 1)) DSOS_CREATE = false) :
    internalMqOpen k = .ok (k.setRetvalue r DSOS_EMQOPEN) := by
  obtain ⟨hid, _, _, hfd, _⟩ := hroom
  unfold internalMqOpen
  rw [deref_eq_ok.mpr hr]
  simp only [bind, Except.bind]
  rw [if_neg (by omega), if_neg (by omega), hmissing]
  simp only [hflag, Bool.false_eq_true, if_false]
  rfl

theorem follows_refused (h : ¬ Allowed k r mqs) :
    Follows k r mqs (.ok (k.setRetvalue r DSOS_EMQOPEN)) := by
  have hret : ((k.setRetvalue r DSOS_EMQOPEN).pcb r).syscallRetvalue = DSOS_EMQOPEN := by
    show (Function.update k.pcb r _ r).syscallRetvalue = _
    rw [Function.update_self]
  have hneg : ¬ 0 ≤ ((k.setRetvalue r DSOS_EMQOPEN).pcb r).syscallRetvalue := by
    rw [hret]
    decide
  exact ⟨_, rfl, iff_of_false hneg h, fun hpos => absurd hpos hneg,
    fun _ => mqUntouched_setRetvalue _⟩

/-- There is a block for the descriptor. -/
theorem openDescriptor_room (hc : Coherent k L) (r mq : Nat)
    (hroom : (k.pool .mqDescriptor).size ≠ 0) :
    ∃ d ptr, Added Regular Retained k L .mq r mq d ptr (k.openDescriptor .mq r mq DSOS_EMQOPEN) := by
  rcases openDescriptor_tied hc.tidy.strung (hc.tidy.tied .mq) r mq DSOS_EMQOPEN with
    ⟨_, hzero⟩ | hadded
  · exact absurd hzero hroom
  · exact hadded

/-- The message queue is there. -/
theorem follows_found (hc : Coherent k L) (hr : k.running = some r)
    (hcounter : 0 ≤ (k.pcb r).lastMqFd) (hroom : Room k r) {as bs : List Nat}
    (hL : L .messageQueuesList = (as ++ mq :: bs).map (Node.mk .messageQueue))
    (has : ∀ o ∈ as, (k.messageQueue o).id ≠ toInt (k.arg r 0))
    (hmq : (k.messageQueue mq).id = toInt (k.arg r 0)) :
    Follows k r (as ++ mq :: bs) (internalMqOpen k) ↔ ¬ ExclusiveOnly k r (as ++ mq :: bs) ∧
      (Allowed k r (as ++ mq :: bs) → ¬ NumberTaken k r) := by
  have hmem : mq ∈ as ++ mq :: bs := List.mem_append_right _ List.mem_cons_self
  have hknown : Known k r (as ++ mq :: bs) := ⟨mq, hmem, hmq⟩
  have hp : Provided k L (as ++ mq :: bs) (toInt (k.arg r 0)) mq k L :=
    provided_found hc hL has hmq
  have hbyId := byId_first hc.settled hp.first
  rw [mqOpen_found hr hroom hbyId]
  by_cases hexcl : hasFlag (toInt (k.arg r 1)) DSOS_EXCL = true
  · have hallowed : ¬ Allowed k r (as ++ mq :: bs) := by
      rintro (⟨_, hno⟩ | ⟨hno, _⟩)
      · exact Bool.false_ne_true (hno.symm.trans hexcl)
      · exact hno hknown
    by_cases hcreate : hasFlag (toInt (k.arg r 1)) DSOS_CREATE = true
    · rw [if_pos ⟨hcreate, hexcl⟩]
      refine iff_of_true (follows_refused hallowed) ⟨fun h => ?_, fun h => absurd h hallowed⟩
      exact Bool.false_ne_true (h.2.2.symm.trans hcreate)
    · -- the descriptor is opened although the two flags do not allow it
      rw [if_neg fun h => hcreate h.1]
      refine iff_of_false ?_ fun h => h.1 ⟨hknown, hexcl, Bool.eq_false_iff.mpr hcreate⟩
      rintro ⟨k', hk', hiff, -, -⟩
      obtain ⟨d, ptr, hadded⟩ := openDescriptor_room hc r mq hroom.2.2.2.2.2.2.2
      cases hk'
      exact hallowed (hiff.mp (not_lt.mp (retvalue_added hadded hcounter)))
  · have hallowed : Allowed k r (as ++ mq :: bs) := .inl ⟨hknown, Bool.eq_false_iff.mpr hexcl⟩
    obtain ⟨d, ptr, hadded⟩ := openDescriptor_room hc r mq hroom.2.2.2.2.2.2.2
    rw [if_neg fun h => hexcl h.2, follows_opened hc hr hcounter hallowed (fun _ => hmem) hp hadded
      fun o _ => ?_]
    · exact ⟨fun h => ⟨fun hx => hexcl hx.2.1, fun _ => h⟩, fun h => h.2 hallowed⟩
    · rw [hbyId, Except.ok.injEq, Option.some.injEq, Node.mk.injEq, eq_comm (a := o)]
      exact and_iff_right rfl

/-- No message queue has the id. -/
theorem follows_missing (hc : Coherent k L) (hr : k.running = some r)
    (hcounter : 0 ≤ (k.pcb r).lastMqFd) (hroom : Room k r)
    (hL : L .messageQueuesList = mqs.map (Node.mk .messageQueue))
    (hno : ∀ o ∈ mqs, (k.messageQueue o).id ≠ toInt (k.arg r 0)) :
    Follows k r mqs (internalMqOpen k) ↔ ¬ ExclusiveOnly k r mqs ∧
      (Allowed k r mqs → ¬ NumberTaken k r) := by
  have hunknown : ¬ Known k r mqs := fun ⟨o, ho, hid⟩ => hno o ho hid
  have hbyId := byId_missing hc.settled hL hno
  have hexclusive : ¬ ExclusiveOnly k r mqs := fun h => hunknown h.1
  by_cases hcreate : hasFlag (toInt (k.arg r 1)) DSOS_CREATE = true
  · have hallowed : Allowed k r mqs := .inr ⟨hunknown, hcreate⟩
    obtain ⟨hid, hprio, hprio', hfd, hsize, hmqs, hqueues, hdes⟩ := hroom
    have hcreates : Creates k r := ⟨hfd, hid, hbyId, hcreate, hsize, hprio, hprio'⟩
    obtain ⟨mq, k₁, halloc⟩ : ∃ mq k₁,
        k.messageQueueAlloc (toInt (k.arg r 0)) (toInt (k.arg r 2)) = some (mq, k₁) := by
      have hne : k.newItem .messageQueue ≠ none := fun hn =>
        hmqs ((newItem_eq_none hc.tidy.strung.pooled).mp hn)
      obtain ⟨⟨i, k₁⟩, hnew⟩ := Option.ne_none_iff_exists'.mp hne
      unfold messageQueueAlloc
      rw [hnew]
      exact ⟨_, _, rfl⟩
    obtain ⟨b, k₂, hadd⟩ : ∃ b k₂, addQueues mq 0 (toInt (k.arg r 2) + 1).toNat k₁ = (b, k₂) :=
      ⟨_, _, rfl⟩
    obtain ⟨hpooled₁, -, hpool₁⟩ := messageQueueAlloc_size hc.tidy.strung.pooled halloc
    have hflag := addQueues_flag hpooled₁ hadd
    rw [hpool₁ .queue (by decide)] at hflag
    obtain rfl : b = true := hflag.mpr (by omega)
    obtain ⟨-, L₃, hnew⟩ := messageQueue_created hc halloc hadd
    have hpcb : (k₂.append .messageQueuesList ⟨.messageQueue, mq⟩).pcb = k.pcb :=
      (addQueues_pcb hadd).trans (messageQueueAlloc_pcb halloc)
    have hp := provided_created hc hL hno hpcb hnew
    have hdes₃ : ((k₂.append .messageQueuesList ⟨.messageQueue, mq⟩).pool .mqDescriptor).size ≠ 0 := by
      rwa [hnew.queued.pool .mqDescriptor (by decide)]
    obtain ⟨d, ptr, hadded⟩ := openDescriptor_room (hnew.queued.coherent hc) r mq hdes₃
    rw [mqOpen_creates hr hcreates halloc hadd, if_pos rfl, follows_opened hc hr hcounter hallowed
      (fun h => absurd h hunknown) hp hadded fun o ho => ?_]
    · exact ⟨fun h => ⟨hexclusive, fun _ => h⟩, fun h => h.2 hallowed⟩
    · refine iff_of_false (fun h => ?_) fun he => hnew.fresh (he ▸ ho)
      rw [hbyId] at h
      cases h
  · have hallowed : ¬ Allowed k r mqs := by
      rintro (⟨hyes, _⟩ | ⟨_, hyes⟩)
      · exact hunknown hyes
      · exact hcreate hyes
    rw [mqOpen_missing hr hroom hbyId (Bool.eq_false_iff.mpr hcreate)]
    exact iff_of_true (follows_refused hallowed) ⟨hexclusive, fun h => absurd h hallowed⟩

theorem follows_iff (hc : Coherent k L) (hr : k.running = some r) (hcounter : 0 ≤ (k.pcb r).lastMqFd)
    (hw : Holds k.lists .messageQueuesList (mqs.map (Node.mk .messageQueue))) (hroom : Room k r) :
    Follows k r mqs (internalMqOpen k) ↔
      ¬ ExclusiveOnly k r mqs ∧ (Allowed k r mqs → ¬ NumberTaken k r) := by
  have hL := chain_eq hc.hung hw
  obtain ⟨as, mq, bs, rfl, has, hmq⟩ | hno := first_or_missing k mqs (toInt (k.arg r 0))
  · exact follows_found hc hr hcounter hroom hL has hmq
  · exact follows_missing hc hr hcounter hroom hL hno

/-! ## The call -/

theorem lastMqFd_setCall (hcounter : 0 ≤ (k.pcb r).lastMqFd) (num : Int) (args : List Int) :
    0 ≤ ((k.setCall r num args).pcb r).lastMqFd := by
  show 0 ≤ ((k.setCall r num args).pcb r).fdCounter .mq
  rw [counter_setCall]
  exact hcounter

/-- On a well-formed list, with room for what the call may need, `mqOpen` does what its flags
say exactly when a message queue that is there is not asked for with `DSOS_EXCL` alone and the
number that a successful call returns is not in use for another message queue. -/
theorem mqOpen_follows_flags_iff (hc : Coherent k L) (hr : k.running = some r)
    (hcounter : 0 ≤ (k.pcb r).lastMqFd)
    (hw : Holds k.lists .messageQueuesList (mqs.map (Node.mk .messageQueue))) (args : List Int)
    (hroom : Room (k.setCall r DSOS_CALL_MQOPEN args) r) :
    FollowsFlags k r mqs args ↔
      ¬ ExclusiveOnly (k.setCall r DSOS_CALL_MQOPEN args) r mqs ∧
        (Allowed (k.setCall r DSOS_CALL_MQOPEN args) r mqs →
          ¬ NumberTaken (k.setCall r DSOS_CALL_MQOPEN args) r) := by
  unfold FollowsFlags
  rw [act_mqOpen hc hr args]
  exact follows_iff (coherent_setCall hc hr) hr (lastMqFd_setCall hcounter _ args) hw hroom

/-- The only message queue is in the block 0. -/
def OneQueue (k : Kernel) : Prop :=
  k.running = some 0 ∧
    k.head .messageQueuesList = ⟨some ⟨.messageQueue, 0⟩, some ⟨.messageQueue, 0⟩, 1⟩ ∧
    k.lists.item ⟨.messageQueue, 0⟩ = ⟨none, none⟩

instance : Decidable (OneQueue k) := inferInstanceAs (Decidable (_ ∧ _))

theorem OneQueue.holds (h : OneQueue k) :
    Holds k.lists .messageQueuesList ([0].map (Node.mk .messageQueue)) := by
  obtain ⟨-, hhead, hitem⟩ := h
  have hhead : k.lists.head .messageQueuesList = _ := hhead
  unfold Holds
  rw [hhead]
  exact ⟨rfl, rfl, rfl, hitem, trivial⟩

/-- The first process opens a message queue a second time. -/
theorem mqOpen_follows_flags_shared :
    ∃ k₀ k, Started (fun _ => 0) k₀ ∧
      Run act (fun _ a => Ordinary a) k₀ [.syscall DSOS_CALL_MQOPEN [1, 1, 0]] k ∧
      OneQueue k ∧ Room (k.setCall 0 DSOS_CALL_MQOPEN [1, 0, 0]) 0 ∧
      FollowsFlags k 0 [0] [1, 0, 0] := by
  obtain ⟨k₀, k, hs, h, htest⟩ := exists_run_from_start (fun _ a => Ordinary a)
    (fun _ a => decide (Ordinary a)) [.syscall DSOS_CALL_MQOPEN [1, 1, 0]]
    (fun k => OneQueue k ∧ Room (k.setCall 0 DSOS_CALL_MQOPEN [1, 0, 0]) 0 ∧
      hasFlag (toInt ((k.setCall 0 DSOS_CALL_MQOPEN [1, 0, 0]).arg 0 1)) DSOS_EXCL = false ∧
      ((k.setCall 0 DSOS_CALL_MQOPEN [1, 0, 0]).boundTo .mq 0
        ((k.setCall 0 DSOS_CALL_MQOPEN [1, 0, 0]).pcb 0).lastMqFd).toOption.join = none)
    (fun _ _ h => of_decide_eq_true h) (by decide +kernel)
  obtain ⟨hone, hroom, hflag, hfree⟩ := of_decide_eq_true htest
  obtain ⟨L, hc, hfds⟩ := reachable_mqFd hs h
  have hcounter := hfds 0 (hc.sound.placed.live_of_running hone.1)
  refine ⟨k₀, k, hs, h, hone, hroom,
    (mqOpen_follows_flags_iff hc hone.1 hcounter hone.holds [1, 0, 0] hroom).mpr
      ⟨fun hx => Bool.false_ne_true (hflag.symm.trans hx.2.1), ?_⟩⟩
  rintro - ⟨e, o, hb, -⟩
  rw [hb] at hfree
  cases hfree

/-- The first process asks for a message queue that is there with `DSOS_EXCL` alone. -/
theorem exclusive_open_shared :
    ∃ k₀ k, Started (fun _ => 0) k₀ ∧
      Run act (fun _ a => Ordinary a) k₀ [.syscall DSOS_CALL_MQOPEN [1, 1, 0]] k ∧
      OneQueue k ∧ Room (k.setCall 0 DSOS_CALL_MQOPEN [1, 4, 0]) 0 ∧
      ¬ FollowsFlags k 0 [0] [1, 4, 0] := by
  obtain ⟨k₀, k, hs, h, htest⟩ := exists_run_from_start (fun _ a => Ordinary a)
    (fun _ a => decide (Ordinary a)) [.syscall DSOS_CALL_MQOPEN [1, 1, 0]]
    (fun k => OneQueue k ∧ Room (k.setCall 0 DSOS_CALL_MQOPEN [1, 4, 0]) 0 ∧
      Known (k.setCall 0 DSOS_CALL_MQOPEN [1, 4, 0]) 0 [0] ∧
      hasFlag (toInt ((k.setCall 0 DSOS_CALL_MQOPEN [1, 4, 0]).arg 0 1)) DSOS_EXCL = true ∧
      hasFlag (toInt ((k.setCall 0 DSOS_CALL_MQOPEN [1, 4, 0]).arg 0 1)) DSOS_CREATE = false)
    (fun _ _ h => of_decide_eq_true h) (by decide +kernel)
  obtain ⟨hone, hroom, hexclusive⟩ := of_decide_eq_true htest
  obtain ⟨L, hc, hfds⟩ := reachable_mqFd hs h
  have hcounter := hfds 0 (hc.sound.placed.live_of_running hone.1)
  refine ⟨k₀, k, hs, h, hone, hroom, fun hf => ?_⟩
  unfold FollowsFlags at hf
  rw [act_mqOpen hc hone.1] at hf
  have hiff := follows_iff (coherent_setCall hc hone.1) hone.1 (lastMqFd_setCall hcounter _ _)
    hone.holds hroom
  exact (hiff.mp hf).1 hexclusive

end DisastrOS.MessageQueue.OpenFlags
