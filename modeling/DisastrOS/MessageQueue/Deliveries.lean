import DisastrOS.MessageQueue.MessageFrame
import DisastrOS.Process.SystemRuns

/-!
# What each action does to the messages

In every reachable state, whoever calls what, an action leaves all lists of messages as they are,
or a `mqWrite` puts one message at the back of one, or a `mqRead` takes first messages away.
-/
namespace DisastrOS.MessageQueue.Deliveries

open DisastrOS.Machine
open DisastrOS.Machine.Kernel
open DisastrOS.Descriptors.Bindings
open DisastrOS.Descriptors.Tables
open DisastrOS.Lists.Sequences
open DisastrOS.Lists.RegularLists
open DisastrOS.Lists.QueueChains
open DisastrOS.Lists.Wiring
open DisastrOS.Pool.Blocks
open DisastrOS.Process.Coherence
open DisastrOS.Process.Creation
open DisastrOS.Process.Exit
open DisastrOS.Process.Handles
open DisastrOS.Process.Transitions
open DisastrOS.Semaphore.Calls
open DisastrOS.Resource.Calls
open DisastrOS.MessageQueue.Calls
open DisastrOS.MessageQueue.CoherentCalls
open DisastrOS.MessageQueue.MessageFrame
open DisastrOS.Library.LinkedSequence
open DisastrOS.Library.Outcome

variable {k k' k'' k₁ : Kernel} {L L' L'' L₁ : HeadAddr → List Node}
  {t : Table} {p r o d ptr q m mq : Nat} {num : Int} {args : List Int} {a : Action}

theorem regular_messages (q : Nat) : Regular (HeadAddr.messages q).nodeKind :=
  (by decide : Regular .message)

/-! ## Calls that leave the lists of messages alone -/

/-- All queues have the messages that they had, and no queue has been made or freed. -/
structure Undelivered (k : Kernel) (L : HeadAddr → List Node) (k' : Kernel)
    (L' : HeadAddr → List Node) : Prop where
  messages : ∀ q, L' (.messages q) = L (.messages q)
  pool : k'.pool .queue = k.pool .queue

theorem Undelivered.trans (h : Undelivered k L k' L') (h' : Undelivered k' L' k'' L'') :
    Undelivered k L k'' L'' :=
  ⟨fun q => (h'.messages q).trans (h.messages q), h'.pool.trans h.pool⟩

theorem undelivered_same (hpool : k'.pool = k.pool) : Undelivered k L k' L :=
  ⟨fun _ => rfl, by rw [hpool]⟩

theorem undelivered_scheduled (h : Scheduled k L k' L') : Undelivered k L k' L' :=
  ⟨fun _ => h.lists _ not_false, h.pool .queue (by decide)⟩

theorem undelivered_restarted {p : Nat} (h : Restarted k L p k' L') : Undelivered k L k' L' :=
  ⟨fun _ => h.lists_of_ne (by simp) (by simp), h.pool .queue (by decide)⟩

theorem undelivered_added (h : Added Regular Retained k L t p o d ptr k') :
    Undelivered k L k' (withOpened L t p o d ptr) := by
  refine ⟨fun q => ?_, h.pool .queue (by cases t <;> decide) (by cases t <;> decide)⟩
  unfold withOpened
  rw [Function.update_of_ne (by simp), Function.update_of_ne (by simp)]

theorem undelivered_removed (h : Removed Regular Retained k L t p o d ptr k') :
    Undelivered k L k' (withClosed L t p o d ptr) := by
  refine ⟨fun q => ?_, h.pool .queue (by cases t <;> decide) (by cases t <;> decide)⟩
  unfold withClosed
  rw [Function.update_of_ne (by simp), Function.update_of_ne (by simp)]

theorem undelivered_created (h : Created t k L o k' L') : Undelivered k L k' L' := by
  refine ⟨fun q => ?_, h.pool .queue (by cases t <;> decide)⟩
  rw [h.lists, Function.update_of_ne (by cases t <;> simp [objects])]

theorem undelivered_destroyed (h : Destroyed t k L o k' L') : Undelivered k L k' L' := by
  refine ⟨fun q => ?_, h.pool .queue (by cases t <;> decide)⟩
  rw [h.lists, Function.update_of_ne (by cases t <;> simp [objects])]

theorem undelivered_semOpen (h : SemOpened k L r k' L') : Undelivered k L k' L' := by
  cases h with
  | refused => exact undelivered_same rfl
  | opened _ h => exact undelivered_added h
  | created hnew h => exact (undelivered_created hnew.created).trans (undelivered_added h)
  | createdOnly hnew => exact (undelivered_created hnew.created).trans (undelivered_same rfl)

theorem undelivered_semWait (h : SemWaited k L r k' L') : Undelivered k L k' L' := by
  cases h with
  | refused => exact undelivered_same rfl
  | granted => exact undelivered_same rfl
  | blocked _ _ _ h =>
    refine ⟨fun q => waitLists_of_ne (by simp) (by simp) (by simp) (by simp), ?_⟩
    rw [h.rest]

theorem undelivered_semPost (h : SemPosted k L r k' L') : Undelivered k L k' L' := by
  cases h with
  | refused => exact undelivered_same rfl
  | posted => exact undelivered_same rfl
  | woken _ _ h =>
    refine ⟨fun q => postLists_of_ne (by simp) (by simp) (by simp) (by simp), ?_⟩
    rw [h.rest]

theorem undelivered_semClose (h : SemClosed k L r k' L') : Undelivered k L k' L' := by
  cases h with
  | refused => exact undelivered_same rfl
  | closed _ _ _ _ h => exact (undelivered_removed h).trans (undelivered_same rfl)
  | destroyed _ _ _ _ h hd =>
    have hfree := undelivered_destroyed hd
    exact (undelivered_removed h).trans ⟨hfree.messages, hfree.pool⟩

theorem undelivered_openResource (h : ResOpened k L r k' L') : Undelivered k L k' L' := by
  cases h with
  | refused => exact undelivered_same rfl
  | opened _ h => exact undelivered_added h
  | created hnew h => exact (undelivered_created hnew.created).trans (undelivered_added h)
  | createdOnly hnew => exact (undelivered_created hnew.created).trans (undelivered_same rfl)

theorem undelivered_closeResource (h : ResClosed k L r k' L') : Undelivered k L k' L' := by
  cases h with
  | refused => exact undelivered_same rfl
  | closed _ _ _ h => exact (undelivered_removed h).trans (undelivered_same rfl)

theorem undelivered_destroyResource (h : ResDestroyed k L r k' L') : Undelivered k L k' L' := by
  cases h with
  | refused => exact undelivered_same rfl
  | destroyed h => exact (undelivered_destroyed h).trans (undelivered_same rfl)

theorem undelivered_mqClose (h : MqClosed k L r k' L') : Undelivered k L k' L' := by
  cases h with
  | refused => exact undelivered_same rfl
  | closed _ _ _ _ _ h => exact (undelivered_removed h).trans (undelivered_same rfl)

theorem undelivered_died {i parent : Nat} (h : Died k L r i parent k' L') :
    Undelivered k L k' L' :=
  ⟨fun _ => h.beside.lists _ not_false, by rw [h.rest]⟩

/-- The calls that work on queues. -/
def QueueCall (num : Int) : Prop :=
  num = DSOS_CALL_MQOPEN ∨ num = DSOS_CALL_MQREAD ∨ num = DSOS_CALL_MQWRITE ∨
    num = DSOS_CALL_MQUNLINK

theorem undelivered_called (h : Called k L r num k' L') (hnum : ¬ QueueCall num) :
    Undelivered k L k' L' := by
  cases h with
  | refused => exact undelivered_same rfl
  | preempted h => exact undelivered_scheduled h
  | slept h => exact undelivered_scheduled h
  | spawned _ h =>
    refine ⟨fun q => ?_, h.pool .queue (by decide) (by decide)⟩
    rw [h.lists, Function.update_of_ne (by simp), Function.update_of_ne (by simp)]
    exact allocLists_of_ne (by simp) (by simp) (by simp)
  | collected _ _ _ _ h =>
    refine ⟨fun q => ?_, h.pool .queue (by decide) (by decide)⟩
    rw [h.lists, Function.update_of_ne (by simp), Function.update_of_ne (by simp)]
  | waits _ _ h => exact undelivered_scheduled h
  | exited hd _ hb hk =>
    refine ⟨fun _ => hb.lists _ not_false, ?_⟩
    rw [hk, hd.rest]
    rfl
  | reported hd _ h =>
    refine (undelivered_died hd).trans ⟨fun q => ?_,
      h.pool .queue (by decide) (by decide) (by decide)⟩
    exact h.lists _ (by simp) (by simp) (by simp) (by simp) (by simp)
  | semOpen h => exact undelivered_semOpen h
  | semWait h => exact undelivered_semWait h
  | semPost h => exact undelivered_semPost h
  | semClose h => exact undelivered_semClose h
  | openResource h => exact undelivered_openResource h
  | closeResource h => exact undelivered_closeResource h
  | destroyResource h => exact undelivered_destroyResource h
  | mqOpen => exact absurd (.inl rfl) hnum
  | mqClose h => exact undelivered_mqClose h
  | mqUse hq =>
    rcases hq with rfl | rfl | rfl
    · exact absurd (.inr (.inl rfl)) hnum
    · exact absurd (.inr (.inr (.inl rfl))) hnum
    · exact absurd (.inr (.inr (.inr rfl))) hnum

/-! ## Queues that come and go -/

/-- A message waits in a queue that is in use. -/
def Housed (k : Kernel) (L : HeadAddr → List Node) : Prop :=
  ∀ q, L (.messages q) ≠ [] → Allocated k .queue q

theorem Undelivered.housed (h : Undelivered k L k' L') (hh : Housed k L) : Housed k' L' := by
  intro q hq
  rw [h.messages] at hq
  exact (allocated_of_pool h.pool).mpr (hh q hq)

/-- In the kernel `k'` all queues have the messages that `L` says. -/
def Keeps (L : HeadAddr → List Node) (k' : Kernel) (L' : HeadAddr → List Node) : Prop :=
  Strung Regular Retained k' L' ∧ (∀ q, L' (.messages q) = L (.messages q)) ∧ Housed k' L'

theorem Undelivered.keeps (h : Undelivered k L k' L') (hs : Strung Regular Retained k' L')
    (hh : Housed k L) : Keeps L k' L' :=
  ⟨hs, h.messages, h.housed hh⟩

/-- The lists of a kernel are determined by its links. -/
theorem messages_unique (hs : Strung Regular Retained k L) (hs' : Strung Regular Retained k L')
    (q : Nat) : L' (.messages q) = L (.messages q) :=
  represents_unique (hs'.holds (regular_messages q)) (hs.holds (regular_messages q))

theorem Keeps.unique (h : Keeps L k' L'') (hs' : Strung Regular Retained k' L') :
    Keeps L k' L' := by
  refine ⟨hs', fun q => (messages_unique h.1 hs' q).trans (h.2.1 q), fun q hq => h.2.2 q ?_⟩
  rwa [messages_unique h.1 hs' q] at hq

theorem keeps_setRetvalue {v : Int} (h : Keeps L k' L') : Keeps L (k'.setRetvalue r v) L' :=
  ⟨h.1.congr rfl rfl, h.2.1, h.2.2⟩

theorem keeps_openDescriptor (h : Keeps L k₁ L₁) (ht : Tied .mq k₁ L₁) (r mq : Nat) (err : Int) :
    ∃ L', Keeps L (k₁.openDescriptor .mq r mq err) L' := by
  rcases openDescriptor_tied h.1 ht r mq err with ⟨he, -⟩ | ⟨d, ptr, hadded⟩
  · rw [he]
    exact ⟨L₁, keeps_setRetvalue h⟩
  · have hkept := undelivered_added hadded
    exact ⟨_, hadded.strung, fun q => (hkept.messages q).trans (h.2.1 q), hkept.housed h.2.2⟩

/-- A queue without messages gets none when queues are made. -/
theorem size_addQueues {b : Bool} {i : Int} {n : Nat} (h : addQueues mq i n k = (b, k'))
    (hq : (k.head (.messages q)).size = 0) : (k'.head (.messages q)).size = 0 := by
  induction n generalizing i k with
  | zero =>
    cases h
    exact hq
  | succ n ih =>
    unfold addQueues queueAlloc newItem at h
    cases hget : k.getBlock .queue with
    | none =>
      rw [hget] at h
      cases h
      exact hq
    | some new =>
      obtain ⟨c, k₁⟩ := new
      obtain ⟨_, _, _, rfl⟩ := getBlock_eq_some hget
      rw [hget] at h
      refine ih h ?_
      show ((listInsert _ _ _ _).2.head (HeadAddr.messages q)).size = 0
      rw [insert_head _ _ _ (by simp)]
      show (Function.update k.lists.head (.messages c) _ (.messages q)).size = 0
      rw [Function.update_apply]
      split
      · rfl
      · exact hq

/-- The queues of a new message queue go into one of two chains. -/
theorem queues_added {id priority : Int} {b : Bool} {i : Int} {n : Nat}
    (hc : Coherent k L)
    (halloc : k.messageQueueAlloc id priority = some (mq, k₁))
    (hadd : addQueues mq i n k₁ = (b, k')) :
    ∃ j as bs L', QueuesAdded k₁ (Function.update L (.queues mq) []) mq j as bs k' L' := by
  have hn := messageQueueAlloc_queued hc.tidy hc.hung halloc
  obtain ⟨as, bs, hsplit, hplaced, -⟩ := hc.hung.placed
  have hlast : (k₁.head .messageQueuesList).last = as.getLast? := by
    rw [hn.head _ irregular_messageQueues (by simp), hplaced]
  by_cases hnil : as = []
  · have hempty : Function.update L (.queues mq) [] (.queues mq) = [] ++ ([] : List Node) :=
      Function.update_self ..
    rw [hnil] at hlast
    exact ⟨_, _, _, addQueues_added hn.queued.settled (irregular_queues mq) hempty (.inr rfl)
      hlast hadd⟩
  · have hsplit₁ : Function.update L (.queues mq) [] .messageQueuesList = as ++ bs := by
      rw [Function.update_of_ne (by simp), hsplit]
    exact ⟨_, _, _, addQueues_added hn.queued.settled irregular_messageQueues hsplit₁ (.inl hnil)
      hlast hadd⟩

theorem size_messageQueueAlloc {id priority : Int}
    (h : k.messageQueueAlloc id priority = some (mq, k')) :
    k'.head (.messages q) = k.head (.messages q) := by
  unfold messageQueueAlloc newItem at h
  cases hget : k.getBlock .messageQueue with
  | none =>
    rw [hget] at h
    cases h
  | some new =>
    obtain ⟨c, k₁⟩ := new
    obtain ⟨_, _, _, rfl⟩ := getBlock_eq_some hget
    rw [hget] at h
    cases h
    rfl

theorem mqOpen_keeps (hc : Coherent k L) (hh : Housed k L) (h : internalMqOpen k = .ok k') :
    ∃ L', Keeps L k' L' := by
  have hs := hc.tidy.strung
  have hself : Keeps L k L := ⟨hs, fun _ => rfl, hh⟩
  obtain ⟨r, -, rfl | ⟨x, -, -, hopen⟩ | ⟨-, mq, k₁, b, k₂, halloc, hadd, rfl⟩⟩ :=
    mqOpen_cases h
  · exact ⟨L, keeps_setRetvalue hself⟩
  · rw [(openFound_ok hopen).1]
    exact keeps_openDescriptor hself (hc.tidy.tied .mq) r x.idx _
  · have hn := messageQueueAlloc_queued hc.tidy hc.hung halloc
    obtain ⟨j, as, bs, L₂, hadded⟩ := queues_added hc halloc hadd
    have hgrown : ∀ {q}, Allocated k .queue q → Allocated k₂ .queue q := fun ha =>
      hadded.grown _ _ ((hn.allocated _ _).mpr (.inr ha))
    -- a block that is made a queue now had no messages
    have hnew : ∀ {q}, ¬ Allocated k .queue q →
        L (.messages q) = [] ∧ (k₂.head (.messages q)).size = 0 := by
      intro q hq
      have hnil : L (.messages q) = [] := by_contra fun hne => hq (hh q hne)
      refine ⟨hnil, size_addQueues hadd ?_⟩
      rw [size_messageQueueAlloc halloc]
      exact (hs.size_zero_iff (regular_messages q)).mpr hnil
    have hkeeps : ∀ {k₃ L₃}, Strung Regular Retained k₃ L₃ →
        (∀ q, (k₃.head (.messages q)).size = (k₂.head (.messages q)).size) →
        k₃.pool .queue = k₂.pool .queue →
        (∀ q, Allocated k .queue q → L₃ (.messages q) = L (.messages q)) → Keeps L k₃ L₃ := by
      intro k₃ L₃ hs₃ hsize hpool hold
      have hall : ∀ q, L₃ (.messages q) = L (.messages q) := by
        intro q
        by_cases hq : Allocated k .queue q
        · exact hold q hq
        · obtain ⟨hnil, hzero⟩ := hnew hq
          rw [hnil]
          exact (hs₃.size_zero_iff (regular_messages q)).mp ((hsize q).trans hzero)
      refine ⟨hs₃, hall, fun q hq => ?_⟩
      rw [hall] at hq
      exact (allocated_of_pool hpool).mpr (hgrown (hh q hq))
    cases b with
    | false =>
      refine ⟨L₂, keeps_setRetvalue (hkeeps hadded.queued.settled.strung (fun _ => rfl) rfl ?_)⟩
      intro q hq
      rw [(hadded.queue q ((hn.allocated _ _).mpr (.inr hq))).2, Function.update_of_ne (by simp)]
    | true =>
      obtain ⟨-, L₃, hcreated⟩ := messageQueue_created hc halloc hadd
      refine keeps_openDescriptor (hkeeps hcreated.queued.settled.strung (fun q => ?_) rfl
        fun q hq => (hcreated.queue q hq).2) (hcreated.queued.tied (hc.tidy.tied .mq)) r mq _
      show ((listInsert _ _ _ _).2.head (HeadAddr.messages q)).size = _
      rw [insert_head _ _ _ (by simp)]
      rfl

/-- A queue that is freed has no messages. -/
theorem removeQueues_keeps {n : Nat} (h : Settled k L) (hh : Housed k L)
    (hrun : removeQueues mq n k = .ok k') :
    ∃ L', Keeps L k' L' ∧ k'.pool .messageQueue = k.pool .messageQueue := by
  induction n generalizing k L with
  | zero =>
    cases hrun
    exact ⟨L, ⟨h.strung, fun _ => rfl, hh⟩, rfl⟩
  | succ n ih =>
    unfold removeQueues at hrun
    obtain ⟨⟨q, k₁⟩, hd, hrun⟩ := bind_eq_ok.mp hrun
    obtain ⟨rest, hL, rfl, hs₁⟩ := h.detachFirstQueue hd
    have hsame : ∀ q', Function.update L (.queues mq) rest (.messages q') = L (.messages q') :=
      fun q' => Function.update_of_ne (by simp) _ _
    simp only at hrun
    split at hrun
    · next hzero =>
      obtain ⟨k₂, hfree, hrun⟩ := bind_eq_ok.mp hrun
      unfold queueFree freeUnused at hfree
      split at hfree
      · cases hfree
        have hmem : ⟨.queue, q⟩ ∈ L (.queues mq) := by
          rw [hL]
          exact List.mem_cons_self
        have ha : Allocated k .queue q :=
          h.hung.live (.queues mq) ⟨.queue, q⟩ (irregular_queues mq) hmem
        have hnone : L (.messages q) = [] := by
          rw [← hsame]
          exact (hs₁.strung.size_zero_iff (regular_messages q)).mp hzero
        have hh₂ : Housed ((k.detach (.queues mq) ⟨.queue, q⟩).releaseBlock .queue q)
            (Function.update L (.queues mq) rest) := by
          intro q' hq'
          rw [hsame] at hq'
          refine ((releaseBlock_returned .queue q hs₁.strung.pooled ha).allocated _ _).mpr
            ⟨?_, hh q' hq'⟩
          rintro ⟨-, rfl⟩
          exact hq' hnone
        obtain ⟨L', hkeeps, hpool⟩ := ih (h.releaseFirstQueue hL hs₁) hh₂ hrun
        refine ⟨L', ⟨hkeeps.1, fun q' => (hkeeps.2.1 q').trans (hsame q'), hkeeps.2.2⟩,
          hpool.trans ?_⟩
        exact releaseBlock_pool _ _ (by decide)
      · cases hfree
    · have hh₁ : Housed (k.detach (.queues mq) ⟨.queue, q⟩) (Function.update L (.queues mq) rest) :=
        fun q' hq' => hh q' (by rwa [hsame] at hq')
      obtain ⟨L', hkeeps, hpool⟩ := ih hs₁ hh₁ hrun
      exact ⟨L', ⟨hkeeps.1, fun q' => (hkeeps.2.1 q').trans (hsame q'), hkeeps.2.2⟩, hpool⟩

theorem mqUnlink_keeps (hc : Coherent k L) (hh : Housed k L) (h : internalMqUnlink k = .ok k') :
    ∃ L', Keeps L k' L' := by
  obtain ⟨r, -, ⟨v, rfl⟩ | ⟨mq, k₁, k₂, hfound, -, -, hrun, hfree, rfl⟩⟩ := mqUnlink_cases h
  · exact ⟨L, keeps_setRetvalue ⟨hc.tidy.strung, fun _ => rfl, hh⟩⟩
  · have hmem := hc.settled.listed_of_byId hfound
    have hsame : ∀ q, Function.update L .messageQueuesList
        ((L .messageQueuesList).erase ⟨.messageQueue, mq⟩) (.messages q) = L (.messages q) :=
      fun q => Function.update_of_ne (by simp) _ _
    have hh₁ : Housed (k.detach .messageQueuesList ⟨.messageQueue, mq⟩) (Function.update L
        .messageQueuesList ((L .messageQueuesList).erase ⟨.messageQueue, mq⟩)) :=
      fun q hq => hh q (by rwa [hsame] at hq)
    obtain ⟨L', ⟨hs₁, hall, hh'⟩, hpool⟩ :=
      removeQueues_keeps (hc.settled.detachMessageQueue hmem) hh₁ hrun
    unfold messageQueueFree freeUnused at hfree
    split at hfree
    · cases hfree
      have ha : Allocated k₁ .messageQueue mq :=
        (allocated_of_pool hpool).mpr (hc.hung.live _ _ irregular_messageQueues hmem)
      have hout : ∀ l, Regular l.nodeKind → (⟨.messageQueue, mq⟩ : Node) ∉ L' l := by
        intro l hl hx
        rw [← hs₁.kind l _ hl hx] at hl
        exact (by decide : ¬ Regular .messageQueue) hl
      have hqueue : (k₁.releaseBlock .messageQueue mq).pool .queue = k₁.pool .queue :=
        releaseBlock_pool _ _ (by decide)
      exact ⟨L', keeps_setRetvalue ⟨hs₁.releaseBlock _ _ ha hout,
        fun q => (hall q).trans (hsame q),
        fun q hq => (allocated_of_pool hqueue).mpr (hh' q hq)⟩⟩
    · cases hfree

/-! ## Messages come and go -/

/-- A search finds queues that are in use only. -/
theorem queue_live {i : Int} (hc : Settled k L)
    (h : k.queueListByPriority (.queues mq) i = .ok (some q)) : Allocated k .queue q := by
  have hj := irregular_queues mq
  unfold queueListByPriority search at h
  rw [show (k.head (.queues mq)).first = _ from hc.hung.chained.first _ hj] at h
  exact hc.hung.live _ _ hj ((searchFrom_seg (hc.hung.chained.links _ hj) h).1 q rfl)

/-- A new message comes in at the back of the queue `q`. -/
structure CameIn (k : Kernel) (L : HeadAddr → List Node) (q m : Nat) (k' : Kernel)
    (L' : HeadAddr → List Node) : Prop where
  strung : Strung Regular Retained k' L'
  pool : k'.pool .queue = k.pool .queue
  housed : Allocated k .queue q
  fresh : ¬ Allocated k .message m
  allocated : ∀ i, Allocated k' .message i ↔ i = m ∨ Allocated k .message i
  message : ∀ i, i ≠ m → k'.message i = k.message i
  came : L' (.messages q) = L (.messages q) ++ [⟨.message, m⟩]
  others : ∀ q', q' ≠ q → L' (.messages q') = L (.messages q')

theorem wrote_cameIn (hc : Coherent k L) (hw : Wrote k r mq q m k') :
    ∃ L', CameIn k L q m k' L' := by
  have hhoused := queue_live hc.settled hw.queue
  obtain ⟨k₁, hnew, rfl⟩ := hw.eq
  have hf := newItem_fresh hc.tidy.strung.pooled hnew
  have hw₁ : Woven k { k₁ with
      message := Function.update k₁.message m ⟨toInt (k.arg r 2), k.arg r 1⟩ } L :=
    ((Woven.refl hc.tidy.strung).newItem (by decide : Regular .message) hf).congr rfl rfl
  have ha : Allocated k₁ .message m := (hf.allocated _ _).mpr (.inl ⟨rfl, rfl⟩)
  have hu : Unlinked k₁.lists ⟨.message, m⟩ := unlinked_fresh hf
  have hw₂ := hw₁.append (l := .messages q) (x := ⟨.message, m⟩) (regular_messages q) rfl ha
    hu fun l hl => by
      have hl' : Regular l.nodeKind := by
        rw [hl]
        exact (by decide : Regular .message)
      exact hc.tidy.strung.fresh_unlisted hf.fresh hl'
  have hpool : k₁.pool .queue = k.pool .queue := fresh_pool hf (by decide)
  refine ⟨_, hw₂.strung.congr rfl rfl, hpool, hhoused, hf.fresh, fun i => ?_,
    fun i hi => ?_, Function.update_self .., fun q' hne => ?_⟩
  · have hallocated := hf.allocated .message i
    rw [and_iff_right rfl] at hallocated
    exact hallocated
  · show Function.update k₁.message m _ i = _
    rw [Function.update_of_ne hi, hf.eq]
  · exact Function.update_of_ne (by simpa using hne) _ _

/-- From each queue a read takes the first message or none. What it takes it frees, unless the
buffer is too short. -/
structure Taken (bufSize i : Int) (k : Kernel) (L : HeadAddr → List Node) (k' : Kernel)
    (L' : HeadAddr → List Node) : Prop where
  strung : Strung Regular Retained k' L'
  pool : k'.pool .queue = k.pool .queue
  message : k'.message = k.message
  live : ∀ m, Allocated k' .message m → Allocated k .message m
  kept : ∀ m, Allocated k .message m → (∀ q, ⟨.message, m⟩ ∉ L (.messages q)) →
    Allocated k' .message m
  first : ∀ q, L' (.messages q) = L (.messages q) ∨
    (i ≤ (k.queue q).priority ∧ ∃ x, L (.messages q) = x :: L' (.messages q) ∧
      (Allocated k' .message x.idx ↔ bufSize < (k.message x.idx).textLength))

theorem taken_setRetvalue {bufSize i v : Int} (h : Settled k L) :
    Taken bufSize i k L (k.setRetvalue r v) L :=
  ⟨h.strung.congr rfl rfl, rfl, rfl, fun _ hm => hm, fun _ hm _ => hm, fun _ => .inl rfl⟩

theorem Taken.earlier {bufSize i : Int} (h : Taken bufSize (i + 1) k L k' L') :
    Taken bufSize i k L k' L' :=
  { h with first := fun q => (h.first q).imp_right fun hx => ⟨by omega, hx.2⟩ }

theorem Taken.subset {bufSize i : Int} {x : Node} (h : Taken bufSize i k L k' L')
    (hx : x ∈ L' (.messages q)) : x ∈ L (.messages q) := by
  rcases h.first q with hsame | ⟨-, y, hleft, -⟩
  · rwa [← hsame]
  · rw [hleft]
    exact List.mem_cons_of_mem _ hx

theorem mem_shorter {q' : Nat} {x : Node} {rest : List Node}
    (hL : L (.messages q) = ⟨.message, m⟩ :: rest)
    (hx : x ∈ Function.update L (.messages q) rest (.messages q')) : x ∈ L (.messages q') := by
  by_cases he : q' = q
  · subst he
    rw [Function.update_self] at hx
    rw [hL]
    exact List.mem_cons_of_mem _ hx
  · rwa [Function.update_of_ne (by simpa using he)] at hx

/-- A message that has been taken is in no list. -/
theorem taken_unlisted {rest : List Node} (hs : Strung Regular Retained k L)
    (hL : L (.messages q) = ⟨.message, m⟩ :: rest) (l : HeadAddr) (hl : Regular l.nodeKind) :
    ⟨.message, m⟩ ∉ Function.update L (.messages q) rest l := by
  have hmem : ⟨.message, m⟩ ∈ L (.messages q) := by
    rw [hL]
    exact List.mem_cons_self
  have hn := hs.nodup (regular_messages q)
  rw [hL] at hn
  intro hx
  by_cases he : l = .messages q
  · subst he
    rw [Function.update_self] at hx
    exact (List.nodup_cons.mp hn).1 hx
  · rw [Function.update_of_ne he] at hx
    exact he (hs.apart hl (regular_messages q) hx hmem)

/-- A round that finds the buffer too short, and what comes after it. -/
theorem Taken.after {bufSize i : Int} {rest : List Node} (hs : Strung Regular Retained k L)
    (hL : L (.messages q) = ⟨.message, m⟩ :: rest) (hk₁ : k₁ = { k with lists := k₁.lists })
    (hi : (k.queue q).priority = i) (hshort : bufSize < (k.message m).textLength)
    (h : Taken bufSize (i + 1) k₁ (Function.update L (.messages q) rest) k' L') :
    Taken bufSize i k L k' L' := by
  have hqueue : k₁.queue = k.queue := by rw [hk₁]
  have hmessage : k₁.message = k.message := by rw [hk₁]
  have hpool : k₁.pool = k.pool := by rw [hk₁]
  have hmem : ⟨.message, m⟩ ∈ L (.messages q) := by
    rw [hL]
    exact List.mem_cons_self
  have hlost : Allocated k' .message m :=
    h.kept m ((allocated_congr hpool).mpr (hs.live _ _ (regular_messages q) hmem)) fun q' =>
      taken_unlisted hs hL _ (regular_messages q')
  refine ⟨h.strung, h.pool.trans (by rw [hpool]), h.message.trans hmessage,
    fun m hm => (allocated_congr hpool).mp (h.live m hm), fun m hm hout => ?_, fun q' => ?_⟩
  · exact h.kept m ((allocated_congr hpool).mpr hm) fun q' hx => hout q' (mem_shorter hL hx)
  have hfirst := h.first q'
  rw [hqueue, hmessage] at hfirst
  by_cases he : q' = q
  · subst he
    rw [Function.update_self] at hfirst
    rcases hfirst with hsame | ⟨hle, -⟩
    · exact .inr ⟨hi.ge, _, by rw [hsame, hL], iff_of_true hlost hshort⟩
    · omega
  · rw [Function.update_of_ne (by simpa using he)] at hfirst
    rcases hfirst with hsame | ⟨hle, hx⟩
    · exact .inl hsame
    · exact .inr ⟨by omega, hx⟩

/-- The round that delivers a message is the last one. -/
theorem delivered_taken {bufSize i c buf priority : Int} {rest : List Node} (h : Settled k L)
    (hL : L (.messages q) = ⟨.message, m⟩ :: rest) (hk₁ : k₁ = { k with lists := k₁.lists })
    (h₁ : Settled k₁ (Function.update L (.messages q) rest)) (hi : (k.queue q).priority = i)
    (hfits : (k.message m).textLength ≤ bufSize) (hd : Delivered k₁ r mq m c buf priority k') :
    Taken bufSize i k L k' (Function.update L (.messages q) rest) := by
  have hmem : ⟨.message, m⟩ ∈ L (.messages q) := by
    rw [hL]
    exact List.mem_cons_self
  have hpool₁ : k₁.pool = k.pool := by rw [hk₁]
  have ha : Allocated k₁ .message m :=
    (allocated_congr hpool₁).mpr (h.strung.live _ _ (regular_messages q) hmem)
  have hdone := delivered_queued h₁ ha (taken_unlisted h.strung hL) hd
  have hallocated : ∀ i, Allocated k' .message i ↔ i ≠ m ∧ Allocated k .message i := by
    intro i
    rw [allocated_congr (k := k₁.releaseBlock .message m) hd.pool,
      (releaseBlock_returned .message m h₁.strung.pooled ha).allocated, allocated_congr hpool₁]
    simp
  have hpool : k'.pool .queue = k.pool .queue := by
    rw [hd.pool, releaseBlock_pool _ _ (by decide), hpool₁]
  have hmessage : k'.message = k.message := by
    rw [hd.rest, hk₁]
  refine ⟨hdone.settled.strung, hpool, hmessage, fun i hi => ((hallocated i).mp hi).2,
    fun i hi hout => (hallocated i).mpr ⟨?_, hi⟩, fun q' => ?_⟩
  · rintro rfl
    exact hout q hmem
  by_cases he : q' = q
  · subst he
    rw [Function.update_self]
    exact .inr ⟨hi.ge, _, hL, iff_of_false (fun hm => ((hallocated m).mp hm).1 rfl) hfits.not_gt⟩
  · exact .inl (Function.update_of_ne (by simpa using he) _ _)

theorem readClasses_taken {i buf bufSize priority : Int} {n : Nat} (h : Settled k L)
    (hrun : readClasses r mq buf bufSize priority i n k = .ok k') :
    ∃ L', Taken bufSize i k L k' L' := by
  induction n generalizing i k L with
  | zero =>
    cases hrun
    exact ⟨L, taken_setRetvalue h⟩
  | succ n ih =>
    unfold readClasses at hrun
    obtain ⟨found, hfound, hrun⟩ := bind_eq_ok.mp hrun
    cases found with
    | none =>
      cases hrun
      exact ⟨L, taken_setRetvalue h⟩
    | some q =>
      have hclass : (k.queue q).priority = i :=
        of_decide_eq_true (Except.ok.inj (search_found hfound))
      simp only at hrun
      split at hrun
      · obtain ⟨⟨m, k₁⟩, hd, hrun⟩ := bind_eq_ok.mp hrun
        obtain ⟨rest, hL, hq₁, hk₁⟩ := detachMessage_queued h hd
        have hmessage : k₁.message = k.message := by rw [hk₁]
        simp only [hmessage] at hrun
        split at hrun
        · next hfits =>
          exact ⟨_, delivered_taken h hL hk₁ hq₁.settled hclass hfits (deliver_iff.mp hrun)⟩
        · next hshort =>
          obtain ⟨L', htaken⟩ := ih hq₁.settled hrun
          exact ⟨L', htaken.after h.strung hL hk₁ hclass (by omega)⟩
      · obtain ⟨L', htaken⟩ := ih h hrun
        exact ⟨L', htaken.earlier⟩

/-! ## What an action does to the messages -/

/-- An action leaves all messages where they are, brings one or takes some. -/
inductive Delivery (k : Kernel) (L : HeadAddr → List Node) (k' : Kernel)
    (L' : HeadAddr → List Node) : Action → Prop where
  | kept {a : Action} (same : SameMessages k k') (keeps : Keeps L k' L') : Delivery k L k' L' a
  | came {args : List Int} {q m : Nat} (came : CameIn k L q m k' L') :
      Delivery k L k' L' (.syscall DSOS_CALL_MQWRITE args)
  | taken {args : List Int} (taken : Taken (toInt (args.getD 2 0)) 0 k L k' L') :
      Delivery k L k' L' (.syscall DSOS_CALL_MQREAD args)

theorem Delivery.housed (h : Delivery k L k' L' a) (hh : Housed k L) : Housed k' L' := by
  intro q hq
  cases h with
  | kept _ h => exact h.2.2 q hq
  | @came args q' m h =>
    refine (allocated_of_pool h.pool).mpr ?_
    by_cases he : q = q'
    · exact he ▸ h.housed
    · exact hh q (h.others q he ▸ hq)
  | taken h =>
    refine (allocated_of_pool h.pool).mpr (hh q fun hnil => hq ?_)
    rcases h.first q with hsame | ⟨-, x, hleft, -⟩
    · rw [hsame, hnil]
    · rw [hnil] at hleft
      cases hleft

/-- It does not matter which lists are given. -/
theorem Delivery.unique (h : Delivery k L k' L'' a) (hs' : Strung Regular Retained k' L') :
    Delivery k L k' L' a := by
  cases h with
  | kept hsame h => exact .kept hsame (h.unique hs')
  | came h =>
    have hall := messages_unique h.strung hs'
    exact .came { h with
      strung := hs'
      came := (hall _).trans h.came
      others := fun q' hne => (hall q').trans (h.others q' hne) }
  | taken h =>
    have hall := messages_unique h.strung hs'
    exact .taken { h with
      strung := hs'
      first := fun q => by
        rw [hall]
        exact h.first q }

theorem Delivery.setCall (h : Delivery (k.setCall r num args) L k' L' a) :
    Delivery k L k' L' a := by
  cases h with
  | kept hsame h => exact .kept hsame h
  | came h =>
    exact .came ⟨h.strung, h.pool, h.housed, h.fresh, h.allocated, h.message, h.came, h.others⟩
  | taken h => exact .taken ⟨h.strung, h.pool, h.message, h.live, h.kept, h.first⟩

theorem mqWrite_delivery (hc : Coherent k L) (hh : Housed k L) (h : internalMqWrite k = .ok k')
    (args : List Int) : ∃ L', Delivery k L k' L' (.syscall DSOS_CALL_MQWRITE args) := by
  obtain ⟨r, -, ⟨v, rfl⟩ | ⟨mq, q, m, hw⟩⟩ := mqWrite_cases h
  · exact ⟨L, .kept ⟨rfl, rfl⟩ (keeps_setRetvalue ⟨hc.tidy.strung, fun _ => rfl, hh⟩)⟩
  · obtain ⟨L', hcame⟩ := wrote_cameIn hc hw
    exact ⟨L', .came hcame⟩

theorem mqRead_delivery (hc : Coherent k L) (hh : Housed k L) (hr : k.running = some r)
    (h : internalMqRead k = .ok k') {args : List Int} (hsize : k.arg r 2 = args.getD 2 0) :
    ∃ L', Delivery k L k' L' (.syscall DSOS_CALL_MQREAD args) := by
  obtain ⟨r', hr', ⟨v, rfl⟩ | ⟨-, mq, -, -, hrun⟩⟩ := mqRead_cases h
  · exact ⟨L, .kept ⟨rfl, rfl⟩ (keeps_setRetvalue ⟨hc.tidy.strung, fun _ => rfl, hh⟩)⟩
  · obtain rfl : r = r' := Option.some.inj (hr.symm.trans hr')
    obtain ⟨L', htaken⟩ := readClasses_taken hc.settled hrun
    rw [hsize] at htaken
    exact ⟨L', .taken htaken⟩

theorem delivery_act (hc : Coherent k L) (hh : Housed k L) (ha : Ordinary a)
    (hact : act k a = .ok k') : ∃ L', Coherent k' L' ∧ Delivery k L k' L' a := by
  obtain ⟨L', hacted, hc', -⟩ := act_done hc ha hact
  have hs' := hc'.tidy.strung
  refine ⟨L', hc', ?_⟩
  cases hacted with
  | ignored => exact .kept ⟨rfl, rfl⟩ ((undelivered_same rfl).keeps hs' hh)
  | stored => exact .kept ⟨rfl, rfl⟩ ((undelivered_same rfl).keeps hs' hh)
  | restarted h =>
    have hkept := undelivered_restarted h
    exact .kept (same_act (fun _ _ he => by cases he) k k' hact)
      (Undelivered.keeps ⟨hkept.messages, hkept.pool⟩ hs' hh)
  | ticked _ h =>
    have hkept := undelivered_scheduled h
    exact .kept (same_act (fun _ _ he => by cases he) k k' hact)
      (Undelivered.keeps ⟨hkept.messages, hkept.pool⟩ hs' hh)
  | @called r num args _ _ hr h =>
    have hc₁ : Coherent (k.setCall r num args) L := coherent_setCall hc hr
    have hact' : k.disastrOSSyscall num args = .ok k' := hact
    have hkeeps : num ≠ DSOS_CALL_MQREAD → num ≠ DSOS_CALL_MQWRITE → Keeps L k' L' →
        Delivery k L k' L' (.syscall num args) := by
      intro hread hwrite h
      refine .kept (same_act (fun num' args' he => ?_) k k' hact) h
      cases he
      exact ⟨hread, hwrite⟩
    by_cases hnum : QueueCall num
    · rcases hnum with rfl | rfl | rfl | rfl
      · have hv : syscallVector DSOS_CALL_MQOPEN = some internalMqOpen := rfl
        replace hact' := syscall_handled args hv (by decide) (by decide) hr hact'
        obtain ⟨L'', hopen⟩ := mqOpen_keeps hc₁ hh hact'
        exact hkeeps (by decide) (by decide) (hopen.unique hs')
      · have hv : syscallVector DSOS_CALL_MQREAD = some internalMqRead := rfl
        replace hact' := syscall_handled args hv (by decide) (by decide) hr hact'
        obtain ⟨L'', hread⟩ := mqRead_delivery hc₁ hh hr hact' (arg_setCall (by decide))
        exact hread.setCall.unique hs'
      · have hv : syscallVector DSOS_CALL_MQWRITE = some internalMqWrite := rfl
        replace hact' := syscall_handled args hv (by decide) (by decide) hr hact'
        obtain ⟨L'', hwrite⟩ := mqWrite_delivery hc₁ hh hact' args
        exact hwrite.setCall.unique hs'
      · have hv : syscallVector DSOS_CALL_MQUNLINK = some internalMqUnlink := rfl
        replace hact' := syscall_handled args hv (by decide) (by decide) hr hact'
        obtain ⟨L'', hunlink⟩ := mqUnlink_keeps hc₁ hh hact'
        exact hkeeps (by decide) (by decide) (hunlink.unique hs')
    · have hkept := undelivered_called h hnum
      refine hkeeps (fun he => hnum (.inr (.inl he))) (fun he => hnum (.inr (.inr (.inl he)))) ?_
      exact Undelivered.keeps ⟨hkept.messages, hkept.pool⟩ hs' hh

end DisastrOS.MessageQueue.Deliveries
