import DisastrOS.MessageQueue.Classes
import DisastrOS.MessageQueue.Deliveries
import DisastrOS.Process.OpenHandles
import DisastrOS.Process.Quotas
import DisastrOS.Semaphore.Completion
import DisastrOS.Semaphore.Ledger

/-!
# What a call on a file descriptor works on

Where a file descriptor leads to the descriptor `d` on the object `o`, a close closes `d` and no
other descriptor, and the other calls work on `o` and on no other object.
-/
namespace DisastrOS.Process.FdCalls

open DisastrOS.Machine
open DisastrOS.Machine.Kernel
open DisastrOS.Machine.Runs
open DisastrOS.Descriptors.Bindings
open DisastrOS.Descriptors.Tables
open DisastrOS.Lists.Sequences
open DisastrOS.Lists.Wiring
open DisastrOS.Lists.RegularLists
open DisastrOS.Lists.QueueChains
open DisastrOS.Pool.Blocks
open DisastrOS.Process.Coherence
open DisastrOS.Process.FdTables
open DisastrOS.Process.Handles
open DisastrOS.Process.OpenHandles
open DisastrOS.Process.Quotas
open DisastrOS.Process.Transitions
open DisastrOS.Process.View
open DisastrOS.Semaphore.Calls
open DisastrOS.Semaphore.Completion
open DisastrOS.Semaphore.Ledger
open DisastrOS.MessageQueue.Calls
open DisastrOS.MessageQueue.Classes
open DisastrOS.MessageQueue.CoherentCalls
open DisastrOS.MessageQueue.Deliveries
open DisastrOS.Library.CountingSemaphore
open DisastrOS.Library.LinkedSequence
open DisastrOS.Library.Outcome

variable {k k' k₁ : Kernel} {L L' L₁ : HeadAddr → List Node} {t : Table} {r p o d ptr s mq : Nat}
  {fd num : Int} {args : List Int}

/-- The descriptor `d` of `p` is closed, and no other. -/
structure Closes (t : Table) (k : Kernel) (p d : Nat) (k' : Kernel) : Prop where
  retvalue : (k'.pcb p).syscallRetvalue = 0
  freed : ∀ i, Allocated k' t.descriptorKind i ↔ i ≠ d ∧ Allocated k t.descriptorKind i
  unlisted : ∀ q i, Linked k' (.opened t q) ⟨t.descriptorKind, i⟩ ↔
    i ≠ d ∧ Linked k (.opened t q) ⟨t.descriptorKind, i⟩

/-- The semaphore `s` does the operation `op`, and no other does anything. -/
structure OnSemaphore (op : Sem (Option Nat) → Sem (Option Nat)) (k : Kernel) (s : Nat)
    (k' : Kernel) : Prop where
  done : ∀ ps, Waiters k s ps → ∃ qs, Waiters k' s qs ∧
    (⟨(k'.semaphore s).count, qs⟩ : Sem (Option Nat)) = op ⟨(k.semaphore s).count, ps⟩
  others : ∀ i, i ≠ s → (k'.semaphore i).count = (k.semaphore i).count ∧
    ∀ ps, Waiters k i ps → Waiters k' i ps

/-- Only the message queue `mq` and the messages in its queues have changed. -/
structure OnQueues (k : Kernel) (mq : Nat) (k' : Kernel) : Prop where
  others : ∀ i, i ≠ mq → k'.messageQueue i = k.messageQueue i
  messages : ∀ q, (∀ c, k.queueListByPriority (.queues mq) c ≠ .ok (some q)) →
    ∀ xs, Holds k.lists (.messages q) xs → Holds k'.lists (.messages q) xs

/-- The calls of `p` with the number `fd` act on the descriptor `d` and on its object `o`. -/
structure ActsOn (t : Table) (k : Kernel) (p : Nat) (fd : Int) (d o : Nat) : Prop where
  bound : k.boundTo t p fd = .ok (some (d, o))
  close : ∀ args, toInt (args.getD 0 0) = fd →
    ∃ k', k.act (.syscall (closeCall t) args) = .ok k' ∧ Closes t k p d k'
  wait : t = .semaphore → ∀ args k', toInt (args.getD 0 0) = fd →
    k.act (.syscall DSOS_CALL_SEMWAIT args) = .ok k' →
      OnSemaphore (fun x => (wait (some p) x).1) k o k'
  post : t = .semaphore → ∀ args k', toInt (args.getD 0 0) = fd →
    k.act (.syscall DSOS_CALL_SEMPOST args) = .ok k' → OnSemaphore (fun x => (post x).1) k o k'
  message : t = .mq → ∀ num args k', num = DSOS_CALL_MQWRITE ∨ num = DSOS_CALL_MQREAD →
    toInt (args.getD 0 0) = fd → k.act (.syscall num args) = .ok k' → OnQueues k o k'

/-! ## Closing -/

theorem closes_of_removed (hs : Strung Regular Retained k L)
    (hm : ⟨t.descriptorKind, d⟩ ∈ L (.opened t p))
    (h : Removed Regular Retained k L t p o d ptr k₁) (hs' : Strung Regular Retained k' L')
    (hpool : k'.pool t.descriptorKind = k₁.pool t.descriptorKind)
    (hopened : ∀ q, L' (.opened t q) = withClosed L t p o d ptr (.opened t q))
    (hret : (k'.pcb p).syscallRetvalue = 0) : Closes t k p d k' := by
  have hreg : ∀ q, Regular (HeadAddr.opened t q).nodeKind := fun _ => regular_descriptorKind t
  have hkind : t.descriptorKind ≠ t.pointerKind := by cases t <;> decide
  refine ⟨hret, fun i => ?_, fun q i => ?_⟩
  · rw [allocated_of_pool hpool, h.allocated]
    simp only [true_and, hkind, false_and, not_false_eq_true]
  · have hmem : (⟨t.descriptorKind, i⟩ : Node) ∈ withClosed L t p o d ptr (.opened t q) ↔
        ⟨t.descriptorKind, i⟩ ∈ L (.opened t q) ∧ ¬ (q = p ∧ i = d) := by
      rw [withClosed, closed_mem (hs.nodup (hreg p)) (hs.nodup (regular_pointerKind t))]
      simp
    rw [hs'.linked_iff (hreg q), hs.linked_iff (hreg q), hopened, hmem]
    constructor
    · rintro ⟨hi, hno⟩
      refine ⟨?_, hi⟩
      rintro rfl
      have hq := hs.apart (l := .opened t q) (j := .opened t p) (hreg q) (hreg p) hi hm
      exact hno ⟨(HeadAddr.opened.inj hq).2, rfl⟩
    · exact fun h => ⟨h.2, fun he => h.1 he.2⟩

theorem semClose_closes (hc : Coherent k L) (hr : k.running = some p) (hfd : SemFd k p d s) :
    ∃ k', internalSemClose k = .ok k' ∧ Closes .semaphore k p d k' := by
  obtain ⟨k', hk'⟩ := semClose_completes hc hr
  refine ⟨k', hk', ?_⟩
  obtain ⟨L', hclosed⟩ := semClose_ok hc hr hk'
  have hs' := (hclosed.moved hc).woven.strung
  cases hclosed with
  | refused hno => exact absurd hno hfd.not_noSemFd
  | closed hfd' _ hm _ h =>
    obtain ⟨rfl, rfl⟩ := hfd'.unique hfd
    exact closes_of_removed hc.tidy.strung hm h hs' rfl (fun _ => rfl) (setRetvalue_self _ _ _)
  | destroyed hfd' _ hm _ h hdes =>
    obtain ⟨rfl, rfl⟩ := hfd'.unique hfd
    refine closes_of_removed hc.tidy.strung hm h hs' ?_ (fun q => ?_) (setRetvalue_self _ _ _)
    · exact hdes.pool .semDescriptor (by decide)
    · rw [hdes.lists, Function.update_of_ne (by simp [objects])]

theorem mqClose_closes (hc : Coherent k L) (hr : k.running = some p)
    (hin : fdOutOfBounds (toInt (k.arg p 0)) MAX_NUM_MQDESCRIPTORS_PER_PROCESS = false)
    (hb : k.boundTo .mq p (toInt (k.arg p 0)) = .ok (some (d, o))) :
    ∃ k', internalMqClose k = .ok k' ∧ Closes .mq k p d k' := by
  have hs := hc.tidy.strung
  obtain ⟨hm, _, ho⟩ := boundTo_listed hs hb
  obtain ⟨ptr, hptr, _, hu, _⟩ := Coherent.pointer_listed hc hr hm ho
  have hrem := unlist_removed hs (regular_descriptorKind .mq) (regular_pointerKind .mq) hm hu
  have hcall : internalMqClose k = .ok ((k.closeDescriptor .mq p d o).2.setRetvalue p 0) := by
    unfold internalMqClose
    rw [deref_eq_ok.mpr hr]
    simp only [bind, Except.bind, hin, hb, closeDescriptor_eq hptr]
    rfl
  rw [closeDescriptor_eq hptr] at hcall
  exact ⟨_, hcall, closes_of_removed hs hm hrem (hrem.strung.congr rfl rfl) rfl (fun _ => rfl)
    (setRetvalue_self _ _ _)⟩

/-- A close with the number of `d` closes `d`. -/
theorem close_acts (ht : t ≠ .resource) (hc : Coherent k L) (hr : k.running = some p)
    (hin : 0 ≤ fd ∧ fd ≤ quota t) (hb : k.boundTo t p fd = .ok (some (d, o)))
    (harg : toInt (args.getD 0 0) = fd) :
    ∃ k', k.act (.syscall (closeCall t) args) = .ok k' ∧ Closes t k p d k' := by
  subst harg
  have hc₁ : Coherent (k.setCall p (closeCall t) args) L := coherent_setCall hc hr
  have harg₁ : (k.setCall p (closeCall t) args).arg p 0 = args.getD 0 0 :=
    arg_setCall (by cases t <;> decide)
  have hb₁ : (k.setCall p (closeCall t) args).boundTo t p
      (toInt ((k.setCall p (closeCall t) args).arg p 0)) = .ok (some (d, o)) := by
    rw [harg₁, boundTo_setCall]
    exact hb
  have hin₁ : fdOutOfBounds (toInt ((k.setCall p (closeCall t) args).arg p 0)) (quota t) = false := by
    rw [harg₁]
    simp only [fdOutOfBounds, decide_eq_false_iff_not]
    omega
  cases t with
  | resource => exact absurd rfl ht
  | semaphore =>
    obtain ⟨k', hcall, h⟩ := semClose_closes hc₁ hr ⟨Bool.eq_false_iff.mp hin₁, hb₁⟩
    exact ⟨k', (syscall_direct hc rfl (by decide) (by decide) (by decide) hr args).trans hcall,
      h.retvalue, h.freed, h.unlisted⟩
  | mq =>
    obtain ⟨k', hcall, h⟩ := mqClose_closes hc₁ hr hin₁ hb₁
    exact ⟨k', (syscall_direct hc rfl (by decide) (by decide) (by decide) hr args).trans hcall,
      h.retvalue, h.freed, h.unlisted⟩

/-! ## Waiting and posting -/

/-- What one operation says of the kernel. -/
theorem onSemaphore_of {op : Sem (Option Nat) → Sem (Option Nat)}
    (hs : Strung Regular Retained k L) (hs' : Strung Regular Retained k' L')
    (hop : semOf k' L' s = op (semOf k L s)) (hother : ∀ i, i ≠ s → semOf k' L' i = semOf k L i) :
    OnSemaphore op k s k' := by
  refine ⟨fun ps hps => ⟨_, waiters_view hs', ?_⟩, fun i hi => ⟨?_, fun ps hps => ?_⟩⟩
  · rw [waiters_eq hs hps]
    exact hop
  · exact congrArg Sem.count (hother i hi)
  · have hsame : (view k' L').waiters i = (view k L).waiters i := congrArg Sem.queue (hother i hi)
    rw [waiters_eq hs hps, ← hsame]
    exact waiters_view hs'

theorem wait_acts (hc : Coherent k L) (hr : k.running = some p)
    (hfd : ValidFd k p (toInt (args.getD 0 0)) d s)
    (hact : k.act (.syscall DSOS_CALL_SEMWAIT args) = .ok k') :
    OnSemaphore (fun x => (wait (some p) x).1) k s k' := by
  have hordinary : Ordinary (.syscall DSOS_CALL_SEMWAIT args) := trivial
  obtain ⟨L', _, hc', _⟩ := act_done hc hordinary hact
  have hsem : semOfFd k p (toInt (args.getD 0 0)) = some s :=
    semOfFd_of_semFd (.inl rfl) (semFd_setCall (.inl rfl) hfd)
  have hmoves := fun i => semWait_moves (s := i) hc hr hact hc'
  refine onSemaphore_of hc.tidy.strung hc'.tidy.strung ((hmoves s).of_wait ?_) fun i hi => ?_
  · unfold watch
    simp only [hr, hsem, if_true]
    split
    · exact .inl rfl
    · exact .inr rfl
  · have hwatch : watch i k (.syscall DSOS_CALL_SEMWAIT args) k' = [] := by
      unfold watch
      simp only [hr, hsem, Option.some.injEq, if_neg hi.symm]
    have hmove := hmoves i
    rw [hwatch] at hmove
    exact hmove.of_nil

theorem post_acts (hc : Coherent k L) (hr : k.running = some p)
    (hfd : ValidFd k p (toInt (args.getD 0 0)) d s)
    (hact : k.act (.syscall DSOS_CALL_SEMPOST args) = .ok k') :
    OnSemaphore (fun x => (post x).1) k s k' := by
  have hordinary : Ordinary (.syscall DSOS_CALL_SEMPOST args) := trivial
  obtain ⟨L', _, hc', _⟩ := act_done hc hordinary hact
  have hsem : semOfFd k p (toInt (args.getD 0 0)) = some s :=
    semOfFd_of_semFd (.inr rfl) (semFd_setCall (.inr rfl) hfd)
  have hmoves := fun i => semPost_moves (s := i) hc hr hact hc'
  refine onSemaphore_of hc.tidy.strung hc'.tidy.strung ?_ fun i hi => ?_
  · have hmove := hmoves s
    obtain ⟨es, hes⟩ : ∃ es, watch s k (.syscall DSOS_CALL_SEMPOST args) k' = .posted :: es := by
      unfold watch
      simp only [hr, hsem, if_true]
      rw [if_neg (by decide)]
      split <;> exact ⟨_, rfl⟩
    rw [hes] at hmove
    exact hmove.of_post
  · have hwatch : watch i k (.syscall DSOS_CALL_SEMPOST args) k' = [] := by
      unfold watch
      simp only [hr, hsem, Option.some.injEq, if_neg hi.symm]
    have hmove := hmoves i
    rw [hwatch] at hmove
    exact hmove.of_nil

/-! ## Messages -/

/-- The searches for a class are those of `k`. -/
def SameClasses (k k₁ : Kernel) (mq : Nat) : Prop :=
  ∀ c, k₁.queueListByPriority (.queues mq) c = k.queueListByPriority (.queues mq) c

theorem sameClasses_of (hqueue : k₁.queue = k.queue) (hconf : Confined Regular k k₁) :
    SameClasses k k₁ mq := by
  intro c
  refine search_frame (hconf.head _ (irregular_queues mq)) (fun x hx => hconf.item x ?_)
    fun i => by rw [hqueue]
  rw [hx]
  exact irregular_queues mq

/-- All messages but those in the queues of `mq` are where they were. -/
structure MessagesKept (k : Kernel) (mq : Nat) (L : HeadAddr → List Node) (k' : Kernel)
    (L' : HeadAddr → List Node) : Prop where
  strung : Strung Regular Retained k' L'
  others : ∀ i, i ≠ mq → k'.messageQueue i = k.messageQueue i
  messages : ∀ q, (∀ c, k.queueListByPriority (.queues mq) c ≠ .ok (some q)) →
    L' (.messages q) = L (.messages q)

theorem MessagesKept.onQueues (h : MessagesKept k mq L k' L') (hs : Strung Regular Retained k L) :
    OnQueues k mq k' := by
  refine ⟨h.others, fun q hq xs hxs => ?_⟩
  obtain rfl : xs = L (.messages q) := represents_unique hxs (hs.holds (regular_messages q))
  rw [← h.messages q hq]
  exact h.strung.holds (regular_messages q)

theorem readClasses_kept {i buf bufSize priority : Int} {n : Nat} (h : Settled k₁ L₁)
    (hsame : SameClasses k k₁ mq) (hmq : k₁.messageQueue = k.messageQueue)
    (hrun : readClasses r mq buf bufSize priority i n k₁ = .ok k') :
    ∃ L', MessagesKept k mq L₁ k' L' := by
  induction n generalizing i k₁ L₁ with
  | zero =>
    cases hrun
    exact ⟨L₁, h.strung.congr rfl rfl, fun i _ => congrFun hmq i, fun _ _ => rfl⟩
  | succ n ih =>
    unfold readClasses at hrun
    obtain ⟨found, hfound, hrun⟩ := bind_eq_ok.mp hrun
    cases found with
    | none =>
      cases hrun
      exact ⟨L₁, h.strung.congr rfl rfl, fun i _ => congrFun hmq i, fun _ _ => rfl⟩
    | some q =>
      have hclass := (hsame i).symm.trans hfound
      simp only at hrun
      split at hrun
      · obtain ⟨⟨m, k₂⟩, hd, hrun⟩ := bind_eq_ok.mp hrun
        obtain ⟨rest, hL, hq₂, hk₂⟩ := detachMessage_queued h hd
        have hother : ∀ q', (∀ c, k.queueListByPriority (.queues mq) c ≠ .ok (some q')) →
            Function.update L₁ (.messages q) rest (.messages q') = L₁ (.messages q') := by
          intro q' hq'
          refine Function.update_of_ne (fun he => ?_) _ _
          exact hq' i (by rw [HeadAddr.messages.inj he]; exact hclass)
        have hmq₂ : k₂.messageQueue = k.messageQueue := by rw [hk₂]; exact hmq
        simp only at hrun
        split at hrun
        · have hdone := deliver_iff.mp hrun
          have ha : Allocated k₂ .message m := by
            rw [hk₂]
            exact h.strung.live _ _ (regular_messages q) (by rw [hL]; exact List.mem_cons_self)
          have hqueued := delivered_queued hq₂.settled ha (taken_unlisted h.strung hL) hdone
          refine ⟨_, hqueued.settled.strung, fun i hi => ?_, hother⟩
          rw [hdone.messageQueue, Function.update_of_ne hi, hmq₂]
        · obtain ⟨_, _, _, hw₂⟩ := (Woven.refl h.strung).detachFirst_ok (regular_messages q) hd
          have hsame₂ : SameClasses k k₂ mq := fun c =>
            (sameClasses_of (by rw [hk₂]) hw₂.confined c).trans (hsame c)
          obtain ⟨L', hkept⟩ := ih hq₂.settled hsame₂ hmq₂ hrun
          exact ⟨L', hkept.strung, hkept.others, fun q' hq' =>
            (hkept.messages q' hq').trans (hother q' hq')⟩
      · exact ih h hsame hmq hrun

theorem message_acts (hc : Coherent k L) (hr : k.running = some p)
    (hnum : num = DSOS_CALL_MQWRITE ∨ num = DSOS_CALL_MQREAD)
    (hb : k.boundTo .mq p (toInt (args.getD 0 0)) = .ok (some (d, o)))
    (hact : k.act (.syscall num args) = .ok k') : OnQueues k o k' := by
  have hc₁ : Coherent (k.setCall p num args) L := coherent_setCall hc hr
  have hs := hc.tidy.strung
  have hsame : SameClasses k (k.setCall p num args) o := sameClasses_of rfl (confined_of_lists rfl)
  have hrefused : ∀ v, OnQueues k o ((k.setCall p num args).setRetvalue p v) := fun v =>
    ⟨fun _ _ => rfl, fun _ _ _ hxs => hxs⟩
  have hb₁ : (k.setCall p num args).boundTo .mq p (toInt ((k.setCall p num args).arg p 0)) =
      .ok (some (d, o)) := by
    rw [arg_setCall (by rcases hnum with rfl | rfl <;> decide), boundTo_setCall]
    exact hb
  have hobject : ∀ {d' o'}, (k.setCall p num args).boundTo .mq p
      (toInt ((k.setCall p num args).arg p 0)) = .ok (some (d', o')) → o' = o := by
    intro d' o' hb'
    have hpair := hb'.symm.trans hb₁
    simp only [Except.ok.injEq, Option.some.injEq, Prod.mk.injEq] at hpair
    exact hpair.2
  rcases hnum with rfl | rfl
  · have hcall : internalMqWrite (k.setCall p DSOS_CALL_MQWRITE args) = .ok k' :=
      syscall_handled args rfl (by decide) (by decide) hr hact
    obtain ⟨p', hp', ⟨v, rfl⟩ | ⟨mq, q, m, hw⟩⟩ := mqWrite_cases hcall
    · obtain rfl := Option.some.inj (hp'.symm.trans hr)
      exact hrefused v
    · obtain rfl := Option.some.inj (hp'.symm.trans hr)
      obtain ⟨d', hopen⟩ := hw.open_
      obtain rfl := hobject hopen
      obtain ⟨L', hcame⟩ := wrote_cameIn hc₁ hw
      refine MessagesKept.onQueues ⟨hcame.strung, fun i hi => ?_, fun q' hq' => ?_⟩ hs
      · rw [wrote_messageQueue hc₁.tidy.strung.pooled hw, Function.update_of_ne hi]
        rfl
      · refine hcame.others q' ?_
        rintro rfl
        exact hq' _ ((hsame _).symm.trans hw.queue)
  · have hcall : internalMqRead (k.setCall p DSOS_CALL_MQREAD args) = .ok k' :=
      syscall_handled args rfl (by decide) (by decide) hr hact
    obtain ⟨p', hp', ⟨v, rfl⟩ | ⟨d', mq, hopen, _, hrun⟩⟩ := mqRead_cases hcall
    · obtain rfl := Option.some.inj (hp'.symm.trans hr)
      exact hrefused v
    · obtain rfl := Option.some.inj (hp'.symm.trans hr)
      obtain rfl := hobject hopen
      obtain ⟨L', hkept⟩ := readClasses_kept hc₁.settled hsame rfl hrun
      exact hkept.onQueues hs

/-! ## All calls -/

/-- A number that is bound stands for its descriptor. -/
theorem actsOn_of_bound (ht : t ≠ .resource) (hc : Coherent k L) (hr : k.running = some p)
    (hin : 0 ≤ fd ∧ fd ≤ quota t) (hb : k.boundTo t p fd = .ok (some (d, o))) :
    ActsOn t k p fd d o := by
  refine ⟨hb, fun args harg => close_acts ht hc hr hin hb harg, fun he args k' harg hact => ?_,
    fun he args k' harg hact => ?_, fun he num args k' hnum harg hact => ?_⟩
  · subst he harg
    exact wait_acts hc hr ⟨hin, hb⟩ hact
  · subst he harg
    exact post_acts hc hr ⟨hin, hb⟩ hact
  · subst he harg
    exact message_acts hc hr hnum hb hact

/-! ## Opening -/

theorem open_over_quota (ht : t ≠ .resource) (hr : k.running = some p)
    (hfull : quota t < (k.pcb p).fdCounter t + 1) : k.act (.syscall (openCall t) args) =
      .ok ((k.setCall p (openCall t) args).setRetvalue p (openError t)) := by
  have hr₁ : (k.setCall p (openCall t) args).running = some p := hr
  have hfull₁ : ((k.setCall p (openCall t) args).pcb p).fdCounter t + 1 > quota t := by
    rw [counter_setCall]
    exact hfull
  cases t with
  | resource => exact absurd rfl ht
  | semaphore =>
    refine syscall_returns args rfl (by decide) (by decide) hr ?_ hr₁
    unfold internalSemOpen
    rw [deref_eq_ok.mpr hr₁]
    exact if_pos hfull₁
  | mq =>
    refine syscall_returns args rfl (by decide) (by decide) hr ?_ hr₁
    unfold internalMqOpen
    rw [deref_eq_ok.mpr hr₁]
    exact if_pos hfull₁

/-- An open call fails, or it adds a descriptor to what was open. -/
theorem open_outcomes (ht : t ≠ .resource) (hc : Coherent k L) (hr : k.running = some p)
    (hact : k.act (.syscall (openCall t) args) = .ok k') :
    (k'.pcb p).syscallRetvalue = openError t ∨ ∃ k₁ L₁ d o ptr, FdsKept t k L k₁ L₁ ∧
      (Allocated k t.descriptorKind d → Allocated k₁ t.descriptorKind d) ∧
        Strung Regular Retained k₁ L₁ ∧ Added Regular Retained k₁ L₁ t p o d ptr k' := by
  have hc₁ : Coherent (k.setCall p (openCall t) args) L := coherent_setCall hc hr
  cases t with
  | resource => exact absurd rfl ht
  | semaphore =>
    have hcall : internalSemOpen (k.setCall p DSOS_CALL_SEMOPEN args) = .ok k' :=
      syscall_handled args rfl (by decide) (by decide) hr hact
    obtain ⟨L', h⟩ := semOpen_ok hc₁ hr hcall
    cases h with
    | refused => exact .inl (setRetvalue_self _ _ _)
    | opened _ h => exact .inr ⟨_, _, _, _, _, fdsKept_setCall, id, hc₁.tidy.strung, h⟩
    | created hnew h =>
      exact .inr ⟨_, _, _, _, _, fdsKept_setCall.trans (fdsKept_created hnew.created),
        fun hd => (hnew.created.allocated _ _).mpr (.inr hd), hnew.created.woven.strung, h⟩
    | createdOnly => exact .inl (setRetvalue_self _ _ _)
  | mq =>
    have hcall : internalMqOpen (k.setCall p DSOS_CALL_MQOPEN args) = .ok k' :=
      syscall_handled args rfl (by decide) (by decide) hr hact
    obtain ⟨L', h⟩ := mqOpen_ok hc₁ hr hcall
    cases h with
    | unopened _ hv => exact .inl hv
    | opened hq _ _ h =>
      exact .inr ⟨_, _, _, _, _, fdsKept_setCall.trans (fdsKept_queued hq),
        (allocated_of_pool (hq.pool .mqDescriptor (by decide))).mpr, hq.settled.strung, h⟩

/-- A number that nothing else has leads to the new descriptor. -/
theorem boundTo_new (hs : Strung Regular Retained k L)
    (h : Added Regular Retained k L t p o d ptr k')
    (hfree : (fdTable t k L p).next ∉ (fdTable t k L p).fds) :
    k'.boundTo t p ((k.pcb p).fdCounter t) = .ok (some (d, o)) := by
  have hreg : Regular (HeadAddr.opened t p).nodeKind := regular_descriptorKind t
  have hlist : withOpened L t p o d ptr (.opened t p) =
      L (.opened t p) ++ [⟨t.descriptorKind, d⟩] := by
    unfold withOpened
    rw [Function.update_of_ne (by simp), Function.update_self]
  have hnew : k'.descriptor t d =
      { pcb := some p, object := some o, fd := (k.pcb p).fdCounter t, ptr := some ptr } := by
    rw [h.descriptor, Function.update_self, Function.update_self]
  have hnone : ((L (.opened t p)).map Node.idx).find? (fun i => decide ((k'.descriptor t i).fd =
      (k.pcb p).fdCounter t)) = none := by
    rw [List.find?_eq_none]
    intro i hi hfd
    obtain ⟨x, hx, rfl⟩ := List.mem_map.mp hi
    have hne : x.idx ≠ d := by
      rintro rfl
      have hlive := hs.live _ x hreg hx
      rw [hs.kind _ x hreg hx] at hlive
      exact h.freshDescriptor hlive
    have hfd := of_decide_eq_true hfd
    rw [h.descriptor, Function.update_self, Function.update_of_ne hne] at hfd
    exact hfree (List.mem_map.mpr ⟨x, hx, hfd⟩)
  rw [boundTo_eq h.strung, hlist]
  unfold byFd
  rw [List.map_append, List.find?_append, hnone]
  simp [hnew]

/-- An open call that returns no error returns the number of a new descriptor. -/
theorem opened_bound (ht : t ≠ .resource) (hc : Coherent k L) (hr : k.running = some p)
    (hfree : (fdTable t k L p).next ∉ (fdTable t k L p).fds)
    (hact : k.act (.syscall (openCall t) args) = .ok k')
    (hret : 0 ≤ (k'.pcb p).syscallRetvalue) :
    (k'.pcb p).syscallRetvalue ≤ quota t ∧ ∃ d o, ¬ Allocated k t.descriptorKind d ∧
      k'.boundTo t p (k'.pcb p).syscallRetvalue = .ok (some (d, o)) := by
  have herror : ¬ (k'.pcb p).syscallRetvalue = openError t := by
    have hneg : openError t < 0 := by cases t <;> decide
    omega
  obtain ⟨k₁, L₁, d, o, ptr, hkept, hused, hs₁, hadded⟩ :=
    (open_outcomes ht hc hr hact).resolve_left herror
  have hvalue : (k'.pcb p).syscallRetvalue = (k.pcb p).fdCounter t := by
    rw [hadded.pcb, Function.update_self]
    exact hkept.counter p
  refine ⟨?_, d, o, fun hd => hadded.freshDescriptor (hused hd), ?_⟩
  · by_contra hover
    refine herror ?_
    rw [open_over_quota ht hr (by omega), Except.ok.injEq] at hact
    rw [← hact]
    exact setRetvalue_self _ _ _
  · rw [hvalue, ← hkept.counter p]
    refine boundTo_new hs₁ hadded ?_
    rwa [hkept.eq p]

end DisastrOS.Process.FdCalls
