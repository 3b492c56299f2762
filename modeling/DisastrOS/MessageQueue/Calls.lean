import DisastrOS.Library.Outcome
import DisastrOS.Machine.System

/-!
# What a message queue call can do

One inversion for each call: how the state after a completed call is obtained from
the state before it.
-/
namespace DisastrOS.MessageQueue.Calls

open DisastrOS.Machine
open DisastrOS.Machine.Kernel
open DisastrOS.Library.Outcome

variable {k k' : Kernel} {r mq q m : Nat}

/-- A completed system call is the handler on the state with the registers filled in. -/
theorem syscall_ok {num : Int} {args : List Int} {handler : Kernel → Except Fault Kernel}
    (hv : syscallVector num = some handler) (h0 : 0 ≤ num) (hlt : num < DSOS_MAX_SYSCALLS)
    (h : k.disastrOSSyscall num args = .ok k') :
    ∃ r, k.running = some r ∧ handler (k.setCall r num args) = .ok k' := by
  unfold disastrOSSyscall at h
  cases hr : k.running with
  | none =>
    rw [hr] at h
    cases h
  | some r =>
    simp only [hr, if_neg (by omega : ¬ (num < 0 ∨ num > DSOS_MAX_SYSCALLS)),
      if_neg (by omega : num ≠ DSOS_MAX_SYSCALLS)] at h
    unfold disastrOSTrap at h
    obtain ⟨_, _, h⟩ := bind_eq_ok.mp h
    obtain ⟨k₁, hk₁, h⟩ := bind_eq_ok.mp h
    obtain ⟨rfl, _⟩ := setcontext_eq_ok.mp h
    rw [hv] at hk₁
    exact ⟨r, rfl, hk₁⟩

/-- The handler that a system call of the running process reaches, and the switch behind it. -/
theorem syscall_eq {num : Int} (args : List Int) {handler : Kernel → Except Fault Kernel}
    (hv : syscallVector num = some handler) (h0 : 0 ≤ num) (hlt : num < DSOS_MAX_SYSCALLS)
    (hr : k.running = some r) : k.disastrOSSyscall num args =
      handler (k.setCall r num args) >>= fun k' => k'.setcontext r := by
  have hr' : (k.setCall r num args).running = some r := hr
  unfold disastrOSSyscall disastrOSTrap
  simp only [hr, hr', if_neg (by omega : ¬ (num < 0 ∨ num > DSOS_MAX_SYSCALLS)),
    if_neg (by omega : num ≠ DSOS_MAX_SYSCALLS), hv]
  rfl

/-- A call completes when its handler does and the process that then runs has a context. -/
theorem syscall_iff {num : Int} (args : List Int) {handler : Kernel → Except Fault Kernel}
    (hv : syscallVector num = some handler) (h0 : 0 ≤ num) (hlt : num < DSOS_MAX_SYSCALLS)
    (hr : k.running = some r) : k.disastrOSSyscall num args = .ok k' ↔
      handler (k.setCall r num args) = .ok k' ∧
        ∀ p, k'.running = some p → p = r ∨ (k'.pcb p).cpuState = true := by
  rw [syscall_eq args hv h0 hlt hr, bind_eq_ok]
  constructor
  · rintro ⟨k₁, hk₁, h⟩
    obtain ⟨rfl, hswitch⟩ := setcontext_eq_ok.mp h
    exact ⟨hk₁, hswitch⟩
  · rintro ⟨hk', hswitch⟩
    exact ⟨k', hk', setcontext_eq_ok.mpr ⟨rfl, hswitch⟩⟩

/-- The handler of a completed call has completed. -/
theorem syscall_handled {num : Int} (args : List Int) {handler : Kernel → Except Fault Kernel}
    (hv : syscallVector num = some handler) (h0 : 0 ≤ num) (hlt : num < DSOS_MAX_SYSCALLS)
    (hr : k.running = some r) (h : k.disastrOSSyscall num args = .ok k') :
    handler (k.setCall r num args) = .ok k' :=
  ((syscall_iff args hv h0 hlt hr).mp h).1

/-- A handler that leaves the caller running returns to it. -/
theorem syscall_returns {num : Int} (args : List Int) {handler : Kernel → Except Fault Kernel}
    (hv : syscallVector num = some handler) (h0 : 0 ≤ num) (hlt : num < DSOS_MAX_SYSCALLS)
    (hr : k.running = some r) (h : handler (k.setCall r num args) = .ok k')
    (hr' : k'.running = some r) : k.disastrOSSyscall num args = .ok k' := by
  refine (syscall_iff args hv h0 hlt hr).mpr ⟨h, fun p hp => .inl ?_⟩
  exact Option.some.inj (hp.symm.trans hr')

/-- Behind a handler that leaves the caller running there is no switch. -/
theorem syscall_stays {num : Int} (args : List Int) {handler : Kernel → Except Fault Kernel}
    (hv : syscallVector num = some handler) (h0 : 0 ≤ num) (hlt : num < DSOS_MAX_SYSCALLS)
    (hr : k.running = some r)
    (hstays : Ensures (handler (k.setCall r num args)) fun k' => k'.running = some r) :
    k.disastrOSSyscall num args = handler (k.setCall r num args) := by
  rw [syscall_eq args hv h0 hlt hr]
  cases hcall : handler (k.setCall r num args) with
  | error fault => rfl
  | ok k' =>
    have hr' := hstays k' hcall
    exact setcontext_eq_ok.mpr ⟨rfl, fun p hp => .inl (Option.some.inj (hp.symm.trans hr'))⟩

/-! ## Writing -/

/-- `mqWrite` has put the new message `m` into the queue `q` of `mq`. -/
structure Wrote (k : Kernel) (r mq q m : Nat) (k' : Kernel) : Prop where
  open_ : ∃ d, k.boundTo .mq r (toInt (k.arg r 0)) = .ok (some (d, mq))
  fd : fdOutOfBounds (toInt (k.arg r 0)) MAX_NUM_MQDESCRIPTORS_PER_PROCESS = false
  buffer : k.arg r 1 ≠ 0
  size : 0 ≤ toInt (k.arg r 2) ∧ toInt (k.arg r 2) ≤ MAX_MESSAGE_LENGTH
  room : (k.messageQueue mq).numMessages + 1 ≤ MAX_NUM_MESSAGES_PER_MQ
  queue : k.queueListByPriority (.queues mq)
    (effectivePriority (toInt (k.arg r 3)) (k.messageQueue mq).priority) = .ok (some q)
  eq : ∃ k₁, k.newItem .message = some (m, k₁) ∧
    k' = ((({ k₁ with message := Function.update k₁.message m ⟨toInt (k.arg r 2), k.arg r 1⟩ }
      : Kernel).append (.messages q) ⟨.message, m⟩).modMessageQueue mq
        fun x => { x with numMessages := x.numMessages + 1 }).setRetvalue r
          (effectivePriority (toInt (k.arg r 3)) (k.messageQueue mq).priority)

theorem mqWrite_cases (h : internalMqWrite k = .ok k') :
    ∃ r, k.running = some r ∧
      ((∃ v, k' = k.setRetvalue r v) ∨ ∃ mq q m, Wrote k r mq q m k') := by
  unfold internalMqWrite at h
  obtain ⟨r, hr, h⟩ := bind_eq_ok.mp h
  refine ⟨r, deref_eq_ok.mp hr, ?_⟩
  simp only at h
  split at h
  · exact .inl ⟨_, (Except.ok.inj h).symm⟩
  · next hfd =>
    split at h
    · exact .inl ⟨_, (Except.ok.inj h).symm⟩
    · next hbuf =>
      split at h
      · exact .inl ⟨_, (Except.ok.inj h).symm⟩
      · next hsize =>
        obtain ⟨bound, hb, h⟩ := bind_eq_ok.mp h
        cases bound with
        | none => exact .inl ⟨_, (Except.ok.inj h).symm⟩
        | some b =>
          obtain ⟨d, mq⟩ := b
          simp only at h
          split at h
          · exact .inl ⟨_, (Except.ok.inj h).symm⟩
          · next hroom =>
            obtain ⟨found, hq, h⟩ := bind_eq_ok.mp h
            cases found with
            | none => exact .inl ⟨_, (Except.ok.inj h).symm⟩
            | some q =>
              simp only [messageAlloc] at h
              cases hnew : k.newItem .message with
              | none =>
                rw [hnew] at h
                exact .inl ⟨_, (Except.ok.inj h).symm⟩
              | some new =>
                obtain ⟨m, k₁⟩ := new
                rw [hnew] at h
                exact .inr ⟨mq, q, m, ⟨d, hb⟩, by simpa using hfd, hbuf, by omega, by omega, hq,
                  k₁, hnew, (Except.ok.inj h).symm⟩

/-! ## Reading -/

theorem mqRead_cases (h : internalMqRead k = .ok k') :
    ∃ r, k.running = some r ∧
      ((∃ v, k' = k.setRetvalue r v) ∨
        ∃ d mq, k.boundTo .mq r (toInt (k.arg r 0)) = .ok (some (d, mq)) ∧
          (k.messageQueue mq).numMessages ≠ 0 ∧
          readClasses r mq (k.arg r 1) (toInt (k.arg r 2)) (k.arg r 3) 0
            (k.messageQueue mq).priority.toNat k = .ok k') := by
  unfold internalMqRead at h
  obtain ⟨r, hr, h⟩ := bind_eq_ok.mp h
  refine ⟨r, deref_eq_ok.mp hr, ?_⟩
  simp only at h
  split at h
  · exact .inl ⟨_, (Except.ok.inj h).symm⟩
  · obtain ⟨bound, hb, h⟩ := bind_eq_ok.mp h
    cases bound with
    | none => exact .inl ⟨_, (Except.ok.inj h).symm⟩
    | some b =>
      obtain ⟨d, mq⟩ := b
      simp only at h
      split at h
      · exact .inl ⟨_, (Except.ok.inj h).symm⟩
      · next hnum => exact .inr ⟨d, mq, hb, hnum, h⟩

/-- A read that passes the tests is the loop over the classes. -/
theorem mqRead_eq {d : Nat} (hr : k.running = some r)
    (hfd : fdOutOfBounds (toInt (k.arg r 0)) MAX_NUM_MQDESCRIPTORS_PER_PROCESS = false)
    (hb : k.boundTo .mq r (toInt (k.arg r 0)) = .ok (some (d, mq)))
    (hn : (k.messageQueue mq).numMessages ≠ 0) :
    internalMqRead k = readClasses r mq (k.arg r 1) (toInt (k.arg r 2)) (k.arg r 3) 0
      (k.messageQueue mq).priority.toNat k := by
  unfold internalMqRead
  simp only [hr, deref, bind, Except.bind, hfd, Bool.false_eq_true, if_false, hb, hn]

/-- The state after the message `m` of class `i` has been handed to a reader. -/
structure Delivered (k : Kernel) (r mq m : Nat) (i buf priority : Int) (k' : Kernel) : Prop where
  pointers : buf ≠ 0 ∧ (k.message m).text ≠ 0 ∧ priority ≠ 0
  lists : k'.lists = k.lists
  pool : k'.pool = (k.releaseBlock .message m).pool
  messageQueue : k'.messageQueue = Function.update k.messageQueue mq
    { k.messageQueue mq with numMessages := (k.messageQueue mq).numMessages - 1 }
  pcb : k'.pcb = Function.update k.pcb r
    { k.pcb r with syscallRetvalue := (k.message m).textLength }
  mem : k'.mem = fun a =>
    if priority ≤ a ∧ a < priority + 4 then byteOf i (a - priority).toNat
    else Function.update k.mem buf (k.mem (k.message m).text) a
  rest : k' = { k with
    pool := k'.pool, messageQueue := k'.messageQueue, pcb := k'.pcb, mem := k'.mem }

/-- The class of the message is what the reader finds in `*priority`. -/
theorem delivered_intAt {i buf priority : Int} (hd : Delivered k r mq m i buf priority k')
    (h0 : 0 ≤ i) (hlt : i < 2 ^ 31) : k'.intAt priority = i := by
  refine intAt_of_bytes h0 hlt fun j hj => ?_
  have hin : priority ≤ priority + j ∧ priority + j < priority + 4 := by omega
  have hj' : (priority + j - priority).toNat = j := by omega
  rw [hd.mem]
  simp only [if_pos hin, hj']

theorem exists_delivered (r mq : Nat) {i buf priority : Int} (hbuf : buf ≠ 0)
    (htext : (k.message m).text ≠ 0) (hprio : priority ≠ 0) :
    ∃ k', Delivered k r mq m i buf priority k' :=
  ⟨{ k with
      pool := (k.releaseBlock .message m).pool
      messageQueue := Function.update k.messageQueue mq
        { k.messageQueue mq with numMessages := (k.messageQueue mq).numMessages - 1 }
      pcb := Function.update k.pcb r
        { k.pcb r with syscallRetvalue := (k.message m).textLength }
      mem := fun a =>
        if priority ≤ a ∧ a < priority + 4 then byteOf i (a - priority).toNat
        else Function.update k.mem buf (k.mem (k.message m).text) a },
    ⟨hbuf, htext, hprio⟩, rfl, rfl, rfl, rfl, rfl, rfl⟩

theorem deliver_iff {i buf priority : Int} :
    k.deliver r mq m i buf priority = .ok k' ↔ Delivered k r mq m i buf priority k' := by
  unfold deliver
  simp only [bind_eq_ok, loadChar_eq_ok, storeChar_eq_ok, storeInt_eq_ok, pure, Except.pure,
    Except.ok.injEq]
  constructor
  · rintro ⟨c, ⟨htext, rfl⟩, k₁, ⟨hbuf, rfl⟩, k₂, ⟨hprio, rfl⟩, rfl⟩
    exact ⟨⟨hbuf, htext, hprio⟩, rfl, rfl, rfl, rfl, rfl, rfl⟩
  · rintro ⟨⟨hbuf, htext, hprio⟩, _, hpool, hmq, hpcb, hmem, hrest⟩
    refine ⟨_, ⟨htext, rfl⟩, _, ⟨hbuf, rfl⟩, _, ⟨hprio, rfl⟩, ?_⟩
    rw [hrest, hpool, hmq, hpcb, hmem]
    rfl

/-! ## Closing and removing -/

theorem mqClose_cases (h : internalMqClose k = .ok k') :
    ∃ r, k.running = some r ∧
      ((∃ v, k' = k.setRetvalue r v) ∨
        ∃ d mq v, k.boundTo .mq r (toInt (k.arg r 0)) = .ok (some (d, mq)) ∧
          k' = (k.closeDescriptor .mq r d mq).2.setRetvalue r v) := by
  unfold internalMqClose at h
  obtain ⟨r, hr, h⟩ := bind_eq_ok.mp h
  refine ⟨r, deref_eq_ok.mp hr, ?_⟩
  simp only at h
  split at h
  · exact .inl ⟨_, (Except.ok.inj h).symm⟩
  · obtain ⟨bound, hb, h⟩ := bind_eq_ok.mp h
    cases bound with
    | none => exact .inl ⟨_, (Except.ok.inj h).symm⟩
    | some b =>
      obtain ⟨d, mq⟩ := b
      simp only at h
      refine .inr ⟨d, mq, ?_⟩
      split at h
      · next hc => exact ⟨_, hb, by rw [hc]; exact (Except.ok.inj h).symm⟩
      · next hc => exact ⟨_, hb, by rw [hc]; exact (Except.ok.inj h).symm⟩

theorem mqUnlink_cases (h : internalMqUnlink k = .ok k') :
    ∃ r, k.running = some r ∧
      ((∃ v, k' = k.setRetvalue r v) ∨
        ∃ mq k₁ k₂, k.messageQueueListById .messageQueuesList (toInt (k.arg r 0)) =
            .ok (some ⟨.messageQueue, mq⟩) ∧
          (k.messageQueue mq).numMessages = 0 ∧ (k.head (.users .mq mq)).size = 0 ∧
          removeQueues mq ((k.messageQueue mq).priority + 1).toNat
            (k.detach .messageQueuesList ⟨.messageQueue, mq⟩) = .ok k₁ ∧
          k₁.messageQueueFree mq = .ok k₂ ∧ k' = k₂.setRetvalue r 0) := by
  unfold internalMqUnlink at h
  obtain ⟨r, hr, h⟩ := bind_eq_ok.mp h
  refine ⟨r, deref_eq_ok.mp hr, ?_⟩
  obtain ⟨found, hf, h⟩ := bind_eq_ok.mp h
  cases found with
  | none => exact .inl ⟨_, (Except.ok.inj h).symm⟩
  | some x =>
    obtain ⟨mq, hx, h⟩ := bind_eq_ok.mp h
    rw [castTo_eq_ok.mp hx] at hf
    split at h
    · exact .inl ⟨_, (Except.ok.inj h).symm⟩
    · next hnum =>
      split at h
      · exact .inl ⟨_, (Except.ok.inj h).symm⟩
      · next husers =>
        obtain ⟨k₁, h₁, h⟩ := bind_eq_ok.mp h
        obtain ⟨k₂, h₂, h⟩ := bind_eq_ok.mp h
        exact .inr ⟨mq, k₁, k₂, hf, by simpa using hnum, by simpa using husers, h₁, h₂,
          (Except.ok.inj h).symm⟩

/-! ## Who runs -/

theorem newItem_running {kind : Kind} {i : Nat} (h : k.newItem kind = some (i, k')) :
    k'.running = k.running := by
  unfold Kernel.newItem Kernel.getBlock at h
  split at h
  · cases h
  · next hb =>
    split at hb
    · cases hb
    · cases hb
      cases h
      rfl

theorem detachFirst_running (k : Kernel) (l : HeadAddr) :
    Ensures (k.detachFirst l) fun x => x.2.running = k.running :=
  ensures_bind_any fun _ => ensures_bind_any fun _ => ensures_ok rfl

theorem freeUnused_running (k : Kernel) (l : HeadAddr) (kind : Kind) (i : Nat) :
    Ensures (k.freeUnused l kind i) fun k' => k'.running = k.running :=
  ensures_ite (fun _ => ensures_ok rfl) fun _ => ensures_error _

theorem Wrote.running (h : Wrote k r mq q m k') : k'.running = k.running := by
  obtain ⟨k₁, hnew, rfl⟩ := h.eq
  have hr₁ := newItem_running hnew
  exact hr₁

theorem mqWrite_running (k : Kernel) :
    Ensures (internalMqWrite k) fun k' => k'.running = k.running := by
  intro k' hk'
  obtain ⟨r, _, ⟨v, rfl⟩ | ⟨mq, q, m, hw⟩⟩ := mqWrite_cases hk'
  · rfl
  · exact hw.running

theorem readClasses_running {buf bufSize priority i : Int} {n : Nat} :
    Ensures (readClasses r mq buf bufSize priority i n k) fun k' => k'.running = k.running := by
  induction n generalizing i k with
  | zero => exact ensures_ok rfl
  | succ n ih =>
    refine ensures_bind_any fun found => ?_
    cases found with
    | none => exact ensures_ok rfl
    | some q =>
      refine ensures_ite (fun _ => ?_) fun _ => ih
      refine ensures_bind (detachFirst_running k _) fun x hx => ensures_ite (fun _ => ?_)
        fun _ => ensures_mono ih fun _ h => h.trans hx
      intro k' hk'
      rw [(deliver_iff.mp hk').rest]
      exact hx

theorem mqRead_running (k : Kernel) :
    Ensures (internalMqRead k) fun k' => k'.running = k.running := by
  intro k' hk'
  obtain ⟨r, _, ⟨v, rfl⟩ | ⟨d, mq, _, _, hloop⟩⟩ := mqRead_cases hk'
  · rfl
  · exact readClasses_running k' hloop

theorem removeQueues_running {n : Nat} :
    Ensures (removeQueues mq n k) fun k' => k'.running = k.running := by
  induction n generalizing k with
  | zero => exact ensures_ok rfl
  | succ n ih =>
    refine ensures_bind (detachFirst_running k _) fun x hx => ensures_ite (fun _ => ?_)
      fun _ => ensures_mono ih fun _ h => h.trans hx
    refine ensures_bind (freeUnused_running x.2 _ _ _) fun k₁ h₁ => ?_
    exact ensures_mono ih fun _ h => h.trans (h₁.trans hx)

theorem mqUnlink_running (k : Kernel) :
    Ensures (internalMqUnlink k) fun k' => k'.running = k.running := by
  intro k' hk'
  obtain ⟨r, _, ⟨v, rfl⟩ | ⟨mq, k₁, k₂, _, _, _, h₁, h₂, rfl⟩⟩ := mqUnlink_cases hk'
  · rfl
  · have hr₁ := removeQueues_running k₁ h₁
    exact (freeUnused_running k₁ _ _ _ k₂ h₂).trans hr₁

/-! ## Opening -/

/-- What has been found is opened when it is a message queue or when a block is missing. -/
theorem openFound_ok {x : Node} (h : k.openFound r x = .ok k') :
    k' = k.openDescriptor .mq r x.idx DSOS_EMQOPEN ∧ (x.kind = .messageQueue ∨
      k.newItem .mqDescriptor = none ∨ k.newItem .mqDescriptorPtr = none) := by
  unfold openFound castTo at h
  cases hd : k.newItem .mqDescriptor <;> cases hp : k.newItem .mqDescriptorPtr <;>
    by_cases hx : x.kind = .messageQueue <;> simp_all

/-- `mqOpen` gets past all its tests and has to create the message queue. -/
def Creates (k : Kernel) (r : Nat) : Prop :=
  (k.pcb r).lastMqFd + 1 ≤ MAX_NUM_MQDESCRIPTORS_PER_PROCESS ∧ 0 ≤ toInt (k.arg r 0) ∧
    k.messageQueueListById .messageQueuesList (toInt (k.arg r 0)) = .ok none ∧
    hasFlag (toInt (k.arg r 1)) DSOS_CREATE = true ∧
    (k.head .messageQueuesList).size + 1 ≤ MAX_NUM_MQS ∧
    0 ≤ toInt (k.arg r 2) ∧ toInt (k.arg r 2) ≤ MAX_NUM_QUEUES

instance : Decidable (Creates k r) := inferInstanceAs (Decidable (_ ∧ _))

theorem mqOpen_cases (h : internalMqOpen k = .ok k') :
    ∃ r, k.running = some r ∧
      (k' = k.setRetvalue r DSOS_EMQOPEN ∨
        (∃ x, k.messageQueueListById .messageQueuesList (toInt (k.arg r 0)) = .ok (some x) ∧
          (k.pcb r).lastMqFd + 1 ≤ MAX_NUM_MQDESCRIPTORS_PER_PROCESS ∧
          k.openFound r x = .ok k') ∨
        (Creates k r ∧ ∃ mq k₁ b k₂,
          k.messageQueueAlloc (toInt (k.arg r 0)) (toInt (k.arg r 2)) = some (mq, k₁) ∧
          addQueues mq 0 (toInt (k.arg r 2) + 1).toNat k₁ = (b, k₂) ∧
          k' = if b then (k₂.append .messageQueuesList ⟨.messageQueue, mq⟩).openDescriptor .mq r mq
            DSOS_EMQOPEN else k₂.setRetvalue r DSOS_EMQOPEN)) := by
  unfold internalMqOpen at h
  obtain ⟨r, hr, h⟩ := bind_eq_ok.mp h
  refine ⟨r, deref_eq_ok.mp hr, ?_⟩
  simp only at h
  split at h
  · exact .inl (Except.ok.inj h).symm
  · next hfd =>
    split at h
    · exact .inl (Except.ok.inj h).symm
    · next hid =>
      obtain ⟨found, hf, h⟩ := bind_eq_ok.mp h
      cases found with
      | some x =>
        simp only at h
        split at h
        · exact .inl (Except.ok.inj h).symm
        · exact .inr (.inl ⟨x, hf, by omega, h⟩)
      | none =>
        simp only at h
        split at h
        · next hcreate =>
          split at h
          · exact .inl (Except.ok.inj h).symm
          · next hsize =>
            split at h
            · exact .inl (Except.ok.inj h).symm
            · next hprio =>
              cases halloc : k.messageQueueAlloc (toInt (k.arg r 0)) (toInt (k.arg r 2)) with
              | none =>
                rw [halloc] at h
                exact .inl (Except.ok.inj h).symm
              | some new =>
                obtain ⟨mq, k₁⟩ := new
                rw [halloc] at h
                simp only at h
                refine .inr (.inr ⟨⟨by omega, by omega, hf, hcreate, by omega, by omega,
                  by omega⟩, mq, k₁, ?_⟩)
                split at h
                · next hadd => exact ⟨_, _, rfl, hadd, (Except.ok.inj h).symm⟩
                · next hadd => exact ⟨_, _, rfl, hadd, (Except.ok.inj h).symm⟩
        · exact .inl (Except.ok.inj h).symm

end DisastrOS.MessageQueue.Calls
