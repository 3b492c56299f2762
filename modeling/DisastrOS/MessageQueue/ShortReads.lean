import DisastrOS.MessageQueue.RoundTrip

/-!
# Reading with a short buffer

The loop of `mqRead` detaches a message before it compares its length with the buffer.
A read whose buffer is too short for the first message that it meets therefore loses
that message. Every other read delivers a message or changes nothing.
-/
namespace DisastrOS.MessageQueue.ShortReads

open DisastrOS.Machine
open DisastrOS.Machine.Kernel
open DisastrOS.Machine.Runs
open DisastrOS.Lists.Sequences
open DisastrOS.Lists.Wiring
open DisastrOS.Library.GuardedRun
open DisastrOS.Library.Outcome
open DisastrOS.MessageQueue.Calls
open DisastrOS.MessageQueue.Classes
open DisastrOS.MessageQueue.DeliveryOrder
open DisastrOS.MessageQueue.ReadLoop
open DisastrOS.MessageQueue.Representation
open DisastrOS.MessageQueue.RoundTrip
open DisastrOS.MessageQueue.TableInvariant

/-- The message queue, its messages, the message pool and user memory are as before. -/
structure QueueKept (k : Kernel) (L : HeadAddr → List Node) (mq : Nat) (k' : Kernel) :
    Prop where
  messageQueue : k'.messageQueue mq = k.messageQueue mq
  queues : Holds k'.lists (.queues mq) (L (.queues mq))
  priorities : ∀ q, k'.queue q = k.queue q
  messages : ∀ q, ⟨.queue, q⟩ ∈ L (.queues mq) → Holds k'.lists (.messages q) (L (.messages q))
  contents : k'.message = k.message
  pool : k'.pool .message = k.pool .message
  memory : k'.mem = k.mem

/-- What a call of `mqRead` by `r` with the arguments `args` owes: a message that is too
long for the buffer is refused, and a read that delivers nothing changes nothing. -/
structure ReadHarmless (k : Kernel) (L : HeadAddr → List Node) (r : Nat) (args : List Int) :
    Prop where
  refused : ∀ d mq q m rest,
    (k.setCall r DSOS_CALL_MQREAD args).boundTo .mq r (toInt (args.getD 0 0)) =
      .ok (some (d, mq)) →
    FirstMessage k L mq 0 q m rest → (k.queue q).priority < (k.messageQueue mq).priority →
    toInt (args.getD 2 0) < (k.message m).textLength →
    ∃ k', k.act (.syscall DSOS_CALL_MQREAD args) = .ok k' ∧
      (k'.pcb r).syscallRetvalue < 0 ∧ QueueKept k L mq k'
  kept : ∀ k' mq, k.act (.syscall DSOS_CALL_MQREAD args) = .ok k' →
    (¬ ∃ m c, Delivers k r m c args k') → ClassTable k L mq → QueueKept k L mq k'

/-- The read does not get as far as its loop, or the first message that the loop meets
fits the buffer. -/
def fitsOrFails (k : Kernel) (args : List Int) : Bool :=
  fdOutOfBounds (toInt (args.getD 0 0)) MAX_NUM_MQDESCRIPTORS_PER_PROCESS ||
    readFits k (.syscall DSOS_CALL_MQREAD args)

variable {k k' : Kernel} {L : HeadAddr → List Node} {r mq q m n : Nat} {args : List Int}
  {buf bufSize priority i : Int} {rest : List Node}

theorem queueKept_setRetvalue {num v : Int} (h : ClassTable k L mq) :
    QueueKept k L mq ((k.setCall r num args).setRetvalue r v) := by
  have hmessages : ∀ q, Holds k.lists (.messages q) (L (.messages q)) :=
    fun q => holds (l := .messages q) h.wired message_part
  exact ⟨rfl, h.queues, fun _ => rfl, fun q _ => hmessages q, rfl, rfl, rfl⟩

/-! ## The loop -/

/-- From class `i` on, the loop leaves the queues of the classes below alone. -/
theorem readClasses_below (hr : readClasses r mq buf bufSize priority i n k = .ok k')
    (hq : (k.queue q).priority < i) : k'.head (.messages q) = k.head (.messages q) := by
  induction n generalizing i k with
  | zero =>
    cases hr
    rfl
  | succ n ih =>
    rw [readClasses] at hr
    obtain ⟨found, hfind, hr⟩ := bind_eq_ok.mp hr
    cases found with
    | none =>
      cases hr
      rfl
    | some q' =>
      have hprio : (k.queue q').priority = i := by
        have hp := search_found hfind
        simpa using hp
      have hne : (.messages q : HeadAddr) ≠ .messages q' := by
        rintro he
        cases he
        omega
      simp only at hr
      split at hr
      · obtain ⟨⟨m, k₁⟩, hdet, hr⟩ := bind_eq_ok.mp hr
        obtain ⟨x, _, hdet⟩ := bind_eq_ok.mp hdet
        obtain ⟨j, _, hdet⟩ := bind_eq_ok.mp hdet
        cases hdet
        have hhead : (k.detach (.messages q') x).head (.messages q) = k.head (.messages q) :=
          detach_head _ _ hne
        simp only at hr
        split at hr
        · obtain ⟨_, hlists, _⟩ := deliver_iff.mp hr
          show k'.lists.head (.messages q) = _
          rw [hlists]
          exact hhead
        · have hq' : ((k.detach (.messages q') x).queue q).priority < i + 1 := by
            show (k.queue q).priority < i + 1
            omega
          rw [ih hr hq', hhead]
      · exact ih hr (by omega)

/-- If the first message that the loop meets does not fit, there is such a message. -/
theorem firstMessage_of_misfit (h : ClassTable k L mq) (hi : 0 ≤ i)
    (hn : i + n ≤ (k.messageQueue mq).priority + 1)
    (hshort : firstFits k mq bufSize i n = false) :
    ∃ q m rest, FirstMessage k L mq i q m rest ∧ (k.queue q).priority < i + n ∧
      bufSize < (k.message m).textLength := by
  induction n generalizing i with
  | zero => cases hshort
  | succ n ih =>
    push_cast at hn
    obtain ⟨q, hq, hprio, hfind⟩ := class_queue h hi (by omega)
    rw [firstFits, hfind] at hshort
    have hfirst := first_eq (l := .messages q) h.wired message_part
    cases hL : L (.messages q) with
    | nil =>
      rw [hL] at hfirst
      simp only [hfirst, List.head?_nil] at hshort
      obtain ⟨q₁, m, rest, hf, hhigh, hlen⟩ := ih (by omega) (by omega) hshort
      have hlow := hf.low
      refine ⟨q₁, m, rest, ⟨hf.queue, hf.first, by omega, fun q' hq' hlow' hlt => ?_⟩, ?_, hlen⟩
      · by_cases he : (k.queue q').priority = i
        · rw [queue_unique h hq hq' (he.trans hprio.symm), hL]
        · exact hf.smallest q' hq' (by omega) hlt
      · push_cast
        omega
    | cons x rest =>
      have hx : x ∈ L (.messages q) := by
        rw [hL]
        exact List.mem_cons_self
      have hnode : x = ⟨.message, x.idx⟩ := node_eq (l := .messages q) h.wired message_part hx
      rw [hL] at hfirst
      simp only [hfirst, List.head?_cons] at hshort
      rw [hnode] at hL
      refine ⟨q, x.idx, rest, ⟨hq, hL, by omega, fun q' _ hlow hlt => ?_⟩, ?_, ?_⟩
      · omega
      · push_cast
        omega
      · simpa using hshort

/-- A first message that does not fit is gone when the loop ends. -/
theorem readClasses_loses (h : ClassTable k L mq) (hi : 0 ≤ i)
    (hf : FirstMessage k L mq i q m rest) (hhigh : (k.queue q).priority < i + n)
    (hshort : bufSize < (k.message m).textLength)
    (hr : readClasses r mq buf bufSize priority i n k = .ok k') :
    (k'.head (.messages q)).size = rest.length := by
  induction n generalizing i with
  | zero =>
    have hlow := hf.low
    push_cast at hhigh
    omega
  | succ n ih =>
    have hle := (class_of_queue h hf.queue).2
    have hlow := hf.low
    obtain ⟨q', hq', hp', hfind⟩ := class_queue h hi (by omega)
    rw [readClasses, hfind] at hr
    by_cases he : (k.queue q).priority = i
    · have hqq : q' = q := queue_unique h hf.queue hq' (hp'.trans he.symm)
      subst hqq
      have hm : ⟨.message, m⟩ ∈ L (.messages q') := by
        rw [hf.first]
        exact List.mem_cons_self
      have hne : (k.head (.messages q')).size ≠ 0 := by
        rw [Ne, size_zero_iff (l := .messages q') h.wired message_part, hf.first]
        exact List.cons_ne_nil _ _
      have hdet : k.detachFirst (.messages q') =
          .ok (m, k.detach (.messages q') ⟨.message, m⟩) :=
        detachFirst_cons (l := .messages q') h.wired message_part hf.first
      have hw := wired_detach (l := .messages q') (x := ⟨.message, m⟩) h.wired message_part hm
      rw [hf.first, List.erase_cons_head] at hw
      have hsize := size_eq (l := .messages q') hw message_part
      rw [Function.update_self] at hsize
      have hlong : ¬ bufSize ≥
          ((k.detach (.messages q') ⟨.message, m⟩).message m).textLength := by
        show ¬ bufSize ≥ (k.message m).textLength
        omega
      simp only [bind, Except.bind, if_pos hne, hdet] at hr
      rw [if_neg hlong] at hr
      have hbelow : ((k.detach (.messages q') ⟨.message, m⟩).queue q').priority < i + 1 := by
        show (k.queue q').priority < i + 1
        omega
      rw [readClasses_below hr hbelow, hsize]
    · have hnil : L (.messages q') = [] := hf.smallest q' hq' (by omega) (by omega)
      have hsize : (k.head (.messages q')).size = 0 :=
        (size_zero_iff (l := .messages q') h.wired message_part).mpr hnil
      simp only [bind, Except.bind, hsize, ne_eq, not_true_eq_false, if_false] at hr
      refine ih (by omega) ⟨hf.queue, hf.first, by omega, fun x hx hxlow => ?_⟩ ?_ hr
      · exact hf.smallest x hx (by omega)
      · push_cast at hhigh
        omega

/-- A first message that does not fit is what the test looks for. -/
theorem misfit_of_firstMessage (h : ClassTable k L mq) (hi : 0 ≤ i)
    (hf : FirstMessage k L mq i q m rest) (hhigh : (k.queue q).priority < i + n)
    (hshort : bufSize < (k.message m).textLength) : firstFits k mq bufSize i n = false := by
  induction n generalizing i with
  | zero =>
    have hlow := hf.low
    push_cast at hhigh
    omega
  | succ n ih =>
    have hle := (class_of_queue h hf.queue).2
    have hlow := hf.low
    obtain ⟨q', hq', hp', hfind⟩ := class_queue h hi (by omega)
    have hfirst := first_eq (l := .messages q') h.wired message_part
    rw [firstFits, hfind]
    by_cases he : (k.queue q).priority = i
    · have hqq : q' = q := queue_unique h hf.queue hq' (hp'.trans he.symm)
      subst hqq
      rw [hf.first] at hfirst
      simp only [hfirst, List.head?_cons]
      exact decide_eq_false (by omega)
    · have hnil : L (.messages q') = [] := hf.smallest q' hq' (by omega) (by omega)
      rw [hnil] at hfirst
      simp only [hfirst, List.head?_nil]
      refine ih (by omega) ⟨hf.queue, hf.first, by omega, fun x hx hxlow => ?_⟩ ?_
      · exact hf.smallest x hx (by omega)
      · push_cast at hhigh
        omega

/-! ## The call -/

theorem mqRead_badFd (hr : k.running = some r)
    (hfd : fdOutOfBounds (toInt (args.getD 0 0)) MAX_NUM_MQDESCRIPTORS_PER_PROCESS = true) :
    k.act (.syscall DSOS_CALL_MQREAD args) =
      .ok ((k.setCall r DSOS_CALL_MQREAD args).setRetvalue r DSOS_EMQREAD) := by
  have harg : (k.setCall r DSOS_CALL_MQREAD args).arg r 0 = args.getD 0 0 :=
    arg_setCall (by decide)
  have hr' : (k.setCall r DSOS_CALL_MQREAD args).running = some r := hr
  show k.disastrOSSyscall DSOS_CALL_MQREAD args = _
  rw [syscall_stays args rfl (by decide) (by decide) hr
    (ensures_mono (mqRead_running _) fun _ h => h.trans hr)]
  unfold internalMqRead
  simp only [hr', deref, bind, Except.bind, harg, hfd, if_true, pure, Except.pure]

/-- A call with a valid descriptor on `mq` reports 0 or runs the loop. -/
theorem mqRead_open {d : Nat} (hr : k.running = some r)
    (hfd : fdOutOfBounds (toInt (args.getD 0 0)) MAX_NUM_MQDESCRIPTORS_PER_PROCESS = false)
    (hb : (k.setCall r DSOS_CALL_MQREAD args).boundTo .mq r (toInt (args.getD 0 0)) =
      .ok (some (d, mq))) :
    k.act (.syscall DSOS_CALL_MQREAD args) =
      if (k.messageQueue mq).numMessages = 0 then
        .ok ((k.setCall r DSOS_CALL_MQREAD args).setRetvalue r 0)
      else
        readClasses r mq (args.getD 1 0) (toInt (args.getD 2 0)) (args.getD 3 0) 0
          (k.messageQueue mq).priority.toNat (k.setCall r DSOS_CALL_MQREAD args) := by
  have harg : ∀ j < 4, (k.setCall r DSOS_CALL_MQREAD args).arg r j = args.getD j 0 :=
    fun j hj => arg_setCall hj
  have hr' : (k.setCall r DSOS_CALL_MQREAD args).running = some r := hr
  show k.disastrOSSyscall DSOS_CALL_MQREAD args = _
  rw [syscall_stays args rfl (by decide) (by decide) hr
    (ensures_mono (mqRead_running _) fun _ h => h.trans hr)]
  unfold internalMqRead
  simp only [hr', deref, bind, Except.bind, harg 0 (by decide), harg 1 (by decide),
    harg 2 (by decide), harg 3 (by decide), hfd, Bool.false_eq_true, if_false, hb, pure,
    Except.pure]
  rfl

theorem firstMessage_setCall {num : Int} (hf : FirstMessage k L mq i q m rest) :
    FirstMessage (k.setCall r num args) L mq i q m rest :=
  ⟨hf.queue, hf.first, hf.low, hf.smallest⟩

/-- A call that meets a message too long for its buffer is not harmless. -/
theorem misfit_not_harmless {d : Nat} (hr : k.running = some r) (h : ClassTable k L mq)
    (hfd : fdOutOfBounds (toInt (args.getD 0 0)) MAX_NUM_MQDESCRIPTORS_PER_PROCESS = false)
    (hb : (k.setCall r DSOS_CALL_MQREAD args).boundTo .mq r (toInt (args.getD 0 0)) =
      .ok (some (d, mq)))
    (hf : FirstMessage k L mq 0 q m rest)
    (hhigh : (k.queue q).priority < (k.messageQueue mq).priority)
    (hshort : toInt (args.getD 2 0) < (k.message m).textLength) :
    ¬ ReadHarmless k L r args := by
  intro hharmless
  obtain ⟨k', hact, hneg, hkept⟩ := hharmless.refused d mq q m rest hb hf hhigh hshort
  rw [mqRead_open hr hfd hb] at hact
  split at hact
  · cases hact
    rw [setRetvalue_self] at hneg
    omega
  · have hcast := Int.toNat_of_nonneg h.priority.1
    have hlost := readClasses_loses (classTable_setCall r DSOS_CALL_MQREAD args h) (Int.le_refl 0)
      (firstMessage_setCall hf) (by show (k.queue q).priority < _; omega) hshort hact
    have hsize : (k'.head (.messages q)).size = ((L (.messages q)).length : Int) :=
      (hkept.messages q hf.queue).size
    rw [hf.first, List.length_cons] at hsize
    push_cast at hsize
    omega

theorem fits_of_harmless (hr : k.running = some r)
    (htable : ∀ d mq, (k.setCall r DSOS_CALL_MQREAD args).boundTo .mq r
      (toInt (args.getD 0 0)) = .ok (some (d, mq)) → ClassTable k L mq)
    (hharmless : ReadHarmless k L r args) : fitsOrFails k args = true := by
  by_contra hno
  rw [Bool.not_eq_true, fitsOrFails, Bool.or_eq_false_iff] at hno
  obtain ⟨hfd, hmisfit⟩ := hno
  simp only [readFits, if_true, hr] at hmisfit
  split at hmisfit
  · next d mq hb =>
    have h := htable d mq hb
    have hcast := Int.toNat_of_nonneg h.priority.1
    obtain ⟨q, m, rest, hf, hhigh, hshort⟩ := firstMessage_of_misfit
      (classTable_setCall r DSOS_CALL_MQREAD args h) (Int.le_refl 0)
      (by
        show 0 + (((k.messageQueue mq).priority.toNat : Nat) : Int) ≤
          (k.messageQueue mq).priority + 1
        omega) hmisfit
    have hhigh' : (k.queue q).priority < (k.messageQueue mq).priority := by
      have hlt : (k.queue q).priority < 0 + (((k.messageQueue mq).priority.toNat : Nat) : Int) :=
        hhigh
      omega
    exact misfit_not_harmless hr h hfd hb ⟨hf.queue, hf.first, hf.low, hf.smallest⟩ hhigh'
      hshort hharmless
  · cases hmisfit

theorem harmless_of_fits (hr : k.running = some r)
    (htable : ∀ d mq, (k.setCall r DSOS_CALL_MQREAD args).boundTo .mq r
      (toInt (args.getD 0 0)) = .ok (some (d, mq)) → ClassTable k L mq)
    (hfits : fitsOrFails k args = true) : ReadHarmless k L r args := by
  rw [fitsOrFails, Bool.or_eq_true] at hfits
  refine ⟨fun d mq q m rest hb hf hhigh hshort => ?_, fun k' mq hact hno h => ?_⟩
  · have h := htable d mq hb
    rcases hfits with hfd | hfits
    · refine ⟨_, mqRead_badFd hr hfd, ?_, queueKept_setRetvalue h⟩
      rw [setRetvalue_self]
      decide
    · have hcast := Int.toNat_of_nonneg h.priority.1
      have hmisfit := misfit_of_firstMessage (n := (k.messageQueue mq).priority.toNat)
        (classTable_setCall r DSOS_CALL_MQREAD args h) (Int.le_refl 0)
        (firstMessage_setCall hf) (by show (k.queue q).priority < _; omega) hshort
      simp only [readFits, if_true, hr, hb, hmisfit] at hfits
      cases hfits
  · rcases hfits with hfd | hfits
    · rw [mqRead_badFd hr hfd] at hact
      cases hact
      exact queueKept_setRetvalue h
    · have hall : ∀ r' d mq, k.running = some r' →
          (k.setCall r' DSOS_CALL_MQREAD args).boundTo .mq r' (toInt (args.getD 0 0)) =
            .ok (some (d, mq)) → ClassTable k L mq := by
        intro r' d mq hr' hb
        cases hr.symm.trans hr'
        exact htable d mq hb
      obtain ⟨r', k₁, hr', rfl, ⟨v, rfl⟩ | ⟨_, mq', q, m, _, _, _, _, hlen, hd⟩⟩ :=
        mqRead_fits hall hfits hact
      · exact queueKept_setRetvalue h
      · cases hr.symm.trans hr'
        have hlists : SameButLists (k.setCall r DSOS_CALL_MQREAD args)
            ((k.setCall r DSOS_CALL_MQREAD args).detach (.messages q) ⟨.message, m⟩) := rfl
        exact absurd ⟨m, _, hr, hact, hlen, _, mq', hlists, deliver_iff.mpr hd⟩ hno

/-- A read is harmless exactly when it does not get as far as its loop or the first message
that the loop meets fits the buffer. -/
theorem short_read_changes_nothing (hr : k.running = some r)
    (htable : ∀ d mq, (k.setCall r DSOS_CALL_MQREAD args).boundTo .mq r
      (toInt (args.getD 0 0)) = .ok (some (d, mq)) → ClassTable k L mq) :
    ReadHarmless k L r args ↔ fitsOrFails k args = true :=
  ⟨fits_of_harmless hr htable, harmless_of_fits hr htable⟩

/-! ## One message of five bytes -/

theorem exists_written :
    ∃ k₀ k L, Started (fun _ => 0) k₀ ∧
      Run act (fun k a => MqCall a ∧ ¬ CreatesBehindAnother k a) k₀
        [.syscall DSOS_CALL_MQOPEN [1, 1, 2], .syscall DSOS_CALL_MQWRITE [0, 1000, 5, 0]] k ∧
      Tables k L ∧ k.running = some 0 ∧ fitsOrFails k [0, 2000, 3, 3000] = false ∧
      fitsOrFails k [0, 2000, 32, 3000] = true := by
  obtain ⟨k₀, k, hstart, hrun, htest⟩ := exists_run_from_start _ alone
    [.syscall DSOS_CALL_MQOPEN [1, 1, 2], .syscall DSOS_CALL_MQWRITE [0, 1000, 5, 0]]
    (fun k => decide (k.running = some 0 ∧ fitsOrFails k [0, 2000, 3, 3000] = false ∧
      fitsOrFails k [0, 2000, 32, 3000] = true)) alone_safe (by decide +kernel)
  obtain ⟨L, ht⟩ := tables_run hstart hrun
  exact ⟨k₀, k, L, hstart, hrun, ht, of_decide_eq_true htest⟩

theorem opened_classTable {d : Nat} (h : Tables k L)
    (hb : (k.setCall r DSOS_CALL_MQREAD args).boundTo .mq r (toInt (args.getD 0 0)) =
      .ok (some (d, mq))) : ClassTable k L mq :=
  classTable h (boundTo_listed (tables_setCall h) hb)

theorem short_read_changes_nothing_long_buffer :
    ∃ k₀ k L, Started (fun _ => 0) k₀ ∧
      Run act (fun k a => MqCall a ∧ ¬ CreatesBehindAnother k a) k₀
        [.syscall DSOS_CALL_MQOPEN [1, 1, 2], .syscall DSOS_CALL_MQWRITE [0, 1000, 5, 0]] k ∧
      ReadHarmless k L 0 [0, 2000, 32, 3000] := by
  obtain ⟨k₀, k, L, hstart, hrun, ht, hr, _, hlong⟩ := exists_written
  exact ⟨k₀, k, L, hstart, hrun, (short_read_changes_nothing hr fun _ _ hb =>
    opened_classTable ht hb).mpr hlong⟩

/-- A read with a buffer of three bytes loses the message of five bytes. -/
theorem short_read_drops_message :
    ∃ k₀ k L, Started (fun _ => 0) k₀ ∧
      Run act (fun k a => MqCall a ∧ ¬ CreatesBehindAnother k a) k₀
        [.syscall DSOS_CALL_MQOPEN [1, 1, 2], .syscall DSOS_CALL_MQWRITE [0, 1000, 5, 0]] k ∧
      Tables k L ∧ ¬ ReadHarmless k L 0 [0, 2000, 3, 3000] := by
  obtain ⟨k₀, k, L, hstart, hrun, ht, hr, hshort, _⟩ := exists_written
  refine ⟨k₀, k, L, hstart, hrun, ht, fun hharmless => ?_⟩
  have hfits := fits_of_harmless hr (fun _ _ hb => opened_classTable ht hb) hharmless
  rw [hshort] at hfits
  cases hfits

end DisastrOS.MessageQueue.ShortReads
