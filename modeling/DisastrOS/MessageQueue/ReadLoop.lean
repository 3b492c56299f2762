import DisastrOS.MessageQueue.TableInvariant

/-!
# The read loop when the first message fits

As long as the first message that the loop meets fits the buffer, the loop delivers
that message, the first one of the smallest class that has any.
-/
namespace DisastrOS.MessageQueue.ReadLoop

open DisastrOS.Machine
open DisastrOS.Machine.Kernel
open DisastrOS.Lists.Wiring
open DisastrOS.Pool.Blocks
open DisastrOS.Library.Outcome
open DisastrOS.MessageQueue.Calls
open DisastrOS.MessageQueue.Classes
open DisastrOS.MessageQueue.TableInvariant

/-- The first message in the classes `i, i+1, …, i+n-1` of `mq` fits the buffer. -/
def firstFits (k : Kernel) (mq : Nat) (bufSize : Int) : Int → Nat → Bool
  | _, 0 => true
  | i, n + 1 =>
    match k.queueListByPriority (.queues mq) i with
    | .ok (some q) =>
      match (k.head (.messages q)).first with
      | some x => (k.message x.idx).textLength ≤ bufSize
      | none => firstFits k mq bufSize (i + 1) n
    | _ => true

variable {k k' : Kernel} {L : HeadAddr → List Node} {r mq q m : Nat}
  {buf bufSize priority i : Int} {n : Nat}

/-- The message `m` is the first one of the smallest class from `i` on that has any. -/
structure FirstMessage (k : Kernel) (L : HeadAddr → List Node) (mq : Nat) (i : Int) (q m : Nat)
    (rest : List Node) : Prop where
  queue : ⟨.queue, q⟩ ∈ L (.queues mq)
  first : L (.messages q) = ⟨.message, m⟩ :: rest
  low : i ≤ (k.queue q).priority
  smallest : ∀ q', ⟨.queue, q'⟩ ∈ L (.queues mq) → i ≤ (k.queue q').priority →
    (k.queue q').priority < (k.queue q).priority → L (.messages q') = []

/-- What the loop does if the first message it meets fits. -/
theorem readClasses_cases (h : ClassTable k L mq) (hi : 0 ≤ i)
    (hn : i + n ≤ (k.messageQueue mq).priority + 1)
    (hfits : firstFits k mq bufSize i n = true)
    (hr : readClasses r mq buf bufSize priority i n k = .ok k') :
    ((∀ q, ⟨.queue, q⟩ ∈ L (.queues mq) → i ≤ (k.queue q).priority →
        (k.queue q).priority < i + n → L (.messages q) = []) ∧ k' = k.setRetvalue r 0) ∨
      ∃ q m rest, FirstMessage k L mq i q m rest ∧ (k.queue q).priority < i + n ∧
        (k.message m).textLength ≤ bufSize ∧
        Delivered (k.detach (.messages q) ⟨.message, m⟩) r mq m (k.queue q).priority buf
          priority k' := by
  induction n generalizing i with
  | zero =>
    refine .inl ⟨fun q _ hlow hhigh => ?_, (Except.ok.inj hr).symm⟩
    push_cast at hhigh
    omega
  | succ n ih =>
    obtain ⟨q, hq, hprio, hfind⟩ := class_queue h hi (by push_cast at hn; omega)
    rw [firstFits, hfind] at hfits
    rw [readClasses, hfind] at hr
    have hfirst := first_eq (l := .messages q) h.wired message_part
    have hsize := size_zero_iff (l := .messages q) h.wired message_part
    cases hL : L (.messages q) with
    | nil =>
      rw [hL] at hfirst
      simp only [hfirst, List.head?_nil] at hfits
      simp only [bind, Except.bind, hsize.mpr hL, ne_eq, not_true_eq_false, if_false] at hr
      -- the class is empty, the loop goes on with the next one
      have hcls : ∀ q', ⟨.queue, q'⟩ ∈ L (.queues mq) → i ≤ (k.queue q').priority →
          L (.messages q') = [] ∨ i + 1 ≤ (k.queue q').priority := by
        intro q' hq' hlow
        by_cases he : (k.queue q').priority = i
        · exact .inl (by rw [queue_unique h hq hq' (he.trans hprio.symm), hL])
        · exact .inr (by omega)
      push_cast at hn
      rcases ih (by omega) (by omega) hfits hr with ⟨hempty, hk⟩ | ⟨q₁, m, rest, hf, hhigh, hlen, hd⟩
      · refine .inl ⟨fun q' hq' hlow hhigh => ?_, hk⟩
        rcases hcls q' hq' hlow with hnil | hnext
        · exact hnil
        · exact hempty q' hq' hnext (by push_cast at hhigh; omega)
      · refine .inr ⟨q₁, m, rest, ⟨hf.queue, hf.first, by have := hf.low; omega, ?_⟩, ?_, hlen, hd⟩
        · intro q' hq' hlow hlt
          rcases hcls q' hq' hlow with hnil | hnext
          · exact hnil
          · exact hf.smallest q' hq' hnext hlt
        · push_cast
          omega
    | cons x rest =>
      have hx : x ∈ L (.messages q) := by
        rw [hL]
        exact List.mem_cons_self
      have hnode : x = ⟨.message, x.idx⟩ := node_eq (l := .messages q) h.wired message_part hx
      rw [hL] at hfirst
      simp only [hfirst, List.head?_cons] at hfits
      have hlen : (k.message x.idx).textLength ≤ bufSize := of_decide_eq_true hfits
      have hne : (k.head (.messages q)).size ≠ 0 := by
        intro he
        rw [hsize.mp he] at hL
        cases hL
      rw [hnode] at hL
      have hdet : k.detachFirst (.messages q) =
          .ok (x.idx, k.detach (.messages q) ⟨.message, x.idx⟩) :=
        detachFirst_cons (l := .messages q) h.wired message_part hL
      simp only [bind, Except.bind, if_pos hne, hdet] at hr
      have hlen' : bufSize ≥
          ((k.detach (.messages q) ⟨.message, x.idx⟩).message x.idx).textLength := hlen
      rw [if_pos hlen', deliver_iff, ← hprio] at hr
      refine .inr ⟨q, x.idx, rest, ⟨hq, hL, by omega, fun q' _ hlow hlt => ?_⟩, ?_, hlen, hr⟩
      · omega
      · push_cast
        omega

/-- What a delivery does to the queues of the message queue. -/
theorem delivered_classTable {c : Int} {rest : List Node} (h : ClassTable k L mq)
    (hf : FirstMessage k L mq i q m rest)
    (hd : Delivered (k.detach (.messages q) ⟨.message, m⟩) r mq m c buf priority k') :
    (k'.pool .message).firstIdx = m ∧ Confined MqParts k k' ∧
      ClassTable k' (Function.update L (.messages q) rest) mq := by
  have hm : ⟨.message, m⟩ ∈ L (.messages q) := by
    rw [hf.first]
    exact List.mem_cons_self
  have hw := wired_detach (l := .messages q) (x := ⟨.message, m⟩) h.wired message_part hm
  have ha : Allocated k .message m := allocated_of_mem (l := .messages q) h.wired message_part hm
  have hrel := releaseBlock_returned (k := k.detach (.messages q) ⟨.message, m⟩)
    .message _ h.wired.pooled ha
  have hw' := wired_releaseBlock .message m hw ha fun _ hl =>
    h.wired.threaded.not_mem_erased message_part hm hl
  rw [hf.first, List.erase_cons_head] at hw'
  have hconf : Confined MqParts k k' :=
    confined_trans (confined_detach (l := .messages q) h.wired message_part hm)
      (confined_of_lists hd.lists)
  refine ⟨by rw [hd.pool]; exact hrel.first, hconf, classTable_update h
    (wired_congr hw' hd.lists hd.pool) (holds_confined (l := .queues mq) hconf queue_no_part (queues_apart h) h.queues)
    ?_ (by rw [hd.rest]; rfl) fun j x hj hx => ?_⟩
  · rw [hd.messageQueue, Function.update_self]
    rfl
  · have hmsg : k'.message = k.message := by
      rw [hd.rest]
      rfl
    unfold TextOk
    rw [hmsg]
    refine h.texts j x hj ?_
    by_cases he : j = q
    · subst he
      rw [Function.update_self] at hx
      rw [hf.first]
      exact List.mem_cons_of_mem _ hx
    · rwa [Function.update_of_ne (by simpa using he)] at hx

/-- Every buffer of the maximal length fits. -/
theorem firstFits_of_long (h : ClassTable k L mq) (hlen : MAX_MESSAGE_LENGTH ≤ bufSize)
    (i : Int) (n : Nat) : firstFits k mq bufSize i n = true := by
  induction n generalizing i with
  | zero => rfl
  | succ n ih =>
    unfold firstFits
    split
    · next q hfind =>
      have hq := (queueListByPriority_some h hfind).1
      have hfirst := first_eq (l := .messages q) h.wired message_part
      split
      · next x hx =>
        have hmem : x ∈ L (.messages q) := List.mem_of_head? (hfirst.symm.trans hx)
        have htext := (h.texts q x hq hmem).2.1
        exact decide_eq_true (by omega)
      · exact ih (i + 1)
    · rfl

/-- Taking the first message, as a change of the tables. -/
theorem tables_delivered {rest : List Node} (h : Tables k L) (hl : Listed L mq)
    (hf : FirstMessage k L mq i q m rest)
    (hd : Delivered (k.detach (.messages q) ⟨.message, m⟩) r mq m (k.queue q).priority buf
      priority k') : Tables k' (Function.update L (.messages q) rest) :=
  tables_take h hl hf.queue hf.first hd.lists hd.pool hd.messageQueue
    (by rw [hd.rest]; rfl) (by rw [hd.rest]; rfl) (by rw [hd.rest]; rfl) (by rw [hd.rest]; rfl)

/-- The loop delivers the first message that it meets. -/
theorem readClasses_delivers {rest : List Node} (h : ClassTable k L mq) (hi : 0 ≤ i)
    (hf : FirstMessage k L mq i q m rest) (hhigh : (k.queue q).priority < i + n)
    (hlen : (k.message m).textLength ≤ bufSize) (hbuf : buf ≠ 0) (hprio : priority ≠ 0) :
    ∃ k', readClasses r mq buf bufSize priority i n k = .ok k' ∧
      Delivered (k.detach (.messages q) ⟨.message, m⟩) r mq m (k.queue q).priority buf
        priority k' := by
  induction n generalizing i with
  | zero =>
    have := hf.low
    push_cast at hhigh
    omega
  | succ n ih =>
    have hle := (class_of_queue h hf.queue).2
    have hlow := hf.low
    obtain ⟨q', hq', hp', hfind⟩ := class_queue h hi (by omega)
    rw [readClasses, hfind]
    by_cases he : (k.queue q).priority = i
    · have hqq : q' = q := queue_unique h hf.queue hq' (hp'.trans he.symm)
      subst hqq
      have hne : (k.head (.messages q')).size ≠ 0 := by
        rw [Ne, size_zero_iff (l := .messages q') h.wired message_part, hf.first]
        exact List.cons_ne_nil _ _
      have hdet : k.detachFirst (.messages q') =
          .ok (m, k.detach (.messages q') ⟨.message, m⟩) :=
        detachFirst_cons (l := .messages q') h.wired message_part hf.first
      have htext : ((k.detach (.messages q') ⟨.message, m⟩).message m).text ≠ 0 :=
        (h.texts q' ⟨.message, m⟩ hf.queue (by rw [hf.first]; exact List.mem_cons_self)).2.2
      have hlen' : bufSize ≥
          ((k.detach (.messages q') ⟨.message, m⟩).message m).textLength := hlen
      simp only [bind, Except.bind, if_pos hne, hdet]
      rw [if_pos hlen']
      simp only [deliver_iff, he, and_self]
      exact exists_delivered r mq hbuf htext hprio
    · -- the class `i` is smaller than that of `m`, so it is empty
      have hnil : L (.messages q') = [] := hf.smallest q' hq' (by omega) (by omega)
      have hsize : (k.head (.messages q')).size = 0 :=
        (size_zero_iff (l := .messages q') h.wired message_part).mpr hnil
      simp only [bind, Except.bind, hsize, ne_eq, not_true_eq_false, if_false]
      refine ih (by omega) ⟨hf.queue, hf.first, by omega, fun x hx hxlow => ?_⟩ ?_
      · exact hf.smallest x hx (by omega)
      · push_cast at hhigh
        omega

/-- The first message that a read meets fits its buffer. -/
def readFits (k : Kernel) : Action → Bool
  | .syscall num args =>
    if num = DSOS_CALL_MQREAD then
      match k.running with
      | none => true
      | some r =>
        match (k.setCall r num args).boundTo .mq r (toInt (args.getD 0 0)) with
        | .ok (some (_, mq)) =>
          firstFits (k.setCall r num args) mq (toInt (args.getD 2 0)) 0
            (k.messageQueue mq).priority.toNat
        | _ => true
    else true
  | _ => true

/-- A completed read on `mq` whose first message fits delivers that message or changes
nothing but the return value. -/
theorem mqRead_fits {args : List Int}
    (htable : ∀ r d mq, k.running = some r → (k.setCall r DSOS_CALL_MQREAD args).boundTo .mq r
      (toInt (args.getD 0 0)) = .ok (some (d, mq)) → ClassTable k L mq)
    (hfits : readFits k (.syscall DSOS_CALL_MQREAD args) = true)
    (hread : k.act (.syscall DSOS_CALL_MQREAD args) = .ok k') :
    ∃ r k₁, k.running = some r ∧ k₁ = k.setCall r DSOS_CALL_MQREAD args ∧
      ((∃ v, k' = k₁.setRetvalue r v) ∨
        ∃ d mq q m rest, k₁.boundTo .mq r (toInt (args.getD 0 0)) = .ok (some (d, mq)) ∧
          FirstMessage k L mq 0 q m rest ∧
          (k.queue q).priority < (k.messageQueue mq).priority ∧
          (k.message m).textLength ≤ toInt (args.getD 2 0) ∧
          Delivered (k₁.detach (.messages q) ⟨.message, m⟩) r mq m (k.queue q).priority
            (args.getD 1 0) (args.getD 3 0) k') := by
  obtain ⟨r, hr, hcall⟩ := syscall_ok rfl (by decide) (by decide) hread
  refine ⟨r, _, hr, rfl, ?_⟩
  have hnumarg : syscallNumarg DSOS_CALL_MQREAD = 4 := by decide
  obtain ⟨r', hr', ⟨v, rfl⟩ | ⟨d, mq, hb, _, hloop⟩⟩ := mqRead_cases hcall
  · have he : r' = r := Option.some.inj (hr'.symm.trans hr)
    exact .inl ⟨v, by rw [he]⟩
  · have he : r' = r := Option.some.inj (hr'.symm.trans hr)
    subst he
    rw [arg_setCall (by rw [hnumarg]; decide)] at hb hloop
    rw [arg_setCall (by rw [hnumarg]; decide), arg_setCall (by rw [hnumarg]; decide)] at hloop
    simp only [readFits, if_true, hr, hb] at hfits
    have ht := htable r' d mq hr hb
    have hcast : (((k.messageQueue mq).priority.toNat : Nat) : Int) =
        (k.messageQueue mq).priority := Int.toNat_of_nonneg ht.priority.1
    rcases readClasses_cases (classTable_setCall _ _ _ ht) (Int.le_refl 0) (by
        change 0 + (((k.messageQueue mq).priority.toNat : Nat) : Int) ≤
          (k.messageQueue mq).priority + 1
        omega) hfits hloop with ⟨_, hk⟩ | ⟨q, m, rest, hf, hhigh, hlen, hd⟩
    · exact .inl ⟨0, hk⟩
    · refine .inr ⟨d, mq, q, m, rest, hb, ⟨hf.queue, hf.first, hf.low, hf.smallest⟩, ?_,
        hlen, hd⟩
      change (k.queue q).priority < 0 + (((k.messageQueue mq).priority.toNat : Nat) : Int) at hhigh
      omega

end DisastrOS.MessageQueue.ReadLoop
