import DisastrOS.MessageQueue.DeliveryOrder
import DisastrOS.MessageQueue.MessageFrame

/-!
# The content of a message

`mqWrite` stores the address of the writer's buffer, and `mqRead` copies the one byte
that is there at the time of the read. Whether the reader gets the bytes that were
written depends on what both buffers hold just before the read.
-/
namespace DisastrOS.MessageQueue.RoundTrip

open DisastrOS.Machine
open DisastrOS.Machine.Kernel
open DisastrOS.Machine.Runs
open DisastrOS.Lists.Boot
open DisastrOS.Lists.Wiring
open DisastrOS.Pool.Blocks
open DisastrOS.Pool.BlockContract
open DisastrOS.Library.ClassFifo
open DisastrOS.Library.GuardedRun
open DisastrOS.Library.Outcome
open DisastrOS.MessageQueue.Calls
open DisastrOS.MessageQueue.Classes
open DisastrOS.MessageQueue.DeliveryOrder
open DisastrOS.MessageQueue.MessageFrame
open DisastrOS.MessageQueue.ReadLoop
open DisastrOS.MessageQueue.Representation
open DisastrOS.MessageQueue.TableInvariant

/-- Only the lists may differ. -/
def SameButLists (k k' : Kernel) : Prop := k' = { k with lists := k'.lists }

/-- The call of `mqRead` by `r` with the arguments `args` delivers the message `m` of the
class `c`: it ends in the branch for a message that fits. -/
structure Delivers (k : Kernel) (r m : Nat) (c : Int) (args : List Int) (k' : Kernel) : Prop where
  running : k.running = some r
  act : k.act (.syscall DSOS_CALL_MQREAD args) = .ok k'
  fits : (k.message m).textLength ≤ toInt (args.getD 2 0)
  branch : ∃ k₁ mq, SameButLists (k.setCall r DSOS_CALL_MQREAD args) k₁ ∧
    k₁.deliver r mq m c (args.getD 1 0) (args.getD 3 0) = .ok k'

variable {k k' k₀ k₁ k₂ k₃ : Kernel} {r mq m : Nat} {buf bufSize priority i : Int}

/-- The loop ends in that branch, or it has changed nothing but lists. -/
theorem readClasses_branches {n : Nat}
    (h : readClasses r mq buf bufSize priority i n k = .ok k') :
    ∃ k₁, SameButLists k k₁ ∧ ((∃ v, k' = k₁.setRetvalue r v) ∨
      ∃ m c, (k.message m).textLength ≤ bufSize ∧
        k₁.deliver r mq m c buf priority = .ok k') := by
  induction n generalizing i k with
  | zero => exact ⟨k, rfl, .inl ⟨0, (Except.ok.inj h).symm⟩⟩
  | succ n ih =>
    rw [readClasses] at h
    obtain ⟨found, _, h⟩ := bind_eq_ok.mp h
    cases found with
    | none => exact ⟨k, rfl, .inl ⟨_, (Except.ok.inj h).symm⟩⟩
    | some q =>
      simp only at h
      split at h
      · obtain ⟨⟨m, k₁⟩, hd, h⟩ := bind_eq_ok.mp h
        have hlists : SameButLists k k₁ := by
          unfold detachFirst at hd
          obtain ⟨item, _, hd⟩ := bind_eq_ok.mp hd
          obtain ⟨j, _, hd⟩ := bind_eq_ok.mp hd
          cases hd
          rfl
        simp only at h
        split at h
        · next hfits =>
          refine ⟨k₁, hlists, .inr ⟨m, i, ?_, h⟩⟩
          rw [hlists] at hfits
          exact hfits
        · obtain ⟨k₂, hlists₂, hcase⟩ := ih h
          have hmsg : k₁.message = k.message := by rw [hlists]
          rw [hmsg] at hcase
          refine ⟨k₂, ?_, hcase⟩
          unfold SameButLists at hlists hlists₂ ⊢
          rw [hlists₂, hlists]
      · exact ih h

/-- A completed read delivers a message or leaves all messages alone. -/
theorem read_branches {args : List Int} (h : k.act (.syscall DSOS_CALL_MQREAD args) = .ok k') :
    SameMessages k k' ∨ ∃ r m c, Delivers k r m c args k' := by
  obtain ⟨r, hr, hcall⟩ := syscall_ok rfl (by decide) (by decide) h
  obtain ⟨r', hr', ⟨v, rfl⟩ | ⟨d, mq, _, _, hloop⟩⟩ := mqRead_cases hcall
  · exact .inl ⟨rfl, rfl⟩
  · have he : r' = r := Option.some.inj (hr'.symm.trans hr)
    subst he
    have harg : ∀ i < 4, (k.setCall r' DSOS_CALL_MQREAD args).arg r' i = args.getD i 0 :=
      fun i hi => arg_setCall hi
    rw [harg 1 (by decide), harg 2 (by decide), harg 3 (by decide)] at hloop
    obtain ⟨k₁, hlists, ⟨v, rfl⟩ | ⟨m, c, hfits, hdel⟩⟩ := readClasses_branches hloop
    · refine .inl ?_
      rw [hlists]
      exact ⟨rfl, rfl⟩
    · exact .inr ⟨r', m, c, hr, h, hfits, k₁, mq, hlists, hdel⟩

/-- What an action can do to the messages. -/
theorem act_messages {a : Action} (hstep : k.act a = .ok k') :
    SameMessages k k' ∨
      (∃ args r m c, a = .syscall DSOS_CALL_MQREAD args ∧ Delivers k r m c args k') ∨
      ∃ args r mq q m, a = .syscall DSOS_CALL_MQWRITE args ∧ k.running = some r ∧
        Wrote (k.setCall r DSOS_CALL_MQWRITE args) r mq q m k' := by
  by_cases hread : ∃ args, a = .syscall DSOS_CALL_MQREAD args
  · obtain ⟨args, rfl⟩ := hread
    rcases read_branches hstep with hs | ⟨r, m, c, hd⟩
    · exact .inl hs
    · exact .inr (.inl ⟨args, r, m, c, rfl, hd⟩)
  · by_cases hwrite : ∃ args, a = .syscall DSOS_CALL_MQWRITE args
    · obtain ⟨args, rfl⟩ := hwrite
      obtain ⟨r, hr, hcall⟩ := syscall_ok rfl (by decide) (by decide) hstep
      obtain ⟨r', hr', ⟨v, rfl⟩ | ⟨mq, q, m, hw⟩⟩ := mqWrite_cases hcall
      · exact .inl ⟨rfl, rfl⟩
      · have he : r' = r := Option.some.inj (hr'.symm.trans hr)
        subst he
        exact .inr (.inr ⟨args, r', mq, q, m, rfl, hr, hw⟩)
    · refine .inl (same_act (fun num args he => ⟨fun hn => ?_, fun hn => ?_⟩) k k' hstep)
      · exact hread ⟨args, by rw [he, hn]⟩
      · exact hwrite ⟨args, by rw [he, hn]⟩

/-! ## Messages in transit -/

/-- The block `m` holds the message `x`, in a pool of message blocks in good order. -/
structure InTransit (k : Kernel) (m : Nat) (x : Message) : Prop where
  indexed : Indexed (k.pool .message) (numItems .message)
  kept : k.message m = x

theorem newItem_message {j : Nat} (h : Indexed (k.pool .message) (numItems .message))
    (hnew : k.newItem .message = some (j, k')) :
    ¬ Allocated k .message j ∧ Indexed (k'.pool .message) (numItems .message) ∧
      k'.message = k.message ∧
      ∀ i, Allocated k' .message i ↔ i = j ∨ Allocated k .message i := by
  unfold Kernel.newItem at hnew
  split at hnew
  · cases hnew
  · next b k₁ hget =>
    cases hnew
    obtain ⟨x, hx, rfl, rfl⟩ := getBlock_eq_some hget
    obtain ⟨h0, _, _, hfresh, hind, _, hiff⟩ := indexed_getBlock h hx
    have hcast : ((x.toNat : Nat) : Int) = x := Int.toNat_of_nonneg h0
    have hpool : (Function.update k.pool .message (k.pool .message).getBlock.2) .message =
        (k.pool .message).getBlock.2 := Function.update_self ..
    refine ⟨?_, hpool.symm ▸ hind, rfl, fun i => ?_⟩
    · unfold Allocated
      rwa [hcast]
    · change HandedOut ((Function.update k.pool .message (k.pool .message).getBlock.2) .message) i ↔
        i = x.toNat ∨ HandedOut (k.pool .message) i
      rw [hpool, hiff]
      constructor
      · rintro (hi | hi)
        · exact .inl (by omega)
        · exact .inr hi
      · rintro (hi | hi)
        · exact .inl (by omega)
        · exact .inr hi

/-- What an accepted write stores. -/
theorem wrote_transit {q : Nat} (h : Indexed (k.pool .message) (numItems .message))
    (hw : Wrote k r mq q m k') :
    ¬ Allocated k .message m ∧ Indexed (k'.pool .message) (numItems .message) ∧
      k'.message = Function.update k.message m ⟨toInt (k.arg r 2), k.arg r 1⟩ ∧
      ∀ j, Allocated k' .message j ↔ j = m ∨ Allocated k .message j := by
  obtain ⟨k₁, hnew, rfl⟩ := hw.eq
  obtain ⟨hfresh, hind, hmsg, hall⟩ := newItem_message h hnew
  refine ⟨hfresh, hind, ?_, hall⟩
  rw [← hmsg]
  rfl

theorem indexed_delivers {c : Int} {args : List Int}
    (h : Indexed (k.pool .message) (numItems .message)) (hd : Delivers k r m c args k') :
    Indexed (k'.pool .message) (numItems .message) ∧ k'.message = k.message := by
  obtain ⟨k₁, mq, hlists, hdel⟩ := hd.branch
  have hdel := deliver_iff.mp hdel
  refine ⟨?_, ?_⟩
  · rw [hdel.pool]
    change Indexed (Function.update k₁.pool .message _ .message) _
    rw [Function.update_self, hlists]
    exact indexed_releaseBlock h _
  · rw [hdel.rest, hlists]
    rfl

/-- The pool of message blocks is in good order in every run. -/
theorem indexed_step {a : Action} (h : Indexed (k.pool .message) (numItems .message))
    (hstep : k.act a = .ok k') : Indexed (k'.pool .message) (numItems .message) := by
  rcases act_messages hstep with hs | ⟨args, r, j, c, rfl, hd⟩ | ⟨args, r, mq, q, j, rfl, _, hw⟩
  · rw [hs.2]
    exact h
  · exact (indexed_delivers h hd).1
  · exact (wrote_transit (k := k.setCall r DSOS_CALL_MQWRITE args) h hw).2.1

/-- A message stays what it is for as long as its block is in use. -/
theorem inTransit_step {a : Action} {x : Message} (h : InTransit k m x)
    (ha : Allocated k .message m) (hstep : k.act a = .ok k') : InTransit k' m x := by
  refine ⟨indexed_step h.indexed hstep, ?_⟩
  rcases act_messages hstep with hs | ⟨args, r, j, c, rfl, hd⟩ | ⟨args, r, mq, q, j, rfl, _, hw⟩
  · rw [hs.1]
    exact h.kept
  · rw [(indexed_delivers h.indexed hd).2]
    exact h.kept
  · obtain ⟨hfresh, _, hmsg, _⟩ :=
      wrote_transit (k := k.setCall r DSOS_CALL_MQWRITE args) h.indexed hw
    have hne : m ≠ j := fun he => hfresh (he ▸ ha)
    rw [hmsg, Function.update_of_ne hne]
    exact h.kept

/-- The write that takes the block `m` puts the caller's buffer and length there. -/
theorem inTransit_written {args : List Int}
    (h : Indexed (k.pool .message) (numItems .message))
    (hwrite : k.act (.syscall DSOS_CALL_MQWRITE args) = .ok k')
    (hfree : ¬ Allocated k .message m) (htaken : Allocated k' .message m) :
    0 ≤ toInt (args.getD 2 0) ∧ InTransit k' m ⟨toInt (args.getD 2 0), args.getD 1 0⟩ := by
  have hind := indexed_step h hwrite
  rcases act_messages hwrite with hs | ⟨_, _, _, _, he, _⟩ | ⟨args', r, mq, q, j, he, _, hw⟩
  · unfold Allocated at hfree htaken
    rw [hs.2] at htaken
    exact absurd htaken hfree
  · cases he
  · cases he
    obtain ⟨_, _, hmsg, hall⟩ := wrote_transit (k := k.setCall r DSOS_CALL_MQWRITE args) h hw
    have hm : m = j := ((hall m).mp htaken).resolve_right hfree
    subst hm
    have harg : ∀ i < 4, (k.setCall r DSOS_CALL_MQWRITE args).arg r i = args.getD i 0 :=
      fun i hi => arg_setCall hi
    have hsize := hw.size.1
    rw [harg 2 (by decide)] at hsize
    rw [harg 1 (by decide), harg 2 (by decide)] at hmsg
    exact ⟨hsize, hind, by rw [hmsg, Function.update_self]⟩

/-! ## The round trip -/

/-- The read returned the length `n` and put the bytes `text` into the buffer `buf` of
`size` bytes, whose other bytes are as before. -/
structure ContentDelivered (k k' : Kernel) (r : Nat) (text : Int → UInt8)
    (n buf size : Int) : Prop where
  length : (k'.pcb r).syscallRetvalue = n
  copied : ∀ j, 0 ≤ j → j < n → k'.mem (buf + j) = text j
  beyond : ∀ j, n ≤ j → j < size → k'.mem (buf + j) = k.mem (buf + j)

/-- The byte at `a` belongs to the word `*priority`, which the read stores last. -/
def InPriority (priority a : Int) : Prop := priority ≤ a ∧ a < priority + 4

instance {priority a : Int} : Decidable (InPriority priority a) :=
  inferInstanceAs (Decidable (_ ∧ _))

/-- Before the read, the writer's first byte is still there, and the reader's buffer
already holds the other bytes; for an empty text it is the byte at the writer's address
that must be in the reader's buffer. Where `*priority` is a part of the buffer, the
number of the class must consist of the right bytes. -/
structure AlreadyThere (k : Kernel) (text : Int → UInt8) (source n c buf size priority : Int) :
    Prop where
  first : 0 < n → ¬ InPriority priority buf → k.mem source = text 0
  others : ∀ j, 1 ≤ j → j < n → ¬ InPriority priority (buf + j) → k.mem (buf + j) = text j
  empty : n = 0 → 0 < size → ¬ InPriority priority buf → k.mem source = k.mem buf
  overlap : ∀ j, 0 ≤ j → j < size → InPriority priority (buf + j) →
    byteOf c (buf + j - priority).toNat = if j < n then text j else k.mem (buf + j)

/-- The memory after a delivery. -/
theorem delivers_mem {c : Int} {args : List Int} (hd : Delivers k r m c args k') :
    (k'.pcb r).syscallRetvalue = (k.message m).textLength ∧
      ∀ a, k'.mem a =
        if InPriority (args.getD 3 0) a then byteOf c (a - args.getD 3 0).toNat
        else if a = args.getD 1 0 then k.mem (k.message m).text else k.mem a := by
  obtain ⟨k₁, mq, hlists, hdel⟩ := hd.branch
  have hdel := deliver_iff.mp hdel
  have hmsg : k₁.message = k.message := by
    rw [hlists]
    rfl
  have hmem : k₁.mem = k.mem := by
    rw [hlists]
    rfl
  refine ⟨?_, fun a => ?_⟩
  · rw [hdel.pcb, Function.update_self, hmsg]
  · rw [hdel.mem, hmsg, hmem]
    simp only [Function.update_apply]
    rfl

theorem contentDelivered_iff {c : Int} {args : List Int} {text : Int → UInt8} {source n : Int}
    (hd : Delivers k r m c args k') (hmsg : k.message m = ⟨n, source⟩) (hn : 0 ≤ n) :
    ContentDelivered k k' r text n (args.getD 1 0) (toInt (args.getD 2 0)) ↔
      AlreadyThere k text source n c (args.getD 1 0) (toInt (args.getD 2 0)) (args.getD 3 0) := by
  obtain ⟨hret, hmem⟩ := delivers_mem hd
  have hfits := hd.fits
  rw [hmsg] at hret hmem hfits
  simp only at hret hmem hfits
  generalize args.getD 1 0 = buf at *
  generalize toInt (args.getD 2 0) = size at *
  generalize args.getD 3 0 = priority at *
  -- the three kinds of bytes in the buffer after the read
  have hover : ∀ j, InPriority priority (buf + j) →
      k'.mem (buf + j) = byteOf c (buf + j - priority).toNat := fun j hin => by
    rw [hmem, if_pos hin]
  have hhead : ¬ InPriority priority buf → k'.mem buf = k.mem source := fun hout => by
    rw [hmem, if_neg hout, if_pos rfl]
  have htail : ∀ j, 1 ≤ j → ¬ InPriority priority (buf + j) →
      k'.mem (buf + j) = k.mem (buf + j) := fun j h1 hout => by
    rw [hmem, if_neg hout, if_neg (by omega)]
  constructor
  · intro hc
    refine ⟨fun hpos hout => ?_, fun j h1 hlt hout => ?_, fun hzero hsize hout => ?_,
      fun j h0 hlt hin => ?_⟩
    · have hb := hc.copied 0 (by omega) hpos
      rwa [Int.add_zero, hhead hout] at hb
    · rw [← hc.copied j (by omega) hlt, htail j h1 hout]
    · have hb := hc.beyond 0 (by omega) hsize
      rwa [Int.add_zero, hhead hout] at hb
    · rw [← hover j hin]
      split
      · next hjn => exact hc.copied j h0 hjn
      · exact hc.beyond j (by omega) hlt
  · intro ha
    refine ⟨hret, fun j h0 hlt => ?_, fun j hle hlt => ?_⟩
    · by_cases hin : InPriority priority (buf + j)
      · rw [hover j hin, ha.overlap j h0 (by omega) hin, if_pos hlt]
      · by_cases hj : j = 0
        · subst hj
          rw [Int.add_zero] at hin ⊢
          rw [hhead hin, ha.first hlt hin]
        · rw [htail j (by omega) hin, ha.others j (by omega) hlt hin]
    · by_cases hin : InPriority priority (buf + j)
      · rw [hover j hin, ha.overlap j (by omega) hlt hin, if_neg (by omega)]
      · by_cases hj : j = 0
        · subst hj
          rw [Int.add_zero] at hin ⊢
          rw [hhead hin, ha.empty (by omega) (by omega) hin]
        · exact htail j (by omega) hin

/-- A message written in any reachable state and delivered after any actions arrives as
it was written exactly if its bytes are already there. -/
theorem content_round_trip {mem : Int → UInt8} {before during : List Action}
    {args args' : List Int} {c : Int} (hstart : Started mem k₀)
    (hbefore : Run act (fun _ _ => True) k₀ before k)
    (hwrite : k.act (.syscall DSOS_CALL_MQWRITE args) = .ok k₁)
    (hfree : ¬ Allocated k .message m) (htaken : Allocated k₁ .message m)
    (hduring : Run act (fun s _ => Allocated s .message m) k₁ during k₂)
    (hread : Delivers k₂ r m c args' k₃) :
    ContentDelivered k₂ k₃ r (fun j => k.mem (args.getD 1 0 + j)) (toInt (args.getD 2 0))
        (args'.getD 1 0) (toInt (args'.getD 2 0)) ↔
      AlreadyThere k₂ (fun j => k.mem (args.getD 1 0 + j)) (args.getD 1 0)
        (toInt (args.getD 2 0)) c (args'.getD 1 0) (toInt (args'.getD 2 0))
        (args'.getD 3 0) := by
  have hindexed : Indexed (k.pool .message) (numItems .message) :=
    run_invariant (I := fun s => Indexed (s.pool .message) (numItems .message))
      (fun _ _ _ hs _ hstep => indexed_step hs hstep) ((start_booted hstart).wired.pooled .message)
      hbefore
  obtain ⟨hlength, hwritten⟩ := inTransit_written hindexed hwrite hfree htaken
  have hkept : InTransit k₂ m ⟨toInt (args.getD 2 0), args.getD 1 0⟩ :=
    run_invariant (I := fun s => InTransit s m ⟨toInt (args.getD 2 0), args.getD 1 0⟩)
      (fun _ _ _ hs ha hstep => inTransit_step hs ha hstep) hwritten hduring
  exact contentDelivered_iff hread hkept.kept hlength

/-! ## Two short messages -/

/-- The state `k` with the byte 98 at the address 1001. -/
def withByte (k : Kernel) : Kernel := { k with mem := Function.update k.mem 1001 98 }

/-- Writing the `n` bytes from 1000 on and reading them to 2000 goes through, and leaves
the byte `v` at 2001. -/
def tripEnds (n : Int) (v : UInt8) (k : Kernel) : Bool :=
  match (withByte k).act (.syscall DSOS_CALL_MQWRITE [0, 1000, n, 0]) with
  | .error _ => false
  | .ok k₁ =>
    match k₁.act (.syscall DSOS_CALL_MQREAD [0, 2000, 32, 3000]) with
    | .error _ => false
    | .ok k₂ =>
      decide (callsOn 0 (withByte k) DSOS_CALL_MQWRITE [0, 1000, n, 0] = true ∧
        callsOn 0 k₁ DSOS_CALL_MQREAD [0, 2000, 32, 3000] = true ∧ k₁.running = some 0 ∧
        observed 0 (withByte k) (.syscall DSOS_CALL_MQWRITE [0, 1000, n, 0]) k₁ =
          [.accepted 0 0] ∧
        observed 0 k₁ (.syscall DSOS_CALL_MQREAD [0, 2000, 32, 3000]) k₂ = [.delivered 0 0] ∧
        (withByte k).mem 1001 = 98 ∧ k₁.mem 1000 = (withByte k).mem 1000 ∧ k₂.mem 2001 = v)

theorem exists_trip {n : Int} {v : UInt8} (h : (startExec alone
    [.syscall DSOS_CALL_MQOPEN [1, 1, 2]]).any (fun k =>
      (k.head .messageQueuesList).first = some ⟨.messageQueue, 0⟩ ∧ tripEnds n v k = true)
    = true) :
    ∃ k₀ k k₁ k₂, Started (fun _ => 0) k₀ ∧
      Run act (fun _ _ => True) k₀ [.syscall DSOS_CALL_MQOPEN [1, 1, 2], .store 1001 98] k ∧
      k.act (.syscall DSOS_CALL_MQWRITE [0, 1000, n, 0]) = .ok k₁ ∧
      ¬ Allocated k .message 0 ∧ Allocated k₁ .message 0 ∧
      Delivers k₁ 0 0 0 [0, 2000, 32, 3000] k₂ ∧
      k.mem 1001 = 98 ∧ k₁.mem 1000 = k.mem 1000 ∧ k₂.mem 2001 = v := by
  obtain ⟨k₀, k, hstart, hrun, htest⟩ := exists_run_from_start _ alone _ _ alone_safe h
  obtain ⟨hfirst, htrip⟩ := of_decide_eq_true htest
  obtain ⟨L, ht⟩ := tables_run hstart hrun
  have hl : Listed L 0 := List.mem_of_head?
    ((first_eq (l := .messageQueuesList) ht.wired trivial).symm.trans hfirst)
  have hstore : k.act (.store 1001 98) = .ok (withByte k) := rfl
  have hrun' : Run act (fun _ _ => True) k₀
      [.syscall DSOS_CALL_MQOPEN [1, 1, 2], .store 1001 98] (withByte k) :=
    .snoc (run_mono (fun _ _ _ => trivial) hrun) trivial hstore
  have htable : ClassTable (withByte k) L 0 := classTable_congr (classTable ht hl) rfl rfl rfl rfl rfl
  unfold tripEnds at htrip
  generalize withByte k = k' at htrip hrun' htable
  split at htrip
  · cases htrip
  · next k₁ hwrite =>
    split at htrip
    · cases htrip
    · next k₂ hread =>
      obtain ⟨hon, hon', hr, hacc, hdel, hbyte, hsame, hleft⟩ := of_decide_eq_true htrip
      have hindexed := htable.wired.pooled .message
      have hcall : QueueCall 0 k' (.syscall DSOS_CALL_MQWRITE [0, 1000, n, 0]) := ⟨.inl rfl, hon⟩
      rcases queueCall_cases htable hcall rfl hwrite with ⟨_, ho⟩ |
        ⟨r, args, q, m, he, hr₀, hw, ho⟩ | ⟨_, _, _, _, _, _, _, _, _, _, ho⟩
      · rw [hacc] at ho
        cases ho
      · cases he
        rw [hacc, List.cons.injEq, Event.accepted.injEq] at ho
        obtain ⟨⟨_, rfl⟩, _⟩ := ho
        obtain ⟨hfree, _, _, hall⟩ :=
          wrote_transit (k := k'.setCall r DSOS_CALL_MQWRITE [0, 1000, n, 0]) hindexed hw
        have htable₁ := (wrote_classTable (classTable_setCall _ _ _ htable) hw).2.2.2.2.2
        refine ⟨k₀, k', k₁, k₂, hstart, hrun', hwrite, hfree, (hall 0).mpr (.inl rfl), ?_,
          hbyte, hsame, hleft⟩
        have hcall : QueueCall 0 k₁ (.syscall DSOS_CALL_MQREAD [0, 2000, 32, 3000]) :=
          ⟨.inr rfl, hon'⟩
        rcases queueCall_cases htable₁ hcall (readFits_of_long htable₁ hcall rfl) hread with
          ⟨_, ho⟩ | ⟨_, _, _, _, he, _⟩ | ⟨r', args, q', m', rest, he, hr', hlen, hf, hd, ho⟩
        · rw [hdel] at ho
          cases ho
        · cases he
        · cases he
          rw [hdel, List.cons.injEq, Event.delivered.injEq] at ho
          obtain ⟨⟨hc, rfl⟩, _⟩ := ho
          obtain rfl : r' = 0 := Option.some.inj (hr'.symm.trans hr)
          rw [← hc] at hd
          refine ⟨hr, hread, hlen, _, 0, ?_, deliver_iff.mpr hd⟩
          rfl
      · rw [hacc] at ho
        cases ho

theorem content_round_trip_one_byte :
    ∃ k₀ k k₁ k₂, Started (fun _ => 0) k₀ ∧
      Run act (fun _ _ => True) k₀ [.syscall DSOS_CALL_MQOPEN [1, 1, 2], .store 1001 98] k ∧
      k.act (.syscall DSOS_CALL_MQWRITE [0, 1000, 1, 0]) = .ok k₁ ∧
      Delivers k₁ 0 0 0 [0, 2000, 32, 3000] k₂ ∧
      ContentDelivered k₁ k₂ 0 (fun j => k.mem (1000 + j)) 1 2000 32 := by
  obtain ⟨k₀, k, k₁, k₂, hstart, hrun, hwrite, hfree, htaken, hread, _, hsame, _⟩ :=
    exists_trip (n := 1) (v := 0) (by decide +kernel)
  refine ⟨k₀, k, k₁, k₂, hstart, hrun, hwrite, hread,
    (content_round_trip hstart hrun hwrite hfree htaken (.nil _) hread).mpr
      ⟨fun _ _ => hsame, fun j h1 hlt => ?_, fun hn => ?_, fun j _ hlt hin => ?_⟩⟩
  · change j < 1 at hlt
    omega
  · change (1 : Int) = 0 at hn
    omega
  · obtain ⟨hlow, _⟩ := hin
    change j < 32 at hlt
    change 3000 ≤ 2000 + j at hlow
    omega

/-- Of a message of two bytes the second one, 98, does not reach the reader's buffer. -/
theorem second_byte_is_not_copied :
    ∃ k₀ k k₁ k₂, Started (fun _ => 0) k₀ ∧
      Run act (fun _ _ => True) k₀ [.syscall DSOS_CALL_MQOPEN [1, 1, 2], .store 1001 98] k ∧
      k.act (.syscall DSOS_CALL_MQWRITE [0, 1000, 2, 0]) = .ok k₁ ∧
      ¬ Allocated k .message 0 ∧ Allocated k₁ .message 0 ∧
      Delivers k₁ 0 0 0 [0, 2000, 32, 3000] k₂ ∧
      ¬ ContentDelivered k₁ k₂ 0 (fun j => k.mem (1000 + j)) 2 2000 32 := by
  obtain ⟨k₀, k, k₁, k₂, hstart, hrun, hwrite, hfree, htaken, hread, hbyte, _, hleft⟩ :=
    exists_trip (n := 2) (v := 0) (by decide +kernel)
  refine ⟨k₀, k, k₁, k₂, hstart, hrun, hwrite, hfree, htaken, hread, fun hc => ?_⟩
  have hcopied : k₂.mem 2001 = k.mem 1001 := hc.copied 1 (by decide) (by decide)
  rw [hbyte, hleft] at hcopied
  exact absurd hcopied (by decide)

end DisastrOS.MessageQueue.RoundTrip
