import DisastrOS.Library.Conservation
import DisastrOS.MessageQueue.Deliveries

/-!
# No message is lost on the way

Whatever all processes do, the messages of a queue come in at the back with `mqWrite` and leave
at the front with `mqRead`, one by one and as they came. A block that a message has stays in use
until then, and for ever when the reader has no room for the message.
-/
namespace DisastrOS.MessageQueue.Conservation

open DisastrOS.Machine
open DisastrOS.Machine.Kernel
open DisastrOS.Machine.Runs
open DisastrOS.Lists.Boot
open DisastrOS.Lists.Sequences
open DisastrOS.Lists.RegularLists
open DisastrOS.Lists.Wiring
open DisastrOS.Pool.Blocks
open DisastrOS.Process.Coherence
open DisastrOS.Process.SystemRuns
open DisastrOS.Process.Transitions
open DisastrOS.Process.View
open DisastrOS.MessageQueue.Deliveries
open DisastrOS.MessageQueue.MessageFrame
open DisastrOS.Library.Conservation
open DisastrOS.Library.GuardedRun
open DisastrOS.Library.LinkedSequence

variable {mem : Int → UInt8} {k k' k₀ : Kernel} {L L' : HeadAddr → List Node} {q m : Nat}
  {num : Int} {args : List Int} {a : Action}

/-- The messages that wait in the queue `q`, oldest first: the block of each, and its length and
text. -/
def contents (k : Kernel) (L : HeadAddr → List Node) (q : Nat) : List (Nat × Message) :=
  (L (.messages q)).map fun x => (x.idx, k.message x.idx)

/-! ## What an observer sees -/

/-- What an observer of the queue `q` sees of an action: a write that makes it longer has brought
the last message, a read that makes it shorter has taken the first. -/
def watch (q : Nat) (k : Kernel) (a : Action) (k' : Kernel) : List (Event (Nat × Message)) :=
  match a with
  | .syscall num _ =>
    if num = DSOS_CALL_MQWRITE ∧ (k'.head (.messages q)).size = (k.head (.messages q)).size + 1 then
      (k'.head (.messages q)).last.toList.map fun x => .came (x.idx, k'.message x.idx)
    else if num = DSOS_CALL_MQREAD ∧
        (k'.head (.messages q)).size = (k.head (.messages q)).size - 1 then
      (k.head (.messages q)).first.toList.map fun x => .left (x.idx, k.message x.idx)
    else []
  | _ => []

theorem watch_same (hs : Strung Regular Retained k L) (hs' : Strung Regular Retained k' L')
    (hsame : L' (.messages q) = L (.messages q)) : watch q k a k' = [] := by
  have hsize := hs.size_eq (regular_messages q)
  have hsize' := hs'.size_eq (regular_messages q)
  rw [hsame] at hsize'
  cases a with
  | syscall num args =>
    unfold watch
    simp only
    rw [if_neg (by omega), if_neg (by omega)]
  | _ => rfl

theorem watch_came {x : Node} (hs : Strung Regular Retained k L)
    (hs' : Strung Regular Retained k' L') (hcame : L' (.messages q) = L (.messages q) ++ [x]) :
    watch q k (.syscall DSOS_CALL_MQWRITE args) k' = [.came (x.idx, k'.message x.idx)] := by
  have hsize := hs.size_eq (regular_messages q)
  have hsize' := hs'.size_eq (regular_messages q)
  have hlast := hs'.last_eq (regular_messages q)
  rw [hcame] at hsize' hlast
  rw [List.length_append, List.length_singleton] at hsize'
  rw [List.getLast?_concat] at hlast
  unfold watch
  simp only
  rw [if_pos ⟨trivial, by omega⟩, hlast]
  rfl

theorem watch_left {x : Node} (hs : Strung Regular Retained k L)
    (hs' : Strung Regular Retained k' L') (hleft : L (.messages q) = x :: L' (.messages q)) :
    watch q k (.syscall DSOS_CALL_MQREAD args) k' = [.left (x.idx, k.message x.idx)] := by
  have hsize := hs.size_eq (regular_messages q)
  have hsize' := hs'.size_eq (regular_messages q)
  have hfirst := hs.first_eq (regular_messages q)
  rw [hleft] at hsize hfirst
  rw [List.length_cons] at hsize
  rw [List.head?_cons] at hfirst
  unfold watch
  simp only
  rw [if_neg fun h => absurd h.1 (by decide), if_pos ⟨trivial, by omega⟩, hfirst]
  rfl

/-! ## Runs -/

/-- The queue `q` is balanced over an action that leaves it alone. -/
theorem balanced_same (hs : Strung Regular Retained k L) (hs' : Strung Regular Retained k' L')
    (hsame : L' (.messages q) = L (.messages q))
    (hmessage : ∀ x ∈ L (.messages q), k'.message x.idx = k.message x.idx) :
    Balanced (contents k L q) (watch q k a k') (contents k' L' q) := by
  have hcontents : contents k' L' q = contents k L q := by
    unfold contents
    rw [hsame]
    exact List.map_congr_left fun x hx => by rw [hmessage x hx]
  rw [watch_same hs hs' hsame, hcontents]
  exact balanced_nil _

theorem balanced_cameIn {q' : Nat} (hs : Strung Regular Retained k L)
    (h : CameIn k L q' m k' L') : Balanced (contents k L q)
      (watch q k (.syscall DSOS_CALL_MQWRITE args) k') (contents k' L' q) := by
  have hold : ∀ x ∈ L (.messages q), k'.message x.idx = k.message x.idx := by
    intro x hx
    refine h.message _ ?_
    rintro rfl
    have hlive := hs.live _ x (regular_messages q) hx
    rw [hs.kind _ x (regular_messages q) hx] at hlive
    exact h.fresh hlive
  by_cases he : q = q'
  · subst he
    have hcontents : contents k' L' q = contents k L q ++ [(m, k'.message m)] := by
      unfold contents
      rw [h.came, List.map_append]
      exact congrArg (· ++ _) (List.map_congr_left fun x hx => by rw [hold x hx])
    rw [watch_came hs h.strung h.came, hcontents]
    exact balanced_came _ _
  · exact balanced_same hs h.strung (h.others q he) hold

theorem balanced_taken {bufSize i : Int} (hs : Strung Regular Retained k L)
    (h : Taken bufSize i k L k' L') : Balanced (contents k L q)
      (watch q k (.syscall DSOS_CALL_MQREAD args) k') (contents k' L' q) := by
  rcases h.first q with hsame | ⟨-, x, hleft, -⟩
  · exact balanced_same hs h.strung hsame fun _ _ => by rw [h.message]
  · rw [watch_left hs h.strung hleft]
    unfold contents
    rw [hleft, h.message]
    exact balanced_left _ _

theorem delivery_balanced (h : Delivery k L k' L' a) (hs : Strung Regular Retained k L)
    (q : Nat) : Balanced (contents k L q) (watch q k a k') (contents k' L' q) := by
  cases h with
  | kept hsame h => exact balanced_same hs h.1 (h.2.1 q) fun _ _ => by rw [hsame.1]
  | came h => exact balanced_cameIn hs h
  | taken h => exact balanced_taken hs h

/-- The messages that wait in the queue `q`. -/
def Waiting (k : Kernel) (q : Nat) (ms : List (Nat × Message)) : Prop :=
  ∃ xs, Holds k.lists (.messages q) xs ∧ xs.map (fun x => (x.idx, k.message x.idx)) = ms

theorem waiting_iff (hs : Strung Regular Retained k L) {ms : List (Nat × Message)} :
    Waiting k q ms ↔ ms = contents k L q := by
  constructor
  · rintro ⟨xs, hxs, rfl⟩
    have hsame : xs = L (.messages q) := represents_unique hxs (hs.holds (regular_messages q))
    rw [hsame]
    rfl
  · rintro rfl
    exact ⟨_, hs.holds (regular_messages q), rfl⟩

theorem blocks_eq (k : Kernel) (L : HeadAddr → List Node) (q : Nat) :
    (contents k L q).map Prod.fst = (L (.messages q)).map Node.idx := by
  unfold contents
  rw [List.map_map]
  rfl

/-- A message waits in one queue. -/
theorem blocks_apart {q' : Nat} (hs : Strung Regular Retained k L) (hne : q' ≠ q) :
    ((L (.messages q)).map Node.idx).Disjoint ((L (.messages q')).map Node.idx) := by
  intro i hi hi'
  have hx := hs.mem_idx (regular_messages q) hi
  have hx' := hs.mem_idx (regular_messages q') hi'
  have he := hs.apart (regular_messages q') (regular_messages q) hx' hx
  exact hne (HeadAddr.messages.inj he)

/-- Every reachable state has lists in which each message waits in a queue that is in use. -/
theorem housed_run {as : List Action} (hs : Started mem k₀)
    (h : Run act (fun _ a => Ordinary a) k₀ as k) : ∃ L, Coherent k L ∧ Housed k L := by
  refine run_invariant (I := fun k => ∃ L, Coherent k L ∧ Housed k L) ?_
    ⟨noNodes, booted_coherent (start_booted hs), fun q hq => absurd rfl hq⟩ h
  rintro k a k' ⟨L, hc, hh⟩ ha hact
  obtain ⟨L', hc', hd⟩ := delivery_act hc hh ha hact
  exact ⟨L', hc', hd.housed hh⟩

/-- Over every run from a reachable state, whatever the calls and whoever makes them, the messages
that waited in a queue and those that came in since are, one by one and in this order, those
that have left it and those that wait; and no message waits twice. -/
theorem messages_conserved {as bs : List Action} {seen : List (Event (Nat × Message))}
    (hs : Started mem k₀) (h : Run act (fun _ a => Ordinary a) k₀ as k)
    (h' : Run (withHistory act (watch q)) (fun _ a => Ordinary a) (k, []) bs (k', seen)) :
    ∃ ms ms', Waiting k q ms ∧ Waiting k' q ms' ∧
      ms ++ arrivals seen = departures seen ++ ms' ∧ (ms'.map Prod.fst).Nodup ∧
      ∀ q' others, q' ≠ q → Waiting k' q' others →
        (ms'.map Prod.fst).Disjoint (others.map Prod.fst) := by
  obtain ⟨L, hc, hh⟩ := housed_run hs h
  have hstep : ∀ k a k' ms, (∃ L, Coherent k L ∧ Housed k L ∧ contents k L q = ms) → Ordinary a →
      act k a = .ok k' → ∃ ms', (∃ L, Coherent k' L ∧ Housed k' L ∧ contents k' L q = ms') ∧
        Balanced ms (watch q k a k') ms' := by
    rintro k a k' ms ⟨L, hc, hh, rfl⟩ ha hact
    obtain ⟨L', hc', hd⟩ := delivery_act hc hh ha hact
    exact ⟨_, ⟨L', hc', hd.housed hh, rfl⟩, delivery_balanced hd hc.tidy.strung q⟩
  obtain ⟨ms', ⟨L', hc', -, rfl⟩, hbalanced⟩ :=
    run_balanced (fun _ a => Ordinary a) _ hstep ⟨L, hc, hh, rfl⟩ h'
  have hs' := hc'.tidy.strung
  refine ⟨_, _, (waiting_iff hc.tidy.strung).mpr rfl, (waiting_iff hs').mpr rfl, hbalanced, ?_,
    fun q' others hne hothers => ?_⟩
  · rw [blocks_eq]
    exact hs'.nodup_idx (regular_messages q)
  · rw [(waiting_iff hs').mp hothers, blocks_eq, blocks_eq]
    exact blocks_apart hs' hne

/-- Of three messages one is read. -/
theorem messages_conserved_three : ∃ k₀ k k' seen, Started (fun _ => 0) k₀ ∧
    Run act (fun _ a => Ordinary a) k₀
      [.syscall DSOS_CALL_MQOPEN [1, 1, 1], .syscall DSOS_CALL_MQWRITE [0, 1000, 3, 0]] k ∧
    Run (withHistory act (watch 0)) (fun _ a => Ordinary a) (k, [])
      [.syscall DSOS_CALL_MQWRITE [0, 1100, 5, 0], .syscall DSOS_CALL_MQREAD [0, 2000, 32, 3000],
        .syscall DSOS_CALL_MQWRITE [0, 1200, 7, 0]] (k', seen) ∧
    ((arrivals seen).map Prod.fst = [1, 0] ∧ (departures seen).map Prod.fst = [0]) ∧
    ∃ ms ms', Waiting k 0 ms ∧ Waiting k' 0 ms' ∧
      ms ++ arrivals seen = departures seen ++ ms' ∧ (ms'.map Prod.fst).Nodup ∧
      ∀ q' others, q' ≠ 0 → Waiting k' q' others →
        (ms'.map Prod.fst).Disjoint (others.map Prod.fst) := by
  obtain ⟨k₀, k, hs, h, htest⟩ := exists_run_from_start (fun _ a => Ordinary a)
    (fun _ a => decide (Ordinary a))
    [.syscall DSOS_CALL_MQOPEN [1, 1, 1], .syscall DSOS_CALL_MQWRITE [0, 1000, 3, 0]]
    (fun k => (exec (withHistory act (watch 0)) (fun _ a => decide (Ordinary a)) (k, [])
      [.syscall DSOS_CALL_MQWRITE [0, 1100, 5, 0], .syscall DSOS_CALL_MQREAD [0, 2000, 32, 3000],
        .syscall DSOS_CALL_MQWRITE [0, 1200, 7, 0]]).any fun s =>
          (arrivals s.2).map Prod.fst = [1, 0] ∧ (departures s.2).map Prod.fst = [0])
    (fun _ _ hcheck => of_decide_eq_true hcheck) (by decide +kernel)
  obtain ⟨⟨k', seen⟩, h', hseen⟩ := exists_run (fun _ a => Ordinary a)
    (fun _ _ hcheck => of_decide_eq_true hcheck) htest
  exact ⟨k₀, k, k', seen, hs, h, h', of_decide_eq_true hseen, messages_conserved hs h h'⟩

/-! ## Messages that are lost -/

/-- The blocks of the messages that a read takes without room for them. -/
def shortReads (k : Kernel) (a : Action) (k' : Kernel) : List Nat :=
  match a with
  | .syscall _ args =>
    (List.range (numItems .queue).toNat).flatMap fun q =>
      (departures (watch q k a k')).filterMap fun x =>
        if toInt (args.getD 2 0) < x.2.textLength then some x.1 else none
  | _ => []

theorem mem_shortReads : m ∈ shortReads k (.syscall num args) k' ↔
    ∃ q : Nat, (q : Int) < numItems .queue ∧ ∃ x ∈ departures (watch q k (.syscall num args) k'),
      toInt (args.getD 2 0) < x.2.textLength ∧ x.1 = m := by
  unfold shortReads
  simp only [List.mem_flatMap, List.mem_range, List.mem_filterMap, Option.ite_none_right_eq_some,
    Option.some.injEq]
  exact exists_congr fun q => and_congr_left fun _ => Int.lt_toNat

theorem shortReads_nil (h : ∀ q, departures (watch q k a k') = []) : shortReads k a k' = [] := by
  cases a with
  | syscall num args =>
    refine List.eq_nil_iff_forall_not_mem.mpr fun m hm => ?_
    obtain ⟨q, -, x, hx, -⟩ := mem_shortReads.mp hm
    rw [h q] at hx
    cases hx
  | _ => rfl

theorem mem_shortReads_taken {i : Int} (hs : Strung Regular Retained k L) (hh : Housed k L)
    (h : Taken (toInt (args.getD 2 0)) i k L k' L') :
    m ∈ shortReads k (.syscall DSOS_CALL_MQREAD args) k' ↔
      ∃ q, L (.messages q) = ⟨.message, m⟩ :: L' (.messages q) ∧
        toInt (args.getD 2 0) < (k.message m).textLength := by
  rw [mem_shortReads]
  constructor
  · rintro ⟨q, -, x, hx, hshort, rfl⟩
    rcases h.first q with hsame | ⟨-, y, hleft, -⟩
    · rw [watch_same hs h.strung hsame] at hx
      cases hx
    · rw [watch_left hs h.strung hleft] at hx
      obtain rfl : x = (y.idx, k.message y.idx) := List.mem_singleton.mp hx
      have hy : y ∈ L (.messages q) := by
        rw [hleft]
        exact List.mem_cons_self
      refine ⟨q, ?_, hshort⟩
      rw [hleft]
      exact congrArg (· :: _) (hs.node_eq (regular_messages q) hy)
  · rintro ⟨q, hleft, hshort⟩
    have hbound : (q : Int) < numItems .queue := by
      have hlt := (hh q (by rw [hleft]; exact List.cons_ne_nil _ _)).2.1
      rwa [(hs.pooled .queue).sizeMax] at hlt
    refine ⟨q, hbound, (m, k.message m), ?_, hshort, rfl⟩
    rw [watch_left hs h.strung hleft]
    exact List.mem_singleton_self _

/-- The blocks of messages in use are those in a queue and those `seen` to be lost. -/
structure Traced (k : Kernel) (L : HeadAddr → List Node) (seen : List Nat) : Prop where
  used : ∀ m, Allocated k .message m → (∃ q, ⟨.message, m⟩ ∈ L (.messages q)) ∨ m ∈ seen
  lost : ∀ m ∈ seen, Allocated k .message m ∧ ∀ q, ⟨.message, m⟩ ∉ L (.messages q)

theorem traced_kept {seen : List Nat} (ht : Traced k L seen) (hsame : SameMessages k k')
    (hlists : ∀ q, L' (.messages q) = L (.messages q)) : Traced k' L' seen := by
  constructor
  · intro m hm
    simp only [hlists]
    exact ht.used m ((allocated_of_pool hsame.2).mp hm)
  · intro m hm
    simp only [hlists]
    exact ⟨(allocated_of_pool hsame.2).mpr (ht.lost m hm).1, (ht.lost m hm).2⟩

theorem traced_came {seen : List Nat} (ht : Traced k L seen) (h : CameIn k L q m k' L') :
    Traced k' L' seen := by
  have hmem : ∀ q' x, x ∈ L' (.messages q') ↔
      x ∈ L (.messages q') ∨ (q' = q ∧ x = ⟨.message, m⟩) := by
    intro q' x
    by_cases he : q' = q
    · rw [he, h.came, List.mem_append, List.mem_singleton, and_iff_right rfl]
    · rw [h.others q' he, or_iff_left fun hx => he hx.1]
  constructor
  · intro i hi
    rcases (h.allocated i).mp hi with rfl | hi
    · exact .inl ⟨q, (hmem _ _).mpr (.inr ⟨rfl, rfl⟩)⟩
    · exact (ht.used i hi).imp_left fun ⟨q', hx⟩ => ⟨q', (hmem _ _).mpr (.inl hx)⟩
  · intro i hi
    obtain ⟨ha, hout⟩ := ht.lost i hi
    refine ⟨(h.allocated i).mpr (.inr ha), fun q' hx => ?_⟩
    rcases (hmem _ _).mp hx with hx | ⟨-, hx⟩
    · exact hout q' hx
    · exact h.fresh ((Node.mk.inj hx).2 ▸ ha)

theorem traced_taken {seen : List Nat} (hs : Strung Regular Retained k L) (hh : Housed k L)
    (ht : Traced k L seen) (h : Taken (toInt (args.getD 2 0)) 0 k L k' L') :
    Traced k' L' (seen ++ shortReads k (.syscall DSOS_CALL_MQREAD args) k') := by
  constructor
  · intro m hm
    rw [List.mem_append, mem_shortReads_taken hs hh h]
    rcases ht.used m (h.live m hm) with ⟨q, hx⟩ | hseen
    · rcases h.first q with hsame | ⟨-, y, hleft, hshort⟩
      · exact .inl ⟨q, hsame ▸ hx⟩
      · rw [hleft] at hx
        rcases List.mem_cons.mp hx with rfl | hx
        · exact .inr (.inr ⟨q, hleft, hshort.mp hm⟩)
        · exact .inl ⟨q, hx⟩
    · exact .inr (.inl hseen)
  · intro m hm
    rw [List.mem_append, mem_shortReads_taken hs hh h] at hm
    rcases hm with hseen | ⟨q, hleft, hshort⟩
    · obtain ⟨ha, hout⟩ := ht.lost m hseen
      exact ⟨h.kept m ha hout, fun q' hx => hout q' (h.subset hx)⟩
    · have hx : ⟨.message, m⟩ ∈ L (.messages q) := by
        rw [hleft]
        exact List.mem_cons_self
      have hn := hs.nodup (regular_messages q)
      rw [hleft] at hn
      refine ⟨?_, fun q' hx' => ?_⟩
      · rcases h.first q with hsame | ⟨-, y, hleft', hiff⟩
        · rw [hsame] at hleft
          exact absurd hleft.symm (List.cons_ne_self _ _)
        · obtain rfl := (List.cons.inj (hleft.symm.trans hleft')).1
          exact hiff.mpr hshort
      · have he := hs.apart (regular_messages q') (regular_messages q) (h.subset hx') hx
        rw [he] at hx'
        exact (List.nodup_cons.mp hn).1 hx'

theorem delivery_traced {seen : List Nat} (h : Delivery k L k' L' a)
    (hs : Strung Regular Retained k L) (hh : Housed k L) (ht : Traced k L seen) :
    Traced k' L' (seen ++ shortReads k a k') := by
  cases h with
  | kept hsame h =>
    rw [shortReads_nil fun q => by rw [watch_same hs h.1 (h.2.1 q)]; rfl, List.append_nil]
    exact traced_kept ht hsame h.2.1
  | @came args q m h =>
    have hnone : ∀ q', departures (watch q' k (.syscall DSOS_CALL_MQWRITE args) k') = [] := by
      intro q'
      by_cases he : q' = q
      · rw [he, watch_came hs h.strung h.came]
        rfl
      · rw [watch_same hs h.strung (h.others q' he)]
        rfl
    rw [shortReads_nil hnone, List.append_nil]
    exact traced_came ht h
  | taken h => exact traced_taken hs hh ht h

/-- In every reachable state the blocks of messages in use are those that wait in a queue and
those that a read took without room for them. These are lost: they stay in use and out of every
queue. -/
theorem lost_to_short_reads {as : List Action} {seen : List Nat} (hs : Started mem k₀)
    (h : Run (withHistory act shortReads) (fun _ a => Ordinary a) (k₀, []) as (k, seen)) :
    (∀ m, Allocated k .message m ↔
      (∃ q ms, Waiting k q ms ∧ m ∈ ms.map Prod.fst) ∨ m ∈ seen) ∧
    ∀ m ∈ seen, ∀ q ms, Waiting k q ms → m ∉ ms.map Prod.fst := by
  have hb := start_booted hs
  have hinv : ∃ L, Coherent k L ∧ Housed k L ∧ Traced k L seen := by
    refine run_invariant (I := fun s => ∃ L, Coherent s.1 L ∧ Housed s.1 L ∧ Traced s.1 L s.2) ?_
      ⟨noNodes, booted_coherent hb, fun q hq => absurd rfl hq, ?_, ?_⟩ h
    · rintro s a t ⟨L, hc, hh, ht⟩ ha hact
      obtain ⟨hact, hseen⟩ := withHistory_ok.mp hact
      obtain ⟨L', hc', hd⟩ := delivery_act hc hh ha hact
      rw [hseen]
      exact ⟨L', hc', hd.housed hh, delivery_traced hd hc.tidy.strung hh ht⟩
    · intro m hm
      exact absurd ((hb.allocated _ _).mp hm).1 (by decide)
    · intro m hm
      cases hm
  obtain ⟨L, hc, hh, ht⟩ := hinv
  have hstrung := hc.tidy.strung
  have hblock : ∀ {m q ms}, Waiting k q ms →
      (m ∈ ms.map Prod.fst ↔ ⟨.message, m⟩ ∈ L (.messages q)) := by
    intro m q ms hms
    rw [(waiting_iff hstrung).mp hms, blocks_eq]
    exact mem_map_idx hstrung (regular_messages q)
  constructor
  · intro m
    constructor
    · intro hm
      refine (ht.used m hm).imp_left fun ⟨q, hx⟩ => ?_
      have hms : Waiting k q (contents k L q) := (waiting_iff hstrung).mpr rfl
      exact ⟨q, _, hms, (hblock hms).mpr hx⟩
    · rintro (⟨q, ms, hms, hm⟩ | hm)
      · exact hstrung.live _ _ (regular_messages q) ((hblock hms).mp hm)
      · exact (ht.lost m hm).1
  · intro m hm q ms hms
    rw [hblock hms]
    exact (ht.lost m hm).2 q

/-- A buffer of two bytes is too short for a message of three. -/
theorem lost_to_short_reads_one : ∃ k₀ k seen, Started (fun _ => 0) k₀ ∧
    Run (withHistory act shortReads) (fun _ a => Ordinary a) (k₀, [])
      [.syscall DSOS_CALL_MQOPEN [1, 1, 1], .syscall DSOS_CALL_MQWRITE [0, 1000, 3, 0],
        .syscall DSOS_CALL_MQWRITE [0, 1100, 5, 0], .syscall DSOS_CALL_MQREAD [0, 2000, 2, 3000]]
      (k, seen) ∧
    seen = [0] ∧
    (∀ m, Allocated k .message m ↔
      (∃ q ms, Waiting k q ms ∧ m ∈ ms.map Prod.fst) ∨ m ∈ seen) ∧
    ∀ m ∈ seen, ∀ q ms, Waiting k q ms → m ∉ ms.map Prod.fst := by
  obtain ⟨k₀, hs, htest⟩ := exists_of_any (x := disastrOSStart (zeroed fun _ => 0))
    (p := fun k₀ => (exec (withHistory act shortReads) (fun _ a => decide (Ordinary a)) (k₀, [])
      [.syscall DSOS_CALL_MQOPEN [1, 1, 1], .syscall DSOS_CALL_MQWRITE [0, 1000, 3, 0],
        .syscall DSOS_CALL_MQWRITE [0, 1100, 5, 0],
        .syscall DSOS_CALL_MQREAD [0, 2000, 2, 3000]]).any fun s => s.2 = [0])
    (by decide +kernel)
  obtain ⟨⟨k, seen⟩, h, hseen⟩ := exists_run (fun _ a => Ordinary a)
    (fun _ _ hcheck => of_decide_eq_true hcheck) htest
  exact ⟨k₀, k, seen, hs, h, of_decide_eq_true hseen, lost_to_short_reads hs h⟩

end DisastrOS.MessageQueue.Conservation
