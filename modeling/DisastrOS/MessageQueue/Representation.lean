import DisastrOS.Lists.Boot
import DisastrOS.Machine.Runs
import DisastrOS.MessageQueue.Lifecycle

/-!
# The representation invariant of the message queues

`mqOpen` inserts the queues of a new message queue behind the last *message queue*.
While the list of message queues is empty this is harmless, and all five calls keep
the tables. With another message queue present the lists get mixed up.
-/
namespace DisastrOS.MessageQueue.Representation

open DisastrOS.Machine
open DisastrOS.Machine.Kernel
open DisastrOS.Machine.Runs
open DisastrOS.Lists.Boot
open DisastrOS.Lists.Sequences
open DisastrOS.Lists.Wiring
open DisastrOS.Pool.Blocks
open DisastrOS.Pool.BlockContract
open DisastrOS.Library.GuardedRun
open DisastrOS.Library.LinkedSequence
open DisastrOS.Library.Outcome
open DisastrOS.MessageQueue.Calls
open DisastrOS.MessageQueue.Classes
open DisastrOS.MessageQueue.TableInvariant
open DisastrOS.MessageQueue.Lifecycle

/-- The message queues `mqs` with the queues `queuesOf` are what the lists hold. -/
structure Represented (k : Kernel) (mqs : List Nat) (queuesOf : Nat → List Nat) : Prop where
  list : Holds k.lists .messageQueuesList (mqs.map (Node.mk .messageQueue))
  nodup : mqs.Nodup
  id_nonneg : ∀ mq ∈ mqs, 0 ≤ (k.messageQueue mq).id
  ids : (mqs.map fun mq => (k.messageQueue mq).id).Nodup
  queues : ∀ mq ∈ mqs, Holds k.lists (.queues mq) ((queuesOf mq).map (Node.mk .queue))
  classes : ∀ mq ∈ mqs, ((queuesOf mq).map fun q => (k.queue q).priority).Perm
    (ascending 0 ((k.messageQueue mq).priority + 1).toNat)
  apart : ∀ mq ∈ mqs, ∀ mq' ∈ mqs, ∀ q ∈ queuesOf mq, q ∈ queuesOf mq' → mq = mq'
  outside : ∀ mq ∈ mqs, ∀ q ∈ queuesOf mq, Node.mk .queue q ∉ mqs.map (Node.mk .messageQueue)

def RepInvariant (k : Kernel) : Prop := ∃ mqs queuesOf, Represented k mqs queuesOf

/-- The five message queue calls, and switches between processes. -/
def MqCall : Action → Prop
  | .syscall num _ => num = DSOS_CALL_MQOPEN ∨ num = DSOS_CALL_MQCLOSE ∨
      num = DSOS_CALL_MQREAD ∨ num = DSOS_CALL_MQWRITE ∨ num = DSOS_CALL_MQUNLINK
  | .dispatch _ => True
  | _ => False

instance : DecidablePred MqCall
  | .syscall num _ => inferInstanceAs (Decidable (num = _ ∨ num = _ ∨ num = _ ∨ num = _ ∨ num = _))
  | .dispatch _ => inferInstanceAs (Decidable True)
  | .timer => inferInstanceAs (Decidable False)
  | .restart => inferInstanceAs (Decidable False)
  | .store _ _ => inferInstanceAs (Decidable False)

/-- `mqOpen` is about to insert a queue for a new message queue while another one is
in the list. -/
def CreatesBehindAnother (k : Kernel) : Action → Prop
  | .syscall num args => num = DSOS_CALL_MQOPEN ∧ ∃ r, k.running = some r ∧
      Creates (k.setCall r num args) r ∧ (k.getBlock .messageQueue).isSome ∧
      (k.getBlock .queue).isSome ∧ (k.head .messageQueuesList).first ≠ none
  | _ => False

theorem repInvariant_of_tables {k : Kernel} {L : HeadAddr → List Node} (h : Tables k L) :
    RepInvariant k := by
  have hmem : ∀ mq, mq ∈ (L .messageQueuesList).map Node.idx → Listed L mq := fun mq hm =>
    mem_idx (l := .messageQueuesList) h.wired trivial hm
  have hqueue : ∀ mq q, q ∈ (L (.queues mq)).map Node.idx → ⟨.queue, q⟩ ∈ L (.queues mq) :=
    fun mq q hq => mem_idx (l := .queues mq) h.wired trivial hq
  have hnodup := nodup_idx (l := .messageQueuesList) h.wired trivial
  refine ⟨(L .messageQueuesList).map Node.idx, fun mq => (L (.queues mq)).map Node.idx,
    holds_idx (l := .messageQueuesList) h.wired trivial, hnodup,
    fun mq hm => h.id_nonneg mq (hmem mq hm), ?_,
    fun mq _ => holds_idx (l := .queues mq) h.wired trivial, fun mq hm => ?_, ?_, ?_⟩
  · exact hnodup.map_on fun mq hm mq' hm' he => h.id_inj mq mq' (hmem mq hm) (hmem mq' hm') he
  · rw [List.map_map]
    exact h.classes mq (hmem mq hm)
  · intro mq _ mq' _ q hq hq'
    exact (queue_owner h (hqueue mq q hq) (hqueue mq' q hq')).symm
  · intro mq _ q _ hm
    obtain ⟨_, _, he⟩ := List.mem_map.mp hm
    cases he

/-- One message queue call or process switch keeps the tables, unless it creates a
message queue behind another one. -/
theorem tables_step {k k' : Kernel} {L : HeadAddr → List Node} {a : Action} (h : Tables k L)
    (ha : MqCall a) (hgood : ¬ CreatesBehindAnother k a) (hstep : k.act a = .ok k') :
    ∃ L', Tables k' L' := by
  cases a with
  | dispatch p =>
    cases hstep
    exact ⟨L, tables_dispatch h⟩
  | timer => cases ha
  | restart => cases ha
  | store addr v => cases ha
  | syscall num args =>
    rcases ha with rfl | rfl | rfl | rfl | rfl
    · obtain ⟨r, hr, hcall⟩ := syscall_ok rfl (by decide) (by decide) hstep
      have hkeep := mqOpen_tables (tables_setCall h) hcall fun r' hr' hc hb hq => by
        by_contra hne
        have hpool : (k.setCall r DSOS_CALL_MQOPEN args).pool = k.pool := rfl
        rw [getBlock_isSome_congr hpool] at hb hq
        refine hgood ⟨rfl, r', hr', ?_, hb, hq, hne⟩
        have he : r' = r := Option.some.inj (hr'.symm.trans hr)
        subst he
        exact hc
      rcases hkeep with ⟨L', ht, _⟩ | ⟨_, L', ht, _⟩
      · exact ⟨L', ht⟩
      · exact ⟨L', ht⟩
    · obtain ⟨r, hr, hcall⟩ := syscall_ok rfl (by decide) (by decide) hstep
      obtain ⟨L', ht, _⟩ := mqClose_tables (tables_setCall h) hcall
      exact ⟨L', ht⟩
    · obtain ⟨r, hr, hcall⟩ := syscall_ok rfl (by decide) (by decide) hstep
      obtain ⟨r', _, ⟨v, rfl⟩ | ⟨d, mq, hb, _, hread⟩⟩ := mqRead_cases hcall
      · exact ⟨L, tables_setRetvalue (tables_setCall h)⟩
      · exact readClasses_tables (tables_setCall h) (boundTo_listed (tables_setCall h) hb) hread
    · obtain ⟨r, hr, hcall⟩ := syscall_ok rfl (by decide) (by decide) hstep
      obtain ⟨r', _, ⟨v, rfl⟩ | ⟨mq, q, m, hw⟩⟩ := mqWrite_cases hcall
      · exact ⟨L, tables_setRetvalue (tables_setCall h)⟩
      · exact ⟨_, (wrote_tables (tables_setCall h) hw).2.2.2.2.2.2⟩
    · obtain ⟨r, hr, hcall⟩ := syscall_ok rfl (by decide) (by decide) hstep
      rcases mqUnlink_tables (tables_setCall h) hcall with ⟨r', v, rfl⟩ | ⟨mq, _, _, _, ht, _⟩
      · exact ⟨L, tables_setRetvalue (tables_setCall h)⟩
      · exact ⟨_, ht⟩

/-- After the start there are no message queues. -/
theorem tables_start {mem : Int → UInt8} {k : Kernel} (h : Started mem k) :
    Tables k fun _ => [] := by
  have hb := start_booted h
  exact tables_of_idle ⟨hb.wired, rfl, fun _ => rfl, fun _ => rfl, fun _ hne => absurd rfl hne,
    fun _ => rfl⟩

theorem tables_run {mem : Int → UInt8} {k₀ k : Kernel} {as : List Action}
    (hstart : Started mem k₀)
    (hrun : Run act (fun k a => MqCall a ∧ ¬ CreatesBehindAnother k a) k₀ as k) :
    ∃ L, Tables k L := by
  refine run_invariant (I := fun k => ∃ L, Tables k L) ?_ ⟨_, tables_start hstart⟩ hrun
  rintro s a t ⟨L, ht⟩ ⟨ha, hgood⟩ hstep
  exact tables_step ht ha hgood hstep

/-- A run check that allows no second creation. -/
def alone (k : Kernel) : Action → Bool
  | .syscall num args => MqCall (.syscall num args) ∧
      (num = DSOS_CALL_MQOPEN → (k.head .messageQueuesList).first = none)
  | _ => false

theorem alone_safe (k : Kernel) (a : Action) (h : alone k a = true) :
    MqCall a ∧ ¬ CreatesBehindAnother k a := by
  cases a with
  | syscall num args =>
    obtain ⟨hcall, hempty⟩ := of_decide_eq_true h
    exact ⟨hcall, fun ⟨hnum, _, _, _, _, _, hne⟩ => hne (hempty hnum)⟩
  | timer => cases h
  | restart => cases h
  | store addr v => cases h
  | dispatch p => cases h

/-- The state in which a first message queue has been created. -/
theorem exists_created (args : List Int) (test : Kernel → Bool)
    (h : (startExec alone [.syscall DSOS_CALL_MQOPEN args]).any (fun k =>
      (k.head .messageQueuesList).first = some ⟨.messageQueue, 0⟩ ∧
        (k.messageQueue 0).numMessages = 0 ∧ test k = true) = true) :
    ∃ k L, Tables k L ∧ Listed L 0 ∧ (k.messageQueue 0).numMessages = 0 ∧ test k = true := by
  obtain ⟨k₀, k, hstart, hrun, htest⟩ := exists_run_from_start _ alone _ _ alone_safe h
  obtain ⟨hfirst, hnum, htest⟩ := of_decide_eq_true htest
  obtain ⟨L, ht⟩ := tables_run hstart hrun
  exact ⟨k, L, ht, List.mem_of_head?
    ((first_eq (l := .messageQueuesList) ht.wired trivial).symm.trans hfirst), hnum, htest⟩

/-- In every run that never creates a message queue behind another one, every state
satisfies the representation invariant. -/
theorem representation_invariant {mem : Int → UInt8} {k₀ k : Kernel} {as : List Action}
    (hstart : Started mem k₀)
    (hrun : Run act (fun k a => MqCall a ∧ ¬ CreatesBehindAnother k a) k₀ as k) :
    RepInvariant k := by
  obtain ⟨L, ht⟩ := tables_run hstart hrun
  exact repInvariant_of_tables ht

theorem representation_invariant_after_unlink :
    ∃ k₀ k, Started (fun _ => 0) k₀ ∧
      Run act (fun k a => MqCall a ∧ ¬ CreatesBehindAnother k a) k₀
        [.syscall DSOS_CALL_MQOPEN [1, 1, 2], .syscall DSOS_CALL_MQWRITE [0, 1000, 3, 1],
          .syscall DSOS_CALL_MQREAD [0, 2000, 32, 3000], .syscall DSOS_CALL_MQCLOSE [0],
          .syscall DSOS_CALL_MQUNLINK [1], .syscall DSOS_CALL_MQOPEN [2, 1, 0]] k ∧
      (k.head .messageQueuesList).size = 1 ∧ RepInvariant k := by
  obtain ⟨k₀, k, hstart, hrun, htest⟩ := exists_run_from_start
    (fun k a => MqCall a ∧ ¬ CreatesBehindAnother k a) alone
    [.syscall DSOS_CALL_MQOPEN [1, 1, 2], .syscall DSOS_CALL_MQWRITE [0, 1000, 3, 1],
      .syscall DSOS_CALL_MQREAD [0, 2000, 32, 3000], .syscall DSOS_CALL_MQCLOSE [0],
      .syscall DSOS_CALL_MQUNLINK [1], .syscall DSOS_CALL_MQOPEN [2, 1, 0]]
    (fun k => (k.head .messageQueuesList).size = 1) alone_safe (by decide +kernel)
  exact ⟨k₀, k, hstart, hrun, of_decide_eq_true htest, representation_invariant hstart hrun⟩

/-- Two calls of `mqOpen` with `DSOS_CREATE` put a queue into the list of message
queues. -/
theorem second_creation_breaks_representation :
    ∃ k₀ k, Started (fun _ => 0) k₀ ∧
      Run act (fun _ a => MqCall a) k₀
        [.syscall DSOS_CALL_MQOPEN [1, 1, 0], .syscall DSOS_CALL_MQOPEN [2, 1, 0]] k ∧
      ¬ RepInvariant k := by
  obtain ⟨k₀, k, hstart, hrun, htest⟩ := exists_run_from_start (fun _ a => MqCall a)
    (fun _ a => decide (MqCall a))
    [.syscall DSOS_CALL_MQOPEN [1, 1, 0], .syscall DSOS_CALL_MQOPEN [2, 1, 0]]
    (fun k => (follow k.lists.item 2 (k.head .messageQueuesList).first).map Node.kind
      = some .queue)
    (fun _ _ h => of_decide_eq_true h) (by decide +kernel)
  refine ⟨k₀, k, hstart, hrun, ?_⟩
  rintro ⟨mqs, queuesOf, hrep⟩
  have hnode := represents_follow hrep.list 2
  have hkind : (follow k.lists.item 2 (k.head .messageQueuesList).first).map Node.kind =
      some .queue := of_decide_eq_true htest
  change follow k.lists.item 2 (k.head .messageQueuesList).first = _ at hnode
  rw [hnode, List.getElem?_map] at hkind
  cases hget : mqs[2]? with
  | none =>
    rw [hget] at hkind
    cases hkind
  | some mq =>
    rw [hget] at hkind
    cases hkind

end DisastrOS.MessageQueue.Representation
