import DisastrOS.Process.SystemRuns

/-!
# Where the processes are

In every state of every run each process in use is running or a node of exactly one of
the three process lists, and these lists are well formed.
-/
namespace DisastrOS.Process.Placement

open DisastrOS.Machine
open DisastrOS.Machine.Kernel
open DisastrOS.Machine.Runs
open DisastrOS.Lists.Sequences
open DisastrOS.Pool.Blocks
open DisastrOS.Process.Table
open DisastrOS.Process.View
open DisastrOS.Process.Coherence
open DisastrOS.Process.Transitions
open DisastrOS.Process.SystemRuns
open DisastrOS.Library.GuardedRun

/-- The three process lists hold the processes `ready`, `waiting` and `zombie`; a process
in use has exactly one place among them and the processor, a free block has none. -/
structure Partition (k : Kernel) (ready waiting zombie : List Nat) : Prop where
  readyList : Holds k.lists .readyList (ready.map (Node.mk .pcb))
  waitingList : Holds k.lists .waitingList (waiting.map (Node.mk .pcb))
  zombieList : Holds k.lists .zombieList (zombie.map (Node.mk .pcb))
  once : ∀ p, Allocated k .pcb p →
    k.running.toList.count p + ready.count p + waiting.count p + zombie.count p = 1
  free : ∀ p, ¬ Allocated k .pcb p →
    k.running ≠ some p ∧ p ∉ ready ∧ p ∉ waiting ∧ p ∉ zombie

theorem partition_of_coherent {k : Kernel} {L : HeadAddr → List Node} (hc : Coherent k L) :
    Partition k (view k L).ready (view k L).waiting (view k L).zombie := by
  have hs := hc.tidy.strung
  have hplaced := hc.sound.placed
  refine ⟨hs.holds_idx (l := .readyList) regular_pcb, hs.holds_idx (l := .waitingList) regular_pcb,
    hs.holds_idx (l := .zombieList) regular_pcb, fun p ha => ?_, fun p hfree => ?_⟩
  · have hmem : p ∈ (view k L).places := (hplaced.mem p).mpr ha
    have hpos := List.count_pos_iff.mpr hmem
    have hle := hplaced.count_le p
    rw [count_places] at hpos
    exact Nat.le_antisymm hle hpos
  · have hout : p ∉ (view k L).places := fun hm => hfree ((hplaced.mem p).mp hm)
    simp only [ProcessTable.places, List.mem_append, not_or, Option.mem_toList] at hout
    obtain ⟨⟨⟨hrun, hr⟩, hw⟩, hz⟩ := hout
    exact ⟨hrun, hr, hw, hz⟩

/-- The processes are partitioned in every state that actions can reach. -/
theorem placement_partition {mem : Int → UInt8} {k₀ k : Kernel} {as : List Action}
    (hstart : Started mem k₀) (hrun : Run act (fun _ a => Ordinary a) k₀ as k) :
    ∃ ready waiting zombie, Partition k ready waiting zombie := by
  obtain ⟨L, hc, _⟩ := run_coherent (I := fun _ _ => True) (fun _ _ ha => ha)
    (fun _ _ _ => trivial) (fun _ _ _ _ _ _ _ _ _ _ _ => trivial) hstart hrun
  exact ⟨_, _, _, partition_of_coherent hc⟩

/-- A child blocks on a semaphore, another one sleeps, and init waits for them. -/
theorem placement_partition_blocked_sleeping_waiting :
    ∃ k₀ k, Started (fun _ => 0) k₀ ∧
      Run act (fun _ a => Ordinary a) k₀
        [.syscall DSOS_CALL_SPAWN [0, 0], .syscall DSOS_CALL_SPAWN [0, 0],
          .syscall DSOS_CALL_SPAWN [0, 0], .syscall DSOS_CALL_WAIT [0, 0],
          .syscall DSOS_CALL_SEMOPEN [1, 1, 0], .syscall DSOS_CALL_SEMWAIT [0],
          .syscall DSOS_CALL_SLEEP [5]] k ∧
      k.running = some 3 ∧ (k.head .waitingList).size = 3 ∧
      ∃ ready waiting zombie, Partition k ready waiting zombie := by
  obtain ⟨k₀, k, hstart, hrun, htest⟩ := exists_run_from_start (fun _ a => Ordinary a)
    (fun _ a => decide (Ordinary a))
    [.syscall DSOS_CALL_SPAWN [0, 0], .syscall DSOS_CALL_SPAWN [0, 0],
      .syscall DSOS_CALL_SPAWN [0, 0], .syscall DSOS_CALL_WAIT [0, 0],
      .syscall DSOS_CALL_SEMOPEN [1, 1, 0], .syscall DSOS_CALL_SEMWAIT [0],
      .syscall DSOS_CALL_SLEEP [5]]
    (fun k => k.running = some 3 ∧ (k.head .waitingList).size = 3)
    (fun _ _ h => of_decide_eq_true h) (by decide +kernel)
  obtain ⟨hr, hsize⟩ := of_decide_eq_true htest
  exact ⟨k₀, k, hstart, hrun, hr, hsize, placement_partition hstart hrun⟩

end DisastrOS.Process.Placement
