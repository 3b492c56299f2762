import DisastrOS.Process.SystemRuns

/-!
# Handing children over to init

The loop of `internal_exit` takes the first child until there is none. Each pass shortens
the list of the exiting process, unless that process is init: then the child comes back
at the end of the same list.
-/
namespace DisastrOS.Process.Reparenting

open DisastrOS.Machine
open DisastrOS.Machine.Kernel
open DisastrOS.Machine.Runs
open DisastrOS.Lists.Sequences
open DisastrOS.Lists.Wiring
open DisastrOS.Lists.RegularLists
open DisastrOS.Lists.Boot
open DisastrOS.Process.View
open DisastrOS.Process.Coherence
open DisastrOS.Process.Exit
open DisastrOS.Process.Transitions
open DisastrOS.Process.SystemRuns
open DisastrOS.Library.GuardedRun
open DisastrOS.Library.LinkedSequence
open DisastrOS.Library.Outcome

variable {k k' : Kernel} {L : HeadAddr → List Node} {r i : Nat} {args : List Int}

/-- The state in which `internal_exit` of the process `r` enters the loop. -/
def exiting (k : Kernel) (r : Nat) (args : List Int) : Kernel :=
  (k.setCall r DSOS_CALL_EXIT args).modPcb r fun q =>
    { q with returnValue := toInt (q.syscallArgs 0) }

/-- `r` has no children left, and each of them is now behind the children of `i`. -/
structure HandedOver (k : Kernel) (r i : Nat) (k' : Kernel) : Prop where
  emptied : Holds k'.lists (.children r) []
  handed : ∃ xs ys, Holds k.lists (.children r) xs ∧ Holds k.lists (.children i) ys ∧
    Holds k'.lists (.children i) (ys ++ xs) ∧ (ys ++ xs).Nodup
  others : ∀ q xs, q ≠ r → q ≠ i → Holds k.lists (.children q) xs →
    Holds k'.lists (.children q) xs
  pcbPtr : k'.pcbPtr = k.pcbPtr
  inUse : k'.pool .pcbPtr = k.pool .pcbPtr

/-- The loop of `internal_exit` ends in the state the function goes on with. -/
def LoopEnds (k : Kernel) (r : Nat) (args : List Int) : Prop :=
  ∃ i, k.initPcb = some i ∧ ∃ fuel k', reparentChildren r i fuel (exiting k r args) = .ok k' ∧
    HandedOver (exiting k r args) r i k'

/-- Init exits with children. -/
def InitWithChildren (k : Kernel) (r : Nat) : Prop :=
  k.initPcb = some r ∧ (k.head (.children r)).first ≠ none

/-! ## The loop -/

/-- One pass of the loop: the first child is known, and the loop goes on behind it. -/
theorem reparentChildren_cons {fuel : Nat} {x : Node} {rest : List Node}
    (hs : Strung Regular Retained k L) (hL : L (.children r) = x :: rest) :
    reparentChildren r i (fuel + 1) k = (do
      let child ← deref (k.pcbPtr x.idx)
      reparentChildren r i fuel
        (((k.detach (.children r) x).append (.children i) x).signal child DSOS_SIGHUP)) := by
  have hx : x = ⟨.pcbPtr, x.idx⟩ :=
    hs.node_eq (l := .children r) (regular_children r) (by rw [hL]; exact List.mem_cons_self)
  have hfirst := hs.first_eq (l := .children r) (regular_children r)
  rw [hL, List.head?_cons] at hfirst
  conv_lhs => unfold reparentChildren
  rw [hfirst]
  show (do
    let ptr ← castTo .pcbPtr x
    let child ← deref (k.pcbPtr ptr)
    reparentChildren r i fuel
      (((k.detach (.children r) x).append (.children i) x).signal child DSOS_SIGHUP)) = _
  rw [castTo_eq_ok.mpr hx]
  rfl

/-- Another process than init runs out of children. -/
theorem reparentChildren_total {fuel : Nat} (hs : Strung Regular Retained k L) (hri : r ≠ i)
    (hchild : ∀ x ∈ L (.children r), ∃ c, k.pcbPtr x.idx = some c)
    (hfuel : (L (.children r)).length < fuel) : ∃ k', reparentChildren r i fuel k = .ok k' := by
  induction fuel generalizing k L with
  | zero => omega
  | succ fuel ih =>
    cases hL : L (.children r) with
    | nil =>
      have hfirst := hs.first_eq (l := .children r) (regular_children r)
      rw [hL, List.head?_nil] at hfirst
      unfold reparentChildren
      rw [hfirst]
      exact ⟨k, rfl⟩
    | cons x rest =>
      obtain ⟨child, hc⟩ := hchild x (by rw [hL]; exact List.mem_cons_self)
      rw [reparentChildren_cons hs hL, deref_eq_ok.mpr hc]
      have hw : Woven k
          (((k.detach (.children r) x).append (.children i) x).signal child DSOS_SIGHUP) _ :=
        (handOver_woven hs hL).congr rfl rfl
      have hne : (HeadAddr.children i) ≠ .children r := fun he => hri (HeadAddr.children.inj he).symm
      have hself : Function.update (Function.update L (.children r) rest) (.children i)
          (Function.update L (.children r) rest (.children i) ++ [x]) (.children r) = rest := by
        rw [Function.update_of_ne hne.symm, Function.update_self]
      refine ih hw.strung ?_ ?_
      · intro y hy
        rw [hself] at hy
        exact hchild y (by rw [hL]; exact List.mem_cons_of_mem _ hy)
      · rw [hself]
        rw [hL, List.length_cons] at hfuel
        omega

/-- Init never runs out of children. -/
theorem reparentChildren_self {fuel : Nat} (hs : Strung Regular Retained k L)
    (hne : L (.children r) ≠ []) : reparentChildren r r fuel k ≠ .ok k' := by
  induction fuel generalizing k L with
  | zero => exact nofun
  | succ fuel ih =>
    obtain ⟨x, rest, hL⟩ := List.exists_cons_of_ne_nil hne
    rw [reparentChildren_cons hs hL]
    intro h
    obtain ⟨child, _, h⟩ := bind_eq_ok.mp h
    have hw : Woven k
        (((k.detach (.children r) x).append (.children r) x).signal child DSOS_SIGHUP) _ :=
      (handOver_woven hs hL).congr rfl rfl
    refine ih hw.strung ?_ h
    rw [Function.update_self]
    exact List.append_ne_nil_of_right_ne_nil _ (List.cons_ne_nil _ _)

theorem handedOver_of_adopted {L' : HeadAddr → List Node} (hs : Strung Regular Retained k L)
    (hri : r ≠ i) (h : Adopted k L r i k' L') : HandedOver k r i k' := by
  have hs' := h.woven.strung
  have hholds : ∀ q, Holds k'.lists (.children q) (L' (.children q)) := fun q =>
    hs'.holds (regular_children q)
  have hne : (HeadAddr.children i) ≠ .children r := fun he => hri (HeadAddr.children.inj he).symm
  have hi : L' (.children i) = L (.children i) ++ L (.children r) := by
    rw [h.lists, Function.update_self]
  refine ⟨?_, ⟨L (.children r), L (.children i), hs.holds (regular_children r),
    hs.holds (regular_children i), hi ▸ hholds i, ?_⟩, fun q xs hqr hqi hxs => ?_, ?_, ?_⟩
  · have hr : L' (.children r) = [] := by
      rw [h.lists, Function.update_of_ne hne.symm, Function.update_self]
    rw [← hr]
    exact hholds r
  · rw [← hi]
    exact hs'.nodup (regular_children i)
  · have hq : L' (.children q) = L (.children q) := by
      rw [h.lists, Function.update_of_ne (fun he => hqi (HeadAddr.children.inj he)),
        Function.update_of_ne (fun he => hqr (HeadAddr.children.inj he))]
    have hxs : xs = L (.children q) :=
      represents_unique hxs (hs.holds (regular_children q))
    rw [hxs, ← hq]
    exact hholds q
  · rw [h.rest]
  · rw [h.rest]

/-! ## Exit in reachable states -/

theorem strung_exiting (hc : Coherent k L) : Strung Regular Retained (exiting k r args) L :=
  hc.tidy.strung.congr rfl rfl

/-- Children of `r` are known processes. -/
theorem child_known (hc : Coherent k L) {x : Node} (hx : x ∈ L (.children r)) :
    ∃ c, (exiting k r args).pcbPtr x.idx = some c := by
  obtain ⟨c, he, _⟩ := hc.sound.family.child r (k.pcbPtr x.idx) (List.mem_map_of_mem hx)
  exact ⟨c, he⟩

theorem loopEnds_of_ne (hc : Coherent k L) (hi : k.initPcb = some i) (hri : r ≠ i) :
    LoopEnds k r args := by
  have hs : Strung Regular Retained (exiting k r args) L := strung_exiting hc
  have hlen := hs.length_le (l := .children r) (regular_children r)
  obtain ⟨k', hk'⟩ : ∃ k', reparentChildren r i 1025 (exiting k r args) = .ok k' :=
    reparentChildren_total hs hri (fun x hx => child_known hc hx) (by omega)
  obtain ⟨L', ha⟩ := reparentChildren_ok hs hri hk'
  exact ⟨i, hi, 1025, k', hk', handedOver_of_adopted hs hri ha⟩

theorem loopEnds_of_childless (hc : Coherent k L) (hi : k.initPcb = some r)
    (hfirst : (k.head (.children r)).first = none) : LoopEnds k r args := by
  have hs : Strung Regular Retained (exiting k r args) L := strung_exiting hc
  have hL : L (.children r) = [] := by
    have he := hs.first_eq (l := .children r) (regular_children r)
    exact List.head?_eq_none_iff.mp (he.symm.trans hfirst)
  have hheld := hs.holds (l := .children r) (regular_children r)
  rw [hL] at hheld
  refine ⟨r, hi, 1, exiting k r args, ?_, hheld, ⟨[], [], hheld, hheld, hheld, List.nodup_nil⟩,
    fun _ _ _ _ h => h, rfl, rfl⟩
  unfold reparentChildren
  rw [show ((exiting k r args).head (.children r)).first = none from hfirst]

theorem not_loopEnds (hc : Coherent k L) (h : InitWithChildren k r) : ¬ LoopEnds k r args := by
  rintro ⟨i, hi, fuel, k', hk', -⟩
  obtain rfl : i = r := Option.some.inj (hi.symm.trans h.1)
  have hs : Strung Regular Retained (exiting k i args) L := strung_exiting hc
  refine reparentChildren_self hs (fun hL => h.2 ?_) hk'
  show ((exiting k i args).head (.children i)).first = none
  rw [hs.first_eq (l := .children i) (regular_children i), hL]
  rfl

theorem loopEnds_iff (hc : Coherent k L) : LoopEnds k r args ↔ ¬ InitWithChildren k r := by
  refine ⟨fun h hw => not_loopEnds hc hw h, fun h => ?_⟩
  obtain ⟨i, hi, _⟩ := hc.sound.family.init
  have hi : k.initPcb = some i := hi
  by_cases hri : r = i
  · subst hri
    exact loopEnds_of_childless hc hi (not_not.mp fun hne => h ⟨hi, hne⟩)
  · exact loopEnds_of_ne hc hi hri

/-- In every reachable state the loop of an exit ends as described, unless init exits with
children. -/
theorem exit_loop_ends_iff {mem : Int → UInt8} {k₀ : Kernel} {as : List Action}
    (hs : Started mem k₀) (h : Run act (fun _ a => Ordinary a) k₀ as k) (r : Nat)
    (args : List Int) : LoopEnds k r args ↔ ¬ InitWithChildren k r := by
  obtain ⟨L, hc⟩ := coherent_run hs h
  exact loopEnds_iff hc

/-- A child of init with a child of its own exits. -/
theorem exit_loop_ends_grandchild :
    ∃ k₀ k, Started (fun _ => 0) k₀ ∧
      Run act (fun _ a => Ordinary a) k₀
        [.syscall DSOS_CALL_SPAWN [0, 0], .syscall DSOS_CALL_PREEMPT [],
          .syscall DSOS_CALL_SPAWN [0, 0]] k ∧
      k.running = some 1 ∧ (k.head (.children 1)).size = 1 ∧ LoopEnds k 1 [7] := by
  obtain ⟨k₀, k, hs, h, htest⟩ := exists_run_from_start (fun _ a => Ordinary a)
    (fun _ a => decide (Ordinary a))
    [.syscall DSOS_CALL_SPAWN [0, 0], .syscall DSOS_CALL_PREEMPT [],
      .syscall DSOS_CALL_SPAWN [0, 0]]
    (fun k => k.running = some 1 ∧ (k.head (.children 1)).size = 1 ∧ k.initPcb = some 0)
    (fun _ _ h => of_decide_eq_true h) (by decide +kernel)
  obtain ⟨hr, hsize, hi⟩ := of_decide_eq_true htest
  refine ⟨k₀, k, hs, h, hr, hsize, (exit_loop_ends_iff hs h 1 [7]).mpr fun hw => ?_⟩
  have hne : some 0 = some 1 := hi.symm.trans hw.1
  cases hne

/-- Init spawns a process and exits: no number of passes empties its list of children. -/
theorem init_exit_hangs :
    ∃ k₀ k, Started (fun _ => 0) k₀ ∧
      Run act (fun _ a => Ordinary a) k₀ [.syscall DSOS_CALL_SPAWN [0, 0]] k ∧
      k.running = some 0 ∧ ¬ LoopEnds k 0 [0] := by
  obtain ⟨k₀, k, hs, h, htest⟩ := exists_run_from_start (fun _ a => Ordinary a)
    (fun _ a => decide (Ordinary a)) [.syscall DSOS_CALL_SPAWN [0, 0]]
    (fun k => k.running = some 0 ∧ k.initPcb = some 0 ∧ (k.head (.children 0)).first ≠ none)
    (fun _ _ h => of_decide_eq_true h) (by decide +kernel)
  obtain ⟨hr, hi, hfirst⟩ := of_decide_eq_true htest
  obtain ⟨L, hc⟩ := coherent_run hs h
  exact ⟨k₀, k, hs, h, hr, not_loopEnds hc ⟨hi, hfirst⟩⟩

end DisastrOS.Process.Reparenting
