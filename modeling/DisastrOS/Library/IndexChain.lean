import Mathlib.Data.List.Nodup
import Mathlib.Logic.Function.Basic

/-!
# Chains threaded through an array of successors

A free list kept inside an index array is a chain: start at an index, follow the
successor stored there, stop at a sentinel.
-/
namespace DisastrOS.Library.IndexChain

variable {α : Type} {next next' : α → α} {stop : α}

/-- Following `next` from `start` visits exactly `xs` and ends at `stop`. -/
def Chain (next : α → α) (stop : α) : α → List α → Prop
  | start, [] => start = stop
  | start, x :: xs => start = x ∧ x ≠ stop ∧ Chain next stop (next x) xs

/-- A chain depends on the successors of its own elements only. -/
theorem chain_congr {start : α} {xs : List α} (h : ∀ x ∈ xs, next' x = next x)
    (hc : Chain next stop start xs) : Chain next' stop start xs := by
  induction xs generalizing start with
  | nil => exact hc
  | cons x xs ih =>
    obtain ⟨rfl, hx, hrest⟩ := hc
    refine ⟨rfl, hx, ih (fun y hy => h y (List.mem_cons_of_mem _ hy)) ?_⟩
    rw [h start List.mem_cons_self]
    exact hrest

theorem chain_eq_nil_iff {start : α} {xs : List α} (hc : Chain next stop start xs) :
    start = stop ↔ xs = [] := by
  cases xs with
  | nil => exact ⟨fun _ => rfl, fun _ => hc⟩
  | cons x xs =>
    obtain ⟨rfl, hx, _⟩ := hc
    exact ⟨fun h => absurd h hx, fun h => by cases h⟩

/-- A chain that does not start at the sentinel has its start as first element. -/
theorem chain_cons_of_ne {start : α} {xs : List α} (hc : Chain next stop start xs)
    (hne : start ≠ stop) : ∃ rest, xs = start :: rest ∧ Chain next stop (next start) rest := by
  cases xs with
  | nil => exact absurd hc hne
  | cons x rest =>
    obtain ⟨rfl, _, hrest⟩ := hc
    exact ⟨rest, rfl, hrest⟩

section Update

variable [DecidableEq α]

/-- Unlinking the first element: its slot may be overwritten with anything. -/
theorem chain_pop {start v : α} {xs : List α} (hn : (start :: xs).Nodup)
    (hc : Chain next stop start (start :: xs)) :
    Chain (Function.update next start v) stop (next start) xs := by
  refine chain_congr (fun y hy => ?_) hc.2.2
  have hne : y ≠ start := fun he => (List.nodup_cons.mp hn).1 (he ▸ hy)
  exact Function.update_of_ne hne _ _

/-- Linking a fresh element in front. -/
theorem chain_push {start x : α} {xs : List α} (hx : x ∉ xs) (hne : x ≠ stop)
    (hc : Chain next stop start xs) :
    Chain (Function.update next x start) stop x (x :: xs) := by
  refine ⟨rfl, hne, ?_⟩
  rw [Function.update_self]
  refine chain_congr (fun y hy => ?_) hc
  have hyx : y ≠ x := fun he => hx (he ▸ hy)
  exact Function.update_of_ne hyx _ _

end Update

end DisastrOS.Library.IndexChain
