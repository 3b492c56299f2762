import DisastrOS.Library.GuardedRun

/-!
# Progress along guarded runs

Every state has a credit. A step reaches the goal, or leaves a credit that is smaller by
what the step costs. A run that costs more than the credit has reached the goal.
-/
namespace DisastrOS.Library.GuardedRun

variable {σ α ε : Type} {step : σ → α → Except ε σ} {guard : σ → α → Prop}

/-- What the steps of a run cost together. -/
def runCost (cost : α → Nat) : List α → Nat
  | [] => 0
  | a :: as => cost a + runCost cost as

theorem runCost_append {cost : α → Nat} (as bs : List α) :
    runCost cost (as ++ bs) = runCost cost as + runCost cost bs := by
  induction as with
  | nil => exact (Nat.zero_add _).symm
  | cons a as ih =>
    show cost a + runCost cost (as ++ bs) = cost a + runCost cost as + runCost cost bs
    omega

theorem runCost_single {cost : α → Nat} (a : α) : runCost cost [a] = cost a := Nat.add_zero _

/-- A run has reached the goal on its way, or it has not used up its credit. -/
theorem run_credit (credit : Nat → σ → Prop) (goal : σ → Prop) (cost : α → Nat)
    (hstep : ∀ n s a t, credit n s → guard s a → step s a = .ok t →
      goal t ∨ ∃ m, credit m t ∧ m + cost a ≤ n)
    {n : Nat} {s t : σ} {as : List α} (hs : credit n s) (h : Run step guard s as t) :
    (∃ bs cs u, as = bs ++ cs ∧ Run step guard s bs u ∧ goal u) ∨
      ∃ m, credit m t ∧ m + runCost cost as ≤ n := by
  induction h with
  | nil => exact .inr ⟨n, hs, Nat.le_refl n⟩
  | @snoc t u as a hrun hguard ht ih =>
    rcases ih with ⟨bs, cs, v, rfl, hbs, hgoal⟩ | ⟨m, hm, hle⟩
    · exact .inl ⟨bs, cs ++ [a], v, List.append_assoc _ _ _, hbs, hgoal⟩
    · rcases hstep m _ a _ hm hguard ht with hgoal | ⟨m', hm', hle'⟩
      · exact .inl ⟨as ++ [a], [], _, (List.append_nil _).symm, .snoc hrun hguard ht, hgoal⟩
      · refine .inr ⟨m', hm', ?_⟩
        rw [runCost_append, runCost_single]
        omega

/-- A run that costs more than its credit has reached the goal on its way. -/
theorem run_reaches (credit : Nat → σ → Prop) (goal : σ → Prop) (cost : α → Nat)
    (hstep : ∀ n s a t, credit n s → guard s a → step s a = .ok t →
      goal t ∨ ∃ m, credit m t ∧ m + cost a ≤ n)
    {n : Nat} {s t : σ} {as : List α} (hs : credit n s) (h : Run step guard s as t)
    (hcost : n < runCost cost as) :
    ∃ bs cs u, as = bs ++ cs ∧ Run step guard s bs u ∧ goal u := by
  refine (run_credit credit goal cost hstep hs h).resolve_right ?_
  rintro ⟨m, _, hle⟩
  omega

end DisastrOS.Library.GuardedRun
