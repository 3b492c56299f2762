/-!
# Guarded runs of a fallible step function

A step may fail, and a run is a sequence of completed steps. The guard says which
actions may be taken in which states.
-/
namespace DisastrOS.Library.GuardedRun

variable {σ α ε : Type} {step : σ → α → Except ε σ} {guard : σ → α → Prop}

/-- Completed steps from one state to another, each inside the guard. -/
inductive Run (step : σ → α → Except ε σ) (guard : σ → α → Prop) : σ → List α → σ → Prop
  | nil (s : σ) : Run step guard s [] s
  | snoc {s t u : σ} {as : List α} {a : α} (hrun : Run step guard s as t) (hguard : guard t a)
      (hstep : step t a = .ok u) : Run step guard s (as ++ [a]) u

/-- What one guarded step preserves holds in every state a run reaches. -/
theorem run_invariant {I : σ → Prop} {s t : σ} {as : List α}
    (hkeep : ∀ s a t, I s → guard s a → step s a = .ok t → I t)
    (hs : I s) (h : Run step guard s as t) : I t := by
  induction h with
  | nil => exact hs
  | snoc _ hguard hstep ih => exact hkeep _ _ _ ih hguard hstep

theorem run_mono {guard' : σ → α → Prop} (hsub : ∀ s a, guard s a → guard' s a) {s t : σ}
    {as : List α} (h : Run step guard s as t) : Run step guard' s as t := by
  induction h with
  | nil => exact .nil _
  | snoc _ hguard hstep ih => exact .snoc ih (hsub _ _ hguard) hstep

theorem run_trans {s t u : σ} {as bs : List α} (h : Run step guard s as t)
    (h' : Run step guard t bs u) : Run step guard s (as ++ bs) u := by
  induction h' with
  | nil => rwa [List.append_nil]
  | snoc _ hguard hstep ih =>
    rw [← List.append_assoc]
    exact .snoc ih hguard hstep

theorem run_cons {s t u : σ} {a : α} {as : List α} (hguard : guard s a)
    (hstep : step s a = .ok t) (h : Run step guard t as u) : Run step guard s (a :: as) u :=
  run_trans (.snoc (.nil s) hguard hstep) h

/-- The state a guarded run from `s` reaches, if every step completes. -/
def exec (step : σ → α → Except ε σ) (guard : σ → α → Bool) : σ → List α → Option σ
  | s, [] => some s
  | s, a :: as =>
    if guard s a then
      match step s a with
      | .ok t => exec step guard t as
      | .error _ => none
    else none

theorem run_of_exec {check : σ → α → Bool} (hcheck : ∀ s a, check s a = true → guard s a)
    {s t : σ} {as : List α} (h : exec step check s as = some t) : Run step guard s as t := by
  induction as generalizing s with
  | nil =>
    cases h
    exact .nil _
  | cons a as ih =>
    unfold exec at h
    split at h
    · next hc =>
      split at h
      · next hstep => exact run_cons (hcheck _ _ hc) hstep (ih h)
      · cases h
    · cases h

/-- A test that the state reached by evaluation passes is true of a run. -/
theorem exists_run (guard : σ → α → Prop) {check : σ → α → Bool} (hcheck : ∀ s a, check s a = true → guard s a)
    {s : σ} {as : List α} {test : σ → Bool} (h : (exec step check s as).any test = true) :
    ∃ t, Run step guard s as t ∧ test t = true := by
  obtain ⟨t, ht, htest⟩ := (Option.any_eq_true ..).mp h
  exact ⟨t, run_of_exec hcheck ht, htest⟩

/-! ## History variables -/

variable {ω : Type} {watch : σ → α → σ → List ω}

/-- The step function on states with a history of what `watch` has seen. -/
def withHistory (step : σ → α → Except ε σ) (watch : σ → α → σ → List ω) (s : σ × List ω)
    (a : α) : Except ε (σ × List ω) :=
  match step s.1 a with
  | .ok t => .ok (t, s.2 ++ watch s.1 a t)
  | .error e => .error e

theorem withHistory_ok {s t : σ × List ω} {a : α} :
    withHistory step watch s a = .ok t ↔
      step s.1 a = .ok t.1 ∧ t.2 = s.2 ++ watch s.1 a t.1 := by
  unfold withHistory
  cases step s.1 a with
  | error e => simp
  | ok u =>
    simp only [Except.ok.injEq, Prod.ext_iff]
    constructor
    · rintro ⟨rfl, h⟩
      exact ⟨rfl, h.symm⟩
    · rintro ⟨rfl, h⟩
      exact ⟨rfl, h.symm⟩

/-- A history variable does not restrict the runs. -/
theorem exists_history {s t : σ} {as : List α} (h : Run step guard s as t) (before : List ω) :
    ∃ after, Run (withHistory step watch) (fun s a => guard s.1 a) (s, before) as (t, after) := by
  induction h with
  | nil => exact ⟨before, .nil _⟩
  | @snoc t u as a _ hguard hstep ih =>
    obtain ⟨after, hrun⟩ := ih
    exact ⟨after ++ watch t a u, .snoc hrun hguard (withHistory_ok.mpr ⟨hstep, rfl⟩)⟩

end DisastrOS.Library.GuardedRun
