import DisastrOS.Library.GuardedRun

/-!
# Simulation

When every guarded step of a fallible step function has a counterpart in a relation, a run
has one too, action by action. Two machines whose states are related and that answer alike
cannot be told apart.
-/
namespace DisastrOS.Library.GuardedRun

variable {σ τ α ε : Type} {step : σ → α → Except ε σ} {guard : σ → α → Prop}
  {next : τ → α → τ → Prop}

section Answers

variable {ι ω : Type} {f : σ → ι → ω × σ} {g : τ → ι → ω × τ}

/-- The answers of a machine to the inputs `is`, with the state it is left in. -/
def answers (f : σ → ι → ω × σ) : σ → List ι → List ω × σ
  | s, [] => ([], s)
  | s, i :: is =>
      let next := answers f (f s i).2 is
      ((f s i).1 :: next.1, next.2)

/-- Two machines that answer each input alike answer all inputs alike. -/
theorem answers_eq {R : σ → τ → Prop}
    (hstep : ∀ s t i, R s t → (f s i).1 = (g t i).1 ∧ R (f s i).2 (g t i).2) (is : List ι)
    {s : σ} {t : τ} (hR : R s t) :
    (answers f s is).1 = (answers g t is).1 ∧ R (answers f s is).2 (answers g t is).2 := by
  induction is generalizing s t with
  | nil => exact ⟨rfl, hR⟩
  | cons i is ih =>
    obtain ⟨hanswer, hnext⟩ := hstep s t i hR
    obtain ⟨hrest, hfinal⟩ := ih hnext
    refine ⟨?_, hfinal⟩
    show (f s i).1 :: (answers f _ is).1 = (g t i).1 :: (answers g _ is).1
    rw [hanswer, hrest]

end Answers

end DisastrOS.Library.GuardedRun
