/-!
# Outcomes of fallible computations

`Ensures x P` says that `x` delivers only values satisfying `P`, and `Avoids bad x` that
it fails with no error in `bad`. The rules follow the way computations are put together;
the equations invert a completed one.
-/
namespace DisastrOS.Library.Outcome

variable {ε α β : Type}

theorem bind_eq_ok {x : Except ε α} {f : α → Except ε β} {b : β} :
    (x >>= f) = .ok b ↔ ∃ a, x = .ok a ∧ f a = .ok b := by
  cases x with
  | error e =>
    constructor
    · intro h
      cases h
    · rintro ⟨a, h, _⟩
      cases h
  | ok a =>
    constructor
    · intro h
      exact ⟨a, rfl, h⟩
    · rintro ⟨a', h, hf⟩
      cases h
      exact hf

/-- A computation completes when its parts do. -/
theorem completes_bind {x : Except ε α} {f : α → Except ε β} (hx : ∃ a, x = .ok a)
    (hf : ∀ a, x = .ok a → ∃ b, f a = .ok b) : ∃ b, (x >>= f) = .ok b := by
  obtain ⟨a, ha⟩ := hx
  obtain ⟨b, hb⟩ := hf a ha
  exact ⟨b, bind_eq_ok.mpr ⟨a, ha, hb⟩⟩

/-- Every value that `x` delivers satisfies `P`. -/
def Ensures (x : Except ε α) (P : α → Prop) : Prop := ∀ a, x = .ok a → P a

variable {x : Except ε α} {P Q : α → Prop} {R : β → Prop}

theorem ensures_ok {a : α} (h : P a) : Ensures (.ok a : Except ε α) P := by
  intro b hb
  cases hb
  exact h

theorem ensures_error (e : ε) : Ensures (.error e : Except ε α) P := by
  intro b hb
  cases hb

theorem ensures_bind {f : α → Except ε β} (hx : Ensures x P) (hf : ∀ a, P a → Ensures (f a) R) :
    Ensures (x >>= f) R := by
  intro b hb
  obtain ⟨a, ha, hfa⟩ := bind_eq_ok.mp hb
  exact hf a (hx a ha) b hfa

/-- A part whose value does not matter. -/
theorem ensures_bind_any {f : α → Except ε β} (hf : ∀ a, Ensures (f a) R) :
    Ensures (x >>= f) R :=
  ensures_bind (P := fun _ => True) (fun _ _ => trivial) fun a _ => hf a

theorem ensures_mono (h : Ensures x P) (hPQ : ∀ a, P a → Q a) : Ensures x Q :=
  fun a ha => hPQ a (h a ha)

theorem ensures_ite {p : Prop} [Decidable p] {y : Except ε α} (hx : p → Ensures x P)
    (hy : ¬ p → Ensures y P) : Ensures (if p then x else y) P := by
  split
  · next h => exact hx h
  · next h => exact hy h

variable {bad : ε → Prop}

end DisastrOS.Library.Outcome
