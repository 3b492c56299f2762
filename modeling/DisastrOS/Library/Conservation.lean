import DisastrOS.Library.GuardedRun

/-!
# Balance of a queue

What comes into a queue comes in at the back, what leaves it leaves at the front. The old
contents and what has come in since are what has left since and the new contents.
-/
namespace DisastrOS.Library.Conservation

open DisastrOS.Library.GuardedRun

variable {σ α β ε : Type}

inductive Event (β : Type) where
  | came (x : β)
  | left (x : β)
  deriving DecidableEq

def arrival : Event β → Option β
  | .came x => some x
  | .left _ => none

def departure : Event β → Option β
  | .came _ => none
  | .left x => some x

/-- What has come in, in order. -/
def arrivals (h : List (Event β)) : List β := h.filterMap arrival

/-- What has left, in order. -/
def departures (h : List (Event β)) : List β := h.filterMap departure

@[simp]
theorem arrivals_append (h h' : List (Event β)) :
    arrivals (h ++ h') = arrivals h ++ arrivals h' :=
  List.filterMap_append

@[simp]
theorem departures_append (h h' : List (Event β)) :
    departures (h ++ h') = departures h ++ departures h' :=
  List.filterMap_append

/-- The contents `xs` have become `ys` while the events `h` were seen. -/
def Balanced (xs : List β) (h : List (Event β)) (ys : List β) : Prop :=
  xs ++ arrivals h = departures h ++ ys

theorem balanced_nil (xs : List β) : Balanced xs [] xs := List.append_nil xs

theorem balanced_came (xs : List β) (x : β) : Balanced xs [.came x] (xs ++ [x]) := rfl

theorem balanced_left (xs : List β) (x : β) : Balanced (x :: xs) [.left x] xs :=
  List.append_nil (x :: xs)

theorem Balanced.append {xs ys zs : List β} {h h' : List (Event β)} (hb : Balanced xs h ys)
    (hb' : Balanced ys h' zs) : Balanced xs (h ++ h') zs := by
  unfold Balanced at hb hb' ⊢
  calc xs ++ arrivals (h ++ h')
      = (xs ++ arrivals h) ++ arrivals h' := by rw [arrivals_append, List.append_assoc]
    _ = departures h ++ (ys ++ arrivals h') := by rw [hb, List.append_assoc]
    _ = departures (h ++ h') ++ zs := by rw [hb', departures_append, List.append_assoc]

variable {step : σ → α → Except ε σ} {watch : σ → α → σ → List (Event β)}

/-- When each step is balanced a whole run is. The relation `box` says what is in the queue. -/
theorem run_balanced (guard : σ → α → Prop) (box : σ → List β → Prop) {s t : σ} {as : List α}
    {xs : List β} {h : List (Event β)}
    (hstep : ∀ s a t xs, box s xs → guard s a → step s a = .ok t →
      ∃ ys, box t ys ∧ Balanced xs (watch s a t) ys) (hs : box s xs)
    (hrun : Run (withHistory step watch) (fun s a => guard s.1 a) (s, []) as (t, h)) :
    ∃ ys, box t ys ∧ Balanced xs h ys := by
  refine run_invariant (I := fun s => ∃ ys, box s.1 ys ∧ Balanced xs s.2 ys) ?_
    ⟨xs, hs, balanced_nil xs⟩ hrun
  rintro s a t ⟨ys, hys, hb⟩ hguard hact
  obtain ⟨hact, hseen⟩ := withHistory_ok.mp hact
  obtain ⟨zs, hzs, hb'⟩ := hstep _ _ _ _ hys hguard hact
  rw [hseen]
  exact ⟨zs, hzs, hb.append hb'⟩

end DisastrOS.Library.Conservation
