import Mathlib.Data.List.Nodup

/-!
# Finite sequences stored in doubly linked cells

A heap maps every node to a cell with two nullable links. `Seg` says that a list
of nodes is threaded through such a heap between two given ends. The rules below
split a segment, frame it, and describe what relinking one node does to it.
-/
namespace DisastrOS.Library.LinkedSequence

/-- The two links carried by a node. -/
@[ext]
structure Cell (α : Type) where
  prev : Option α
  next : Option α
  deriving DecidableEq

/-- The anchor of one sequence: its two ends and its stored size. -/
structure Ends (α : Type) where
  first : Option α
  last : Option α
  size : Int
  deriving DecidableEq

variable {α : Type} {cell cell' : α → Cell α}

/-- `xs` is threaded through `cell`, with `before` and `after` around it. -/
def Seg (cell : α → Cell α) : Option α → List α → Option α → Prop
  | _, [], _ => True
  | before, x :: xs, after =>
      cell x = ⟨before, xs.head?.or after⟩ ∧ Seg cell (some x) xs after

/-- An anchor and a heap describe exactly the finite sequence `xs`. -/
structure Represents (cell : α → Cell α) (ends : Ends α) (xs : List α) : Prop where
  first : ends.first = xs.head?
  last : ends.last = xs.getLast?
  size : ends.size = xs.length
  links : Seg cell none xs none

theorem represents_nil (cell : α → Cell α) : Represents cell ⟨none, none, 0⟩ [] :=
  ⟨rfl, rfl, rfl, trivial⟩

/-- A segment splits exactly at every inner position. -/
theorem seg_append {before after : Option α} (xs ys : List α) :
    Seg cell before (xs ++ ys) after ↔
      Seg cell before xs (ys.head?.or after) ∧ Seg cell (xs.getLast?.or before) ys after := by
  induction xs generalizing before with
  | nil => simp [Seg]
  | cons x xs ih =>
    have hhead : ((xs ++ ys).head?).or after = xs.head?.or (ys.head?.or after) := by
      cases xs <;> simp
    have hlast : (x :: xs).getLast?.or before = xs.getLast?.or (some x) := by
      cases xs with
      | nil => rfl
      | cons y ys => simp [List.getLast?_cons]
    simp only [List.cons_append, Seg, ih, hhead, hlast, and_assoc]

/-- A segment depends on the cells of its own nodes only. -/
theorem seg_congr {before after : Option α} {xs : List α}
    (h : ∀ x ∈ xs, cell' x = cell x) (hs : Seg cell before xs after) :
    Seg cell' before xs after := by
  induction xs generalizing before with
  | nil => trivial
  | cons x xs ih =>
    refine ⟨(h x (by simp)).trans hs.1, ih (fun y hy => h y (by simp [hy])) hs.2⟩

theorem represents_congr {ends : Ends α} {xs : List α}
    (h : ∀ x ∈ xs, cell' x = cell x) (hr : Represents cell ends xs) :
    Represents cell' ends xs :=
  ⟨hr.first, hr.last, hr.size, seg_congr h hr.links⟩

/-- The represented sequence is determined by the first node and the links. -/
theorem seg_unique {before : Option α} {xs ys : List α} (hx : Seg cell before xs none)
    (hy : Seg cell before ys none) (hf : xs.head? = ys.head?) : xs = ys := by
  induction xs generalizing before ys with
  | nil => cases ys <;> simp_all
  | cons x xs ih =>
    cases ys with
    | nil => simp at hf
    | cons y ys =>
      obtain rfl : x = y := by simpa using hf
      have hn : xs.head? = ys.head? := by
        have he := congrArg Cell.next (hx.1.symm.trans hy.1)
        simpa using he
      rw [ih hx.2 hy.2 hn]

theorem represents_unique {ends : Ends α} {xs ys : List α}
    (hx : Represents cell ends xs) (hy : Represents cell ends ys) : xs = ys :=
  seg_unique hx.links hy.links (hx.first.symm.trans hy.first)

/-- The cell of a node inside a represented sequence names its two neighbours. -/
theorem cell_of_split {ends : Ends α} {as bs : List α} {x : α}
    (hr : Represents cell ends (as ++ x :: bs)) : cell x = ⟨as.getLast?, bs.head?⟩ := by
  have h := ((seg_append as (x :: bs)).mp hr.links).2
  simpa using h.1

/-- The node reached by following `n` links. -/
def follow (cell : α → Cell α) : Nat → Option α → Option α
  | 0, x => x
  | n + 1, x => follow cell n (x.bind fun y => (cell y).next)

theorem follow_none (cell : α → Cell α) (n : Nat) : follow cell n none = none := by
  induction n with
  | zero => rfl
  | succ n ih => exact ih

theorem seg_follow {before : Option α} {xs : List α} (hs : Seg cell before xs none) (n : Nat) :
    follow cell n xs.head? = xs[n]? := by
  induction n generalizing before xs with
  | zero => cases xs <;> rfl
  | succ n ih =>
    cases xs with
    | nil => exact follow_none cell n
    | cons x xs =>
      have hnext : (cell x).next = xs.head? := by
        rw [hs.1]
        simp
      change follow cell n (cell x).next = xs[n]?
      rw [hnext, ih hs.2]

/-- Following links from the first node visits the represented sequence. -/
theorem represents_follow {ends : Ends α} {xs : List α} (hr : Represents cell ends xs) (n : Nat) :
    follow cell n ends.first = xs[n]? := by
  rw [hr.first]
  exact seg_follow hr.links n

section Relinking

variable [DecidableEq α]

/-- Redirect the outgoing end of a segment. -/
theorem seg_retarget_after {before after after' : Option α} {xs : List α} (hn : xs.Nodup)
    (hs : Seg cell before xs after)
    (h : ∀ x ∈ xs, cell' x =
      ⟨(cell x).prev, if some x = xs.getLast? then after' else (cell x).next⟩) :
    Seg cell' before xs after' := by
  induction xs generalizing before with
  | nil => trivial
  | cons x xs ih =>
    have hx := h x (by simp)
    cases xs with
    | nil =>
      refine ⟨?_, trivial⟩
      rw [hx, hs.1]
      simp
    | cons y ys =>
      have hne : some x ≠ (x :: y :: ys).getLast? := by
        rw [List.getLast?_cons_cons]
        intro he
        exact (List.nodup_cons.mp hn).1 (List.mem_of_getLast? he.symm)
      refine ⟨?_, ih (List.nodup_cons.mp hn).2 hs.2 ?_⟩
      · rw [hx, if_neg hne, hs.1]
        simp
      · intro z hz
        rw [h z (List.mem_cons_of_mem _ hz), List.getLast?_cons_cons]

/-- Redirect the incoming end of a segment. -/
theorem seg_retarget_before {before before' after : Option α} {xs : List α} (hn : xs.Nodup)
    (hs : Seg cell before xs after)
    (h : ∀ x ∈ xs, cell' x =
      ⟨if some x = xs.head? then before' else (cell x).prev, (cell x).next⟩) :
    Seg cell' before' xs after := by
  cases xs with
  | nil => trivial
  | cons x xs =>
    have hx := h x (by simp)
    refine ⟨?_, seg_congr ?_ hs.2⟩
    · rw [hx, hs.1]
      simp
    · intro y hy
      have hne : y ≠ x := fun he => (List.nodup_cons.mp hn).1 (he ▸ hy)
      rw [h y (List.mem_cons_of_mem _ hy), if_neg (by simpa using hne)]

/-- Linking a new node between two adjacent positions of a sequence. -/
theorem seg_insert {as bs : List α} {x : α} (hn : (as ++ bs).Nodup)
    (hs : Seg cell none (as ++ bs) none) (hx : cell' x = ⟨as.getLast?, bs.head?⟩)
    (h : ∀ y ∈ as ++ bs, cell' y =
      ⟨if some y = bs.head? then some x else (cell y).prev,
        if some y = as.getLast? then some x else (cell y).next⟩) :
    Seg cell' none (as ++ x :: bs) none := by
  obtain ⟨ha, hb⟩ := (seg_append as bs).mp hs
  obtain ⟨hna, hnb, hd⟩ := List.nodup_append.mp hn
  rw [seg_append]
  refine ⟨seg_retarget_after hna ha ?_, ?_, seg_retarget_before hnb hb ?_⟩
  · intro y hy
    have hne : some y ≠ bs.head? := fun he =>
      hd y hy y (List.mem_of_head? he.symm) rfl
    rw [h y (by simp [hy]), if_neg hne]
    simp
  · simpa using hx
  · intro y hy
    have hne : some y ≠ as.getLast? := fun he =>
      hd y (List.mem_of_getLast? he.symm) y hy rfl
    rw [h y (by simp [hy]), if_neg hne]

/-- Bypassing a node joins its two neighbours. -/
theorem seg_remove {as bs : List α} {x : α} (hn : (as ++ x :: bs).Nodup)
    (hs : Seg cell none (as ++ x :: bs) none)
    (h : ∀ y ∈ as ++ bs, cell' y =
      ⟨if some y = bs.head? then as.getLast? else (cell y).prev,
        if some y = as.getLast? then bs.head? else (cell y).next⟩) :
    Seg cell' none (as ++ bs) none := by
  obtain ⟨ha, _, hb⟩ := (seg_append as (x :: bs)).mp hs
  have hn' : (as ++ bs).Nodup := hn.sublist ((List.sublist_cons_self x bs).append_left as)
  obtain ⟨hna, hnb, hd⟩ := List.nodup_append.mp hn'
  rw [seg_append]
  refine ⟨seg_retarget_after hna ha ?_, seg_retarget_before hnb hb ?_⟩
  · intro y hy
    have hne : some y ≠ bs.head? := fun he =>
      hd y hy y (List.mem_of_head? he.symm) rfl
    rw [h y (by simp [hy]), if_neg hne]
    simp
  · intro y hy
    have hne : some y ≠ as.getLast? := fun he =>
      hd y (List.mem_of_getLast? he.symm) y hy rfl
    rw [h y (by simp [hy]), if_neg hne]
    simp

end Relinking

end DisastrOS.Library.LinkedSequence
