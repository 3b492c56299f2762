import DisastrOS.Library.GuardedRun
import DisastrOS.Lists.Sequences

/-!
# What the list operations promise

`List_insert` and `List_detach` work on the sequence behind a head. The test with which
`List_insert` refuses an element of a list looks at its links, and an element that is alone
in its list has none.
-/
namespace DisastrOS.Lists.Contract

open DisastrOS.Machine
open DisastrOS.Lists.Sequences
open DisastrOS.Library.LinkedSequence
open DisastrOS.Library.GuardedRun

variable {α η : Type} [DecidableEq α] [DecidableEq η] {m m' : ListMem α η} {l l' : η}
  {xs as bs : List α} {prev : Option α} {x : α}

/-! ## The sequence behind a head -/

/-- The sequence with `x` put after `prev`, or in front when `prev` is NULL. -/
def insertAfter (x : α) : Option α → List α → List α
  | none, xs => x :: xs
  | some _, [] => []
  | some p, y :: ys => if y = p then y :: x :: ys else y :: insertAfter x (some p) ys

theorem insertAfter_split (hprev : ∀ p ∈ prev, p ∈ xs) (hn : xs.Nodup) :
    ∃ as bs, xs = as ++ bs ∧ as.getLast? = prev ∧ insertAfter x prev xs = as ++ x :: bs := by
  cases prev with
  | none => exact ⟨[], xs, rfl, rfl, by cases xs <;> rfl⟩
  | some p =>
    have hp : p ∈ xs := hprev p rfl
    induction xs with
    | nil => cases hp
    | cons y ys ih =>
      by_cases hy : y = p
      · refine ⟨[y], ys, rfl, by rw [hy]; rfl, ?_⟩
        simp [insertAfter, hy]
      · have hp : p ∈ ys := (List.mem_cons.mp hp).resolve_left fun he => hy he.symm
        obtain ⟨as, bs, hsplit, hlast, hins⟩ :=
          ih (List.nodup_cons.mp hn).2 (by simpa using hp) hp
        refine ⟨y :: as, bs, by rw [hsplit]; rfl, ?_, ?_⟩
        · rw [List.getLast?_cons, hlast]
          rfl
        · simp [insertAfter, hy, hins]

/-- `x` has been inserted, and detaching it again leads back. -/
structure Inserted (m : ListMem α η) (l : η) (xs : List α) (prev : Option α) (x : α)
    (m' : ListMem α η) : Prop where
  holds : Holds m' l (insertAfter x prev xs)
  items : ∀ y, y ∉ xs → y ≠ x → m'.item y = m.item y
  heads : ∀ l', l' ≠ l → m'.head l' = m.head l'
  undone : listDetach m' l x = m

/-- `x` has been detached. -/
structure Detached (m : ListMem α η) (l : η) (xs : List α) (x : α) (m' : ListMem α η) : Prop where
  holds : Holds m' l (xs.erase x)
  unlinked : Unlinked m' x
  items : ∀ y, y ∉ xs → m'.item y = m.item y
  heads : ∀ l', l' ≠ l → m'.head l' = m.head l'

/-- Detaching what has been inserted restores every cell and every head. -/
theorem detach_insert (h : Holds m l (as ++ bs)) (hx : Unlinked m x) (hout : x ∉ as ++ bs)
    (hn : (as ++ bs).Nodup) : listDetach (listInsert m l as.getLast? x).2 l x = m := by
  have hn' : (as ++ x :: bs).Nodup := List.nodup_middle.mpr (List.nodup_cons.mpr ⟨hout, hn⟩)
  rw [detach_memory (holds_insert h hx hout hn) hn', insert_memory h hx hout hn]
  have hitem : bypassed (spliced m.item as.getLast? bs.head? x) x = m.item := by
    funext y
    have hcell : spliced m.item as.getLast? bs.head? x x = ⟨as.getLast?, bs.head?⟩ := if_pos rfl
    unfold bypassed
    rw [hcell]
    by_cases hy : y = x
    · rw [if_pos hy, hy]
      exact hx.symm
    · rw [if_neg hy]
      unfold spliced
      rw [if_neg hy]
      apply Cell.ext
      · show (if some y = bs.head? then as.getLast? else
          if some y = bs.head? then some x else (m.item y).prev) = _
        split
        · next he =>
          obtain ⟨bs', rfl⟩ : ∃ bs', bs = y :: bs' := by
            cases bs with
            | nil => cases he
            | cons b bs' => exact ⟨bs', by rw [Option.some.inj he]⟩
          rw [cell_of_split h]
        · rfl
      · show (if some y = as.getLast? then bs.head? else
          if some y = as.getLast? then some x else (m.item y).next) = _
        split
        · next he =>
          obtain ⟨as', rfl⟩ : ∃ as', as = as' ++ [y] := by
            rcases List.eq_nil_or_concat as with rfl | ⟨as', a, rfl⟩
            · cases he
            · rw [List.concat_eq_append, List.getLast?_concat, Option.some.injEq] at he
              exact ⟨as', by rw [List.concat_eq_append, he]⟩
          rw [List.append_assoc] at h
          have hsplit : Represents m.item (m.head l) (as' ++ y :: bs) := h
          rw [cell_of_split hsplit]
        · rfl
  have hhead : Function.update m.head l ⟨(as ++ bs).head?, (as ++ bs).getLast?, (m.head l).size⟩ =
      m.head := by
    rw [← h.first, ← h.last]
    exact Function.update_eq_self l m.head
  simp only [hitem, Function.update_self, Function.update_idem, Int.add_sub_cancel, hhead]

/-- Behind a head, `List_insert` and `List_detach` are the operations on sequences. They leave
the other cells and heads alone. -/
theorem list_refines_sequence (h : Holds m l xs) (hn : xs.Nodup) :
    (∀ prev x, (∀ p ∈ prev, p ∈ xs) → Unlinked m x → x ∉ xs →
      (listInsert m l prev x).1 = some x ∧ Inserted m l xs prev x (listInsert m l prev x).2) ∧
    ∀ x ∈ xs, Detached m l xs x (listDetach m l x) := by
  constructor
  · intro prev x hprev hx hout
    obtain ⟨as, bs, rfl, rfl, hins⟩ := insertAfter_split (x := x) hprev hn
    refine ⟨by rw [insert_memory h hx hout hn], ?_, fun y hy hyx => ?_,
      fun l' hl' => insert_head m _ x hl', detach_insert h hx hout hn⟩
    · rw [hins]
      exact holds_insert h hx hout hn
    · refine insert_item h hx hout hn fun hm => hy ?_
      rw [List.mem_append, List.mem_cons] at hm
      rw [List.mem_append]
      tauto
  · intro x hx
    obtain ⟨as, bs, _, rfl, herase⟩ := List.exists_erase_eq hx
    refine ⟨?_, detach_unlinked h hn, fun y hy => detach_item h hn hy,
      fun l' hl' => detach_head m x hl'⟩
    rw [herase]
    exact holds_detach h hn

/-- A list of two nodes, a third one that goes between them, and the second that is detached. -/
theorem list_refines_sequence_pair :
    ∃ m : ListMem Nat Unit, Holds m () [0, 1] ∧
      Inserted m () [0, 1] (some 0) 2 (listInsert m () (some 0) 2).2 ∧
      Detached m () [0, 1] 1 (listDetach m () 1) := by
  have h : Holds (⟨fun i => if i = 0 then ⟨none, some 1⟩ else if i = 1 then ⟨some 0, none⟩ else
      ⟨none, none⟩, fun _ => ⟨some 0, some 1, 2⟩⟩ : ListMem Nat Unit) () [0, 1] :=
    ⟨rfl, rfl, rfl, rfl, rfl, trivial⟩
  obtain ⟨hins, hdet⟩ := list_refines_sequence h (by decide)
  exact ⟨_, h, (hins (some 0) 2 (by decide) rfl (by decide)).2, hdet 1 (by decide)⟩

/-! ## Nodes that are in a list -/

/-- `x` is met when the list is walked from its head. -/
def Member (m : ListMem α η) (l : η) (x : α) : Prop :=
  ∃ n, follow m.item n (m.head l).first = some x

/-- `x` is the only node of the list. -/
def Alone (m : ListMem α η) (l : η) (x : α) : Prop :=
  (m.head l).first = some x ∧ (m.head l).last = some x

/-- A call of one of the two operations. -/
inductive ListCall (α η : Type) where
  | insert (head : η) (prev : Option α) (item : α)
  | detach (head : η) (item : α)

/-- The memory after a call. -/
def call (m : ListMem α η) : ListCall α η → Except Empty (ListMem α η)
  | .insert head prev item => .ok (listInsert m head prev item).2
  | .detach head item => .ok (listDetach m head item)

/-- The place of an insertion and the node to detach are in the list. A node to insert is not
the only one of any list. -/
def Proper (m : ListMem α η) : ListCall α η → Prop
  | .insert head prev item => (∀ p ∈ prev, Member m head p) ∧ ∀ l, ¬ Alone m l item
  | .detach head item => Member m head item

/-- All lists of the heap are well-formed and disjoint. -/
abbrev WellFormed (m : ListMem α η) (L : η → List α) : Prop := Threaded (fun _ => True) m L

variable {L : η → List α}

omit [DecidableEq α] [DecidableEq η] in
theorem member_iff (h : WellFormed m L) : Member m l x ↔ x ∈ L l := by
  unfold Member
  rw [List.mem_iff_getElem?]
  refine exists_congr fun n => ?_
  rw [represents_follow (h.holds l trivial) n]

omit [DecidableEq α] [DecidableEq η] in
/-- A node of a list has no links exactly when it is alone. -/
theorem unlinked_iff (h : WellFormed m L) (hx : x ∈ L l) : Unlinked m x ↔ L l = [x] := by
  obtain ⟨as, bs, hsplit⟩ := List.append_of_mem hx
  have hholds := h.holds l trivial
  rw [hsplit] at hholds
  unfold Unlinked
  rw [cell_of_split hholds, hsplit]
  constructor
  · intro he
    rw [Cell.mk.injEq, List.getLast?_eq_none_iff, List.head?_eq_none_iff] at he
    rw [he.1, he.2]
    rfl
  · intro he
    cases as with
    | nil =>
      rw [List.nil_append, List.cons.injEq] at he
      rw [he.2]
      rfl
    | cons a as =>
      rw [List.cons_append, List.cons.injEq] at he
      exact absurd he.2 (by simp)

omit [DecidableEq α] [DecidableEq η] in
theorem alone_iff (h : WellFormed m L) (hx : x ∈ L l) : Alone m l x ↔ L l = [x] := by
  have hholds := h.holds l trivial
  unfold Alone
  rw [hholds.first, hholds.last]
  constructor
  · rintro ⟨hfirst, hlast⟩
    have hn := h.nodup l trivial
    cases hL : L l with
    | nil => rw [hL] at hfirst; cases hfirst
    | cons y ys =>
      rw [hL] at hfirst hlast hn
      obtain rfl : y = x := Option.some.inj hfirst
      cases ys with
      | nil => rfl
      | cons z zs =>
        rw [List.getLast?_cons_cons] at hlast
        exact absurd (List.mem_of_getLast? hlast) (List.nodup_cons.mp hn).1
  · intro he
    rw [he]
    exact ⟨rfl, rfl⟩

theorem insert_refused (hx : ¬ Unlinked m x) : listInsert m l prev x = (none, m) := by
  unfold listInsert
  refine if_pos ?_
  by_contra hno
  push Not at hno
  exact hx (Cell.ext hno.2 hno.1)

/-- The lists stay well-formed and disjoint. -/
theorem wellFormed_call {c : ListCall α η} (h : WellFormed m L) (hc : Proper m c)
    (hcall : call m c = .ok m') : ∃ L', WellFormed m' L' := by
  cases c with
  | insert head prev item =>
    obtain ⟨hprev, halone⟩ := hc
    cases hcall
    by_cases hx : Unlinked m item
    · have hout : ∀ l, item ∉ L l := fun l hm =>
        halone l ((alone_iff h hm).mpr ((unlinked_iff h hm).mp hx))
      obtain ⟨as, bs, hsplit, rfl, -⟩ := insertAfter_split (x := item)
        (fun p hp => (member_iff h).mp (hprev p hp)) (h.nodup head trivial)
      exact ⟨_, threaded_insert h trivial hsplit hx fun l _ => hout l⟩
    · rw [insert_refused hx]
      exact ⟨L, h⟩
  | detach head item =>
    cases hcall
    exact ⟨_, threaded_detach h trivial ((member_iff h).mp hc)⟩

/-- `List_insert` refuses a node of a list exactly when it is not alone in it. No calls that
keep to such nodes can spoil the lists. -/
theorem insert_refuses_linked (h : WellFormed m L) :
    (∀ l l' prev x, (∀ p ∈ prev, p ∈ L l) → x ∈ L l' →
      (listInsert m l prev x = (none, m) ↔ L l' ≠ [x])) ∧
    ∀ cs m', Run call Proper m cs m' → ∃ L', WellFormed m' L' := by
  constructor
  · intro l l' prev x _ hx
    refine ⟨fun hrefused he => ?_, fun hne => ?_⟩
    · have hcell : m.item x = ⟨none, none⟩ := (unlinked_iff h hx).mpr he
      unfold listInsert at hrefused
      rw [if_neg (by simp [hcell])] at hrefused
      cases congrArg Prod.fst hrefused
    · exact insert_refused fun hu => hne ((unlinked_iff h hx).mp hu)
  · intro cs m' hrun
    exact run_invariant (I := fun m => ∃ L, WellFormed m L)
      (fun m c m' hi hc hcall => by
        obtain ⟨L, hL⟩ := hi
        exact wellFormed_call hL hc hcall) ⟨L, h⟩ hrun

/-- The first of two nodes is refused, also for a place behind itself. -/
theorem insert_refuses_linked_first :
    ∃ (m : ListMem Nat Unit) (L : Unit → List Nat), WellFormed m L ∧ 0 ∈ L () ∧
      listInsert m () (some 0) 0 = (none, m) := by
  have h : WellFormed (⟨fun i => if i = 0 then ⟨none, some 1⟩ else if i = 1 then ⟨some 0, none⟩ else
      ⟨none, none⟩, fun _ => ⟨some 0, some 1, 2⟩⟩ : ListMem Nat Unit) fun _ => [0, 1] :=
    ⟨fun _ _ => ⟨rfl, rfl, rfl, rfl, rfl, trivial⟩, fun _ _ => by decide, fun _ _ _ _ _ _ _ => rfl⟩
  exact ⟨_, _, h, by decide,
    ((insert_refuses_linked h).1 () () (some 0) 0 (by decide) (by decide)).mpr (by decide)⟩

/-- The only node of a list is inserted into a second one, and is then in both. -/
theorem lone_node_in_two_lists :
    ∃ (m : ListMem Nat Bool) (L : Bool → List Nat), WellFormed m L ∧ 0 ∈ L false ∧ L true = [] ∧
      listInsert m true none 0 ≠ (none, m) ∧ Holds (listInsert m true none 0).2 false [0] ∧
      Holds (listInsert m true none 0).2 true [0] := by
  refine ⟨⟨fun _ => ⟨none, none⟩, fun b => cond b ⟨none, none, 0⟩ ⟨some 0, some 0, 1⟩⟩,
    fun b => cond b [] [0], ⟨fun b _ => ?_, fun b _ => ?_, fun b b' x _ _ hx hx' => ?_⟩, by decide,
    rfl, fun he => ?_, ⟨rfl, rfl, rfl, rfl, trivial⟩, ⟨rfl, rfl, rfl, rfl, trivial⟩⟩
  · cases b
    · exact ⟨rfl, rfl, rfl, rfl, trivial⟩
    · exact ⟨rfl, rfl, rfl, trivial⟩
  · cases b <;> decide
  · cases b
    · cases b'
      · rfl
      · cases hx'
    · cases hx
  · cases congrArg Prod.fst he

end DisastrOS.Lists.Contract
