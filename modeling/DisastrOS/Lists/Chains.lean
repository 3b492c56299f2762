import DisastrOS.Lists.Sequences

/-!
# Chains

A list whose stored last item and size are out of date can still be walked from its
first item. `Chained` says so, and that inserting and detaching keep it, wherever the
head that is passed along belongs to.
-/
namespace DisastrOS.Lists.Chains

open DisastrOS.Machine
open DisastrOS.Lists.Sequences
open DisastrOS.Library.LinkedSequence

variable {α η : Type} [DecidableEq α] [DecidableEq η] {m m' : ListMem α η} {S : η → Prop}
  {L : η → List α} {l j : η} {x y : α}

/-- The first items of the heads in `S` lead to the sequences `L`, and no item occurs
twice in them. -/
structure Chained (S : η → Prop) (m : ListMem α η) (L : η → List α) : Prop where
  first : ∀ l, S l → (m.head l).first = (L l).head?
  links : ∀ l, S l → Seg m.item none (L l) none
  nodup : ∀ l, S l → (L l).Nodup
  apart : ∀ l l' x, S l → S l' → x ∈ L l → x ∈ L l' → l = l'

/-- The memory with the heads as they should be for the sequences `L`. -/
def refreshed (m : ListMem α η) (L : η → List α) : ListMem α η :=
  ⟨m.item, fun l => ⟨(L l).head?, (L l).getLast?, (L l).length⟩⟩

omit [DecidableEq α] [DecidableEq η] in
theorem Chained.threaded (h : Chained S m L) : Threaded S (refreshed m L) L :=
  ⟨fun l hl => ⟨rfl, rfl, rfl, h.links l hl⟩, h.nodup, h.apart⟩

omit [DecidableEq α] [DecidableEq η] in
theorem chained_of_threaded {head : η → Ends α} (h : Threaded S ⟨m.item, head⟩ L)
    (hfirst : ∀ l, S l → (m.head l).first = (L l).head?) : Chained S m L :=
  ⟨hfirst, fun l hl => (h.holds l hl).links, h.nodup, h.apart⟩

omit [DecidableEq α] [DecidableEq η] in
/-- Chains depend on the first items of their heads and on the links of their nodes. -/
theorem chained_frame (h : Chained S m L) (hhead : ∀ l, S l → m'.head l = m.head l)
    (hitem : ∀ l x, S l → x ∈ L l → m'.item x = m.item x) : Chained S m' L := by
  refine ⟨fun l hl => ?_, fun l hl => ?_, h.nodup, h.apart⟩
  · rw [hhead l hl]
    exact h.first l hl
  · exact seg_congr (fun x hx => hitem l x hl hx) (h.links l hl)

omit [DecidableEq η] in
/-- Writing the links of an item that is in no chain. -/
theorem chained_setItem (h : Chained S m L) (hout : ∀ l, S l → x ∉ L l) (c : Cell α) :
    Chained S { m with item := Function.update m.item x c } L := by
  refine chained_frame h (fun _ _ => rfl) fun l y hl hy => ?_
  exact Function.update_of_ne (fun he : y = x => hout l hl (he ▸ hy)) _ _

omit [DecidableEq α] in
/-- Initialising a head drops its chain. -/
theorem chained_init (h : Chained S m L) :
    Chained S (listInit m l) (Function.update L l []) := by
  have hthr := threaded_init (l := l) h.threaded
  refine chained_of_threaded hthr fun l' hl' => ?_
  show (Function.update m.head l _ l').first = _
  by_cases he : l' = l
  · rw [he, Function.update_self, Function.update_self]
    rfl
  · rw [Function.update_of_ne he, Function.update_of_ne he]
    exact h.first l' hl'

/-! ## Inserting -/

/-- The links that an insertion writes do not depend on the head but through the first
item. -/
theorem insert_item_congr {p : Option α} (hitem : m'.item = m.item)
    (hnext : nextOf m' j p = nextOf m l p) :
    (listInsert m' j p x).2.item = (listInsert m l p x).2.item := by
  have hlink : ∀ n, (linkBefore (linkAfter m' p x) n x).item =
      (linkBefore (linkAfter m p x) n x).item := by
    intro n
    cases p <;> cases n <;>
      simp only [linkBefore, linkAfter, ListMem.setPrev, ListMem.setNext, hitem]
  unfold listInsert
  rw [hitem, hnext]
  split
  · exact hitem
  · exact hlink _

omit [DecidableEq α] [DecidableEq η] in
/-- Refreshing the heads changes no insertion into a chain. -/
theorem nextOf_refreshed {as : List α} (h : Chained S m L) (hj : S j) (hplace : as ≠ [] ∨ l = j) :
    nextOf (refreshed m L) j as.getLast? = nextOf m l as.getLast? := by
  cases hlast : as.getLast? with
  | some p => rfl
  | none =>
    obtain rfl := hplace.resolve_left fun hne => hne (List.getLast?_eq_none_iff.mp hlast)
    exact (h.first l hj).symm

/-- What becomes of the first item of the head that is passed along. -/
theorem insert_first {p : Option α} (hx : Unlinked m x) :
    ((listInsert m l p x).2.head l).first = if p = none then some x else (m.head l).first := by
  unfold listInsert
  rw [if_neg (by simp [show m.item x = ⟨none, none⟩ from hx])]
  simp only [ListMem.setHead, Function.update_self]

/-- What becomes of the last item of the head that is passed along. -/
theorem insert_last {p : Option α} (hx : Unlinked m x) :
    ((listInsert m l p x).2.head l).last =
      if nextOf m l p = none then some x else (m.head l).last := by
  unfold listInsert
  rw [if_neg (by simp [show m.item x = ⟨none, none⟩ from hx])]
  simp only [ListMem.setHead, Function.update_self]

omit [DecidableEq α] [DecidableEq η] in
/-- The item behind a place in a chain. -/
theorem nextOf_chained {as bs : List α} (h : Chained S m L) (hj : S j) (hsplit : L j = as ++ bs)
    (hplace : as ≠ [] ∨ l = j) : nextOf m l as.getLast? = bs.head? := by
  rw [← nextOf_refreshed h hj hplace]
  exact nextOf_eq (hsplit ▸ h.threaded.holds j hj)

/-- Inserting an item behind a node of the chain of `j`, or at the front of it when the
head passed along is `j` itself. -/
theorem chained_insert {as bs : List α} (h : Chained S m L) (hj : S j) (hsplit : L j = as ++ bs)
    (hx : Unlinked m x) (hout : ∀ l', S l' → x ∉ L l') (hplace : as ≠ [] ∨ l = j) :
    Chained S (listInsert m l as.getLast? x).2 (Function.update L j (as ++ x :: bs)) := by
  have hthr := threaded_insert h.threaded hj hsplit hx hout
  have hitem := @insert_item_congr _ _ _ _ m (refreshed m L) l j x _ rfl
    (nextOf_refreshed h hj hplace)
  have heq : (listInsert (refreshed m L) j as.getLast? x).2 =
      ⟨(listInsert m l as.getLast? x).2.item,
        (listInsert (refreshed m L) j as.getLast? x).2.head⟩ := by
    rw [← hitem]
  rw [heq] at hthr
  refine chained_of_threaded hthr fun l' hl' => ?_
  -- the first item of a head changes at the front of its own chain only
  have hfirst : ((listInsert m l as.getLast? x).2.head l').first =
      if l' = l ∧ as = [] then some x else (m.head l').first := by
    by_cases he : l' = l
    · subst he
      rw [insert_first hx]
      simp [List.getLast?_eq_none_iff]
    · rw [insert_head m _ x he, if_neg fun hc => he hc.1]
  rw [hfirst]
  by_cases hnil : as = []
  · subst hnil
    obtain rfl := hplace.resolve_left fun hne => hne rfl
    by_cases he : l' = l
    · rw [if_pos ⟨he, rfl⟩, he, Function.update_self]
      rfl
    · rw [if_neg fun hc => he hc.1, Function.update_of_ne he]
      exact h.first l' hl'
  · rw [if_neg fun hc => hnil hc.2, h.first l' hl']
    by_cases he : l' = j
    · rw [he, Function.update_self, hsplit]
      cases as with
      | nil => exact absurd rfl hnil
      | cons a as => rfl
    · rw [Function.update_of_ne he]

/-- An insertion writes the links of the new item and of its neighbours. -/
theorem chained_insert_item {as bs : List α} (h : Chained S m L) (hj : S j)
    (hsplit : L j = as ++ bs) (hx : Unlinked m x) (hout : x ∉ L j) (hplace : as ≠ [] ∨ l = j)
    (hy : y ∉ L j) (hyx : y ≠ x) : (listInsert m l as.getLast? x).2.item y = m.item y := by
  have hitem := @insert_item_congr _ _ _ _ m (refreshed m L) l j x _ rfl
    (nextOf_refreshed h hj hplace)
  rw [← hitem]
  exact threaded_insert_item h.threaded hj hsplit hx hout hy hyx

/-! ## Detaching -/

/-- The links that a detachment writes do not depend on the head. -/
theorem detach_item_congr (hitem : m'.item = m.item) :
    (listDetach m' j x).item = (listDetach m l x).item := by
  unfold listDetach
  rw [hitem]
  cases m.item x with
  | mk p n =>
    cases p <;> cases n <;>
      simp only [ListMem.setHead, ListMem.setNext, ListMem.setPrev, hitem]

theorem detach_first : ((listDetach m l x).head l).first =
    if some x = (m.head l).first then (m.item x).next else (m.head l).first := by
  unfold listDetach
  cases m.item x with
  | mk p n =>
    cases p <;> cases n <;>
      simp [ListMem.setHead, ListMem.setNext, ListMem.setPrev]

theorem detach_last : ((listDetach m l x).head l).last =
    if some x = (m.head l).last then (m.item x).prev else (m.head l).last := by
  unfold listDetach
  cases m.item x with
  | mk p n =>
    cases p <;> cases n <;>
      simp [ListMem.setHead, ListMem.setNext, ListMem.setPrev]

omit [DecidableEq α] [DecidableEq η] in
/-- An item of a chain has its neighbours as its links. -/
theorem Chained.cell {as bs : List α} (h : Chained S m L) (hl : S l)
    (hsplit : L l = as ++ x :: bs) : m.item x = ⟨as.getLast?, bs.head?⟩ :=
  cell_of_split (hsplit ▸ h.threaded.holds l hl)

/-- A last item that ends a part of the chain ends what is left of the part after the
detachment. -/
theorem chained_detach_last {as bs : List α} (h : Chained S m L) (hl : S l)
    (hsplit : L l = as ++ bs) (hlast : (m.head l).last = as.getLast?) :
    ((listDetach m l x).head l).last = (as.erase x).getLast? := by
  rw [detach_last, hlast]
  rcases List.eq_nil_or_concat as with rfl | ⟨as, y, rfl⟩
  · rfl
  · rw [List.concat_eq_append] at hsplit ⊢
    have hn := h.nodup l hl
    rw [hsplit, List.append_assoc] at hn
    have hy : y ∉ as := fun hy => (List.nodup_append.mp hn).2.2 y hy y (by simp) rfl
    rw [List.getLast?_concat]
    by_cases he : x = y
    · subst he
      rw [if_pos rfl, h.cell hl (by rw [hsplit, List.append_assoc]; rfl),
        List.erase_append_right _ hy, List.erase_cons_head, List.append_nil]
    · rw [if_neg (by simpa using he)]
      by_cases hx : x ∈ as
      · rw [List.erase_append_left _ hx, List.getLast?_concat]
      · rw [List.erase_append_right _ hx, List.erase_of_not_mem (by simpa using he),
          List.getLast?_concat]

theorem chained_detach (h : Chained S m L) (hl : S l) (hx : x ∈ L l) :
    Chained S (listDetach m l x) (Function.update L l ((L l).erase x)) := by
  have hthr := threaded_detach h.threaded hl hx
  have hitem : (listDetach (refreshed m L) l x).item = (listDetach m l x).item :=
    detach_item_congr rfl
  have heq : listDetach (refreshed m L) l x =
      ⟨(listDetach m l x).item, (listDetach (refreshed m L) l x).head⟩ := by
    rw [← hitem]
  have hself : ((listDetach m l x).head l).first = ((L l).erase x).head? := by
    have hideal := (hthr.holds l hl).first
    rw [Function.update_self] at hideal
    rw [← hideal, detach_first, detach_first, h.first l hl]
    rfl
  rw [heq] at hthr
  refine chained_of_threaded hthr fun l' hl' => ?_
  by_cases he : l' = l
  · rw [he, hself, Function.update_self]
  · rw [detach_head m x he, Function.update_of_ne he]
    exact h.first l' hl'

theorem chained_detach_item (h : Chained S m L) (hl : S l) (hx : x ∈ L l) (hy : y ∉ L l) :
    (listDetach m l x).item y = m.item y := by
  have hitem : (listDetach (refreshed m L) l x).item = (listDetach m l x).item :=
    detach_item_congr rfl
  rw [← hitem]
  exact threaded_detach_item h.threaded hl hx hy

end DisastrOS.Lists.Chains
