import DisastrOS.Machine.LinkedList

/-!
# Insert and detach are sequence operations

On a head that represents a sequence, `listInsert` adds an unlinked item at the
given place and `listDetach` removes an element. The cells of all other items and
all other heads keep their values.
-/
namespace DisastrOS.Lists.Sequences

open DisastrOS.Machine
open DisastrOS.Library.LinkedSequence

variable {α η : Type} [DecidableEq α] [DecidableEq η] {m : ListMem α η} {l : η}

/-- The head `l` anchors exactly the sequence `xs`. -/
def Holds (m : ListMem α η) (l : η) (xs : List α) : Prop :=
  Represents m.item (m.head l) xs

/-- An item whose two links are NULL. -/
def Unlinked (m : ListMem α η) (x : α) : Prop := m.item x = ⟨none, none⟩

omit [DecidableEq α] in
theorem holds_init (m : ListMem α η) (l : η) : Holds (listInit m l) l [] := by
  change Represents m.item (Function.update m.head l ⟨none, none, 0⟩ l) []
  rw [Function.update_self]
  exact represents_nil _

omit [DecidableEq α] [DecidableEq η] in
/-- A sequence is kept by every change outside its nodes and its head. -/
theorem holds_frame {m' : ListMem α η} {xs : List α} (h : Holds m l xs)
    (hhead : m'.head l = m.head l) (hitem : ∀ x ∈ xs, m'.item x = m.item x) :
    Holds m' l xs := by
  unfold Holds
  rw [hhead]
  exact represents_congr hitem h

/-- The cell heap after `x` has been put between the neighbours `p` and `n`. -/
def spliced (item : α → Cell α) (p n : Option α) (x : α) : α → Cell α := fun y =>
  if y = x then ⟨p, n⟩
  else ⟨if some y = n then some x else (item y).prev,
    if some y = p then some x else (item y).next⟩

/-- The cell heap after `x` has been taken from between its neighbours. -/
def bypassed (item : α → Cell α) (x : α) : α → Cell α := fun y =>
  if y = x then ⟨none, none⟩
  else ⟨if some y = (item x).next then (item x).prev else (item y).prev,
    if some y = (item x).prev then (item x).next else (item y).next⟩

omit [DecidableEq α] in
theorem getLast?_mem {xs : List α} {a : α} (h : xs.getLast? = some a) : a ∈ xs :=
  List.mem_of_getLast? h

omit [DecidableEq α] [DecidableEq η] in
/-- The successor that `listInsert` computes is the node after the given place. -/
theorem nextOf_eq {as bs : List α} (h : Holds m l (as ++ bs)) :
    nextOf m l as.getLast? = bs.head? := by
  rcases List.eq_nil_or_concat as with rfl | ⟨as', a, rfl⟩
  · exact h.first
  · rw [List.concat_eq_append, List.append_assoc] at h
    have hs : Represents m.item (m.head l) (as' ++ a :: bs) := h
    simp [nextOf, cell_of_split hs]

omit [DecidableEq η] in
/-- The link writes of `listInsert`, for neighbours other than the item. -/
theorem link_memory {p n : Option α} {x : α} (hx : Unlinked m x) (hp : p ≠ some x)
    (hn : n ≠ some x) (hpn : p = none ∨ p ≠ n) :
    linkBefore (linkAfter m p x) n x = { m with item := spliced m.item p n x } := by
  have hitem : ∀ y, (linkBefore (linkAfter m p x) n x).item y = spliced m.item p n x y := by
    intro y
    unfold Unlinked at hx
    cases p <;> cases n <;> apply Cell.ext <;>
      simp only [linkBefore, linkAfter, ListMem.setPrev, ListMem.setNext, Function.update_apply,
        spliced] <;> grind
  have hhead : (linkBefore (linkAfter m p x) n x).head = m.head := by
    cases p <;> cases n <;> rfl
  cases hm : linkBefore (linkAfter m p x) n x
  simp_all only [ListMem.mk.injEq]
  exact ⟨funext hitem, trivial⟩

/-- What `listInsert` writes when it puts `x` between `as` and `bs`. -/
theorem insert_memory {as bs : List α} {x : α} (h : Holds m l (as ++ bs))
    (hx : Unlinked m x) (hout : x ∉ as ++ bs) (hn : (as ++ bs).Nodup) :
    listInsert m l as.getLast? x = (some x,
      { item := spliced m.item as.getLast? bs.head? x
        head := Function.update m.head l
          ⟨(as ++ x :: bs).head?, (as ++ x :: bs).getLast?, (m.head l).size + 1⟩ }) := by
  have hp : as.getLast? ≠ some x := fun ha => hout (by simp [getLast?_mem ha])
  have hb : bs.head? ≠ some x := fun hb => hout (by simp [List.mem_of_head? hb])
  have hpn : as.getLast? = none ∨ as.getLast? ≠ bs.head? := by
    cases ha : as.getLast? with
    | none => exact .inl rfl
    | some a =>
      refine .inr fun hb => ?_
      exact (List.nodup_append.mp hn).2.2 a (getLast?_mem ha) a (List.mem_of_head? hb.symm) rfl
  have hfirst : (as ++ x :: bs).head? = if as.getLast? = none then some x else (m.head l).first := by
    rw [h.first]
    cases as <;> simp
  have hlast : (as ++ x :: bs).getLast? = if bs.head? = none then some x else (m.head l).last := by
    rw [h.last]
    cases bs <;> simp [List.getLast?_append, List.getLast?_cons]
  unfold listInsert
  rw [if_neg (by simp [show m.item x = ⟨none, none⟩ from hx])]
  simp only [nextOf_eq h, link_memory hx hp hb hpn, hfirst, hlast, ListMem.setHead]

/-- What `listDetach` writes, for an item whose neighbours are other items. -/
theorem unlink_memory (l : η) {x : α} (hp : (m.item x).prev ≠ some x)
    (hn : (m.item x).next ≠ some x)
    (hpn : (m.item x).prev = none ∨ (m.item x).prev ≠ (m.item x).next) :
    listDetach m l x =
      { item := bypassed m.item x
        head := Function.update m.head l
          { first := if some x = (m.head l).first then (m.item x).next else (m.head l).first
            last := if some x = (m.head l).last then (m.item x).prev else (m.head l).last
            size := (m.head l).size - 1 } } := by
  have hitem : ∀ y, (listDetach m l x).item y = bypassed m.item x y := by
    intro y
    unfold bypassed listDetach
    cases hc : m.item x with
    | mk p n =>
      rw [hc] at hp hn hpn
      cases p <;> cases n <;> apply Cell.ext <;>
        simp only [ListMem.setPrev, ListMem.setNext, ListMem.setHead, Function.update_apply] <;>
        grind
  have hhead : (listDetach m l x).head = Function.update m.head l
      { first := if some x = (m.head l).first then (m.item x).next else (m.head l).first
        last := if some x = (m.head l).last then (m.item x).prev else (m.head l).last
        size := (m.head l).size - 1 } := by
    unfold listDetach
    cases m.item x with
    | mk p n => cases p <;> cases n <;> rfl
  cases hm : listDetach m l x
  simp_all only [ListMem.mk.injEq]
  exact ⟨funext hitem, trivial⟩

/-- What `listDetach` writes on an element of the sequence. -/
theorem detach_memory {as bs : List α} {x : α} (h : Holds m l (as ++ x :: bs))
    (hn : (as ++ x :: bs).Nodup) :
    listDetach m l x =
      { item := bypassed m.item x
        head := Function.update m.head l
          ⟨(as ++ bs).head?, (as ++ bs).getLast?, (m.head l).size - 1⟩ } := by
  have hc := cell_of_split h
  obtain ⟨_, hnb, hd⟩ := List.nodup_append.mp hn
  have hp : as.getLast? ≠ some x := fun ha => hd x (getLast?_mem ha) x (by simp) rfl
  have hb : bs.head? ≠ some x := fun hb => (List.nodup_cons.mp hnb).1 (List.mem_of_head? hb)
  have hpn : as.getLast? = none ∨ as.getLast? ≠ bs.head? := by
    cases ha : as.getLast? with
    | none => exact .inl rfl
    | some a =>
      refine .inr fun hb => ?_
      exact hd a (getLast?_mem ha) a (by simp [List.mem_of_head? hb.symm]) rfl
  have hfirst : (as ++ bs).head? =
      if some x = (m.head l).first then bs.head? else (m.head l).first := by
    rw [h.first]
    cases as with
    | nil => simp
    | cons a as =>
      have hne : x ≠ a := fun he => hd a (by simp) x (by simp) he.symm
      simp [hne]
  have hlast : (as ++ bs).getLast? =
      if some x = (m.head l).last then as.getLast? else (m.head l).last := by
    rw [h.last]
    rcases List.eq_nil_or_concat bs with rfl | ⟨bs', b, rfl⟩
    · simp
    · have hne : x ≠ b := fun he => (List.nodup_cons.mp hnb).1 (by simp [he])
      have hl : (as ++ x :: bs'.concat b).getLast? = some b := by
        rw [List.concat_eq_append, ← List.cons_append, ← List.append_assoc, List.getLast?_concat]
      rw [hl, if_neg (by simpa using hne), List.concat_eq_append, ← List.append_assoc,
        List.getLast?_concat]
  rw [unlink_memory l (by rw [hc]; exact hp) (by rw [hc]; exact hb) (by rw [hc]; exact hpn),
    hfirst, hlast, hc]

/-! ## The two operations on one sequence -/

theorem holds_insert {as bs : List α} {x : α} (h : Holds m l (as ++ bs))
    (hx : Unlinked m x) (hout : x ∉ as ++ bs) (hn : (as ++ bs).Nodup) :
    Holds (listInsert m l as.getLast? x).2 l (as ++ x :: bs) := by
  rw [insert_memory h hx hout hn]
  change Represents (spliced m.item as.getLast? bs.head? x) (Function.update m.head l _ l) _
  rw [Function.update_self]
  refine ⟨rfl, rfl, ?_, seg_insert hn h.links (by simp [spliced]) fun y hy => ?_⟩
  · rw [h.size]
    simp
    omega
  · have hne : y ≠ x := fun he => hout (he ▸ hy)
    simp [spliced, hne]

theorem insert_item {as bs : List α} {x y : α} (h : Holds m l (as ++ bs))
    (hx : Unlinked m x) (hout : x ∉ as ++ bs) (hn : (as ++ bs).Nodup)
    (hy : y ∉ as ++ x :: bs) : (listInsert m l as.getLast? x).2.item y = m.item y := by
  rw [insert_memory h hx hout hn]
  have hyx : y ≠ x := fun he => hy (by simp [he])
  have hn' : some y ≠ bs.head? := fun hb => hy (by simp [List.mem_of_head? hb.symm])
  have hp' : some y ≠ as.getLast? := fun ha => hy (by simp [getLast?_mem ha.symm])
  simp [spliced, hyx, hn', hp']

theorem insert_head (m : ListMem α η) (p : Option α) (x : α) {l l' : η} (hl : l' ≠ l) :
    (listInsert m l p x).2.head l' = m.head l' := by
  unfold listInsert
  split
  · rfl
  · have hlink : ∀ n, (linkBefore (linkAfter m p x) n x).head = m.head := by
      intro n
      cases p <;> cases n <;> rfl
    simp only [ListMem.setHead, hlink, Function.update_of_ne hl]

theorem holds_detach {as bs : List α} {x : α} (h : Holds m l (as ++ x :: bs))
    (hn : (as ++ x :: bs).Nodup) : Holds (listDetach m l x) l (as ++ bs) := by
  have hc := cell_of_split h
  rw [detach_memory h hn]
  change Represents (bypassed m.item x) (Function.update m.head l _ l) _
  rw [Function.update_self]
  refine ⟨rfl, rfl, ?_, seg_remove hn h.links fun y hy => ?_⟩
  · rw [h.size]
    simp
    omega
  · have hne : y ≠ x := by
      rintro rfl
      rcases List.mem_append.mp hy with ha | hb
      · exact (List.nodup_append.mp hn).2.2 y ha y (by simp) rfl
      · exact (List.nodup_cons.mp (List.nodup_append.mp hn).2.1).1 hb
    simp [bypassed, hne, hc]

theorem detach_unlinked {as bs : List α} {x : α} (h : Holds m l (as ++ x :: bs))
    (hn : (as ++ x :: bs).Nodup) : Unlinked (listDetach m l x) x := by
  rw [detach_memory h hn]
  simp [Unlinked, bypassed]

theorem detach_item {as bs : List α} {x y : α} (h : Holds m l (as ++ x :: bs))
    (hn : (as ++ x :: bs).Nodup) (hy : y ∉ as ++ x :: bs) :
    (listDetach m l x).item y = m.item y := by
  have hc := cell_of_split h
  rw [detach_memory h hn]
  have hyx : y ≠ x := fun he => hy (by simp [he])
  have hn' : some y ≠ bs.head? := fun hb => hy (by simp [List.mem_of_head? hb.symm])
  have hp' : some y ≠ as.getLast? := fun ha => hy (by simp [getLast?_mem ha.symm])
  simp [bypassed, hyx, hc, hn', hp']

theorem detach_head (m : ListMem α η) (x : α) {l l' : η} (hl : l' ≠ l) :
    (listDetach m l x).head l' = m.head l' := by
  unfold listDetach
  cases m.item x with
  | mk p n =>
    cases p <;> cases n <;>
      simp [ListMem.setHead, ListMem.setNext, ListMem.setPrev, Function.update_of_ne hl]

/-- Detaching an item touches its two neighbours only. -/
theorem detach_item_far (m : ListMem α η) (l : η) {x y : α} (hyx : y ≠ x)
    (hp : (m.item x).prev ≠ some y) (hn : (m.item x).next ≠ some y) :
    (listDetach m l x).item y = m.item y := by
  unfold listDetach
  cases hc : m.item x with
  | mk p n =>
    rw [hc] at hp hn
    cases p <;> cases n <;>
      simp_all [ListMem.setHead, ListMem.setNext, ListMem.setPrev, Function.update_of_ne, eq_comm]

/-! ## Families of disjoint sequences -/

/-- The heads in `S` hold the sequences `L`, and no item occurs twice in them. -/
structure Threaded (S : η → Prop) (m : ListMem α η) (L : η → List α) : Prop where
  holds : ∀ l, S l → Holds m l (L l)
  nodup : ∀ l, S l → (L l).Nodup
  apart : ∀ l l' x, S l → S l' → x ∈ L l → x ∈ L l' → l = l'

variable {S : η → Prop} {L : η → List α}

/-- Inserting an item that is in no list of the family. -/
theorem threaded_insert {as bs : List α} {x : α} (h : Threaded S m L) (hl : S l)
    (hsplit : L l = as ++ bs) (hx : Unlinked m x) (hout : ∀ l', S l' → x ∉ L l') :
    Threaded S (listInsert m l as.getLast? x).2 (Function.update L l (as ++ x :: bs)) := by
  have hholds : Holds m l (as ++ bs) := hsplit ▸ h.holds l hl
  have hn : (as ++ bs).Nodup := hsplit ▸ h.nodup l hl
  have hxl : x ∉ as ++ bs := hsplit ▸ hout l hl
  have hmem : ∀ y, y ∈ as ++ x :: bs ↔ y = x ∨ y ∈ L l := by
    intro y
    rw [hsplit]
    simp only [List.mem_append, List.mem_cons]
    tauto
  constructor
  · intro l' hl'
    by_cases he : l' = l
    · subst he
      rw [Function.update_self]
      exact holds_insert hholds hx hxl hn
    · rw [Function.update_of_ne he]
      refine holds_frame (h.holds l' hl') (insert_head m _ x he) fun y hy => ?_
      refine insert_item hholds hx hxl hn fun hy' => ?_
      rcases (hmem y).mp hy' with rfl | hyl
      · exact hout l' hl' hy
      · exact he (h.apart l' l y hl' hl hy hyl)
  · intro l' hl'
    by_cases he : l' = l
    · subst he
      rw [Function.update_self]
      exact List.nodup_middle.mpr (List.nodup_cons.mpr ⟨hxl, hn⟩)
    · rw [Function.update_of_ne he]
      exact h.nodup l' hl'
  · have hin : ∀ l' y, S l' → y ∈ Function.update L l (as ++ x :: bs) l' →
        (y = x ∧ l' = l) ∨ (y ≠ x ∧ y ∈ L l') := by
      intro l' y hl' hy
      by_cases he : l' = l
      · subst he
        rw [Function.update_self, hmem] at hy
        by_cases hyx : y = x
        · exact .inl ⟨hyx, rfl⟩
        · exact .inr ⟨hyx, hy.resolve_left hyx⟩
      · rw [Function.update_of_ne he] at hy
        exact .inr ⟨fun hyx => hout l' hl' (hyx ▸ hy), hy⟩
    intro l₁ l₂ y h₁ h₂ hy₁ hy₂
    rcases hin l₁ y h₁ hy₁ with ⟨hyx, he₁⟩ | ⟨hne, hm₁⟩
    · rcases hin l₂ y h₂ hy₂ with ⟨_, he₂⟩ | ⟨hne, _⟩
      · exact he₁.trans he₂.symm
      · exact absurd hyx hne
    · rcases hin l₂ y h₂ hy₂ with ⟨hyx, _⟩ | ⟨_, hm₂⟩
      · exact absurd hyx hne
      · exact h.apart l₁ l₂ y h₁ h₂ hm₁ hm₂

theorem threaded_detach {x : α} (h : Threaded S m L) (hl : S l) (hx : x ∈ L l) :
    Threaded S (listDetach m l x) (Function.update L l ((L l).erase x)) := by
  obtain ⟨as, bs, hsplit, herase⟩ : ∃ as bs, L l = as ++ x :: bs ∧ (L l).erase x = as ++ bs := by
    obtain ⟨as, bs, hout, hs, he⟩ := List.exists_erase_eq hx
    exact ⟨as, bs, hs, he⟩
  have hholds : Holds m l (as ++ x :: bs) := hsplit ▸ h.holds l hl
  have hn : (as ++ x :: bs).Nodup := hsplit ▸ h.nodup l hl
  have hsub : ∀ l' y, y ∈ Function.update L l ((L l).erase x) l' → y ∈ L l' := by
    intro l' y hy
    by_cases he : l' = l
    · subst he
      rw [Function.update_self] at hy
      exact List.mem_of_mem_erase hy
    · rwa [Function.update_of_ne he] at hy
  constructor
  · intro l' hl'
    by_cases he : l' = l
    · subst he
      rw [Function.update_self, herase]
      exact holds_detach hholds hn
    · rw [Function.update_of_ne he]
      refine holds_frame (h.holds l' hl') (detach_head m x he) fun y hy => ?_
      exact detach_item hholds hn fun hy' => he (h.apart l' l y hl' hl hy (hsplit ▸ hy'))
  · intro l' hl'
    by_cases he : l' = l
    · subst he
      rw [Function.update_self]
      exact (h.nodup l' hl').erase x
    · rw [Function.update_of_ne he]
      exact h.nodup l' hl'
  · intro l₁ l₂ y h₁ h₂ hy₁ hy₂
    exact h.apart l₁ l₂ y h₁ h₂ (hsub l₁ y hy₁) (hsub l₂ y hy₂)

/-- An element taken out of a family has no links left. -/
theorem threaded_detach_unlinked {x : α} (h : Threaded S m L) (hl : S l) (hx : x ∈ L l) :
    Unlinked (listDetach m l x) x := by
  obtain ⟨as, bs, hsplit⟩ := List.append_of_mem hx
  exact detach_unlinked (hsplit ▸ h.holds l hl) (hsplit ▸ h.nodup l hl)

/-- An item that is taken out of its list is in no list of the family. -/
theorem Threaded.not_mem_erased {j l : η} {x : α} (h : Threaded S m L) (hj : S j)
    (hx : x ∈ L j) (hl : S l) : x ∉ Function.update L j ((L j).erase x) l := by
  by_cases he : l = j
  · subst he
    rw [Function.update_self]
    exact (h.nodup l hl).not_mem_erase
  · rw [Function.update_of_ne he]
    exact fun hm => he (h.apart l j x hl hj hm hx)

theorem threaded_detach_item {x y : α} (h : Threaded S m L) (hl : S l) (hx : x ∈ L l)
    (hy : y ∉ L l) : (listDetach m l x).item y = m.item y := by
  obtain ⟨as, bs, hsplit⟩ := List.append_of_mem hx
  exact detach_item (hsplit ▸ h.holds l hl) (hsplit ▸ h.nodup l hl) (hsplit ▸ hy)

theorem threaded_insert_item {as bs : List α} {x y : α} (h : Threaded S m L) (hl : S l)
    (hsplit : L l = as ++ bs) (hx : Unlinked m x) (hout : x ∉ L l) (hy : y ∉ L l)
    (hyx : y ≠ x) : (listInsert m l as.getLast? x).2.item y = m.item y := by
  rw [hsplit] at hout hy
  refine insert_item (hsplit ▸ h.holds l hl) hx hout (hsplit ▸ h.nodup l hl) fun hm => ?_
  rw [List.mem_append, List.mem_cons] at hm
  rw [List.mem_append] at hy
  tauto

omit [DecidableEq α] in
/-- Emptying a head drops its sequence from the family. -/
theorem threaded_init (h : Threaded S m L) :
    Threaded S (listInit m l) (Function.update L l []) := by
  constructor
  · intro l' hl'
    by_cases he : l' = l
    · subst he
      rw [Function.update_self]
      exact holds_init m l'
    · rw [Function.update_of_ne he]
      refine holds_frame (h.holds l' hl') ?_ fun _ _ => rfl
      exact Function.update_of_ne he _ _
  · intro l' hl'
    by_cases he : l' = l
    · subst he
      rw [Function.update_self]
      exact List.nodup_nil
    · rw [Function.update_of_ne he]
      exact h.nodup l' hl'
  · intro l₁ l₂ y h₁ h₂ hy₁ hy₂
    have hsub : ∀ l', y ∈ Function.update L l [] l' → y ∈ L l' := by
      intro l' hy
      by_cases he : l' = l
      · subst he
        rw [Function.update_self] at hy
        cases hy
      · rwa [Function.update_of_ne he] at hy
    exact h.apart l₁ l₂ y h₁ h₂ (hsub l₁ hy₁) (hsub l₂ hy₂)

omit [DecidableEq η] in
/-- Writing the links of an item that is in no list of the family. -/
theorem threaded_setItem {x : α} (h : Threaded S m L) (hout : ∀ l', S l' → x ∉ L l')
    (c : Cell α) : Threaded S { m with item := Function.update m.item x c } L := by
  refine ⟨fun l' hl' => ?_, h.nodup, h.apart⟩
  refine holds_frame (h.holds l' hl') rfl fun y hy => ?_
  exact Function.update_of_ne (fun he : y = x => hout l' hl' (he ▸ hy)) _ _

end DisastrOS.Lists.Sequences
