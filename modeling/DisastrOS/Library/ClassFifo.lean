import Mathlib.Data.List.Induction
import Mathlib.Data.List.Nodup
import Mathlib.Order.Lattice

/-!
# Priority classes served first in, first out

A history says which items have been accepted into which class and which have been
delivered. The ledger of a history numbers the acceptances. A history is ordered
when every delivery takes the oldest pending item of the smallest class that has any.
-/
namespace DisastrOS.Library.ClassFifo

/-- `item` names the slot that an accepted message occupies until its delivery. -/
inductive Event (κ β : Type) where
  | accepted (cls : κ) (item : β)
  | delivered (cls : κ) (item : β)
  deriving DecidableEq

/-- One acceptance, by its number in the history. -/
structure Ticket (κ β : Type) where
  number : Nat
  cls : κ
  item : β
  deriving DecidableEq

structure Ledger (κ β : Type) where
  issued : Nat := 0
  pending : List (Ticket κ β) := []
  served : List (Ticket κ β) := []

variable {κ β : Type} [DecidableEq β]

def record (s : Ledger κ β) : Event κ β → Ledger κ β
  | .accepted c b =>
    { s with issued := s.issued + 1, pending := s.pending ++ [⟨s.issued, c, b⟩] }
  | .delivered _ b =>
    { s with
      pending := s.pending.filter fun t => t.item ≠ b
      served := s.served ++ s.pending.filter fun t => t.item = b }

def ledger (h : List (Event κ β)) : Ledger κ β := h.foldl record {}

theorem ledger_snoc (h : List (Event κ β)) (e : Event κ β) :
    ledger (h ++ [e]) = record (ledger h) e := by
  simp [ledger]

def Event.isDelivery : Event κ β → Bool
  | .accepted _ _ => false
  | .delivered _ _ => true

/-! ## Ordered histories -/

/-- An accepted item has no pending ticket. A delivery is that of a pending ticket
which every other pending ticket follows, by its class or else by its age. -/
def Admissible [LT κ] (s : Ledger κ β) : Event κ β → Prop
  | .accepted _ b => ∀ t ∈ s.pending, t.item ≠ b
  | .delivered c b => ∃ t ∈ s.pending, t.item = b ∧ t.cls = c ∧
      ∀ u ∈ s.pending, u ≠ t → c < u.cls ∨ (u.cls = c ∧ t.number < u.number)

/-- Every event of the history is admissible after the events before it. -/
def Ordered [LT κ] (h : List (Event κ β)) : Prop :=
  ∀ before e after, h = before ++ e :: after → Admissible (ledger before) e

theorem ordered_nil [LT κ] : Ordered ([] : List (Event κ β)) := by
  intro before e after he
  simp at he

theorem ordered_snoc [LT κ] {h : List (Event κ β)} {e : Event κ β} (ho : Ordered h)
    (he : Admissible (ledger h) e) : Ordered (h ++ [e]) := by
  intro before d after hsplit
  rcases List.eq_nil_or_concat after with rfl | ⟨after', d', rfl⟩
  · obtain ⟨rfl, heq⟩ := List.append_inj' hsplit rfl
    cases heq
    exact he
  · rw [List.concat_eq_append, ← List.cons_append, ← List.append_assoc] at hsplit
    exact ho before d after' (List.append_inj' hsplit rfl).1

/-! ## Each ticket is served at most once -/

/-- Tickets are numbered upwards, and no two pending ones have the same item. -/
structure WellKept (s : Ledger κ β) : Prop where
  ascending : (s.pending.map Ticket.number).Pairwise (· < ·)
  items : (s.pending.map Ticket.item).Nodup
  pendingIssued : ∀ t ∈ s.pending, t.number < s.issued
  servedIssued : ∀ t ∈ s.served, t.number < s.issued
  once : (s.served.map Ticket.number).Nodup
  apart : ∀ t ∈ s.pending, ∀ u ∈ s.served, t.number ≠ u.number

theorem wellKept_nil : WellKept (ledger ([] : List (Event κ β))) :=
  ⟨List.Pairwise.nil, List.nodup_nil, (fun _ h => nomatch h), (fun _ h => nomatch h),
    List.nodup_nil, (fun _ h => nomatch h)⟩

variable {s : Ledger κ β} {c : κ} {b : β}

omit [DecidableEq β] in
/-- A pending ticket is determined by its item. -/
theorem ticket_of_item (hs : WellKept s) {t u : Ticket κ β} (ht : t ∈ s.pending)
    (hu : u ∈ s.pending) (he : u.item = t.item) : u = t :=
  List.inj_on_of_nodup_map hs.items hu ht he

/-- The pending tickets with a given item are the one ticket that has it. -/
theorem filter_item (hs : WellKept s) {t : Ticket κ β} (ht : t ∈ s.pending) :
    (s.pending.filter fun u => u.item = t.item) = [t] := by
  have hnodup : s.pending.Nodup := hs.items.of_map _
  have hperm : (s.pending.filter fun u => u.item = t.item).Perm [t] := by
    refine (List.perm_ext_iff_of_nodup (hnodup.filter _) (List.nodup_singleton t)).mpr fun u => ?_
    rw [List.mem_filter, List.mem_singleton]
    constructor
    · intro hu
      exact ticket_of_item hs ht hu.1 (by simpa using hu.2)
    · intro hu
      subst hu
      exact ⟨ht, by simp⟩
  exact List.perm_singleton.mp hperm

theorem wellKept_accepted (hs : WellKept s) (hb : ∀ t ∈ s.pending, t.item ≠ b) :
    WellKept (record s (.accepted c b)) := by
  have hnew : ∀ t ∈ (record s (.accepted c b)).pending,
      t ∈ s.pending ∨ t = ⟨s.issued, c, b⟩ := by
    intro t ht
    simpa [record] using ht
  constructor
  · rw [record, List.map_append, List.pairwise_append]
    refine ⟨hs.ascending, List.pairwise_singleton _ _, fun n hn m hm => ?_⟩
    obtain ⟨t, ht, rfl⟩ := List.mem_map.mp hn
    rw [List.map_singleton, List.mem_singleton] at hm
    rw [hm]
    exact hs.pendingIssued t ht
  · rw [record, List.map_append, List.map_singleton, List.nodup_append]
    refine ⟨hs.items, List.nodup_singleton _, fun i hi j hj he => ?_⟩
    obtain ⟨t, ht, rfl⟩ := List.mem_map.mp hi
    rw [List.mem_singleton] at hj
    exact hb t ht (he.trans hj)
  · intro t ht
    rcases hnew t ht with hold | rfl
    · exact Nat.lt_succ_of_lt (hs.pendingIssued t hold)
    · exact Nat.lt_succ_self _
  · exact fun t ht => Nat.lt_succ_of_lt (hs.servedIssued t ht)
  · exact hs.once
  · intro t ht u hu
    rcases hnew t ht with hold | rfl
    · exact hs.apart t hold u hu
    · have := hs.servedIssued u hu
      change s.issued ≠ u.number
      omega

theorem wellKept_delivered (hs : WellKept s) {t : Ticket κ β} (ht : t ∈ s.pending)
    (hb : t.item = b) : WellKept (record s (.delivered c b)) := by
  subst hb
  have hsub : (s.pending.filter fun u => u.item ≠ t.item).Sublist s.pending :=
    List.filter_sublist
  have hserved : (record s (.delivered c t.item)).served = s.served ++ [t] := by
    rw [record, filter_item hs ht]
  constructor
  · exact hs.ascending.sublist (hsub.map _)
  · exact hs.items.sublist (hsub.map _)
  · exact fun u hu => hs.pendingIssued u (hsub.subset hu)
  · intro u hu
    rw [hserved, List.mem_append, List.mem_singleton] at hu
    rcases hu with hold | rfl
    · exact hs.servedIssued u hold
    · exact hs.pendingIssued u ht
  · rw [hserved, List.map_append, List.map_singleton, List.nodup_append]
    refine ⟨hs.once, List.nodup_singleton _, fun n hn m hm => ?_⟩
    obtain ⟨u, hu, rfl⟩ := List.mem_map.mp hn
    rw [List.mem_singleton] at hm
    rw [hm]
    exact (hs.apart t ht u hu).symm
  · intro u hu v hv
    rw [hserved, List.mem_append, List.mem_singleton] at hv
    obtain ⟨hold, hne⟩ := List.mem_filter.mp hu
    rcases hv with hv | rfl
    · exact hs.apart u hold v hv
    · intro he
      have heq : u = v := List.inj_on_of_nodup_map
        (hs.ascending.imp fun hlt => Nat.ne_of_lt hlt) hold ht he
      simp [heq] at hne

theorem wellKept_record [LT κ] (hs : WellKept s) {e : Event κ β} (he : Admissible s e) :
    WellKept (record s e) := by
  cases e with
  | accepted c b => exact wellKept_accepted hs he
  | delivered c b =>
    obtain ⟨t, ht, hb, _⟩ := he
    exact wellKept_delivered hs ht hb

/-- An admissible delivery serves exactly one ticket. -/
theorem served_record [LT κ] (hs : WellKept s) {e : Event κ β} (he : Admissible s e) :
    (record s e).served.length = s.served.length + if e.isDelivery then 1 else 0 := by
  cases e with
  | accepted c b => rfl
  | delivered c b =>
    obtain ⟨t, ht, rfl, _⟩ := he
    rw [record, filter_item hs ht]
    simp [Event.isDelivery]

theorem pending_delivered (hs : WellKept s) {t : Ticket κ β} (ht : t ∈ s.pending)
    (hb : t.item = b) :
    (record s (.delivered c b)).pending.length + 1 = s.pending.length := by
  subst hb
  have hsplit := List.length_eq_length_filter_add (l := s.pending) fun u => u.item = t.item
  rw [filter_item hs ht, List.length_singleton] at hsplit
  rw [hsplit, record, Nat.add_comm]
  simp

theorem wellKept_ledger [LT κ] {h : List (Event κ β)} (ho : Ordered h) :
    WellKept (ledger h) ∧ (ledger h).served.length = h.countP Event.isDelivery := by
  induction h using List.reverseRecOn with
  | nil => exact ⟨wellKept_nil, rfl⟩
  | append_singleton h e ih =>
    have he : Admissible (ledger h) e := ho h e [] rfl
    obtain ⟨hs, hlen⟩ := ih fun before d after hsplit =>
      ho before d (after ++ [e]) (by rw [hsplit]; simp)
    rw [ledger_snoc]
    refine ⟨wellKept_record hs he, ?_⟩
    rw [served_record hs he, hlen, List.countP_append, List.countP_singleton]

/-! ## The queue of a class -/

variable [DecidableEq κ]

/-- The items pending in class `c`, oldest first. -/
def classItems (s : Ledger κ β) (c : κ) : List β :=
  (s.pending.filter fun t => t.cls = c).map Ticket.item

omit [DecidableEq β] in
theorem mem_classItems {i : β} :
    i ∈ classItems s c ↔ ∃ t ∈ s.pending, t.cls = c ∧ t.item = i := by
  simp only [classItems, List.mem_map, List.mem_filter, decide_eq_true_eq, and_assoc]

theorem classItems_accepted (s : Ledger κ β) (c c' : κ) (b : β) :
    classItems (record s (.accepted c b)) c' =
      classItems s c' ++ if c = c' then [b] else [] := by
  unfold classItems record
  by_cases hc : c = c' <;> simp [List.filter_append, hc]

theorem classItems_delivered (s : Ledger κ β) (c c' : κ) (b : β) :
    classItems (record s (.delivered c b)) c' = (classItems s c').filter fun i => i ≠ b := by
  unfold classItems record
  rw [List.filter_map, List.filter_filter, List.filter_filter]
  congr 1
  refine List.filter_congr fun t _ => ?_
  simp [Bool.and_comm]

omit [DecidableEq β] in
theorem nodup_classItems (hs : WellKept s) (c : κ) : (classItems s c).Nodup :=
  hs.items.sublist (List.filter_sublist.map _)

/-- Delivering the first item of a class takes it off the queue of that class. -/
theorem classItems_delivered_self (hs : WellKept s) {rest : List β}
    (h : classItems s c = b :: rest) :
    classItems (record s (.delivered c b)) c = rest := by
  have hn := nodup_classItems hs c
  rw [h] at hn
  rw [classItems_delivered, h, List.filter_cons_of_neg (by simp)]
  refine List.filter_eq_self.mpr fun i hi => ?_
  have hne : i ≠ b := fun he => (List.nodup_cons.mp hn).1 (he ▸ hi)
  simpa using hne

/-- It leaves the queues of the other classes alone. -/
theorem classItems_delivered_other (hs : WellKept s) {c' : κ} (hb : b ∈ classItems s c)
    (hc : c' ≠ c) : classItems (record s (.delivered c b)) c' = classItems s c' := by
  obtain ⟨t, ht, htc, rfl⟩ := mem_classItems.mp hb
  rw [classItems_delivered]
  refine List.filter_eq_self.mpr fun i hi => ?_
  obtain ⟨u, hu, huc, rfl⟩ := mem_classItems.mp hi
  have hne : u.item ≠ t.item := fun he => hc (by rw [← huc, ← htc, ticket_of_item hs ht hu he])
  simpa using hne

omit [DecidableEq β] in
/-- The first item of the smallest class that has any may be delivered. -/
theorem admissible_of_first {κ : Type} [DecidableEq κ] [LinearOrder κ] {s : Ledger κ β} {c : κ}
    (hs : WellKept s) {rest : List β} (h : classItems s c = b :: rest)
    (hsmall : ∀ c' < c, classItems s c' = []) : Admissible s (.delivered c b) := by
  unfold classItems at h
  cases hf : s.pending.filter fun t => t.cls = c with
  | nil =>
    rw [hf] at h
    cases h
  | cons t ts =>
    rw [hf, List.map_cons, List.cons.injEq] at h
    have hmem : t ∈ s.pending.filter fun t => t.cls = c := by
      rw [hf]
      exact List.mem_cons_self
    obtain ⟨ht, htc⟩ := List.mem_filter.mp hmem
    refine ⟨t, ht, h.1, by simpa using htc, fun u hu hne => ?_⟩
    rcases lt_trichotomy u.cls c with hlt | heq | hgt
    · have hin : u.item ∈ classItems s u.cls := mem_classItems.mpr ⟨u, hu, rfl, rfl⟩
      rw [hsmall _ hlt] at hin
      cases hin
    · refine .inr ⟨heq, ?_⟩
      have hasc : ((t :: ts).map Ticket.number).Pairwise (· < ·) := by
        rw [← hf]
        exact hs.ascending.sublist (List.filter_sublist.map _)
      have hu' : u ∈ t :: ts := by
        rw [← hf]
        exact List.mem_filter.mpr ⟨hu, by simpa using heq⟩
      have hut : u ∈ ts := (List.mem_cons.mp hu').resolve_left hne
      exact (List.pairwise_cons.mp hasc).1 _ (List.mem_map.mpr ⟨u, hut, rfl⟩)
    · exact .inl hgt

end DisastrOS.Library.ClassFifo
