import Mathlib.Tactic.Common

/-!
# Counting semaphores

A semaphore is a number of permits and a queue of those that wait for one. Every operation
tells what has happened. Permits are neither lost nor made up over a history of operations,
and the queue is served in the order in which it has been filled.
-/
namespace DisastrOS.Library.CountingSemaphore

variable {α : Type}

structure Sem (α : Type) where
  count : Int
  queue : List α

inductive Event (α : Type) where
  /-- `a` has taken a permit at once -/
  | granted (a : α)
  /-- `a` has been put into the queue -/
  | blocked (a : α)
  /-- a permit has been given back -/
  | posted
  /-- `a` has been taken out of the queue with a permit -/
  | woken (a : α)
  deriving DecidableEq

namespace Event

/-- Somebody has been let through. -/
def isPassed : Event α → Bool
  | granted _ | woken _ => true
  | _ => false

def isPosted : Event α → Bool
  | posted => true
  | _ => false

def queued? : Event α → Option α
  | blocked a => some a
  | _ => none

def awakened? : Event α → Option α
  | woken a => some a
  | _ => none

end Event

def wait (a : α) (s : Sem α) : Sem α × List (Event α) :=
  if 0 < s.count then (⟨s.count - 1, s.queue⟩, [.granted a])
  else (⟨s.count, s.queue ++ [a]⟩, [.blocked a])

def post (s : Sem α) : Sem α × List (Event α) :=
  if 0 < s.count + 1 then
    match s.queue with
    | [] => (⟨s.count + 1, []⟩, [.posted])
    | a :: as => (⟨s.count, as⟩, [.posted, .woken a])
  else (⟨s.count + 1, s.queue⟩, [.posted])

/-- What one operation, or none, does to a semaphore. -/
inductive Moves (s : Sem α) : List (Event α) → Sem α → Prop
  | idle : Moves s [] s
  | wait (a : α) : Moves s (wait a s).2 (wait a s).1
  | post : Moves s (post s).2 (post s).1

/-! ## Histories -/

/-- How many have been let through. -/
def passed (h : List (Event α)) : Nat := h.countP Event.isPassed

def posts (h : List (Event α)) : Nat := h.countP Event.isPosted

/-- Who has been put into the queue, in this order. -/
def queued (h : List (Event α)) : List α := h.filterMap Event.queued?

/-- Who has been taken out of the queue, in this order. -/
def awakened (h : List (Event α)) : List α := h.filterMap Event.awakened?

/-- The history `h` accounts for what has become of the semaphore `s₀`. -/
structure Balanced (s₀ : Sem α) (h : List (Event α)) (s : Sem α) : Prop where
  permits : s₀.count + posts h = s.count + passed h
  order : s₀.queue ++ queued h = awakened h ++ s.queue

variable {s₀ s s' : Sem α} {h es : List (Event α)} {a : α}

theorem Balanced.refl (s : Sem α) : Balanced s [] s :=
  ⟨rfl, List.append_nil _⟩

theorem Balanced.trans {h' : List (Event α)} (hb : Balanced s₀ h s) (hb' : Balanced s h' s') :
    Balanced s₀ (h ++ h') s' := by
  constructor
  · have h₁ := hb.permits
    have h₂ := hb'.permits
    simp only [posts, passed, List.countP_append, Int.natCast_add] at h₁ h₂ ⊢
    omega
  · have h₁ := hb.order
    have h₂ := hb'.order
    simp only [queued, awakened, List.filterMap_append] at h₁ h₂ ⊢
    rw [← List.append_assoc, h₁, List.append_assoc, h₂, List.append_assoc]

theorem balanced_wait (a : α) (s : Sem α) : Balanced s (wait a s).2 (wait a s).1 := by
  unfold wait
  split
  · constructor
    · show s.count + 0 = s.count - 1 + 1
      omega
    · exact List.append_nil _
  · exact ⟨rfl, rfl⟩

theorem balanced_post (s : Sem α) : Balanced s (post s).2 (post s).1 := by
  obtain ⟨count, queue⟩ := s
  unfold post
  split
  · cases queue with
    | nil =>
      constructor
      · show count + 1 = count + 1 + 0
        omega
      · exact List.append_nil _
    | cons a as => exact ⟨rfl, List.append_nil _⟩
  · constructor
    · show count + 1 = count + 1 + 0
      omega
    · exact List.append_nil _

theorem Moves.balanced (h : Moves s es s') : Balanced s es s' := by
  cases h with
  | idle => exact .refl s
  | wait a => exact balanced_wait a s
  | post => exact balanced_post s

/-- Once there is no debt of permits there never is one. -/
theorem Moves.nonneg (h : Moves s es s') (h0 : 0 ≤ s.count) : 0 ≤ s'.count := by
  cases h with
  | idle => exact h0
  | wait a =>
    unfold CountingSemaphore.wait
    split
    · show 0 ≤ s.count - 1
      omega
    · exact h0
  | post =>
    unfold CountingSemaphore.post
    split
    · split
      · show 0 ≤ s.count + 1
        omega
      · exact h0
    · show 0 ≤ s.count + 1
      omega

/-- There are more permits after a post only. -/
theorem Moves.count_le (h : Moves s es s') :
    s'.count ≤ s.count ∨ (.posted ∈ es ∧ s'.count = s.count + 1) := by
  cases h with
  | idle => exact .inl (Int.le_refl _)
  | wait a =>
    unfold CountingSemaphore.wait
    split
    · exact .inl (Int.sub_le_self _ (by decide))
    · exact .inl (Int.le_refl _)
  | post =>
    obtain ⟨count, queue⟩ := s
    unfold CountingSemaphore.post
    split
    · cases queue with
      | nil => exact .inr ⟨List.mem_cons_self, rfl⟩
      | cons a as => exact .inl (Int.le_refl _)
    · exact .inr ⟨List.mem_cons_self, rfl⟩

/-- The events tell which operation it was. -/
theorem Moves.of_nil (h : Moves s [] s') : s' = s := by
  generalize hes : ([] : List (Event α)) = es at h
  cases h with
  | idle => rfl
  | wait a =>
    unfold CountingSemaphore.wait at hes
    split at hes <;> cases hes
  | post =>
    obtain ⟨count, queue⟩ := s
    unfold CountingSemaphore.post at hes
    split at hes
    · cases queue <;> cases hes
    · cases hes

theorem Moves.of_wait (h : Moves s es s') (hes : es = [.granted a] ∨ es = [.blocked a]) :
    s' = (CountingSemaphore.wait a s).1 := by
  cases h with
  | idle => rcases hes with hes | hes <;> cases hes
  | wait b =>
    have hb : b = a := by
      unfold CountingSemaphore.wait at hes
      split at hes <;> rcases hes with hes | hes <;> cases hes <;> rfl
    rw [hb]
  | post =>
    obtain ⟨count, queue⟩ := s
    unfold CountingSemaphore.post at hes
    split at hes
    · cases queue <;> rcases hes with hes | hes <;> cases hes
    · rcases hes with hes | hes <;> cases hes

theorem Moves.of_post (h : Moves s (.posted :: es) s') : s' = (CountingSemaphore.post s).1 := by
  generalize hall : Event.posted :: es = all at h
  cases h with
  | idle => cases hall
  | wait b =>
    unfold CountingSemaphore.wait at hall
    split at hall <;> cases hall
  | post => rfl

/-- Nobody waits while there are permits. -/
def Idle (s : Sem α) : Prop := 0 < s.count → s.queue = []

theorem Moves.idle_kept (h : Moves s es s') (hi : Idle s) : Idle s' := by
  cases h with
  | idle => exact hi
  | wait a =>
    unfold CountingSemaphore.wait
    split
    · next hcount => exact fun _ => hi hcount
    · next hcount => exact fun hpos => absurd hpos hcount
  | post =>
    obtain ⟨count, queue⟩ := s
    unfold CountingSemaphore.post
    split
    · cases queue with
      | nil => exact fun _ => rfl
      | cons a as =>
        intro hpos
        cases hi hpos
    · next hcount => exact fun hpos => absurd hpos hcount

/-! ## Turns -/

/-- How many posts it takes before the next one wakes somebody. -/
def debt (s : Sem α) : Nat := (-s.count).toNat

/-- The posts of `h` have paid for the debt of `s₀`, and woken those that waited from then on. -/
structure Served (s₀ : Sem α) (h : List (Event α)) (s : Sem α) : Prop where
  owing : posts h < debt s₀ → s.count = s₀.count + posts h
  paid : debt s₀ ≤ posts h → 0 ≤ s.count
  most : (awakened h).length ≤ posts h - debt s₀
  least : posts h - debt s₀ ≤ (awakened h).length ∨ s₀.queue.length ≤ (awakened h).length

theorem Served.refl (s : Sem α) : Served s [] s := by
  have hnone : posts ([] : List (Event α)) = 0 := rfl
  refine ⟨fun _ => (Int.add_zero _).symm, fun hle => ?_, Nat.zero_le _, .inl ?_⟩
  · rw [hnone] at hle
    unfold debt at hle
    omega
  · rw [hnone, Nat.zero_sub]
    exact Nat.zero_le _

theorem posts_append (h es : List (Event α)) : posts (h ++ es) = posts h + posts es :=
  List.countP_append

theorem awakened_append (h es : List (Event α)) :
    awakened (h ++ es) = awakened h ++ awakened es :=
  List.filterMap_append

/-- Nothing is posted and nobody is woken. -/
theorem Served.quiet (hs : Served s₀ h s) (hposts : posts es = 0) (hawakened : awakened es = [])
    (howing : s.count < 0 → s'.count = s.count) (hpaid : 0 ≤ s.count → 0 ≤ s'.count) :
    Served s₀ (h ++ es) s' := by
  have hp : posts (h ++ es) = posts h := by rw [posts_append, hposts, Nat.add_zero]
  have ha : awakened (h ++ es) = awakened h := by
    rw [awakened_append, hawakened, List.append_nil]
  constructor
  · intro hlt
    rw [hp] at hlt ⊢
    have hcount := hs.owing hlt
    rw [howing, hcount]
    unfold debt at hlt
    omega
  · intro hle
    rw [hp] at hle
    exact hpaid (hs.paid hle)
  · rw [ha, hp]
    exact hs.most
  · rw [ha, hp]
    exact hs.least

theorem Served.wait (hs : Served s₀ h s) (a : α) :
    Served s₀ (h ++ (CountingSemaphore.wait a s).2) (CountingSemaphore.wait a s).1 := by
  unfold CountingSemaphore.wait
  split
  · next hcount =>
    refine hs.quiet rfl rfl (fun hneg => ?_) fun _ => ?_
    · omega
    · show 0 ≤ s.count - 1
      omega
  · exact hs.quiet rfl rfl (fun _ => rfl) id

/-- A post that finds a debt, or nobody of those that waited, raises the count. -/
theorem Served.raise {as : List α} (hs : Served s₀ h s)
    (hno : s.count < 0 ∨ s₀.queue.length ≤ (awakened h).length) :
    Served s₀ (h ++ [.posted]) ⟨s.count + 1, as⟩ := by
  obtain ⟨howing, hpaid, hmost, hleast⟩ := hs
  have hp : posts (h ++ [.posted]) = posts h + 1 := posts_append h [.posted]
  have ha : awakened (h ++ [.posted]) = awakened h :=
    (awakened_append h [.posted]).trans (List.append_nil _)
  constructor
  · intro hlt
    show s.count + 1 = _
    omega
  · intro hle
    show 0 ≤ s.count + 1
    unfold debt at *
    omega
  · rw [ha, hp]
    omega
  · rw [ha, hp]
    omega

/-- A post after the debt wakes the first that waits. -/
theorem Served.wake {as : List α} (hs : Served s₀ h s) (h0 : 0 ≤ s.count) (a : α) :
    Served s₀ (h ++ [.posted, .woken a]) ⟨s.count, as⟩ := by
  obtain ⟨howing, hpaid, hmost, hleast⟩ := hs
  have hp : posts (h ++ [.posted, .woken a]) = posts h + 1 := posts_append h [.posted, .woken a]
  have ha : awakened (h ++ [.posted, .woken a]) = awakened h ++ [a] :=
    awakened_append h [.posted, .woken a]
  have hdone : debt s₀ ≤ posts h := by
    unfold debt at *
    omega
  have hlen : (awakened h ++ [a]).length = (awakened h).length + 1 := List.length_append
  constructor
  · intro hlt
    omega
  · intro _
    exact h0
  · rw [ha, hp, hlen]
    omega
  · rw [ha, hp, hlen]
    omega

theorem Served.post (hs : Served s₀ h s) (hb : Balanced s₀ h s) :
    Served s₀ (h ++ (CountingSemaphore.post s).2) (CountingSemaphore.post s).1 := by
  have horder := congrArg List.length hb.order
  rw [List.length_append, List.length_append] at horder
  unfold CountingSemaphore.post
  split
  · next hpos =>
    split
    · next hnobody =>
      rw [hnobody, List.length_nil] at horder
      exact hs.raise (.inr (by omega))
    · next a as _ => exact hs.wake (by omega) a
  · exact hs.raise (.inl (by omega))

theorem Served.moves (hs : Served s₀ h s) (hb : Balanced s₀ h s) (hm : Moves s es s') :
    Served s₀ (h ++ es) s' := by
  cases hm with
  | idle => exact hs.quiet rfl rfl (fun _ => rfl) id
  | wait a => exact hs.wait a
  | post => exact hs.post hb

/-- Who waits at place `i` has moved up by one place for each post after the debt. -/
theorem Served.waits {i : Nat} (hs : Served s₀ h s) (hb : Balanced s₀ h s)
    (hi : s₀.queue[i]? = some a) (hle : posts h ≤ i + debt s₀) :
    (awakened h)[i]? = none ∧ s.queue[i - (posts h - debt s₀)]? = some a := by
  obtain ⟨hlt, -⟩ := List.getElem?_eq_some_iff.mp hi
  have hmost := hs.most
  have hwoken : (awakened h).length = posts h - debt s₀ := by
    rcases hs.least with hleast | hleast <;> omega
  refine ⟨List.getElem?_eq_none (by omega), ?_⟩
  have hsame := congrArg (·[i]?) hb.order
  rwa [List.getElem?_append_left hlt, hi, List.getElem?_append_right (by omega), hwoken,
    eq_comm] at hsame

/-- Who waits at place `i` is the next but `i` to be woken, by the next post but `i` after the
debt. -/
theorem Served.woken {i : Nat} (hs : Served s₀ h s) (hb : Balanced s₀ h s)
    (hi : s₀.queue[i]? = some a) (hlt : i + debt s₀ < posts h) : (awakened h)[i]? = some a := by
  obtain ⟨hlen, -⟩ := List.getElem?_eq_some_iff.mp hi
  have hwoken : i < (awakened h).length := by
    rcases hs.least with hleast | hleast <;> omega
  have hsame := congrArg (·[i]?) hb.order
  rwa [List.getElem?_append_left hlen, hi, List.getElem?_append_left hwoken, eq_comm] at hsame

/-! ## Critical sections -/

/-- What is seen at the entrance of a critical section. -/
inductive Gate (β : Type) where
  | entered (b : β)
  | left (b : β)

/-- Whoever is let through enters, and `b`, who posts, leaves. -/
def Event.gate {β : Type} (who : α → β) (b : β) : Event α → Option (Gate β)
  | granted a | woken a => some (.entered (who a))
  | posted => some (.left b)
  | blocked _ => none

variable {β : Type} [DecidableEq β] {b : β} {bs : List β} {who : α → β}

def Gate.pass (bs : List β) : Gate β → List β
  | entered b => b :: bs
  | left b => bs.erase b

/-- Who is inside after the history `g`. -/
def inside (g : List (Gate β)) : List β := g.foldl Gate.pass []

theorem inside_append (g g' : List (Gate β)) : inside (g ++ g') = g'.foldl Gate.pass (inside g) :=
  List.foldl_append

/-- An operation makes as much room inside as it makes permits, if who posts has been inside. -/
theorem Moves.occupancy (who : α → β) (hm : Moves s es s') (hin : .posted ∈ es → b ∈ bs) :
    (((es.filterMap (Event.gate who b)).foldl Gate.pass bs).length : Int) + s'.count =
      bs.length + s.count := by
  have hleaves : b ∈ bs → ((bs.erase b).length : Int) + 1 = bs.length := by
    intro hb
    have hlen := List.length_erase_of_mem hb
    have hpos := List.length_pos_of_mem hb
    omega
  cases hm with
  | idle => rfl
  | wait a =>
    unfold CountingSemaphore.wait
    split
    · show ((who a :: bs).length : Int) + (s.count - 1) = _
      rw [List.length_cons]
      omega
    · rfl
  | post =>
    obtain ⟨count, queue⟩ := s
    unfold CountingSemaphore.post at hin ⊢
    split
    · next hpos =>
      rw [if_pos hpos] at hin
      cases queue with
      | nil =>
        have hlen := hleaves (hin List.mem_cons_self)
        show ((bs.erase b).length : Int) + (count + 1) = bs.length + count
        omega
      | cons a as =>
        have hlen := hleaves (hin List.mem_cons_self)
        show ((who a :: bs.erase b).length : Int) + count = bs.length + count
        rw [List.length_cons]
        omega
    · next hneg =>
      rw [if_neg hneg] at hin
      have hlen := hleaves (hin List.mem_cons_self)
      show ((bs.erase b).length : Int) + (count + 1) = bs.length + count
      omega

end DisastrOS.Library.CountingSemaphore
