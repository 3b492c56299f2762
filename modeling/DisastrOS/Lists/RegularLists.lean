import DisastrOS.Lists.Wiring

/-!
# The lists that keep their shape

`mqOpen` may link the lists of message queues and of queues into each other. All other
lists are sequences in every state; `Woven` says so, and that what belongs to message
queues and queues is still as in a state `base`.
-/
namespace DisastrOS.Lists.RegularLists

open DisastrOS.Machine
open DisastrOS.Lists.Sequences
open DisastrOS.Lists.Wiring
open DisastrOS.Pool.Blocks
open DisastrOS.Library.LinkedSequence

/-- The kinds that are in lists of one kind only. -/
def Regular (kind : Kind) : Prop := kind ≠ .messageQueue ∧ kind ≠ .queue

/-- The kind whose blocks are moved between lists: one that is in no list has no links. -/
def Retained (kind : Kind) : Prop := kind = .pcb

instance : DecidablePred Regular := fun _ => inferInstanceAs (Decidable (_ ∧ _))

theorem regular_children (p : Nat) : Regular (HeadAddr.children p).nodeKind :=
  (by decide : Regular .pcbPtr)

theorem regular_waitingDescriptors (s : Nat) : Regular (HeadAddr.waitingDescriptors s).nodeKind :=
  (by decide : Regular .semDescriptorPtr)

theorem regular_descriptorKind (t : Table) : Regular t.descriptorKind := by
  cases t <;> decide

theorem regular_pointerKind (t : Table) : Regular t.pointerKind := by
  cases t <;> decide

/-- A regular list is not an irregular one. -/
theorem ne_of_irregular {l j : HeadAddr} (hl : ¬ Regular l.nodeKind) (hj : Regular j.nodeKind) :
    l ≠ j :=
  fun he => hl (he ▸ hj)

/-- The regular lists hold `L`, and all else is linked as in `base`. -/
structure Woven (base k : Kernel) (L : HeadAddr → List Node) : Prop where
  strung : Strung Regular Retained k L
  confined : Confined Regular base k
  pool : ∀ kind, ¬ Regular kind → k.pool kind = base.pool kind

variable {base k k' : Kernel} {L L' : HeadAddr → List Node} {l l' : HeadAddr} {x : Node}
  {kind : Kind} {i : Nat}

theorem Woven.refl (h : Strung Regular Retained k L) : Woven k k L :=
  ⟨h, confined_of_lists rfl, fun _ _ => rfl⟩

theorem Woven.step (h : Woven base k L) (hs : Strung Regular Retained k' L')
    (hc : Confined Regular k k') (hpool : ∀ kind, ¬ Regular kind → k'.pool kind = k.pool kind) :
    Woven base k' L' :=
  ⟨hs, confined_trans h.confined hc, fun kind hk => (hpool kind hk).trans (h.pool kind hk)⟩

theorem Woven.congr (h : Woven base k L) (hlists : k'.lists = k.lists) (hpool : k'.pool = k.pool) :
    Woven base k' L :=
  h.step (h.strung.congr hlists hpool) (confined_of_lists hlists) fun _ _ => by rw [hpool]

theorem Woven.newItem (h : Woven base k L) (hkind : Regular kind) (hf : Fresh k kind i k') :
    Woven base k' L := by
  refine h.step (h.strung.newItem hf) (confined_newItem hkind hf) fun kind' hk' => ?_
  exact fresh_pool hf fun he => hk' (by rwa [he])

theorem Woven.releaseBlock (h : Woven base k L) (hkind : Regular kind) (hi : Allocated k kind i)
    (hout : ∀ l, l.nodeKind = kind → ⟨kind, i⟩ ∉ L l) :
    Woven base (k.releaseBlock kind i) L := by
  refine h.step (h.strung.releaseBlock kind i hi (h.strung.unlisted hout))
    (confined_of_lists rfl) fun kind' hk' => ?_
  exact releaseBlock_pool _ _ fun he => hk' (by rwa [he])

theorem Woven.insert {as bs : List Node} (h : Woven base k L) (hl : Regular l.nodeKind)
    (hsplit : L l = as ++ bs) (hk : x.kind = l.nodeKind) (hx : Allocated k x.kind x.idx)
    (hloose : Unlinked k.lists x) (hout : ∀ l', l'.nodeKind = x.kind → x ∉ L l') :
    Woven base (k.insert l as.getLast? x) (Function.update L l (as ++ x :: bs)) := by
  have hun := h.strung.unlisted hout
  exact h.step (h.strung.insert hl hsplit hk hx hloose hun)
    (h.strung.confined_insert hl hsplit hk hloose hun) fun _ _ => rfl

theorem Woven.append (h : Woven base k L) (hl : Regular l.nodeKind) (hk : x.kind = l.nodeKind)
    (hx : Allocated k x.kind x.idx) (hloose : Unlinked k.lists x)
    (hout : ∀ l', l'.nodeKind = x.kind → x ∉ L l') :
    Woven base (k.append l x) (Function.update L l (L l ++ [x])) := by
  unfold Kernel.append
  rw [h.strung.last_eq hl]
  exact h.insert hl (List.append_nil _).symm hk hx hloose hout

theorem Woven.detach (h : Woven base k L) (hl : Regular l.nodeKind) (hx : x ∈ L l) :
    Woven base (k.detach l x) (Function.update L l ((L l).erase x)) :=
  h.step (h.strung.detach hl hx) (h.strung.confined_detach hl hx) fun _ _ => rfl

/-- Taking the first node of a list. -/
theorem Woven.detachFirst_ok (h : Woven base k L) (hl : Regular l.nodeKind)
    (hd : k.detachFirst l = .ok (i, k')) :
    ∃ rest, L l = ⟨l.nodeKind, i⟩ :: rest ∧ k' = k.detach l ⟨l.nodeKind, i⟩ ∧
      Woven base k' (Function.update L l rest) := by
  obtain ⟨rest, hL, hk, _⟩ := h.strung.detachFirst_ok hl hd
  have hw := h.detach (x := ⟨l.nodeKind, i⟩) hl (by simp [hL])
  rw [hL, List.erase_cons_head] at hw
  exact ⟨rest, hL, hk, hk ▸ hw⟩

theorem Woven.initList (h : Woven base k L) (hl : Regular l.nodeKind)
    (hL : l.nodeKind ≠ .pcb) : Woven base (k.initList l) (Function.update L l []) := by
  refine h.step (h.strung.initList hl fun ht => absurd ht hL) ⟨fun _ _ => rfl, fun l' hl' => ?_⟩
    fun _ _ => rfl
  have hne : l' ≠ l := fun he => hl' (he ▸ hl)
  exact Function.update_of_ne hne _ _

end DisastrOS.Lists.RegularLists
