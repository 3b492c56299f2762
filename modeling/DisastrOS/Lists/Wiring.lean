import Mathlib.Data.List.Perm.Subperm
import DisastrOS.Lists.Sequences
import DisastrOS.Pool.Blocks

/-!
# The wired lists of the kernel

`Strung` and `Wired` tie the lists whose nodes have a kind in `S` to finite sequences
of blocks in use. The list operations of the kernel are sequence operations on them.
-/
namespace DisastrOS.Lists.Wiring

open DisastrOS.Machine
open DisastrOS.Lists.Sequences
open DisastrOS.Pool.Blocks
open DisastrOS.Library.LinkedSequence
open DisastrOS.Library.Outcome

/-- The lists with nodes of a kind in `S` hold the sequences `L` of blocks in use. A
block in use of a kind in `T` that is in none of them has no links. -/
structure Strung (S T : Kind → Prop) (k : Kernel) (L : HeadAddr → List Node) : Prop where
  threaded : Threaded (fun l => S l.nodeKind) k.lists L
  kind : ∀ l x, S l.nodeKind → x ∈ L l → x.kind = l.nodeKind
  live : ∀ l x, S l.nodeKind → x ∈ L l → Allocated k x.kind x.idx
  loose : ∀ x, T x.kind → Allocated k x.kind x.idx → (∀ l, S l.nodeKind → x ∉ L l) →
    Unlinked k.lists x
  pooled : Pooled k

variable {S T : Kind → Prop} {k k' : Kernel} {L : HeadAddr → List Node} {l l' : HeadAddr}
  {x y : Node}

theorem Strung.congr (h : Strung S T k L) (hlists : k'.lists = k.lists)
    (hpool : k'.pool = k.pool) : Strung S T k' L := by
  have hall : ∀ kind i, Allocated k' kind i ↔ Allocated k kind i := fun _ _ =>
    allocated_congr hpool
  refine ⟨hlists ▸ h.threaded, h.kind, ?_, ?_, pooled_congr hpool h.pooled⟩
  · intro l x hl hx
    exact (hall _ _).mpr (h.live l x hl hx)
  · intro x hT ha hout
    rw [hlists]
    exact h.loose x hT ((hall _ _).mp ha) hout

/-! ## The nodes of a list -/

theorem Strung.nodup (h : Strung S T k L) (hl : S l.nodeKind) : (L l).Nodup :=
  h.threaded.nodup l hl

theorem Strung.holds (h : Strung S T k L) (hl : S l.nodeKind) : Holds k.lists l (L l) :=
  h.threaded.holds l hl

/-- A block is a node of at most one list. -/
theorem Strung.apart {j : HeadAddr} (h : Strung S T k L) (hl : S l.nodeKind) (hj : S j.nodeKind)
    (hx : x ∈ L l) (hx' : x ∈ L j) : l = j :=
  h.threaded.apart l j x hl hj hx hx'

theorem Strung.size_eq (h : Strung S T k L) (hl : S l.nodeKind) :
    (k.head l).size = (L l).length :=
  (h.holds hl).size

theorem Strung.first_eq (h : Strung S T k L) (hl : S l.nodeKind) :
    (k.head l).first = (L l).head? :=
  (h.holds hl).first

theorem Strung.last_eq (h : Strung S T k L) (hl : S l.nodeKind) :
    (k.head l).last = (L l).getLast? :=
  (h.holds hl).last

theorem Strung.size_zero_iff (h : Strung S T k L) (hl : S l.nodeKind) :
    (k.head l).size = 0 ↔ L l = [] := by
  rw [h.size_eq hl]
  cases L l with
  | nil => simp
  | cons x xs =>
    simp
    omega

theorem Strung.node_eq (h : Strung S T k L) (hl : S l.nodeKind) (hx : x ∈ L l) :
    x = ⟨l.nodeKind, x.idx⟩ := by
  have hk := h.kind l x hl hx
  cases x
  subst hk
  rfl

theorem Strung.mem_idx (h : Strung S T k L) (hl : S l.nodeKind) {i : Nat}
    (hi : i ∈ (L l).map Node.idx) : ⟨l.nodeKind, i⟩ ∈ L l := by
  obtain ⟨x, hx, rfl⟩ := List.mem_map.mp hi
  rwa [h.node_eq hl hx] at hx

/-- A list holds the blocks with the indices of its nodes. -/
theorem Strung.holds_idx (h : Strung S T k L) (hl : S l.nodeKind) :
    Holds k.lists l (((L l).map Node.idx).map (Node.mk l.nodeKind)) := by
  have hmap : ((L l).map Node.idx).map (Node.mk l.nodeKind) = L l := by
    rw [List.map_map]
    conv_rhs => rw [← List.map_id (L l)]
    exact List.map_congr_left fun x hx => (h.node_eq hl hx).symm
  rw [hmap]
  exact h.holds hl

theorem Strung.nodup_idx (h : Strung S T k L) (hl : S l.nodeKind) :
    ((L l).map Node.idx).Nodup := by
  refine List.Nodup.map_on ?_ (h.nodup hl)
  intro x hx y hy he
  rw [h.node_eq hl hx, h.node_eq hl hy, he]

theorem Strung.allocated (h : Strung S T k L) (hl : S l.nodeKind) {i : Nat}
    (hx : ⟨l.nodeKind, i⟩ ∈ L l) : Allocated k l.nodeKind i :=
  h.live l _ hl hx

/-- A pool has room for 1024 blocks at most, so a list is no longer. -/
theorem length_le_of_live {kind : Kind} {xs : List Node} (hp : Pooled k) (hn : xs.Nodup)
    (h : ∀ x ∈ xs, x.kind = kind ∧ Allocated k kind x.idx) : xs.length ≤ 1024 := by
  have hidx : (xs.map Node.idx).Nodup := by
    refine hn.map_on fun x hx y hy he => ?_
    have hkind := (h x hx).1.trans (h y hy).1.symm
    cases x
    cases y
    simp_all
  have hsub : xs.map Node.idx ⊆ List.range 1024 := by
    intro i hi
    obtain ⟨x, hx, rfl⟩ := List.mem_map.mp hi
    exact List.mem_range.mpr (allocated_bound hp (h x hx).2)
  have hlen := (List.subperm_of_subset hidx hsub).length_le
  rwa [List.length_map, List.length_range] at hlen

theorem Strung.length_le (h : Strung S T k L) (hl : S l.nodeKind) : (L l).length ≤ 1024 := by
  have hlive : ∀ x ∈ L l, x.kind = l.nodeKind ∧ Allocated k l.nodeKind x.idx := by
    intro x hx
    have hk := h.kind l x hl hx
    exact ⟨hk, hk ▸ h.live l x hl hx⟩
  exact length_le_of_live h.pooled (h.nodup hl) hlive

/-- A node can only be in the lists for its kind. -/
theorem Strung.unlisted (h : Strung S T k L) (hout : ∀ l, l.nodeKind = x.kind → x ∉ L l) :
    ∀ l, S l.nodeKind → x ∉ L l :=
  fun l hl hx => hout l (h.kind l x hl hx).symm hx

theorem mem_splice {as bs : List Node} (hsplit : L l = as ++ bs) :
    y ∈ Function.update L l (as ++ x :: bs) l' ↔ y ∈ L l' ∨ (l' = l ∧ y = x) := by
  by_cases he : l' = l
  · subst he
    rw [Function.update_self, hsplit]
    simp only [List.mem_append, List.mem_cons, true_and]
    tauto
  · rw [Function.update_of_ne he]
    simp [he]

theorem mem_append_update :
    y ∈ Function.update L l (L l ++ [x]) l' ↔ y ∈ L l' ∨ (l' = l ∧ y = x) :=
  mem_splice (by rw [List.append_nil])

theorem mem_erase_update (hn : (L l).Nodup) :
    y ∈ Function.update L l ((L l).erase x) l' ↔ y ∈ L l' ∧ ¬ (l' = l ∧ y = x) := by
  by_cases he : l' = l
  · subst he
    rw [Function.update_self, hn.mem_erase_iff]
    simp only [true_and]
    tauto
  · rw [Function.update_of_ne he]
    simp [he]

/-! ## Blocks -/

/-- What allocating an object of type `kind` does to the kernel. -/
structure Fresh (k : Kernel) (kind : Kind) (i : Nat) (k' : Kernel) : Prop where
  fresh : ¬ Allocated k kind i
  eq : k' = { k with
    lists := { k.lists with item := Function.update k.lists.item ⟨kind, i⟩ ⟨none, none⟩ }
    pool := Function.update k.pool kind (k.pool kind).getBlock.2 }
  pooled : Pooled k'
  size : (k'.pool kind).size = (k.pool kind).size - 1
  allocated : ∀ kind' j, Allocated k' kind' j ↔ (kind' = kind ∧ j = i) ∨ Allocated k kind' j
  first : (k.pool kind).firstIdx = i

theorem newItem_fresh {kind : Kind} {i : Nat} (h : Pooled k)
    (hnew : k.newItem kind = some (i, k')) : Fresh k kind i k' := by
  unfold Kernel.newItem at hnew
  split at hnew
  · cases hnew
  · next j k₁ hget =>
    cases hnew
    obtain ⟨hfresh, rfl, hpooled, hsize, hall, hfirst⟩ := getBlock_took h hget
    exact ⟨hfresh, rfl, hpooled, hsize, hall, hfirst⟩

theorem fresh_pool {kind kind' : Kind} {i : Nat} (h : Fresh k kind i k') (hne : kind' ≠ kind) :
    k'.pool kind' = k.pool kind' := by
  rw [h.eq]
  exact Function.update_of_ne hne _ _

theorem newItem_eq_none {kind : Kind} (h : Pooled k) :
    k.newItem kind = none ↔ (k.pool kind).size = 0 := by
  rw [← getBlock_eq_none h]
  unfold Kernel.newItem
  cases k.getBlock kind <;> simp

/-- A block that was free is in none of the lists. -/
theorem Strung.fresh_unlisted {kind : Kind} {i : Nat} (h : Strung S T k L)
    (hf : ¬ Allocated k kind i) (hl : S l.nodeKind) : ⟨kind, i⟩ ∉ L l :=
  fun hx => hf (h.live l _ hl hx)

theorem Strung.newItem {kind : Kind} {i : Nat} (h : Strung S T k L) (hf : Fresh k kind i k') :
    Strung S T k' L := by
  have hlists : k'.lists =
      { k.lists with item := Function.update k.lists.item ⟨kind, i⟩ ⟨none, none⟩ } := by
    rw [hf.eq]
  refine ⟨?_, h.kind, ?_, ?_, hf.pooled⟩
  · rw [hlists]
    exact threaded_setItem h.threaded (fun l hl => h.fresh_unlisted hf.fresh hl) _
  · intro l x hl hx
    exact (hf.allocated _ _).mpr (.inr (h.live l x hl hx))
  · intro x hT ha hout
    unfold Unlinked
    rw [hlists]
    by_cases he : x = ⟨kind, i⟩
    · rw [he]
      exact Function.update_self ..
    · change Function.update k.lists.item _ _ x = _
      rw [Function.update_of_ne he]
      refine h.loose x hT ?_ hout
      refine ((hf.allocated _ _).mp ha).resolve_left fun hx => he ?_
      cases x
      simp_all

/-- A new block has no links. -/
theorem unlinked_fresh {kind : Kind} {i : Nat} (hf : Fresh k kind i k') :
    Unlinked k'.lists ⟨kind, i⟩ := by
  unfold Unlinked
  rw [hf.eq]
  exact Function.update_self ..

theorem Strung.releaseBlock (kind : Kind) (i : Nat) (h : Strung S T k L)
    (hi : Allocated k kind i) (hout : ∀ l, S l.nodeKind → ⟨kind, i⟩ ∉ L l) :
    Strung S T (k.releaseBlock kind i) L := by
  have hr := releaseBlock_returned _ _ h.pooled hi
  refine ⟨h.threaded, h.kind, ?_, ?_, hr.pooled⟩
  · intro l x hl hx
    refine (hr.allocated _ _).mpr ⟨fun he => hout l hl ?_, h.live l x hl hx⟩
    cases x
    simp_all
  · intro x hT ha hx
    exact h.loose x hT ((hr.allocated _ _).mp ha).2 hx

/-! ## List operations -/

/-- Inserting a block without links between `as` and `bs`. -/
theorem Strung.insert {as bs : List Node} (h : Strung S T k L) (hl : S l.nodeKind)
    (hsplit : L l = as ++ bs) (hk : x.kind = l.nodeKind) (hx : Allocated k x.kind x.idx)
    (hloose : Unlinked k.lists x) (hout : ∀ l', S l'.nodeKind → x ∉ L l') :
    Strung S T (k.insert l as.getLast? x) (Function.update L l (as ++ x :: bs)) := by
  have hxl : x ∉ as ++ bs := hsplit ▸ hout l hl
  refine ⟨threaded_insert h.threaded hl hsplit hloose hout, ?_, ?_, ?_, h.pooled⟩
  · intro l' y hl' hy
    rcases (mem_splice hsplit).mp hy with hy | ⟨rfl, rfl⟩
    · exact h.kind l' y hl' hy
    · exact hk
  · intro l' y hl' hy
    rcases (mem_splice hsplit).mp hy with hy | ⟨rfl, rfl⟩
    · exact h.live l' y hl' hy
    · exact hx
  · intro y hT ha hy
    have hyl : y ∉ as ++ x :: bs := by
      have := hy l hl
      rwa [Function.update_self] at this
    have hyout : ∀ l', S l'.nodeKind → y ∉ L l' := fun l' hl' hm =>
      hy l' hl' ((mem_splice hsplit).mpr (.inl hm))
    unfold Unlinked
    change (listInsert k.lists l as.getLast? x).2.item y = _
    rw [insert_item (hsplit ▸ h.holds hl) hloose hxl (hsplit ▸ h.nodup hl) hyl]
    exact h.loose y hT ha hyout

theorem Strung.append (h : Strung S T k L) (hl : S l.nodeKind) (hk : x.kind = l.nodeKind)
    (hx : Allocated k x.kind x.idx) (hloose : Unlinked k.lists x)
    (hout : ∀ l', S l'.nodeKind → x ∉ L l') :
    Strung S T (k.append l x) (Function.update L l (L l ++ [x])) := by
  unfold Kernel.append
  rw [h.last_eq hl]
  exact h.insert hl (List.append_nil _).symm hk hx hloose hout

theorem Strung.detach (h : Strung S T k L) (hl : S l.nodeKind) (hx : x ∈ L l) :
    Strung S T (k.detach l x) (Function.update L l ((L l).erase x)) := by
  have hmem : ∀ l' y, y ∈ Function.update L l ((L l).erase x) l' ↔
      y ∈ L l' ∧ ¬ (l' = l ∧ y = x) := fun l' y => mem_erase_update (h.nodup hl)
  refine ⟨threaded_detach h.threaded hl hx, ?_, ?_, ?_, h.pooled⟩
  · intro l' y hl' hy
    exact h.kind l' y hl' ((hmem l' y).mp hy).1
  · intro l' y hl' hy
    exact h.live l' y hl' ((hmem l' y).mp hy).1
  · intro y hT ha hy
    by_cases he : y = x
    · rw [he]
      exact threaded_detach_unlinked h.threaded hl hx
    · have hout : ∀ l', S l'.nodeKind → y ∉ L l' := fun l' hl' hm =>
        hy l' hl' ((hmem l' y).mpr ⟨hm, fun hc => he hc.2⟩)
      unfold Unlinked
      change (listDetach k.lists l x).item y = _
      rw [threaded_detach_item h.threaded hl hx (hout l hl)]
      exact h.loose y hT ha hout

/-- A detached block has no links. -/
theorem Strung.detach_unlinked (h : Strung S T k L) (hl : S l.nodeKind) (hx : x ∈ L l) :
    Unlinked (k.detach l x).lists x :=
  threaded_detach_unlinked h.threaded hl hx

/-- A block outside of a list keeps having no links when the list changes. -/
theorem Strung.unlinked_detach (h : Strung S T k L) (hl : S l.nodeKind) (hy : y ∈ L l)
    (hx : x ∉ L l) (hu : Unlinked k.lists x) : Unlinked (k.detach l y).lists x :=
  (threaded_detach_item h.threaded hl hy hx).trans hu

theorem Strung.unlinked_append (h : Strung S T k L) (hl : S l.nodeKind)
    (hloose : Unlinked k.lists y) (hy : y ∉ L l) (hx : x ∉ L l) (hne : x ≠ y)
    (hu : Unlinked k.lists x) : Unlinked (k.append l y).lists x := by
  unfold Kernel.append Kernel.insert
  rw [h.last_eq hl]
  exact (threaded_insert_item h.threaded hl (List.append_nil _).symm hloose hy hx hne).trans hu

/-- Taking the first node of a list. -/
theorem Strung.detachFirst_ok {i : Nat} (h : Strung S T k L) (hl : S l.nodeKind)
    (hd : k.detachFirst l = .ok (i, k')) :
    ∃ rest, L l = ⟨l.nodeKind, i⟩ :: rest ∧ k' = k.detach l ⟨l.nodeKind, i⟩ ∧
      Strung S T k' (Function.update L l rest) := by
  unfold Kernel.detachFirst at hd
  rw [h.first_eq hl] at hd
  cases hL : L l with
  | nil =>
    rw [hL] at hd
    cases hd
  | cons y rest =>
    have hy : y ∈ L l := by simp [hL]
    have hnode := h.node_eq hl hy
    have hw := h.detach hl hy
    rw [hL, List.erase_cons_head] at hw
    rw [hL, hnode] at hd
    simp only [List.head?_cons, deref, castTo, bind, Except.bind, if_true, pure, Except.pure,
      Except.ok.injEq, Prod.mk.injEq] at hd
    obtain ⟨rfl, rfl⟩ := hd
    rw [hnode] at hw
    exact ⟨rest, by rw [← hnode], rfl, hw⟩

theorem Strung.detachFirst_cons {i : Nat} {rest : List Node} (h : Strung S T k L)
    (hl : S l.nodeKind) (hL : L l = ⟨l.nodeKind, i⟩ :: rest) :
    k.detachFirst l = .ok (i, k.detach l ⟨l.nodeKind, i⟩) := by
  unfold Kernel.detachFirst
  rw [h.first_eq hl, hL]
  simp [deref, castTo, bind, Except.bind, pure, Except.pure]

/-- Initialising a head. The nodes that it held are lost, which kinds in `T` exclude. -/
theorem Strung.initList (h : Strung S T k L) (hl : S l.nodeKind)
    (hL : T l.nodeKind → L l = []) : Strung S T (k.initList l) (Function.update L l []) := by
  have hsub : ∀ l' y, y ∈ Function.update L l [] l' → y ∈ L l' := by
    intro l' y hy
    by_cases he : l' = l
    · subst he
      rw [Function.update_self] at hy
      cases hy
    · rwa [Function.update_of_ne he] at hy
  refine ⟨threaded_init h.threaded, fun l' y hl' hy => h.kind l' y hl' (hsub l' y hy),
    fun l' y hl' hy => h.live l' y hl' (hsub l' y hy), fun y hT ha hout => ?_, h.pooled⟩
  refine h.loose y hT ha fun l' hl' hm => ?_
  by_cases he : l' = l
  · subst he
    rw [hL (h.kind l' y hl hm ▸ hT)] at hm
    cases hm
  · exact hout l' hl' (by rwa [Function.update_of_ne he])

/-- A head for nodes of another kind. -/
theorem Strung.initList_of_not (h : Strung S T k L) (hl : ¬ S l.nodeKind) :
    Strung S T (k.initList l) L := by
  refine ⟨⟨fun l' hl' => ?_, h.threaded.nodup, h.threaded.apart⟩, h.kind, h.live, h.loose,
    h.pooled⟩
  have hne : l' ≠ l := fun he => hl (he ▸ hl')
  exact holds_frame (h.holds hl') (Function.update_of_ne hne _ _) fun _ _ => rfl

/-- Lists of some kinds do not notice what happens to the nodes and heads of others. -/
theorem Strung.frame {L' : HeadAddr → List Node} (h : Strung S T k L)
    (hT : ∀ kind, T kind → S kind) (hitem : ∀ x, S x.kind → k'.lists.item x = k.lists.item x)
    (hhead : ∀ l, S l.nodeKind → k'.lists.head l = k.lists.head l)
    (hpool : ∀ kind, S kind → k'.pool kind = k.pool kind) (hpooled : Pooled k')
    (hL : ∀ l, S l.nodeKind → L' l = L l) : Strung S T k' L' := by
  refine ⟨⟨fun l hl => ?_, fun l hl => ?_, fun l l' x hl hl' hx hx' => ?_⟩,
    fun l x hl hx => ?_, fun l x hl hx => ?_, fun x hx ha hout => ?_, hpooled⟩
  · rw [hL l hl]
    exact holds_frame (h.holds hl) (hhead l hl) fun x hx => hitem x (h.kind l x hl hx ▸ hl)
  · rw [hL l hl]
    exact h.nodup hl
  · rw [hL l hl] at hx
    rw [hL l' hl'] at hx'
    exact h.apart hl hl' hx hx'
  · rw [hL l hl] at hx
    exact h.kind l x hl hx
  · rw [hL l hl] at hx
    exact (allocated_of_pool (hpool _ (h.kind l x hl hx ▸ hl))).mpr (h.live l x hl hx)
  · have hS := hT _ hx
    unfold Unlinked
    rw [hitem x hS]
    refine h.loose x hx ((allocated_of_pool (hpool _ hS)).mp ha) fun l hl hm => hout l hl ?_
    rwa [hL l hl]

/-! ## Searching -/

/-- The search loop visits the sequence from any of its nodes on. -/
theorem searchFrom_eq {kind : Kind} {p : Nat → Except Fault Bool} {cell : Node → Cell Node}
    (hcell : k.lists.item = cell) {before : Option Node} {xs : List Node} {fuel : Nat}
    (hs : Seg cell before xs none) (hk : ∀ x ∈ xs, x.kind = kind) (hf : xs.length < fuel) :
    k.searchFrom kind p fuel xs.head? = (xs.map Node.idx).findM? p := by
  induction xs generalizing before fuel with
  | nil =>
    cases fuel with
    | zero => simp at hf
    | succ n => rfl
  | cons x xs ih =>
    cases fuel with
    | zero => simp at hf
    | succ n =>
      have hx : x.kind = kind := hk x List.mem_cons_self
      have hnext : (cell x).next = xs.head? := by
        rw [hs.1]
        simp
      have hrest := ih hs.2 (fun y hy => hk y (List.mem_cons_of_mem _ hy))
        (by simpa using hf : xs.length < n)
      simp only [List.head?_cons, Kernel.searchFrom, castTo, hx, if_true, hcell, hnext, hrest,
        List.map_cons, List.findM?, bind, Except.bind]
      cases p x.idx with
      | error e => rfl
      | ok b => cases b <;> rfl

/-- The loop of `MessageQueueList_byId` over message queues and queues. -/
theorem findById_eq {id : Int} {before : Option Node} {xs : List Node} {fuel : Nat}
    (hs : Seg k.lists.item before xs none)
    (hk : ∀ x ∈ xs, x.kind = .messageQueue ∨ x.kind = .queue) (hf : xs.length < fuel) :
    k.findById id fuel xs.head? = .ok (xs.find? fun x => k.intAtId x = .ok id) := by
  induction xs generalizing before fuel with
  | nil =>
    cases fuel with
    | zero => simp at hf
    | succ n => rfl
  | cons x xs ih =>
    cases fuel with
    | zero => simp at hf
    | succ n =>
      have hnext : (k.lists.item x).next = xs.head? := by
        rw [hs.1]
        simp
      have hrest := ih hs.2 (fun y hy => hk y (List.mem_cons_of_mem _ hy)) (by simpa using hf)
      obtain ⟨v, hv⟩ : ∃ v, k.intAtId x = .ok v := by
        unfold Kernel.intAtId
        rcases hk x List.mem_cons_self with hx | hx
        · exact ⟨_, by rw [hx]⟩
        · exact ⟨_, by rw [hx]⟩
      simp only [List.head?_cons, Kernel.findById, hv, bind, Except.bind, List.find?_cons, hnext,
        hrest, Except.ok.injEq]
      by_cases he : v = id
      · rw [if_pos he, decide_eq_true he]
        rfl
      · rw [if_neg he, decide_eq_false he]

/-- The search loop over a list is a search through its sequence. -/
theorem search_holds {xs : List Node} (hh : Holds k.lists l xs)
    (hk : ∀ x ∈ xs, x.kind = l.nodeKind) (hlen : xs.length ≤ 1024)
    (p : Nat → Except Fault Bool) : k.search l p = (xs.map Node.idx).findM? p := by
  unfold Kernel.search
  have hfirst : (k.head l).first = xs.head? := hh.first
  rw [hfirst]
  exact searchFrom_eq rfl hh.links hk (by unfold LOOP_BOUND; omega)

/-- Whatever the list looks like, the object that a search returns has the property. -/
theorem search_found {p : Nat → Except Fault Bool} {i : Nat} (hs : k.search l p = .ok (some i)) :
    p i = .ok true := by
  have hfrom : ∀ fuel o, k.searchFrom l.nodeKind p fuel o = .ok (some i) → p i = .ok true := by
    intro fuel
    induction fuel with
    | zero =>
      intro o h
      cases h
    | succ fuel ih =>
      intro o h
      cases o with
      | none => cases h
      | some x =>
        obtain ⟨j, _, h⟩ := bind_eq_ok.mp h
        obtain ⟨b, hb, h⟩ := bind_eq_ok.mp h
        cases b with
        | false => exact ih _ h
        | true =>
          cases h
          exact hb
  exact hfrom _ _ hs

/-- The objects that a completed search has passed. -/
theorem searchFrom_seg {kind : Kind} {p : Nat → Except Fault Bool} {found : Option Nat}
    {before : Option Node} {xs : List Node} {fuel : Nat}
    (hs : Seg k.lists.item before xs none)
    (h : k.searchFrom kind p fuel xs.head? = .ok found) :
    (∀ i, found = some i → ⟨kind, i⟩ ∈ xs) ∧
      (found = none → ∀ x ∈ xs, x.kind = kind ∧ p x.idx = .ok false) := by
  induction xs generalizing before fuel with
  | nil =>
    cases fuel with
    | zero => cases h
    | succ fuel =>
      cases h
      exact ⟨nofun, fun _ => nofun⟩
  | cons x xs ih =>
    cases fuel with
    | zero => cases h
    | succ fuel =>
      have hnext : (k.lists.item x).next = xs.head? := by
        rw [hs.1]
        simp
      obtain ⟨i, hi, h⟩ := bind_eq_ok.mp h
      have hx : x = ⟨kind, i⟩ := castTo_eq_ok.mp hi
      obtain ⟨b, hb, h⟩ := bind_eq_ok.mp h
      cases b with
      | true =>
        cases h
        refine ⟨fun j hj => ?_, nofun⟩
        cases hj
        rw [hx]
        exact List.mem_cons_self
      | false =>
        rw [hnext] at h
        obtain ⟨hsome, hnone⟩ := ih hs.2 h
        refine ⟨fun j hj => List.mem_cons_of_mem _ (hsome j hj), fun hn y hy => ?_⟩
        rcases List.mem_cons.mp hy with rfl | hy
        · rw [hx]
          exact ⟨rfl, hb⟩
        · exact hnone hn y hy

theorem Strung.search_eq (h : Strung S T k L) (hl : S l.nodeKind)
    (p : Nat → Except Fault Bool) : k.search l p = ((L l).map Node.idx).findM? p :=
  search_holds (h.holds hl) (fun x hx => h.kind l x hl hx) (h.length_le hl) p

/-- A search for a property of the objects themselves always completes. -/
theorem Strung.search_pure (h : Strung S T k L) (hl : S l.nodeKind) (p : Nat → Bool) :
    k.search l (fun i => .ok (p i)) = .ok (((L l).map Node.idx).find? p) := by
  rw [h.search_eq hl]
  exact List.findM?_pure p _

theorem Strung.search_some {p : Nat → Bool} {i : Nat} (h : Strung S T k L) (hl : S l.nodeKind)
    (hs : k.search l (fun i => .ok (p i)) = .ok (some i)) :
    ⟨l.nodeKind, i⟩ ∈ L l ∧ p i = true := by
  rw [h.search_pure hl, Except.ok.injEq] at hs
  refine ⟨?_, List.find?_some hs⟩
  obtain ⟨x, hx, rfl⟩ := List.mem_map.mp (List.mem_of_find?_eq_some hs)
  rwa [← h.node_eq hl hx]

theorem Strung.search_none {p : Nat → Bool} (h : Strung S T k L) (hl : S l.nodeKind)
    (hs : k.search l (fun i => .ok (p i)) = .ok none) {i : Nat} (hx : ⟨l.nodeKind, i⟩ ∈ L l) :
    p i = false := by
  rw [h.search_pure hl, Except.ok.injEq] at hs
  have hi : i ∈ (L l).map Node.idx := List.mem_map.mpr ⟨_, hx, rfl⟩
  exact Bool.eq_false_iff.mpr (List.find?_eq_none.mp hs i hi)

/-- The node `x` is met when the list is walked from its head. -/
def Linked (k : Kernel) (l : HeadAddr) (x : Node) : Prop :=
  ∃ n, follow k.lists.item n (k.head l).first = some x

theorem linked_first (h : (k.head l).first = some x) : Linked k l x := ⟨0, h⟩

theorem Strung.linked_iff (h : Strung S T k L) (hl : S l.nodeKind) : Linked k l x ↔ x ∈ L l := by
  unfold Linked
  rw [List.mem_iff_getElem?]
  refine exists_congr fun n => ?_
  rw [show follow k.lists.item n (k.head l).first = (L l)[n]? from
    represents_follow (h.holds hl) n]

/-! ## Lists without lost blocks -/

/-- The lists with nodes of a kind in `S` hold the sequences `L` of blocks in use, and
a block in use that is in none of them has no links. -/
structure Wired (S : Kind → Prop) (k : Kernel) (L : HeadAddr → List Node) : Prop where
  threaded : Threaded (fun l => S l.nodeKind) k.lists L
  kind : ∀ l x, S l.nodeKind → x ∈ L l → x.kind = l.nodeKind
  live : ∀ l x, S l.nodeKind → x ∈ L l → Allocated k x.kind x.idx
  loose : ∀ x, S x.kind → Allocated k x.kind x.idx → (∀ l, S l.nodeKind → x ∉ L l) →
    Unlinked k.lists x
  pooled : Pooled k

/-- All lists of the kernel are wired. -/
abbrev Everything : Kind → Prop := fun _ => True

theorem Wired.strung (h : Wired S k L) : Strung S S k L :=
  ⟨h.threaded, h.kind, h.live, h.loose, h.pooled⟩

theorem Strung.wired (h : Strung S S k L) : Wired S k L :=
  ⟨h.threaded, h.kind, h.live, h.loose, h.pooled⟩

/-- Wiring depends on the lists and the pools only. -/
theorem wired_congr (h : Wired S k L) (hlists : k'.lists = k.lists) (hpool : k'.pool = k.pool) :
    Wired S k' L :=
  (h.strung.congr hlists hpool).wired

/-- A node can only be in the lists for its kind. -/
theorem unlisted_of_kind (h : Wired S k L) (hout : ∀ l, l.nodeKind = x.kind → x ∉ L l) :
    ∀ l, S l.nodeKind → x ∉ L l :=
  h.strung.unlisted hout

theorem nodup (h : Wired S k L) (hl : S l.nodeKind) : (L l).Nodup := h.strung.nodup hl

theorem holds (h : Wired S k L) (hl : S l.nodeKind) : Holds k.lists l (L l) := h.strung.holds hl

/-- A block is a node of at most one list. -/
theorem apart {j : HeadAddr} (h : Wired S k L) (hl : S l.nodeKind) (hj : S j.nodeKind)
    (hx : x ∈ L l) (hx' : x ∈ L j) : l = j :=
  h.strung.apart hl hj hx hx'

theorem size_eq (h : Wired S k L) (hl : S l.nodeKind) : (k.head l).size = (L l).length :=
  h.strung.size_eq hl

theorem first_eq (h : Wired S k L) (hl : S l.nodeKind) : (k.head l).first = (L l).head? :=
  h.strung.first_eq hl

theorem last_eq (h : Wired S k L) (hl : S l.nodeKind) : (k.head l).last = (L l).getLast? :=
  h.strung.last_eq hl

theorem size_zero_iff (h : Wired S k L) (hl : S l.nodeKind) :
    (k.head l).size = 0 ↔ L l = [] :=
  h.strung.size_zero_iff hl

theorem node_eq (h : Wired S k L) (hl : S l.nodeKind) (hx : x ∈ L l) :
    x = ⟨l.nodeKind, x.idx⟩ :=
  h.strung.node_eq hl hx

theorem mem_idx (h : Wired S k L) (hl : S l.nodeKind) {i : Nat} (hi : i ∈ (L l).map Node.idx) :
    ⟨l.nodeKind, i⟩ ∈ L l :=
  h.strung.mem_idx hl hi

/-- A wired list holds the blocks with the indices of its nodes. -/
theorem holds_idx (h : Wired S k L) (hl : S l.nodeKind) :
    Holds k.lists l (((L l).map Node.idx).map (Node.mk l.nodeKind)) :=
  h.strung.holds_idx hl

theorem nodup_idx (h : Wired S k L) (hl : S l.nodeKind) : ((L l).map Node.idx).Nodup :=
  h.strung.nodup_idx hl

theorem allocated_of_mem (h : Wired S k L) (hl : S l.nodeKind) {i : Nat}
    (hx : ⟨l.nodeKind, i⟩ ∈ L l) : Allocated k l.nodeKind i :=
  h.strung.allocated hl hx

/-- A block that was free is in none of the lists. -/
theorem fresh_unlisted {kind : Kind} {i : Nat} (h : Wired S k L) (hf : ¬ Allocated k kind i)
    (hl : S l.nodeKind) : ⟨kind, i⟩ ∉ L l :=
  h.strung.fresh_unlisted hf hl

theorem wired_newItem {kind : Kind} {i : Nat} (h : Wired S k L) (hf : Fresh k kind i k') :
    Wired S k' L :=
  (h.strung.newItem hf).wired

theorem wired_releaseBlock (kind : Kind) (i : Nat) (h : Wired S k L) (hi : Allocated k kind i)
    (hout : ∀ l, S l.nodeKind → ⟨kind, i⟩ ∉ L l) : Wired S (k.releaseBlock kind i) L :=
  (h.strung.releaseBlock kind i hi hout).wired

/-- Inserting a loose block between `as` and `bs`. -/
theorem wired_insert {as bs : List Node} (h : Wired S k L) (hl : S l.nodeKind)
    (hsplit : L l = as ++ bs) (hk : x.kind = l.nodeKind) (hx : Allocated k x.kind x.idx)
    (hout : ∀ l', S l'.nodeKind → x ∉ L l') :
    Wired S (k.insert l as.getLast? x) (Function.update L l (as ++ x :: bs)) :=
  (h.strung.insert hl hsplit hk hx (h.loose x (hk ▸ hl) hx hout) hout).wired

theorem wired_append (h : Wired S k L) (hl : S l.nodeKind) (hk : x.kind = l.nodeKind)
    (hx : Allocated k x.kind x.idx) (hout : ∀ l', S l'.nodeKind → x ∉ L l') :
    Wired S (k.append l x) (Function.update L l (L l ++ [x])) :=
  (h.strung.append hl hk hx (h.loose x (hk ▸ hl) hx hout) hout).wired

theorem wired_push (h : Wired S k L) (hl : S l.nodeKind) (hk : x.kind = l.nodeKind)
    (hx : Allocated k x.kind x.idx) (hout : ∀ l', S l'.nodeKind → x ∉ L l') :
    Wired S (k.insert l none x) (Function.update L l (x :: L l)) := by
  have hs : L l = [] ++ L l := rfl
  exact wired_insert h hl hs hk hx hout

theorem wired_detach (h : Wired S k L) (hl : S l.nodeKind) (hx : x ∈ L l) :
    Wired S (k.detach l x) (Function.update L l ((L l).erase x)) :=
  (h.strung.detach hl hx).wired

/-- Taking the first node of a list. -/
theorem detachFirst_ok {i : Nat} (h : Wired S k L) (hl : S l.nodeKind)
    (hd : k.detachFirst l = .ok (i, k')) :
    ∃ rest, L l = ⟨l.nodeKind, i⟩ :: rest ∧ k' = k.detach l ⟨l.nodeKind, i⟩ ∧
      Wired S k' (Function.update L l rest) := by
  obtain ⟨rest, hL, hk, hs⟩ := h.strung.detachFirst_ok hl hd
  exact ⟨rest, hL, hk, hs.wired⟩

theorem detachFirst_cons {i : Nat} {rest : List Node} (h : Wired S k L) (hl : S l.nodeKind)
    (hL : L l = ⟨l.nodeKind, i⟩ :: rest) :
    k.detachFirst l = .ok (i, k.detach l ⟨l.nodeKind, i⟩) :=
  h.strung.detachFirst_cons hl hL

/-- Initialising a head that holds nothing. -/
theorem wired_initList (h : Wired S k L) (hL : S l.nodeKind → L l = []) :
    Wired S (k.initList l) L := by
  by_cases hl : S l.nodeKind
  · have hs := h.strung.initList hl hL
    rw [← hL hl, Function.update_eq_self] at hs
    exact hs.wired
  · exact (h.strung.initList_of_not hl).wired

/-- Fewer lists are wired on their own. -/
theorem wired_restrict {S' : Kind → Prop} (h : Wired S k L) (hsub : ∀ kind, S' kind → S kind) :
    Wired S' k L := by
  refine ⟨⟨fun l hl => holds h (hsub _ hl), fun l hl => nodup h (hsub _ hl), ?_⟩, ?_, ?_, ?_,
    h.pooled⟩
  · exact fun l l' x hl hl' => apart h (hsub _ hl) (hsub _ hl')
  · exact fun l x hl => h.kind l x (hsub _ hl)
  · exact fun l x hl => h.live l x (hsub _ hl)
  · intro x hS ha hout
    refine h.loose x (hsub _ hS) ha fun l hl hx => hout l ?_ hx
    rwa [← h.kind l x hl hx]

/-! ## Lists of other kinds -/

/-- Only nodes and heads of the lists for the kinds in `S` have changed. -/
structure Confined (S : Kind → Prop) (k k' : Kernel) : Prop where
  item : ∀ x, ¬ S x.kind → k'.lists.item x = k.lists.item x
  head : ∀ l, ¬ S l.nodeKind → k'.lists.head l = k.lists.head l

theorem confined_of_lists (hlists : k'.lists = k.lists) : Confined S k k' := by
  constructor
  · exact fun _ _ => by rw [hlists]
  · exact fun _ _ => by rw [hlists]

theorem confined_trans {k'' : Kernel} (h : Confined S k k') (h' : Confined S k' k'') :
    Confined S k k'' :=
  ⟨fun x hx => (h'.item x hx).trans (h.item x hx), fun l hl => (h'.head l hl).trans (h.head l hl)⟩

theorem holds_confined {xs : List Node} (h : Confined S k k') (hl : ¬ S l.nodeKind)
    (hxs : ∀ x ∈ xs, ¬ S x.kind) (hh : Holds k.lists l xs) : Holds k'.lists l xs :=
  holds_frame hh (h.head l hl) fun x hx => h.item x (hxs x hx)

theorem confined_newItem {kind : Kind} {i : Nat} (hS : S kind) (hf : Fresh k kind i k') :
    Confined S k k' := by
  rw [hf.eq]
  refine ⟨fun x hx => Function.update_of_ne (fun he => hx ?_) _ _, fun _ _ => rfl⟩
  rw [he]
  exact hS

theorem Strung.confined_insert {as bs : List Node} (h : Strung S T k L) (hl : S l.nodeKind)
    (hsplit : L l = as ++ bs) (hk : x.kind = l.nodeKind) (hloose : Unlinked k.lists x)
    (hout : ∀ l', S l'.nodeKind → x ∉ L l') : Confined S k (k.insert l as.getLast? x) := by
  refine ⟨fun y hy => ?_, fun l' hl' => insert_head _ _ _ fun he => hl' (he ▸ hl)⟩
  refine threaded_insert_item h.threaded hl hsplit hloose (hout l hl) (fun hm => hy ?_)
    fun he => hy ?_
  · rw [h.kind l y hl hm]
    exact hl
  · rw [he, hk]
    exact hl

theorem Strung.confined_append (h : Strung S T k L) (hl : S l.nodeKind) (hk : x.kind = l.nodeKind)
    (hloose : Unlinked k.lists x) (hout : ∀ l', S l'.nodeKind → x ∉ L l') :
    Confined S k (k.append l x) := by
  unfold Kernel.append
  rw [h.last_eq hl]
  exact h.confined_insert hl (List.append_nil _).symm hk hloose hout

theorem Strung.confined_detach (h : Strung S T k L) (hl : S l.nodeKind) (hx : x ∈ L l) :
    Confined S k (k.detach l x) := by
  refine ⟨fun y hy => ?_, fun l' hl' => detach_head _ _ fun he => hl' (he ▸ hl)⟩
  refine threaded_detach_item h.threaded hl hx fun hm => hy ?_
  rw [h.kind l y hl hm]
  exact hl

theorem confined_append (h : Wired S k L) (hl : S l.nodeKind) (hk : x.kind = l.nodeKind)
    (hx : Allocated k x.kind x.idx) (hout : ∀ l', S l'.nodeKind → x ∉ L l') :
    Confined S k (k.append l x) :=
  h.strung.confined_append hl hk (h.loose x (hk ▸ hl) hx hout) hout

theorem confined_detach (h : Wired S k L) (hl : S l.nodeKind) (hx : x ∈ L l) :
    Confined S k (k.detach l x) :=
  h.strung.confined_detach hl hx

/-! ## Searches in wired lists -/

/-- A search depends on the head, the nodes of the list's kind and the property. -/
theorem search_frame {p p' : Nat → Except Fault Bool}
    (hhead : k'.lists.head l = k.lists.head l)
    (hitem : ∀ x, x.kind = l.nodeKind → k'.lists.item x = k.lists.item x)
    (hp : ∀ i, p' i = p i) : k'.search l p' = k.search l p := by
  have hfrom : ∀ fuel o, k'.searchFrom l.nodeKind p' fuel o = k.searchFrom l.nodeKind p fuel o := by
    intro fuel
    induction fuel with
    | zero => exact fun _ => rfl
    | succ fuel ih =>
      intro o
      cases o with
      | none => rfl
      | some x =>
        by_cases hx : x.kind = l.nodeKind
        · simp only [Kernel.searchFrom, castTo, hx, if_true, bind, Except.bind, hp, hitem x hx, ih]
        · simp only [Kernel.searchFrom, castTo, hx, if_false, bind, Except.bind]
  unfold Kernel.search Kernel.head
  rw [hhead]
  exact hfrom _ _

/-- The same for `MessageQueueList_byId`, which reads the ids of message queues and the
priorities of queues. -/
theorem byId_frame {id : Int} (hhead : k'.lists.head l = k.lists.head l)
    (hitem : ∀ x, x.kind = .messageQueue ∨ x.kind = .queue → k'.lists.item x = k.lists.item x)
    (hid : ∀ i, (k'.messageQueue i).id = (k.messageQueue i).id) (hqueue : k'.queue = k.queue) :
    k'.messageQueueListById l id = k.messageQueueListById l id := by
  have hint : ∀ x, k'.intAtId x = k.intAtId x := by
    intro x
    unfold Kernel.intAtId
    rw [hid, hqueue]
  have hfrom : ∀ fuel o, k'.findById id fuel o = k.findById id fuel o := by
    intro fuel
    induction fuel with
    | zero => exact fun _ => rfl
    | succ fuel ih =>
      intro o
      cases o with
      | none => rfl
      | some x =>
        simp only [Kernel.findById, hint x]
        -- a node of another kind ends the search
        by_cases hx : x.kind = .messageQueue ∨ x.kind = .queue
        · simp only [hitem x hx, ih]
        · have hfault : k.intAtId x = .error .typeConfusion := by
            unfold Kernel.intAtId
            split <;> simp_all
          simp only [hfault, bind, Except.bind]
  unfold Kernel.messageQueueListById Kernel.head
  rw [hhead]
  exact hfrom _ _

theorem search_eq (h : Wired S k L) (hl : S l.nodeKind) (p : Nat → Except Fault Bool) :
    k.search l p = ((L l).map Node.idx).findM? p :=
  h.strung.search_eq hl p

theorem search_pure (h : Wired S k L) (hl : S l.nodeKind) (p : Nat → Bool) :
    k.search l (fun i => .ok (p i)) = .ok (((L l).map Node.idx).find? p) :=
  h.strung.search_pure hl p

theorem search_some {p : Nat → Bool} {i : Nat} (h : Wired S k L) (hl : S l.nodeKind)
    (hs : k.search l (fun i => .ok (p i)) = .ok (some i)) :
    ⟨l.nodeKind, i⟩ ∈ L l ∧ p i = true :=
  h.strung.search_some hl hs

/-- `MessageQueueList_byId` goes through the list of message queues. -/
theorem byId_eq (h : Wired S k L) (hl : S .messageQueue) (id : Int) :
    k.messageQueueListById .messageQueuesList id =
      .ok ((L .messageQueuesList).find? fun x => k.intAtId x = .ok id) := by
  have hs := h.strung
  have hlen := hs.length_le (l := .messageQueuesList) hl
  have hholds : Holds k.lists .messageQueuesList _ := hs.holds (l := .messageQueuesList) hl
  unfold Kernel.messageQueueListById
  rw [show (k.head .messageQueuesList).first = _ from hholds.first]
  exact findById_eq hholds.links (fun x hx => .inl (h.kind .messageQueuesList x hl hx))
    (by unfold LOOP_BOUND; omega)

end DisastrOS.Lists.Wiring
