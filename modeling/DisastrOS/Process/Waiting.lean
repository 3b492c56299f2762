import DisastrOS.Process.Scheduling

/-!
# Waiting for a child

`internal_wait` on coherent kernels: the scan over the children, the collection of a
zombie, and blocking.
-/
namespace DisastrOS.Process.Waiting

open DisastrOS.Machine
open DisastrOS.Machine.Kernel
open DisastrOS.Lists.Sequences
open DisastrOS.Lists.Wiring
open DisastrOS.Lists.RegularLists
open DisastrOS.Pool.Blocks
open DisastrOS.Process.Table
open DisastrOS.Process.Steps
open DisastrOS.Process.View
open DisastrOS.Process.Coherence
open DisastrOS.Process.Scheduling
open DisastrOS.Library.Outcome

variable {k k' : Kernel} {L : HeadAddr → List Node} {r q c ptr : Nat} {pid : Int}

/-! ## The scan over the children -/

/-- A scan that has visited a child ends with a child. -/
theorem awaitedChild_ne_none {fuel : Nat} {o : Option Node} {last res : Option (Nat × Nat)}
    (hne : o ≠ none ∨ last ≠ none) (h : k.awaitedChild pid fuel o last = .ok res) :
    res ≠ none := by
  induction fuel generalizing o last with
  | zero => cases h
  | succ fuel ih =>
    cases o with
    | none =>
      cases h
      exact hne.resolve_left fun hn => hn rfl
    | some x =>
      unfold awaitedChild at h
      obtain ⟨ptr, _, h⟩ := bind_eq_ok.mp h
      obtain ⟨child, _, h⟩ := bind_eq_ok.mp h
      split at h
      · cases h
        exact Option.some_ne_none _
      · split at h
        · cases h
          exact Option.some_ne_none _
        · exact ih (.inr (Option.some_ne_none _)) h

/-- The scan of `internal_wait` is the scan over the children in the table. -/
theorem awaitedChild_ok {fuel : Nat} {as xs : List Node} {last res : Option (Nat × Nat)}
    (hs : Strung Regular Retained k L) (hL : L (.children r) = as ++ xs)
    (h : k.awaitedChild pid fuel xs.head? last = .ok res) :
    res.map Prod.snd = awaited (view k L) pid (xs.map fun x => k.pcbPtr x.idx)
        (last.map Prod.snd) ∧
      ∀ ptr c, res = some (ptr, c) → last = some (ptr, c) ∨
        (⟨.pcbPtr, ptr⟩ ∈ xs ∧ k.pcbPtr ptr = some c) := by
  induction fuel generalizing as xs last with
  | zero => cases h
  | succ fuel ih =>
    cases xs with
    | nil =>
      cases h
      exact ⟨rfl, fun _ _ he => .inl he⟩
    | cons x xs =>
      have hx := hs.node_eq (l := .children r) (regular_children r) (x := x) (by rw [hL]; simp)
      have hkind : x.kind = .pcbPtr := congrArg Node.kind hx
      simp only [awaitedChild, List.head?_cons, castTo, hkind, if_true] at h
      obtain ⟨_, hi, h⟩ := bind_eq_ok.mp h
      cases hi
      obtain ⟨child, hchild, h⟩ := bind_eq_ok.mp h
      have hchild := deref_eq_ok.mp hchild
      have hmem : (⟨.pcbPtr, x.idx⟩ : Node) ∈ x :: xs := by
        rw [← show x = ⟨.pcbPtr, x.idx⟩ from hx]
        exact List.mem_cons_self
      rw [List.map_cons, hchild]
      unfold awaited
      split at h
      · next h₁ =>
        have h₁ : pid = 0 ∧ ((view k L).info child).status = .Zombie := h₁
        cases h
        rw [if_pos h₁]
        refine ⟨rfl, fun ptr c he => .inr ?_⟩
        cases he
        exact ⟨hmem, hchild⟩
      · next h₁ =>
        have h₁ : ¬ (pid = 0 ∧ ((view k L).info child).status = .Zombie) := h₁
        rw [if_neg h₁]
        split at h
        · next h₂ =>
          have h₂ : pid ≠ 0 ∧ ((view k L).info child).pid = pid := h₂
          cases h
          rw [if_pos h₂]
          refine ⟨rfl, fun ptr c he => .inr ?_⟩
          cases he
          exact ⟨hmem, hchild⟩
        · next h₂ =>
          have h₂ : ¬ (pid ≠ 0 ∧ ((view k L).info child).pid = pid) := h₂
          rw [if_neg h₂]
          have hholds := hs.holds (l := .children r) (regular_children r)
          rw [hL] at hholds
          have hnext : (k.lists.item x).next = xs.head? := by
            rw [DisastrOS.Library.LinkedSequence.cell_of_split hholds]
          rw [hnext] at h
          have hL' : L (.children r) = (as ++ [x]) ++ xs := by rw [hL, List.append_assoc]; rfl
          obtain ⟨hres, hin⟩ := ih hL' h
          refine ⟨hres, fun ptr c he => .inr ?_⟩
          rcases hin ptr c he with he | ⟨hm, hp⟩
          · cases he
            exact ⟨hmem, hchild⟩
          · exact ⟨List.mem_cons_of_mem _ hm, hp⟩

/-! ## Collecting a zombie -/

theorem storeResult_ok {a v : Int} (h : k.storeResult a v = .ok k') :
    k' = { k with mem := k'.mem } := by
  unfold storeResult at h
  split at h
  · obtain ⟨_, rfl⟩ := storeInt_eq_ok.mp h
    rfl
  · cases h
    rfl

/-- The link from a process to its child `c` is removed from the list. -/
theorem view_unlinkChild (hn : ((view k L).children q).Nodup)
    (hm : ⟨.pcbPtr, ptr⟩ ∈ L (.children q)) (hptr : k.pcbPtr ptr = some c) :
    view k (Function.update L (.children q) ((L (.children q)).erase ⟨.pcbPtr, ptr⟩)) =
      (view k L).unlinkChild q c := by
  have herase : ((L (.children q)).erase ⟨.pcbPtr, ptr⟩).map (fun x => k.pcbPtr x.idx) =
      ((L (.children q)).map fun x => k.pcbPtr x.idx).erase (some c) := by
    rw [map_erase_of_inj (f := fun x : Node => k.pcbPtr x.idx) hm
      fun x hx he => List.inj_on_of_nodup_map hn hx hm he]
    simp only [hptr]
  rw [view_children, herase]
  rfl

/-- What collecting the zombie child `c`, linked by `ptr`, has done. -/
structure Collected (k : Kernel) (L : HeadAddr → List Node) (r ptr c : Nat) (k' : Kernel)
    (L' : HeadAddr → List Node) : Prop where
  woven : Woven k k' L'
  lists : L' = Function.update
    (Function.update L (.children r) ((L (.children r)).erase ⟨.pcbPtr, ptr⟩))
    .zombieList ((L .zombieList).erase ⟨.pcb, c⟩)
  allocated : ∀ kind i, Allocated k' kind i ↔ ¬ (kind = .pcb ∧ i = c) ∧
    ¬ (kind = .pcbPtr ∧ i = ptr) ∧ Allocated k kind i
  pool : ∀ kind, kind ≠ .pcb → kind ≠ .pcbPtr → k'.pool kind = k.pool kind
  pcb : k'.pcb = Function.update k.pcb r
    { k.pcb r with syscallRetvalue := (k.pcb c).pid }
  stored : k.storeResult (k.arg r 1) (k.pcb c).returnValue = .ok { k with mem := k'.mem }
  rest : k' = { k with lists := k'.lists, pool := k'.pool, pcb := k'.pcb, mem := k'.mem }

theorem storeResult_mem {a v : Int} {k₁ : Kernel} (h : k₁.storeResult a v = .ok k')
    (hmem : k₁.mem = k.mem) : k.storeResult a v = .ok { k with mem := k'.mem } := by
  unfold storeResult at h ⊢
  split at h
  · next ha =>
    obtain ⟨hne, rfl⟩ := storeInt_eq_ok.mp h
    rw [if_pos ha]
    refine storeInt_eq_ok.mpr ⟨hne, ?_⟩
    simp only [hmem]
  · next ha =>
    cases h
    rw [if_neg ha, hmem]

theorem collect_ok {k₃ : Kernel} (hc : Coherent k L)
    (hm : ⟨.pcbPtr, ptr⟩ ∈ L (.children r)) (hptr : k.pcbPtr ptr = some c)
    (hz : (k.pcb c).status = .Zombie)
    (h : ((((k.detach (.children r) ⟨.pcbPtr, ptr⟩).releaseBlock .pcbPtr ptr).detach .zombieList
      ⟨.pcb, c⟩).setRetvalue r (k.pcb c).pid).storeResult (k.arg r 1) (k.pcb c).returnValue =
        .ok k₃) :
    ∃ L', Collected k L r ptr c (k₃.releaseBlock .pcb c) L' := by
  have hs := hc.tidy.strung
  have hchild : some c ∈ (view k L).children r :=
    List.mem_map.mpr ⟨_, hm, hptr⟩
  obtain ⟨_, he, hlive, _⟩ := hc.sound.family.child r _ hchild
  cases he
  have hzm : (⟨.pcb, c⟩ : Node) ∈ L .zombieList :=
    (mem_map_idx hs (l := .zombieList) regular_pcb).mp
      ((hc.sound.marked.dead c).mpr ⟨hlive, hz⟩)
  have hpa : Allocated k .pcbPtr ptr := hs.allocated (l := .children r) (regular_children r) hm
  have hw₁ := (Woven.refl hs).detach (l := .children r) (regular_children r) hm
  obtain ⟨k₁, hk₁⟩ : ∃ k₁, k.detach (.children r) ⟨.pcbPtr, ptr⟩ = k₁ := ⟨_, rfl⟩
  rw [hk₁] at hw₁ h
  have hpool₁ : k₁.pool = k.pool := by rw [← hk₁]; rfl
  have hpa₁ : Allocated k₁ .pcbPtr ptr := (allocated_congr hpool₁).mpr hpa
  have hr₁ := releaseBlock_returned .pcbPtr ptr hw₁.strung.pooled hpa₁
  have hw₂ := hw₁.releaseBlock (by decide) hpa₁ fun l hl => by
    have hreg : Regular l.nodeKind := by rw [hl]; decide
    exact hs.threaded.not_mem_erased (regular_children r) hm hreg
  have hz₂ : Function.update L (.children r) ((L (.children r)).erase ⟨.pcbPtr, ptr⟩) .zombieList =
      L .zombieList := Function.update_of_ne (by simp) _ _
  have hw₃ := hw₂.detach (l := .zombieList) (x := ⟨.pcb, c⟩) regular_pcb (by rwa [hz₂])
  rw [hz₂] at hw₃
  have hk₃ := storeResult_ok h
  have hlists₃ : k₃.lists = ((k₁.releaseBlock .pcbPtr ptr).detach .zombieList ⟨.pcb, c⟩).lists := by
    rw [hk₃]
    rfl
  have hpool₃ : k₃.pool = (k₁.releaseBlock .pcbPtr ptr).pool := by
    rw [hk₃]
    rfl
  have hw₄ : Woven _ k₃ _ := hw₃.congr hlists₃ hpool₃
  have hca : Allocated k₃ .pcb c := by
    rw [allocated_congr hpool₃, hr₁.allocated, allocated_congr hpool₁]
    exact ⟨fun he => (nomatch he.1), hlive⟩
  have hr₃ := releaseBlock_returned .pcb c hw₄.strung.pooled hca
  refine ⟨_, hw₄.releaseBlock regular_pcb hca fun l hl => ?_, rfl, fun kind i => ?_,
    fun kind h₁ h₂ => ?_, ?_, ?_, ?_⟩
  · have hreg : Regular l.nodeKind := by rw [hl]; exact regular_pcb
    rw [← hz₂] at hzm ⊢
    exact hw₂.strung.threaded.not_mem_erased (j := HeadAddr.zombieList) regular_pcb hzm hreg
  · rw [hr₃.allocated, allocated_congr hpool₃, hr₁.allocated, allocated_congr hpool₁]
  · rw [releaseBlock_pool _ _ h₁, hpool₃, releaseBlock_pool _ _ h₂, hpool₁]
  · show k₃.pcb = _
    rw [hk₃, ← hk₁]
    rfl
  · have hmem : (((k₁.releaseBlock .pcbPtr ptr).detach .zombieList ⟨.pcb, c⟩).setRetvalue r
        (k.pcb c).pid).mem = k.mem := by
      rw [← hk₁]
      rfl
    show k.storeResult (k.arg r 1) (k.pcb c).returnValue = .ok { k with mem := k₃.mem }
    exact storeResult_mem h hmem
  · rw [hk₃, ← hk₁]
    rfl

theorem Collected.beside {L' : HeadAddr → List Node} (h : Collected k L r ptr c k' L') :
    Beside k L k' L' := by
  refine ⟨by rw [h.rest], fun t p => ?_, fun kind h₁ h₂ _ => h.pool kind h₁ h₂, fun l hl => ?_⟩
  · rw [h.pcb]
    exact counter_setRetvalue (k := k) t p
  have h₁ : l ≠ .zombieList := fun he => hl (he ▸ trivial)
  have h₂ : l ≠ .children r := fun he => hl (he ▸ trivial)
  rw [h.lists, Function.update_of_ne h₁, Function.update_of_ne h₂]

/-- The table after a zombie has been collected. -/
theorem Collected.view_eq {L' : HeadAddr → List Node} (h : Collected k L r ptr c k' L')
    (hc : Coherent k L) (hm : ⟨.pcbPtr, ptr⟩ ∈ L (.children r)) (hptr : k.pcbPtr ptr = some c)
    (hz : (k.pcb c).status = .Zombie) :
    view k' L' = ((view k L).unlinkChild r c).forget c := by
  have hs := hc.tidy.strung
  have hchild : some c ∈ (view k L).children r := List.mem_map.mpr ⟨_, hm, hptr⟩
  obtain ⟨_, he, hlive, _⟩ := hc.sound.family.child r _ hchild
  cases he
  have hzm : (⟨.pcb, c⟩ : Node) ∈ L .zombieList :=
    (mem_map_idx hs (l := .zombieList) regular_pcb).mp
      ((hc.sound.marked.dead c).mpr ⟨hlive, hz⟩)
  have hwait : ((L .zombieList).erase ⟨.pcb, c⟩).map Node.idx =
      ((L .zombieList).map Node.idx).erase c :=
    map_idx_erase hs (l := .zombieList) regular_pcb hzm
  have hlive' : Allocated k' .pcb = fun i => i ≠ c ∧ Allocated k .pcb i := by
    funext i
    refine propext ?_
    rw [h.allocated]
    simp
  have hinfo : (fun p => View.control (k'.pcb p)) = fun p => View.control (k.pcb p) := by
    funext p
    rw [h.pcb, Function.update_apply]
    split
    · next he => rw [he]; rfl
    · rfl
  have hfields : ∀ L₁, view k' L₁ = { view k L₁ with live := fun i => i ≠ c ∧ Allocated k .pcb i } := by
    intro L₁
    unfold view
    rw [hlive', hinfo, h.rest]
    rfl
  rw [h.lists, hfields, view_zombie, hwait, view_unlinkChild (hc.sound.family.nodup r) hm hptr]
  rfl

theorem blockInWait_refines {move : ProcessTable → Prop} (hc : Coherent k L)
    (hr : k.running = some r) (h : k.blockInWait r = .ok k')
    (hmove : (view k L).ready ≠ [] → move ((view k L).waitForChild r)) :
    ∃ L', Scheduled k L k' L' ∧ Moved k L move k' L' := by
  unfold blockInWait at h
  obtain ⟨_, hnl⟩ := hc.running_unlinked hr
  have hrl : Allocated k .pcb r := hc.sound.placed.live_of_running hr
  obtain ⟨⟨n, k₁⟩, hd, h⟩ := bind_eq_ok.mp h
  cases h
  have hk₁ : Kept k (k.setStatus r .Waiting) L :=
    (Coherent.kept hc).congr rfl rfl fun q => timer_setStatus _ q
  obtain ⟨L', hk', hb', hv'⟩ := park_next hk₁ hrl (hc.running_unlinked hr).1 hnl hd
  have hb := (scheduled_setStatus (L := L) .Waiting).trans hb'
  refine ⟨L', hb, hk'.moved hc.tidy hb.beside ?_⟩
  rw [hv', view_setStatus]
  refine hmove fun hempty => ?_
  obtain ⟨rest, hready, -⟩ := (hk₁.park hrl (hc.running_unlinked hr).1 hnl).1.takeReady hd
  rw [Function.update_of_ne (by decide)] at hready
  rw [List.map_eq_nil_iff.mp hempty] at hready
  cases hready

/-- The three ends of `internal_wait`. -/
theorem wait_refines (hc : Coherent k L) (hr : k.running = some r) (h : internalWait k = .ok k') :
    (k' = k.setRetvalue r DSOS_EWAIT ∧ L (.children r) = []) ∨
    (∃ c ptr L', ⟨.pcbPtr, ptr⟩ ∈ L (.children r) ∧ k.pcbPtr ptr = some c ∧
      k.awaitedChild (toInt (k.arg r 0)) LOOP_BOUND (k.head (.children r)).first none =
        .ok (some (ptr, c)) ∧
      (k.pcb c).status = .Zombie ∧ Collected k L r ptr c k' L' ∧
      Moved k L (Handled (view k L) r DSOS_CALL_WAIT) k' L') ∨
    ∃ c ptr L', k.awaitedChild (toInt (k.arg r 0)) LOOP_BOUND (k.head (.children r)).first none =
        .ok (some (ptr, c)) ∧ (k.pcb c).status ≠ .Zombie ∧ k.blockInWait r = .ok k' ∧
      Scheduled k L k' L' ∧ Moved k L (Handled (view k L) r DSOS_CALL_WAIT) k' L' := by
  unfold internalWait at h
  obtain ⟨r', hr', h⟩ := bind_eq_ok.mp h
  have hr' := deref_eq_ok.mp hr'
  rw [hr, Option.some.injEq] at hr'
  subst hr'
  have hs := hc.tidy.strung
  have hfirst := hs.first_eq (l := .children r) (regular_children r)
  cases hL : L (.children r) with
  | nil =>
    rw [hfirst, hL] at h
    cases h
    exact .inl ⟨rfl, rfl⟩
  | cons x xs =>
    rw [hfirst, hL] at h
    simp only [List.head?_cons] at h
    obtain ⟨res, hscan, h⟩ := bind_eq_ok.mp h
    have hscan' : k.awaitedChild (toInt (k.arg r 0)) LOOP_BOUND (L (.children r)).head? none =
        .ok res := by rwa [hL]
    obtain ⟨hres, hin⟩ := awaitedChild_ok hs
      (List.nil_append (L (.children r))).symm hscan'
    have hlist : ((L (.children r)).map fun x => k.pcbPtr x.idx) = (view k L).children r := rfl
    cases res with
    | none =>
      exact absurd rfl (awaitedChild_ne_none (.inl (Option.some_ne_none x)) hscan)
    | some found =>
      obtain ⟨ptr, c⟩ := found
      obtain ⟨hm, hptr⟩ := (hin ptr c rfl).resolve_left fun he => nomatch he
      have hmem : some c ∈ (view k L).children r := List.mem_map.mpr ⟨_, hm, hptr⟩
      have hawaited : awaited (view k L) (toInt (((view k L).info r).syscallArgs 0))
          ((view k L).children r) none = some c := hres.symm
      have hscan'' : k.awaitedChild (toInt (k.arg r 0)) LOOP_BOUND (k.head (.children r)).first
          none = .ok (some (ptr, c)) := by rw [hfirst]; exact hscan'
      simp only at h
      split at h
      · next hz =>
        obtain ⟨k₃, hstore, h⟩ := bind_eq_ok.mp h
        cases h
        have hvalue : ((k.setRetvalue r (k.pcb c).pid).pcb c).returnValue =
            (k.pcb c).returnValue := by
          show (Function.update k.pcb r _ c).returnValue = _
          rw [Function.update_apply]
          split
          · next he => rw [he]
          · rfl
        have hstore : ((((k.detach (.children r) ⟨.pcbPtr, ptr⟩).releaseBlock .pcbPtr ptr).detach
            .zombieList ⟨.pcb, c⟩).setRetvalue r (k.pcb c).pid).storeResult (k.arg r 1)
              (k.pcb c).returnValue = .ok k₃ := hvalue ▸ hstore
        obtain ⟨L', hcol⟩ := collect_ok hc hm hptr hz hstore
        refine .inr (.inl ⟨c, ptr, L', hL ▸ hm, hptr, hscan'', hz, hcol, hcol.woven,
          fun _ hl => hcol.beside.others hl,
          hc.tidy.tied_beside hcol.beside, fun i hi => ?_, fun q => ?_, ?_⟩)
        · rw [hcol.lists, Function.update_of_ne (by simp), Function.update_of_ne (by simp)]
          exact hc.tidy.timers i ((hcol.allocated _ _).mp hi).2.2
        · rw [hcol.pcb, Function.update_apply]
          split
          · exact hc.tidy.unset r
          · exact hc.tidy.unset q
        · rw [hcol.view_eq hc hm hptr hz]
          exact .waitCollect hmem hawaited hz
      · next hz =>
        obtain ⟨L', hb, hmoved⟩ := blockInWait_refines hc hr h
          (Handled.waitBlock hmem hawaited hz)
        exact .inr (.inr ⟨c, ptr, L', hscan'', hz, h, hb, hmoved⟩)

end DisastrOS.Process.Waiting
