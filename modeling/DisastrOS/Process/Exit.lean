import DisastrOS.Process.Waiting

/-!
# Termination

`internal_exit` on coherent kernels: the children go to init, the process becomes a
zombie, and either the next process runs or the waiting parent collects it.
-/
namespace DisastrOS.Process.Exit

open DisastrOS.Machine
open DisastrOS.Machine.Kernel
open DisastrOS.Lists.Sequences
open DisastrOS.Lists.Wiring
open DisastrOS.Lists.RegularLists
open DisastrOS.Pool.Blocks
open DisastrOS.Descriptors.Bindings
open DisastrOS.Descriptors.Tables
open DisastrOS.Process.Table
open DisastrOS.Process.Steps
open DisastrOS.Process.View
open DisastrOS.Process.Coherence
open DisastrOS.Process.Scheduling
open DisastrOS.Process.Waiting
open DisastrOS.Library.Outcome

variable {base k k' : Kernel} {L L' : HeadAddr → List Node} {r i n parent : Nat}

/-! ## The children -/

theorem signalled_signalled (q : PCB) (sig : BitVec 32) :
    (q.signalled sig).signalled sig = q.signalled sig := by
  simp [PCB.signalled, BitVec.or_assoc]

/-- The children of `r` are children of `i`, with SIGHUP pending. -/
structure Adopted (k : Kernel) (L : HeadAddr → List Node) (r i : Nat) (k' : Kernel)
    (L' : HeadAddr → List Node) : Prop where
  woven : Woven k k' L'
  lists : L' = Function.update (Function.update L (.children r) []) (.children i)
    (L (.children i) ++ L (.children r))
  pcb : ∀ p, k'.pcb p = if some p ∈ (L (.children r)).map (fun x => k.pcbPtr x.idx) then
    (k.pcb p).signalled DSOS_SIGHUP else k.pcb p
  rest : k' = { k with lists := k'.lists, pcb := k'.pcb }

/-- The first child of `r` becomes the last child of `i`, also when these are the same. -/
theorem handOver_woven {x : Node} {rest : List Node} (hs : Strung Regular Retained k L)
    (hL : L (.children r) = x :: rest) :
    Woven k ((k.detach (.children r) x).append (.children i) x)
      (Function.update (Function.update L (.children r) rest) (.children i)
        (Function.update L (.children r) rest (.children i) ++ [x])) := by
  have hmem : x ∈ L (.children r) := by rw [hL]; exact List.mem_cons_self
  have hx := hs.node_eq (l := .children r) (regular_children r) hmem
  have hkind : x.kind = .pcbPtr := congrArg Node.kind hx
  have hw := (Woven.refl hs).detach (l := .children r) (regular_children r) hmem
  have hu := hs.detach_unlinked (l := .children r) (regular_children r) hmem
  rw [hL, List.erase_cons_head] at hw
  have ha : Allocated k .pcbPtr x.idx :=
    hs.allocated (l := .children r) (regular_children r) (hx ▸ hmem)
  refine hw.append (l := .children i) (regular_children i) hkind ?_ hu fun l hl hm => ?_
  · rw [hkind]
    exact ha
  have hn := hs.nodup (l := .children r) (regular_children r)
  by_cases he : l = .children r
  · rw [he, Function.update_self] at hm
    rw [hL, List.nodup_cons] at hn
    exact hn.1 hm
  · rw [Function.update_of_ne he] at hm
    have hreg : Regular l.nodeKind := by
      rw [hl, hkind]
      exact regular_children r
    exact he (hs.apart hreg (j := .children r) (regular_children r) hm hmem)

theorem reparentChildren_ok {fuel : Nat} (hs : Strung Regular Retained k L) (hri : r ≠ i)
    (h : reparentChildren r i fuel k = .ok k') : ∃ L', Adopted k L r i k' L' := by
  induction fuel generalizing k L with
  | zero => cases h
  | succ fuel ih =>
    unfold reparentChildren at h
    rw [hs.first_eq (l := .children r) (regular_children r)] at h
    have hne : (HeadAddr.children i) ≠ .children r := fun he => hri (HeadAddr.children.inj he).symm
    cases hL : L (.children r) with
    | nil =>
      rw [hL] at h
      cases h
      refine ⟨L, Woven.refl hs, ?_, fun p => ?_, rfl⟩
      · rw [hL, List.append_nil, ← hL, Function.update_eq_self, Function.update_eq_self]
      · rw [hL]
        simp
    | cons x rest =>
      rw [hL] at h
      simp only [List.head?_cons] at h
      obtain ⟨ptr, hptr, h⟩ := bind_eq_ok.mp h
      obtain ⟨child, hchild, h⟩ := bind_eq_ok.mp h
      have hx := castTo_eq_ok.mp hptr
      subst hx
      have hchild : k.pcbPtr ptr = some child := deref_eq_ok.mp hchild
      have hw₂ := handOver_woven (i := i) hs hL
      rw [Function.update_of_ne hne] at hw₂
      obtain ⟨k₂, hk₂⟩ : ∃ k₂, ((k.detach (.children r) ⟨.pcbPtr, ptr⟩).append (.children i)
        ⟨.pcbPtr, ptr⟩).signal child DSOS_SIGHUP = k₂ := ⟨_, rfl⟩
      rw [hk₂] at h
      have hw₃ : Woven _ k₂ _ := hw₂.congr (by rw [← hk₂]; rfl) (by rw [← hk₂]; rfl)
      obtain ⟨L', ha⟩ := ih hw₃.strung h
      have hself : Function.update (Function.update L (.children r) rest) (.children i)
          (L (.children i) ++ [⟨.pcbPtr, ptr⟩]) (.children r) = rest := by
        rw [Function.update_of_ne hne.symm, Function.update_self]
      refine ⟨L', ?_, ?_, fun p => ?_, ?_⟩
      · exact hw₃.step ha.woven.strung ha.woven.confined ha.woven.pool
      · rw [ha.lists, hself, Function.update_self, List.append_assoc, List.singleton_append]
        funext l
        by_cases h₁ : l = .children i
        · rw [h₁, Function.update_self, Function.update_self, hL]
        · rw [Function.update_of_ne h₁, Function.update_of_ne h₁]
          by_cases h₂ : l = .children r
          · rw [h₂, Function.update_self, Function.update_self]
          · rw [Function.update_of_ne h₂, Function.update_of_ne h₂, Function.update_of_ne h₁,
              Function.update_of_ne h₂]
      · have hpcb : k₂.pcb = Function.update k.pcb child ((k.pcb child).signalled DSOS_SIGHUP) := by
          rw [← hk₂]
          rfl
        have hptrs : k₂.pcbPtr = k.pcbPtr := by rw [← hk₂]; rfl
        have hmem' : some p ∈ (L (.children r)).map (fun x => k.pcbPtr x.idx) ↔
            p = child ∨ some p ∈ rest.map fun x => k.pcbPtr x.idx := by
          rw [hL, List.map_cons, hchild, List.mem_cons, Option.some.injEq]
        rw [ha.pcb, hself, hpcb, hptrs, if_congr hmem' rfl rfl, Function.update_apply]
        by_cases hp : p = child
        · subst hp
          rw [if_pos rfl, signalled_signalled, ite_self, if_pos (Or.inl rfl)]
        · rw [if_neg hp]
          exact if_congr (by simp only [hp, false_or]) rfl rfl
      · rw [ha.rest, ← hk₂]
        rfl

/-- The table after the children have been handed over. -/
theorem Adopted.view_eq (h : Adopted k L r i k' L') : view k' L' = (view k L).adopt r i := by
  have hinfo : (fun p => View.control (k'.pcb p)) = ((view k L).adopt r i).info := by
    funext p
    rw [h.pcb]
    show _ = if some p ∈ (view k L).children r then _ else _
    by_cases hp : some p ∈ (view k L).children r
    · rw [if_pos hp]
      exact congrArg View.control (if_pos hp)
    · rw [if_neg hp]
      exact congrArg View.control (if_neg hp)
  have hlive : Allocated k' .pcb = Allocated k .pcb := by rw [h.rest]; rfl
  have hstep : view k' L' = { view k L' with info := ((view k L).adopt r i).info } := by
    unfold view
    rw [hinfo, hlive, h.rest]
    rfl
  rw [hstep, h.lists, view_children, view_children, List.map_append]
  rfl

theorem Adopted.beside (h : Adopted k L r i k' L') : Beside k L k' L' := by
  refine ⟨by rw [h.rest], fun t p => ?_, fun _ _ _ _ => by rw [h.rest], fun l hl => ?_⟩
  · rw [h.pcb]
    split
    · exact counter_signalled _ _ _
    · rfl
  have h₁ : l ≠ .children i := fun he => hl (he ▸ trivial)
  have h₂ : l ≠ .children r := fun he => hl (he ▸ trivial)
  rw [h.lists, Function.update_of_ne h₁, Function.update_of_ne h₂]

/-- Handing children over does not change who the stored parents are. -/
theorem reparentChildren_parent {fuel p : Nat} (h : reparentChildren r i fuel k = .ok k') :
    (k'.pcb p).parent = (k.pcb p).parent := by
  induction fuel generalizing k with
  | zero => cases h
  | succ fuel ih =>
    unfold reparentChildren at h
    split at h
    · cases h
      rfl
    · obtain ⟨_, _, h⟩ := bind_eq_ok.mp h
      obtain ⟨child, _, h⟩ := bind_eq_ok.mp h
      rw [ih h]
      show (Function.update k.pcb child _ p).parent = _
      rw [Function.update_apply]
      split
      · next he =>
        rw [he]
        rfl
      · rfl

/-! ## Death -/

/-- The state of `internal_exit` when it looks at the parent. -/
structure Died (k : Kernel) (L : HeadAddr → List Node) (r i parent : Nat) (k' : Kernel)
    (L' : HeadAddr → List Node) : Prop where
  init_eq : k.initPcb = some i
  parent_eq : (k.pcb r).parent = some parent
  ne : r ≠ i
  kept : Kept k k' L'
  beside : Beside k L k' L'
  lists : L' = Function.update (Function.update (Function.update L (.children r) [])
    (.children i) (L (.children i) ++ L (.children r))) .zombieList
      (L .zombieList ++ [⟨.pcb, r⟩])
  view_eq : view { k' with running := none } L' = ((view k L).adopt r i).die r parent
  sound : Sound (view { k' with running := none } L')
  returnValue : (k'.pcb r).returnValue = toInt (k.arg r 0)
  rest : k' = { k with lists := k'.lists, pcb := k'.pcb }

/-- Nobody else loses children. -/
theorem children_died {q : Nat} (hd : Died k L r i parent k' L') (hq : q ≠ r) :
    ∃ bs, L' (.children q) = L (.children q) ++ bs := by
  rw [hd.lists, Function.update_of_ne (by simp)]
  by_cases hi : q = i
  · subst hi
    exact ⟨L (.children r), Function.update_self ..⟩
  · have hqi : HeadAddr.children q ≠ .children i := fun he => hi (HeadAddr.children.inj he)
    have hqr : HeadAddr.children q ≠ .children r := fun he => hq (HeadAddr.children.inj he)
    refine ⟨[], ?_⟩
    rw [Function.update_of_ne hqi, Function.update_of_ne hqr, List.append_nil]

/-- The stored parent is read after the children have been handed over. -/
theorem exiting_parent {fuel : Nat} {k₂ : Kernel} (h : reparentChildren r i fuel (k.modPcb r fun q =>
      { q with returnValue := toInt (q.syscallArgs 0) }) = .ok k₂) :
    (((k₂.setStatus r .Zombie).append .zombieList ⟨.pcb, r⟩).pcb r).parent = (k.pcb r).parent := by
  show (Function.update k₂.pcb r _ r).parent = _
  rw [Function.update_self]
  show (k₂.pcb r).parent = _
  rw [reparentChildren_parent h]
  show (Function.update k.pcb r _ r).parent = _
  rw [Function.update_self]

/-- Who is in no list for its kind stays out of them when children are handed over. -/
theorem Adopted.unlisted {x : Node} (ha : Adopted k L r i k' L')
    (hout : ∀ l, l.nodeKind = .pcb → x ∉ L l) : ∀ l, l.nodeKind = .pcb → x ∉ L' l := by
  intro l hl hm
  have h₁ : l ≠ .children i := fun he => by rw [he] at hl; cases hl
  have h₂ : l ≠ .children r := fun he => by rw [he] at hl; cases hl
  rw [ha.lists, Function.update_of_ne h₁, Function.update_of_ne h₂] at hm
  exact hout l hl hm

/-- The dead process `r`, whose parent gets SIGCHLD. -/
def buried (k : Kernel) (r parent : Nat) : Kernel :=
  ((k.setStatus r .Zombie).append .zombieList ⟨.pcb, r⟩).signal parent DSOS_SIGCHLD

theorem buried_woven (hw : Woven base k L) (ha : Allocated k .pcb r)
    (hout : ∀ l, l.nodeKind = .pcb → (⟨.pcb, r⟩ : Node) ∉ L l) :
    Woven base (buried k r parent)
      (Function.update L .zombieList (L .zombieList ++ [⟨.pcb, r⟩])) := by
  have hw₁ : Woven base (k.setStatus r .Zombie) L := hw.congr rfl rfl
  have ha₁ : Allocated (k.setStatus r .Zombie) .pcb r := ha
  have hw₂ := hw₁.append (l := .zombieList) (x := ⟨.pcb, r⟩) regular_pcb rfl ha₁
    (hw₁.strung.loose ⟨.pcb, r⟩ rfl ha₁ (hw₁.strung.unlisted hout)) hout
  exact hw₂.congr rfl rfl

theorem buried_pcb (p : Nat) : ((buried k r parent).pcb p).timer = (k.pcb p).timer ∧
    ((buried k r parent).pcb p).returnValue = (k.pcb p).returnValue := by
  unfold buried
  simp only [Kernel.signal, Kernel.setStatus, modPcb, Kernel.append, Kernel.insert,
    Function.update_apply]
  split
  · next he =>
    subst he
    split
    · next he =>
      subst he
      exact ⟨rfl, rfl⟩
    · exact ⟨rfl, rfl⟩
  · split
    · next he =>
      subst he
      exact ⟨rfl, rfl⟩
    · exact ⟨rfl, rfl⟩

theorem buried_view : view { buried k r parent with running := none }
    (Function.update L .zombieList (L .zombieList ++ [⟨.pcb, r⟩])) = (view k L).die r parent := by
  show { view ((k.setStatus r .Zombie).signal parent DSOS_SIGCHLD)
    (Function.update L .zombieList (L .zombieList ++ [⟨.pcb, r⟩])) with running := none } = _
  rw [view_zombie, view_signal, view_setStatus, List.map_append]
  rfl

theorem buried_counter (t : Table) (p : Nat) :
    ((buried k r parent).pcb p).fdCounter t = (k.pcb p).fdCounter t := by
  unfold buried
  rw [counter_signal]
  exact counter_setStatus .Zombie t p

/-- What `internal_exit` has done when it looks at the parent. -/
theorem died_of_reparented {fuel : Nat} {k₂ : Kernel} (hc : Coherent k L) (hr : k.running = some r)
    (hi₀ : k.initPcb = some i) (hparent₀ : (k.pcb r).parent = some parent)
    (hk₂ : reparentChildren r i fuel (k.modPcb r fun q =>
      { q with returnValue := toInt (q.syscallArgs 0) }) = .ok k₂) :
    ∃ L₁, Died k L r i parent (buried k₂ r parent) L₁ := by
  obtain ⟨k₁, hk₁⟩ : ∃ k₁, k.modPcb r
    (fun q => { q with returnValue := toInt (q.syscallArgs 0) }) = k₁ := ⟨_, rfl⟩
  rw [hk₁] at hk₂
  have hri : r ≠ i := init_ne_of_parent hc.sound hi₀ hparent₀
  have hview₁ : view k₁ L = view k L := by
    rw [← hk₁]
    exact view_modPcb_same fun _ => rfl
  have hw₁ : Woven k k₁ L := (Woven.refl hc.tidy.strung).congr (by rw [← hk₁]; rfl)
    (by rw [← hk₁]; rfl)
  obtain ⟨L₂, ha⟩ := reparentChildren_ok hw₁.strung hri hk₂
  have hv₂ := ha.view_eq
  rw [hview₁] at hv₂
  have hpool₂ : k₂.pool = k.pool := by
    rw [ha.rest, ← hk₁]
    rfl
  -- `r` is in no list, as before
  have hra₂ : Allocated k₂ .pcb r := (allocated_congr hpool₂).mpr (hc.sound.placed.live_of_running hr)
  have hw : Woven _ (buried k₂ r parent) _ :=
    buried_woven ha.woven hra₂ (ha.unlisted (hc.running_unlinked hr).2)
  have hz₂ : L₂ .zombieList = L .zombieList := by
    rw [ha.lists, Function.update_of_ne (by simp), Function.update_of_ne (by simp)]
  have hview : view { buried k₂ r parent with running := none }
      (Function.update L₂ .zombieList (L .zombieList ++ [⟨.pcb, r⟩])) =
      ((view k L).adopt r i).die r parent := by
    rw [← hz₂, buried_view, hv₂]
  rw [hz₂] at hw
  have hpcb₂ : ∀ p, (k₂.pcb p).timer = (k₁.pcb p).timer ∧
      (k₂.pcb p).returnValue = (k₁.pcb p).returnValue := by
    intro p
    rw [ha.pcb]
    split <;> exact ⟨rfl, rfl⟩
  refine ⟨Function.update L₂ .zombieList (L .zombieList ++ [⟨.pcb, r⟩]),
    hi₀, hparent₀, hri, ⟨hw₁.step hw.strung hw.confined hw.pool, fun j hj => ?_, fun p => ?_⟩,
    ⟨?_, fun t p => ?_, fun kind _ _ _ => ?_, fun l hl => ?_⟩, ?_, hview, ?_, ?_, ?_⟩
  · have hpool : (buried k₂ r parent).pool = k.pool := hpool₂
    have hj₀ : Allocated k .timerItem j := (allocated_congr hpool).mp hj
    rw [Function.update_of_ne (by simp), ha.lists, Function.update_of_ne (by simp),
      Function.update_of_ne (by simp)]
    exact hc.tidy.timers j hj₀
  · rw [(buried_pcb p).1, (hpcb₂ p).1, ← hk₁]
    exact (timer_modPcb (fun q => { q with returnValue := toInt (q.syscallArgs 0) })
      (fun _ => rfl) p).trans (hc.tidy.unset p)
  · show ({ k₂ with lists := _, pcb := _ } : Kernel) = _
    rw [ha.rest, ← hk₁]
    rfl
  · rw [buried_counter, ha.beside.counter, ← hk₁]
    exact counter_modPcb (f := fun q => { q with returnValue := toInt (q.syscallArgs 0) })
      (fun _ t => by cases t <;> rfl) t p
  · show k₂.pool kind = _
    rw [hpool₂]
  · have h₁ : l ≠ .zombieList := fun he => hl (he ▸ trivial)
    rw [Function.update_of_ne h₁]
    exact ha.beside.lists l hl
  · rw [ha.lists]
  · rw [hview]
    exact exit_sound hc.sound hr hi₀ hparent₀
  · rw [(buried_pcb r).2, (hpcb₂ r).2, ← hk₁]
    show (Function.update k.pcb r _ r).returnValue = _
    rw [Function.update_self]
    rfl
  · show ({ k₂ with lists := _, pcb := _ } : Kernel) = _
    rw [ha.rest, ← hk₁]
    rfl

theorem exit_died (hc : Coherent k L) (hr : k.running = some r) (h : internalExit k = .ok k') :
    ∃ i parent k₁ L₁, Died k L r i parent k₁ L₁ ∧
      ((WaitsFor (((view k L).adopt r i).die r parent) parent r ∧
          k₁.reportToParent r parent = .ok k') ∨
        (¬ WaitsFor (((view k L).adopt r i).die r parent) parent r ∧
          ∃ n k₂, k₁.detachFirst .readyList = .ok (n, k₂) ∧
            k' = { k₂.setStatus n .Running with running := some n })) := by
  unfold internalExit at h
  obtain ⟨r', hr', h⟩ := bind_eq_ok.mp h
  have hr' := deref_eq_ok.mp hr'
  rw [hr, Option.some.injEq] at hr'
  subst hr'
  cases hi : k.initPcb with
  | none =>
    have hinit : (k.modPcb r fun q =>
        { q with returnValue := toInt (q.syscallArgs 0) }).initPcb = none := hi
    simp only [hinit] at h
    cases h
  | some i =>
    have hinit : (k.modPcb r fun q =>
        { q with returnValue := toInt (q.syscallArgs 0) }).initPcb = some i := hi
    simp only [hinit] at h
    obtain ⟨k₂, hk₂, h⟩ := bind_eq_ok.mp h
    obtain ⟨parent, hparent, h⟩ := bind_eq_ok.mp h
    have hparent₀ : (k.pcb r).parent = some parent := by
      rw [← exiting_parent hk₂]
      exact deref_eq_ok.mp hparent
    obtain ⟨L₁, hd⟩ := died_of_reparented hc hr hi hparent₀ hk₂
    refine ⟨i, parent, _, L₁, hd, ?_⟩
    rw [← hd.view_eq]
    split at h
    · next hw => exact .inl ⟨hw, h⟩
    · next hw =>
      obtain ⟨⟨n, k₅⟩, hf, h⟩ := bind_eq_ok.mp h
      cases h
      exact .inr ⟨hw, n, k₅, hf, rfl⟩

/-- Without a waiting parent, the next process runs. -/
theorem exitNext_refines {k₁ k₂ : Kernel} {L₁ : HeadAddr → List Node} (hc : Coherent k L)
    (hd : Died k L r i parent k₁ L₁)
    (hno : ¬ WaitsFor (((view k L).adopt r i).die r parent) parent r)
    (hf : k₁.detachFirst .readyList = .ok (n, k₂)) :
    ∃ rest, L .readyList = ⟨.pcb, n⟩ :: rest ∧
      Moved k L (Handled (view k L) r DSOS_CALL_EXIT)
        { k₂.setStatus n .Running with running := some n } (Function.update L₁ .readyList rest) ∧
      Beside k L { k₂.setStatus n .Running with running := some n }
        (Function.update L₁ .readyList rest) ∧ k₂ = k₁.detach .readyList ⟨.pcb, n⟩ := by
  obtain ⟨rest, hL, hk₂, hk, hb⟩ := hd.kept.takeReady hf
  have hready : L .readyList = ⟨.pcb, n⟩ :: rest := by
    rw [← hL, hd.lists, Function.update_of_ne (by simp), Function.update_of_ne (by simp),
      Function.update_of_ne (by simp)]
  have hk' : Kept _ { k₂.setStatus n .Running with running := some n } _ :=
    hk.congr rfl rfl fun q => timer_setStatus _ q
  have hb' : Beside k L { k₂.setStatus n .Running with running := some n }
      (Function.update L₁ .readyList rest) :=
    (hd.beside.trans hb.beside).trans ⟨rfl, counter_setStatus _, fun _ _ _ _ => rfl, fun _ _ => rfl⟩
  refine ⟨rest, hready, hk'.moved hc.tidy hb' ?_, hb', hk₂⟩
  have hdie : (((view k L).adopt r i).die r parent).ready = n :: rest.map Node.idx := by
    show (L .readyList).map Node.idx = _
    rw [hready, List.map_cons]
  have hview : view { k₂.setStatus n .Running with running := some n }
      (Function.update L₁ .readyList rest) =
      (((view k L).adopt r i).die r parent).runNext.setStatus n .Running := by
    rw [hk₂]
    show { view (({ k₁ with running := none } : Kernel).setStatus n .Running)
      (Function.update L₁ .readyList rest) with running := some n } = _
    rw [view_ready, view_setStatus, hd.view_eq]
    unfold ProcessTable.runNext
    rw [hdie]
    rfl
  rw [hview]
  have hready' : (view k L).ready = n :: rest.map Node.idx := by
    show (L .readyList).map Node.idx = _
    rw [hready, List.map_cons]
  exact .exitNext hd.init_eq hd.parent_eq hno hready'

/-! ## Timers and resources -/

/-- A process without timers has none to release. -/
theorem releaseTimers_same {fuel : Nat} {as xs : List Node} (hs : Strung Regular Retained k L)
    (hL : L .timerList = as ++ xs) (hno : ∀ x ∈ xs, (k.timerItem x.idx).pcb ≠ some r)
    (h : releaseTimers r fuel xs.head? k = .ok k') : k' = k := by
  have hreg : Regular HeadAddr.timerList.nodeKind := (by decide : Regular .timerItem)
  induction fuel generalizing as xs with
  | zero => cases h
  | succ fuel ih =>
    cases xs with
    | nil =>
      cases h
      rfl
    | cons x xs =>
      have hx := hs.node_eq hreg (x := x) (by rw [hL]; simp)
      have hholds := hs.holds hreg
      rw [hL] at hholds
      have hnext : (k.lists.item x).next = xs.head? := by
        rw [DisastrOS.Library.LinkedSequence.cell_of_split hholds]
      simp only [releaseTimers, List.head?_cons, hnext] at h
      obtain ⟨timer, htimer, h⟩ := bind_eq_ok.mp h
      have hidx : x.idx = timer := congrArg Node.idx (castTo_eq_ok.mp htimer)
      rw [← hidx, if_neg (hno x List.mem_cons_self)] at h
      have hL' : L .timerList = (as ++ [x]) ++ xs := by
        rw [hL, List.append_assoc]
        rfl
      exact ih hL' (fun y hy => hno y (List.mem_cons_of_mem _ hy)) h

/-- Blocks of different pools can be released in any order. -/
theorem releaseBlock_comm {kind kind' : Kind} (hne : kind ≠ kind') (a b : Nat) :
    (k.releaseBlock kind a).releaseBlock kind' b =
      (k.releaseBlock kind' b).releaseBlock kind a := by
  unfold Kernel.releaseBlock
  simp only [Function.update_of_ne hne, Function.update_of_ne hne.symm]
  rw [Function.update_comm hne]

/-- All resources that `r` has opened are closed, and nothing else has happened. -/
structure Released (k : Kernel) (L : HeadAddr → List Node) (r : Nat) (k' : Kernel)
    (L' : HeadAddr → List Node) : Prop where
  woven : Woven k k' L'
  tied : ∀ t, Tied t k' L'
  opened : L' (.opened .resource r) = []
  lists : ∀ l, l ≠ .opened .resource r → (∀ o, l ≠ .users .resource o) → L' l = L l
  allocated : ∀ kind j, Allocated k' kind j ↔ Allocated k kind j ∧
    ¬ (kind = .descriptor ∧ ⟨.descriptor, j⟩ ∈ L (.opened .resource r)) ∧
    ¬ (kind = .descriptorPtr ∧ ∃ d, ⟨.descriptor, d⟩ ∈ L (.opened .resource r) ∧
      (k.descriptor .resource d).ptr = some j)
  pool : ∀ kind, kind ≠ .descriptor → kind ≠ .descriptorPtr → k'.pool kind = k.pool kind
  rest : k' = { k with lists := k'.lists, pool := k'.pool }

theorem releaseDescriptors_ok {fuel : Nat} (hs : Strung Regular Retained k L)
    (ht : ∀ t, Tied t k L) (h : releaseDescriptors r fuel k = .ok k') :
    ∃ L', Released k L r k' L' := by
  induction fuel generalizing k L with
  | zero => cases h
  | succ fuel ih =>
    have hreg : Regular (HeadAddr.opened .resource r).nodeKind := regular_descriptorKind .resource
    unfold releaseDescriptors at h
    rw [hs.first_eq hreg] at h
    cases hL : L (.opened .resource r) with
    | nil =>
      rw [hL] at h
      cases h
      exact ⟨L, Woven.refl hs, ht, hL, fun _ _ _ => rfl, fun kind j => by simp [hL],
        fun _ _ _ => rfl, rfl⟩
    | cons x rest =>
      rw [hL] at h
      simp only [List.head?_cons] at h
      obtain ⟨d, hd, h⟩ := bind_eq_ok.mp h
      obtain ⟨o, ho, h⟩ := bind_eq_ok.mp h
      obtain ⟨ptr, hptr, h⟩ := bind_eq_ok.mp h
      have hx := castTo_eq_ok.mp hd
      subst hx
      have ho : (k.descriptor .resource d).object = some o := deref_eq_ok.mp ho
      have hptr : (k.descriptor .resource d).ptr = some ptr := deref_eq_ok.mp hptr
      have hm : (⟨.descriptor, d⟩ : Node) ∈ L (.opened .resource r) := by
        rw [hL]
        exact List.mem_cons_self
      have hda : Allocated k .descriptor d := hs.allocated hreg hm
      have hu : (⟨.descriptorPtr, ptr⟩ : Node) ∈ L (.users .resource o) := by
        obtain ⟨o', ptr', ho', hptr', _, hl⟩ := (ht .resource).bound d hda
        rw [ho, Option.some.injEq] at ho'
        rw [hptr, Option.some.injEq] at hptr'
        subst ho' hptr'
        rcases hl with hl | ⟨he, _⟩
        · exact hl
        · cases he
      have hr := unlist_removed (t := .resource) hs hreg (regular_pointerKind .resource) hm hu
      rw [releaseBlock_comm (by decide : Kind.descriptorPtr ≠ .descriptor)] at h
      obtain ⟨k₁, hk₁⟩ : ∃ k₁, (((k.detach (.opened .resource r) ⟨.descriptor, d⟩).detach
        (.users .resource o) ⟨.descriptorPtr, ptr⟩).releaseBlock .descriptor d).releaseBlock
          .descriptorPtr ptr = k₁ := ⟨_, rfl⟩
      rw [hk₁] at h
      have hr : Removed Regular Retained k L .resource r o d ptr k₁ := hk₁ ▸ hr
      have ht₁ : ∀ t, Tied t k₁ (withClosed L .resource r o d ptr) := by
        intro t
        by_cases he : t = .resource
        · subst he
          exact tied_removed hs (ht .resource) hm hptr hu hr
        · exact tied_same (ht t) (same_removed hs hr he)
      obtain ⟨L', hrel⟩ := ih hr.strung ht₁ h
      have hlists : ∀ l, l ≠ .opened .resource r → (∀ o, l ≠ .users .resource o) →
          withClosed L .resource r o d ptr l = L l := fun l h₁ h₂ => by
        unfold withClosed
        rw [Function.update_of_ne (h₂ o), Function.update_of_ne h₁]
      have hself : withClosed L .resource r o d ptr (.opened .resource r) = rest := by
        unfold withClosed
        rw [Function.update_of_ne (by simp), Function.update_self, hL]
        exact List.erase_cons_head ..
      have hdesc : k₁.descriptor = k.descriptor := by rw [hr.rest]
      refine ⟨L', ?_, hrel.tied, hrel.opened, fun l h₁ h₂ => ?_, fun kind j => ?_,
        fun kind h₁ h₂ => ?_, ?_⟩
      · exact (Removed.woven (Woven.refl hs) hr).step hrel.woven.strung hrel.woven.confined hrel.woven.pool
      · rw [hrel.lists l h₁ h₂, hlists l h₁ h₂]
      · rw [hrel.allocated, hr.allocated, hself, hL, hdesc]
        have hj : (k.descriptor .resource d).ptr = some j ↔ j = ptr := by
          rw [hptr, Option.some.injEq, eq_comm]
        simp only [Table.descriptorKind, Table.pointerKind, List.mem_cons, Node.mk.injEq, true_and,
          or_and_right, exists_or, exists_eq_left, hj]
        grind
      · rw [hrel.pool kind h₁ h₂]
        exact hr.pool kind h₁ h₂
      · rw [hrel.rest, hr.rest]

/-! ## Reporting to the parent -/

/-- What a search in the error monad finds. -/
theorem findM?_some {ε : Type} {f : Nat → Except ε Bool} {xs : List Nat} {j : Nat}
    (h : xs.findM? f = .ok (some j)) : j ∈ xs ∧ f j = .ok true := by
  induction xs with
  | nil => cases h
  | cons x xs ih =>
    rw [List.findM?] at h
    obtain ⟨b, hb, h⟩ := bind_eq_ok.mp h
    cases b with
    | true =>
      cases h
      exact ⟨List.mem_cons_self, hb⟩
    | false =>
      obtain ⟨hj, hf⟩ := ih h
      exact ⟨List.mem_cons_of_mem _ hj, hf⟩

theorem pcbPtrByPID_some {q ptr : Nat} {pid : Int} (hs : Strung Regular Retained k L)
    (h : k.pcbPtrByPID (.children q) pid = .ok (some ptr)) :
    ⟨.pcbPtr, ptr⟩ ∈ L (.children q) ∧ ∃ c, k.pcbPtr ptr = some c ∧ (k.pcb c).pid = pid := by
  unfold pcbPtrByPID at h
  rw [hs.search_eq (l := .children q) (regular_children q)] at h
  obtain ⟨hmem, h⟩ := findM?_some h
  obtain ⟨c, hc, h⟩ := bind_eq_ok.mp h
  simp only [pure, Except.pure, Except.ok.injEq, decide_eq_true_eq] at h
  exact ⟨hs.mem_idx (l := .children q) (regular_children q) hmem, c, deref_eq_ok.mp hc, h⟩

/-- The waiting parent has been told of `r`, which `ptr` links. -/
structure ParentTold (k : Kernel) (L : HeadAddr → List Node) (r parent ptr : Nat) (k' : Kernel)
    (L' : HeadAddr → List Node) : Prop where
  link : ⟨.pcbPtr, ptr⟩ ∈ L (.children parent)
  linked : k.pcbPtr ptr = some r
  woven : Woven k k' L'
  lists : L' = Function.update (Function.update L .waitingList
    ((L .waitingList).erase ⟨.pcb, parent⟩)) (.children parent)
      ((L (.children parent)).erase ⟨.pcbPtr, ptr⟩)
  pcb : k'.pcb = Function.update k.pcb parent
    { k.pcb parent with status := .Running, syscallRetvalue := (k.pcb r).pid }
  stored : k.storeResult (k.arg parent 1) (k.pcb r).returnValue = .ok { k with mem := k'.mem }
  rest : k' = { k with lists := k'.lists, pcb := k'.pcb, mem := k'.mem }

theorem ParentTold.lists_of_ne {ptr : Nat} {l : HeadAddr} (h : ParentTold k L r parent ptr k' L')
    (h₁ : l ≠ .waitingList) (h₂ : l ≠ .children parent) : L' l = L l := by
  rw [h.lists, Function.update_of_ne h₂, Function.update_of_ne h₁]

theorem ParentTold.beside {ptr : Nat} (h : ParentTold k L r parent ptr k' L') : Beside k L k' L' := by
  have hpool : k'.pool = k.pool := by rw [h.rest]
  refine ⟨by rw [h.rest], fun t p => ?_, fun _ _ _ _ => by rw [hpool], fun l hl => ?_⟩
  · rw [h.pcb]
    exact counter_modPcb (k := k)
      (f := fun q => { q with status := .Running, syscallRetvalue := (k.pcb r).pid })
      (fun _ t => by cases t <;> rfl) t p
  · exact h.lists_of_ne (fun he => hl (he ▸ trivial)) fun he => hl (he ▸ trivial)

/-- The report tells the parent, and then releases what the dead process has. -/
theorem parentTold_of_report (hs : Strung Regular Retained k L)
    (hsound : Sound (view { k with running := none } L)) (hpw : ⟨.pcb, parent⟩ ∈ L .waitingList)
    (hrl : (view { k with running := none } L).live r) (hne : parent ≠ r)
    (h : k.reportToParent r parent = .ok k') :
    ∃ ptr k₁ L₁ k₂ k₃, ParentTold k L r parent ptr k₁ L₁ ∧
      releaseTimers r LOOP_BOUND (k₁.head .timerList).first k₁ = .ok k₂ ∧
      releaseDescriptors r LOOP_BOUND k₂ = .ok k₃ ∧
      k' = { (k₃.detach .zombieList ⟨.pcb, r⟩).releaseBlock .pcb r with running := some parent } := by
  unfold reportToParent at h
  obtain ⟨k₂, hk₂⟩ : ∃ k₂, (k.detach .waitingList ⟨.pcb, parent⟩).setStatus parent .Running = k₂ :=
    ⟨_, rfl⟩
  simp only [hk₂] at h
  have hpcb₂ : k₂.pcb = Function.update k.pcb parent { k.pcb parent with status := .Running } := by
    rw [← hk₂]
    rfl
  have hptr₂ : k₂.pcbPtr = k.pcbPtr := by rw [← hk₂]; rfl
  have hw₂ : Woven k k₂ _ :=
    ((Woven.refl hs).detach (l := .waitingList) regular_pcb hpw).congr (by rw [← hk₂]; rfl)
      (by rw [← hk₂]; rfl)
  obtain ⟨found, hfound, h⟩ := bind_eq_ok.mp h
  obtain ⟨ptr, hself, h⟩ := bind_eq_ok.mp h
  rw [deref_eq_ok.mp hself] at hfound
  obtain ⟨hlink, c, hc, hpid⟩ := pcbPtrByPID_some hw₂.strung hfound
  rw [Function.update_of_ne (by simp)] at hlink
  rw [hptr₂] at hc
  -- pids are unique, so the link found is that of `r`
  have hcl : (view { k with running := none } L).live c := by
    obtain ⟨c', he, hl, _⟩ := hsound.family.child parent (some c)
      (List.mem_map.mpr ⟨_, hlink, hc⟩)
    cases he
    exact hl
  have hcr : c = r := by
    refine hsound.family.pid_inj c r hcl hrl ?_
    have hpids : ∀ q, (k₂.pcb q).pid = (k.pcb q).pid := fun q => by
      rw [hpcb₂, Function.update_apply]
      split
      · next he => rw [he]
      · rfl
    rwa [hpids, hpids] at hpid
  rw [hcr] at hc
  have hw₃ := hw₂.detach (l := .children parent) (x := ⟨.pcbPtr, ptr⟩) (regular_children parent)
    (by rwa [Function.update_of_ne (by simp)])
  rw [Function.update_of_ne (by simp)] at hw₃
  obtain ⟨k₃, hk₃⟩ : ∃ k₃, (k₂.detach (.children parent) ⟨.pcbPtr, ptr⟩).setRetvalue parent
    ((k₂.detach (.children parent) ⟨.pcbPtr, ptr⟩).pcb r).pid = k₃ := ⟨_, rfl⟩
  rw [hk₃] at h
  have hpcb₃ : k₃.pcb = Function.update k.pcb parent
      { k.pcb parent with status := .Running, syscallRetvalue := (k.pcb r).pid } := by
    rw [← hk₃]
    show Function.update k₂.pcb parent { k₂.pcb parent with syscallRetvalue := (k₂.pcb r).pid } = _
    rw [hpcb₂, Function.update_idem, Function.update_self, Function.update_of_ne hne.symm]
  have hrest₃ : k₃ = { k with lists := k₃.lists, pcb := k₃.pcb } := by
    rw [← hk₃, ← hk₂]
    rfl
  have harg₃ : k₃.arg parent 1 = k.arg parent 1 := by
    unfold arg
    rw [hpcb₃, Function.update_self]
  have hval₃ : (k₃.pcb r).returnValue = (k.pcb r).returnValue := by
    rw [hpcb₃, Function.update_of_ne hne.symm]
  obtain ⟨k₄, hstore, h⟩ := bind_eq_ok.mp h
  rw [harg₃, hval₃] at hstore
  have hk₄ := storeResult_ok hstore
  have hmem₃ : k₃.mem = k.mem := by rw [hrest₃]
  obtain ⟨k₅, htimers, h⟩ := bind_eq_ok.mp h
  obtain ⟨k₆, hrel, h⟩ := bind_eq_ok.mp h
  refine ⟨ptr, k₄, _, k₅, k₆, ⟨hlink, hc, ?_, rfl, ?_, storeResult_mem hstore hmem₃, ?_⟩, htimers, hrel,
    (Except.ok.inj h).symm⟩
  · exact hw₃.congr (by rw [hk₄, ← hk₃]; rfl) (by rw [hk₄, ← hk₃]; rfl)
  · rw [hk₄]
    exact hpcb₃
  · rw [hk₄, hrest₃]

/-- The dead process leaves its list, and its block is free. -/
theorem woven_freed (hw : Woven base k L) (hr : ⟨.pcb, r⟩ ∈ L .zombieList)
    (ha : Allocated k .pcb r) :
    Woven base ((k.detach .zombieList ⟨.pcb, r⟩).releaseBlock .pcb r)
        (Function.update L .zombieList ((L .zombieList).erase ⟨.pcb, r⟩)) ∧
      ∀ kind j, Allocated ((k.detach .zombieList ⟨.pcb, r⟩).releaseBlock .pcb r) kind j ↔
        ¬ (kind = .pcb ∧ j = r) ∧ Allocated k kind j := by
  have hw₁ := hw.detach (l := .zombieList) regular_pcb hr
  have ha₁ : Allocated (k.detach .zombieList ⟨.pcb, r⟩) .pcb r := ha
  have hfreed := releaseBlock_returned .pcb r hw₁.strung.pooled ha₁
  refine ⟨hw₁.releaseBlock regular_pcb ha₁ fun l hl => ?_, fun kind j => hfreed.allocated kind j⟩
  have hreg : Regular l.nodeKind := by rw [hl]; exact regular_pcb
  exact hw.strung.threaded.not_mem_erased (j := HeadAddr.zombieList) regular_pcb hr hreg

/-- The zombie `r`, linked by `ptr`, has been collected by its waiting parent. -/
structure Reported (k : Kernel) (L : HeadAddr → List Node) (r parent ptr : Nat) (k' : Kernel)
    (L' : HeadAddr → List Node) : Prop where
  link : ⟨.pcbPtr, ptr⟩ ∈ L (.children parent)
  linked : k.pcbPtr ptr = some r
  woven : Woven k k' L'
  tied : ∀ t, Tied t k' L'
  waiting : L' .waitingList = (L .waitingList).erase ⟨.pcb, parent⟩
  children : L' (.children parent) = (L (.children parent)).erase ⟨.pcbPtr, ptr⟩
  zombie : L' .zombieList = (L .zombieList).erase ⟨.pcb, r⟩
  opened : L' (.opened .resource r) = []
  lists : ∀ l, l ≠ .waitingList → l ≠ .children parent → l ≠ .zombieList →
    l ≠ .opened .resource r → (∀ o, l ≠ .users .resource o) → L' l = L l
  allocated : ∀ kind j, Allocated k' kind j ↔ Allocated k kind j ∧ ¬ (kind = .pcb ∧ j = r) ∧
    ¬ (kind = .descriptor ∧ ⟨.descriptor, j⟩ ∈ L (.opened .resource r)) ∧
    ¬ (kind = .descriptorPtr ∧ ∃ d, ⟨.descriptor, d⟩ ∈ L (.opened .resource r) ∧
      (k.descriptor .resource d).ptr = some j)
  pool : ∀ kind, kind ≠ .pcb → kind ≠ .descriptor → kind ≠ .descriptorPtr →
    k'.pool kind = k.pool kind
  pcb : k'.pcb = Function.update k.pcb parent
    { k.pcb parent with status := .Running, syscallRetvalue := (k.pcb r).pid }
  stored : k.storeResult (k.arg parent 1) (k.pcb r).returnValue = .ok { k with mem := k'.mem }
  rest : k' = { k with
    lists := k'.lists, pool := k'.pool, pcb := k'.pcb, mem := k'.mem, running := some parent }

theorem reportToParent_ok (hs : Strung Regular Retained k L) (ht : ∀ t, Tied t k L)
    (hsound : Sound (view { k with running := none } L))
    (hwaits : (k.pcb parent).status = .Waiting) (hr : ⟨.pcb, r⟩ ∈ L .zombieList)
    (h : k.reportToParent r parent = .ok k') : ∃ ptr L', Reported k L r parent ptr k' L' := by
  have hpw : (⟨.pcb, parent⟩ : Node) ∈ L .waitingList :=
    (mem_map_idx hs (l := .waitingList) regular_pcb).mp (hsound.marked.waits parent hwaits)
  have hrz : r ∈ (view { k with running := none } L).zombie := List.mem_map.mpr ⟨_, hr, rfl⟩
  have hrl := ((hsound.marked.dead r).mp hrz).1
  have hrw : r ∉ (view { k with running := none } L).waiting := fun hw =>
    (hsound.placed.not_mem_of_waiting hw).2.2 hrz
  have hne : parent ≠ r := fun he => hrw (he ▸ List.mem_map.mpr ⟨_, hpw, rfl⟩)
  obtain ⟨ptr, k₁, L₁, k₂, k₃, htold, htimers, hrel, rfl⟩ := parentTold_of_report hs hsound hpw hrl hne h
  have hs₁ := htold.woven.strung
  -- a dead process has no timers
  rw [hs₁.first_eq (l := .timerList) (by decide : Regular .timerItem)] at htimers
  have hno : ∀ x ∈ L₁ .timerList, (k₁.timerItem x.idx).pcb ≠ some r := by
    intro x hx he
    rw [htold.lists_of_ne (by simp) (by simp)] at hx
    rw [htold.rest] at he
    obtain ⟨p, hp, hpcb, _⟩ := hsound.timed.asleep _ (List.mem_map.mpr ⟨x, hx, rfl⟩)
    have hpcb : (k.timerItem x.idx).pcb = some p := hpcb
    rw [he, Option.some.injEq] at hpcb
    exact hrw (hpcb ▸ hp)
  obtain rfl := releaseTimers_same hs₁ (List.nil_append (L₁ .timerList)).symm hno htimers
  obtain ⟨L₃, hrel⟩ := releaseDescriptors_ok hs₁ (fun t => tied_same (ht t) (htold.beside.same t)) hrel
  have hw₃ := htold.woven.step hrel.woven.strung hrel.woven.confined hrel.woven.pool
  have hL₃ : ∀ l, l ≠ .waitingList → l ≠ .children parent → l ≠ .opened .resource r →
      (∀ o, l ≠ .users .resource o) → L₃ l = L l := fun l h₁ h₂ h₃ h₄ =>
    (hrel.lists l h₃ h₄).trans (htold.lists_of_ne h₁ h₂)
  have hz₃ := hL₃ .zombieList (by simp) (by simp) (by simp) (by simp)
  have hpool₁ : k₂.pool = k.pool := by rw [htold.rest]
  have hall₃ : ∀ kind j, Allocated k₃ kind j ↔ Allocated k kind j ∧
      ¬ (kind = .descriptor ∧ ⟨.descriptor, j⟩ ∈ L (.opened .resource r)) ∧
      ¬ (kind = .descriptorPtr ∧ ∃ d, ⟨.descriptor, d⟩ ∈ L (.opened .resource r) ∧
        (k.descriptor .resource d).ptr = some j) := by
    intro kind j
    rw [hrel.allocated, allocated_congr hpool₁, htold.lists_of_ne (by simp) (by simp), htold.rest]
  have hra₃ : Allocated k₃ .pcb r := (hall₃ _ _).mpr ⟨hrl, fun he => (nomatch he.1),
    fun he => (nomatch he.1)⟩
  obtain ⟨hw₄, hall₄⟩ := woven_freed hw₃ (hz₃ ▸ hr) hra₃
  rw [hz₃] at hw₄
  have htied : ∀ t, SameTable t k₃ L₃ { (k₃.detach .zombieList ⟨.pcb, r⟩).releaseBlock .pcb r with
      running := some parent } (Function.update L₃ .zombieList ((L .zombieList).erase ⟨.pcb, r⟩)) :=
    Beside.same ⟨rfl, fun _ _ => rfl, fun kind h₁ _ _ => releaseBlock_pool _ _ h₁, fun l hl =>
      Function.update_of_ne (fun he : l = .zombieList => hl (he ▸ trivial)) _ _⟩
  refine ⟨ptr, _, htold.link, htold.linked, hw₄.congr rfl rfl,
    fun t => tied_same (hrel.tied t) (htied t), ?_, ?_, Function.update_self .., ?_,
    fun l h₁ h₂ h₃ h₄ h₅ => ?_, fun kind j => ?_, fun kind h₁ h₂ h₃ => ?_, ?_, ?_, ?_⟩
  · rw [Function.update_of_ne (by simp), hrel.lists _ (by simp) (by simp), htold.lists,
      Function.update_of_ne (by simp), Function.update_self]
  · rw [Function.update_of_ne (by simp), hrel.lists _ (by simp) (by simp), htold.lists,
      Function.update_self]
  · rw [Function.update_of_ne (by simp)]
    exact hrel.opened
  · rw [Function.update_of_ne h₃]
    exact hL₃ l h₁ h₂ h₄ h₅
  · refine (hall₄ kind j).trans ?_
    rw [hall₃]
    tauto
  · show (k₃.detach .zombieList ⟨.pcb, r⟩ |>.releaseBlock .pcb r).pool kind = _
    rw [releaseBlock_pool _ _ h₁]
    show k₃.pool kind = _
    rw [hrel.pool kind h₂ h₃, hpool₁]
  · show k₃.pcb = _
    rw [hrel.rest]
    exact htold.pcb
  · have hmem : k₃.mem = k₂.mem := by rw [hrel.rest]
    show _ = Except.ok { k with mem := k₃.mem }
    rw [hmem]
    exact htold.stored
  · rw [hrel.rest, htold.rest]
    rfl

/-- The table after a report to the parent. -/
theorem Reported.view_eq {ptr : Nat} (h : Reported k L r parent ptr k' L')
    (hs : Strung Regular Retained k L) (hn : ((view k L).children parent).Nodup)
    (hp : ⟨.pcb, parent⟩ ∈ L .waitingList) (hr : ⟨.pcb, r⟩ ∈ L .zombieList) :
    view k' L' = (((view { k with running := none } L).resume parent).unlinkChild parent r).forget
      r := by
  have hrun : k'.running = some parent := by rw [h.rest]
  have hinit : k'.initPcb = k.initPcb := by rw [h.rest]
  have hlast : k'.lastPid = k.lastPid := by rw [h.rest]
  have htime : k'.disastrOSTime = k.disastrOSTime := by rw [h.rest]
  have htimer : k'.timerItem = k.timerItem := by rw [h.rest]
  have hptrs : k'.pcbPtr = k.pcbPtr := by rw [h.rest]
  have hwaiter : ∀ i, waiterOf k' i = waiterOf k i := fun i => by rw [h.rest]; rfl
  have hw : ((L .waitingList).erase ⟨.pcb, parent⟩).map Node.idx =
      ((L .waitingList).map Node.idx).erase parent :=
    map_idx_erase hs (l := .waitingList) regular_pcb hp
  have hz : ((L .zombieList).erase ⟨.pcb, r⟩).map Node.idx =
      ((L .zombieList).map Node.idx).erase r :=
    map_idx_erase hs (l := .zombieList) regular_pcb hr
  have hc : ((L (.children parent)).erase ⟨.pcbPtr, ptr⟩).map (fun x => k.pcbPtr x.idx) =
      ((L (.children parent)).map fun x => k.pcbPtr x.idx).erase (some r) := by
    rw [map_erase_of_inj (f := fun x : Node => k.pcbPtr x.idx) h.link
      fun x hx he => List.inj_on_of_nodup_map hn hx h.link he]
    simp only [h.linked]
  unfold view ProcessTable.forget ProcessTable.unlinkChild ProcessTable.resume
    ProcessTable.setStatus ProcessTable.modify
  rw [hrun, hinit, hlast, htime, htimer, hptrs, h.waiting, h.zombie, hw, hz,
    h.lists .readyList (by simp) (by simp) (by simp) (by simp) (by simp),
    h.lists .timerList (by simp) (by simp) (by simp) (by simp) (by simp)]
  congr 1
  · funext j
    refine propext ?_
    show Allocated k' .pcb j ↔ j ≠ r ∧ Allocated k .pcb j
    rw [h.allocated]
    simp [and_comm]
  · funext p
    show View.control (k'.pcb p) = Function.update (fun p => View.control (k.pcb p)) parent
      { View.control (k.pcb parent) with status := .Running } p
    rw [h.pcb, Function.update_apply, Function.update_apply]
    split <;> rfl
  · funext q
    show (L' (.children q)).map (fun x => k.pcbPtr x.idx) =
      Function.update (fun q => (L (.children q)).map fun x => k.pcbPtr x.idx) parent
        (((L (.children parent)).map fun x => k.pcbPtr x.idx).erase (some r)) q
    rw [Function.update_apply]
    by_cases hq : q = parent
    · rw [if_pos hq, hq, h.children, hc]
    · rw [if_neg hq, h.lists (.children q) (by simp) (by simp [hq]) (by simp) (by simp) (by simp)]
  · funext sem
    rw [h.lists (.waitingDescriptors sem) (by simp) (by simp) (by simp) (by simp) (by simp)]
    exact List.map_congr_left fun x _ => hwaiter x.idx

theorem exitReport_refines {k₁ : Kernel} {L₁ : HeadAddr → List Node} (hc : Coherent k L)
    (hd : Died k L r i parent k₁ L₁)
    (hwaits : WaitsFor (((view k L).adopt r i).die r parent) parent r)
    (h : k₁.reportToParent r parent = .ok k') :
    ∃ ptr L', Reported k₁ L₁ r parent ptr k' L' ∧
      Moved k L (Handled (view k L) r DSOS_CALL_EXIT) k' L' := by
  have hs := hd.kept.woven.strung
  have hstatus : (k₁.pcb parent).status = .Waiting := by
    have hst := hwaits.1
    rw [← hd.view_eq] at hst
    exact hst
  have hrz : (⟨.pcb, r⟩ : Node) ∈ L₁ .zombieList := by
    rw [hd.lists, Function.update_self]
    exact List.mem_append_right _ List.mem_cons_self
  have hpw : (⟨.pcb, parent⟩ : Node) ∈ L₁ .waitingList :=
    (mem_map_idx hs (l := .waitingList) regular_pcb).mp (hd.sound.marked.waits parent hstatus)
  obtain ⟨ptr, L', hrep⟩ := reportToParent_ok hs (hc.tidy.tied_beside hd.beside) hd.sound hstatus
    hrz h
  have hlink : some r ∈ (((view k L).adopt r i).die r parent).children parent := by
    rw [← hd.view_eq]
    exact List.mem_map.mpr ⟨_, hrep.link, hrep.linked⟩
  refine ⟨ptr, L', hrep, ?_, fun l hl => ?_, hrep.tied, fun j hj => ?_, fun q => ?_, ?_⟩
  · exact hd.kept.woven.step hrep.woven.strung hrep.woven.confined hrep.woven.pool
  · rw [hrep.lists l (ne_of_irregular hl regular_pcb) (ne_of_irregular hl (regular_children parent))
      (ne_of_irregular hl regular_pcb) (ne_of_irregular hl (regular_descriptorKind .resource))
      fun o => ne_of_irregular hl (regular_pointerKind .resource)]
    exact hd.beside.others hl
  · rw [hrep.lists .timerList (by simp) (by simp) (by simp) (by simp) (by simp)]
    exact hd.kept.timers j ((hrep.allocated _ _).mp hj).1
  · rw [hrep.pcb, Function.update_apply]
    split
    · exact hd.kept.unset parent
    · exact hd.kept.unset q
  · rw [hrep.view_eq hs (hd.sound.family.nodup parent) hpw hrz, hd.view_eq]
    exact .exitReport hd.init_eq hd.parent_eq hwaits hlink

end DisastrOS.Process.Exit
