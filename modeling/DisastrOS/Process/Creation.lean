import DisastrOS.Process.Coherence

/-!
# Creation of processes

`PCB_alloc` and the creation of processes on coherent kernels. The lists of descriptors that a
dead process has left in the block are lost or, for semaphores, inherited.
-/
namespace DisastrOS.Process.Creation

open DisastrOS.Machine
open DisastrOS.Machine.Kernel
open DisastrOS.Lists.Sequences
open DisastrOS.Lists.Wiring
open DisastrOS.Lists.RegularLists
open DisastrOS.Pool.Blocks
open DisastrOS.Descriptors.Tables
open DisastrOS.Process.Table
open DisastrOS.Process.Steps
open DisastrOS.Process.View
open DisastrOS.Process.Coherence
open DisastrOS.Library.Outcome

variable {base k k' : Kernel} {L : HeadAddr → List Node} {p r ptr : Nat}

/-- A process block as `PCB_alloc` leaves it. -/
def blank (q : PCB) (pid : Int) : PCB :=
  { q with
    pid := pid
    returnValue := 0
    lastFd := 0
    signals := 0
    signalsMask := 0xFFFFFFFF
    status := .Invalid
    parent := none
    timer := none
    lastSemFd := 0
    lastMqFd := 0 }

/-- The lists after `PCB_alloc`: `sem_descriptors` stays as it was. -/
def allocLists (L : HeadAddr → List Node) (p : Nat) : HeadAddr → List Node :=
  Function.update (Function.update (Function.update (Function.update L (.opened .resource p) [])
    (.children p) []) (.opened .resource p) []) (.opened .mq p) []

theorem allocLists_of_ne {l : HeadAddr} (h₁ : l ≠ .opened .resource p) (h₂ : l ≠ .children p)
    (h₃ : l ≠ .opened .mq p) : allocLists L p l = L l := by
  unfold allocLists
  rw [Function.update_of_ne h₃, Function.update_of_ne h₁, Function.update_of_ne h₂,
    Function.update_of_ne h₁]

theorem mem_allocLists {l : HeadAddr} {x : Node} (h : x ∈ allocLists L p l) : x ∈ L l := by
  unfold allocLists at h
  simp only [Function.update_apply] at h
  split at h
  · cases h
  · split at h
    · cases h
    · split at h
      · cases h
      · exact h

@[simp]
theorem allocLists_children : allocLists L p (.children p) = [] := by
  simp [allocLists]

/-- What a completed `PCB_alloc` has done. -/
structure PcbAllocated (base k : Kernel) (L : HeadAddr → List Node) (p : Nat) (k' : Kernel) :
    Prop where
  fresh : ¬ Allocated k .pcb p
  first : (k.pool .pcb).firstIdx = p
  fits : k.lastPid + 1 < 2 ^ 31
  woven : Woven base k' (allocLists L p)
  pool : k'.pool = Function.update k.pool .pcb (k.pool .pcb).getBlock.2
  allocated : ∀ kind i, Allocated k' kind i ↔ (kind = .pcb ∧ i = p) ∨ Allocated k kind i
  rest : k' = { k with
    lists := k'.lists, pool := k'.pool
    pcb := Function.update k.pcb p (blank (k.pcb p) k.lastPid)
    lastPid := k.lastPid + 1 }

theorem pcbAlloc_ok (hw : Woven base k L) (h : k.pcbAlloc = .ok (p, k')) :
    PcbAllocated base k L p k' := by
  unfold pcbAlloc at h
  obtain ⟨⟨p', k₁⟩, hnew, h⟩ := bind_eq_ok.mp h
  have hnew := deref_eq_ok.mp hnew
  obtain ⟨next, hnext, h⟩ := bind_eq_ok.mp h
  have hf := newItem_fresh hw.strung.pooled hnew
  have hlast : k₁.lastPid = k.lastPid := by rw [hf.eq]
  obtain ⟨hfits, rfl⟩ := addInt_eq_ok.mp hnext
  simp only [pure, Except.pure, Except.ok.injEq, Prod.mk.injEq] at h
  obtain ⟨rfl, rfl⟩ := h
  have hreg : ∀ t : Table, Regular (HeadAddr.opened t p').nodeKind := regular_descriptorKind
  have hne : ∀ t : Table, (HeadAddr.opened t p').nodeKind ≠ .pcb := fun t => by
    cases t <;> exact fun he => nomatch he
  have hw₁ : Woven base (k₁.modPcb p' fun q => blank q k₁.lastPid) L :=
    (hw.newItem regular_pcb hf).congr rfl rfl
  have hw₂ := (((hw₁.initList (hreg .resource) (hne .resource)).initList (l := .children p')
    (regular_children p') (fun he => nomatch he)).initList (hreg .resource)
      (hne .resource)).initList (hreg .mq) (hne .mq)
  refine ⟨hf.fresh, hf.first, hlast ▸ hfits.2, hw₂.congr rfl rfl, ?_, hf.allocated, ?_⟩
  · show k₁.pool = _
    rw [hf.eq]
  · rw [← hlast, hf.eq]
    rfl

/-- What a completed `spawn` of `r` has done. -/
structure Spawned (k : Kernel) (L : HeadAddr → List Node) (r p ptr : Nat) (k' : Kernel)
    (L' : HeadAddr → List Node) : Prop where
  fresh : ¬ Allocated k .pcb p
  first : (k.pool .pcb).firstIdx = p
  fits : k.lastPid + 1 < 2 ^ 31
  freshPtr : ¬ Allocated k .pcbPtr ptr
  woven : Woven k k' L'
  lists : L' = Function.update (Function.update (allocLists L p) (.children r)
    (allocLists L p (.children r) ++ [⟨.pcbPtr, ptr⟩])) .readyList (L .readyList ++ [⟨.pcb, p⟩])
  allocated : ∀ kind i, Allocated k' kind i ↔ (kind = .pcb ∧ i = p) ∨
    (kind = .pcbPtr ∧ i = ptr) ∨ Allocated k kind i
  pool : ∀ kind, kind ≠ .pcb → kind ≠ .pcbPtr → k'.pool kind = k.pool kind
  pcb : k'.pcb = Function.update (Function.update k.pcb p
    { blank (k.pcb p) k.lastPid with
      status := .Ready, parent := some r, cpuState := (k'.pcb p).cpuState }) r
      { k.pcb r with syscallRetvalue := k.lastPid }
  pcbPtr : k'.pcbPtr = Function.update k.pcbPtr ptr (some p)
  rest : k' = { k with
    lists := k'.lists, pool := k'.pool, pcb := k'.pcb, pcbPtr := k'.pcbPtr
    lastPid := k.lastPid + 1 }

theorem Spawned.self {L' : HeadAddr → List Node} {ptr : Nat} (h : Spawned k L r p ptr k' L')
    (hpr : p ≠ r) : k'.pcb p = { blank (k.pcb p) k.lastPid with
      status := .Ready, parent := some r, cpuState := (k'.pcb p).cpuState } := by
  refine (congrFun h.pcb p).trans ?_
  rw [Function.update_of_ne hpr, Function.update_self]

theorem createProcess_ok {context : Bool} (hs : Strung Regular Retained k L)
    (hr : k.running = some r) (hlive : Allocated k .pcb r) (h : createProcess context k = .ok k') :
    ∃ p ptr L', Spawned k L r p ptr k' L' ∧
      (k'.pcb p).cpuState = (context || (k.pcb p).cpuState) := by
  unfold createProcess at h
  obtain ⟨r', hr', h⟩ := bind_eq_ok.mp h
  have hr' := deref_eq_ok.mp hr'
  rw [hr, Option.some.injEq] at hr'
  subst hr'
  obtain ⟨⟨p, k₁⟩, halloc, h⟩ := bind_eq_ok.mp h
  have ha := pcbAlloc_ok (Woven.refl hs) halloc
  have hpr : p ≠ r := fun he => ha.fresh (he ▸ hlive)
  obtain ⟨⟨ptr, k₃⟩, hptr, h⟩ := bind_eq_ok.mp h
  unfold pcbPtrAlloc at hptr
  obtain ⟨⟨i, k₂'⟩, hnew, hptr⟩ := bind_eq_ok.mp hptr
  have hnew := deref_eq_ok.mp hnew
  simp only [pure, Except.pure, Except.ok.injEq, Prod.mk.injEq] at hptr
  obtain ⟨rfl, rfl⟩ := hptr
  obtain ⟨k₂, hk₂⟩ : ∃ k₂, k₁.modPcb p
    (fun q => { q with status := .Ready, parent := some r, cpuState := context || q.cpuState }) =
      k₂ := ⟨_, rfl⟩
  rw [hk₂] at hnew
  have hw₂ : Woven _ k₂ _ := ha.woven.congr (by rw [← hk₂]; rfl) (by rw [← hk₂]; rfl)
  have hf := newItem_fresh hw₂.strung.pooled hnew
  have hw₃ := hw₂.newItem (by decide) hf
  obtain ⟨k₃, hk₃⟩ : ∃ k₃, ({ k₂' with pcbPtr := Function.update k₂'.pcbPtr i (some p) }
    : Kernel) = k₃ := ⟨_, rfl⟩
  have hw₄ : Woven _ k₃ _ := hw₃.congr (by rw [← hk₃]) (by rw [← hk₃])
  have hpool₂ : k₂.pool = k₁.pool := by rw [← hk₂]; rfl
  have hpool₃ : k₃.pool = k₂'.pool := by rw [← hk₃]
  have hall : ∀ kind j, Allocated k₃ kind j ↔ (kind = .pcb ∧ j = p) ∨
      (kind = .pcbPtr ∧ j = i) ∨ Allocated k kind j := by
    intro kind j
    rw [allocated_congr hpool₃, hf.allocated, allocated_congr hpool₂, ha.allocated]
    tauto
  have hfresh : ¬ Allocated k .pcbPtr i := by
    intro hi
    exact hf.fresh ((allocated_congr hpool₂).mpr ((ha.allocated _ _).mpr (.inr hi)))
  have hiout : ∀ l, l.nodeKind = .pcbPtr → (⟨.pcbPtr, i⟩ : Node) ∉ allocLists L p l := by
    intro l hl hm
    have hreg : Regular l.nodeKind := by rw [hl]; decide
    exact hs.fresh_unlisted hfresh hreg (mem_allocLists hm)
  have hiu : Unlinked k₃.lists ⟨.pcbPtr, i⟩ := by
    have hu : Unlinked k₂'.lists ⟨.pcbPtr, i⟩ := unlinked_fresh hf
    rwa [← hk₃]
  have hw₅ := hw₄.append (l := .children r) (x := ⟨.pcbPtr, i⟩) (regular_children r) rfl
    ((hall _ _).mpr (.inr (.inl ⟨rfl, rfl⟩))) hiu hiout
  obtain ⟨L₁, hL₁⟩ : ∃ L₁, Function.update (allocLists L p) (.children r)
    (allocLists L p (.children r) ++ [⟨.pcbPtr, i⟩]) = L₁ := ⟨_, rfl⟩
  obtain ⟨k₄, hk₄⟩ : ∃ k₄, k₃.append (.children r) ⟨.pcbPtr, i⟩ = k₄ := ⟨_, rfl⟩
  rw [hL₁, hk₄] at hw₅
  have hpout : ∀ l, l.nodeKind = .pcb → (⟨.pcb, p⟩ : Node) ∉ L₁ l := by
    intro l hl hm
    have hne : l ≠ .children r := fun he => by rw [he] at hl; cases hl
    rw [← hL₁, Function.update_of_ne hne] at hm
    have hreg : Regular l.nodeKind := by rw [hl]; exact regular_pcb
    exact hs.fresh_unlisted ha.fresh hreg (mem_allocLists hm)
  have hpa : Allocated k₄ .pcb p := by
    rw [← hk₄]
    exact (hall .pcb p).mpr (.inl ⟨rfl, rfl⟩)
  have hpu : Unlinked k₄.lists ⟨.pcb, p⟩ :=
    hw₅.strung.loose ⟨.pcb, p⟩ rfl hpa (hw₅.strung.unlisted hpout)
  have hw₆ := hw₅.append (l := .readyList) (x := ⟨.pcb, p⟩) regular_pcb rfl hpa hpu hpout
  have hready : L₁ .readyList = L .readyList := by
    rw [← hL₁, Function.update_of_ne (by simp)]
    exact allocLists_of_ne (by simp) (by simp) (by simp)
  rw [hready, ← hL₁, ← hk₄] at hw₆
  have hk' : k' = (k₄.append .readyList ⟨.pcb, p⟩).setRetvalue r (k₄.pcb p).pid := by
    rw [← hk₄, ← hk₃]
    simp only [pure, Except.pure, Except.ok.injEq] at h
    rw [← h]
    rfl
  have hpcb₄ : k₄.pcb = Function.update k.pcb p
      { blank (k.pcb p) k.lastPid with
        status := .Ready, parent := some r, cpuState := context || (k.pcb p).cpuState } := by
    rw [← hk₄, ← hk₃]
    show k₂'.pcb = _
    rw [hf.eq, ← hk₂, ha.rest]
    simp [modPcb, blank]
  have hpid : (k₄.pcb p).pid = k.lastPid := by
    rw [hpcb₄, Function.update_self]
    rfl
  have hcontext : (k'.pcb p).cpuState = (context || (k.pcb p).cpuState) := by
    rw [hk']
    show (Function.update k₄.pcb r _ p).cpuState = _
    rw [Function.update_of_ne hpr, hpcb₄, Function.update_self]
  refine ⟨p, i, _, ⟨ha.fresh, ha.first, ha.fits, hfresh, ?_, rfl, fun kind j => ?_,
    fun kind h₁ h₂ => ?_, ?_, ?_, ?_⟩, hcontext⟩
  · rw [hk', ← hk₄]
    exact hw₆.congr rfl rfl
  · rw [hk', ← hk₄]
    exact hall kind j
  · rw [hk', ← hk₄]
    show k₃.pool kind = _
    rw [hpool₃, fresh_pool hf h₂, hpool₂, ha.pool, Function.update_of_ne h₁]
  · rw [hcontext, hk', hpid]
    show Function.update k₄.pcb r { k₄.pcb r with syscallRetvalue := k.lastPid } = _
    rw [hpcb₄, Function.update_of_ne hpr.symm]
  · rw [hk', ← hk₄, ← hk₃]
    show Function.update k₂'.pcbPtr i (some p) = _
    rw [hf.eq, ← hk₂, ha.rest]
    rfl
  · rw [hk', ← hk₄, ← hk₃, hf.eq, ← hk₂, ha.rest]
    rfl

variable {L' : HeadAddr → List Node}

theorem Spawned.lists_of_ne {l : HeadAddr} (h : Spawned k L r p ptr k' L') (h₁ : l ≠ .readyList)
    (h₂ : l ≠ .children r) : L' l = allocLists L p l := by
  rw [h.lists, Function.update_of_ne h₁, Function.update_of_ne h₂]

theorem Spawned.ready (h : Spawned k L r p ptr k' L') :
    L' .readyList = L .readyList ++ [⟨.pcb, p⟩] := by
  rw [h.lists, Function.update_self]

theorem Spawned.children_self (h : Spawned k L r p ptr k' L') (hpr : p ≠ r) :
    L' (.children r) = L (.children r) ++ [⟨.pcbPtr, ptr⟩] := by
  rw [h.lists, Function.update_of_ne (by simp), Function.update_self,
    allocLists_of_ne (by simp) (by simp [hpr.symm]) (by simp)]

/-- The table after a spawn. -/
theorem Spawned.view_eq (h : Spawned k L r p ptr k' L') (hs : Strung Regular Retained k L)
    (hpr : p ≠ r) : view k' L' = (view k L).spawn r p
      (View.control { blank (k.pcb p) k.lastPid with
        status := .Ready, parent := some r, cpuState := (k'.pcb p).cpuState }) := by
  have hrun : k'.running = k.running := by rw [h.rest]
  have hinit : k'.initPcb = k.initPcb := by rw [h.rest]
  have hlast : k'.lastPid = k.lastPid + 1 := by rw [h.rest]
  have htime : k'.disastrOSTime = k.disastrOSTime := by rw [h.rest]
  have htimer : k'.timerItem = k.timerItem := by rw [h.rest]
  have hwaiter : ∀ i, waiterOf k' i = waiterOf k i := fun i => by rw [h.rest]; rfl
  have hshown : ∀ l, l ≠ .readyList → (∀ q, l ≠ .children q) → (∀ t q, l ≠ .opened t q) →
      L' l = L l := by
    intro l h₁ h₂ h₃
    rw [h.lists_of_ne h₁ (h₂ r)]
    exact allocLists_of_ne (h₃ _ _) (h₂ p) (h₃ _ _)
  have hptr : ∀ q, ∀ x ∈ L (.children q), k'.pcbPtr x.idx = k.pcbPtr x.idx := by
    intro q x hx
    have hne : x.idx ≠ ptr := by
      intro he
      have hnode := hs.node_eq (l := .children q) (regular_children q) hx
      rw [hnode, he] at hx
      exact h.freshPtr (hs.allocated (l := .children q) (regular_children q) hx)
    rw [h.pcbPtr, Function.update_of_ne hne]
  unfold view ProcessTable.spawn
  rw [hrun, hinit, hlast, htime, htimer, h.ready, hshown .waitingList, hshown .zombieList,
    hshown .timerList]
  · congr 1
    · funext i
      refine propext ?_
      rw [h.allocated]
      simp
    · funext i
      rw [congrFun h.pcb i, Function.update_apply]
      by_cases hir : i = r
      · rw [if_pos hir, hir, Function.update_of_ne hpr.symm]
        rfl
      · rw [if_neg hir, Function.update_apply, Function.update_apply]
        split <;> rfl
    · rw [List.map_append]
      rfl
    · funext q
      by_cases hqr : q = r
      · rw [hqr, Function.update_self, h.children_self hpr, List.map_append,
          List.map_congr_left (hptr r)]
        simp [h.pcbPtr]
      · rw [Function.update_of_ne hqr, h.lists_of_ne (by simp) (by simp [hqr])]
        by_cases hqp : q = p
        · rw [hqp, Function.update_self, allocLists_children, List.map_nil]
        · rw [Function.update_of_ne hqp, allocLists_of_ne (by simp) (by simp [hqp]) (by simp)]
          exact List.map_congr_left (hptr q)
    · funext sem
      rw [hshown (.waitingDescriptors sem) (by simp) (by simp) (by simp)]
      exact List.map_congr_left fun x _ => hwaiter x.idx
  all_goals simp

theorem Spawned.same (h : Spawned k L r p ptr k' L') (t : Table) : SameTable t k L k' L' := by
  have hdk : k'.pool t.descriptorKind = k.pool t.descriptorKind := by
    cases t <;> exact h.pool _ (by decide) (by decide)
  have hpk : k'.pool t.pointerKind = k.pool t.pointerKind := by
    cases t <;> exact h.pool _ (by decide) (by decide)
  refine ⟨by rw [h.rest], by rw [h.rest], hdk, hpk, fun q x hx => ?_, fun o => ?_, fun o => ?_,
    fun o ho => ?_⟩
  · rw [h.lists_of_ne (by simp) (by simp)] at hx
    exact mem_allocLists hx
  · rw [h.lists_of_ne (by simp) (by simp)]
    exact allocLists_of_ne (by simp) (by simp) (by simp)
  · rw [h.lists_of_ne (by simp) (by simp)]
    exact allocLists_of_ne (by simp) (by simp) (by simp)
  · have hobj : L' (objects t) = L (objects t) := by
      cases t <;> rw [h.lists_of_ne (by simp [objects]) (by simp [objects])] <;>
        exact allocLists_of_ne (by simp [objects]) (by simp [objects]) (by simp [objects])
    unfold ObjectListed
    rwa [hobj]

theorem spawn_refines {num : Int} {context : Bool} (hc : Coherent k L) (hr : k.running = some r)
    (hnum : num = DSOS_CALL_SPAWN ∨ num = DSOS_CALL_FORK)
    (hcontext : num = DSOS_CALL_SPAWN → context = true) (h : createProcess context k = .ok k') :
    ∃ p ptr L', Spawned k L r p ptr k' L' ∧ Moved k L (Handled (view k L) r num) k' L' := by
  have hrl : Allocated k .pcb r := hc.sound.placed.live_of_running hr
  obtain ⟨p, ptr, L', hsp, hmade⟩ := createProcess_ok hc.tidy.strung hr hrl h
  have hpr : p ≠ r := fun he => hsp.fresh (he ▸ hrl)
  refine ⟨p, ptr, L', hsp, hsp.woven, fun l hl => ?_,
    fun t => tied_same (hc.tidy.tied t) (hsp.same t),
    fun i hi => ?_, fun q => ?_, ?_⟩
  · have hne : ∀ t, l ≠ .opened t p := fun t => ne_of_irregular hl (regular_descriptorKind t)
    rw [hsp.lists_of_ne (ne_of_irregular hl regular_pcb) (ne_of_irregular hl (regular_children r)),
      allocLists_of_ne (hne _) (ne_of_irregular hl (regular_children p)) (hne _)]
  · rw [hsp.lists_of_ne (by simp) (by simp), allocLists_of_ne (by simp) (by simp) (by simp)]
    refine hc.tidy.timers i ?_
    rcases (hsp.allocated _ _).mp hi with ⟨he, _⟩ | ⟨he, _⟩ | hi
    · cases he
    · cases he
    · exact hi
  · rw [hsp.pcb]
    simp only [Function.update_apply]
    split
    · exact hc.tidy.unset r
    · split
      · rfl
      · exact hc.tidy.unset q
  · rw [hsp.view_eq hc.tidy.strung hpr]
    refine .spawn hnum hsp.fresh rfl hsp.fits rfl rfl fun hspawn => ?_
    show (k'.pcb p).cpuState = true
    rw [hmade, hcontext hspawn, Bool.true_or]

/-! ## Another first process -/

/-- What the rest of `disastrOS_start` has done when control has come back to it. -/
structure Restarted (k : Kernel) (L : HeadAddr → List Node) (p : Nat) (k' : Kernel)
    (L' : HeadAddr → List Node) : Prop where
  idle : k.running = none
  fresh : ¬ Allocated k .pcb p
  first : (k.pool .pcb).firstIdx = p
  fits : k.lastPid + 1 < 2 ^ 31
  woven : Woven k k' L'
  lists : L' = allocLists L p
  allocated : ∀ kind i, Allocated k' kind i ↔ (kind = .pcb ∧ i = p) ∨ Allocated k kind i
  pool : ∀ kind, kind ≠ .pcb → k'.pool kind = k.pool kind
  pcb : k'.pcb = Function.update k.pcb p
    { blank (k.pcb p) k.lastPid with status := .Running, cpuState := true }
  rest : k' = { k with
    lists := k'.lists, pool := k'.pool, pcb := k'.pcb
    running := some p, initPcb := some p, lastPid := k.lastPid + 1 }

theorem resumeMain_ok (hs : Strung Regular Retained k L) (h : k.resumeMain = .ok k') :
    ∃ p, Restarted k L p k' (allocLists L p) := by
  unfold resumeMain at h
  split at h
  · cases h
  · next hidle =>
    unfold startFirstProcess at h
    obtain ⟨⟨p, k₁⟩, halloc, h⟩ := bind_eq_ok.mp h
    have ha := pcbAlloc_ok (Woven.refl hs) halloc
    simp only [pure, Except.pure, Except.ok.injEq] at h
    subst h
    refine ⟨p, hidle, ha.fresh, ha.first, ha.fits, ha.woven.congr rfl rfl, rfl, ha.allocated,
      fun kind hne => ?_, ?_, ?_⟩
    · show k₁.pool kind = _
      rw [ha.pool, Function.update_of_ne hne]
    · show Function.update k₁.pcb p _ = _
      rw [ha.rest]
      simp [Function.update_idem]
    · rw [ha.rest]
      simp [modPcb]

theorem Restarted.self (h : Restarted k L p k' L') :
    k'.pcb p = { blank (k.pcb p) k.lastPid with status := .Running, cpuState := true } := by
  rw [h.pcb, Function.update_self]

theorem Restarted.lists_of_ne {l : HeadAddr} (h : Restarted k L p k' L')
    (h₁ : ∀ t, l ≠ .opened t p) (h₂ : l ≠ .children p) : L' l = L l := by
  rw [h.lists]
  exact allocLists_of_ne (h₁ .resource) h₂ (h₁ .mq)

/-- The table after the restart. -/
theorem Restarted.view_eq (h : Restarted k L p k' L') : view k' L' = (view k L).restart p
    (View.control { blank (k.pcb p) k.lastPid with status := .Running, cpuState := true }) := by
  have hrun : k'.running = some p := by rw [h.rest]
  have hinit : k'.initPcb = some p := by rw [h.rest]
  have hlast : k'.lastPid = k.lastPid + 1 := by rw [h.rest]
  have htime : k'.disastrOSTime = k.disastrOSTime := by rw [h.rest]
  have htimer : k'.timerItem = k.timerItem := by rw [h.rest]
  have hptr : k'.pcbPtr = k.pcbPtr := by rw [h.rest]
  have hwaiter : waiterOf k' = waiterOf k := by
    funext i
    rw [h.rest]
    rfl
  have hshown : ∀ l, (∀ q, l ≠ .children q) → (∀ t q, l ≠ .opened t q) → L' l = L l :=
    fun l h₁ h₂ => h.lists_of_ne (fun t => h₂ t p) (h₁ p)
  unfold view ProcessTable.restart
  rw [hrun, hinit, hlast, htime, htimer, hptr, hwaiter,
    hshown .readyList (by simp) (by simp), hshown .waitingList (by simp) (by simp),
    hshown .zombieList (by simp) (by simp), hshown .timerList (by simp) (by simp)]
  congr 1
  · funext i
    refine propext ?_
    rw [h.allocated]
    simp
  · funext i
    rw [h.pcb, Function.update_apply, Function.update_apply]
    split <;> rfl
  · funext q
    by_cases hq : q = p
    · rw [hq, Function.update_self, h.lists, allocLists_children, List.map_nil]
    · rw [Function.update_of_ne hq, h.lists_of_ne (by simp) (by simp [hq])]
  · funext sem
    rw [hshown (.waitingDescriptors sem) (by simp) (by simp)]

theorem Restarted.same (h : Restarted k L p k' L') (t : Table) : SameTable t k L k' L' := by
  have hdk : k'.pool t.descriptorKind = k.pool t.descriptorKind := by
    cases t <;> exact h.pool _ (by decide)
  have hpk : k'.pool t.pointerKind = k.pool t.pointerKind := by
    cases t <;> exact h.pool _ (by decide)
  refine ⟨by rw [h.rest], by rw [h.rest], hdk, hpk, fun q x hx => ?_, fun o => ?_, fun o => ?_,
    fun o ho => ?_⟩
  · rw [h.lists] at hx
    exact mem_allocLists hx
  · exact h.lists_of_ne (by simp) (by simp)
  · exact h.lists_of_ne (by simp) (by simp)
  · have hobj : L' (objects t) = L (objects t) := by
      cases t <;> exact h.lists_of_ne (by simp [objects]) (by simp [objects])
    unfold ObjectListed
    rwa [hobj]

theorem restart_refines (hc : Coherent k L) (h : k.resumeMain = .ok k') :
    ∃ p L', Restarted k L p k' L' ∧ Moved k L (Step (view k L) .restart) k' L' := by
  obtain ⟨p, hre⟩ := resumeMain_ok hc.tidy.strung h
  refine ⟨p, _, hre, hre.woven, fun l hl => ?_, fun t => tied_same (hc.tidy.tied t) (hre.same t),
    fun i hi => ?_, fun q => ?_, ?_⟩
  · exact hre.lists_of_ne (fun t => ne_of_irregular hl (regular_descriptorKind t))
      (ne_of_irregular hl (regular_children p))
  · rw [hre.lists_of_ne (by simp) (by simp)]
    exact hc.tidy.timers i (((hre.allocated _ _).mp hi).resolve_left fun he => nomatch he.1)
  · rw [hre.pcb, Function.update_apply]
    split
    · rfl
    · exact hc.tidy.unset q
  · rw [hre.view_eq]
    exact .restart hre.idle hre.fresh rfl hre.fits rfl rfl rfl

end DisastrOS.Process.Creation
