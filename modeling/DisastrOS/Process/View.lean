import DisastrOS.Descriptors.Bindings
import DisastrOS.Lists.RegularLists
import DisastrOS.Process.Steps

/-!
# The process table in the kernel

`view` reads the process table out of the kernel state and the sequences its lists
hold. The equations say how it changes with them.
-/
namespace DisastrOS.Process.View

open DisastrOS.Machine
open DisastrOS.Lists.Sequences
open DisastrOS.Lists.Wiring
open DisastrOS.Lists.RegularLists
open DisastrOS.Pool.Blocks
open DisastrOS.Process.Table
open DisastrOS.Process.Steps
open DisastrOS.Descriptors.Bindings

/-- A process without its return values and its file descriptor counters. -/
def control (q : PCB) : PCB :=
  { q with returnValue := 0, lastFd := 0, lastSemFd := 0, lastMqFd := 0, syscallRetvalue := 0 }

/-- The process whose descriptor a semaphore descriptor pointer points to. -/
def waiterOf (k : Kernel) (ptr : Nat) : Option Nat :=
  (k.descriptorPtr .semaphore ptr).bind fun d => (k.descriptor .semaphore d).pcb

/-- The process table of a kernel whose lists hold `L`. -/
def view (k : Kernel) (L : HeadAddr → List Node) : ProcessTable where
  live := Allocated k .pcb
  info p := control (k.pcb p)
  running := k.running
  ready := (L .readyList).map Node.idx
  waiting := (L .waitingList).map Node.idx
  zombie := (L .zombieList).map Node.idx
  timers := (L .timerList).map fun x => k.timerItem x.idx
  children q := (L (.children q)).map fun x => k.pcbPtr x.idx
  waiters sem := (L (.waitingDescriptors sem)).map fun x => waiterOf k x.idx
  init := k.initPcb
  lastPid := k.lastPid
  time := k.disastrOSTime

variable {k k' : Kernel} {L L' : HeadAddr → List Node} {l : HeadAddr} {xs : List Node}
  {p q : Nat}

/-! ## Lists in the table -/

/-- The heads whose lists the process table shows. -/
def Shown : HeadAddr → Prop
  | .readyList | .waitingList | .zombieList | .timerList | .children _ | .waitingDescriptors _ =>
    True
  | _ => False

theorem view_congr (hlive : ∀ i, Allocated k' .pcb i ↔ Allocated k .pcb i)
    (hinfo : ∀ p, control (k'.pcb p) = control (k.pcb p)) (hrun : k'.running = k.running)
    (htimer : ∀ x ∈ L .timerList, k'.timerItem x.idx = k.timerItem x.idx)
    (hchild : ∀ q, ∀ x ∈ L (.children q), k'.pcbPtr x.idx = k.pcbPtr x.idx)
    (hwaiter : ∀ sem, ∀ x ∈ L (.waitingDescriptors sem), waiterOf k' x.idx = waiterOf k x.idx)
    (hinit : k'.initPcb = k.initPcb) (hlast : k'.lastPid = k.lastPid)
    (htime : k'.disastrOSTime = k.disastrOSTime) (hL : ∀ l, Shown l → L' l = L l) :
    view k' L' = view k L := by
  unfold view
  rw [hL .readyList trivial, hL .waitingList trivial, hL .zombieList trivial,
    hL .timerList trivial, hrun, hinit, hlast, htime]
  congr 1
  · exact funext fun i => propext (hlive i)
  · exact funext hinfo
  · exact List.map_congr_left htimer
  · funext q
    rw [hL (.children q) trivial]
    exact List.map_congr_left (hchild q)
  · funext sem
    rw [hL (.waitingDescriptors sem) trivial]
    exact List.map_congr_left (hwaiter sem)

theorem view_ready : view k (Function.update L .readyList xs) =
    { view k L with ready := xs.map Node.idx } := by
  simp [view]

theorem view_waiting : view k (Function.update L .waitingList xs) =
    { view k L with waiting := xs.map Node.idx } := by
  simp [view]

theorem view_zombie : view k (Function.update L .zombieList xs) =
    { view k L with zombie := xs.map Node.idx } := by
  simp [view]

theorem view_timers : view k (Function.update L .timerList xs) =
    { view k L with timers := xs.map fun x => k.timerItem x.idx } := by
  simp [view]

theorem view_children : view k (Function.update L (.children q) xs) =
    { view k L with
      children := Function.update (view k L).children q (xs.map fun x => k.pcbPtr x.idx) } := by
  have hc : (fun p => (Function.update L (.children q) xs (.children p)).map
      fun x => k.pcbPtr x.idx) =
      Function.update (view k L).children q (xs.map fun x => k.pcbPtr x.idx) := by
    funext p
    by_cases hp : p = q
    · simp [hp]
    · simp [hp, view]
  simp only [view] at hc ⊢
  rw [hc]
  simp

theorem view_waiters {sem : Nat} : view k (Function.update L (.waitingDescriptors sem) xs) =
    { view k L with
      waiters := Function.update (view k L).waiters sem (xs.map fun x => waiterOf k x.idx) } := by
  have hc : (fun s => (Function.update L (.waitingDescriptors sem) xs (.waitingDescriptors s)).map
      fun x => waiterOf k x.idx) =
      Function.update (view k L).waiters sem (xs.map fun x => waiterOf k x.idx) := by
    funext s
    by_cases hs : s = sem
    · simp [hs]
    · simp [hs, view]
  simp only [view] at hc ⊢
  rw [hc]
  simp

theorem view_hidden (hl : ¬ Shown l) : view k (Function.update L l xs) = view k L := by
  refine view_congr (fun _ => Iff.rfl) (fun _ => rfl) rfl (fun _ _ => rfl) (fun _ _ _ => rfl)
    (fun _ _ _ => rfl) rfl rfl rfl fun l' hl' => ?_
  have hne : l' ≠ l := fun he => hl (he ▸ hl')
  exact Function.update_of_ne hne _ _

/-! ## Fields in the table -/

theorem view_modPcb {f g : PCB → PCB} (hf : ∀ q, control (f q) = g (control q)) :
    view (k.modPcb p f) L = (view k L).modify p g := by
  have hinfo : (fun q => control (Function.update k.pcb p (f (k.pcb p)) q)) =
      Function.update (view k L).info p (g ((view k L).info p)) := by
    funext q
    by_cases hq : q = p
    · rw [hq, Function.update_self, Function.update_self]
      exact hf _
    · rw [Function.update_of_ne hq, Function.update_of_ne hq]
      rfl
  unfold ProcessTable.modify
  rw [← hinfo]
  rfl

theorem view_modPcb_same {f : PCB → PCB} (hf : ∀ q, control (f q) = control q) :
    view (k.modPcb p f) L = view k L := by
  rw [view_modPcb (g := id) hf]
  unfold ProcessTable.modify
  rw [id, Function.update_eq_self]

@[simp]
theorem view_setRetvalue (v : Int) : view (k.setRetvalue p v) L = view k L :=
  view_modPcb_same fun _ => rfl

theorem view_setStatus (st : ProcessStatus) :
    view (k.setStatus p st) L = (view k L).setStatus p st :=
  view_modPcb fun _ => rfl

theorem view_signal (sig : BitVec 32) :
    view (k.signal p sig) L = (view k L).modify p fun q => q.signalled sig :=
  view_modPcb fun _ => rfl

theorem view_setCall {num : Int} {args : List Int} :
    view (k.setCall p num args) L = (view k L).modify p fun q => q.called num args :=
  view_modPcb fun _ => rfl

/-! ## Nodes and indices -/

theorem map_erase_of_inj {α β : Type} [BEq α] [LawfulBEq α] [BEq β] [LawfulBEq β] {f : α → β}
    {xs : List α} {a : α} (ha : a ∈ xs) (hf : ∀ x ∈ xs, f x = f a → x = a) :
    (xs.erase a).map f = (xs.map f).erase (f a) := by
  induction xs with
  | nil => cases ha
  | cons x xs ih =>
    by_cases hx : x = a
    · subst hx
      rw [List.erase_cons_head, List.map_cons, List.erase_cons_head]
    · have hfx : f x ≠ f a := fun he => hx (hf x List.mem_cons_self he)
      have ha' : a ∈ xs := (List.mem_cons.mp ha).resolve_left fun he => hx he.symm
      rw [List.erase_cons_tail (by simpa using hx), List.map_cons, List.map_cons,
        List.erase_cons_tail (by simpa using hfx),
        ih ha' fun y hy => hf y (List.mem_cons_of_mem _ hy)]

variable {S T : Kind → Prop}

theorem mem_map_idx (h : Strung S T k L) (hl : S l.nodeKind) :
    p ∈ (L l).map Node.idx ↔ ⟨l.nodeKind, p⟩ ∈ L l :=
  ⟨h.mem_idx hl, fun hm => List.mem_map.mpr ⟨_, hm, rfl⟩⟩

theorem map_idx_erase (h : Strung S T k L) (hl : S l.nodeKind) (hp : ⟨l.nodeKind, p⟩ ∈ L l) :
    ((L l).erase ⟨l.nodeKind, p⟩).map Node.idx = ((L l).map Node.idx).erase p := by
  refine map_erase_of_inj hp fun x hx he => ?_
  rw [h.node_eq hl hx]
  exact congrArg _ he

theorem regular_pcb : Regular .pcb := by decide

theorem regular_timerItem : Regular HeadAddr.timerList.nodeKind := (by decide : Regular .timerItem)

/-- The lists of processes. -/
theorem pcb_lists (hl : l.nodeKind = .pcb) :
    l = .readyList ∨ l = .waitingList ∨ l = .zombieList := by
  cases l with
  | readyList => exact .inl rfl
  | waitingList => exact .inr (.inl rfl)
  | zombieList => exact .inr (.inr rfl)
  | opened t p => cases t <;> cases hl
  | users t o => cases t <;> cases hl
  | timerList => cases hl
  | resourcesList => cases hl
  | semaphoresList => cases hl
  | messageQueuesList => cases hl
  | children p => cases hl
  | waitingDescriptors s => cases hl
  | queues m => cases hl
  | messages q => cases hl

/-- The process `c` is linked as a child of `q`. -/
def ChildOf (k : Kernel) (q c : Nat) : Prop :=
  ∃ x, Linked k (.children q) x ∧ k.pcbPtr x.idx = some c

theorem childOf_iff (h : Strung Regular T k L) {c : Nat} :
    ChildOf k q c ↔ some c ∈ (view k L).children q := by
  unfold ChildOf
  simp only [h.linked_iff (l := .children q) (regular_children q)]
  exact List.mem_map.symm

/-- A process in no list has no links. -/
theorem unlinked_pcb (h : Strung Regular Retained k L) (ha : Allocated k .pcb p)
    (hr : p ∉ (view k L).ready) (hw : p ∉ (view k L).waiting) (hz : p ∉ (view k L).zombie) :
    Unlinked k.lists ⟨.pcb, p⟩ ∧ ∀ l, l.nodeKind = .pcb → ⟨.pcb, p⟩ ∉ L l := by
  have hout : ∀ l, l.nodeKind = .pcb → (⟨.pcb, p⟩ : Node) ∉ L l := by
    intro l hl hm
    rcases pcb_lists hl with rfl | rfl | rfl
    · exact hr (List.mem_map.mpr ⟨_, hm, rfl⟩)
    · exact hw (List.mem_map.mpr ⟨_, hm, rfl⟩)
    · exact hz (List.mem_map.mpr ⟨_, hm, rfl⟩)
  exact ⟨h.loose ⟨.pcb, p⟩ rfl ha (h.unlisted hout), hout⟩

end DisastrOS.Process.View
