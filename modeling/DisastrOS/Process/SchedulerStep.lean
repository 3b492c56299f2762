import DisastrOS.Process.SystemRuns

/-!
# One step of the scheduler

`internal_schedule` on a ready list, a waiting list and a timer list in good order, of
which nothing else is known: no assumption is made about the other lists of the kernel.
-/
namespace DisastrOS.Process.SchedulerStep

open DisastrOS.Machine
open DisastrOS.Machine.Kernel
open DisastrOS.Machine.Runs
open DisastrOS.Lists.Sequences
open DisastrOS.Lists.Wiring
open DisastrOS.Lists.RegularLists
open DisastrOS.Pool.Blocks
open DisastrOS.Process.Table
open DisastrOS.Process.View
open DisastrOS.Process.Coherence
open DisastrOS.Process.Transitions
open DisastrOS.Process.SystemRuns
open DisastrOS.Library.GuardedRun
open DisastrOS.Library.LinkedSequence
open DisastrOS.Library.Outcome

/-- The lists that the scheduler works on. -/
def OfScheduler (l : HeadAddr) : Prop := l = .readyList ∨ l = .waitingList ∨ l = .timerList

theorem ofScheduler_ready : OfScheduler .readyList := .inl rfl
theorem ofScheduler_waiting : OfScheduler .waitingList := .inr (.inl rfl)
theorem ofScheduler_timer : OfScheduler .timerList := .inr (.inr rfl)

/-- The three lists are in good order: the timers are sorted, and their processes are
distinct and waiting. -/
structure Schedulable (k : Kernel) (L : HeadAddr → List Node) : Prop where
  threaded : Threaded OfScheduler k.lists L
  ready : ∀ x ∈ L .readyList, x.kind = .pcb
  waiting : ∀ x ∈ L .waitingList, x.kind = .pcb
  timers : ∀ x ∈ L .timerList, x.kind = .timerItem ∧ Allocated k .timerItem x.idx
  sleeping : ∀ x ∈ L .timerList, ∃ p, (k.timerItem x.idx).pcb = some p ∧
    ⟨.pcb, p⟩ ∈ L .waitingList
  distinct : ((L .timerList).map fun x => (k.timerItem x.idx).pcb).Nodup
  sorted : (L .timerList).Pairwise fun x y =>
    (k.timerItem x.idx).awakeningTime ≤ (k.timerItem y.idx).awakeningTime
  pooled : Pooled k

/-- The timer is due. -/
def elapsed (k : Kernel) (x : Node) : Bool := (k.timerItem x.idx).awakeningTime ≤ k.disastrOSTime

/-- The processes of the elapsed timers, in list order. -/
def woken (k : Kernel) (L : HeadAddr → List Node) : List Node :=
  ((L .timerList).filter (elapsed k)).filterMap fun x =>
    (k.timerItem x.idx).pcb.map (Node.mk .pcb)

/-- A process after its timer has elapsed. -/
def PCB.awake (q : PCB) : PCB := { q with status := .Ready, timer := none }

/-- The loop over the elapsed timers has put their processes into the ready list,
between `as` and `bs`, and done nothing else. -/
structure Woke (k : Kernel) (L : HeadAddr → List Node) (as bs : List Node) (k' : Kernel)
    (L' : HeadAddr → List Node) : Prop where
  threaded : Threaded OfScheduler k'.lists L'
  ready : L' .readyList = as ++ woken k L ++ bs
  waiting : L' .waitingList = (L .waitingList).filter fun x => x ∉ woken k L
  timers : L' .timerList = (L .timerList).filter fun x => !elapsed k x
  freed : ∀ i, Allocated k' .timerItem i ↔
    Allocated k .timerItem i ∧ ∀ x ∈ L .timerList, elapsed k x = true → x.idx ≠ i
  size : (k'.pool .timerItem).size =
    (k.pool .timerItem).size + ((L .timerList).filter (elapsed k)).length
  pools : ∀ kind, kind ≠ .timerItem → k'.pool kind = k.pool kind
  pcb : ∀ q, k'.pcb q = if (⟨.pcb, q⟩ : Node) ∈ woken k L then PCB.awake (k.pcb q) else k.pcb q
  heads : ∀ l, ¬ OfScheduler l → k'.head l = k.head l
  items : ∀ x, (∀ l, OfScheduler l → x ∉ L l) → k'.lists.item x = k.lists.item x
  rest : k' = { k with lists := k'.lists, pool := k'.pool, pcb := k'.pcb }

/-- The awakened processes, followed by the ready ones. -/
def candidates (k : Kernel) (L : HeadAddr → List Node) : List Node :=
  woken k L ++ L .readyList

/-- The process `q` after the loop over the elapsed timers. -/
def pcbWoken (k : Kernel) (L : HeadAddr → List Node) (q : Nat) : PCB :=
  if (⟨.pcb, q⟩ : Node) ∈ woken k L then PCB.awake (k.pcb q) else k.pcb q

/-- The process `q` after a step of the scheduler that finds `r` running. -/
def pcbScheduled (k : Kernel) (L : HeadAddr → List Node) (r q : Nat) : PCB :=
  match candidates k L with
  | [] => pcbWoken k L q
  | next :: _ =>
    if q = next.idx then { pcbWoken k L q with status := .Running }
    else if q = r then { pcbWoken k L q with status := .Ready }
    else pcbWoken k L q

/-- The three lists after a step of the scheduler that finds `r` running. -/
def scheduledLists (k : Kernel) (L : HeadAddr → List Node) (r : Nat) : HeadAddr → List Node
  | .readyList =>
    match candidates k L with
    | [] => []
    | _ :: rest => rest ++ [⟨.pcb, r⟩]
  | .waitingList => (L .waitingList).filter fun x => x ∉ woken k L
  | .timerList => (L .timerList).filter fun x => !elapsed k x
  | l => L l

/-- What a step of the scheduler that finds `r` running does. -/
structure ScheduleStep (k : Kernel) (L : HeadAddr → List Node) (r : Nat) (k' : Kernel) :
    Prop where
  lists : Threaded OfScheduler k'.lists (scheduledLists k L r)
  running : k'.running =
    match candidates k L with
    | [] => some r
    | next :: _ => some next.idx
  pcb : ∀ q, k'.pcb q = pcbScheduled k L r q
  freed : ∀ i, Allocated k' .timerItem i ↔
    Allocated k .timerItem i ∧ ∀ x ∈ L .timerList, elapsed k x = true → x.idx ≠ i
  size : (k'.pool .timerItem).size =
    (k.pool .timerItem).size + ((L .timerList).filter (elapsed k)).length
  pools : ∀ kind, kind ≠ .timerItem → k'.pool kind = k.pool kind
  heads : ∀ l, ¬ OfScheduler l → k'.head l = k.head l
  items : ∀ x, (∀ l, OfScheduler l → x ∉ L l) → x ≠ ⟨.pcb, r⟩ →
    k'.lists.item x = k.lists.item x
  rest : k' = { k with
    lists := k'.lists, pool := k'.pool, pcb := k'.pcb, running := k'.running }

variable {k k' : Kernel} {L L' : HeadAddr → List Node} {p r : Nat} {as bs : List Node}

theorem length_timers (h : Schedulable k L) : (L .timerList).length ≤ 1024 :=
  length_le_of_live h.pooled (h.threaded.nodup .timerList ofScheduler_timer) h.timers

/-! ## One elapsed timer -/

/-- The sequences after the process `p` of the first timer has been awakened. -/
def afterWake (L : HeadAddr → List Node) (p : Nat) (as bs rest : List Node) :
    HeadAddr → List Node :=
  Function.update (Function.update (Function.update L .waitingList
    ((L .waitingList).erase ⟨.pcb, p⟩)) .readyList (as ++ ⟨.pcb, p⟩ :: bs)) .timerList rest

theorem afterWake_timer {rest : List Node} : afterWake L p as bs rest .timerList = rest :=
  Function.update_self ..

theorem afterWake_ready {rest : List Node} :
    afterWake L p as bs rest .readyList = as ++ ⟨.pcb, p⟩ :: bs := by
  unfold afterWake
  rw [Function.update_of_ne (by decide), Function.update_self]

theorem afterWake_waiting {rest : List Node} :
    afterWake L p as bs rest .waitingList = (L .waitingList).erase ⟨.pcb, p⟩ := by
  unfold afterWake
  rw [Function.update_of_ne (by decide), Function.update_of_ne (by decide), Function.update_self]

/-- What one round of the loop does. -/
structure WokeOne (k : Kernel) (L : HeadAddr → List Node) (x : Node) (p : Nat)
    (as bs rest : List Node) (k₁ : Kernel) : Prop where
  order : Schedulable k₁ (afterWake L p as bs rest)
  allocated : ∀ i, Allocated k₁ .timerItem i ↔ Allocated k .timerItem i ∧ x.idx ≠ i
  size : (k₁.pool .timerItem).size = (k.pool .timerItem).size + 1
  pools : ∀ kind, kind ≠ .timerItem → k₁.pool kind = k.pool kind
  pcb : k₁.pcb = Function.update k.pcb p (PCB.awake (k.pcb p))
  heads : ∀ l, ¬ OfScheduler l → k₁.head l = k.head l
  items : ∀ y, (∀ l, OfScheduler l → y ∉ L l) → k₁.lists.item y = k.lists.item y
  rest : k₁ = { k with lists := k₁.lists, pool := k₁.pool, pcb := k₁.pcb }

/-- The process `p` has moved from the waiting list into the ready list. -/
structure Readied (k : Kernel) (L : HeadAddr → List Node) (p : Nat) (as bs : List Node)
    (k₁ : Kernel) : Prop where
  threaded : Threaded OfScheduler k₁.lists (Function.update (Function.update L .waitingList
    ((L .waitingList).erase ⟨.pcb, p⟩)) .readyList (as ++ ⟨.pcb, p⟩ :: bs))
  heads : ∀ l, ¬ OfScheduler l → k₁.head l = k.head l
  items : ∀ y, (∀ l, OfScheduler l → y ∉ L l) → k₁.lists.item y = k.lists.item y
  pcb : k₁.pcb = Function.update k.pcb p (PCB.awake (k.pcb p))
  rest : k₁ = { k with lists := k₁.lists, pcb := k₁.pcb }

theorem readied_of_waiting (hw : Threaded OfScheduler k.lists L) (hwait : ⟨.pcb, p⟩ ∈ L .waitingList)
    (hready : L .readyList = as ++ bs) :
    Readied k L p as bs (((k.detach .waitingList ⟨.pcb, p⟩).modPcb p
      fun q => { q with status := .Ready, timer := none }).insert .readyList as.getLast?
        ⟨.pcb, p⟩) := by
  -- out of the waiting list
  have ht : Threaded OfScheduler (k.detach .waitingList ⟨.pcb, p⟩).lists
      (Function.update L .waitingList ((L .waitingList).erase ⟨.pcb, p⟩)) :=
    threaded_detach hw ofScheduler_waiting hwait
  have hu : Unlinked (k.detach .waitingList ⟨.pcb, p⟩).lists ⟨.pcb, p⟩ :=
    threaded_detach_unlinked hw ofScheduler_waiting hwait
  have hout : ∀ l, OfScheduler l → (⟨.pcb, p⟩ : Node) ∉
      Function.update L .waitingList ((L .waitingList).erase ⟨.pcb, p⟩) l := by
    exact fun l hl => hw.not_mem_erased ofScheduler_waiting hwait hl
  -- into the ready list
  have hready₁ : Function.update L .waitingList ((L .waitingList).erase ⟨.pcb, p⟩) .readyList =
      as ++ bs := by
    rw [Function.update_of_ne (by decide)]
    exact hready
  refine ⟨threaded_insert ht ofScheduler_ready hready₁ hu hout, fun l hl => ?_, fun y hy => ?_, rfl,
    rfl⟩
  · have hne : l ≠ .readyList := fun he => hl (he ▸ ofScheduler_ready)
    have hne' : l ≠ .waitingList := fun he => hl (he ▸ ofScheduler_waiting)
    exact (insert_head _ _ _ hne).trans (detach_head _ _ hne')
  · have hyp : y ≠ ⟨.pcb, p⟩ := fun he => hy _ ofScheduler_waiting (he ▸ hwait)
    refine (threaded_insert_item ht ofScheduler_ready hready₁ hu (hout _ ofScheduler_ready) ?_
      hyp).trans (threaded_detach_item hw ofScheduler_waiting hwait (hy _ ofScheduler_waiting))
    rw [Function.update_of_ne (by decide)]
    exact hy _ ofScheduler_ready

/-- The first timer leaves the list and its block is released. -/
theorem timerListRemoveCurrent_eq {x : Node} {rest : List Node}
    (ht : Threaded OfScheduler k.lists L) (hL : L .timerList = x :: rest)
    (hkind : x.kind = .timerItem) : k.timerListRemoveCurrent =
      .ok ((k.detach .timerList x).releaseBlock .timerItem x.idx) := by
  have hfirst : (k.head .timerList).first = some x := by
    have hf := (ht.holds _ ofScheduler_timer).first
    rwa [hL] at hf
  unfold timerListRemoveCurrent detachFirst
  rw [hfirst]
  simp [deref, castTo, bind, Except.bind, pure, Except.pure, hkind, HeadAddr.nodeKind]

/-- Without the first timer and its process the lists are still in good order. -/
theorem schedulable_afterWake {x : Node} {rest : List Node} {k₁ : Kernel} (h : Schedulable k L)
    (hL : L .timerList = x :: rest) (hp : (k.timerItem x.idx).pcb = some p)
    (hready : L .readyList = as ++ bs)
    (ht : Threaded OfScheduler k₁.lists (afterWake L p as bs rest)) (hpooled : Pooled k₁)
    (hallocated : ∀ i, Allocated k₁ .timerItem i ↔ Allocated k .timerItem i ∧ x.idx ≠ i)
    (hitems : k₁.timerItem = k.timerItem) : Schedulable k₁ (afterWake L p as bs rest) := by
  have hnodup := h.threaded.nodup _ ofScheduler_timer
  have hdistinct := h.distinct
  have hsorted := h.sorted
  rw [hL] at hnodup hdistinct hsorted
  rw [List.map_cons, List.nodup_cons] at hdistinct
  refine ⟨ht, fun y hy => ?_, fun y hy => ?_, fun y hy => ?_, fun y hy => ?_, ?_, ?_, hpooled⟩
  · rw [afterWake_ready, List.mem_append, List.mem_cons] at hy
    rcases hy with hy | rfl | hy
    · exact h.ready y (by rw [hready]; exact List.mem_append_left _ hy)
    · rfl
    · exact h.ready y (by rw [hready]; exact List.mem_append_right _ hy)
  · rw [afterWake_waiting] at hy
    exact h.waiting y (List.mem_of_mem_erase hy)
  · rw [afterWake_timer] at hy
    obtain ⟨hk, ha⟩ := h.timers y (by rw [hL]; exact List.mem_cons_of_mem _ hy)
    obtain ⟨hkx, -⟩ := h.timers x (by rw [hL]; exact List.mem_cons_self)
    refine ⟨hk, (hallocated _).mpr ⟨ha, fun he => (List.nodup_cons.mp hnodup).1 ?_⟩⟩
    have hxy : x = y := by
      cases x
      cases y
      simp_all
    rwa [hxy]
  · rw [afterWake_timer] at hy
    obtain ⟨p', hp', hm⟩ := h.sleeping y (by rw [hL]; exact List.mem_cons_of_mem _ hy)
    refine ⟨p', (congrArg (fun f => (f y.idx).pcb) hitems).trans hp', ?_⟩
    rw [afterWake_waiting, (h.threaded.nodup _ ofScheduler_waiting).mem_erase_iff]
    refine ⟨fun he => hdistinct.1 (List.mem_map.mpr ⟨y, hy, ?_⟩), hm⟩
    cases he
    rw [hp, hp']
  · rw [afterWake_timer, hitems]
    exact hdistinct.2
  · rw [afterWake_timer, hitems]
    exact (List.pairwise_cons.mp hsorted).2

theorem wokeOne_of_elapsed {x : Node} {rest : List Node} (h : Schedulable k L)
    (hL : L .timerList = x :: rest) (hp : (k.timerItem x.idx).pcb = some p)
    (hready : L .readyList = as ++ bs) :
    ∃ k₁, (((k.detach .waitingList ⟨.pcb, p⟩).modPcb p
        fun q => { q with status := .Ready, timer := none }).insert .readyList as.getLast?
          ⟨.pcb, p⟩).timerListRemoveCurrent = .ok k₁ ∧ WokeOne k L x p as bs rest k₁ := by
  have hx : x ∈ L .timerList := by
    rw [hL]
    exact List.mem_cons_self
  obtain ⟨hkind, halloc⟩ := h.timers x hx
  obtain ⟨p', hp', hwait⟩ := h.sleeping x hx
  cases hp.symm.trans hp'
  have hmoved := readied_of_waiting h.threaded hwait hready
  generalize ((k.detach .waitingList ⟨.pcb, p⟩).modPcb p
    fun q => { q with status := .Ready, timer := none }).insert .readyList as.getLast?
      ⟨.pcb, p⟩ = k₂ at hmoved ⊢
  have hpool₂ : k₂.pool = k.pool := by rw [hmoved.rest]
  have ht₂ := hmoved.threaded
  generalize hL₂ : Function.update (Function.update L .waitingList
    ((L .waitingList).erase ⟨.pcb, p⟩)) .readyList (as ++ ⟨.pcb, p⟩ :: bs) = L₂ at ht₂
  have htimer₂ : L₂ .timerList = x :: rest := by
    rw [← hL₂, Function.update_of_ne (by decide), Function.update_of_ne (by decide), hL]
  have hx₂ : x ∈ L₂ .timerList := by
    rw [htimer₂]
    exact List.mem_cons_self
  have ht₃ := threaded_detach ht₂ ofScheduler_timer hx₂
  rw [htimer₂, List.erase_cons_head] at ht₃
  have hL' : Function.update L₂ .timerList rest = afterWake L p as bs rest := by
    rw [← hL₂]
    rfl
  rw [hL'] at ht₃
  -- the block of the timer
  have hpooled₂ : Pooled (k₂.detach .timerList x) := pooled_congr (k := k) hpool₂ h.pooled
  have halloc₂ : Allocated (k₂.detach .timerList x) .timerItem x.idx :=
    (allocated_congr (k := k) hpool₂).mpr halloc
  have hrel := releaseBlock_returned .timerItem x.idx hpooled₂ halloc₂
  have hallocated : ∀ i, Allocated ((k₂.detach .timerList x).releaseBlock .timerItem x.idx)
      .timerItem i ↔ Allocated k .timerItem i ∧ x.idx ≠ i := by
    intro i
    have hi : Allocated (k₂.detach .timerList x) .timerItem i ↔ Allocated k .timerItem i :=
      allocated_congr (k := k) hpool₂
    rw [hrel.allocated, hi, and_comm]
    simp [eq_comm]
  have hitems₂ : k₂.timerItem = k.timerItem := by rw [hmoved.rest]
  refine ⟨_, timerListRemoveCurrent_eq ht₂ htimer₂ hkind,
    schedulable_afterWake h hL hp hready ht₃ hrel.pooled hallocated hitems₂, hallocated, ?_,
    fun kind hne => ?_, hmoved.pcb, fun l hl => ?_, fun y hy => ?_, ?_⟩
  · refine hrel.size.trans ?_
    show (k₂.pool .timerItem).size + 1 = _
    rw [hpool₂]
  · refine (releaseBlock_pool _ _ hne).trans ?_
    show k₂.pool kind = _
    rw [hpool₂]
  · have hne : l ≠ .timerList := fun he => hl (he ▸ ofScheduler_timer)
    exact (detach_head _ _ hne).trans (hmoved.heads l hl)
  · have hy₂ : y ∉ L₂ .timerList := by
      rw [htimer₂, ← hL]
      exact hy _ ofScheduler_timer
    exact (threaded_detach_item ht₂ ofScheduler_timer hx₂ hy₂).trans (hmoved.items y hy)
  · rw [hmoved.rest]
    rfl

/-! ## The loop -/

theorem timerListCurrent_eq (h : Schedulable k L) : k.timerListCurrent k.disastrOSTime =
    .ok ((L .timerList).head?.bind fun x => if elapsed k x then some x.idx else none) := by
  have hfirst := (h.threaded.holds _ ofScheduler_timer).first
  unfold timerListCurrent Kernel.head
  rw [hfirst]
  cases hL : L .timerList with
  | nil => rfl
  | cons x rest =>
    have hkind := (h.timers x (by rw [hL]; exact List.mem_cons_self)).1
    simp [castTo, hkind, bind, Except.bind, pure, Except.pure, elapsed]

/-- As the list is sorted, no timer is due if the first one is not. -/
theorem none_elapsed {x : Node} {rest : List Node} (h : Schedulable k L)
    (hL : L .timerList = x :: rest) (hx : elapsed k x = false) :
    ∀ y ∈ L .timerList, elapsed k y = false := by
  intro y hy
  have hsorted := h.sorted
  rw [hL] at hsorted hy
  unfold elapsed at hx ⊢
  rw [decide_eq_false_iff_not] at hx ⊢
  rcases List.mem_cons.mp hy with rfl | hy
  · exact hx
  · have hle := (List.pairwise_cons.mp hsorted).1 y hy
    omega

theorem woke_refl (h : Schedulable k L) (hready : L .readyList = as ++ bs)
    (hnone : ∀ y ∈ L .timerList, elapsed k y = false) : Woke k L as bs k L := by
  have hfilter : (L .timerList).filter (elapsed k) = [] :=
    List.filter_eq_nil_iff.mpr fun y hy => by simp [hnone y hy]
  have hwoken : woken k L = [] := by
    unfold woken
    rw [hfilter]
    rfl
  refine ⟨h.threaded, ?_, ?_, ?_, fun i => ?_, ?_, fun _ _ => rfl, fun q => ?_, fun _ _ => rfl,
    fun _ _ => rfl, rfl⟩
  · rw [hwoken, hready, List.append_nil]
  · rw [hwoken]
    simp
  · exact (List.filter_eq_self.mpr fun y hy => by simp [hnone y hy]).symm
  · refine (and_iff_left fun y hy he => ?_).symm
    rw [hnone y hy] at he
    cases he
  · rw [hfilter]
    simp
  · rw [hwoken, if_neg List.not_mem_nil]

/-- The processes that are awakened after the first one. -/
theorem woken_cons {x : Node} {rest : List Node} {k₁ : Kernel} (hL : L .timerList = x :: rest)
    (hp : (k.timerItem x.idx).pcb = some p) (hx : elapsed k x = true)
    (h : WokeOne k L x p as bs rest k₁) :
    woken k L = ⟨.pcb, p⟩ :: woken k₁ (afterWake L p as bs rest) := by
  have hsame : elapsed k₁ = elapsed k := by
    funext y
    unfold elapsed
    rw [h.rest]
  have hitem : k₁.timerItem = k.timerItem := by rw [h.rest]
  unfold woken
  rw [hL, afterWake_timer, List.filter_cons_of_pos hx, hsame, hitem]
  simp [hp]

/-- One round and the rounds after it. -/
theorem woke_trans {x : Node} {rest : List Node} {k₁ : Kernel} (hs : Schedulable k L)
    (hL : L .timerList = x :: rest) (hp : (k.timerItem x.idx).pcb = some p)
    (hx : elapsed k x = true) (hready : L .readyList = as ++ bs)
    (h₁ : WokeOne k L x p as bs rest k₁)
    (h : Woke k₁ (afterWake L p as bs rest) (as ++ [⟨.pcb, p⟩]) bs k' L') :
    Woke k L as bs k' L' := by
  have hcons := woken_cons hL hp hx h₁
  have hsame : elapsed k₁ = elapsed k := by
    funext y
    unfold elapsed
    rw [h₁.rest]
  have hxL : x ∈ L .timerList := by
    rw [hL]
    exact List.mem_cons_self
  refine ⟨h.threaded, ?_, ?_, ?_, fun i => ?_, ?_, fun kind hne => ?_, fun q => ?_, fun l hl => ?_,
    fun y hy => ?_, ?_⟩
  · rw [h.ready, hcons]
    simp
  · rw [h.waiting, afterWake_waiting, (hs.threaded.nodup _ ofScheduler_waiting).erase_eq_filter,
      List.filter_filter, hcons]
    refine List.filter_congr fun y _ => ?_
    by_cases hy : y = ⟨.pcb, p⟩
    · simp [hy]
    · simp [hy, bne]
  · rw [h.timers, afterWake_timer, hL, hsame, List.filter_cons_of_neg (by simp [hx])]
  · rw [h.freed, h₁.allocated, hsame, afterWake_timer, hL]
    simp only [List.mem_cons, forall_eq_or_imp, hx, true_implies]
    tauto
  · rw [h.size, h₁.size, hsame, afterWake_timer, hL, List.filter_cons_of_pos hx,
      List.length_cons]
    push_cast
    omega
  · rw [h.pools kind hne, h₁.pools kind hne]
  · rw [h.pcb, h₁.pcb, hcons, Function.update_apply]
    by_cases hq : q = p
    · subst hq
      rw [if_pos rfl, if_pos List.mem_cons_self]
      split
      · rfl
      · rfl
    · simp [hq]
  · rw [h.heads l hl, h₁.heads l hl]
  · obtain ⟨p', hp', hwait⟩ := hs.sleeping x hxL
    cases hp.symm.trans hp'
    rw [h.items y fun l hl hm => ?_, h₁.items y hy]
    rcases hl with rfl | rfl | rfl
    · rw [afterWake_ready, List.mem_append, List.mem_cons] at hm
      rcases hm with hm | rfl | hm
      · exact hy _ ofScheduler_ready (by rw [hready]; exact List.mem_append_left _ hm)
      · exact hy _ ofScheduler_waiting hwait
      · exact hy _ ofScheduler_ready (by rw [hready]; exact List.mem_append_right _ hm)
    · rw [afterWake_waiting] at hm
      exact hy _ ofScheduler_waiting (List.mem_of_mem_erase hm)
    · rw [afterWake_timer] at hm
      exact hy _ ofScheduler_timer (by rw [hL]; exact List.mem_cons_of_mem _ hm)
  · have hr := h.rest
    rw [h₁.rest] at hr
    exact hr

theorem wakeElapsed_woke {fuel : Nat} (h : Schedulable k L) (hready : L .readyList = as ++ bs)
    (hfuel : (L .timerList).length < fuel) :
    ∃ k' L', wakeElapsed fuel as.getLast? k = .ok k' ∧ Woke k L as bs k' L' := by
  induction fuel generalizing k L as with
  | zero => omega
  | succ fuel ih =>
    have hcur := timerListCurrent_eq h
    cases hL : L .timerList with
    | nil =>
      rw [hL] at hcur
      refine ⟨k, L, ?_, woke_refl h hready (by rw [hL]; exact fun y hy => absurd hy List.not_mem_nil)⟩
      rw [wakeElapsed, hcur]
      rfl
    | cons x rest =>
      have hxL : x ∈ L .timerList := by
        rw [hL]
        exact List.mem_cons_self
      rw [hL] at hcur
      by_cases hx : elapsed k x = true
      · obtain ⟨p, hp, _⟩ := h.sleeping x hxL
        obtain ⟨k₁, hround, hone⟩ := wokeOne_of_elapsed h hL hp hready
        have hready₁ : afterWake L p as bs rest .readyList = (as ++ [⟨.pcb, p⟩]) ++ bs := by
          rw [afterWake_ready]
          simp
        obtain ⟨k', L', hrun, hw⟩ := ih hone.order hready₁
          (by rw [hL, List.length_cons] at hfuel; rw [afterWake_timer]; omega)
        refine ⟨k', L', ?_, woke_trans h hL hp hx hready hone hw⟩
        rw [List.getLast?_concat] at hrun
        rw [wakeElapsed, hcur]
        simp only [List.head?_cons, Option.bind_some, hx, if_true, bind, Except.bind, hp, deref,
          hround, hrun]
      · refine ⟨k, L, ?_, woke_refl h hready (none_elapsed h hL (by simpa using hx))⟩
        rw [wakeElapsed, hcur]
        simp only [List.head?_cons, Option.bind_some, hx, bind, Except.bind]
        rfl

/-! ## The rotation -/

/-- `threaded` depends on the three lists only. -/
theorem threaded_same {m : ListMem Node HeadAddr} (h : Threaded OfScheduler m L)
    (hready : L' .readyList = L .readyList) (hwaiting : L' .waitingList = L .waitingList)
    (htimer : L' .timerList = L .timerList) : Threaded OfScheduler m L' := by
  have hsame : ∀ l, OfScheduler l → L' l = L l := by
    rintro l (rfl | rfl | rfl)
    · exact hready
    · exact hwaiting
    · exact htimer
  refine ⟨fun l hl => ?_, fun l hl => ?_, fun l j x hl hj hx hx' => ?_⟩
  · rw [hsame l hl]
    exact h.holds l hl
  · rw [hsame l hl]
    exact h.nodup l hl
  · rw [hsame l hl] at hx
    rw [hsame j hj] at hx'
    exact h.apart l j x hl hj hx hx'

/-- Nobody is ready: `r` stays. -/
theorem scheduleStep_alone (hr : k.running = some r) (hw : Woke k L [] (L .readyList) k' L')
    (hnone : candidates k L = []) : ScheduleStep k L r k' := by
  have hready : L' .readyList = [] := by
    rw [hw.ready, List.nil_append]
    exact hnone
  refine ⟨threaded_same hw.threaded ?_ hw.waiting.symm hw.timers.symm, ?_, fun q => ?_, hw.freed,
    hw.size, hw.pools, hw.heads, fun x hx _ => hw.items x hx, ?_⟩
  · unfold scheduledLists
    rw [hnone, hready]
  · rw [hnone, hw.rest]
    exact hr
  · unfold pcbScheduled
    rw [hnone, hw.pcb]
    rfl
  · have hrest := hw.rest
    rw [hrest]

theorem candidates_pcb (h : Schedulable k L) {x : Node} (hx : x ∈ candidates k L) :
    x = ⟨.pcb, x.idx⟩ := by
  unfold candidates woken at hx
  rcases List.mem_append.mp hx with hx | hx
  · obtain ⟨y, _, hy⟩ := List.mem_filterMap.mp hx
    obtain ⟨p, _, rfl⟩ := Option.map_eq_some_iff.mp hy
    rfl
  · have hk := h.ready x hx
    cases x
    cases hk
    rfl

/-- The loop brings no other nodes into the lists. -/
theorem woke_outside (h : Schedulable k L) (hw : Woke k L [] (L .readyList) k' L') {x : Node}
    (hx : ∀ l, OfScheduler l → x ∉ L l) : ∀ l, OfScheduler l → x ∉ L' l := by
  rintro l (rfl | rfl | rfl) hm
  · rw [hw.ready, List.nil_append] at hm
    rcases List.mem_append.mp hm with hm | hm
    · obtain ⟨y, hy, he⟩ := List.mem_filterMap.mp hm
      obtain ⟨p, hp, hwait⟩ := h.sleeping y (List.mem_filter.mp hy).1
      rw [hp, Option.map_some, Option.some.injEq] at he
      exact hx _ ofScheduler_waiting (he ▸ hwait)
    · exact hx _ ofScheduler_ready hm
  · rw [hw.waiting] at hm
    exact hx _ ofScheduler_waiting (List.mem_filter.mp hm).1
  · rw [hw.timers] at hm
    exact hx _ ofScheduler_timer (List.mem_filter.mp hm).1

/-- The first candidate gets the processor, and `r` goes to the end of the ready list. -/
theorem scheduleStep_rotate {next : Node} {rest : List Node} (h : Schedulable k L)
    (hw : Woke k L [] (L .readyList) k' L') (hcand : candidates k L = next :: rest)
    (hr : k.running = some r) (hout : ∀ l, OfScheduler l → ⟨.pcb, r⟩ ∉ L l)
    (hu : Unlinked k.lists ⟨.pcb, r⟩) :
    ∃ k₂, k'.detachFirst .readyList = .ok (next.idx, k₂) ∧ k₂.running = some r ∧
      ScheduleStep k L r
        { ((k₂.setStatus r .Ready).append .readyList ⟨.pcb, r⟩).setStatus next.idx .Running
          with running := some next.idx } := by
  have hready : L' .readyList = next :: rest := by
    rw [hw.ready, List.nil_append]
    exact hcand
  have hnext : next ∈ L' .readyList := by
    rw [hready]
    exact List.mem_cons_self
  have hnode : next = ⟨.pcb, next.idx⟩ :=
    candidates_pcb h (by rw [hcand]; exact List.mem_cons_self)
  have hout' := woke_outside h hw hout
  have hu' : Unlinked k'.lists ⟨.pcb, r⟩ := (hw.items _ hout).trans hu
  have ht₁ := threaded_detach hw.threaded ofScheduler_ready hnext
  rw [hready, List.erase_cons_head] at ht₁
  have hu₁ : Unlinked (k'.detach .readyList next).lists ⟨.pcb, r⟩ :=
    (threaded_detach_item hw.threaded ofScheduler_ready hnext
      (hout' _ ofScheduler_ready)).trans hu'
  have hout₁ : ∀ l, OfScheduler l → (⟨.pcb, r⟩ : Node) ∉ Function.update L' .readyList rest l := by
    intro l hl hm
    by_cases he : l = .readyList
    · subst he
      rw [Function.update_self] at hm
      exact hout' _ hl (by rw [hready]; exact List.mem_cons_of_mem _ hm)
    · rw [Function.update_of_ne he] at hm
      exact hout' l hl hm
  have hsplit : Function.update L' .readyList rest .readyList = rest ++ [] := by
    rw [Function.update_self, List.append_nil]
  have ht₂ := threaded_insert ht₁ ofScheduler_ready hsplit hu₁ hout₁
  have hlast : ((k'.detach .readyList next).head .readyList).last = rest.getLast? := by
    have hl := (ht₁.holds _ ofScheduler_ready).last
    rwa [Function.update_self] at hl
  have hdet : k'.detachFirst .readyList = .ok (next.idx, k'.detach .readyList next) := by
    have hfirst : (k'.head .readyList).first = some next := by
      have hf := (hw.threaded.holds _ ofScheduler_ready).first
      rwa [hready] at hf
    have hkind : next.kind = .pcb := by rw [hnode]
    unfold detachFirst
    rw [hfirst]
    simp [deref, castTo, bind, Except.bind, pure, Except.pure, hkind, HeadAddr.nodeKind]
  have hrest := hw.rest
  refine ⟨_, hdet, ?_, ⟨?_, ?_, fun q => ?_, hw.freed, hw.size, hw.pools, fun l hl => ?_,
    fun x hx hne => ?_, ?_⟩⟩
  · rw [hrest]
    exact hr
  · show Threaded OfScheduler (listInsert (k'.detach .readyList next).lists .readyList
      ((k'.detach .readyList next).head .readyList).last ⟨.pcb, r⟩).2 _
    rw [hlast]
    refine threaded_same ht₂ ?_ ?_ ?_
    · unfold scheduledLists
      rw [hcand, Function.update_self]
    · rw [Function.update_of_ne (by decide), Function.update_of_ne (by decide), hw.waiting]
      rfl
    · rw [Function.update_of_ne (by decide), Function.update_of_ne (by decide), hw.timers]
      rfl
  · rw [hcand]
  · have hpcb : ∀ j, k'.pcb j = pcbWoken k L j := hw.pcb
    show Function.update (Function.update k'.pcb r _) next.idx _ q = _
    unfold pcbScheduled
    rw [hcand, Function.update_apply]
    simp only [← hpcb]
    split
    · next hq =>
      rw [hq]
      show { (Function.update k'.pcb r _ next.idx) with status := .Running } = _
      rw [Function.update_apply]
      split
      · next hn =>
        rw [hn]
        rfl
      · rfl
    · rw [Function.update_apply]
      split
      · next hq => rw [hq]; rfl
      · rfl
  · have hne : l ≠ .readyList := fun he => hl (he ▸ ofScheduler_ready)
    exact (insert_head _ _ _ hne).trans ((detach_head _ _ hne).trans (hw.heads l hl))
  · have hx' := woke_outside h hw hx
    have hx₁ : x ∉ Function.update L' .readyList rest .readyList := by
      rw [Function.update_self]
      exact fun hm => hx' _ ofScheduler_ready (by rw [hready]; exact List.mem_cons_of_mem _ hm)
    show (listInsert (k'.detach .readyList next).lists .readyList
      ((k'.detach .readyList next).head .readyList).last ⟨.pcb, r⟩).2.item x = _
    rw [hlast]
    exact (threaded_insert_item ht₁ ofScheduler_ready hsplit hu₁ (hout₁ _ ofScheduler_ready) hx₁
      hne).trans ((threaded_detach_item hw.threaded ofScheduler_ready hnext
        (hx' _ ofScheduler_ready)).trans (hw.items x hx))
  · rw [hrest]
    rfl

/-- The loop over the elapsed timers leaves the candidates in the ready list. -/
theorem wakeElapsed_candidates (h : Schedulable k L) :
    ∃ k₁ L₁, wakeElapsed LOOP_BOUND none k = .ok k₁ ∧ Woke k L [] (L .readyList) k₁ L₁ ∧
      (k₁.head .readyList).first = (candidates k L).head? := by
  have hlen := length_timers h
  have hfuel : (L .timerList).length < LOOP_BOUND := by
    unfold LOOP_BOUND
    omega
  obtain ⟨k₁, L₁, hrun, hw⟩ := wakeElapsed_woke h (List.nil_append _).symm hfuel
  have hready : L₁ .readyList = candidates k L := hw.ready
  have hfirst := (hw.threaded.holds _ ofScheduler_ready).first
  rw [hready] at hfirst
  exact ⟨k₁, L₁, hrun, hw, hfirst⟩

/-- Without candidates the step completes and `r` stays. -/
theorem internalSchedule_alone (h : Schedulable k L) (hr : k.running = some r)
    (hcand : candidates k L = []) :
    ∃ k', k.internalSchedule = .ok k' ∧ ScheduleStep k L r k' := by
  obtain ⟨k₁, L₁, hrun, hw, hfirst⟩ := wakeElapsed_candidates h
  rw [hcand] at hfirst
  refine ⟨k₁, ?_, scheduleStep_alone hr hw hcand⟩
  unfold internalSchedule
  simp only [hrun, bind, Except.bind, hfirst]
  rfl

/-- With candidates the step completes and the first one runs. -/
theorem internalSchedule_rotate {next : Node} {rest : List Node} (h : Schedulable k L)
    (hr : k.running = some r) (hout : ∀ l, OfScheduler l → ⟨.pcb, r⟩ ∉ L l)
    (hu : Unlinked k.lists ⟨.pcb, r⟩) (hcand : candidates k L = next :: rest) :
    ∃ k', k.internalSchedule = .ok k' ∧ ScheduleStep k L r k' := by
  obtain ⟨k₁, L₁, hrun, hw, hfirst⟩ := wakeElapsed_candidates h
  rw [hcand] at hfirst
  obtain ⟨k₂, hdet, hr₂, hstep⟩ := scheduleStep_rotate h hw hcand hr hout hu
  refine ⟨_, ?_, hstep⟩
  unfold internalSchedule
  simp only [hrun, bind, Except.bind, hfirst, List.head?_cons, hdet, hr₂, deref]
  rfl

/-- The scheduler step, for every state whose three lists are in good order. -/
theorem schedule_step (h : Schedulable k L) (hr : k.running = some r)
    (hout : ∀ l, OfScheduler l → ⟨.pcb, r⟩ ∉ L l) (hu : Unlinked k.lists ⟨.pcb, r⟩) :
    ∃ k', k.internalSchedule = .ok k' ∧ ScheduleStep k L r k' := by
  cases hcand : candidates k L with
  | nil => exact internalSchedule_alone h hr hcand
  | cons next rest => exact internalSchedule_rotate h hr hout hu hcand

/-- What a step that has completed has done. -/
theorem scheduleStep_of_ok (h : Schedulable k L) (hr : k.running = some r)
    (hout : ∀ l, OfScheduler l → ⟨.pcb, r⟩ ∉ L l) (hu : Unlinked k.lists ⟨.pcb, r⟩)
    (hk : k.internalSchedule = .ok k') : ScheduleStep k L r k' := by
  cases hcand : candidates k L with
  | nil =>
    obtain ⟨k₁, hk₁, hstep⟩ := internalSchedule_alone h hr hcand
    cases hk.symm.trans hk₁
    exact hstep
  | cons next rest =>
    obtain ⟨k₁, hk₁, hstep⟩ := internalSchedule_rotate h hr hout hu hcand
    cases hk.symm.trans hk₁
    exact hstep

/-! ## The states of a run -/

/-- The lists of a coherent kernel are in good order. -/
theorem schedulable_of_coherent (hc : Coherent k L) : Schedulable k L := by
  have hstr := hc.tidy.strung
  have htimed := hc.sound.timed
  have hreg : ∀ l, OfScheduler l → Regular l.nodeKind := by
    rintro l (rfl | rfl | rfl)
    · exact regular_pcb
    · exact regular_pcb
    · exact regular_timerItem
  refine ⟨⟨fun l hl => hstr.holds (hreg l hl), fun l hl => hstr.nodup (hreg l hl),
      fun l j x hl hj => hstr.apart (hreg l hl) (hreg j hj)⟩,
    fun x hx => hstr.kind .readyList x regular_pcb hx,
    fun x hx => hstr.kind .waitingList x regular_pcb hx, fun x hx => ?_, fun x hx => ?_, ?_, ?_,
    hstr.pooled⟩
  · have hkind : x.kind = .timerItem := hstr.kind .timerList x regular_timerItem hx
    exact ⟨hkind, hkind ▸ hstr.live .timerList x regular_timerItem hx⟩
  · obtain ⟨p, hp, hpcb, _⟩ := htimed.asleep (k.timerItem x.idx) (List.mem_map.mpr ⟨x, hx, rfl⟩)
    exact ⟨p, hpcb, (mem_map_idx hstr (l := .waitingList) regular_pcb).mp hp⟩
  · have hn := htimed.nodup
    rwa [show (view k L).timers = (L .timerList).map fun x => k.timerItem x.idx from rfl,
      List.map_map] at hn
  · have hs := htimed.sorted
    rwa [show (view k L).timers = (L .timerList).map fun x => k.timerItem x.idx from rfl,
      List.pairwise_map] at hs

/-- The running process of a coherent kernel is in none of the lists. -/
theorem running_aside (hc : Coherent k L) (hr : k.running = some r) :
    (∀ l, OfScheduler l → ⟨.pcb, r⟩ ∉ L l) ∧ Unlinked k.lists ⟨.pcb, r⟩ := by
  have hplaced := hc.sound.placed
  obtain ⟨hready, hwaiting, hzombie⟩ := hplaced.not_mem_of_running hr
  obtain ⟨hu, hout⟩ := unlinked_pcb hc.tidy.strung (hplaced.live_of_running hr) hready hwaiting
    hzombie
  refine ⟨?_, hu⟩
  rintro l (rfl | rfl | rfl) hm
  · exact hout _ rfl hm
  · exact hout _ rfl hm
  · cases hc.tidy.strung.kind .timerList _ regular_timerItem hm

/-- A process that sleeps for no time is awakened by the next step. -/
theorem schedule_step_sleeper :
    ∃ k₀ k k' L, Started (fun _ => 0) k₀ ∧
      Run act (fun _ a => Ordinary a) k₀
        [.syscall DSOS_CALL_SPAWN [0, 0], .syscall DSOS_CALL_SLEEP [0]] k ∧
      Coherent k L ∧ L .timerList ≠ [] ∧ k.internalSchedule = .ok k' ∧ ScheduleStep k L 1 k' := by
  obtain ⟨k₀, k, hstart, hrun, htest⟩ := exists_run_from_start (fun _ a => Ordinary a)
    (fun _ a => decide (Ordinary a))
    [.syscall DSOS_CALL_SPAWN [0, 0], .syscall DSOS_CALL_SLEEP [0]]
    (fun k => decide (k.running = some 1 ∧ (k.head .timerList).size = 1))
    (fun _ _ h => of_decide_eq_true h) (by decide +kernel)
  obtain ⟨hr, hsize⟩ := of_decide_eq_true htest
  obtain ⟨L, hc⟩ := coherent_run hstart hrun
  obtain ⟨hout, hu⟩ := running_aside hc hr
  obtain ⟨k', hact, hstep⟩ := schedule_step (schedulable_of_coherent hc) hr hout hu
  refine ⟨k₀, k, k', L, hstart, hrun, hc, fun hnil => ?_, hact, hstep⟩
  rw [hc.tidy.strung.size_eq (l := .timerList) regular_timerItem, hnil] at hsize
  cases hsize

end DisastrOS.Process.SchedulerStep
