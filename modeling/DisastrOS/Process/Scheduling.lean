import DisastrOS.Process.Coherence

/-!
# The scheduler and the timers refine the process table

The loop over the elapsed timers, the rotation of the ready list, and `sleep`.
-/
namespace DisastrOS.Process.Scheduling

open DisastrOS.Machine
open DisastrOS.Machine.Kernel
open DisastrOS.Lists.Sequences
open DisastrOS.Lists.Wiring
open DisastrOS.Lists.RegularLists
open DisastrOS.Pool.Blocks
open DisastrOS.Process.Table
open DisastrOS.Process.Steps
open DisastrOS.Process.View
open DisastrOS.Process.Coherence
open DisastrOS.Library.Outcome

variable {base k k' : Kernel} {L L' : HeadAddr → List Node} {p r n : Nat}

/-- What process control keeps of the lists and the timers. -/
structure Kept (base k : Kernel) (L : HeadAddr → List Node) : Prop where
  woven : Woven base k L
  timers : ∀ i, Allocated k .timerItem i → ⟨.timerItem, i⟩ ∈ L .timerList
  unset : ∀ p, (k.pcb p).timer = none

theorem Coherent.kept (h : Coherent k L) : Kept k k L :=
  ⟨Woven.refl h.tidy.strung, h.tidy.timers, h.tidy.unset⟩

theorem Kept.moved {move : ProcessTable → Prop} (h : Kept k k' L') (ht : Tidy k L)
    (hb : Beside k L k' L') (hmove : move (view k' L')) : Moved k L move k' L' :=
  ⟨h.woven, fun _ hl => hb.others hl, ht.tied_beside hb, h.timers, h.unset, hmove⟩

/-! ## Waking -/

theorem timerListCurrent_some {timer : Nat} {time : Int} (h : Strung Regular Retained k L)
    (ht : k.timerListCurrent time = .ok (some timer)) :
    ∃ rest, L .timerList = ⟨.timerItem, timer⟩ :: rest ∧
      (k.timerItem timer).awakeningTime ≤ time := by
  have hl : Regular HeadAddr.timerList.nodeKind := (by decide : Regular .timerItem)
  unfold timerListCurrent at ht
  rw [h.first_eq hl] at ht
  cases hL : L .timerList with
  | nil =>
    rw [hL] at ht
    cases ht
  | cons x rest =>
    have hx := h.node_eq hl (x := x) (by simp [hL])
    rw [hL, hx] at ht
    simp only [List.head?_cons, castTo, HeadAddr.nodeKind, bind, Except.bind, if_true, pure,
      Except.pure, Except.ok.injEq] at ht
    split at ht
    · next hle =>
      cases ht
      exact ⟨rest, congrArg (· :: rest) hx, hle⟩
    · cases ht

theorem timerListCurrent_none {time : Int} (h : Strung Regular Retained k L)
    (ht : k.timerListCurrent time = .ok none) :
    ∀ timer, (view k L).timers.head? = some timer → time < timer.awakeningTime := by
  have hl : Regular HeadAddr.timerList.nodeKind := (by decide : Regular .timerItem)
  unfold timerListCurrent at ht
  rw [h.first_eq hl] at ht
  intro timer htimer
  cases hL : L .timerList with
  | nil =>
    simp [view, hL] at htimer
  | cons x rest =>
    have hx := h.node_eq hl (x := x) (by simp [hL])
    rw [hL, hx] at ht
    simp only [List.head?_cons, castTo, HeadAddr.nodeKind, bind, Except.bind, if_true, pure,
      Except.pure, Except.ok.injEq] at ht
    have hhead : k.timerItem x.idx = timer := by simpa [view, hL] using htimer
    split at ht
    · cases ht
    · next hlt =>
      rw [← hhead]
      exact Int.not_le.mp hlt

/-- One round of the loop over the elapsed timers. -/
theorem wake_step {timer : Nat} {rest as bs : List Node} {k₁ : Kernel} (hk : Kept base k L)
    (hs : Sound (view k L)) (hL : L .timerList = ⟨.timerItem, timer⟩ :: rest)
    (hp : (k.timerItem timer).pcb = some p) (hready : L .readyList = as ++ bs)
    (h : (((k.detach .waitingList ⟨.pcb, p⟩).modPcb p
      fun q => { q with status := .Ready, timer := none }).insert .readyList as.getLast?
        ⟨.pcb, p⟩).timerListRemoveCurrent = .ok k₁) :
    ∃ L₁, Kept base k₁ L₁ ∧ Scheduled k L k₁ L₁ ∧ L₁ .readyList = (as ++ [⟨.pcb, p⟩]) ++ bs ∧
      k₁.disastrOSTime = k.disastrOSTime ∧
      view k₁ L₁ = (view k L).ring p (as.map Node.idx) (bs.map Node.idx) := by
  have hstr := hk.woven.strung
  have hview : (view k L).timers = k.timerItem timer :: rest.map fun x => k.timerItem x.idx := by
    simp [view, hL]
  obtain ⟨p', hpw, hpcb, _⟩ := hs.timed.asleep (k.timerItem timer) (by simp [hview])
  rw [hp, Option.some.injEq] at hpcb
  subst hpcb
  have hmem : (⟨.pcb, p⟩ : Node) ∈ L .waitingList :=
    (mem_map_idx hstr (l := .waitingList) regular_pcb).mp hpw
  have hw₁ := hk.woven.detach (l := .waitingList) regular_pcb hmem
  have hu₁ := hstr.detach_unlinked (l := .waitingList) regular_pcb hmem
  have hlive : Allocated k .pcb p := hs.placed.live_of_waiting hpw
  have hout₁ : ∀ l, l.nodeKind = .pcb → (⟨.pcb, p⟩ : Node) ∉
      Function.update L .waitingList ((L .waitingList).erase ⟨.pcb, p⟩) l := by
    intro l hl
    have hreg : Regular l.nodeKind := by rw [hl]; exact regular_pcb
    exact hstr.threaded.not_mem_erased regular_pcb hmem hreg
  generalize hk₂ : (k.detach .waitingList ⟨.pcb, p⟩).modPcb p
    (fun q => { q with status := .Ready, timer := none }) = k₂ at h
  have hlists₂ : k₂.lists = (k.detach .waitingList ⟨.pcb, p⟩).lists := by rw [← hk₂]; rfl
  have hw₂ : Woven _ k₂ _ := hw₁.congr hlists₂ (by rw [← hk₂]; rfl)
  have hready₁ : Function.update L .waitingList ((L .waitingList).erase ⟨.pcb, p⟩) .readyList =
      as ++ bs := by
    rw [Function.update_of_ne (by decide)]
    exact hready
  have hlive₂ : Allocated k₂ .pcb p := (allocated_congr (by rw [← hk₂]; rfl)).mpr hlive
  have hw₃ := hw₂.insert (l := .readyList) (x := ⟨.pcb, p⟩) regular_pcb hready₁ rfl hlive₂
    (by rw [hlists₂]; exact hu₁) hout₁
  generalize hL₃ : Function.update (Function.update L .waitingList
    ((L .waitingList).erase ⟨.pcb, p⟩)) .readyList (as ++ ⟨.pcb, p⟩ :: bs) = L₃ at hw₃
  generalize hk₃ : k₂.insert .readyList as.getLast? ⟨.pcb, p⟩ = k₃ at h hw₃
  unfold timerListRemoveCurrent at h
  obtain ⟨⟨i, k₄⟩, hd, h⟩ := bind_eq_ok.mp h
  obtain ⟨rest', hL', hk₄, hw₄⟩ := hw₃.detachFirst_ok (l := .timerList)
    (by decide : Regular .timerItem) hd
  have ht₃ : L₃ .timerList = ⟨.timerItem, timer⟩ :: rest := by
    rw [← hL₃, Function.update_of_ne (by decide), Function.update_of_ne (by decide)]
    exact hL
  rw [ht₃] at hL'
  cases hL'
  have hpool₄ : k₄.pool = k.pool := by
    rw [hk₄, ← hk₃, ← hk₂]
    rfl
  have hta : Allocated k₄ .timerItem timer :=
    (allocated_congr hpool₄).mpr (hstr.allocated (l := .timerList) (by decide : Regular .timerItem)
      (by rw [hL]; exact List.mem_cons_self))
  have hnotin : (⟨.timerItem, timer⟩ : Node) ∉ rest := by
    have hn := hstr.nodup (l := .timerList) (by decide : Regular .timerItem)
    rw [hL, List.nodup_cons] at hn
    exact hn.1
  have hr := releaseBlock_returned .timerItem timer hw₄.strung.pooled hta
  cases h
  refine ⟨Function.update L₃ .timerList rest, ⟨?_, fun i hi => ?_, fun q => ?_⟩, ?_, ?_, ?_, ?_⟩
  · refine hw₄.releaseBlock (by decide) hta fun l hl hm => ?_
    rw [timer_lists hl, Function.update_self] at hm
    exact hnotin hm
  · obtain ⟨hne, hi⟩ := (hr.allocated _ _).mp hi
    have hi' := hk.timers i ((allocated_congr hpool₄).mp hi)
    rw [hL, List.mem_cons] at hi'
    rw [Function.update_self]
    refine hi'.resolve_left fun he => hne ⟨rfl, ?_⟩
    cases he
    rfl
  · show (k₄.pcb q).timer = none
    rw [hk₄, ← hk₃, ← hk₂]
    change (Function.update k.pcb p _ q).timer = none
    rw [Function.update_apply]
    split
    · rfl
    · exact hk.unset q
  · refine ⟨?_, ?_, fun kind h₃ => ?_, fun l hl => ?_⟩
    · rw [hk₄, ← hk₃, ← hk₂]
      rfl
    · show ∀ t q, (k₄.pcb q).fdCounter t = _
      rw [hk₄, ← hk₃, ← hk₂]
      exact counter_modPcb (f := fun q => { q with status := .Ready, timer := none })
        fun _ t => by cases t <;> rfl
    · rw [releaseBlock_pool _ _ h₃, hpool₄]
    · have h₁ : l ≠ .timerList := fun he => hl (he ▸ trivial)
      have h₂ : l ≠ .readyList := fun he => hl (he ▸ trivial)
      have h₃ : l ≠ .waitingList := fun he => hl (he ▸ trivial)
      rw [Function.update_of_ne h₁, ← hL₃, Function.update_of_ne h₂, Function.update_of_ne h₃]
  · rw [Function.update_of_ne (by decide), ← hL₃, Function.update_self, List.append_assoc,
      List.singleton_append]
  · show k₄.disastrOSTime = _
    rw [hk₄, ← hk₃, ← hk₂]
    rfl
  · have hsame : view k₄ (Function.update L₃ .timerList rest) =
        view (k.modPcb p fun q => { q with status := .Ready, timer := none })
          (Function.update L₃ .timerList rest) := by
      rw [hk₄, ← hk₃, ← hk₂]
      rfl
    have hwait : ((L .waitingList).erase ⟨.pcb, p⟩).map Node.idx =
        ((L .waitingList).map Node.idx).erase p :=
      map_idx_erase hstr (l := .waitingList) regular_pcb hmem
    rw [view_of_rest (releaseBlock_pool _ _ (by decide)) rfl, hsame, view_timers, ← hL₃, view_ready,
      view_waiting, hwait,
      view_modPcb (g := fun q => { q with status := .Ready, timer := none }) fun _ => rfl]
    unfold ProcessTable.ring
    rw [hview]
    simp only [List.map_append, List.map_cons, List.tail_cons]
    rfl

/-- The loop over the elapsed timers. -/
theorem wakeElapsed_refines {fuel : Nat} {as bs : List Node} (hk : Kept base k L)
    (hs : Sound (view k L)) (hready : L .readyList = as ++ bs)
    (h : wakeElapsed fuel as.getLast? k = .ok k') :
    ∃ L', Kept base k' L' ∧ Scheduled k L k' L' ∧ Wakes (view k L) (view k' L') := by
  induction fuel generalizing k L as with
  | zero => cases h
  | succ fuel ih =>
    unfold wakeElapsed at h
    obtain ⟨found, hf, h⟩ := bind_eq_ok.mp h
    cases found with
    | none =>
      cases h
      exact ⟨L, hk, .refl, .done (timerListCurrent_none hk.woven.strung hf)⟩
    | some timer =>
      obtain ⟨rest, hL, htime⟩ := timerListCurrent_some hk.woven.strung hf
      obtain ⟨p, hp, h⟩ := bind_eq_ok.mp h
      obtain ⟨k₁, h₁, h⟩ := bind_eq_ok.mp h
      have hp := deref_eq_ok.mp hp
      obtain ⟨L₁, hk₁, hb₁, hr₁, _, hv₁⟩ := wake_step hk hs hL hp hready h₁
      have hview : (view k L).timers = k.timerItem timer :: rest.map fun x => k.timerItem x.idx := by
        simp [view, hL]
      have hsplit : (view k L).ready = as.map Node.idx ++ bs.map Node.idx := by
        simp [view, hready]
      have hs₁ : Sound (view k₁ L₁) := by
        rw [hv₁]
        exact sound_ring hs hview hp hsplit
      have hlast : some (⟨.pcb, p⟩ : Node) = (as ++ [(⟨.pcb, p⟩ : Node)]).getLast? :=
        List.getLast?_concat.symm
      rw [hlast] at h
      obtain ⟨L', hk', hb', hw'⟩ := ih hk₁ hs₁ hr₁ h
      refine ⟨L', hk', hb₁.trans hb', .wake hview hp htime hsplit ?_⟩
      rwa [← hv₁]

/-! ## Rotating the ready list -/

theorem internalSchedule_refines (hk : Kept base k L) (hs : Sound (view k L))
    (h : internalSchedule k = .ok k') :
    ∃ L', Kept base k' L' ∧ Scheduled k L k' L' ∧ Schedules (view k L) (view k' L') := by
  unfold internalSchedule at h
  obtain ⟨k₁, h₁, h⟩ := bind_eq_ok.mp h
  obtain ⟨L₁, hk₁, hb₁, hw₁⟩ := wakeElapsed_refines hk hs
    (List.nil_append (L .readyList)).symm h₁
  have hs₁ := wakes_sound hw₁ hs
  have hstr := hk₁.woven.strung
  cases hL : L₁ .readyList with
  | nil =>
    rw [hstr.first_eq (l := .readyList) regular_pcb, hL] at h
    cases h
    exact ⟨L₁, hk₁, hb₁, .alone hw₁ (by simp [view, hL])⟩
  | cons x rest =>
    rw [hstr.first_eq (l := .readyList) regular_pcb, hL] at h
    simp only [List.head?_cons] at h
    obtain ⟨⟨n, k₂⟩, hd, h⟩ := bind_eq_ok.mp h
    obtain ⟨r, hr, h⟩ := bind_eq_ok.mp h
    obtain ⟨rest', hL', hk₂, hw₂⟩ := hk₁.woven.detachFirst_ok (l := .readyList) regular_pcb hd
    rw [hL] at hL'
    cases hL'
    have hr₁ : k₁.running = some r := by
      have hr := deref_eq_ok.mp hr
      rwa [hk₂] at hr
    have hrun : (view k₁ L₁).running = some r := hr₁
    have hready : (view k₁ L₁).ready = n :: rest.map Node.idx := by simp [view, hL]
    have hout := hs₁.placed.not_mem_of_running hrun
    have hrl := hs₁.placed.live_of_running hrun
    obtain ⟨hu, hnl⟩ := unlinked_pcb hstr hrl hout.1 hout.2.1 hout.2.2
    -- `r` has no links before the append, as it was in no list
    have hlists : (k₂.setStatus r .Ready).lists = k₂.lists := rfl
    have hw₃ : Woven _ (k₂.setStatus r .Ready) _ := hw₂.congr rfl rfl
    have hnl₂ : ∀ l, l.nodeKind = .pcb → (⟨.pcb, r⟩ : Node) ∉
        Function.update L₁ .readyList rest l := by
      intro l hl hm
      by_cases he : l = .readyList
      · rw [he, Function.update_self] at hm
        exact hnl .readyList rfl (by rw [hL]; exact List.mem_cons_of_mem _ hm)
      · rw [Function.update_of_ne he] at hm
        exact hnl l hl hm
    have hla : Allocated (k₂.setStatus r .Ready) .pcb r :=
      (allocated_congr (by rw [hk₂]; rfl)).mpr hrl
    have hu₃ : Unlinked (k₂.setStatus r .Ready).lists ⟨.pcb, r⟩ :=
      hw₃.strung.loose ⟨.pcb, r⟩ rfl hla (hw₃.strung.unlisted hnl₂)
    have hw₄ := hw₃.append (l := .readyList) (x := ⟨.pcb, r⟩) regular_pcb rfl hla hu₃ hnl₂
    cases h
    refine ⟨_, ⟨hw₄.congr rfl rfl, fun i hi => ?_, fun q => ?_⟩, hb₁.trans ⟨?_, ?_, fun kind _ => ?_,
      fun l hl => ?_⟩, ?_⟩
    · rw [Function.update_of_ne (by decide), Function.update_of_ne (by decide)]
      exact hk₁.timers i ((allocated_congr (by rw [hk₂]; rfl)).mp hi)
    · rw [hk₂]
      show (((k₁.setStatus r .Ready).setStatus n .Running).pcb q).timer = none
      rw [timer_setStatus, timer_setStatus]
      exact hk₁.unset q
    · rw [hk₂]
      rfl
    · rw [hk₂]
      show ∀ t q, (((k₁.setStatus r .Ready).setStatus n .Running).pcb q).fdCounter t = _
      exact fun t q => (counter_setStatus _ t q).trans (counter_setStatus _ t q)
    · rw [hk₂]
      rfl
    · have hne : l ≠ .readyList := fun he => hl (he ▸ trivial)
      rw [Function.update_of_ne hne, Function.update_of_ne hne]
    · have hview : view ({ ((k₂.setStatus r .Ready).append .readyList ⟨.pcb, r⟩).setStatus n .Running
          with running := some n } : Kernel) (Function.update (Function.update L₁ .readyList rest)
            .readyList (Function.update L₁ .readyList rest .readyList ++ [⟨.pcb, r⟩])) =
          (view k₁ L₁).rotate r n := by
        rw [Function.update_idem, Function.update_self, hk₂]
        show { view ((k₁.setStatus r .Ready).setStatus n .Running) (Function.update L₁ .readyList
          (rest ++ [⟨.pcb, r⟩])) with running := some n } = _
        rw [view_ready, view_setStatus, view_setStatus]
        unfold ProcessTable.rotate
        rw [hready]
        simp
      rw [hview]
      exact .rotate hw₁ hrun hready

theorem preempt_refines (hc : Coherent k L) (h : internalPreempt k = .ok k') :
    ∃ L', Scheduled k L k' L' ∧ Moved k L (Handled (view k L) r DSOS_CALL_PREEMPT) k' L' := by
  obtain ⟨L', hk, hb, hsched⟩ := internalSchedule_refines (Coherent.kept hc) hc.sound h
  exact ⟨L', hb, hk.moved hc.tidy hb.beside (.preempt hsched)⟩

/-! ## Leaving the processor -/

/-- A process that is in no list goes to the end of the waiting list. -/
theorem Kept.park (hk : Kept base k L) (ha : Allocated k .pcb r)
    (hu : Unlinked k.lists ⟨.pcb, r⟩) (hout : ∀ l, l.nodeKind = .pcb → ⟨.pcb, r⟩ ∉ L l) :
    Kept base (k.append .waitingList ⟨.pcb, r⟩)
        (Function.update L .waitingList (L .waitingList ++ [⟨.pcb, r⟩])) ∧
      Scheduled k L (k.append .waitingList ⟨.pcb, r⟩)
        (Function.update L .waitingList (L .waitingList ++ [⟨.pcb, r⟩])) := by
  refine ⟨⟨hk.woven.append (l := .waitingList) regular_pcb rfl ha hu hout, fun i hi => ?_, hk.unset⟩,
    ⟨rfl, fun _ _ => rfl, fun _ _ => rfl, fun l hl => ?_⟩⟩
  · rw [Function.update_of_ne (by decide)]
    exact hk.timers i hi
  · have hne : l ≠ .waitingList := fun he => hl (he ▸ trivial)
    exact Function.update_of_ne hne _ _

/-- The first ready process leaves the ready list. -/
theorem Kept.takeReady (hk : Kept base k L) (hd : k.detachFirst .readyList = .ok (n, k')) :
    ∃ rest, L .readyList = ⟨.pcb, n⟩ :: rest ∧ k' = k.detach .readyList ⟨.pcb, n⟩ ∧
      Kept base k' (Function.update L .readyList rest) ∧
      Scheduled k L k' (Function.update L .readyList rest) := by
  obtain ⟨rest, hL, hk', hw⟩ := hk.woven.detachFirst_ok (l := .readyList) regular_pcb hd
  refine ⟨rest, hL, hk', ⟨hw, fun i hi => ?_, fun q => ?_⟩, ⟨?_, ?_, fun kind _ => ?_,
    fun l hl => ?_⟩⟩
  · rw [Function.update_of_ne (by decide)]
    exact hk.timers i ((allocated_congr (by rw [hk']; rfl)).mp hi)
  · rw [hk']
    exact hk.unset q
  · rw [hk']
    rfl
  · rw [hk']
    exact fun _ _ => rfl
  · rw [hk']
    rfl
  · have hne : l ≠ .readyList := fun he => hl (he ▸ trivial)
    exact Function.update_of_ne hne _ _

theorem Kept.congr (hk : Kept base k L) (hlists : k'.lists = k.lists) (hpool : k'.pool = k.pool)
    (htimer : ∀ p, (k'.pcb p).timer = (k.pcb p).timer) : Kept base k' L :=
  ⟨hk.woven.congr hlists hpool, fun i hi => hk.timers i ((allocated_congr hpool).mp hi),
    fun p => (htimer p).trans (hk.unset p)⟩

/-! ## Sleeping -/

/-- Where `TimerList_add` puts a new item. -/
theorem timerPosition_ok {fuel : Nat} {w : Int} {as xs : List Node} {previous : Option Node}
    (hs : Strung Regular Retained k L) (hL : L .timerList = as ++ xs)
    (h : k.timerPosition w fuel xs.head? as.getLast? = .ok previous) :
    ∃ as' bs, xs = as' ++ bs ∧ previous = (as ++ as').getLast? ∧
      (∀ a ∈ as', (k.timerItem a.idx).awakeningTime ≤ w) ∧
      ∀ b, bs.head? = some b → w < (k.timerItem b.idx).awakeningTime := by
  induction fuel generalizing as xs with
  | zero => cases h
  | succ fuel ih =>
    cases xs with
    | nil =>
      cases h
      exact ⟨[], [], rfl, by rw [List.append_nil], by simp, by simp⟩
    | cons x xs =>
      have hx := hs.node_eq (l := .timerList) (by decide : Regular .timerItem) (x := x)
        (by rw [hL]; simp)
      have hkind : x.kind = .timerItem := congrArg Node.kind hx
      simp only [timerPosition, List.head?_cons, castTo, hkind, if_true, bind, Except.bind, pure,
        Except.pure] at h
      split at h
      · next hlt =>
        cases h
        refine ⟨[], x :: xs, rfl, by rw [List.append_nil], by simp, fun b hb => ?_⟩
        cases hb
        exact hlt
      · next hge =>
        have hholds := hs.holds (l := .timerList) (by decide : Regular .timerItem)
        rw [hL] at hholds
        have hnext : (k.lists.item x).next = xs.head? := by
          rw [DisastrOS.Library.LinkedSequence.cell_of_split hholds]
        have hlast : some x = (as ++ [x]).getLast? := List.getLast?_concat.symm
        rw [hnext, hlast] at h
        have hL' : L .timerList = (as ++ [x]) ++ xs := by rw [hL, List.append_assoc]; rfl
        obtain ⟨as', bs, rfl, hprev, has, hbs⟩ := ih hL' h
        refine ⟨x :: as', bs, rfl, ?_, ?_, hbs⟩
        · rw [hprev, List.append_assoc, List.singleton_append]
        · intro a ha
          rcases List.mem_cons.mp ha with rfl | ha
          · omega
          · exact has a ha

/-- The scan of `TimerList_add` ends. -/
theorem timerPosition_total {fuel : Nat} {w : Int} {as xs : List Node} {previous : Option Node}
    (hs : Strung Regular Retained k L) (hL : L .timerList = as ++ xs) (hfuel : xs.length < fuel) :
    ∃ p, k.timerPosition w fuel xs.head? previous = .ok p := by
  induction fuel generalizing as xs previous with
  | zero => omega
  | succ fuel ih =>
    cases xs with
    | nil => exact ⟨previous, rfl⟩
    | cons x xs =>
      have hx := hs.node_eq (l := .timerList) (by decide : Regular .timerItem) (x := x)
        (by rw [hL]; simp)
      have hkind : x.kind = .timerItem := congrArg Node.kind hx
      have hholds := hs.holds (l := .timerList) (by decide : Regular .timerItem)
      rw [hL] at hholds
      have hnext : (k.lists.item x).next = xs.head? := by
        rw [DisastrOS.Library.LinkedSequence.cell_of_split hholds]
      simp only [timerPosition, List.head?_cons, castTo, hkind, if_true, bind, Except.bind, pure,
        Except.pure]
      split
      · exact ⟨previous, rfl⟩
      · rw [hnext]
        have hL' : L .timerList = (as ++ [x]) ++ xs := by rw [hL, List.append_assoc]; rfl
        rw [List.length_cons] at hfuel
        exact ih hL' (by omega)

theorem timerListAdd_none {w : Int} (h : k.timerListAdd w r = .ok none) :
    k.newItem .timerItem = none := by
  unfold timerListAdd timerItemAlloc at h
  obtain ⟨_, _, h⟩ := bind_eq_ok.mp h
  cases hnew : k.newItem .timerItem with
  | none => rfl
  | some new =>
    rw [hnew] at h
    cases h

/-- A timer item has been added for process `r`. -/
structure TimerAdded (k : Kernel) (L : HeadAddr → List Node) (w : Int) (r : Nat)
    (as bs : List TimerItem) (k' : Kernel) (L' : HeadAddr → List Node) : Prop where
  kept : Kept k k' L'
  beside : Scheduled k L k' L'
  split : (view k L).timers = as ++ bs
  earlier : ∀ a ∈ as, a.awakeningTime ≤ w
  later : ∀ b ∈ bs, w < b.awakeningTime
  view_eq : view k' L' = { view k L with timers := as ++ ⟨w, some r⟩ :: bs }
  lists : ∀ l, l ≠ .timerList → L' l = L l
  live : ∀ j, Allocated k' .pcb j ↔ Allocated k .pcb j

theorem timerListAdd_some {w : Int} (hc : Coherent k L)
    (h : k.timerListAdd w r = .ok (some k')) : ∃ L' as bs, TimerAdded k L w r as bs k' L' := by
  unfold timerListAdd timerItemAlloc at h
  obtain ⟨previous, hprev, h⟩ := bind_eq_ok.mp h
  have hstr := hc.tidy.strung
  have hreg : Regular HeadAddr.timerList.nodeKind := (by decide : Regular .timerItem)
  cases hnew : k.newItem .timerItem with
  | none =>
    rw [hnew] at h
    cases h
  | some new =>
    obtain ⟨i, k₁⟩ := new
    rw [hnew] at h
    rw [hstr.first_eq hreg] at hprev
    obtain ⟨as, bs, hsplit, hp, has, hbs⟩ := timerPosition_ok hstr
      (List.nil_append (L .timerList)).symm hprev
    rw [List.nil_append] at hp
    subst hp
    have hf := newItem_fresh hstr.pooled hnew
    have hview : (view k L).timers = as.map (fun x => k.timerItem x.idx) ++
        bs.map fun x => k.timerItem x.idx := by
      simp [view, hsplit]
    obtain ⟨k₂, hk₂⟩ : ∃ k₂, ({ k₁ with
        timerItem := Function.update k₁.timerItem i ⟨w, some r⟩ } : Kernel) = k₂ := ⟨_, rfl⟩
    have hk' : k₂.insert .timerList as.getLast? ⟨.timerItem, i⟩ = k' := by
      rw [← hk₂]
      exact Option.some.inj (Except.ok.inj h)
    subst hk'
    have hlists₂ : k₂.lists = k₁.lists := by rw [← hk₂]
    have hpool₂ : k₂.pool = k₁.pool := by rw [← hk₂]
    have hw₂ : Woven k k₂ L := ((Woven.refl hstr).newItem (by decide) hf).congr hlists₂ hpool₂
    have hout : ∀ l, l.nodeKind = .timerItem → (⟨.timerItem, i⟩ : Node) ∉ L l := fun l hl => by
      have hreg : Regular l.nodeKind := by rw [hl]; decide
      exact hstr.fresh_unlisted hf.fresh hreg
    have hu : Unlinked k₂.lists ⟨.timerItem, i⟩ := by
      rw [hlists₂]
      exact unlinked_fresh hf
    have hw₃ := hw₂.insert (l := .timerList) (x := ⟨.timerItem, i⟩) hreg hsplit rfl
      ((allocated_congr hpool₂).mpr ((hf.allocated _ _).mpr (.inl ⟨rfl, rfl⟩))) hu hout
    -- no listed item is the new one
    have hold : ∀ ys : List Node, (∀ x ∈ ys, x ∈ L .timerList) →
        ys.map (fun x => k₂.timerItem x.idx) = ys.map fun x => k.timerItem x.idx := by
      intro ys hys
      refine List.map_congr_left fun x hx => ?_
      have hx := hys x hx
      have hne : x.idx ≠ i := by
        intro he
        rw [hstr.node_eq hreg hx, he] at hx
        exact hf.fresh (hstr.allocated hreg hx)
      rw [← hk₂, hf.eq]
      exact Function.update_of_ne hne _ _
    have hitem : k₂.timerItem i = ⟨w, some r⟩ := by
      rw [← hk₂]
      exact Function.update_self ..
    refine ⟨_, as.map fun x => k.timerItem x.idx, bs.map fun x => k.timerItem x.idx,
      ⟨hw₃, fun j hj => ?_, fun q => ?_⟩, ⟨?_, ?_, fun kind h₃ => ?_, fun l hl => ?_⟩, hview,
      fun a ha => ?_, ?_, ?_, fun l hl => Function.update_of_ne hl _ _, fun j => ?_⟩
    · rw [Function.update_self, List.mem_append, List.mem_cons]
      have hj₁ : Allocated k₁ .timerItem j := (allocated_congr hpool₂).mp hj
      rcases (hf.allocated _ _).mp hj₁ with ⟨_, rfl⟩ | hj
      · exact .inr (.inl rfl)
      · have hmem := hc.tidy.timers j hj
        rw [hsplit, List.mem_append] at hmem
        exact hmem.imp id .inr
    · show (k₂.pcb q).timer = none
      rw [← hk₂, hf.eq]
      exact hc.tidy.unset q
    · rw [← hk₂, hf.eq]
      rfl
    · show ∀ t q, (k₂.pcb q).fdCounter t = _
      rw [← hk₂, hf.eq]
      exact fun _ _ => rfl
    · show k₂.pool kind = _
      rw [hpool₂]
      exact fresh_pool hf h₃
    · have hne : l ≠ .timerList := fun he => hl (he ▸ trivial)
      exact Function.update_of_ne hne _ _
    · obtain ⟨x, hx, rfl⟩ := List.mem_map.mp ha
      exact has x hx
    · -- the list is sorted, so everything behind the place is later
      have hsorted := hc.sound.timed.sorted
      rw [hview, List.pairwise_append] at hsorted
      cases bs with
      | nil => simp
      | cons b bs =>
        intro c hc
        rcases List.mem_cons.mp hc with rfl | hc
        · exact hbs b rfl
        · exact Int.lt_of_lt_of_le (hbs b rfl) ((List.pairwise_cons.mp hsorted.2.1).1 c hc)
    · have hnew : ((as ++ ⟨.timerItem, i⟩ :: bs).map fun x : Node => k₂.timerItem x.idx) =
          (as.map fun x => k.timerItem x.idx) ++
            ⟨w, some r⟩ :: bs.map fun x => k.timerItem x.idx := by
        rw [List.map_append, List.map_cons, hitem,
          hold as fun x hx => by rw [hsplit]; exact List.mem_append_left _ hx,
          hold bs fun x hx => by rw [hsplit]; exact List.mem_append_right _ hx]
      have hrest : view (k₂.insert .timerList as.getLast? ⟨.timerItem, i⟩) L =
          { view k L with timers := (L .timerList).map fun x => k₂.timerItem x.idx } := by
        show view k₂ L = _
        have hl : view k₂ L = { view k₂ L with live := Allocated k .pcb } := by
          unfold view
          congr 1
          exact funext fun j => propext (allocated_of_pool (by
            rw [hpool₂]
            exact fresh_pool hf (by decide)))
        rw [hl, ← hk₂, hf.eq]
        rfl
      rw [view_timers, hrest]
      exact congrArg (fun ts => { view k L with timers := ts }) hnew
    · refine allocated_of_pool ?_
      show k₂.pool .pcb = _
      rw [hpool₂]
      exact fresh_pool hf (by decide)

/-- The head of the ready list, with the caller parked. -/
theorem parked_ready (k : Kernel) (r : Nat) :
    ((k.setStatus r .Waiting).append .waitingList ⟨.pcb, r⟩).head .readyList =
      k.head .readyList :=
  insert_head _ _ _ (by simp)

/-- The first ready process can be taken with the caller parked. -/
theorem parked_next_total (hs : Strung Regular Retained k L)
    (hready : (k.head .readyList).first ≠ none) : ∃ n k',
      ((k.setStatus r .Waiting).append .waitingList ⟨.pcb, r⟩).detachFirst .readyList =
        .ok (n, k') := by
  obtain ⟨x, hx⟩ := Option.ne_none_iff_exists'.mp hready
  have hfirst := hs.first_eq (l := .readyList) regular_pcb
  have hm : x ∈ L .readyList := List.mem_of_mem_head? (hfirst.symm.trans hx)
  have hnode : x = ⟨.pcb, x.idx⟩ := hs.node_eq (l := .readyList) regular_pcb hm
  have hcast : castTo HeadAddr.readyList.nodeKind x = .ok x.idx := castTo_eq_ok.mpr hnode
  unfold detachFirst
  simp only [parked_ready, hx, deref, bind, Except.bind, hcast]
  exact ⟨_, _, rfl⟩

/-- Leaving the processor to nobody. -/
theorem park_alone (hk : Kept base k L) (ha : Allocated k .pcb r)
    (hu : Unlinked k.lists ⟨.pcb, r⟩) (hout : ∀ l, l.nodeKind = .pcb → ⟨.pcb, r⟩ ∉ L l)
    (hready : L .readyList = []) :
    ∃ L', Kept base { k.append .waitingList ⟨.pcb, r⟩ with running := none } L' ∧
      Scheduled k L { k.append .waitingList ⟨.pcb, r⟩ with running := none } L' ∧
      view { k.append .waitingList ⟨.pcb, r⟩ with running := none } L' =
        ((view k L).park r).runNext := by
  obtain ⟨hk', hb'⟩ := hk.park ha hu hout
  refine ⟨_, hk'.congr rfl rfl fun _ => rfl, hb'.trans ⟨rfl, fun _ _ => rfl, fun _ _ => rfl,
    fun _ _ => rfl⟩, ?_⟩
  show { view k _ with running := none } = _
  rw [view_waiting]
  unfold ProcessTable.park ProcessTable.runNext
  have hr : (view k L).ready = [] := by simp [view, hready]
  simp only [hr, List.map_append, List.map_cons, List.map_nil, List.head?_nil, List.tail_nil]
  rw [← hr]
  rfl

/-- Leaving the processor to the first ready process. -/
theorem park_next {k₁ : Kernel} (hk : Kept base k L) (ha : Allocated k .pcb r)
    (hu : Unlinked k.lists ⟨.pcb, r⟩) (hout : ∀ l, l.nodeKind = .pcb → ⟨.pcb, r⟩ ∉ L l)
    (hd : (k.append .waitingList ⟨.pcb, r⟩).detachFirst .readyList = .ok (n, k₁)) :
    ∃ L', Kept base { k₁ with running := some n } L' ∧
      Scheduled k L { k₁ with running := some n } L' ∧
      view { k₁ with running := some n } L' = ((view k L).park r).runNext := by
  obtain ⟨hk', hb'⟩ := hk.park ha hu hout
  obtain ⟨rest, hL, rfl, hk₁, hb₁⟩ := hk'.takeReady hd
  rw [Function.update_of_ne (by decide)] at hL
  refine ⟨_, hk₁.congr rfl rfl fun _ => rfl, (hb'.trans hb₁).trans ⟨rfl, fun _ _ => rfl, fun _ _ => rfl,
    fun _ _ => rfl⟩, ?_⟩
  show { view k _ with running := some n } = _
  rw [view_ready, view_waiting]
  unfold ProcessTable.park ProcessTable.runNext
  have hr : (view k L).ready = n :: rest.map Node.idx := by simp [view, hL]
  simp only [hr, List.map_append, List.map_cons, List.map_nil, List.head?_cons, List.tail_cons]
  rfl

/-- Sleeping processes are fewer than processes, as one runs. -/
theorem card_timers_lt (hc : Coherent k L) (hr : k.running = some r) :
    (view k L).timers.length < 1024 := by
  have hsub : (view k L).timers.map TimerItem.pcb ⊆ (view k L).waiting.map some := by
    intro o ho
    obtain ⟨i, hi, rfl⟩ := List.mem_map.mp ho
    obtain ⟨p, hp, hpcb, _⟩ := hc.sound.timed.asleep i hi
    exact List.mem_map.mpr ⟨p, hp, hpcb.symm⟩
  have hle := (List.subperm_of_subset hc.sound.timed.nodup hsub).length_le
  rw [List.length_map, List.length_map] at hle
  have hnd : (r :: (view k L).waiting).Nodup := by
    refine List.nodup_cons.mpr ⟨?_, hc.sound.placed.nodup_waiting⟩
    exact (hc.sound.placed.not_mem_of_running hr).2.1
  have hrange : r :: (view k L).waiting ⊆ List.range 1024 := by
    intro p hp
    have hlive : Allocated k .pcb p := by
      rcases List.mem_cons.mp hp with rfl | hp
      · exact hc.sound.placed.live_of_running hr
      · exact hc.sound.placed.live_of_waiting hp
    exact List.mem_range.mpr (allocated_bound hc.tidy.strung.pooled hlive)
  have hmax := (List.subperm_of_subset hnd hrange).length_le
  rw [List.length_cons, List.length_range] at hmax
  omega

theorem timer_inUse {i : Nat} (hc : Coherent k L) :
    Allocated k .timerItem i ↔ i ∈ (L .timerList).map Node.idx := by
  rw [mem_map_idx hc.tidy.strung regular_timerItem]
  exact ⟨hc.tidy.timers i, hc.tidy.strung.allocated regular_timerItem⟩

/-- There is a free timer item when a process runs. -/
theorem timer_available (hc : Coherent k L) (hr : k.running = some r) :
    k.getBlock .timerItem ≠ none := by
  have hs := hc.tidy.strung
  refine getBlock_ne_none hs.pooled ?_
  have hset : inUse k .timerItem = ((L .timerList).map Node.idx).toFinset := by
    ext i
    rw [mem_inUse, List.mem_toFinset]
    exact timer_inUse hc
  have hlen : (L .timerList).length < 1024 := by
    have hlt := card_timers_lt hc hr
    have hmap : (view k L).timers.length = (L .timerList).length := List.length_map _
    rwa [hmap] at hlt
  rw [hset, List.toFinset_card_of_nodup (hs.nodup_idx regular_timerItem), List.length_map]
  show _ < MAX_NUM_PROCESSES
  unfold MAX_NUM_PROCESSES
  omega

/-- `internal_sleep` has put `r` to sleep until `w`. -/
structure Slept (k : Kernel) (L : HeadAddr → List Node) (r : Nat) (w : Int)
    (as bs : List TimerItem) (k' : Kernel) (L' : HeadAddr → List Node) : Prop where
  time : addInt k.disastrOSTime (toInt (k.arg r 0)) = .ok w
  split : (view k L).timers = as ++ bs
  earlier : ∀ a ∈ as, a.awakeningTime ≤ w
  later : ∀ b ∈ bs, w < b.awakeningTime
  beside : Scheduled k L k' L'
  moved : Moved k L (· = (view k L).sleep r w as bs) k' L'

/-- `internal_sleep` refuses for want of a timer item, or puts the caller to sleep. -/
theorem sleep_ok (hc : Coherent k L) (hr : k.running = some r) (h : internalSleep k = .ok k') :
    (k.newItem .timerItem = none ∧ k' = k.setRetvalue r DSOS_ESLEEP) ∨
      ∃ w as bs L', Slept k L r w as bs k' L' := by
  unfold internalSleep at h
  obtain ⟨r', hr', h⟩ := bind_eq_ok.mp h
  have hr' := deref_eq_ok.mp hr'
  rw [hr, Option.some.injEq] at hr'
  subst hr'
  rw [if_neg (by rw [hc.tidy.unset]; exact Bool.false_ne_true)] at h
  simp only at h
  obtain ⟨w, hw, h⟩ := bind_eq_ok.mp h
  obtain ⟨added, hadd, h⟩ := bind_eq_ok.mp h
  cases added with
  | none =>
    cases h
    exact .inl ⟨timerListAdd_none hadd, rfl⟩
  | some k₁ =>
    obtain ⟨L₁, as, bs, ht⟩ := timerListAdd_some hc hadd
    obtain ⟨_, hnl⟩ := hc.running_unlinked hr
    have hrl : Allocated k .pcb r := hc.sound.placed.live_of_running hr
    simp only at h
    have hk₂ : Kept _ (k₁.setStatus r .Waiting) _ :=
      ht.kept.congr rfl rfl fun q => timer_setStatus _ q
    have hnl₂ : ∀ l, l.nodeKind = .pcb → (⟨.pcb, r⟩ : Node) ∉ L₁ l := by
      intro l hl hm
      have hne : l ≠ .timerList := fun he => by rw [he] at hl; cases hl
      rw [ht.lists l hne] at hm
      exact hnl l hl hm
    have hrl₂ : Allocated (k₁.setStatus r .Waiting) .pcb r := (ht.live r).mpr hrl
    have hu₂ : Unlinked (k₁.setStatus r .Waiting).lists ⟨.pcb, r⟩ :=
      hk₂.woven.strung.loose ⟨.pcb, r⟩ rfl hrl₂ (hk₂.woven.strung.unlisted hnl₂)
    have hb₂ : Scheduled k L (k₁.setStatus r .Waiting) L₁ :=
      ht.beside.trans (scheduled_setStatus _)
    have hmove : ((view (k₁.setStatus r .Waiting) L₁).park r).runNext =
        (view k L).sleep r w as bs := by
      rw [view_setStatus, ht.view_eq]
      rfl
    obtain ⟨hk₃, _⟩ := hk₂.park hrl₂ hu₂ hnl₂
    rw [hk₃.woven.strung.first_eq (l := .readyList) regular_pcb,
      Function.update_of_ne (by decide : HeadAddr.readyList ≠ .waitingList)] at h
    cases hL : L₁ .readyList with
    | nil =>
      rw [hL] at h
      cases h
      obtain ⟨L', hk', hb', hv'⟩ := park_alone hk₂ hrl₂ hu₂ hnl₂ hL
      exact .inr ⟨w, as, bs, L', hw, ht.split, ht.earlier, ht.later, hb₂.trans hb',
        hk'.moved hc.tidy (hb₂.trans hb').beside (hv'.trans hmove)⟩
    | cons x rest =>
      rw [hL] at h
      simp only [List.head?_cons] at h
      obtain ⟨⟨n, k₃⟩, hd, h⟩ := bind_eq_ok.mp h
      cases h
      obtain ⟨L', hk', hb', hv'⟩ := park_next hk₂ hrl₂ hu₂ hnl₂ hd
      exact .inr ⟨w, as, bs, L', hw, ht.split, ht.earlier, ht.later, hb₂.trans hb',
        hk'.moved hc.tidy (hb₂.trans hb').beside (hv'.trans hmove)⟩

/-- A running process can sleep until a time that is an `int`. -/
theorem sleep_total {w : Int} (hc : Coherent k L) (hr : k.running = some r)
    (hfree : k.getBlock .timerItem ≠ none)
    (hw : addInt k.disastrOSTime (toInt (k.arg r 0)) = .ok w) :
    ∃ k' as bs L', internalSleep k = .ok k' ∧ Slept k L r w as bs k' L' := by
  have hs := hc.tidy.strung
  have hlen := hs.length_le (l := .timerList) (by decide : Regular .timerItem)
  have hnew : k.newItem .timerItem ≠ none := fun hn =>
    hfree ((getBlock_eq_none hs.pooled).mpr ((newItem_eq_none hs.pooled).mp hn))
  obtain ⟨⟨i, k₀⟩, hi⟩ := Option.ne_none_iff_exists'.mp hnew
  obtain ⟨k₁, hadd⟩ : ∃ k₁, k.timerListAdd w r = .ok (some k₁) := by
    have hfuel : (L .timerList).length < LOOP_BOUND := by unfold LOOP_BOUND; omega
    obtain ⟨p, hpos⟩ : ∃ p, k.timerPosition w LOOP_BOUND (L .timerList).head? none = .ok p :=
      timerPosition_total hs (List.nil_append (L .timerList)).symm hfuel
    unfold timerListAdd timerItemAlloc
    rw [hs.first_eq (l := .timerList) (by decide : Regular .timerItem)]
    simp only [bind, Except.bind]
    rw [hpos, hi]
    exact ⟨_, rfl⟩
  obtain ⟨L₁, as, bs, ht⟩ := timerListAdd_some hc hadd
  obtain ⟨k', hk'⟩ : ∃ k', internalSleep k = .ok k' := by
    have hunset : (k.pcb r).timer.isSome = false := by rw [hc.tidy.unset]; rfl
    unfold internalSleep
    rw [deref_eq_ok.mpr hr]
    simp only [bind, Except.bind, hunset, Bool.false_eq_true, if_false, hw, hadd, parked_ready]
    cases hready : (k₁.head .readyList).first with
    | none => exact ⟨_, rfl⟩
    | some x =>
      obtain ⟨n, k₂, hn⟩ := parked_next_total (r := r) ht.kept.woven.strung
        (by rw [hready]; exact Option.some_ne_none x)
      simp only [hn]
      exact ⟨_, rfl⟩
  rcases sleep_ok hc hr hk' with ⟨hnone, _⟩ | ⟨w', as', bs', L', hslept⟩
  · exact absurd hnone hnew
  · cases hw.symm.trans hslept.time
    exact ⟨k', as', bs', L', hk', hslept⟩

theorem sleep_refines (hc : Coherent k L) (hr : k.running = some r) (h : internalSleep k = .ok k') :
    ∃ L', Scheduled k L k' L' ∧ Moved k L (Handled (view k L) r DSOS_CALL_SLEEP) k' L' := by
  rcases sleep_ok hc hr h with ⟨hnone, _⟩ | ⟨w, as, bs, L', hs⟩
  · have hfull := (newItem_eq_none hc.tidy.strung.pooled).mp hnone
    exact absurd ((getBlock_eq_none hc.tidy.strung.pooled).mpr hfull) (timer_available hc hr)
  · have hm := hs.moved
    refine ⟨L', hs.beside, hm.woven, hm.others, hm.tied, hm.timers, hm.unset, ?_⟩
    rw [hm.move]
    exact .sleep hs.time hs.split hs.earlier hs.later

end DisastrOS.Process.Scheduling
