import DisastrOS.Machine.Semaphores
import DisastrOS.Process.Handles
import DisastrOS.Process.Scheduling

/-!
# Semaphore calls on coherent kernels

What each of the four calls does, with all its outcomes, and the move of the process
table it is.
-/
namespace DisastrOS.Semaphore.Calls

open DisastrOS.Machine
open DisastrOS.Machine.Kernel
open DisastrOS.Lists.Sequences
open DisastrOS.Lists.Wiring
open DisastrOS.Lists.RegularLists
open DisastrOS.Pool.Blocks
open DisastrOS.Descriptors.Bindings
open DisastrOS.Descriptors.Tables
open DisastrOS.Process.Table
open DisastrOS.Process.Steps
open DisastrOS.Process.View
open DisastrOS.Process.Coherence
open DisastrOS.Process.Scheduling
open DisastrOS.Process.Handles
open DisastrOS.Library.Outcome

variable {k k' k₁ : Kernel} {L L' : HeadAddr → List Node} {r d sem ptr n : Nat} {num : Int}
  {args : List Int}

/-! ## Opening -/

/-- The semaphore `sem` has been created by process `r`. -/
structure SemCreated (k : Kernel) (L : HeadAddr → List Node) (r sem : Nat) (k' : Kernel)
    (L' : HeadAddr → List Node) : Prop where
  created : Created .semaphore k L sem k' L'
  id_nonneg : 0 ≤ toInt (k.arg r 0)
  id_new : ∀ s, ⟨.semaphore, s⟩ ∈ L .semaphoresList → (k.semaphore s).id ≠ toInt (k.arg r 0)
  semaphore : k'.semaphore = Function.update k.semaphore sem
    ⟨toInt (k.arg r 0), toInt (k.arg r 2 % 2 ^ 32)⟩
  rest : k' = { k with lists := k'.lists, pool := k'.pool, semaphore := k'.semaphore }

/-- The outcomes of `internal_semOpen`. -/
inductive SemOpened (k : Kernel) (L : HeadAddr → List Node) (r : Nat) :
    Kernel → (HeadAddr → List Node) → Prop
  | refused : SemOpened k L r (k.setRetvalue r DSOS_ESEMAPHOREOPEN) L
  | opened {sem d ptr : Nat} {k' : Kernel} (hsem : ObjectListed L .semaphore sem)
      (h : Added Regular Retained k L .semaphore r sem d ptr k') :
      SemOpened k L r k' (withOpened L .semaphore r sem d ptr)
  | created {sem d ptr : Nat} {k₁ k' : Kernel} {L₁ : HeadAddr → List Node}
      (hnew : SemCreated k L r sem k₁ L₁)
      (h : Added Regular Retained k₁ L₁ .semaphore r sem d ptr k') :
      SemOpened k L r k' (withOpened L₁ .semaphore r sem d ptr)
  | createdOnly {sem : Nat} {k₁ : Kernel} {L₁ : HeadAddr → List Node}
      (hnew : SemCreated k L r sem k₁ L₁) (hfull : (k₁.pool .semDescriptor).size = 0) :
      SemOpened k L r (k₁.setRetvalue r DSOS_ESEMAPHOREOPEN) L₁

theorem semaphoreAlloc_created (hc : Tidy k L) {id c : Int}
    (h : k.semaphoreAlloc id c = some (sem, k₁)) :
    Created .semaphore k L sem (k₁.append .semaphoresList ⟨.semaphore, sem⟩)
        (Function.update L .semaphoresList (L .semaphoresList ++ [⟨.semaphore, sem⟩])) ∧
      k₁.semaphore = Function.update k.semaphore sem ⟨id, c⟩ ∧ k₁.resource = k.resource := by
  unfold semaphoreAlloc at h
  cases hnew : k.newItem .semaphore with
  | none =>
    rw [hnew] at h
    cases h
  | some new =>
    obtain ⟨i, k₂⟩ := new
    rw [hnew] at h
    cases h
    have hf := newItem_fresh hc.strung.pooled hnew
    refine ⟨created_of_newItem (t := .semaphore) hc.strung (hc.tied _)
      (by decide : Regular .semaphore) hnew rfl, ?_, ?_⟩
    · show Function.update k₂.semaphore sem ⟨id, c⟩ = _
      rw [hf.eq]
    · show k₂.resource = _
      rw [hf.eq]

theorem semOpen_ok (hc : Coherent k L) (hr : k.running = some r) (h : internalSemOpen k = .ok k') :
    ∃ L', SemOpened k L r k' L' := by
  unfold internalSemOpen at h
  obtain ⟨r', hr', h⟩ := bind_eq_ok.mp h
  have hr' := deref_eq_ok.mp hr'
  rw [hr, Option.some.injEq] at hr'
  subst hr'
  have hs := hc.tidy.strung
  have hreg : Regular HeadAddr.semaphoresList.nodeKind := (by decide : Regular .semaphore)
  simp only at h
  split at h
  · cases h
    exact ⟨L, .refused⟩
  split at h
  · cases h
    exact ⟨L, .refused⟩
  split at h
  · cases h
    exact ⟨L, .refused⟩
  obtain ⟨found, hfound, h⟩ := bind_eq_ok.mp h
  cases found with
  | some sem =>
    simp only at h
    split at h
    · cases h
      exact ⟨L, .refused⟩
    · cases h
      have hsem := (hs.search_some (l := .semaphoresList) hreg hfound).1
      rcases openDescriptor_tied hs (hc.tidy.tied .semaphore) r sem DSOS_ESEMAPHOREOPEN with
        ⟨he, _⟩ | ⟨d, ptr, ha⟩
      · rw [he]
        exact ⟨L, .refused⟩
      · exact ⟨_, .opened hsem ha⟩
  | none =>
    simp only at h
    split at h
    · split at h
      · cases h
        exact ⟨L, .refused⟩
      · cases hnew : k.semaphoreAlloc (toInt (k.arg r 0)) (toInt (k.arg r 2 % 2 ^ 32)) with
        | none =>
          rw [hnew] at h
          cases h
          exact ⟨L, .refused⟩
        | some new =>
          obtain ⟨sem, k₁⟩ := new
          rw [hnew] at h
          obtain ⟨hcre, hfields, hres⟩ := semaphoreAlloc_created hc.tidy hnew
          obtain ⟨k₂, hk₂⟩ : ∃ k₂, k₁.append .semaphoresList ⟨.semaphore, sem⟩ = k₂ := ⟨_, rfl⟩
          rw [hk₂] at hcre
          simp only [hk₂] at h
          cases h
          have hsc : SemCreated k L r sem k₂ (Function.update L .semaphoresList
              (L .semaphoresList ++ [⟨.semaphore, sem⟩])) := by
            refine ⟨hcre, by omega, fun s hm he => ?_, ?_, ?_⟩
            · have hno := hs.search_none (l := .semaphoresList) hreg hfound hm
              simp only [decide_eq_false_iff_not] at hno
              exact hno he
            · rw [← hk₂]
              exact hfields
            · have hres₂ : k₂.resource = k.resource := by
                rw [← hk₂]
                exact hres
              rw [hcre.rest, hres₂]
          have hm : Moved k L (fun _ => True) _ _ :=
            moved_created (t := .semaphore) hc.tidy (by decide : Regular .semaphore) hcre trivial
          rcases openDescriptor_tied hm.woven.strung (hm.tied .semaphore) r sem DSOS_ESEMAPHOREOPEN
            with ⟨he, hsize⟩ | ⟨d, ptr, ha⟩
          · rw [he]
            exact ⟨_, .createdOnly hsc hsize⟩
          · exact ⟨_, .created hsc ha⟩
    · cases h
      exact ⟨L, .refused⟩

theorem SemOpened.moved (hc : Coherent k L) (h : SemOpened k L r k' L') :
    Moved k L (· = view k L) k' L' := by
  cases h with
  | refused => exact moved_setRetvalue hc.tidy rfl
  | opened hsem h => exact moved_added hc.tidy h hsem rfl
  | created hnew h =>
    have hm : Moved _ _ (· = view k L) _ _ :=
      moved_created (t := .semaphore) hc.tidy (by decide : Regular .semaphore) hnew.created rfl
    exact hm.trans (moved_added hm.tidy h (Created.listed hnew.created) hm.move)
  | createdOnly hnew _ =>
    have hm : Moved _ _ (· = view k L) _ _ :=
      moved_created (t := .semaphore) hc.tidy (by decide : Regular .semaphore) hnew.created rfl
    exact hm.trans (moved_setRetvalue hm.tidy hm.move)

/-! ## Waiting -/

/-- What `internal_semWait` does to the lists when the caller `r` blocks and `n` runs. -/
def waitLists (L : HeadAddr → List Node) (r sem ptr : Nat) (rest : List Node) :
    HeadAddr → List Node :=
  Function.update (Function.update (Function.update (Function.update L (.users .semaphore sem)
    ((L (.users .semaphore sem)).erase ⟨.semDescriptorPtr, ptr⟩)) (.waitingDescriptors sem)
      (L (.waitingDescriptors sem) ++ [⟨.semDescriptorPtr, ptr⟩])) .readyList rest) .waitingList
        (L .waitingList ++ [⟨.pcb, r⟩])

/-- Process `r` is blocked on `sem` and `n` runs. -/
structure SemBlocked (k : Kernel) (L : HeadAddr → List Node) (r sem ptr n : Nat)
    (rest : List Node) (k' : Kernel) : Prop where
  waiter : waiterOf k ptr = some r
  user : ⟨.semDescriptorPtr, ptr⟩ ∈ L (.users .semaphore sem)
  listed : ObjectListed L .semaphore sem
  ready : L .readyList = ⟨.pcb, n⟩ :: rest
  woven : Woven k k' (waitLists L r sem ptr rest)
  rest : k' = { k with lists := k'.lists, running := some n }

/-- The outcomes of `internal_semWait`. -/
inductive SemWaited (k : Kernel) (L : HeadAddr → List Node) (r : Nat) :
    Kernel → (HeadAddr → List Node) → Prop
  | refused : SemWaited k L r (k.setRetvalue r DSOS_ESEMAPHOREWAIT) L
  | granted {d sem : Nat} (hb : k.boundTo .semaphore r (toInt (k.arg r 0)) = .ok (some (d, sem)))
      (hcount : 0 < (k.semaphore sem).count) :
      SemWaited k L r
        ((k.modSemaphore sem fun s => { s with count := s.count - 1 }).setRetvalue r 0) L
  | blocked {d sem ptr n : Nat} {rest : List Node} {k' : Kernel}
      (hb : k.boundTo .semaphore r (toInt (k.arg r 0)) = .ok (some (d, sem)))
      (hcount : ¬ 0 < (k.semaphore sem).count) (hptr : (k.descriptor .semaphore d).ptr = some ptr)
      (h : SemBlocked k L r sem ptr n rest k') :
      SemWaited k L r k' (waitLists L r sem ptr rest)

/-- The first register does not hold the number of an open semaphore of `r`. -/
def NoSemFd (k : Kernel) (r : Nat) : Prop :=
  fdOutOfBounds (toInt (k.arg r 0)) MAX_NUM_SEMDESCRIPTORS_PER_PROCESS = true ∨
    k.boundTo .semaphore r (toInt (k.arg r 0)) = .ok none

/-- The first register holds the number of an open descriptor `d` of `r` on `sem`. -/
structure SemFd (k : Kernel) (r d sem : Nat) : Prop where
  inBounds : ¬ fdOutOfBounds (toInt (k.arg r 0)) MAX_NUM_SEMDESCRIPTORS_PER_PROCESS = true
  bound : k.boundTo .semaphore r (toInt (k.arg r 0)) = .ok (some (d, sem))

/-- The file descriptor is that of an open descriptor `d` of `r` on the semaphore `s`. -/
structure ValidFd (k : Kernel) (r : Nat) (fd : Int) (d s : Nat) : Prop where
  inBounds : 0 ≤ fd ∧ fd ≤ MAX_NUM_SEMDESCRIPTORS_PER_PROCESS
  bound : k.boundTo .semaphore r fd = .ok (some (d, s))

theorem semFd_setCall (hnum : num = DSOS_CALL_SEMWAIT ∨ num = DSOS_CALL_SEMPOST)
    (h : ValidFd k r (toInt (args.getD 0 0)) d sem) : SemFd (k.setCall r num args) r d sem := by
  have harg : (k.setCall r num args).arg r 0 = args.getD 0 0 := by
    rcases hnum with rfl | rfl <;> exact arg_setCall (by decide)
  refine ⟨?_, ?_⟩
  · rw [harg]
    have hbounds := h.inBounds
    simp only [fdOutOfBounds, decide_eq_true_eq]
    omega
  · rw [harg, boundTo_setCall]
    exact h.bound

theorem SemFd.not_noSemFd (h : SemFd k r d sem) : ¬ NoSemFd k r := by
  rintro (hout | hnone)
  · exact h.inBounds hout
  · rw [h.bound] at hnone
    cases hnone

/-- The register leads to one descriptor and one semaphore. -/
theorem SemFd.unique {d' s : Nat} (h' : SemFd k r d' s) (h : SemFd k r d sem) :
    d' = d ∧ s = sem := by
  have hsame := h'.bound.symm.trans h.bound
  simpa using hsame

theorem semWait_cases (hc : Coherent k L) (hr : k.running = some r)
    (h : internalSemWait k = .ok k') :
    (NoSemFd k r ∧ k' = k.setRetvalue r DSOS_ESEMAPHOREWAIT) ∨ ∃ d sem, SemFd k r d sem ∧
      ((0 < (k.semaphore sem).count ∧ k' =
          (k.modSemaphore sem fun s => { s with count := s.count - 1 }).setRetvalue r 0) ∨
        (¬ 0 < (k.semaphore sem).count ∧ ∃ ptr n rest,
          (k.descriptor .semaphore d).ptr = some ptr ∧ SemBlocked k L r sem ptr n rest k')) := by
  unfold internalSemWait at h
  obtain ⟨r', hr', h⟩ := bind_eq_ok.mp h
  have hr' := deref_eq_ok.mp hr'
  rw [hr, Option.some.injEq] at hr'
  subst hr'
  have hs := hc.tidy.strung
  simp only at h
  split at h
  · next hout =>
    cases h
    exact .inl ⟨.inl hout, rfl⟩
  next hin =>
  obtain ⟨found, hb, h⟩ := bind_eq_ok.mp h
  cases found with
  | none =>
    cases h
    exact .inl ⟨.inr hb, rfl⟩
  | some bound =>
    obtain ⟨d, sem⟩ := bound
    simp only at h
    split at h
    · next hcount =>
      cases h
      exact .inr ⟨d, sem, ⟨hin, hb⟩, .inl ⟨hcount, rfl⟩⟩
    · next hcount =>
      obtain ⟨hm, _, ho⟩ := boundTo_listed hs hb
      obtain ⟨ptr, hptr, hback, hu, hlisted⟩ := Coherent.pointer_listed hc hr hm ho
      have hu : (⟨.semDescriptorPtr, ptr⟩ : Node) ∈ L (.users .semaphore sem) := hu
      rw [hptr] at h
      simp only at h
      have hreg : Regular (HeadAddr.users .semaphore sem).nodeKind :=
        regular_pointerKind .semaphore
      have hregw := regular_waitingDescriptors sem
      have hw₁ := (Woven.refl hs).detach (l := .users .semaphore sem) hreg hu
      have hu₁ := hs.detach_unlinked (l := .users .semaphore sem) hreg hu
      have hout₁ : ∀ l, l.nodeKind = .semDescriptorPtr → (⟨.semDescriptorPtr, ptr⟩ : Node) ∉
          Function.update L (.users .semaphore sem)
            ((L (.users .semaphore sem)).erase ⟨.semDescriptorPtr, ptr⟩) l := by
        intro l hl hx
        obtain ⟨hx, hno⟩ := (mem_erase_update (hs.nodup hreg)).mp hx
        have hregl : Regular l.nodeKind := by rw [hl]; decide
        exact hno ⟨hs.apart hregl (j := .users .semaphore sem) hreg hx hu, rfl⟩
      have hw₂ := hw₁.append (l := .waitingDescriptors sem) (x := ⟨.semDescriptorPtr, ptr⟩) hregw rfl
        (hs.allocated (l := .users .semaphore sem) hreg hu) hu₁ hout₁
      rw [Function.update_of_ne (by simp)] at hw₂
      obtain ⟨L₂, hL₂⟩ : ∃ L₂, Function.update (Function.update L (.users .semaphore sem)
        ((L (.users .semaphore sem)).erase ⟨.semDescriptorPtr, ptr⟩)) (.waitingDescriptors sem)
          (L (.waitingDescriptors sem) ++ [⟨.semDescriptorPtr, ptr⟩]) = L₂ := ⟨_, rfl⟩
      rw [hL₂] at hw₂
      have hL₂' : ∀ l, l.nodeKind = .pcb → L₂ l = L l := by
        intro l hl
        have h₁ : l ≠ .waitingDescriptors sem := fun he => by rw [he] at hl; cases hl
        have h₂ : l ≠ .users .semaphore sem := fun he => by rw [he] at hl; cases hl
        rw [← hL₂, Function.update_of_ne h₁, Function.update_of_ne h₂]
      obtain ⟨⟨n, k₃⟩, hd, h⟩ := bind_eq_ok.mp h
      obtain ⟨rest, hready, hk₃, hw₃⟩ := hw₂.detachFirst_ok (l := .readyList) regular_pcb hd
      rw [hL₂' .readyList rfl] at hready
      have hra : Allocated k₃ .pcb r := by
        rw [hk₃]
        exact hc.sound.placed.live_of_running hr
      have hout₃ : ∀ l, l.nodeKind = .pcb → (⟨.pcb, r⟩ : Node) ∉
          Function.update L₂ .readyList rest l := by
        intro l hl hx
        have hout := (hc.running_unlinked hr).2
        by_cases he : l = .readyList
        · rw [he, Function.update_self] at hx
          exact hout .readyList rfl (by rw [hready]; exact List.mem_cons_of_mem _ hx)
        · rw [Function.update_of_ne he, hL₂' l hl] at hx
          exact hout l hl hx
      have hw₄ := hw₃.append (l := .waitingList) (x := ⟨.pcb, r⟩) regular_pcb rfl hra
        (hw₃.strung.loose ⟨.pcb, r⟩ rfl hra (hw₃.strung.unlisted hout₃)) hout₃
      rw [Function.update_of_ne (by decide), hL₂' .waitingList rfl, ← hL₂] at hw₄
      have howner := (hc.tidy.tied .semaphore).owner r d hm
      have hwaiter : waiterOf k ptr = some r := by
        unfold waiterOf
        rw [hback, Option.bind_some, howner]
      cases h
      refine .inr ⟨d, sem, ⟨hin, hb⟩, .inr ⟨hcount, ptr, n, rest, hptr, ?_⟩⟩
      refine ⟨hwaiter, hu, hlisted, hready, hw₄.congr rfl rfl, ?_⟩
      rw [hk₃]
      rfl

theorem semWait_ok (hc : Coherent k L) (hr : k.running = some r) (h : internalSemWait k = .ok k') :
    ∃ L', SemWaited k L r k' L' := by
  rcases semWait_cases hc hr h with ⟨_, rfl⟩ | ⟨d, sem, hfd, ⟨hcount, rfl⟩ |
    ⟨hcount, ptr, n, rest, hptr, hblocked⟩⟩
  · exact ⟨L, .refused⟩
  · exact ⟨L, .granted hfd.bound hcount⟩
  · exact ⟨_, .blocked hfd.bound hcount hptr hblocked⟩

theorem waitLists_of_ne {rest : List Node} {l : HeadAddr} (h₁ : l ≠ .users .semaphore sem)
    (h₂ : l ≠ .waitingDescriptors sem) (h₃ : l ≠ .readyList) (h₄ : l ≠ .waitingList) :
    waitLists L r sem ptr rest l = L l := by
  unfold waitLists
  rw [Function.update_of_ne h₄, Function.update_of_ne h₃, Function.update_of_ne h₂,
    Function.update_of_ne h₁]

@[simp]
theorem waitLists_users {rest : List Node} {s : Nat} :
    waitLists L r sem ptr rest (.users .semaphore s) =
      if s = sem then (L (.users .semaphore sem)).erase ⟨.semDescriptorPtr, ptr⟩
      else L (.users .semaphore s) := by
  by_cases hs : s = sem <;> simp [waitLists, hs]

@[simp]
theorem waitLists_waiting {rest : List Node} {s : Nat} :
    waitLists L r sem ptr rest (.waitingDescriptors s) =
      if s = sem then L (.waitingDescriptors sem) ++ [⟨.semDescriptorPtr, ptr⟩]
      else L (.waitingDescriptors s) := by
  by_cases hs : s = sem <;> simp [waitLists, hs]

/-- A pointer that waits is still in a list of its semaphore. -/
theorem listed_waitLists {rest : List Node} {t : Table} {o p : Nat} (hn : (L (.users .semaphore sem)).Nodup)
    (h : PointerListed L t o p) : PointerListed (waitLists L r sem ptr rest) t o p := by
  rcases h with h | ⟨rfl, h⟩
  · by_cases ht : t = .semaphore
    · subst ht
      by_cases ho : o = sem
      · subst ho
        by_cases hp : p = ptr
        · subst hp
          exact .inr ⟨rfl, by simp [Table.pointerKind]⟩
        · refine .inl ?_
          rw [waitLists_users, if_pos rfl, hn.mem_erase_iff]
          exact ⟨fun he => hp (congrArg Node.idx he), h⟩
      · refine .inl ?_
        rwa [waitLists_users, if_neg ho]
    · refine .inl ?_
      rwa [waitLists_of_ne (by simp [ht]) (by simp) (by simp) (by simp)]
  · refine .inr ⟨rfl, ?_⟩
    rw [waitLists_waiting]
    split
    · next ho =>
      subst ho
      exact List.mem_append_left _ h
    · exact h

/-- The table after a process has blocked. -/
theorem SemBlocked.view_eq {rest : List Node} (h : SemBlocked k L r sem ptr n rest k') :
    view k' (waitLists L r sem ptr rest) = (view k L).waitForPost r sem := by
  have hready : (view k L).ready = n :: rest.map Node.idx := by simp [view, h.ready]
  rw [h.rest]
  show { view k (waitLists L r sem ptr rest) with running := some n } = _
  unfold waitLists
  rw [view_waiting, view_ready, view_waiters, view_hidden (l := .users .semaphore sem) id, List.map_append,
    List.map_append]
  unfold ProcessTable.waitForPost ProcessTable.park ProcessTable.runNext
  simp only [hready, List.map_cons, List.map_nil, List.head?_cons, List.tail_cons, h.waiter]
  rfl

theorem SemWaited.moved (hc : Coherent k L) (h : SemWaited k L r k' L') :
    Moved k L (Handled (view k L) r DSOS_CALL_SEMWAIT) k' L' := by
  cases h with
  | refused => exact moved_setRetvalue hc.tidy (.still (by decide))
  | granted hb hcount =>
    refine moved_same hc.tidy rfl rfl rfl rfl (fun q => timer_setRetvalue q) ?_
    rw [view_setRetvalue]
    exact .still (by decide)
  | @blocked d sem ptr n rest _ _ _ _ h =>
    have hn := hc.tidy.strung.nodup (l := .users .semaphore sem) (regular_pointerKind .semaphore)
    refine ⟨h.woven, fun l hl => ?_, fun t => ?_, fun i hi => ?_, fun q => ?_, ?_⟩
    · exact waitLists_of_ne (ne_of_irregular hl (regular_pointerKind .semaphore))
        (ne_of_irregular hl (regular_waitingDescriptors sem)) (ne_of_irregular hl regular_pcb)
        (ne_of_irregular hl regular_pcb)
    · refine tied_kept (hc.tidy.tied t) (by rw [h.rest]) (by rw [h.rest]) (by rw [h.rest])
        (by rw [h.rest]) (fun p x hx => ?_) (fun o p hl => listed_waitLists hn hl) fun o x hx => ?_
      · rwa [waitLists_of_ne (by simp) (by simp) (by simp) (by simp)] at hx
      · have hx' : x ∈ L (.users t o) := by
          by_cases ht : t = .semaphore
          · subst ht
            rw [waitLists_users] at hx
            split at hx
            · next ho =>
              subst ho
              exact List.mem_of_mem_erase hx
            · exact hx
          · rwa [waitLists_of_ne (by simp [ht]) (by simp) (by simp) (by simp)] at hx
        have hobj := (hc.tidy.tied t).housed o x hx'
        unfold ObjectListed at hobj ⊢
        rwa [waitLists_of_ne] <;> cases t <;> simp [objects]
    · rw [waitLists_of_ne (by simp) (by simp) (by simp) (by simp)]
      rw [h.rest] at hi
      exact hc.tidy.timers i hi
    · rw [h.rest]
      exact hc.tidy.unset q
    · rw [h.view_eq]
      exact .semBlock sem (by simp [view, h.ready])

/-! ## Posting -/

/-- What `internal_semPost` does to the lists when it wakes `p`. -/
def postLists (L : HeadAddr → List Node) (p sem ptr : Nat) (rest : List Node) :
    HeadAddr → List Node :=
  Function.update (Function.update (Function.update (Function.update L (.waitingDescriptors sem)
    rest) .waitingList ((L .waitingList).erase ⟨.pcb, p⟩)) .readyList
      (L .readyList ++ [⟨.pcb, p⟩])) (.users .semaphore sem)
        (L (.users .semaphore sem) ++ [⟨.semDescriptorPtr, ptr⟩])

/-- The first process `p` that waits for `sem` has been awakened. -/
structure SemWoken (k : Kernel) (L : HeadAddr → List Node) (p sem ptr : Nat) (rest : List Node)
    (k' : Kernel) : Prop where
  waiter : waiterOf k ptr = some p
  first : L (.waitingDescriptors sem) = ⟨.semDescriptorPtr, ptr⟩ :: rest
  blocked : ⟨.pcb, p⟩ ∈ L .waitingList
  listed : ObjectListed L .semaphore sem
  woven : Woven k k' (postLists L p sem ptr rest)
  rest : k' = { k with lists := k'.lists }

/-- The outcomes of `internal_semPost`. -/
inductive SemPosted (k : Kernel) (L : HeadAddr → List Node) (r : Nat) :
    Kernel → (HeadAddr → List Node) → Prop
  | refused : SemPosted k L r (k.setRetvalue r DSOS_ESEMAPHOREPOST) L
  | posted {d sem : Nat} (hb : k.boundTo .semaphore r (toInt (k.arg r 0)) = .ok (some (d, sem)))
      (hno : 0 < (k.semaphore sem).count + 1 → L (.waitingDescriptors sem) = []) :
      SemPosted k L r
        ((k.modSemaphore sem fun s => { s with count := (k.semaphore sem).count + 1 }).setRetvalue
          r 0) L
  | woken {d p sem ptr : Nat} {rest : List Node} {k' : Kernel}
      (hb : k.boundTo .semaphore r (toInt (k.arg r 0)) = .ok (some (d, sem)))
      (hpos : 0 < (k.semaphore sem).count + 1) (h : SemWoken k L p sem ptr rest k') :
      SemPosted k L r k' (postLists L p sem ptr rest)

/-- The list operations of a post that wakes `p`. -/
theorem post_woven {p : Nat} {rest : List Node} (hs : Strung Regular Retained k L)
    (hL : L (.waitingDescriptors sem) = ⟨.semDescriptorPtr, ptr⟩ :: rest)
    (hpw : ⟨.pcb, p⟩ ∈ L .waitingList)
    (hk₁ : k₁ = k.detach (.waitingDescriptors sem) ⟨.semDescriptorPtr, ptr⟩)
    (hw₁ : Woven k k₁ (Function.update L (.waitingDescriptors sem) rest)) :
    Woven k (((k₁.detach .waitingList ⟨.pcb, p⟩).append .readyList ⟨.pcb, p⟩).append
      (.users .semaphore sem) ⟨.semDescriptorPtr, ptr⟩) (postLists L p sem ptr rest) := by
  have hregw := regular_waitingDescriptors sem
  have hregu : Regular (HeadAddr.users .semaphore sem).nodeKind := regular_pointerKind .semaphore
  have hmem : (⟨.semDescriptorPtr, ptr⟩ : Node) ∈ L (.waitingDescriptors sem) := by
    rw [hL]
    exact List.mem_cons_self
  have hu₁ : Unlinked k₁.lists ⟨.semDescriptorPtr, ptr⟩ := by
    rw [hk₁]
    exact hs.detach_unlinked (l := .waitingDescriptors sem) hregw hmem
  have hout₁ : ∀ l, l.nodeKind = .semDescriptorPtr → (⟨.semDescriptorPtr, ptr⟩ : Node) ∉
      Function.update L (.waitingDescriptors sem) rest l := by
    intro l hl hx
    have hn := hs.nodup (l := .waitingDescriptors sem) hregw
    rw [hL, List.nodup_cons] at hn
    by_cases he : l = .waitingDescriptors sem
    · rw [he, Function.update_self] at hx
      exact hn.1 hx
    · rw [Function.update_of_ne he] at hx
      have hreg : Regular l.nodeKind := by rw [hl]; decide
      exact he (hs.apart hreg (j := .waitingDescriptors sem) hregw hx hmem)
  have hwait₁ : Function.update L (.waitingDescriptors sem) rest .waitingList = L .waitingList :=
    Function.update_of_ne (by simp) _ _
  -- `p` goes from the waiting list to the ready list
  have hw₂ := hw₁.detach (l := .waitingList) (x := ⟨.pcb, p⟩) regular_pcb (by rwa [hwait₁])
  have hp₂ := hw₁.strung.detach_unlinked (l := .waitingList) (x := ⟨.pcb, p⟩) regular_pcb
    (by rwa [hwait₁])
  have hpa : Allocated (k₁.detach .waitingList ⟨.pcb, p⟩) .pcb p := by
    rw [hk₁]
    exact hs.allocated (l := .waitingList) regular_pcb hpw
  have hpout : ∀ l, l.nodeKind = .pcb → (⟨.pcb, p⟩ : Node) ∉
      Function.update (Function.update L (.waitingDescriptors sem) rest) .waitingList
        ((Function.update L (.waitingDescriptors sem) rest .waitingList).erase ⟨.pcb, p⟩) l := by
    intro l hl hx
    obtain ⟨hx, hno⟩ := (mem_erase_update (hw₁.strung.nodup (l := .waitingList) regular_pcb)).mp hx
    have hreg : Regular l.nodeKind := by rw [hl]; exact regular_pcb
    exact hno ⟨hw₁.strung.apart hreg (j := .waitingList) regular_pcb hx (by rwa [hwait₁]), rfl⟩
  have hw₃ := hw₂.append (l := .readyList) (x := ⟨.pcb, p⟩) regular_pcb rfl hpa hp₂ hpout
  -- the pointer has no links all the while
  have hu₂ : Unlinked (k₁.detach .waitingList ⟨.pcb, p⟩).lists ⟨.semDescriptorPtr, ptr⟩ := by
    refine hw₁.strung.unlinked_detach (l := .waitingList) regular_pcb (by rwa [hwait₁])
      (fun hx => ?_) hu₁
    cases hw₁.strung.kind .waitingList _ regular_pcb hx
  have hu₃ : Unlinked ((k₁.detach .waitingList ⟨.pcb, p⟩).append .readyList ⟨.pcb, p⟩).lists
      ⟨.semDescriptorPtr, ptr⟩ := by
    refine hw₂.strung.unlinked_append (l := .readyList) regular_pcb hp₂ (hpout .readyList rfl)
      (fun hx => ?_) (by simp) hu₂
    cases hw₂.strung.kind .readyList _ regular_pcb hx
  have hw₄ := hw₃.append (l := .users .semaphore sem) (x := ⟨.semDescriptorPtr, ptr⟩) hregu rfl
    (by rw [hk₁]; exact hs.allocated (l := .waitingDescriptors sem) hregw hmem) hu₃ fun l hl hx => by
      have h₁ : l ≠ .readyList := fun he => by rw [he] at hl; cases hl
      have h₂ : l ≠ .waitingList := fun he => by rw [he] at hl; cases hl
      rw [Function.update_of_ne h₁, Function.update_of_ne h₂] at hx
      exact hout₁ l hl hx
  simpa [postLists, Function.update_of_ne] using hw₄

theorem semPost_cases (hc : Coherent k L) (hr : k.running = some r)
    (h : internalSemPost k = .ok k') :
    (NoSemFd k r ∧ k' = k.setRetvalue r DSOS_ESEMAPHOREPOST) ∨ ∃ d sem, SemFd k r d sem ∧
      (k.semaphore sem).count + 1 < 2 ^ 31 ∧
      (((0 < (k.semaphore sem).count + 1 → L (.waitingDescriptors sem) = []) ∧ k' =
          (k.modSemaphore sem fun s => { s with count := (k.semaphore sem).count + 1 }).setRetvalue
            r 0) ∨
        (0 < (k.semaphore sem).count + 1 ∧ ∃ p ptr rest, SemWoken k L p sem ptr rest k')) := by
  unfold internalSemPost at h
  obtain ⟨r', hr', h⟩ := bind_eq_ok.mp h
  have hr' := deref_eq_ok.mp hr'
  rw [hr, Option.some.injEq] at hr'
  subst hr'
  have hs := hc.tidy.strung
  simp only at h
  split at h
  · next hout =>
    cases h
    exact .inl ⟨.inl hout, rfl⟩
  next hin =>
  obtain ⟨found, hb, h⟩ := bind_eq_ok.mp h
  cases found with
  | none =>
    cases h
    exact .inl ⟨.inr hb, rfl⟩
  | some bound =>
    obtain ⟨d, sem⟩ := bound
    simp only at h
    obtain ⟨count, hsum, h⟩ := bind_eq_ok.mp h
    obtain ⟨⟨_, hfits⟩, rfl⟩ := addInt_eq_ok.mp hsum
    refine .inr ⟨d, sem, ⟨hin, hb⟩, hfits, ?_⟩
    have hregw := regular_waitingDescriptors sem
    split at h
    · next hpos =>
      split at h
      · next hsize =>
        -- somebody waits
        obtain ⟨hm, _, ho⟩ := boundTo_listed hs hb
        obtain ⟨_, _, _, _, hlisted⟩ := Coherent.pointer_listed hc hr hm ho
        obtain ⟨k₂, hk₂⟩ : ∃ k₂, (k.modSemaphore sem
          (fun s => { s with count := (k.semaphore sem).count + 1 })).modSemaphore sem
            (fun s => { s with count := s.count - 1 }) = k₂ := ⟨_, rfl⟩
        have hk₂' : k₂ = k := by
          rw [← hk₂]
          unfold modSemaphore
          simp only [Function.update_self, Function.update_idem, Int.add_sub_cancel]
          rw [Function.update_eq_self]
        simp only [hk₂, hk₂'] at h
        obtain ⟨⟨ptr, k₃⟩, hd, h⟩ := bind_eq_ok.mp h
        obtain ⟨rest, hL, hk₃, hw₃⟩ := (Woven.refl hs).detachFirst_ok
          (l := .waitingDescriptors sem) hregw hd
        obtain ⟨d', hd', h⟩ := bind_eq_ok.mp h
        have hd' : k.descriptorPtr .semaphore ptr = some d' := by
          have := deref_eq_ok.mp hd'
          rwa [hk₃] at this
        have hdesc : k₃.descriptor = k.descriptor := by rw [hk₃]; rfl
        have hmem : (⟨.semDescriptorPtr, ptr⟩ : Node) ∈ L (.waitingDescriptors sem) := by
          rw [hL]
          exact List.mem_cons_self
        obtain ⟨p, hp, hwp, _⟩ := hc.sound.awaiting.blocked sem (waiterOf k ptr)
          (List.mem_map.mpr ⟨_, hmem, rfl⟩)
        have hpcb : (k₃.descriptor .semaphore d').pcb = some p := by
          rw [hdesc, ← hwp]
          unfold waiterOf
          rw [hd', Option.bind_some]
        rw [hpcb] at h
        cases h
        have hpw : (⟨.pcb, p⟩ : Node) ∈ L .waitingList :=
          (mem_map_idx hs (l := .waitingList) regular_pcb).mp hp
        refine .inr ⟨hpos, p, ptr, rest, hwp, hL, hpw, hlisted, post_woven hs hL hpw hk₃ hw₃, ?_⟩
        rw [hk₃]
        rfl
      · next hsize =>
        cases h
        have hempty : L (.waitingDescriptors sem) = [] :=
          (hs.size_zero_iff (l := .waitingDescriptors sem) hregw).mp (Classical.not_not.mp hsize)
        exact .inl ⟨fun _ => hempty, rfl⟩
    · next hpos =>
      cases h
      exact .inl ⟨fun hp => absurd hp hpos, rfl⟩

theorem semPost_ok (hc : Coherent k L) (hr : k.running = some r) (h : internalSemPost k = .ok k') :
    ∃ L', SemPosted k L r k' L' := by
  rcases semPost_cases hc hr h with ⟨_, rfl⟩ | ⟨d, sem, hfd, _, ⟨hno, rfl⟩ |
    ⟨hpos, p, ptr, rest, hwoken⟩⟩
  · exact ⟨L, .refused⟩
  · exact ⟨L, .posted hfd.bound hno⟩
  · exact ⟨_, .woken hfd.bound hpos hwoken⟩

theorem postLists_of_ne {p : Nat} {rest : List Node} {l : HeadAddr}
    (h₁ : l ≠ .users .semaphore sem) (h₂ : l ≠ .waitingDescriptors sem) (h₃ : l ≠ .readyList)
    (h₄ : l ≠ .waitingList) : postLists L p sem ptr rest l = L l := by
  unfold postLists
  rw [Function.update_of_ne h₁, Function.update_of_ne h₃, Function.update_of_ne h₄,
    Function.update_of_ne h₂]

@[simp]
theorem postLists_users {p s : Nat} {rest : List Node} :
    postLists L p sem ptr rest (.users .semaphore s) =
      if s = sem then L (.users .semaphore sem) ++ [⟨.semDescriptorPtr, ptr⟩]
      else L (.users .semaphore s) := by
  by_cases hs : s = sem <;> simp [postLists, hs]

@[simp]
theorem postLists_waiting {p s : Nat} {rest : List Node} :
    postLists L p sem ptr rest (.waitingDescriptors s) =
      if s = sem then rest else L (.waitingDescriptors s) := by
  by_cases hs : s = sem <;> simp [postLists, hs]

/-- A pointer that is awakened is still in a list of its semaphore. -/
theorem listed_postLists {p : Nat} {rest : List Node} {t : Table} {o q : Nat}
    (hL : L (.waitingDescriptors sem) = ⟨.semDescriptorPtr, ptr⟩ :: rest)
    (h : PointerListed L t o q) : PointerListed (postLists L p sem ptr rest) t o q := by
  rcases h with h | ⟨rfl, h⟩
  · refine .inl ?_
    by_cases ht : t = .semaphore
    · subst ht
      rw [postLists_users]
      split
      · next ho =>
        subst ho
        exact List.mem_append_left _ h
      · exact h
    · rwa [postLists_of_ne (by simp [ht]) (by simp) (by simp) (by simp)]
  · by_cases ho : o = sem
    · subst ho
      rw [hL, List.mem_cons] at h
      rcases h with he | h
      · refine .inl ?_
        rw [postLists_users, if_pos rfl]
        exact List.mem_append_right _ (List.mem_singleton.mpr he)
      · refine .inr ⟨rfl, ?_⟩
        rwa [postLists_waiting, if_pos rfl]
    · refine .inr ⟨rfl, ?_⟩
      rwa [postLists_waiting, if_neg ho]

/-- The table after a process has been awakened. -/
theorem SemWoken.view_eq {p : Nat} {rest : List Node} (h : SemWoken k L p sem ptr rest k')
    (hs : Strung Regular Retained k L) :
    view k' (postLists L p sem ptr rest) = (view k L).post p sem := by
  have hw : ((L .waitingList).erase ⟨.pcb, p⟩).map Node.idx =
      ((L .waitingList).map Node.idx).erase p :=
    map_idx_erase hs (l := .waitingList) regular_pcb h.blocked
  have hwaiters : (view k L).waiters sem = some p :: rest.map fun x => waiterOf k x.idx := by
    show (L (.waitingDescriptors sem)).map (fun x => waiterOf k x.idx) = _
    rw [h.first, List.map_cons, h.waiter]
  rw [h.rest]
  show view k (postLists L p sem ptr rest) = _
  unfold postLists ProcessTable.post
  rw [view_hidden (l := .users .semaphore sem) id, view_ready, view_waiting, view_waiters, hw,
    hwaiters, List.map_append]
  rfl

theorem SemPosted.moved (hc : Coherent k L) (h : SemPosted k L r k' L') :
    Moved k L (Handled (view k L) r DSOS_CALL_SEMPOST) k' L' := by
  cases h with
  | refused => exact moved_setRetvalue hc.tidy (.still (by decide))
  | posted hb hno =>
    refine moved_same hc.tidy rfl rfl rfl rfl (fun q => timer_setRetvalue q) ?_
    rw [view_setRetvalue]
    exact .still (by decide)
  | @woken d p sem ptr rest _ _ _ h =>
    refine ⟨h.woven, fun l hl => ?_, fun t => ?_, fun i hi => ?_, fun q => ?_, ?_⟩
    · exact postLists_of_ne (ne_of_irregular hl (regular_pointerKind .semaphore))
        (ne_of_irregular hl (regular_waitingDescriptors sem)) (ne_of_irregular hl regular_pcb)
        (ne_of_irregular hl regular_pcb)
    · refine tied_kept (hc.tidy.tied t) (by rw [h.rest]) (by rw [h.rest]) (by rw [h.rest])
        (by rw [h.rest]) (fun p x hx => ?_) (fun o q hl => listed_postLists h.first hl)
        fun o x hx => ?_
      · rwa [postLists_of_ne (by simp) (by simp) (by simp) (by simp)] at hx
      · have hobj : ObjectListed L t o := by
          by_cases ht : t = .semaphore
          · subst ht
            rw [postLists_users] at hx
            split at hx
            · next ho =>
              rw [ho]
              exact h.listed
            · exact (hc.tidy.tied _).housed o x hx
          · rw [postLists_of_ne (by simp [ht]) (by simp) (by simp) (by simp)] at hx
            exact (hc.tidy.tied t).housed o x hx
        unfold ObjectListed at hobj ⊢
        rwa [postLists_of_ne] <;> cases t <;> simp [objects]
    · rw [postLists_of_ne (by simp) (by simp) (by simp) (by simp)]
      rw [h.rest] at hi
      exact hc.tidy.timers i hi
    · rw [h.rest]
      exact hc.tidy.unset q
    · rw [h.view_eq hc.tidy.strung]
      have hwaiters : (view k L).waiters sem =
          some p :: rest.map fun x => waiterOf k x.idx := by
        show (L (.waitingDescriptors sem)).map (fun x => waiterOf k x.idx) = _
        rw [h.first, List.map_cons, h.waiter]
      exact .semWake hwaiters

/-! ## Closing -/

/-- The outcomes of `internal_semClose`. -/
inductive SemClosed (k : Kernel) (L : HeadAddr → List Node) (r : Nat) :
    Kernel → (HeadAddr → List Node) → Prop
  | refused (hno : NoSemFd k r) : SemClosed k L r (k.setRetvalue r DSOS_ESEMAPHORECLOSE) L
  | closed {d sem ptr : Nat} {k₁ : Kernel}
      (hfd : SemFd k r d sem)
      (hptr : (k.descriptor .semaphore d).ptr = some ptr)
      (hm : ⟨.semDescriptor, d⟩ ∈ L (.opened .semaphore r))
      (hu : ⟨.semDescriptorPtr, ptr⟩ ∈ L (.users .semaphore sem))
      (h : Removed Regular Retained k L .semaphore r sem d ptr k₁)
      (hused : withClosed L .semaphore r sem d ptr (.users .semaphore sem) ≠ []) :
      SemClosed k L r
        ((k₁.modPcb r fun q => q.setFdCounter .semaphore (q.fdCounter .semaphore - 1)).setRetvalue
          r 0) (withClosed L .semaphore r sem d ptr)
  | destroyed {d sem ptr : Nat} {k₁ k₂ : Kernel} {L₂ : HeadAddr → List Node}
      (hfd : SemFd k r d sem)
      (hptr : (k.descriptor .semaphore d).ptr = some ptr)
      (hm : ⟨.semDescriptor, d⟩ ∈ L (.opened .semaphore r))
      (hu : ⟨.semDescriptorPtr, ptr⟩ ∈ L (.users .semaphore sem))
      (h : Removed Regular Retained k L .semaphore r sem d ptr k₁)
      (hd : Destroyed .semaphore
        (k₁.modPcb r fun q => q.setFdCounter .semaphore (q.fdCounter .semaphore - 1))
        (withClosed L .semaphore r sem d ptr) sem k₂ L₂) :
      SemClosed k L r (k₂.setRetvalue r 0) L₂

theorem semClose_ok (hc : Coherent k L) (hr : k.running = some r) (h : internalSemClose k = .ok k') :
    ∃ L', SemClosed k L r k' L' := by
  unfold internalSemClose at h
  obtain ⟨r', hr', h⟩ := bind_eq_ok.mp h
  have hr' := deref_eq_ok.mp hr'
  rw [hr, Option.some.injEq] at hr'
  subst hr'
  have hs := hc.tidy.strung
  simp only at h
  split at h
  · next hout =>
    cases h
    exact ⟨L, .refused (.inl hout)⟩
  next hin =>
  obtain ⟨found, hb, h⟩ := bind_eq_ok.mp h
  cases found with
  | none =>
    cases h
    exact ⟨L, .refused (.inr hb)⟩
  | some bound =>
    obtain ⟨d, sem⟩ := bound
    obtain ⟨hm, _, ho⟩ := boundTo_listed hs hb
    obtain ⟨ptr, hptr, _, hu, hlisted⟩ := Coherent.pointer_listed hc hr hm ho
    have hrem := unlist_removed hs (regular_descriptorKind .semaphore)
      (regular_pointerKind .semaphore) hm hu
    obtain ⟨k₁, hk₁⟩ : ∃ k₁, (((k.detach (.opened .semaphore r)
      ⟨Table.semaphore.descriptorKind, d⟩).detach (.users .semaphore sem)
        ⟨Table.semaphore.pointerKind, ptr⟩).releaseBlock Table.semaphore.descriptorKind
          d).releaseBlock Table.semaphore.pointerKind ptr = k₁ := ⟨_, rfl⟩
    rw [hk₁] at hrem
    simp only [closeDescriptor_eq hptr, hk₁] at h
    have hregu : Regular (HeadAddr.users .semaphore sem).nodeKind := regular_pointerKind .semaphore
    have hs₁ : Strung _ _ (k₁.modPcb r
        fun q => q.setFdCounter .semaphore (q.fdCounter .semaphore - 1)) _ :=
      hrem.strung.congr rfl rfl
    split at h
    · next hsize =>
      obtain ⟨k₂, hfree, h⟩ := bind_eq_ok.mp h
      cases h
      have hempty := (hs₁.size_zero_iff hregu).mp hsize
      have hlisted₁ : ObjectListed (withClosed L .semaphore r sem d ptr) .semaphore sem := by
        unfold ObjectListed
        rwa [withClosed_objects]
      exact ⟨_, .destroyed ⟨hin, hb⟩ hptr hm hu hrem (freeUnused_destroyed (t := .semaphore) hs₁
        (by decide : Regular .semaphore) hlisted₁ hempty hfree)⟩
    · next hsize =>
      cases h
      exact ⟨_, .closed ⟨hin, hb⟩ hptr hm hu hrem fun he => hsize ((hs₁.size_zero_iff hregu).mpr he)⟩

theorem SemClosed.moved (hc : Coherent k L) (h : SemClosed k L r k' L') :
    Moved k L (· = view k L) k' L' := by
  have hcounter : ∀ {k₁ : Kernel} {d sem ptr : Nat},
      ⟨.semDescriptor, d⟩ ∈ L (.opened .semaphore r) →
      (k.descriptor .semaphore d).ptr = some ptr →
      ⟨.semDescriptorPtr, ptr⟩ ∈ L (.users .semaphore sem) →
      Removed Regular Retained k L .semaphore r sem d ptr k₁ →
      Moved k L (· = view k L)
        (k₁.modPcb r fun q => q.setFdCounter .semaphore (q.fdCounter .semaphore - 1))
        (withClosed L .semaphore r sem d ptr) := by
    intro k₁ d sem ptr hm hptr hu hrem
    have hmoved : Moved _ _ (· = view k L) _ _ :=
      moved_removed hc.tidy hm hptr hu hrem rfl
    refine hmoved.trans (moved_same hmoved.tidy rfl rfl rfl rfl (fun q => ?_) ?_)
    · exact timer_modPcb (fun q => q.setFdCounter .semaphore (q.fdCounter .semaphore - 1))
        (fun _ => rfl) q
    · rw [view_setCounter (n := fun n => n - 1)]
      exact hmoved.move
  cases h with
  | refused => exact moved_setRetvalue hc.tidy rfl
  | closed _ hptr hm hu hrem hused =>
    have hmoved := hcounter hm hptr hu hrem
    exact hmoved.trans (moved_setRetvalue hmoved.tidy hmoved.move)
  | destroyed _ hptr hm hu hrem hd =>
    have hmoved := hcounter hm hptr hu hrem
    have hgone : Moved _ _ (· = view k L) _ _ :=
      moved_destroyed (t := .semaphore) hmoved.tidy (by decide : Regular .semaphore) hd hmoved.move
    exact (hmoved.trans hgone).trans (moved_setRetvalue hgone.tidy hgone.move)

end DisastrOS.Semaphore.Calls
