import DisastrOS.Machine.Resources
import DisastrOS.Process.Handles

/-!
# Resource calls on coherent kernels

What opening, closing and destroying a resource do, with all their outcomes. None of
them moves a process.
-/
namespace DisastrOS.Resource.Calls

open DisastrOS.Machine
open DisastrOS.Machine.Kernel
open DisastrOS.Lists.Sequences
open DisastrOS.Lists.Wiring
open DisastrOS.Lists.RegularLists
open DisastrOS.Pool.Blocks
open DisastrOS.Descriptors.Bindings
open DisastrOS.Descriptors.Tables
open DisastrOS.Process.Steps
open DisastrOS.Process.View
open DisastrOS.Process.Coherence
open DisastrOS.Process.Handles
open DisastrOS.Library.Outcome

variable {k k' k₁ : Kernel} {L L' : HeadAddr → List Node} {r d res ptr : Nat}

/-! ## Opening -/

/-- The resource `res` has been created by process `r`. -/
structure ResCreated (k : Kernel) (L : HeadAddr → List Node) (r res : Nat) (k' : Kernel)
    (L' : HeadAddr → List Node) : Prop where
  created : Created .resource k L res k' L'
  id_new : ∀ s, ⟨.resource, s⟩ ∈ L .resourcesList → (k.resource s).id ≠ toInt (k.arg r 0)
  resource : k'.resource = Function.update k.resource res
    ⟨toInt (k.arg r 0), toInt (k.arg r 1)⟩
  rest : k' = { k with lists := k'.lists, pool := k'.pool, resource := k'.resource }

/-- The outcomes of `internal_openResource`. -/
inductive ResOpened (k : Kernel) (L : HeadAddr → List Node) (r : Nat) :
    Kernel → (HeadAddr → List Node) → Prop
  | refused (v : Int) : ResOpened k L r (k.setRetvalue r v) L
  | opened {res d ptr : Nat} {k' : Kernel} (hres : ObjectListed L .resource res)
      (h : Added Regular Retained k L .resource r res d ptr k') :
      ResOpened k L r k' (withOpened L .resource r res d ptr)
  | created {res d ptr : Nat} {k₁ k' : Kernel} {L₁ : HeadAddr → List Node}
      (hnew : ResCreated k L r res k₁ L₁)
      (h : Added Regular Retained k₁ L₁ .resource r res d ptr k') :
      ResOpened k L r k' (withOpened L₁ .resource r res d ptr)
  | createdOnly {res : Nat} {k₁ : Kernel} {L₁ : HeadAddr → List Node}
      (hnew : ResCreated k L r res k₁ L₁) (v : Int) :
      ResOpened k L r (k₁.setRetvalue r v) L₁

/-- An object can be allocated no matter what the processes are. -/
theorem newItem_modPcb (kind : Kind) (p : Nat) (f : PCB → PCB) :
    (k.modPcb p f).newItem kind = (k.newItem kind).map fun x => (x.1, x.2.modPcb p f) := by
  unfold newItem getBlock
  have hpool : (k.modPcb p f).pool = k.pool := rfl
  rw [hpool]
  cases ((k.pool kind).getBlock) with
  | mk b a =>
    cases b with
    | none => rfl
    | some b => rfl

/-- The end of `internal_openResource`: the same steps as in the other open calls, in
another order. A resource of the right type that may be shared is refused for want of a
descriptor only. -/
theorem bind_ok {found : Option Nat} {type openMode : Int} (hs : Strung Regular Retained k L)
    (h : internalOpenResource.bind k r found type openMode = .ok k') :
    (∃ v < 0, k' = k.setRetvalue r v ∧ ∀ res, found = some res → (k.resource res).type = type →
      ¬ (hasFlag openMode DSOS_EXCL ∧ (k.head (.users .resource res)).size ≠ 0) →
      (k.pool .descriptor).size = 0) ∨
    ∃ res d ptr, found = some res ∧ Added Regular Retained k L .resource r res d ptr k' := by
  unfold internalOpenResource.bind at h
  cases found with
  | none =>
    cases h
    exact .inl ⟨_, by decide, rfl, fun _ he => nomatch he⟩
  | some res =>
    simp only at h
    split at h
    · next htype =>
      cases h
      refine .inl ⟨_, by decide, rfl, fun res' he ht => absurd ?_ htype⟩
      rwa [Option.some.inj he]
    split at h
    · next hexcl =>
      cases h
      refine .inl ⟨_, by decide, rfl, fun res' he _ hshared => absurd ?_ hshared⟩
      rwa [← Option.some.inj he]
    unfold descriptorAlloc at h
    cases hnew : k.newItem Table.resource.descriptorKind with
    | none =>
      rw [hnew] at h
      cases h
      exact .inl ⟨_, by decide, rfl, fun _ _ _ _ => (newItem_eq_none hs.pooled).mp hnew⟩
    | some new =>
      obtain ⟨d, k₁⟩ := new
      rw [hnew] at h
      simp only at h
      obtain ⟨next, hnext, h⟩ := bind_eq_ok.mp h
      obtain ⟨_, rfl⟩ := addInt_eq_ok.mp hnext
      have hf := newItem_fresh hs.pooled hnew
      have hpcb : k₁.pcb = k.pcb := by rw [hf.eq]
      obtain ⟨k₂, hk₂⟩ : ∃ k₂, k₁.setDescriptor .resource d
        { pcb := some r, object := some res, fd := (k.pcb r).lastFd,
          ptr := (k₁.descriptor .resource d).ptr } = k₂ := ⟨_, rfl⟩
      have hpcb₂ : k₂.pcb = k.pcb := by rw [← hk₂]; exact hpcb
      simp only [hk₂] at h
      unfold descriptorPtrAlloc at h
      rw [newItem_modPcb] at h
      cases hnew₂ : k₂.newItem Table.resource.pointerKind with
      | none =>
        rw [hnew₂] at h
        obtain ⟨ptr, hptr, h⟩ := bind_eq_ok.mp h
        have hptr := deref_eq_ok.mp hptr
        simp [setDescriptor] at hptr
      | some new₂ =>
        obtain ⟨ptr, k₃⟩ := new₂
        have ha := openDescriptor_added hs (regular_descriptorKind .resource)
          (regular_pointerKind .resource) r res 0 hnew (hk₂ ▸ hnew₂)
        refine .inr ⟨res, d, ptr, rfl, ?_⟩
        rw [hnew₂] at h
        obtain ⟨ptr', hptr', h⟩ := bind_eq_ok.mp h
        have hptr' := deref_eq_ok.mp hptr'
        have heq : k' = k.openDescriptor .resource r res 0 := by
          simp [setDescriptor] at hptr'
          subst hptr'
          unfold openDescriptor descriptorAlloc descriptorPtrAlloc
          simp only [hnew]
          have hfd : (k.pcb r).fdCounter .resource = (k.pcb r).lastFd := rfl
          simp only [hfd, hk₂, hnew₂]
          simp only [pure, Except.pure, Except.ok.injEq, Option.map_some, Option.getD_some] at h
          rw [← h]
          have hf₂ := newItem_fresh (pooled_congr (by rw [← hk₂]; rfl) hf.pooled) hnew₂
          have hpcb₃ : k₂.pcb = k₃.pcb := by rw [hf₂.eq]
          have hfd₃ : (k₃.descriptor .resource d).fd = (k₃.pcb r).lastFd := by
            rw [← hpcb₃, hpcb₂, hf₂.eq, ← hk₂]
            simp [setDescriptor]
          simp only [setRetvalue, modPcb, append, Kernel.insert, setDescriptor, setDescriptorPtr,
            PCB.setFdCounter, PCB.fdCounter, Function.update_idem, Function.update_self, head]
          rw [hfd₃, hpcb₃, Int.add_sub_cancel]
          rfl
        rw [heq]
        exact ha

theorem resourceAlloc_created (hc : Tidy k L) {id type : Int}
    (h : k.resourceAlloc id type = some (res, k₁)) :
    Created .resource k L res (k₁.append .resourcesList ⟨.resource, res⟩)
        (Function.update L .resourcesList (L .resourcesList ++ [⟨.resource, res⟩])) ∧
      k₁.resource = Function.update k.resource res ⟨id, type⟩ ∧ k₁.semaphore = k.semaphore := by
  unfold resourceAlloc at h
  cases hnew : k.newItem .resource with
  | none =>
    rw [hnew] at h
    cases h
  | some new =>
    obtain ⟨i, k₂⟩ := new
    rw [hnew] at h
    cases h
    have hf := newItem_fresh hc.strung.pooled hnew
    refine ⟨created_of_newItem (t := .resource) hc.strung (hc.tied _)
      (by decide : Regular .resource) hnew rfl, ?_, ?_⟩
    · show Function.update k₂.resource res ⟨id, type⟩ = _
      rw [hf.eq]
    · show k₂.semaphore = _
      rw [hf.eq]

theorem openResource_ok (hc : Coherent k L) (hr : k.running = some r)
    (h : internalOpenResource k = .ok k') : ∃ L', ResOpened k L r k' L' := by
  unfold internalOpenResource at h
  obtain ⟨r', hr', h⟩ := bind_eq_ok.mp h
  have hr' := deref_eq_ok.mp hr'
  rw [hr, Option.some.injEq] at hr'
  subst hr'
  have hs := hc.tidy.strung
  have hreg : Regular HeadAddr.resourcesList.nodeKind := (by decide : Regular .resource)
  obtain ⟨found, hfound, h⟩ := bind_eq_ok.mp h
  simp only at h
  split at h
  · -- the resource is to be created
    split at h
    · cases h
      exact ⟨L, .refused _⟩
    · next hnone =>
      have hfound : k.resourceListById .resourcesList (toInt (k.arg r 0)) = .ok none := by
        cases found with
        | none => exact hfound
        | some res => exact absurd rfl hnone
      obtain ⟨⟨res, k₁⟩, hnew, h⟩ := bind_eq_ok.mp h
      obtain ⟨hcre, hfields, hsem⟩ := resourceAlloc_created hc.tidy (deref_eq_ok.mp hnew)
      obtain ⟨k₂, hk₂⟩ : ∃ k₂, k₁.append .resourcesList ⟨.resource, res⟩ = k₂ := ⟨_, rfl⟩
      rw [hk₂] at hcre
      simp only [hk₂] at h
      have hrc : ResCreated k L r res k₂ (Function.update L .resourcesList
          (L .resourcesList ++ [⟨.resource, res⟩])) := by
        refine ⟨hcre, fun s hm he => ?_, ?_, ?_⟩
        · have hno := hs.search_none (l := .resourcesList) hreg hfound hm
          simp only [decide_eq_false_iff_not] at hno
          exact hno he
        · rw [← hk₂]
          exact hfields
        · have hsem₂ : k₂.semaphore = k.semaphore := by
            rw [← hk₂]
            exact hsem
          rw [hcre.rest, hsem₂]
      have hm : Moved k L (fun _ => True) _ _ :=
        moved_created (t := .resource) hc.tidy hreg hcre trivial
      rcases bind_ok hm.woven.strung h with ⟨v, _, rfl, _⟩ | ⟨res', d, ptr, he, ha⟩
      · exact ⟨_, .createdOnly hrc v⟩
      · cases he
        exact ⟨_, .created hrc ha⟩
  · rcases bind_ok hs h with ⟨v, _, rfl, _⟩ | ⟨res, d, ptr, he, ha⟩
    · exact ⟨L, .refused v⟩
    · rw [he] at hfound
      exact ⟨_, .opened (hs.search_some (l := .resourcesList) hreg hfound).1 ha⟩

theorem ResOpened.moved (hc : Coherent k L) (h : ResOpened k L r k' L') :
    Moved k L (· = view k L) k' L' := by
  cases h with
  | refused => exact moved_setRetvalue hc.tidy rfl
  | opened hres h => exact moved_added hc.tidy h hres rfl
  | created hnew h =>
    have hm : Moved _ _ (· = view k L) _ _ :=
      moved_created (t := .resource) hc.tidy (by decide : Regular .resource) hnew.created rfl
    exact hm.trans (moved_added hm.tidy h (Created.listed hnew.created) hm.move)
  | createdOnly hnew v =>
    have hm : Moved _ _ (· = view k L) _ _ :=
      moved_created (t := .resource) hc.tidy (by decide : Regular .resource) hnew.created rfl
    exact hm.trans (moved_setRetvalue hm.tidy hm.move)

/-! ## Closing and destroying -/

/-- The outcomes of `internal_closeResource`. -/
inductive ResClosed (k : Kernel) (L : HeadAddr → List Node) (r : Nat) :
    Kernel → (HeadAddr → List Node) → Prop
  | refused : ResClosed k L r (k.setRetvalue r DSOS_ERESOURCECLOSE) L
  | closed {d res ptr : Nat} {k₁ : Kernel} (hm : ⟨.descriptor, d⟩ ∈ L (.opened .resource r))
      (hptr : (k.descriptor .resource d).ptr = some ptr)
      (hu : ⟨.descriptorPtr, ptr⟩ ∈ L (.users .resource res))
      (h : Removed Regular Retained k L .resource r res d ptr k₁) :
      ResClosed k L r (k₁.setRetvalue r 0) (withClosed L .resource r res d ptr)

theorem closeResource_ok (hc : Coherent k L) (hr : k.running = some r)
    (h : internalCloseResource k = .ok k') : ∃ L', ResClosed k L r k' L' := by
  unfold internalCloseResource at h
  obtain ⟨r', hr', h⟩ := bind_eq_ok.mp h
  have hr' := deref_eq_ok.mp hr'
  rw [hr, Option.some.injEq] at hr'
  subst hr'
  have hs := hc.tidy.strung
  obtain ⟨found, hfound, h⟩ := bind_eq_ok.mp h
  cases found with
  | none =>
    cases h
    exact ⟨L, .refused⟩
  | some d =>
    obtain ⟨hm, _⟩ := hs.search_some (l := .opened .resource r) (regular_descriptorKind .resource)
      hfound
    simp only at h
    obtain ⟨res, hres, h⟩ := bind_eq_ok.mp h
    obtain ⟨ptr, hptr, h⟩ := bind_eq_ok.mp h
    have hres : (k.descriptor .resource d).object = some res := deref_eq_ok.mp hres
    have hptr : (k.descriptor .resource d).ptr = some ptr := deref_eq_ok.mp hptr
    obtain ⟨ptr', hptr', _, hu, _⟩ := Coherent.pointer_listed hc hr hm hres
    rw [hptr, Option.some.injEq] at hptr'
    subst hptr'
    cases h
    exact ⟨_, .closed hm hptr hu (unlist_removed hs (regular_descriptorKind .resource)
      (regular_pointerKind .resource) hm hu)⟩

theorem ResClosed.moved (hc : Coherent k L) (h : ResClosed k L r k' L') :
    Moved k L (· = view k L) k' L' := by
  cases h with
  | refused => exact moved_setRetvalue hc.tidy rfl
  | closed hm hptr hu h =>
    have hmoved : Moved _ _ (· = view k L) _ _ :=
      moved_removed hc.tidy hm hptr hu h rfl
    exact hmoved.trans (moved_setRetvalue hmoved.tidy hmoved.move)

/-- The outcomes of `internal_destroyResource`. -/
inductive ResDestroyed (k : Kernel) (L : HeadAddr → List Node) (r : Nat) :
    Kernel → (HeadAddr → List Node) → Prop
  | refused (v : Int) : ResDestroyed k L r (k.setRetvalue r v) L
  | destroyed {res : Nat} {k₁ : Kernel} {L₁ : HeadAddr → List Node}
      (h : Destroyed .resource k L res k₁ L₁) : ResDestroyed k L r (k₁.setRetvalue r 0) L₁

theorem destroyResource_ok (hc : Coherent k L) (hr : k.running = some r)
    (h : internalDestroyResource k = .ok k') : ∃ L', ResDestroyed k L r k' L' := by
  unfold internalDestroyResource at h
  obtain ⟨r', hr', h⟩ := bind_eq_ok.mp h
  have hr' := deref_eq_ok.mp hr'
  rw [hr, Option.some.injEq] at hr'
  subst hr'
  have hs := hc.tidy.strung
  have hreg : Regular HeadAddr.resourcesList.nodeKind := (by decide : Regular .resource)
  obtain ⟨found, hfound, h⟩ := bind_eq_ok.mp h
  cases found with
  | none =>
    cases h
    exact ⟨L, .refused _⟩
  | some res =>
    obtain ⟨hm, _⟩ := hs.search_some (l := .resourcesList) hreg hfound
    simp only at h
    split at h
    · cases h
      exact ⟨L, .refused _⟩
    · next hsize =>
      obtain ⟨k₁, hfree, h⟩ := bind_eq_ok.mp h
      cases h
      have hempty := (hs.size_zero_iff (l := .users .resource res)
        (regular_pointerKind .resource)).mp (Classical.not_not.mp hsize)
      exact ⟨_, .destroyed (freeUnused_destroyed (t := .resource) hs hreg hm hempty hfree)⟩

theorem ResDestroyed.moved (hc : Coherent k L) (h : ResDestroyed k L r k' L') :
    Moved k L (· = view k L) k' L' := by
  cases h with
  | refused => exact moved_setRetvalue hc.tidy rfl
  | destroyed h =>
    have hmoved : Moved _ _ (· = view k L) _ _ :=
      moved_destroyed (t := .resource) hc.tidy (by decide : Regular .resource) h rfl
    exact hmoved.trans (moved_setRetvalue hmoved.tidy hmoved.move)

end DisastrOS.Resource.Calls
