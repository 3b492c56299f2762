import DisastrOS.Process.Coherence

/-!
# Handles and their objects

Opening and closing descriptors, and creating and destroying the objects they are open
on, leave the process table as it is.
-/
namespace DisastrOS.Process.Handles

open DisastrOS.Machine
open DisastrOS.Machine.Kernel
open DisastrOS.Lists.Sequences
open DisastrOS.Lists.Wiring
open DisastrOS.Lists.RegularLists
open DisastrOS.Pool.Blocks
open DisastrOS.Descriptors.Bindings
open DisastrOS.Descriptors.Tables
open DisastrOS.Process.Table
open DisastrOS.Process.Steps
open DisastrOS.Process.View
open DisastrOS.Process.Coherence
open DisastrOS.Library.Outcome

variable {k k' k₁ k₂ : Kernel} {L L' : HeadAddr → List Node} {t t' : Table} {p r o d ptr : Nat}
  {v : Int} {move : ProcessTable → Prop}

/-! ## Descriptors -/

/-- The waiters of a semaphore have descriptors in use. -/
theorem waiterOf_congr (hs : Strung Regular Retained k L) (h : Tied .semaphore k L)
    (hd : ∀ d, Allocated k .semDescriptor d → k'.descriptor .semaphore d = k.descriptor .semaphore d)
    (hp : ∀ ptr, Allocated k .semDescriptorPtr ptr →
      k'.descriptorPtr .semaphore ptr = k.descriptorPtr .semaphore ptr) {sem : Nat} {x : Node}
    (hx : x ∈ L (.waitingDescriptors sem)) : waiterOf k' x.idx = waiterOf k x.idx := by
  have hnode := hs.node_eq (l := .waitingDescriptors sem) (regular_waitingDescriptors sem) hx
  rw [hnode] at hx
  have ha := hs.allocated (l := .waitingDescriptors sem) (regular_waitingDescriptors sem) hx
  obtain ⟨d, hback, hda, _⟩ := h.pointed x.idx ha
  have hback : k.descriptorPtr .semaphore x.idx = some d := hback
  unfold waiterOf
  rw [hp _ ha, hback, Option.bind_some, Option.bind_some, hd d hda]

theorem control_setFdCounter (q : PCB) (t : Table) (n v : Int) :
    View.control { q.setFdCounter t n with syscallRetvalue := v } = View.control q := by
  cases t <;> rfl

theorem timer_setFdCounter (q : PCB) (t : Table) (n : Int) :
    (q.setFdCounter t n).timer = q.timer := by
  cases t <;> rfl

theorem view_setCounter {t : Table} {n : Int → Int} :
    view (k.modPcb r fun q => q.setFdCounter t (n (q.fdCounter t))) L = view k L :=
  view_modPcb_same fun _ => by cases t <;> rfl

/-- The table does not show descriptors that nobody waits with. -/
theorem view_added (hs : Strung Regular Retained k L) (h : Tied .semaphore k L)
    (ha : Added Regular Retained k L t p o d ptr k') :
    view k' (withOpened L t p o d ptr) = view k L := by
  have hdesc : ∀ d', Allocated k .semDescriptor d' →
      k'.descriptor .semaphore d' = k.descriptor .semaphore d' := by
    intro d' hd'
    rw [ha.descriptor]
    by_cases he : t = .semaphore
    · subst he
      rw [Function.update_self]
      exact Function.update_of_ne (fun he : d' = d => ha.freshDescriptor (he ▸ hd')) _ _
    · rw [Function.update_of_ne (Ne.symm he)]
  have hback : ∀ ptr', Allocated k .semDescriptorPtr ptr' →
      k'.descriptorPtr .semaphore ptr' = k.descriptorPtr .semaphore ptr' := by
    intro ptr' hp'
    rw [ha.descriptorPtr]
    by_cases he : t = .semaphore
    · subst he
      rw [Function.update_self]
      exact Function.update_of_ne (fun he : ptr' = ptr => ha.freshPointer (he ▸ hp')) _ _
    · rw [Function.update_of_ne (Ne.symm he)]
  have hpcb : k'.pool .pcb = k.pool .pcb :=
    ha.pool .pcb (by cases t <;> decide) (by cases t <;> decide)
  refine view_congr (fun _ => allocated_of_pool hpcb) (fun q => ?_) (by rw [ha.rest])
    (fun _ _ => by rw [ha.rest]) (fun _ _ _ => by rw [ha.rest])
    (fun sem x hx => waiterOf_congr hs h hdesc hback hx) (by rw [ha.rest]) (by rw [ha.rest])
    (by rw [ha.rest]) fun l hl => ?_
  · rw [ha.pcb, Function.update_apply]
    split
    · next he =>
      rw [he]
      exact control_setFdCounter _ _ _ _
    · rfl
  · have h₁ : l ≠ .opened t p := fun he => by rw [he] at hl; exact hl
    have h₂ : l ≠ .users t o := fun he => by rw [he] at hl; exact hl
    unfold withOpened
    rw [Function.update_of_ne h₂, Function.update_of_ne h₁]

/-- A descriptor has been opened. -/
theorem moved_added (hc : Tidy k L) (ha : Added Regular Retained k L t p o d ptr k')
    (ho : ObjectListed L t o) (hmove : move (view k L)) :
    Moved k L move k' (withOpened L t p o d ptr) := by
  refine ⟨Added.woven (Woven.refl hc.strung) ha, fun l hl => ?_, fun t' => ?_, fun i hi => ?_,
    fun q => ?_, ?_⟩
  · unfold withOpened
    rw [Function.update_of_ne (ne_of_irregular (j := .users t o) hl (regular_pointerKind t)),
      Function.update_of_ne (ne_of_irregular (j := .opened t p) hl (regular_descriptorKind t))]
  · by_cases he : t' = t
    · subst he
      exact tied_added hc.strung (hc.tied t') ha ho
    · exact tied_same (hc.tied t') (same_added ha he)
  · have hpool : k'.pool .timerItem = k.pool .timerItem :=
      ha.pool _ (by cases t <;> decide) (by cases t <;> decide)
    unfold withOpened
    rw [Function.update_of_ne (by simp), Function.update_of_ne (by simp)]
    exact hc.timers i ((allocated_of_pool hpool).mp hi)
  · rw [ha.pcb, Function.update_apply]
    split
    · exact (timer_setFdCounter _ _ _).trans (hc.unset p)
    · exact hc.unset q
  · rwa [view_added hc.strung (hc.tied _) ha]

theorem view_removed (hr : Removed Regular Retained k L t p o d ptr k') :
    view k' (withClosed L t p o d ptr) = view k L := by
  have hpcb : k'.pool .pcb = k.pool .pcb :=
    hr.pool .pcb (by cases t <;> decide) (by cases t <;> decide)
  refine view_congr (fun _ => allocated_of_pool hpcb) (fun _ => by rw [hr.rest]) (by rw [hr.rest])
    (fun _ _ => by rw [hr.rest]) (fun _ _ _ => by rw [hr.rest])
    (fun _ _ _ => by rw [hr.rest]; rfl) (by rw [hr.rest]) (by rw [hr.rest])
    (by rw [hr.rest]) fun l hl => ?_
  have h₁ : l ≠ .opened t p := fun he => by rw [he] at hl; exact hl
  have h₂ : l ≠ .users t o := fun he => by rw [he] at hl; exact hl
  unfold withClosed
  rw [Function.update_of_ne h₂, Function.update_of_ne h₁]

/-- A descriptor has been closed. -/
theorem moved_removed (hc : Tidy k L) (hm : ⟨t.descriptorKind, d⟩ ∈ L (.opened t p))
    (hptr : (k.descriptor t d).ptr = some ptr) (hu : ⟨t.pointerKind, ptr⟩ ∈ L (.users t o))
    (hr : Removed Regular Retained k L t p o d ptr k') (hmove : move (view k L)) :
    Moved k L move k' (withClosed L t p o d ptr) := by
  refine ⟨Removed.woven (Woven.refl hc.strung) hr, fun l hl => ?_, fun t' => ?_, fun i hi => ?_,
    fun q => ?_, ?_⟩
  · unfold withClosed
    rw [Function.update_of_ne (ne_of_irregular (j := .users t o) hl (regular_pointerKind t)),
      Function.update_of_ne (ne_of_irregular (j := .opened t p) hl (regular_descriptorKind t))]
  · by_cases he : t' = t
    · subst he
      exact tied_removed hc.strung (hc.tied t') hm hptr hu hr
    · exact tied_same (hc.tied t') (same_removed hc.strung hr he)
  · have hpool : k'.pool .timerItem = k.pool .timerItem :=
      hr.pool _ (by cases t <;> decide) (by cases t <;> decide)
    unfold withClosed
    rw [Function.update_of_ne (by simp), Function.update_of_ne (by simp)]
    exact hc.timers i ((allocated_of_pool hpool).mp hi)
  · rw [hr.rest]
    exact hc.unset q
  · rwa [view_removed hr]

/-- The running process is not blocked, so the pointer of its descriptor is among the
users of the object. -/
theorem Coherent.pointer_listed (hc : Coherent k L) (hr : k.running = some r)
    (hm : ⟨t.descriptorKind, d⟩ ∈ L (.opened t r)) (ho : (k.descriptor t d).object = some o) :
    ∃ ptr, (k.descriptor t d).ptr = some ptr ∧ k.descriptorPtr t ptr = some d ∧
      ⟨t.pointerKind, ptr⟩ ∈ L (.users t o) ∧ ObjectListed L t o := by
  have hs := hc.tidy.strung
  obtain ⟨o', ptr, ho', hptr, hback, hl⟩ :=
    (hc.tidy.tied t).bound d (allocated_of_opened hs hm)
  rw [ho, Option.some.injEq] at ho'
  subst ho'
  rcases hl with hl | ⟨rfl, hl⟩
  · exact ⟨ptr, hptr, hback, hl, (hc.tidy.tied t).housed o _ hl⟩
  · have howner := (hc.tidy.tied .semaphore).owner r d hm
    have hwaiter : waiterOf k ptr = some r := by
      unfold waiterOf
      rw [hback, Option.bind_some, howner]
    obtain ⟨p, hp, he, _⟩ := hc.sound.awaiting.blocked o (some r)
      (List.mem_map.mpr ⟨_, hl, hwaiter⟩)
    cases he
    exact absurd hp (hc.sound.placed.not_mem_of_running hr).2.1

/-! ## Objects -/

/-- The new object `o` is at the end of the global list. -/
structure Created (t : Table) (k : Kernel) (L : HeadAddr → List Node) (o : Nat) (k' : Kernel)
    (L' : HeadAddr → List Node) : Prop where
  fresh : ¬ Allocated k (objects t).nodeKind o
  woven : Woven k k' L'
  lists : L' = Function.update L (objects t) (L (objects t) ++ [⟨(objects t).nodeKind, o⟩])
  allocated : ∀ kind i, Allocated k' kind i ↔
    (kind = (objects t).nodeKind ∧ i = o) ∨ Allocated k kind i
  pool : ∀ kind, kind ≠ (objects t).nodeKind → k'.pool kind = k.pool kind
  rest : k' = { k with
    lists := k'.lists, pool := k'.pool, resource := k'.resource, semaphore := k'.semaphore }

theorem objects_ne_pcb : (objects t).nodeKind ≠ .pcb := by
  cases t <;> exact fun he => nomatch he

/-- An object that is not in use has no users. -/
theorem Tied.unused (h : Tied t k L) (hs : Strung Regular Retained k L)
    (ht : Regular (objects t).nodeKind) (ho : ¬ Allocated k (objects t).nodeKind o) :
    L (.users t o) = [] := by
  cases hL : L (.users t o) with
  | nil => rfl
  | cons x xs =>
    have hl := h.housed o x (by rw [hL]; exact List.mem_cons_self)
    exact absurd (hs.allocated (l := objects t) ht hl) ho

/-- What all allocation functions of objects do, up to the fields they set. -/
theorem created_of_newItem (hs : Strung Regular Retained k L) (htied : Tied t k L)
    (ht : Regular (objects t).nodeKind) (hnew : k.newItem (objects t).nodeKind = some (o, k₁))
    (hrest : k₂ = { k₁ with resource := k₂.resource, semaphore := k₂.semaphore }) :
    Created t k L o ((k₂.initList (.users t o)).append (objects t) ⟨(objects t).nodeKind, o⟩)
      (Function.update L (objects t) (L (objects t) ++ [⟨(objects t).nodeKind, o⟩])) := by
  have hf := newItem_fresh hs.pooled hnew
  have hw₁ := (Woven.refl hs).newItem ht hf
  have hlists₂ : k₂.lists = k₁.lists := by rw [hrest]
  have hpool₂ : k₂.pool = k₁.pool := by rw [hrest]
  have hw₂ : Woven k k₂ _ := hw₁.congr hlists₂ hpool₂
  have hw₃ := hw₂.initList (l := .users t o) (regular_pointerKind t)
    (by cases t <;> exact fun he => nomatch he)
  rw [← Tied.unused htied hs ht hf.fresh, Function.update_eq_self] at hw₃
  have ha₃ : Allocated (k₂.initList (.users t o)) (objects t).nodeKind o :=
    (allocated_congr hpool₂).mpr ((hf.allocated _ _).mpr (.inl ⟨rfl, rfl⟩))
  have hu₃ : Unlinked (k₂.initList (.users t o)).lists ⟨(objects t).nodeKind, o⟩ := by
    show Unlinked (listInit k₂.lists _) _
    rw [hlists₂]
    exact unlinked_fresh hf
  have hw₄ := hw₃.append (l := objects t) (x := ⟨(objects t).nodeKind, o⟩) ht rfl ha₃ hu₃
    fun l hl => by
      have hreg : Regular l.nodeKind := by rw [hl]; exact ht
      exact hs.fresh_unlisted hf.fresh hreg
  refine ⟨hf.fresh, hw₄, rfl, fun kind i => ?_, fun kind hne => ?_, ?_⟩
  · show Allocated k₂ kind i ↔ _
    rw [allocated_congr hpool₂]
    exact hf.allocated kind i
  · show k₂.pool kind = _
    rw [hpool₂, fresh_pool hf hne]
  · show ({ k₂ with lists := _ } : Kernel) = _
    rw [hrest, hf.eq]
    rfl

theorem objects_hidden : ¬ Shown (objects t) := by
  cases t <;> exact id

theorem view_created (h : Created t k L o k' L') : view k' L' = view k L := by
  have hpool : k'.pool .pcb = k.pool .pcb := h.pool .pcb objects_ne_pcb.symm
  rw [h.lists, view_hidden objects_hidden, h.rest]
  exact view_congr (fun _ => allocated_of_pool hpool) (fun _ => rfl) rfl (fun _ _ => rfl)
    (fun _ _ _ => rfl) (fun _ _ _ => rfl) rfl rfl rfl fun _ _ => rfl

theorem same_created (h : Created t k L o k' L') (t' : Table) : SameTable t' k L k' L' := by
  have hdk : t'.descriptorKind ≠ (objects t).nodeKind := by cases t <;> cases t' <;> decide
  have hpk : t'.pointerKind ≠ (objects t).nodeKind := by cases t <;> cases t' <;> decide
  refine ⟨by rw [h.rest], by rw [h.rest], h.pool _ hdk, h.pool _ hpk, fun p x hx => ?_, fun o' => ?_,
    fun o' => ?_, fun o' ho' => ?_⟩
  · rwa [h.lists, Function.update_of_ne opened_ne_objects] at hx
  · rw [h.lists, Function.update_of_ne users_ne_objects]
  · rw [h.lists, Function.update_of_ne (by cases t <;> simp [objects])]
  · unfold ObjectListed at ho' ⊢
    rw [h.lists]
    exact mem_append_update.mpr (.inl ho')

theorem Created.listed (h : Created t k L o k' L') : ObjectListed L' t o := by
  unfold ObjectListed
  rw [h.lists, Function.update_self]
  exact List.mem_append_right _ List.mem_cons_self

/-- An object has been created. -/
theorem moved_created (hc : Tidy k L) (ht : Regular (objects t).nodeKind)
    (h : Created t k L o k' L') (hmove : move (view k L)) : Moved k L move k' L' := by
  refine ⟨h.woven, fun l hl => ?_, fun t' => tied_same (hc.tied t') (same_created h t'), fun i hi => ?_, fun q => ?_,
    ?_⟩
  · rw [h.lists, Function.update_of_ne (ne_of_irregular hl ht)]
  · have hpool : k'.pool .timerItem = k.pool .timerItem :=
      h.pool .timerItem (by cases t <;> decide)
    rw [h.lists, Function.update_of_ne (by cases t <;> simp [objects])]
    exact hc.timers i ((allocated_of_pool hpool).mp hi)
  · rw [h.rest]
    exact hc.unset q
  · rwa [view_created h]

/-- The object `o` is out of the global list and free again. -/
structure Destroyed (t : Table) (k : Kernel) (L : HeadAddr → List Node) (o : Nat) (k' : Kernel)
    (L' : HeadAddr → List Node) : Prop where
  unused : L (.users t o) = []
  woven : Woven k k' L'
  lists : L' = Function.update L (objects t) ((L (objects t)).erase ⟨(objects t).nodeKind, o⟩)
  allocated : ∀ kind i, Allocated k' kind i ↔
    ¬ (kind = (objects t).nodeKind ∧ i = o) ∧ Allocated k kind i
  pool : ∀ kind, kind ≠ (objects t).nodeKind → k'.pool kind = k.pool kind
  rest : k' = { k with lists := k'.lists, pool := k'.pool }

/-- `List_detach` and the free function, for an object without users. -/
theorem freeUnused_destroyed (hs : Strung Regular Retained k L)
    (ht : Regular (objects t).nodeKind) (ho : ObjectListed L t o) (hu : L (.users t o) = [])
    (h : (k.detach (objects t) ⟨(objects t).nodeKind, o⟩).freeUnused (.users t o)
      (objects t).nodeKind o = .ok k') :
    Destroyed t k L o k'
      (Function.update L (objects t) ((L (objects t)).erase ⟨(objects t).nodeKind, o⟩)) := by
  unfold freeUnused at h
  split at h
  · have hw := (Woven.refl hs).detach (l := objects t) ht ho
    have ha : Allocated (k.detach (objects t) ⟨(objects t).nodeKind, o⟩) (objects t).nodeKind o :=
      hs.allocated (l := objects t) ht ho
    have hr := releaseBlock_returned _ _ hw.strung.pooled ha
    cases h
    refine ⟨hu, hw.releaseBlock ht ha fun l hl => ?_, rfl, fun kind i => ?_, fun kind hne => ?_, rfl⟩
    · have hreg : Regular l.nodeKind := by rw [hl]; exact ht
      exact hs.threaded.not_mem_erased ht ho hreg
    · exact hr.allocated kind i
    · rw [releaseBlock_pool _ _ hne]
      rfl
  · cases h

/-- An object has been destroyed. -/
theorem moved_destroyed (hc : Tidy k L) (ht : Regular (objects t).nodeKind)
    (h : Destroyed t k L o k' L') (hmove : move (view k L)) : Moved k L move k' L' := by
  have hview : view k' L' = view k L := by
    have hpool : k'.pool .pcb = k.pool .pcb := h.pool .pcb objects_ne_pcb.symm
    rw [h.lists, view_hidden objects_hidden]
    exact view_of_rest hpool h.rest
  have hdk : ∀ t' : Table, t'.descriptorKind ≠ (objects t).nodeKind := fun t' => by
    cases t <;> cases t' <;> decide
  have hpk : ∀ t' : Table, t'.pointerKind ≠ (objects t).nodeKind := fun t' => by
    cases t <;> cases t' <;> decide
  refine ⟨h.woven, fun l hl => ?_, fun t' => ?_, fun i hi => ?_, fun q => ?_, hview ▸ hmove⟩
  · rw [h.lists, Function.update_of_ne (ne_of_irregular hl ht)]
  · have hlists : ∀ l, l ≠ objects t → L' l = L l := fun l hl => by
      rw [h.lists, Function.update_of_ne hl]
    refine tied_kept (hc.tied t') (by rw [h.rest]) (by rw [h.rest]) (h.pool _ (hdk t'))
      (h.pool _ (hpk t')) (fun p x hx => ?_) (fun o' ptr hl => ?_) fun o' x hx => ?_
    · rwa [hlists _ opened_ne_objects] at hx
    · unfold PointerListed
      rwa [hlists _ users_ne_objects, hlists _ (by cases t <;> simp [objects])]
    · rw [hlists _ users_ne_objects] at hx
      have ho' := (hc.tied t').housed o' x hx
      unfold ObjectListed at ho' ⊢
      rw [h.lists]
      refine (mem_erase_update (hc.strung.nodup (l := objects t) ht)).mpr ⟨ho', fun he => ?_⟩
      -- an object with users is not the one that has been destroyed
      have ht' : t' = t := by
        cases t <;> cases t' <;> first | rfl | exact absurd he.1 (by simp [objects])
      subst ht'
      have ho : o' = o := congrArg Node.idx he.2
      subst ho
      rw [h.unused] at hx
      cases hx
  · rw [h.lists, Function.update_of_ne (by cases t <;> simp [objects])]
    exact hc.timers i ((allocated_of_pool (h.pool _ (by cases t <;> decide))).mp hi)
  · rw [h.rest]
    exact hc.unset q

end DisastrOS.Process.Handles
