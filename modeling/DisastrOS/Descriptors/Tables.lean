import DisastrOS.Descriptors.Bindings
import DisastrOS.Lists.RegularLists

/-!
# The descriptor tables in every state

A process can die without closing what it has opened, so descriptors may be in use that
no process lists. `Tied` is what still holds: descriptors and pointers in use belong
together in pairs, and the pointer of a pair is in a list of the descriptor's object.
-/
namespace DisastrOS.Descriptors.Tables

open DisastrOS.Machine
open DisastrOS.Lists.Wiring
open DisastrOS.Lists.RegularLists
open DisastrOS.Pool.Blocks
open DisastrOS.Descriptors.Bindings
open DisastrOS.Library.Outcome

/-- The global list of the objects of a table. -/
def objects : Table → HeadAddr
  | .resource => .resourcesList
  | .semaphore => .semaphoresList
  | .mq => .messageQueuesList

/-- The object `o` is in the global list. -/
def ObjectListed (L : HeadAddr → List Node) (t : Table) (o : Nat) : Prop :=
  ⟨(objects t).nodeKind, o⟩ ∈ L (objects t)

/-- Descriptors and pointers in use are paired, each pair is on one object, and an object
that has users is in the global list. -/
structure Tied (t : Table) (k : Kernel) (L : HeadAddr → List Node) : Prop where
  bound : ∀ d, Allocated k t.descriptorKind d →
    ∃ o ptr, (k.descriptor t d).object = some o ∧ (k.descriptor t d).ptr = some ptr ∧
      k.descriptorPtr t ptr = some d ∧ PointerListed L t o ptr
  pointed : ∀ ptr, Allocated k t.pointerKind ptr →
    ∃ d, k.descriptorPtr t ptr = some d ∧ Allocated k t.descriptorKind d ∧
      (k.descriptor t d).ptr = some ptr
  owner : ∀ p d, ⟨t.descriptorKind, d⟩ ∈ L (.opened t p) → (k.descriptor t d).pcb = some p
  level : (k.pool t.descriptorKind).size = (k.pool t.pointerKind).size
  housed : ∀ o x, x ∈ L (.users t o) → ObjectListed L t o

/-- Nothing about the table `t` has changed but that descriptors may have been lost. -/
structure SameTable (t : Table) (k : Kernel) (L : HeadAddr → List Node) (k' : Kernel)
    (L' : HeadAddr → List Node) : Prop where
  descriptor : k'.descriptor t = k.descriptor t
  descriptorPtr : k'.descriptorPtr t = k.descriptorPtr t
  descriptorPool : k'.pool t.descriptorKind = k.pool t.descriptorKind
  pointerPool : k'.pool t.pointerKind = k.pool t.pointerKind
  opened : ∀ p x, x ∈ L' (.opened t p) → x ∈ L (.opened t p)
  users : ∀ o, L' (.users t o) = L (.users t o)
  waiting : ∀ o, L' (.waitingDescriptors o) = L (.waitingDescriptors o)
  object : ∀ o, ObjectListed L t o → ObjectListed L' t o

variable {base k k' : Kernel} {L L' : HeadAddr → List Node} {t t' : Table} {p o d ptr : Nat}
  {err fd : Int}

/-- A table stays tied when its pointers stay with their objects. -/
theorem tied_kept (h : Tied t k L) (hd : k'.descriptor t = k.descriptor t)
    (hp : k'.descriptorPtr t = k.descriptorPtr t)
    (hdk : k'.pool t.descriptorKind = k.pool t.descriptorKind)
    (hpk : k'.pool t.pointerKind = k.pool t.pointerKind)
    (hopened : ∀ p x, x ∈ L' (.opened t p) → x ∈ L (.opened t p))
    (hlisted : ∀ o ptr, PointerListed L t o ptr → PointerListed L' t o ptr)
    (hhoused : ∀ o x, x ∈ L' (.users t o) → ObjectListed L' t o) : Tied t k' L' := by
  refine ⟨fun d ha => ?_, fun ptr ha => ?_, fun p d hm => ?_, ?_, hhoused⟩
  · obtain ⟨o, ptr, ho, hptr, hback, hlist⟩ := h.bound d ((allocated_of_pool hdk).mp ha)
    rw [hd, hp]
    exact ⟨o, ptr, ho, hptr, hback, hlisted o ptr hlist⟩
  · obtain ⟨d, hback, hda, hptr⟩ := h.pointed ptr ((allocated_of_pool hpk).mp ha)
    rw [hd, hp]
    exact ⟨d, hback, (allocated_of_pool hdk).mpr hda, hptr⟩
  · rw [hd]
    exact h.owner p d (hopened p _ hm)
  · rw [hdk, hpk, h.level]

/-- A table depends on its descriptors, its pools and its lists. -/
theorem tied_same (h : Tied t k L) (hs : SameTable t k L k' L') : Tied t k' L' := by
  refine tied_kept h hs.descriptor hs.descriptorPtr hs.descriptorPool hs.pointerPool hs.opened
    (fun o ptr hl => ?_) fun o x hx => ?_
  · unfold PointerListed
    rwa [hs.users, hs.waiting]
  · rw [hs.users] at hx
    exact hs.object o (h.housed o x hx)

/-! ## Pairs -/

theorem pointer_allocated (h : Strung Regular Retained k L) (hl : PointerListed L t o ptr) :
    Allocated k t.pointerKind ptr := by
  rcases hl with hl | ⟨rfl, hl⟩
  · exact h.allocated (l := .users t o) (regular_pointerKind t) hl
  · exact h.allocated (l := .waitingDescriptors o) (regular_waitingDescriptors o) hl

/-- A pointer is in the lists of one object. -/
theorem pointer_object {o' : Nat} (h : Strung Regular Retained k L) (hl : PointerListed L t o ptr)
    (hl' : PointerListed L t o' ptr) : o = o' := by
  have hr := regular_pointerKind t
  rcases hl with hl | ⟨rfl, hl⟩ <;> rcases hl' with hl' | ⟨ht, hl'⟩
  · cases h.apart (l := .users t o) (j := .users t o') hr hr hl hl'
    rfl
  · subst ht
    cases h.apart (l := .users .semaphore o) (j := .waitingDescriptors o') hr
      (regular_waitingDescriptors o') hl hl'
  · cases h.apart (l := .waitingDescriptors o) (j := .users .semaphore o')
      (regular_waitingDescriptors o) hr hl hl'
  · cases h.apart (l := .waitingDescriptors o) (j := .waitingDescriptors o')
      (regular_waitingDescriptors o) (regular_waitingDescriptors o') hl hl'
    rfl

/-- The descriptor of a listed pointer. -/
theorem Tied.descriptor_of_listed (h : Tied t k L) (hs : Strung Regular Retained k L)
    (hl : PointerListed L t o ptr) :
    ∃ d, k.descriptorPtr t ptr = some d ∧ Allocated k t.descriptorKind d ∧
      (k.descriptor t d).ptr = some ptr ∧ (k.descriptor t d).object = some o := by
  obtain ⟨d, hback, hda, hptr⟩ := h.pointed ptr (pointer_allocated hs hl)
  obtain ⟨o', ptr', ho, hptr', _, hl'⟩ := h.bound d hda
  rw [hptr, Option.some.injEq] at hptr'
  subst hptr'
  rw [pointer_object hs hl hl']
  exact ⟨d, hback, hda, hptr, ho⟩

/-- Different descriptors have different pointers. -/
theorem Tied.descriptor_inj {d' : Nat} (h : Tied t k L) (hd : Allocated k t.descriptorKind d)
    (hd' : Allocated k t.descriptorKind d') (hptr : (k.descriptor t d).ptr = some ptr)
    (hptr' : (k.descriptor t d').ptr = some ptr) : d = d' := by
  obtain ⟨_, ptr₁, _, h₁, hb₁, _⟩ := h.bound d hd
  obtain ⟨_, ptr₂, _, h₂, hb₂, _⟩ := h.bound d' hd'
  rw [hptr, Option.some.injEq] at h₁
  rw [hptr', Option.some.injEq] at h₂
  subst h₁ h₂
  rw [hb₁, Option.some.injEq] at hb₂
  exact hb₂

theorem allocated_of_opened (h : Strung Regular Retained k L)
    (hm : ⟨t.descriptorKind, d⟩ ∈ L (.opened t p)) : Allocated k t.descriptorKind d :=
  h.allocated (l := .opened t p) (regular_descriptorKind t) hm

/-- What `boundTo` finds. -/
theorem boundTo_listed (h : Strung Regular Retained k L)
    (hb : k.boundTo t p fd = .ok (some (d, o))) :
    ⟨t.descriptorKind, d⟩ ∈ L (.opened t p) ∧ (k.descriptor t d).fd = fd ∧
      (k.descriptor t d).object = some o := by
  unfold Kernel.boundTo at hb
  obtain ⟨found, hs, hb⟩ := bind_eq_ok.mp hb
  cases found with
  | none => cases hb
  | some d' =>
    obtain ⟨hmem, hfd⟩ := h.search_some (l := .opened t p) (regular_descriptorKind t) hs
    simp only [pure, Except.pure, Except.ok.injEq, Option.map_eq_some_iff, Prod.mk.injEq] at hb
    obtain ⟨o', ho, rfl, rfl⟩ := hb
    exact ⟨hmem, by simpa using hfd, ho⟩

/-! ## Opening -/

/-- The pools of a table differ from those of another. -/
theorem kinds_ne (h : t' ≠ t) : t'.descriptorKind ≠ t.descriptorKind ∧
    t'.descriptorKind ≠ t.pointerKind ∧ t'.pointerKind ≠ t.descriptorKind ∧
    t'.pointerKind ≠ t.pointerKind := by
  cases t <;> cases t' <;> first | exact absurd rfl h | decide

theorem users_ne_objects : HeadAddr.users t o ≠ objects t' := by
  cases t' <;> exact fun h => nomatch h

theorem opened_ne_objects : HeadAddr.opened t p ≠ objects t' := by
  cases t' <;> exact fun h => nomatch h

theorem withOpened_objects : withOpened L t p o d ptr (objects t') = L (objects t') := by
  unfold withOpened
  rw [Function.update_of_ne users_ne_objects.symm, Function.update_of_ne opened_ne_objects.symm]

theorem withClosed_objects : withClosed L t p o d ptr (objects t') = L (objects t') := by
  unfold withClosed
  rw [Function.update_of_ne users_ne_objects.symm, Function.update_of_ne opened_ne_objects.symm]

theorem listed_withOpened {o' ptr' : Nat} : PointerListed (withOpened L t p o d ptr) t o' ptr' ↔
    PointerListed L t o' ptr' ∨ (o' = o ∧ ptr' = ptr) := by
  unfold PointerListed
  simp only [opened_mem, HeadAddr.users.injEq, Node.mk.injEq, true_and, reduceCtorEq, false_and,
    false_or, or_false]
  tauto

theorem Added.woven (h : Woven base k L) (ha : Added Regular Retained k L t p o d ptr k') :
    Woven base k' (withOpened L t p o d ptr) := by
  refine h.step ha.strung ha.confined fun kind hk => ha.pool kind (fun he => hk ?_) fun he => hk ?_
  · rw [he]
    exact regular_descriptorKind t
  · rw [he]
    exact regular_pointerKind t

theorem tied_added (hs : Strung Regular Retained k L) (h : Tied t k L)
    (ha : Added Regular Retained k L t p o d ptr k') (ho : ObjectListed L t o) :
    Tied t k' (withOpened L t p o d ptr) := by
  have hdesc : k'.descriptor t = Function.update (k.descriptor t) d
      { pcb := some p, object := some o, fd := (k.pcb p).fdCounter t, ptr := some ptr } := by
    rw [ha.descriptor, Function.update_self]
  have hptr : k'.descriptorPtr t = Function.update (k.descriptorPtr t) ptr (some d) := by
    rw [ha.descriptorPtr, Function.update_self]
  have hne := pointerKind_ne t
  have hdmem : ∀ d', Allocated k' t.descriptorKind d' ↔
      d' = d ∨ (d' ≠ d ∧ Allocated k t.descriptorKind d') := by
    intro d'
    rw [ha.allocated]
    have hf := ha.freshDescriptor
    by_cases he : d' = d
    · simp [he]
    · simp [he, hne.symm]
  have hpmem : ∀ ptr', Allocated k' t.pointerKind ptr' ↔
      ptr' = ptr ∨ (ptr' ≠ ptr ∧ Allocated k t.pointerKind ptr') := by
    intro ptr'
    rw [ha.allocated]
    by_cases he : ptr' = ptr
    · simp [he]
    · simp [he, hne]
  refine ⟨fun d' hd' => ?_, fun ptr' hp' => ?_, fun p' d' hm => ?_, ?_, fun o' x hx => ?_⟩
  · rw [hdesc, hptr]
    rcases (hdmem d').mp hd' with rfl | ⟨hd', hda⟩
    · refine ⟨o, ptr, ?_, ?_, ?_, listed_withOpened.mpr (.inr ⟨rfl, rfl⟩)⟩ <;>
        rw [Function.update_self]
    · obtain ⟨o', ptr', hobj, hpt, hback, hl⟩ := h.bound d' hda
      have hp' : ptr' ≠ ptr := fun he => ha.freshPointer (he ▸ pointer_allocated hs hl)
      rw [Function.update_of_ne hd']
      refine ⟨o', ptr', hobj, hpt, ?_, listed_withOpened.mpr (.inl hl)⟩
      rwa [Function.update_of_ne hp']
  · rw [hdesc, hptr]
    rcases (hpmem ptr').mp hp' with rfl | ⟨hp', hpa⟩
    · refine ⟨d, ?_, (hdmem d).mpr (.inl rfl), ?_⟩ <;> rw [Function.update_self]
    · obtain ⟨d', hback, hda, hpt⟩ := h.pointed ptr' hpa
      have hd' : d' ≠ d := fun he => ha.freshDescriptor (he ▸ hda)
      refine ⟨d', ?_, (hdmem d').mpr (.inr ⟨hd', hda⟩), ?_⟩
      · rwa [Function.update_of_ne hp']
      · rwa [Function.update_of_ne hd']
  · rw [hdesc]
    rcases opened_mem.mp hm with hm | ⟨he, hd'⟩ | ⟨he, _⟩
    · have hd' : d' ≠ d := fun he => ha.freshDescriptor (he ▸ allocated_of_opened hs hm)
      rw [Function.update_of_ne hd']
      exact h.owner p' d' hm
    · cases he
      cases hd'
      rw [Function.update_self]
    · cases he
  · rw [ha.descriptorSize, ha.pointerSize, h.level]
  · unfold ObjectListed
    rw [withOpened_objects]
    rcases opened_mem.mp hx with hx | ⟨he, _⟩ | ⟨he, _⟩
    · exact h.housed o' x hx
    · cases he
    · cases he
      exact ho

theorem same_added (ha : Added Regular Retained k L t p o d ptr k') (hne : t' ≠ t) :
    SameTable t' k L k' (withOpened L t p o d ptr) := by
  obtain ⟨hdd, hdp, hpd, hpp⟩ := kinds_ne hne
  refine ⟨?_, ?_, ha.pool _ hdd hdp, ha.pool _ hpd hpp, fun p' x hx => ?_, fun o' => ?_,
    fun o' => ?_, fun o' ho' => ?_⟩
  · rw [ha.descriptor, Function.update_of_ne hne]
  · rw [ha.descriptorPtr, Function.update_of_ne hne]
  · rcases opened_mem.mp hx with hx | ⟨he, _⟩ | ⟨he, _⟩
    · exact hx
    · cases he
      exact absurd rfl hne
    · cases he
  · have h₁ : ¬ (t' = t ∧ o' = o) := fun he => hne he.1
    simp [withOpened, h₁]
  · simp [withOpened]
  · unfold ObjectListed
    rwa [withOpened_objects]

theorem openDescriptor_full (hpooled : Pooled k) (hfull : (k.pool t.descriptorKind).size = 0)
    (p o : Nat) (err : Int) : k.openDescriptor t p o err = k.setRetvalue p err := by
  unfold Kernel.openDescriptor Kernel.descriptorAlloc
  rw [(newItem_eq_none hpooled).mpr hfull]

/-- With paired pools, the common end of the open calls adds a descriptor or fails
without a trace. -/
theorem openDescriptor_tied (hs : Strung Regular Retained k L) (h : Tied t k L) (p o : Nat)
    (err : Int) :
    (k.openDescriptor t p o err = k.setRetvalue p err ∧ (k.pool t.descriptorKind).size = 0) ∨
    ∃ d ptr, Added Regular Retained k L t p o d ptr (k.openDescriptor t p o err) := by
  cases hnew : k.newItem t.descriptorKind with
  | none =>
    have hfull := (newItem_eq_none hs.pooled).mp hnew
    exact .inl ⟨openDescriptor_full hs.pooled hfull p o err, hfull⟩
  | some dk =>
    obtain ⟨d, k₁⟩ := dk
    have hf₁ := newItem_fresh hs.pooled hnew
    cases hnew₂ : (k₁.setDescriptor t d
      { pcb := some p, object := some o, fd := (k.pcb p).fdCounter t,
        ptr := (k₁.descriptor t d).ptr }).newItem t.pointerKind with
    | some pk =>
      exact .inr ⟨d, pk.1, openDescriptor_added hs (regular_descriptorKind t)
        (regular_pointerKind t) p o err hnew hnew₂⟩
    | none =>
      -- the pointer pool is as full as the descriptor pool was
      have hpool := (newItem_eq_none (k := k₁.setDescriptor t d _)
        (pooled_congr rfl hf₁.pooled)).mp hnew₂
      have hsize : (k₁.pool t.pointerKind).size = 0 := hpool
      rw [fresh_pool hf₁ (pointerKind_ne t), ← h.level, ← newItem_eq_none hs.pooled, hnew] at hsize
      cases hsize

/-! ## Closing -/

theorem Removed.woven (h : Woven base k L) (hr : Removed Regular Retained k L t p o d ptr k') :
    Woven base k' (withClosed L t p o d ptr) := by
  refine h.step hr.strung hr.confined fun kind hk => hr.pool kind (fun he => hk ?_) fun he => hk ?_
  · rw [he]
    exact regular_descriptorKind t
  · rw [he]
    exact regular_pointerKind t

theorem listed_withClosed (hs : Strung Regular Retained k L)
    (hu : ⟨t.pointerKind, ptr⟩ ∈ L (.users t o)) {o' ptr' : Nat} :
    PointerListed (withClosed L t p o d ptr) t o' ptr' ↔ PointerListed L t o' ptr' ∧ ptr' ≠ ptr := by
  have hn := hs.nodup (l := .opened t p) (regular_descriptorKind t)
  have hn' := hs.nodup (l := .users t o) (regular_pointerKind t)
  have hl : PointerListed (withClosed L t p o d ptr) t o' ptr' ↔
      (⟨t.pointerKind, ptr'⟩ ∈ L (.users t o') ∧ ¬ (o' = o ∧ ptr' = ptr)) ∨
      (t = .semaphore ∧ ⟨t.pointerKind, ptr'⟩ ∈ L (.waitingDescriptors o')) := by
    unfold PointerListed
    simp only [closed_mem hn hn', HeadAddr.users.injEq, Node.mk.injEq, true_and, reduceCtorEq,
      false_and, not_false_eq_true, and_true]
  rw [hl]
  constructor
  · rintro (⟨hx, hno⟩ | ⟨rfl, hx⟩)
    · refine ⟨.inl hx, fun he => hno ⟨?_, he⟩⟩
      subst he
      exact pointer_object hs (.inl hx) (.inl hu)
    · refine ⟨.inr ⟨rfl, hx⟩, ?_⟩
      rintro rfl
      cases hs.apart (l := .waitingDescriptors o') (j := .users .semaphore o)
        (regular_waitingDescriptors o') (regular_pointerKind .semaphore) hx hu
  · rintro ⟨hx | hx, hne⟩
    · exact .inl ⟨hx, fun hno => hne hno.2⟩
    · exact .inr hx

theorem tied_removed (hs : Strung Regular Retained k L) (h : Tied t k L)
    (hm : ⟨t.descriptorKind, d⟩ ∈ L (.opened t p)) (hptr : (k.descriptor t d).ptr = some ptr)
    (hu : ⟨t.pointerKind, ptr⟩ ∈ L (.users t o))
    (hr : Removed Regular Retained k L t p o d ptr k') :
    Tied t k' (withClosed L t p o d ptr) := by
  have hdesc : k'.descriptor = k.descriptor := by rw [hr.rest]
  have hback : k'.descriptorPtr = k.descriptorPtr := by rw [hr.rest]
  have hne := pointerKind_ne t
  have hda := allocated_of_opened hs hm
  have hdmem : ∀ d', Allocated k' t.descriptorKind d' ↔
      d' ≠ d ∧ Allocated k t.descriptorKind d' := by
    intro d'
    rw [hr.allocated]
    simp [hne.symm]
  have hpmem : ∀ ptr', Allocated k' t.pointerKind ptr' ↔
      ptr' ≠ ptr ∧ Allocated k t.pointerKind ptr' := by
    intro ptr'
    rw [hr.allocated]
    simp [hne]
  have hn := hs.nodup (l := .opened t p) (regular_descriptorKind t)
  have hn' := hs.nodup (l := .users t o) (regular_pointerKind t)
  refine ⟨fun d' hd' => ?_, fun ptr' hp' => ?_, fun p' d' hx => ?_, ?_, fun o' x hx => ?_⟩
  · rw [hdesc, hback]
    obtain ⟨hd', hda'⟩ := (hdmem d').mp hd'
    obtain ⟨o', ptr', hobj, hpt, hb, hl⟩ := h.bound d' hda'
    refine ⟨o', ptr', hobj, hpt, hb, (listed_withClosed hs hu).mpr ⟨hl, ?_⟩⟩
    rintro rfl
    exact hd' (h.descriptor_inj hda' hda hpt hptr)
  · rw [hdesc, hback]
    obtain ⟨hp', hpa⟩ := (hpmem ptr').mp hp'
    obtain ⟨d', hb, hda', hpt⟩ := h.pointed ptr' hpa
    refine ⟨d', hb, (hdmem d').mpr ⟨?_, hda'⟩, hpt⟩
    rintro rfl
    rw [hptr, Option.some.injEq] at hpt
    exact hp' hpt.symm
  · rw [hdesc]
    exact h.owner p' d' ((closed_mem hn hn').mp hx).1
  · rw [hr.descriptorSize, hr.pointerSize, h.level]
  · unfold ObjectListed
    rw [withClosed_objects]
    exact h.housed o' x ((closed_mem hn hn').mp hx).1

theorem same_removed (hs : Strung Regular Retained k L)
    (hr : Removed Regular Retained k L t p o d ptr k') (hne : t' ≠ t) :
    SameTable t' k L k' (withClosed L t p o d ptr) := by
  obtain ⟨hdd, hdp, hpd, hpp⟩ := kinds_ne hne
  have hn := hs.nodup (l := .opened t p) (regular_descriptorKind t)
  have hn' := hs.nodup (l := .users t o) (regular_pointerKind t)
  refine ⟨by rw [hr.rest], by rw [hr.rest], hr.pool _ hdd hdp, hr.pool _ hpd hpp,
    fun p' x hx => ((closed_mem hn hn').mp hx).1, fun o' => ?_, fun o' => ?_, fun o' ho' => ?_⟩
  · have h₁ : ¬ (t' = t ∧ o' = o) := fun he => hne he.1
    simp [withClosed, h₁]
  · simp [withClosed]
  · unfold ObjectListed
    rwa [withClosed_objects]

end DisastrOS.Descriptors.Tables
