import DisastrOS.Lists.Wiring

/-!
# Descriptors and their pointers

A descriptor is listed by the process that opened it, its pointer by the object it
is open on. `openDescriptor` adds such a pair, `closeDescriptor` removes one.
-/
namespace DisastrOS.Descriptors.Bindings

open DisastrOS.Machine
open DisastrOS.Lists.Sequences
open DisastrOS.Lists.Wiring
open DisastrOS.Pool.Blocks
open DisastrOS.Library.Outcome

/-- The pointer `ptr` is in a list of the object `o`. A semaphore keeps the pointers
of blocked processes in its second list. -/
def PointerListed (L : HeadAddr → List Node) (t : Table) (o ptr : Nat) : Prop :=
  ⟨t.pointerKind, ptr⟩ ∈ L (.users t o) ∨
    (t = .semaphore ∧ ⟨t.pointerKind, ptr⟩ ∈ L (.waitingDescriptors o))

/-- Descriptors and descriptor pointers of a table are bound to each other. -/
structure Bound (t : Table) (k : Kernel) (L : HeadAddr → List Node) : Prop where
  opened : ∀ p d, ⟨t.descriptorKind, d⟩ ∈ L (.opened t p) →
    ∃ o ptr, (k.descriptor t d).pcb = some p ∧ (k.descriptor t d).object = some o ∧
      (k.descriptor t d).ptr = some ptr ∧ k.descriptorPtr t ptr = some d ∧
      PointerListed L t o ptr
  pointed : ∀ o ptr, PointerListed L t o ptr →
    ∃ p d, k.descriptorPtr t ptr = some d ∧ (k.descriptor t d).ptr = some ptr ∧
      (k.descriptor t d).object = some o ∧ ⟨t.descriptorKind, d⟩ ∈ L (.opened t p)

variable {S : Kind → Prop} {k k' : Kernel} {L L' : HeadAddr → List Node} {t : Table}
  {p o d ptr : Nat} {err fd : Int}

theorem pointerKind_ne (t : Table) : t.pointerKind ≠ t.descriptorKind := by
  cases t <;> decide

/-- The descriptor that `boundTo` finds is listed by the process. -/
theorem boundTo_some (h : Wired S k L) (hS : S t.descriptorKind)
    (hb : k.boundTo t p fd = .ok (some (d, o))) :
    ⟨t.descriptorKind, d⟩ ∈ L (.opened t p) ∧ (k.descriptor t d).fd = fd ∧
      (k.descriptor t d).object = some o := by
  unfold Kernel.boundTo at hb
  obtain ⟨found, hs, hb⟩ := bind_eq_ok.mp hb
  cases found with
  | none => cases hb
  | some d' =>
    obtain ⟨hmem, hfd⟩ := search_some (l := .opened t p) h hS hs
    simp only [pure, Except.pure, Except.ok.injEq, Option.map_eq_some_iff, Prod.mk.injEq] at hb
    obtain ⟨o', ho, rfl, rfl⟩ := hb
    exact ⟨hmem, by simpa using hfd, ho⟩

/-- The search by file descriptor depends on the lists and the descriptors. -/
theorem boundTo_congr (hlists : k'.lists = k.lists) (hd : k'.descriptor = k.descriptor) :
    k'.boundTo t p fd = k.boundTo t p fd := by
  have hsearch : k'.descriptorListByFd t (.opened t p) fd =
      k.descriptorListByFd t (.opened t p) fd :=
    search_frame (by rw [hlists]) (fun _ _ => by rw [hlists]) fun _ => by rw [hd]
  unfold Kernel.boundTo
  rw [hsearch, hd]

theorem boundTo_setCall {r : Nat} {num : Int} {args : List Int} :
    (k.setCall r num args).boundTo t p fd = k.boundTo t p fd :=
  boundTo_congr rfl rfl

/-- The search by file descriptor always completes. -/
theorem boundTo_ok (p : Nat) (fd : Int) (h : Wired S k L) (hS : S t.descriptorKind) :
    ∃ found, k.boundTo t p fd = .ok found := by
  have hsearch : k.descriptorListByFd t (.opened t p) fd = _ :=
    search_pure (l := .opened t p) h hS _
  unfold Kernel.boundTo
  rw [hsearch]
  simp only [bind, Except.bind]
  split
  · exact ⟨_, rfl⟩
  · exact ⟨_, rfl⟩

/-- A process keeps its descriptors as long as its list stays the same. -/
theorem boundTo_opened (h : Wired S k L) (h' : Wired S k' L') (hS : S t.descriptorKind)
    (hL : L' (.opened t p) = L (.opened t p)) (hd : k'.descriptor = k.descriptor) :
    k'.boundTo t p fd = k.boundTo t p fd := by
  have hsearch : k'.descriptorListByFd t (.opened t p) fd =
      k.descriptorListByFd t (.opened t p) fd := by
    unfold Kernel.descriptorListByFd
    rw [search_eq (l := .opened t p) h' hS, search_eq (l := .opened t p) h hS, hL, hd]
  unfold Kernel.boundTo
  rw [hsearch, hd]

/-- The pointer of an open descriptor is listed by its object, unless its process may
be blocked. -/
theorem pointer_of_open (h : Bound t k L) (ht : t ≠ .semaphore)
    (hm : ⟨t.descriptorKind, d⟩ ∈ L (.opened t p)) (ho : (k.descriptor t d).object = some o) :
    ∃ ptr, (k.descriptor t d).ptr = some ptr ∧ ⟨t.pointerKind, ptr⟩ ∈ L (.users t o) := by
  obtain ⟨o', ptr, _, hobj, hptr, _, hl⟩ := h.opened p d hm
  rw [ho, Option.some.injEq] at hobj
  subst hobj
  rcases hl with hl | ⟨hc, _⟩
  · exact ⟨ptr, hptr, hl⟩
  · exact absurd hc ht

/-! ## Opening -/

/-- The lists after an open. -/
abbrev withOpened (L : HeadAddr → List Node) (t : Table) (p o d ptr : Nat) :
    HeadAddr → List Node :=
  Function.update
    (Function.update L (.opened t p) (L (.opened t p) ++ [⟨t.descriptorKind, d⟩]))
    (.users t o) (L (.users t o) ++ [⟨t.pointerKind, ptr⟩])

/-- A new descriptor `d` with a new pointer `ptr` on `o` is listed for process `p`. -/
structure Added (S T : Kind → Prop) (k : Kernel) (L : HeadAddr → List Node) (t : Table)
    (p o d ptr : Nat) (k' : Kernel) : Prop where
  freshDescriptor : ¬ Allocated k t.descriptorKind d
  freshPointer : ¬ Allocated k t.pointerKind ptr
  strung : Strung S T k' (withOpened L t p o d ptr)
  confined : Confined S k k'
  allocated : ∀ kind i, Allocated k' kind i ↔ (kind = t.descriptorKind ∧ i = d) ∨
    (kind = t.pointerKind ∧ i = ptr) ∨ Allocated k kind i
  descriptorSize : (k'.pool t.descriptorKind).size = (k.pool t.descriptorKind).size - 1
  pointerSize : (k'.pool t.pointerKind).size = (k.pool t.pointerKind).size - 1
  pcb : k'.pcb = Function.update k.pcb p
    { (k.pcb p).setFdCounter t ((k.pcb p).fdCounter t + 1) with
      syscallRetvalue := (k.pcb p).fdCounter t }
  descriptor : k'.descriptor = Function.update k.descriptor t
    (Function.update (k.descriptor t) d
      { pcb := some p, object := some o, fd := (k.pcb p).fdCounter t, ptr := some ptr })
  descriptorPtr : k'.descriptorPtr = Function.update k.descriptorPtr t
    (Function.update (k.descriptorPtr t) ptr (some d))
  pool : ∀ kind, kind ≠ t.descriptorKind → kind ≠ t.pointerKind → k'.pool kind = k.pool kind
  rest : k' = { k with
    lists := k'.lists, pool := k'.pool, pcb := k'.pcb
    descriptor := k'.descriptor, descriptorPtr := k'.descriptorPtr }

/-- A descriptor `d` with pointer `ptr` on `o` has been added for process `p`. -/
structure Opened (S : Kind → Prop) (k : Kernel) (L : HeadAddr → List Node) (t : Table)
    (p o d ptr : Nat) (k' : Kernel) : Prop where
  freshDescriptor : ¬ Allocated k t.descriptorKind d
  freshPointer : ¬ Allocated k t.pointerKind ptr
  wired : Wired S k' (Function.update
    (Function.update L (.opened t p) (L (.opened t p) ++ [⟨t.descriptorKind, d⟩]))
    (.users t o) (L (.users t o) ++ [⟨t.pointerKind, ptr⟩]))
  pcb : k'.pcb = Function.update k.pcb p
    { (k.pcb p).setFdCounter t ((k.pcb p).fdCounter t + 1) with
      syscallRetvalue := (k.pcb p).fdCounter t }
  descriptor : k'.descriptor = Function.update k.descriptor t
    (Function.update (k.descriptor t) d
      { pcb := some p, object := some o, fd := (k.pcb p).fdCounter t, ptr := some ptr })
  descriptorPtr : k'.descriptorPtr = Function.update k.descriptorPtr t
    (Function.update (k.descriptorPtr t) ptr (some d))
  pool : ∀ kind, kind ≠ t.descriptorKind → kind ≠ t.pointerKind → k'.pool kind = k.pool kind
  rest : k' = { k with
    lists := k'.lists, pool := k'.pool, pcb := k'.pcb
    descriptor := k'.descriptor, descriptorPtr := k'.descriptorPtr }

/-- No descriptor has been added for process `p`, which gets the error `err`. -/
structure Unopened (S : Kind → Prop) (k : Kernel) (L : HeadAddr → List Node) (t : Table)
    (p : Nat) (err : Int) (k' : Kernel) : Prop where
  wired : Wired S k' L
  pcb : k'.pcb = Function.update k.pcb p { k.pcb p with syscallRetvalue := err }
  descriptor : ∀ t' d, t' ≠ t ∨ Allocated k t.descriptorKind d →
    k'.descriptor t' d = k.descriptor t' d
  descriptorPtr : k'.descriptorPtr = k.descriptorPtr
  pool : ∀ kind, kind ≠ t.descriptorKind → kind ≠ t.pointerKind → k'.pool kind = k.pool kind
  rest : k' = { k with
    lists := k'.lists, pool := k'.pool, pcb := k'.pcb
    descriptor := k'.descriptor, descriptorPtr := k'.descriptorPtr }

@[simp]
theorem fdCounter_setFdCounter (q : PCB) (t : Table) (v : Int) :
    (q.setFdCounter t v).fdCounter t = v := by
  cases t <;> rfl

/-- The common end of the open calls, when both blocks can be had. -/
theorem openDescriptor_added {T : Kind → Prop} {k₁ k₃ : Kernel} (h : Strung S T k L)
    (hd : S t.descriptorKind) (hp : S t.pointerKind) (p o : Nat) (err : Int)
    (hnew : k.newItem t.descriptorKind = some (d, k₁))
    (hnew₂ : (k₁.setDescriptor t d
      { pcb := some p, object := some o, fd := (k.pcb p).fdCounter t,
        ptr := (k₁.descriptor t d).ptr }).newItem t.pointerKind = some (ptr, k₃)) :
    Added S T k L t p o d ptr (k.openDescriptor t p o err) := by
  unfold Kernel.openDescriptor Kernel.descriptorAlloc
  have hf₁ := newItem_fresh h.pooled hnew
  have hs₁ := h.newItem hf₁
  have hc₁ := confined_newItem hd hf₁
  have heq₁ := hf₁.eq
  simp only [hnew]
  generalize hk₂ : k₁.setDescriptor t d
    { pcb := some p, object := some o, fd := (k.pcb p).fdCounter t,
      ptr := (k₁.descriptor t d).ptr } = k₂ at hnew₂ ⊢
  have hs₂ : Strung S T k₂ L := hs₁.congr (by rw [← hk₂]; rfl) (by rw [← hk₂]; rfl)
  have hc₂ : Confined S k k₂ := confined_trans hc₁ (confined_of_lists (by rw [← hk₂]; rfl))
  unfold Kernel.descriptorPtrAlloc
  have hf₃ := newItem_fresh hs₂.pooled hnew₂
  have hs₃ := hs₂.newItem hf₃
  have hc₃ := confined_trans hc₂ (confined_newItem hp hf₃)
  have heq₃ := hf₃.eq
  simp only [hnew₂]
  have hpool₂ : k₂.pool = k₁.pool := by rw [← hk₂]; rfl
  have hall₂ : ∀ kind i, Allocated k₂ kind i ↔ Allocated k₁ kind i := fun _ _ =>
    allocated_congr hpool₂
  generalize hk₄ : (k₃.setDescriptorPtr t ptr (some d)).setDescriptor t d
    { (k₃.setDescriptorPtr t ptr (some d)).descriptor t d with ptr := some ptr } = k₄
  have hlists₄ : k₄.lists = k₃.lists := by rw [← hk₄]; rfl
  have hpool₄ : k₄.pool = k₃.pool := by rw [← hk₄]; rfl
  have hall₄ : ∀ kind i, Allocated k₄ kind i ↔ Allocated k₃ kind i := fun _ _ =>
    allocated_congr hpool₄
  have hs₄ : Strung S T k₄ L := hs₃.congr hlists₄ hpool₄
  have hc₄ : Confined S k k₄ := confined_trans hc₃ (confined_of_lists hlists₄)
  -- both nodes are new, so each is appended from outside of all lists
  have hdout : ∀ l, S l.nodeKind → ⟨t.descriptorKind, d⟩ ∉ L l := fun l hl =>
    h.fresh_unlisted hf₁.fresh hl
  have hpout : ∀ l, S l.nodeKind → ⟨t.pointerKind, ptr⟩ ∉ L l := fun l hl =>
    hs₂.fresh_unlisted hf₃.fresh hl
  have hdp : (⟨t.descriptorKind, d⟩ : Node) ≠ ⟨t.pointerKind, ptr⟩ := fun he =>
    pointerKind_ne t (congrArg Node.kind he).symm
  have hdloose : Unlinked k₄.lists ⟨t.descriptorKind, d⟩ := by
    have hu : Unlinked k₁.lists ⟨t.descriptorKind, d⟩ := unlinked_fresh hf₁
    unfold Unlinked at hu ⊢
    rw [hlists₄, heq₃, ← hk₂]
    exact (Function.update_of_ne hdp _ _).trans hu
  have hploose : Unlinked k₄.lists ⟨t.pointerKind, ptr⟩ := by
    unfold Unlinked
    rw [hlists₄]
    exact unlinked_fresh hf₃
  have hda : Allocated k₄ t.descriptorKind d :=
    (hall₄ _ _).mpr ((hf₃.allocated _ _).mpr (.inr ((hall₂ _ _).mpr ((hf₁.allocated _ _).mpr
      (.inl ⟨rfl, rfl⟩)))))
  have hpa : Allocated k₄ t.pointerKind ptr :=
    (hall₄ _ _).mpr ((hf₃.allocated _ _).mpr (.inl ⟨rfl, rfl⟩))
  have hs₅ := hs₄.append (l := .opened t p) (x := ⟨t.descriptorKind, d⟩) hd rfl hda hdloose hdout
  have hc₅ := confined_trans hc₄ (hs₄.confined_append (l := .opened t p)
    (x := ⟨t.descriptorKind, d⟩) hd rfl hdloose hdout)
  have hpout₅ : ∀ l, S l.nodeKind → ⟨t.pointerKind, ptr⟩ ∉ Function.update L (.opened t p)
      (L (.opened t p) ++ [⟨t.descriptorKind, d⟩]) l := by
    intro l hl hm
    rcases mem_append_update.mp hm with hm | ⟨rfl, he⟩
    · exact hpout l hl hm
    · exact pointerKind_ne t (congrArg Node.kind he)
  have hploose₅ : Unlinked (k₄.append (.opened t p) ⟨t.descriptorKind, d⟩).lists
      ⟨t.pointerKind, ptr⟩ := by
    have hsplit : L (.opened t p) = L (.opened t p) ++ [] := (List.append_nil _).symm
    have hlast : (k₄.head (.opened t p)).last = (L (.opened t p)).getLast? :=
      hs₄.last_eq (l := .opened t p) hd
    unfold Unlinked Kernel.append Kernel.insert
    rw [hlast]
    exact (threaded_insert_item (l := HeadAddr.opened t p) hs₄.threaded hd hsplit hdloose
      (hdout (.opened t p) hd) (hpout (.opened t p) hd) hdp.symm).trans hploose
  have hs₆ := hs₅.append (l := .users t o) (x := ⟨t.pointerKind, ptr⟩) hp rfl hpa hploose₅ hpout₅
  have hc₆ := confined_trans hc₅ (hs₅.confined_append (l := .users t o)
    (x := ⟨t.pointerKind, ptr⟩) hp rfl hploose₅ hpout₅)
  refine ⟨hf₁.fresh, ?_, hs₆.congr rfl rfl, ⟨hc₆.item, hc₆.head⟩, ?_, ?_, ?_, ?_, ?_, ?_, ?_, ?_⟩
  · intro ha
    exact hf₃.fresh ((hall₂ _ _).mpr ((hf₁.allocated _ _).mpr (.inr ha)))
  · intro kind i
    refine (hall₄ kind i).trans ?_
    rw [hf₃.allocated, hall₂, hf₁.allocated]
    tauto
  · change (k₄.pool _).size = _
    rw [hpool₄, fresh_pool hf₃ (pointerKind_ne t).symm, hpool₂, hf₁.size]
  · change (k₄.pool _).size = _
    rw [hpool₄, hf₃.size, hpool₂, fresh_pool hf₁ (pointerKind_ne t)]
  · simp only [← hk₄, heq₃, ← hk₂, heq₁]
    unfold Kernel.setRetvalue Kernel.modPcb Kernel.append Kernel.insert
      Kernel.setDescriptor Kernel.setDescriptorPtr
    simp [Function.update_idem]
  · simp only [← hk₄, heq₃, ← hk₂, heq₁]
    change Function.update (Function.update k.descriptor t _) t _ = _
    rw [Function.update_idem]
    congr 1
    change Function.update (Function.update k.descriptor t _ t) d _ = _
    rw [Function.update_self, Function.update_idem]
    congr 1
    change { Function.update k.descriptor t _ t d with ptr := some ptr } = _
    rw [Function.update_self, Function.update_self]
  · simp only [← hk₄, heq₃, ← hk₂, heq₁]
    rfl
  · intro kind hkd hkp
    change k₄.pool kind = _
    rw [hpool₄, fresh_pool hf₃ hkp, hpool₂, fresh_pool hf₁ hkd]
  · simp only [← hk₄, heq₃, ← hk₂, heq₁]
    rfl

/-- The two outcomes of the common end of the open calls. -/
theorem openDescriptor_cases (h : Wired S k L) (hd : S t.descriptorKind)
    (hp : S t.pointerKind) (p o : Nat) (err : Int) :
    (∃ d ptr, Opened S k L t p o d ptr (k.openDescriptor t p o err)) ∨
      Unopened S k L t p err (k.openDescriptor t p o err) := by
  cases hnew : k.newItem t.descriptorKind with
  | none =>
    have heq : k.openDescriptor t p o err = k.setRetvalue p err := by
      unfold Kernel.openDescriptor Kernel.descriptorAlloc
      rw [hnew]
    rw [heq]
    exact .inr ⟨wired_congr h rfl rfl, rfl, fun _ _ _ => rfl, rfl, fun _ _ _ => rfl, rfl⟩
  | some dk =>
    obtain ⟨d, k₁⟩ := dk
    have hf₁ := newItem_fresh h.pooled hnew
    have hw₁ := wired_newItem h hf₁
    have heq₁ := hf₁.eq
    cases hnew₂ : (k₁.setDescriptor t d
      { pcb := some p, object := some o, fd := (k.pcb p).fdCounter t,
        ptr := (k₁.descriptor t d).ptr }).newItem t.pointerKind with
    | some pk =>
      obtain ⟨ptr, k₃⟩ := pk
      have ha := openDescriptor_added h.strung hd hp p o err hnew hnew₂
      exact .inl ⟨d, ptr, ha.freshDescriptor, ha.freshPointer, ha.strung.wired, ha.pcb,
        ha.descriptor, ha.descriptorPtr, ha.pool, ha.rest⟩
    | none =>
      generalize hk₂ : k₁.setDescriptor t d
        { pcb := some p, object := some o, fd := (k.pcb p).fdCounter t,
          ptr := (k₁.descriptor t d).ptr } = k₂ at hnew₂
      have hw₂ : Wired S k₂ L := wired_congr hw₁ (by rw [← hk₂]; rfl) (by rw [← hk₂]; rfl)
      have heq : k.openDescriptor t p o err = k₂.setRetvalue p err := by
        unfold Kernel.openDescriptor Kernel.descriptorAlloc Kernel.descriptorPtrAlloc
        simp only [hnew, hk₂, hnew₂]
      rw [heq]
      refine .inr ⟨wired_congr hw₂ rfl rfl, ?_, ?_, ?_, ?_, ?_⟩ <;> simp only [← hk₂, heq₁]
      · rfl
      · intro t' d' hne
        change Function.update k.descriptor t _ t' d' = _
        by_cases ht : t' = t
        · subst ht
          have hdd : d' ≠ d := by
            rintro rfl
            exact hf₁.fresh (hne.resolve_left fun hc => hc rfl)
          rw [Function.update_self, Function.update_of_ne hdd]
        · rw [Function.update_of_ne ht]
      · rfl
      · intro kind hkd _
        exact Function.update_of_ne hkd _ _
      · rfl

/-- The nodes of the lists after an open. -/
theorem opened_mem {l : HeadAddr} {y : Node} :
    y ∈ Function.update
        (Function.update L (.opened t p) (L (.opened t p) ++ [⟨t.descriptorKind, d⟩]))
        (.users t o) (L (.users t o) ++ [⟨t.pointerKind, ptr⟩]) l ↔
      y ∈ L l ∨ (l = .opened t p ∧ y = ⟨t.descriptorKind, d⟩) ∨
        (l = .users t o ∧ y = ⟨t.pointerKind, ptr⟩) := by
  by_cases hu : l = .users t o
  · subst hu
    simp
  · rw [Function.update_of_ne hu, mem_append_update]
    simp [hu]

/-- Bindings depend on the listed descriptors and pointers only. -/
theorem bound_congr (h : Bound t k L) (hopened : ∀ p, L' (.opened t p) = L (.opened t p))
    (hlisted : ∀ o ptr, PointerListed L' t o ptr ↔ PointerListed L t o ptr)
    (hd : ∀ p d, ⟨t.descriptorKind, d⟩ ∈ L (.opened t p) →
      k'.descriptor t d = k.descriptor t d)
    (hp : ∀ o ptr, PointerListed L t o ptr → k'.descriptorPtr t ptr = k.descriptorPtr t ptr) :
    Bound t k' L' := by
  constructor
  · intro p d hm
    rw [hopened] at hm
    obtain ⟨o, ptr, hpcb, hobj, hptr, hback, hl⟩ := h.opened p d hm
    refine ⟨o, ptr, ?_, ?_, ?_, ?_, (hlisted o ptr).mpr hl⟩
    · rwa [hd p d hm]
    · rwa [hd p d hm]
    · rwa [hd p d hm]
    · rwa [hp o ptr hl]
  · intro o ptr hl
    rw [hlisted] at hl
    obtain ⟨p, d, hback, hptr, hobj, hm⟩ := h.pointed o ptr hl
    refine ⟨p, d, ?_, ?_, ?_, ?_⟩
    · rwa [hp o ptr hl]
    · rwa [hd p d hm]
    · rwa [hd p d hm]
    · rwa [hopened]

theorem bound_unopened (hw : Wired S k L) (hS : S t.descriptorKind) (h : Bound t k L)
    (hu : Unopened S k L t p err k') : Bound t k' L := by
  refine bound_congr h (fun _ => rfl) (fun _ _ => Iff.rfl) (fun q d hm => ?_) fun _ _ _ => ?_
  · exact hu.descriptor t d (.inr (allocated_of_mem (l := .opened t q) hw hS hm))
  · rw [hu.descriptorPtr]

theorem bound_opened (hw : Wired S k L) (hd : S t.descriptorKind) (hp : S t.pointerKind)
    (h : Bound t k L) (ho : Opened S k L t p o d ptr k') :
    Bound t k' (Function.update
      (Function.update L (.opened t p) (L (.opened t p) ++ [⟨t.descriptorKind, d⟩]))
      (.users t o) (L (.users t o) ++ [⟨t.pointerKind, ptr⟩])) := by
  have hdesc : k'.descriptor t = Function.update (k.descriptor t) d
      { pcb := some p, object := some o, fd := (k.pcb p).fdCounter t, ptr := some ptr } := by
    rw [ho.descriptor, Function.update_self]
  have hptr : k'.descriptorPtr t = Function.update (k.descriptorPtr t) ptr (some d) := by
    rw [ho.descriptorPtr, Function.update_self]
  have hlisted : ∀ o' ptr', PointerListed (Function.update
      (Function.update L (.opened t p) (L (.opened t p) ++ [⟨t.descriptorKind, d⟩]))
      (.users t o) (L (.users t o) ++ [⟨t.pointerKind, ptr⟩])) t o' ptr' ↔
      PointerListed L t o' ptr' ∨ (o' = o ∧ ptr' = ptr) := by
    intro o' ptr'
    unfold PointerListed
    simp only [opened_mem, HeadAddr.users.injEq, Node.mk.injEq, true_and, reduceCtorEq, false_and,
      false_or, or_false]
    tauto
  have hpfresh : ∀ o' ptr', PointerListed L t o' ptr' → ptr' ≠ ptr := by
    rintro o' ptr' hl rfl
    refine ho.freshPointer ?_
    rcases hl with hl | ⟨rfl, hl⟩
    · exact allocated_of_mem (l := .users t o') hw hp hl
    · exact allocated_of_mem (l := .waitingDescriptors o') hw hp hl
  have hdfresh : ∀ p' d', ⟨t.descriptorKind, d'⟩ ∈ L (.opened t p') → d' ≠ d := by
    rintro p' d' hm rfl
    exact ho.freshDescriptor (allocated_of_mem (l := .opened t p') hw hd hm)
  constructor
  · intro p' d' hm
    rw [hdesc, hptr]
    rcases opened_mem.mp hm with hm | ⟨he, hd'⟩ | ⟨he, _⟩
    · obtain ⟨o', ptr', hpcb, hobj, hpt, hback, hl⟩ := h.opened p' d' hm
      refine ⟨o', ptr', ?_, ?_, ?_, ?_, (hlisted o' ptr').mpr (.inl hl)⟩
      · rwa [Function.update_of_ne (hdfresh p' d' hm)]
      · rwa [Function.update_of_ne (hdfresh p' d' hm)]
      · rwa [Function.update_of_ne (hdfresh p' d' hm)]
      · rwa [Function.update_of_ne (hpfresh o' ptr' hl)]
    · cases he
      cases hd'
      refine ⟨o, ptr, ?_, ?_, ?_, ?_, (hlisted o ptr).mpr (.inr ⟨rfl, rfl⟩)⟩ <;>
        rw [Function.update_self]
    · cases he
  · intro o' ptr' hl
    rw [hdesc, hptr]
    rcases (hlisted o' ptr').mp hl with hl | ⟨rfl, rfl⟩
    · obtain ⟨p', d', hback, hpt, hobj, hm⟩ := h.pointed o' ptr' hl
      refine ⟨p', d', ?_, ?_, ?_, opened_mem.mpr (.inl hm)⟩
      · rwa [Function.update_of_ne (hpfresh o' ptr' hl)]
      · rwa [Function.update_of_ne (hdfresh p' d' hm)]
      · rwa [Function.update_of_ne (hdfresh p' d' hm)]
    · refine ⟨p, d, ?_, ?_, ?_, opened_mem.mpr (.inr (.inl ⟨rfl, rfl⟩))⟩ <;>
        rw [Function.update_self]

/-! ## Closing -/

/-- The lists after a close. -/
abbrev withClosed (L : HeadAddr → List Node) (t : Table) (p o d ptr : Nat) :
    HeadAddr → List Node :=
  Function.update
    (Function.update L (.opened t p) ((L (.opened t p)).erase ⟨t.descriptorKind, d⟩))
    (.users t o) ((L (.users t o)).erase ⟨t.pointerKind, ptr⟩)

/-- The descriptor `d` of process `p` and its pointer `ptr` on `o` are out of their lists
and free again. -/
structure Removed (S T : Kind → Prop) (k : Kernel) (L : HeadAddr → List Node) (t : Table)
    (p o d ptr : Nat) (k' : Kernel) : Prop where
  strung : Strung S T k' (withClosed L t p o d ptr)
  confined : Confined S k k'
  allocated : ∀ kind i, Allocated k' kind i ↔ ¬ (kind = t.descriptorKind ∧ i = d) ∧
    ¬ (kind = t.pointerKind ∧ i = ptr) ∧ Allocated k kind i
  descriptorSize : (k'.pool t.descriptorKind).size = (k.pool t.descriptorKind).size + 1
  pointerSize : (k'.pool t.pointerKind).size = (k.pool t.pointerKind).size + 1
  pool : ∀ kind, kind ≠ t.descriptorKind → kind ≠ t.pointerKind → k'.pool kind = k.pool kind
  rest : k' = { k with lists := k'.lists, pool := k'.pool }

/-- The descriptor `d` with pointer `ptr` on `o` has been removed from process `p`. -/
structure Closed (S : Kind → Prop) (k : Kernel) (L : HeadAddr → List Node) (t : Table)
    (p o d ptr : Nat) (k' : Kernel) : Prop where
  pointer : (k.descriptor t d).ptr = some ptr
  user : ⟨t.pointerKind, ptr⟩ ∈ L (.users t o)
  wired : Wired S k' (Function.update
    (Function.update L (.opened t p) ((L (.opened t p)).erase ⟨t.descriptorKind, d⟩))
    (.users t o) ((L (.users t o)).erase ⟨t.pointerKind, ptr⟩))
  confined : Confined S k k'
  pcb : k'.pcb = Function.update k.pcb p
    ((k.pcb p).setFdCounter t ((k.pcb p).fdCounter t - 1))
  pool : ∀ kind, kind ≠ t.descriptorKind → kind ≠ t.pointerKind → k'.pool kind = k.pool kind
  rest : k' = { k with lists := k'.lists, pool := k'.pool, pcb := k'.pcb }

/-- The nodes of the lists after a close. -/
theorem closed_mem {l : HeadAddr} {y : Node} (hn : (L (.opened t p)).Nodup)
    (hn' : (L (.users t o)).Nodup) :
    y ∈ Function.update
        (Function.update L (.opened t p) ((L (.opened t p)).erase ⟨t.descriptorKind, d⟩))
        (.users t o) ((L (.users t o)).erase ⟨t.pointerKind, ptr⟩) l ↔
      y ∈ L l ∧ ¬ (l = .opened t p ∧ y = ⟨t.descriptorKind, d⟩) ∧
        ¬ (l = .users t o ∧ y = ⟨t.pointerKind, ptr⟩) := by
  by_cases hu : l = .users t o
  · subst hu
    rw [Function.update_self, hn'.mem_erase_iff]
    simp only [reduceCtorEq, false_and, not_false_eq_true, true_and]
    tauto
  · rw [Function.update_of_ne hu, mem_erase_update hn]
    simp [hu]

/-- Taking a descriptor and its pointer out of their lists and freeing both. -/
theorem unlist_removed {T : Kind → Prop} (h : Strung S T k L) (hd : S t.descriptorKind)
    (hp : S t.pointerKind) (hm : ⟨t.descriptorKind, d⟩ ∈ L (.opened t p))
    (hu : ⟨t.pointerKind, ptr⟩ ∈ L (.users t o)) :
    Removed S T k L t p o d ptr ((((k.detach (.opened t p) ⟨t.descriptorKind, d⟩).detach
      (.users t o) ⟨t.pointerKind, ptr⟩).releaseBlock t.descriptorKind d).releaseBlock
        t.pointerKind ptr) := by
  have hne : (HeadAddr.users t o) ≠ .opened t p := fun he => nomatch he
  have hs₁ := h.detach (l := .opened t p) hd hm
  have hs₂ := hs₁.detach (l := .users t o) (x := ⟨t.pointerKind, ptr⟩) hp
    (by rwa [Function.update_of_ne hne])
  have hconf := confined_trans (h.confined_detach (l := .opened t p) hd hm)
    (hs₁.confined_detach (l := .users t o) (x := ⟨t.pointerKind, ptr⟩) hp
      (by rwa [Function.update_of_ne hne]))
  rw [Function.update_of_ne hne] at hs₂
  have hdout : ∀ l, S l.nodeKind → ⟨t.descriptorKind, d⟩ ∉ withClosed L t p o d ptr l := by
    intro l hl hx
    obtain ⟨hx, hno, _⟩ := (closed_mem (h.nodup hd) (h.nodup hp)).mp hx
    exact hno ⟨h.apart hl hd hx hm, rfl⟩
  have hpout : ∀ l, S l.nodeKind → ⟨t.pointerKind, ptr⟩ ∉ withClosed L t p o d ptr l := by
    intro l hl hx
    obtain ⟨hx, _, hno⟩ := (closed_mem (h.nodup hd) (h.nodup hp)).mp hx
    exact hno ⟨h.apart hl hp hx hu, rfl⟩
  have hda : Allocated k t.descriptorKind d := h.allocated (l := .opened t p) hd hm
  have hpa : Allocated k t.pointerKind ptr := h.allocated (l := .users t o) hp hu
  generalize hk₂ : (k.detach (.opened t p) ⟨t.descriptorKind, d⟩).detach (.users t o)
    ⟨t.pointerKind, ptr⟩ = k₂ at hs₂ hconf ⊢
  have hpool₂ : k₂.pool = k.pool := by rw [← hk₂]; rfl
  have hda₂ : Allocated k₂ t.descriptorKind d := (allocated_congr hpool₂).mpr hda
  have hr₁ := releaseBlock_returned _ _ hs₂.pooled hda₂
  have hs₃ := hs₂.releaseBlock _ _ hda₂ hdout
  have hpa₃ : Allocated (k₂.releaseBlock t.descriptorKind d) t.pointerKind ptr :=
    (hr₁.allocated _ _).mpr ⟨fun he => pointerKind_ne t he.1, (allocated_congr hpool₂).mpr hpa⟩
  have hr₂ := releaseBlock_returned _ _ hs₃.pooled hpa₃
  refine ⟨hs₃.releaseBlock _ _ hpa₃ hpout, ⟨hconf.item, hconf.head⟩, fun kind i => ?_, ?_, ?_,
    fun kind hkd hkp => ?_, ?_⟩
  · rw [hr₂.allocated, hr₁.allocated, allocated_congr hpool₂]
    tauto
  · rw [releaseBlock_pool _ _ (pointerKind_ne t).symm, hr₁.size, hpool₂]
  · rw [hr₂.size, releaseBlock_pool _ _ (pointerKind_ne t), hpool₂]
  · rw [releaseBlock_pool _ _ hkp, releaseBlock_pool _ _ hkd, hpool₂]
  · rw [← hk₂]
    rfl

/-- The common part of the close calls, for a descriptor whose process is not blocked
on it. -/
theorem closeDescriptor_eq (hptr : (k.descriptor t d).ptr = some ptr) :
    k.closeDescriptor t p d o = (true,
      ((((k.detach (.opened t p) ⟨t.descriptorKind, d⟩).detach (.users t o)
        ⟨t.pointerKind, ptr⟩).releaseBlock t.descriptorKind d).releaseBlock t.pointerKind
          ptr).modPcb p fun q => q.setFdCounter t (q.fdCounter t - 1)) := by
  have hsome : ((k.detach (.opened t p) ⟨t.descriptorKind, d⟩).descriptor t d).ptr = some ptr :=
    hptr
  unfold Kernel.closeDescriptor
  simp only [hsome]

theorem closeDescriptor_closed (h : Wired S k L) (hd : S t.descriptorKind)
    (hp : S t.pointerKind) (hm : ⟨t.descriptorKind, d⟩ ∈ L (.opened t p))
    (hptr : (k.descriptor t d).ptr = some ptr) (hu : ⟨t.pointerKind, ptr⟩ ∈ L (.users t o)) :
    (k.closeDescriptor t p d o).1 = true ∧
      Closed S k L t p o d ptr (k.closeDescriptor t p d o).2 := by
  have hr := unlist_removed h.strung hd hp hm hu
  rw [closeDescriptor_eq hptr]
  refine ⟨rfl, hptr, hu, wired_congr hr.strung.wired rfl rfl, ⟨hr.confined.item, hr.confined.head⟩,
    rfl, hr.pool, rfl⟩

theorem bound_closed (hw : Wired S k L) (hd : S t.descriptorKind) (hp : S t.pointerKind)
    (h : Bound t k L) (hm : ⟨t.descriptorKind, d⟩ ∈ L (.opened t p)) (hc : Closed S k L t p o d ptr k') :
    Bound t k' (Function.update
      (Function.update L (.opened t p) ((L (.opened t p)).erase ⟨t.descriptorKind, d⟩))
      (.users t o) ((L (.users t o)).erase ⟨t.pointerKind, ptr⟩)) := by
  have hdesc : k'.descriptor = k.descriptor := by rw [hc.rest]
  have hptr : k'.descriptorPtr = k.descriptorPtr := by rw [hc.rest]
  have hn := nodup (l := .opened t p) hw hd
  have hn' := nodup (l := .users t o) hw hp
  have hback : k.descriptorPtr t ptr = some d := by
    obtain ⟨o', ptr', _, _, hpt, hb, _⟩ := h.opened p d hm
    rw [hc.pointer, Option.some.injEq] at hpt
    rwa [hpt]
  have hlisted : ∀ o' ptr', PointerListed (Function.update
      (Function.update L (.opened t p) ((L (.opened t p)).erase ⟨t.descriptorKind, d⟩))
      (.users t o) ((L (.users t o)).erase ⟨t.pointerKind, ptr⟩)) t o' ptr' ↔
      PointerListed L t o' ptr' ∧ ptr' ≠ ptr := by
    intro o' ptr'
    unfold PointerListed
    simp only [closed_mem hn hn', HeadAddr.users.injEq, Node.mk.injEq, true_and, reduceCtorEq,
      false_and, not_false_eq_true, and_true]
    constructor
    · rintro (⟨hl, hno⟩ | ⟨rfl, hl⟩)
      · refine ⟨.inl hl, fun he => hno ⟨?_, he⟩⟩
        subst he
        cases apart (l := .users t o') (j := .users t o) hw hp hp hl hc.user
        rfl
      · refine ⟨.inr ⟨rfl, hl⟩, ?_⟩
        rintro rfl
        cases apart (l := .waitingDescriptors o') (j := .users .semaphore o) hw hp hp hl hc.user
    · rintro ⟨hl | hl, hne⟩
      · exact .inl ⟨hl, fun hno => hne hno.2⟩
      · exact .inr hl
  constructor
  · intro p' d' hx'
    obtain ⟨hx, hno, _⟩ := (closed_mem hn hn').mp hx'
    obtain ⟨o', ptr', hpcb, hobj, hpt, hb, hl⟩ := h.opened p' d' hx
    rw [hdesc, hptr]
    refine ⟨o', ptr', hpcb, hobj, hpt, hb, (hlisted o' ptr').mpr ⟨hl, ?_⟩⟩
    rintro rfl
    have hdd : d' = d := by
      rw [hb, Option.some.injEq] at hback
      exact hback
    subst hdd
    exact hno ⟨apart (l := .opened t p') (j := .opened t p) hw hd hd hx hm, rfl⟩
  · intro o' ptr' hl
    obtain ⟨hl, hne⟩ := (hlisted o' ptr').mp hl
    obtain ⟨p', d', hb, hpt, hobj, hx⟩ := h.pointed o' ptr' hl
    rw [hdesc, hptr]
    refine ⟨p', d', hb, hpt, hobj, (closed_mem hn hn').mpr ⟨hx, ?_, fun hc => nomatch hc.1⟩⟩
    rintro ⟨_, he⟩
    cases he
    rw [hc.pointer, Option.some.injEq] at hpt
    exact hne hpt.symm

end DisastrOS.Descriptors.Bindings
