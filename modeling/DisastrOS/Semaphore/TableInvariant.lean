import DisastrOS.Process.TableCalls
import DisastrOS.Semaphore.Waiters

/-!
# The semaphore table

The semaphores in use are those in the list, under different identifiers. Each descriptor on
one is in one of its two lists, and the second list holds the processes that it blocks.
-/
namespace DisastrOS.Semaphore.TableInvariant

open DisastrOS.Machine
open DisastrOS.Machine.Kernel
open DisastrOS.Machine.Runs
open DisastrOS.Lists.Sequences
open DisastrOS.Lists.Wiring
open DisastrOS.Lists.RegularLists
open DisastrOS.Lists.Boot
open DisastrOS.Pool.Blocks
open DisastrOS.Descriptors.Bindings
open DisastrOS.Descriptors.Tables
open DisastrOS.Process.Steps
open DisastrOS.Process.Coherence
open DisastrOS.Process.Creation
open DisastrOS.Process.Exit
open DisastrOS.Process.Handles
open DisastrOS.Process.Resumption
open DisastrOS.Process.SystemRuns
open DisastrOS.Process.Transitions
open DisastrOS.Process.View
open DisastrOS.Process.Waiting
open DisastrOS.Semaphore.Calls
open DisastrOS.Semaphore.Ledger
open DisastrOS.Semaphore.Waiters
open DisastrOS.Resource.Calls
open DisastrOS.MessageQueue.CoherentCalls
open DisastrOS.Library.GuardedRun
open DisastrOS.Library.LinkedSequence

variable {k k' k₁ : Kernel} {L L' L₁ : HeadAddr → List Node} {t t' : Table}
  {r p o d ptr s : Nat} {num : Int} {a : Action}

/-! ## What becomes of the objects -/

/-- The objects of the table `t` are as before. -/
structure SameObjects (t : Table) (k : Kernel) (L : HeadAddr → List Node) (k' : Kernel)
    (L' : HeadAddr → List Node) : Prop where
  allocated : ∀ o, Allocated k' (objects t).nodeKind o ↔ Allocated k (objects t).nodeKind o
  lists : L' (objects t) = L (objects t)

/-- What a call can do to the objects of the table `t`. -/
inductive ObjectsMoved (t : Table) (k : Kernel) (L : HeadAddr → List Node) (k' : Kernel)
    (L' : HeadAddr → List Node) : Prop
  | kept (h : SameObjects t k L k' L')
  | created {o : Nat} (hfresh : ¬ Allocated k (objects t).nodeKind o)
      (halloc : ∀ i, Allocated k' (objects t).nodeKind i ↔
        i = o ∨ Allocated k (objects t).nodeKind i)
      (hlists : L' (objects t) = L (objects t) ++ [⟨(objects t).nodeKind, o⟩])
  | destroyed {o : Nat}
      (halloc : ∀ i, Allocated k' (objects t).nodeKind i ↔
        i ≠ o ∧ Allocated k (objects t).nodeKind i)
      (hlists : L' (objects t) = (L (objects t)).erase ⟨(objects t).nodeKind, o⟩)

theorem sameObjects_of_pool (hpool : k'.pool (objects t).nodeKind = k.pool (objects t).nodeKind)
    (hlists : L' (objects t) = L (objects t)) : SameObjects t k L k' L' :=
  ⟨fun _ => allocated_of_pool hpool, hlists⟩

theorem SameObjects.trans (h : SameObjects t k L k₁ L₁) (h' : SameObjects t k₁ L₁ k' L') :
    SameObjects t k L k' L' :=
  ⟨fun o => (h'.allocated o).trans (h.allocated o), h'.lists.trans h.lists⟩

theorem ObjectsMoved.trans_same (h : ObjectsMoved t k L k₁ L₁) (h' : SameObjects t k₁ L₁ k' L') :
    ObjectsMoved t k L k' L' := by
  cases h with
  | kept h => exact .kept (h.trans h')
  | created hfresh halloc hlists =>
    exact .created hfresh (fun i => (h'.allocated i).trans (halloc i)) (h'.lists.trans hlists)
  | destroyed halloc hlists =>
    exact .destroyed (fun i => (h'.allocated i).trans (halloc i)) (h'.lists.trans hlists)

theorem ObjectsMoved.after_same (h : SameObjects t k L k₁ L₁) (h' : ObjectsMoved t k₁ L₁ k' L') :
    ObjectsMoved t k L k' L' := by
  cases h' with
  | kept h' => exact .kept (h.trans h')
  | created hfresh halloc hlists =>
    refine .created (fun hused => hfresh ((h.allocated _).mpr hused)) (fun i => ?_)
      (hlists.trans (by rw [h.lists]))
    rw [halloc, h.allocated]
  | destroyed halloc hlists =>
    refine .destroyed (fun i => ?_) (hlists.trans (by rw [h.lists]))
    rw [halloc, h.allocated]

/-- Only pools and lists count. -/
theorem ObjectsMoved.before (h : ObjectsMoved t k₁ L k' L') (hpool : k₁.pool = k.pool) :
    ObjectsMoved t k L k' L' :=
  h.after_same (sameObjects_of_pool (by rw [hpool]) rfl)

/-- The pool of the objects is none of descriptors, of processes or of message queues. -/
theorem objects_kind (ht : t ≠ .mq) (u : Table) : (objects t).nodeKind ≠ u.descriptorKind ∧
    (objects t).nodeKind ≠ u.pointerKind ∧ (objects t).nodeKind ≠ .pcb ∧
    (objects t).nodeKind ≠ .pcbPtr ∧ (objects t).nodeKind ≠ .timerItem ∧
    ¬ QueueKind (objects t).nodeKind := by
  cases t with
  | mq => exact absurd rfl ht
  | resource | semaphore => cases u <;> decide

theorem objects_not_processHead : ¬ ProcessHead (objects t) := by
  cases t <;> exact id

theorem objects_ne (hne : t' ≠ t) : objects t ≠ objects t' := by
  cases t <;> cases t' <;> first | exact absurd rfl hne | simp [objects]

theorem sameObjects_beside (ht : t ≠ .mq) (h : Beside k L k' L') : SameObjects t k L k' L' := by
  obtain ⟨-, -, hpcb, hlink, htimer, -⟩ := objects_kind ht t
  exact sameObjects_of_pool (h.pool _ hpcb hlink htimer) (h.lists _ objects_not_processHead)

theorem sameObjects_restarted (h : Restarted k L p k' L') : SameObjects t k L k' L' :=
  sameObjects_of_pool (h.pool _ (by cases t <;> decide))
    (h.lists_of_ne (by cases t <;> simp [objects]) (by cases t <;> simp [objects]))

theorem sameObjects_added (ht : t ≠ .mq) (h : Added Regular Retained k L t' p o d ptr k') :
    SameObjects t k L k' (withOpened L t' p o d ptr) := by
  obtain ⟨hd, hp, -⟩ := objects_kind ht t'
  exact sameObjects_of_pool (h.pool _ hd hp) withOpened_objects

theorem sameObjects_removed (ht : t ≠ .mq) (h : Removed Regular Retained k L t' p o d ptr k') :
    SameObjects t k L k' (withClosed L t' p o d ptr) := by
  obtain ⟨hd, hp, -⟩ := objects_kind ht t'
  exact sameObjects_of_pool (h.pool _ hd hp) withClosed_objects

theorem sameObjects_queued (ht : t ≠ .mq) (h : Queued k L k' L') : SameObjects t k L k' L' := by
  obtain ⟨-, -, -, -, -, hq⟩ := objects_kind ht t
  exact sameObjects_of_pool (h.pool _ hq) (h.lists _ hq)

theorem objectsMoved_created (h : Created t' k L o k' L') : ObjectsMoved t k L k' L' := by
  by_cases he : t' = t
  · subst he
    refine .created h.fresh (fun i => ?_) ?_
    · rw [h.allocated]
      simp only [true_and]
    · rw [h.lists, Function.update_self]
  · have hne : (objects t).nodeKind ≠ (objects t').nodeKind := by
      cases t <;> cases t' <;> first | exact absurd rfl he | decide
    exact .kept (sameObjects_of_pool (h.pool _ hne)
      (by rw [h.lists, Function.update_of_ne (objects_ne he)]))

theorem objectsMoved_destroyed (h : Destroyed t' k L o k' L') : ObjectsMoved t k L k' L' := by
  by_cases he : t' = t
  · subst he
    refine .destroyed (fun i => ?_) (h.lists ▸ Function.update_self ..)
    rw [h.allocated]
    simp only [true_and]
  · have hne : (objects t).nodeKind ≠ (objects t').nodeKind := by
      cases t <;> cases t' <;> first | exact absurd rfl he | decide
    exact .kept (sameObjects_of_pool (h.pool _ hne)
      (by rw [h.lists, Function.update_of_ne (objects_ne he)]))

/-- A call creates one object, destroys one or leaves them all. -/
theorem objects_called (ht : t ≠ .mq) (h : Called k L r num k' L') :
    ObjectsMoved t k L k' L' := by
  have hrest : ∀ {k : Kernel} {L : HeadAddr → List Node} {v : Int},
      SameObjects t k L (k.setRetvalue r v) L := sameObjects_of_pool rfl rfl
  have hkind := objects_kind ht
  obtain ⟨-, -, hpcb, hlink, -, -⟩ := hkind t
  cases h with
  | refused => exact .kept hrest
  | preempted hb => exact .kept (sameObjects_beside ht hb.beside)
  | slept hb => exact .kept (sameObjects_beside ht hb.beside)
  | waits _ _ hb => exact .kept (sameObjects_beside ht hb.beside)
  | exited _ _ hb => exact .kept (sameObjects_beside ht hb)
  | spawned _ hsp =>
    refine .kept (sameObjects_of_pool (hsp.pool _ hpcb hlink) ?_)
    rw [hsp.lists]
    cases t <;> simp [objects, allocLists]
  | collected _ _ _ _ hcol =>
    refine .kept (sameObjects_of_pool (hcol.pool _ hpcb hlink) ?_)
    rw [hcol.lists]
    cases t <;> simp [objects]
  | reported hd _ hrep =>
    obtain ⟨hdes, hdesPtr, -⟩ := hkind .resource
    refine .kept ((sameObjects_beside ht hd.beside).trans
      (sameObjects_of_pool (hrep.pool _ hpcb hdes hdesPtr) (hrep.lists _ ?_ ?_ ?_ ?_ fun o => ?_)))
    all_goals cases t <;> simp [objects]
  | semOpen h =>
    cases h with
    | refused => exact .kept hrest
    | opened _ ha => exact .kept (sameObjects_added ht ha)
    | created hnew ha =>
      exact (objectsMoved_created hnew.created).trans_same (sameObjects_added ht ha)
    | createdOnly hnew => exact (objectsMoved_created hnew.created).trans_same hrest
  | semWait h =>
    cases h with
    | refused => exact .kept hrest
    | granted => exact .kept (sameObjects_of_pool rfl rfl)
    | blocked _ _ _ hb =>
      refine .kept (sameObjects_of_pool (by rw [hb.rest]) (waitLists_of_ne ?_ ?_ ?_ ?_))
      all_goals cases t <;> simp [objects]
  | semPost h =>
    cases h with
    | refused => exact .kept hrest
    | posted => exact .kept (sameObjects_of_pool rfl rfl)
    | woken _ _ hw =>
      refine .kept (sameObjects_of_pool (by rw [hw.rest]) (postLists_of_ne ?_ ?_ ?_ ?_))
      all_goals cases t <;> simp [objects]
  | semClose h =>
    cases h with
    | refused => exact .kept hrest
    | closed _ _ _ _ hrem =>
      exact .kept ((sameObjects_removed ht hrem).trans (sameObjects_of_pool rfl rfl))
    | @destroyed d sem ptr k₁ k₂ _ _ _ _ _ hrem hdes =>
      have hmoved : ObjectsMoved t k₁ (withClosed L .semaphore r sem d ptr) k₂ L' :=
        (objectsMoved_destroyed hdes).before rfl
      exact (hmoved.after_same (sameObjects_removed ht hrem)).trans_same hrest
  | openResource h =>
    cases h with
    | refused => exact .kept hrest
    | opened _ ha => exact .kept (sameObjects_added ht ha)
    | created hnew ha =>
      exact (objectsMoved_created hnew.created).trans_same (sameObjects_added ht ha)
    | createdOnly hnew => exact (objectsMoved_created hnew.created).trans_same hrest
  | closeResource h =>
    cases h with
    | refused => exact .kept hrest
    | closed _ _ _ hrem => exact .kept ((sameObjects_removed ht hrem).trans hrest)
  | destroyResource h =>
    cases h with
    | refused => exact .kept hrest
    | destroyed hdes => exact (objectsMoved_destroyed hdes).trans_same hrest
  | mqOpen h =>
    cases h with
    | unopened hq => exact .kept (sameObjects_queued ht hq)
    | opened hq _ _ ha => exact .kept ((sameObjects_queued ht hq).trans (sameObjects_added ht ha))
  | mqClose h =>
    cases h with
    | refused => exact .kept hrest
    | closed _ _ _ _ _ hrem =>
      exact .kept ((sameObjects_removed ht hrem).trans (sameObjects_of_pool rfl rfl))
  | mqUse _ hq => exact .kept (sameObjects_queued ht hq)

theorem objects_acted (ht : t ≠ .mq) (h : Acted k L a k' L') : ObjectsMoved t k L k' L' := by
  cases h with
  | ignored => exact .kept (sameObjects_of_pool rfl rfl)
  | called _ h => exact (objects_called ht h).before rfl
  | ticked _ hb =>
    have hsame := sameObjects_beside ht hb.beside
    exact (ObjectsMoved.kept hsame).before rfl
  | restarted hre => exact .kept (sameObjects_restarted hre)
  | stored => exact .kept (sameObjects_of_pool rfl rfl)

/-- Every object in use is in the list of its table. -/
def Stored (t : Table) (k : Kernel) (L : HeadAddr → List Node) : Prop :=
  ∀ o, Allocated k (objects t).nodeKind o → ObjectListed L t o

theorem Stored.moved (h : Stored t k L) (hm : ObjectsMoved t k L k' L') : Stored t k' L' := by
  intro i hi
  unfold ObjectListed
  cases hm with
  | kept hs =>
    rw [hs.lists]
    exact h i ((hs.allocated i).mp hi)
  | created _ halloc hlists =>
    rw [hlists]
    rcases (halloc i).mp hi with rfl | hi
    · exact List.mem_append_right _ List.mem_cons_self
    · exact List.mem_append_left _ (h i hi)
  | destroyed halloc hlists =>
    obtain ⟨hne, hi⟩ := (halloc i).mp hi
    rw [hlists]
    exact (List.mem_erase_of_ne fun he => hne (congrArg Node.idx he)).mpr (h i hi)

theorem stored_boot {mem : Int → UInt8} (hb : Booted mem k) : Stored t k noNodes := by
  intro o ho
  have hkind := ((hb.allocated _ _).mp ho).1
  cases t <;> cases hkind

theorem stored_acted (ht : t ≠ .mq) (h : Stored t k L) (hact : Acted k L a k' L') :
    Stored t k' L' :=
  h.moved (objects_acted ht hact)

theorem regular_objects (ht : t ≠ .mq) : Regular (objects t).nodeKind := by
  cases t with
  | mq => exact absurd rfl ht
  | resource | semaphore => decide

/-- The blocks in use are as many as the list is long. -/
theorem card_stored (hs : Strung Regular Retained k L) (ht : t ≠ .mq) (h : Stored t k L) :
    ((inUse k (objects t).nodeKind).card : Int) = (k.head (objects t)).size := by
  have hreg := regular_objects ht
  have hall : inUse k (objects t).nodeKind = ((L (objects t)).map Node.idx).toFinset := by
    ext o
    rw [mem_inUse, List.mem_toFinset, mem_map_idx hs hreg]
    exact ⟨h o, fun hm => hs.allocated hreg hm⟩
  rw [hall, List.toFinset_card_of_nodup (hs.nodup_idx hreg), List.length_map, hs.size_eq hreg]

/-- No block of a resource or a semaphore is lost: those in use are those in the list, and the
list is as long as blocks are missing in the pool. -/
theorem no_object_leak {mem : Int → UInt8} {k₀ : Kernel} {as : List Action} (ht : t ≠ .mq)
    (hs : Started mem k₀) (h : Run act (fun _ a => Ordinary a) k₀ as k) :
    (∀ o, Allocated k (objects t).nodeKind o ↔ Linked k (objects t) ⟨(objects t).nodeKind, o⟩) ∧
      (k.head (objects t)).size + (k.pool (objects t).nodeKind).size =
        numItems (objects t).nodeKind := by
  obtain ⟨L, hc, hstored⟩ := run_coherent (I := fun k L => Stored t k L) (fun _ _ ha => ha)
    (fun _ _ hb => stored_boot hb) (fun _ _ _ _ _ _ hi _ hact _ _ => stored_acted ht hi hact) hs h
  have hreg := regular_objects ht
  constructor
  · intro o
    rw [hc.tidy.strung.linked_iff hreg]
    exact ⟨hstored o, fun hm => hc.tidy.strung.allocated hreg hm⟩
  · rw [← card_stored hc.tidy.strung ht hstored]
    exact card_inUse hc.tidy.strung.pooled _

/-- Of two resources one has been destroyed. -/
theorem no_object_leak_resources :
    ∃ k₀ k, Started (fun _ => 0) k₀ ∧
      Run act (fun _ a => Ordinary a) k₀
        [.syscall DSOS_CALL_OPEN_RESOURCE [7, 0, 1], .syscall DSOS_CALL_OPEN_RESOURCE [5, 0, 1],
          .syscall DSOS_CALL_CLOSE_RESOURCE [0], .syscall DSOS_CALL_DESTROY_RESOURCE [7]] k ∧
      (k.head .resourcesList).size = 1 ∧
      (∀ o, Allocated k .resource o ↔ Linked k .resourcesList ⟨.resource, o⟩) ∧
      (k.head .resourcesList).size + (k.pool .resource).size = 1024 := by
  obtain ⟨k₀, k, hs, h, htest⟩ := exists_run_from_start (fun _ a => Ordinary a)
    (fun _ a => decide (Ordinary a))
    [.syscall DSOS_CALL_OPEN_RESOURCE [7, 0, 1], .syscall DSOS_CALL_OPEN_RESOURCE [5, 0, 1],
      .syscall DSOS_CALL_CLOSE_RESOURCE [0], .syscall DSOS_CALL_DESTROY_RESOURCE [7]]
    (fun k => (k.head .resourcesList).size = 1) (fun _ _ h => of_decide_eq_true h)
    (by decide +kernel)
  exact ⟨k₀, k, hs, h, of_decide_eq_true htest,
    no_object_leak (t := .resource) (by decide) hs h⟩

/-! ## Identifiers -/

/-- The identifiers of the semaphores in the list. -/
def semaphoreIds (k : Kernel) (L : HeadAddr → List Node) : List Int :=
  (L .semaphoresList).map fun x => (k.semaphore x.idx).id

/-- No identifier is given twice, and none is negative. -/
structure Identified (k : Kernel) (L : HeadAddr → List Node) : Prop where
  nodup : (semaphoreIds k L).Nodup
  nonneg : ∀ i ∈ semaphoreIds k L, 0 ≤ i

/-- The counts may have changed. -/
theorem Identified.kept (h : Identified k L)
    (hids : ∀ s, (k'.semaphore s).id = (k.semaphore s).id)
    (hlists : L' .semaphoresList = L .semaphoresList) : Identified k' L' := by
  have hsame : semaphoreIds k' L' = semaphoreIds k L := by
    unfold semaphoreIds
    rw [hlists]
    exact List.map_congr_left fun x _ => hids x.idx
  exact ⟨hsame ▸ h.nodup, hsame ▸ h.nonneg⟩

theorem Identified.created (hs : Strung Regular Retained k L) (h : Identified k L)
    (hnew : SemCreated k L r s k' L') : Identified k' L' := by
  have hreg : Regular HeadAddr.semaphoresList.nodeKind := (by decide : Regular .semaphore)
  have hlists : L' .semaphoresList = L .semaphoresList ++ [⟨.semaphore, s⟩] := by
    rw [hnew.created.lists]
    exact Function.update_self ..
  have hold : ∀ x ∈ L .semaphoresList, (k'.semaphore x.idx).id = (k.semaphore x.idx).id := by
    intro x hx
    have hne : x.idx ≠ s := by
      rintro rfl
      rw [hs.node_eq (l := .semaphoresList) hreg hx] at hx
      exact hnew.created.fresh (hs.allocated (l := .semaphoresList) hreg hx)
    rw [hnew.semaphore, Function.update_of_ne hne]
  have hids : semaphoreIds k' L' = semaphoreIds k L ++ [toInt (k.arg r 0)] := by
    unfold semaphoreIds
    rw [hlists, List.map_append, List.map_congr_left hold, List.map_singleton, hnew.semaphore,
      Function.update_self]
  constructor
  · rw [hids, List.nodup_append]
    refine ⟨h.nodup, List.nodup_singleton _, fun i hi j hj he => ?_⟩
    obtain ⟨x, hx, rfl⟩ := List.mem_map.mp hi
    rw [List.mem_singleton] at hj
    subst hj
    refine hnew.id_new x.idx ?_ he
    rwa [hs.node_eq (l := .semaphoresList) hreg hx] at hx
  · intro i hi
    rw [hids, List.mem_append, List.mem_singleton] at hi
    rcases hi with hi | rfl
    · exact h.nonneg i hi
    · exact hnew.id_nonneg

theorem Identified.destroyed (h : Identified k L) (hdes : Destroyed .semaphore k L s k' L') :
    Identified k' L' := by
  have hlists : L' .semaphoresList = (L .semaphoresList).erase ⟨.semaphore, s⟩ := by
    rw [hdes.lists]
    exact Function.update_self ..
  have hsem : k'.semaphore = k.semaphore := by rw [hdes.rest]
  have hsub : (semaphoreIds k' L').Sublist (semaphoreIds k L) := by
    unfold semaphoreIds
    rw [hlists, hsem]
    exact List.erase_sublist.map _
  exact ⟨hsub.nodup h.nodup, fun i hi => h.nonneg i (hsub.mem hi)⟩

theorem Identified.added (h : Identified k L)
    (ha : Added Regular Retained k L .semaphore r s d ptr k') :
    Identified k' (withOpened L .semaphore r s d ptr) :=
  have hlist : withOpened L .semaphore r s d ptr (objects .semaphore) = L (objects .semaphore) :=
    withOpened_objects
  h.kept (fun s => by rw [ha.rest]) hlist

theorem Identified.removed (h : Identified k L)
    (hrem : Removed Regular Retained k L .semaphore r s d ptr k') :
    Identified k' (withClosed L .semaphore r s d ptr) :=
  have hlist : withClosed L .semaphore r s d ptr (objects .semaphore) = L (objects .semaphore) :=
    withClosed_objects
  h.kept (fun s => by rw [hrem.rest]) hlist

theorem identified_called (hc : Coherent k L) (h : Identified k L) (hcall : Called k L r num k' L') :
    Identified k' L' := by
  have hs := hc.tidy.strung
  have hcount : ∀ {sem : Nat} {n v : Int} {i : Nat},
      (((k.modSemaphore sem fun q => { q with count := n }).setRetvalue r v).semaphore i).id =
        (k.semaphore i).id := by
    intro sem n v i
    show (Function.update k.semaphore sem _ i).id = _
    rw [Function.update_apply]
    split
    · next he => rw [he]
    · rfl
  rcases semCall_cases hcall with h' | ⟨_, h'⟩ | ⟨_, h'⟩ | ⟨_, h'⟩ | ⟨_, h'⟩
  · exact h.kept (fun i => by rw [h'.semaphore]) (h'.lists .semaphoresList trivial)
  · cases h' with
    | refused => exact h.kept (fun _ => rfl) rfl
    | opened _ ha => exact h.added ha
    | created hnew ha => exact (h.created hs hnew).added ha
    | createdOnly hnew => exact (h.created hs hnew).kept (fun _ => rfl) rfl
  · cases h' with
    | refused => exact h.kept (fun _ => rfl) rfl
    | granted => exact h.kept (fun _ => hcount) rfl
    | blocked _ _ _ hb =>
      exact h.kept (fun i => by rw [hb.rest]) (waitLists_of_ne (by simp) (by simp) (by simp) (by simp))
  · cases h' with
    | refused => exact h.kept (fun _ => rfl) rfl
    | posted => exact h.kept (fun _ => hcount) rfl
    | woken _ _ hw =>
      exact h.kept (fun i => by rw [hw.rest]) (postLists_of_ne (by simp) (by simp) (by simp) (by simp))
  · cases h' with
    | refused => exact h.kept (fun _ => rfl) rfl
    | closed _ _ _ _ hrem => exact (h.removed hrem).kept (fun _ => rfl) rfl
    | @destroyed d sem ptr k₁ _ _ _ _ _ _ hrem hdes =>
      have hclosed : Identified
          (k₁.modPcb r fun q => q.setFdCounter .semaphore (q.fdCounter .semaphore - 1))
          (withClosed L .semaphore r sem d ptr) := (h.removed hrem).kept (fun _ => rfl) rfl
      exact (hclosed.destroyed hdes).kept (fun _ => rfl) rfl

theorem identified_acted (hc : Coherent k L) (h : Identified k L) (hact : Acted k L a k' L') :
    Identified k' L' := by
  cases hact with
  | ignored => exact h.kept (fun _ => rfl) rfl
  | called hr hcall =>
    exact identified_called (coherent_setCall hc hr) (h.kept (fun _ => rfl) rfl) hcall
  | ticked _ hb =>
    have hkept := semsKept_beside hb.beside
    exact h.kept (fun i => by rw [hkept.semaphore]) (hkept.lists .semaphoresList trivial)
  | restarted hre =>
    have hkept := semsKept_restarted hre
    exact h.kept (fun i => by rw [hkept.semaphore]) (hkept.lists .semaphoresList trivial)
  | stored => exact h.kept (fun _ => rfl) rfl

/-! ## The table -/

/-- The descriptor `d` on `s` and its pointer `ptr` refer to each other, and the pointer is
once in the two lists of `s`, which is in use. -/
structure Bound (k : Kernel) (d ptr s : Nat) : Prop where
  listed : Listed k s
  descriptor : Allocated k .semDescriptor d
  pointer : Allocated k .semDescriptorPtr ptr
  object : (k.descriptor .semaphore d).object = some s
  forward : (k.descriptor .semaphore d).ptr = some ptr
  back : k.descriptorPtr .semaphore ptr = some d
  once : ∃ xs ys, Holds k.lists (.users .semaphore s) xs ∧
    Holds k.lists (.waitingDescriptors s) ys ∧ (xs ++ ys).count ⟨.semDescriptorPtr, ptr⟩ = 1

/-- The semaphore table is consistent. -/
structure SemaphoreTable (k : Kernel) : Prop where
  semaphores : ∃ ss : List Nat, Holds k.lists .semaphoresList (ss.map (Node.mk .semaphore)) ∧
    (∀ s, s ∈ ss ↔ Allocated k .semaphore s) ∧ (ss.map fun s => (k.semaphore s).id).Nodup ∧
    ∀ s ∈ ss, 0 ≤ (k.semaphore s).id
  bound : ∀ d, Allocated k .semDescriptor d → ∃ ptr s, Bound k d ptr s
  pointed : ∀ ptr, Allocated k .semDescriptorPtr ptr → ∃ d s, Bound k d ptr s
  used : ∀ s x, Linked k (.users .semaphore s) x ∨ Linked k (.waitingDescriptors s) x → Listed k s
  blocked : ∀ p, (Blocked k p ∧ (k.pcb p).syscallNum = DSOS_CALL_SEMWAIT) ↔
    ∃ s ps, Listed k s ∧ Waiters k s ps ∧ some p ∈ ps
  waitsOnce : ∀ s ps, Waiters k s ps → ps.Nodup ∧ none ∉ ps ∧
    ∀ s' ps', Waiters k s' ps' → s ≠ s' → ∀ o ∈ ps, o ∉ ps'

theorem bound_of_listed (hs : Strung Regular Retained k L) (hl : ObjectListed L .semaphore s)
    (hd : Allocated k .semDescriptor d) (hobject : (k.descriptor .semaphore d).object = some s)
    (hptr : (k.descriptor .semaphore d).ptr = some ptr)
    (hback : k.descriptorPtr .semaphore ptr = some d)
    (hlisted : PointerListed L .semaphore s ptr) : Bound k d ptr s := by
  have hregu : Regular (HeadAddr.users .semaphore s).nodeKind := regular_pointerKind .semaphore
  have hregw : Regular (HeadAddr.waitingDescriptors s).nodeKind := regular_waitingDescriptors s
  have hapart : ¬ (⟨.semDescriptorPtr, ptr⟩ ∈ L (.users .semaphore s) ∧
      ⟨.semDescriptorPtr, ptr⟩ ∈ L (.waitingDescriptors s)) := by
    rintro ⟨hu, hw⟩
    cases hs.apart (l := .users .semaphore s) (j := .waitingDescriptors s) hregu hregw hu hw
  refine ⟨(listed_iff hs).mpr hl, hd, pointer_allocated hs hlisted, hobject, hptr, hback, _, _,
    hs.holds hregu, hs.holds hregw, ?_⟩
  rw [List.count_append]
  rcases hlisted with hu | ⟨-, hw⟩
  · have hu : ⟨.semDescriptorPtr, ptr⟩ ∈ L (.users .semaphore s) := hu
    rw [List.count_eq_one_of_mem (hs.nodup hregu) hu,
      List.count_eq_zero_of_not_mem fun hw => hapart ⟨hu, hw⟩]
  · have hw : ⟨.semDescriptorPtr, ptr⟩ ∈ L (.waitingDescriptors s) := hw
    rw [List.count_eq_one_of_mem (hs.nodup hregw) hw,
      List.count_eq_zero_of_not_mem fun hu => hapart ⟨hu, hw⟩]

theorem semaphoreTable_of (hc : Coherent k L) (hstored : Stored .semaphore k L)
    (hids : Identified k L) (hwatched : Watched k L) : SemaphoreTable k := by
  have hs := hc.tidy.strung
  have htied := hc.tidy.tied .semaphore
  have hreg : Regular HeadAddr.semaphoresList.nodeKind := (by decide : Regular .semaphore)
  have hall : ∀ s, s ∈ (L .semaphoresList).map Node.idx ↔ Allocated k .semaphore s := by
    intro s
    rw [mem_map_idx hs (l := .semaphoresList) hreg]
    exact ⟨fun hm => hs.allocated hreg hm, fun ha => hstored s ha⟩
  have hmap : ((L .semaphoresList).map Node.idx).map (fun s => (k.semaphore s).id) =
      semaphoreIds k L := by
    rw [List.map_map]
    rfl
  have hwaiters : ∀ {s ps}, Waiters k s ps → ps = (view k L).waiters s := waiters_eq hs
  have hhoused : ∀ {s ptr}, PointerListed L .semaphore s ptr → ObjectListed L .semaphore s := by
    rintro s ptr (hu | ⟨-, hw⟩)
    · exact htied.housed s _ hu
    · exact hwatched.listed s (List.ne_nil_of_mem hw)
  refine ⟨⟨_, hs.holds_idx (l := .semaphoresList) hreg, hall, ?_, fun s hm => ?_⟩, fun d hd => ?_,
    fun ptr hp => ?_, fun s x hx => ?_, fun p => ⟨?_, ?_⟩, fun s ps hw => ⟨?_, ?_, ?_⟩⟩
  · rw [hmap]
    exact hids.nodup
  · exact hids.nonneg _ (hmap ▸ List.mem_map_of_mem hm)
  · obtain ⟨s, ptr, hobject, hptr, hback, hlisted⟩ := htied.bound d hd
    exact ⟨ptr, s, bound_of_listed hs (hhoused hlisted) hd hobject hptr hback hlisted⟩
  · obtain ⟨d, hback, hd, hptr⟩ := htied.pointed ptr hp
    obtain ⟨s, ptr', hobject, hptr', -, hlisted⟩ := htied.bound d hd
    obtain rfl : ptr = ptr' := Option.some.inj (hptr.symm.trans hptr')
    exact ⟨d, s, bound_of_listed hs (hhoused hlisted) hd hobject hptr hback hlisted⟩
  · refine (listed_iff hs).mpr ?_
    rcases hx with hx | hx
    · exact htied.housed s x
        ((hs.linked_iff (l := .users .semaphore s) (regular_pointerKind .semaphore)).mp hx)
    · exact hwatched.listed s (List.ne_nil_of_mem
        ((hs.linked_iff (l := .waitingDescriptors s) (regular_waitingDescriptors s)).mp hx))
  · rintro ⟨hblocked, hnum⟩
    obtain ⟨s, hl, hm⟩ := hwatched.waiter hc ((blocked_iff hs).mp hblocked) hnum
    exact ⟨s, _, (listed_iff hs).mpr hl, waiters_view hs, hm⟩
  · rintro ⟨s, ps, -, hw, hm⟩
    rw [hwaiters hw] at hm
    obtain ⟨p', hp', he, hnum⟩ := hc.sound.awaiting.blocked s _ hm
    obtain rfl := Option.some.inj he
    exact ⟨(blocked_iff hs).mpr hp', hnum⟩
  · rw [hwaiters hw]
    exact hc.sound.awaiting.nodup s
  · rw [hwaiters hw]
    intro hm
    obtain ⟨_, _, he, _⟩ := hc.sound.awaiting.blocked s _ hm
    cases he
  · intro s' ps' hw' hne o ho ho'
    rw [hwaiters hw] at ho
    rw [hwaiters hw'] at ho'
    exact hne (hc.sound.awaiting.apart s s' o ho ho')

/-- As long as no `semClose` destroys a semaphore with waiters, the semaphore table is
consistent in every state: no block of a semaphore is lost, and the waiters of the semaphores
in use are the processes blocked in `semWait`. -/
theorem semaphore_table_invariant {mem : Int → UInt8} {k₀ : Kernel} {as : List Action}
    (hs : Started mem k₀) (h : Run act (fun k a => Ordinary a ∧ ¬ StrandsWaiters k a) k₀ as k) :
    SemaphoreTable k := by
  have hb := start_booted hs
  obtain ⟨L, hc, hstored, hids, hwatched⟩ : ∃ L, Coherent k L ∧ Stored .semaphore k L ∧
      Identified k L ∧ Watched k L := by
    refine run_invariant (I := fun k => ∃ L, Coherent k L ∧ Stored .semaphore k L ∧
      Identified k L ∧ Watched k L) ?_
      ⟨noNodes, booted_coherent hb, stored_boot hb, ⟨List.nodup_nil, nofun⟩, watched_noNodes⟩ h
    rintro k a k' ⟨L, hc, hstored, hids, hwatched⟩ ⟨ha, hno⟩ hact
    obtain ⟨L', hacted, hc', hstep⟩ := act_done hc ha hact
    exact ⟨L', hc', stored_acted (by decide) hstored hacted, identified_acted hc hids hacted,
      watched_acted hc hwatched ha hno hact hacted hstep hc'⟩
  exact semaphoreTable_of hc hstored hids hwatched

/-- Init is blocked on one of two semaphores. -/
theorem semaphore_table_invariant_blocked :
    ∃ k₀ k, Started (fun _ => 0) k₀ ∧
      Run act (fun k a => Ordinary a ∧ ¬ StrandsWaiters k a) k₀
        [.syscall DSOS_CALL_SEMOPEN [7, 1, 0], .syscall DSOS_CALL_SEMOPEN [5, 1, 2],
          .syscall DSOS_CALL_SPAWN [0, 0], .syscall DSOS_CALL_SEMWAIT [0]] k ∧
      (k.head .semaphoresList).size = 2 ∧ Blocked k 0 ∧ SemaphoreTable k := by
  obtain ⟨k₀, k, hs, h, htest⟩ := exists_run_from_start _ closesNothing
    [.syscall DSOS_CALL_SEMOPEN [7, 1, 0], .syscall DSOS_CALL_SEMOPEN [5, 1, 2],
      .syscall DSOS_CALL_SPAWN [0, 0], .syscall DSOS_CALL_SEMWAIT [0]]
    (fun k => (k.head .semaphoresList).size = 2 ∧ (k.head .waitingList).first = some ⟨.pcb, 0⟩)
    not_strands_of_closesNothing (by decide +kernel)
  obtain ⟨hsize, hfirst⟩ := of_decide_eq_true htest
  exact ⟨k₀, k, hs, h, hsize, linked_first hfirst, semaphore_table_invariant hs h⟩

end DisastrOS.Semaphore.TableInvariant
