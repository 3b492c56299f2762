import DisastrOS.Process.FdTables

/-!
# The resource table

The resources, their descriptors and the pointers to these refer to each other in every
state of every run, and the descriptors of a process have different numbers.
-/
namespace DisastrOS.Resource.TableInvariant

open DisastrOS.Machine
open DisastrOS.Machine.Kernel
open DisastrOS.Machine.Runs
open DisastrOS.Lists.Sequences
open DisastrOS.Lists.Wiring
open DisastrOS.Lists.RegularLists
open DisastrOS.Lists.Boot
open DisastrOS.Pool.Blocks
open DisastrOS.Descriptors.Bindings
open DisastrOS.Descriptors.Tables
open DisastrOS.Process.Coherence
open DisastrOS.Process.Creation
open DisastrOS.Process.Exit
open DisastrOS.Process.FdTables
open DisastrOS.Process.Handles
open DisastrOS.Process.SystemRuns
open DisastrOS.Process.Transitions
open DisastrOS.Process.View
open DisastrOS.Process.Waiting
open DisastrOS.Semaphore.Calls
open DisastrOS.Resource.Calls
open DisastrOS.MessageQueue.CoherentCalls
open DisastrOS.Library.GuardedRun

variable {k k' k₁ : Kernel} {L L' L₁ : HeadAddr → List Node} {t : Table} {r p o d ptr : Nat}
  {num : Int} {a : Action}

/-- The descriptor `d` and its pointer `ptr` refer to each other. -/
def Paired (k : Kernel) (d ptr : Nat) : Prop :=
  Allocated k .descriptor d ∧ Allocated k .descriptorPtr ptr ∧
    (k.descriptor .resource d).ptr = some ptr ∧ k.descriptorPtr .resource ptr = some d

/-- What a pair of descriptor and pointer has to do with its resource. -/
structure OnResource (k : Kernel) (d ptr o : Nat) : Prop where
  resource : (k.descriptor .resource d).object = some o
  allocated : Allocated k .resource o
  listed : Linked k .resourcesList ⟨.resource, o⟩
  once : ∃ xs, Holds k.lists (.users .resource o) xs ∧ xs.count ⟨.descriptorPtr, ptr⟩ = 1

/-- The resource table is consistent. -/
structure ResourceTable (k : Kernel) : Prop where
  ids : ∃ rs : List Nat, Holds k.lists .resourcesList (rs.map (Node.mk .resource)) ∧
    (rs.map fun i => (k.resource i).id).Nodup
  paired : ∀ d, Allocated k .descriptor d → ∃ ptr, Paired k d ptr ∧ ∃ o, OnResource k d ptr o
  pointed : ∀ ptr, Allocated k .descriptorPtr ptr → ∃ d, Paired k d ptr
  -- the second allocation of `internal_openResource` succeeds when the first does
  pointerFree : ∀ fd res p d k', k.descriptorAlloc .resource fd res p = some (d, k') →
    k'.descriptorPtrAlloc .resource d ≠ none
  owned : ∀ p, Allocated k .pcb p →
    ∃ ds : List Nat, Holds k.lists (.opened .resource p) (ds.map (Node.mk .descriptor)) ∧
      (∀ d ∈ ds, (k.descriptor .resource d).pcb = some p) ∧
      (ds.map fun d => (k.descriptor .resource d).fd).Nodup ∧
      ∀ d ∈ ds, (k.descriptor .resource d).fd < (k.pcb p).lastFd

/-! ## Identifiers -/

/-- The identifiers of the resources in the list. -/
def resourceIds (k : Kernel) (L : HeadAddr → List Node) : List Int :=
  (L .resourcesList).map fun x => (k.resource x.idx).id

/-- The resources are as before. -/
structure ResKept (k : Kernel) (L : HeadAddr → List Node) (k' : Kernel)
    (L' : HeadAddr → List Node) : Prop where
  resource : k'.resource = k.resource
  listed : L' .resourcesList = L .resourcesList

theorem ResKept.eq (h : ResKept k L k' L') : resourceIds k' L' = resourceIds k L := by
  unfold resourceIds
  rw [h.resource, h.listed]

theorem resKept_added (h : Added Regular Retained k L t r o d ptr k') :
    ResKept k L k' (withOpened L t r o d ptr) := by
  refine ⟨by rw [h.rest], ?_⟩
  unfold withOpened
  rw [Function.update_of_ne (by simp), Function.update_of_ne (by simp)]

theorem resKept_removed (h : Removed Regular Retained k L t r o d ptr k') :
    ResKept k L k' (withClosed L t r o d ptr) := by
  refine ⟨by rw [h.rest], ?_⟩
  unfold withClosed
  rw [Function.update_of_ne (by simp), Function.update_of_ne (by simp)]

theorem ResKept.trans {k'' : Kernel} {L'' : HeadAddr → List Node} (h : ResKept k L k' L')
    (h' : ResKept k' L' k'' L'') : ResKept k L k'' L'' :=
  ⟨h'.resource.trans h.resource, h'.listed.trans h.listed⟩

theorem resKept_semCreated (h : SemCreated k L r o k' L') : ResKept k L k' L' := by
  refine ⟨by rw [h.rest], ?_⟩
  rw [h.created.lists, Function.update_of_ne (by simp [objects])]

theorem resKept_queued (h : Queued k L k' L') : ResKept k L k' L' :=
  ⟨by rw [h.rest], h.lists _ (by decide)⟩

/-- Only the calls on resources change the resources. -/
theorem resources_called (h : Called k L r num k' L') :
    ResKept k L k' L' ∨ ResOpened k L r k' L' ∨ ResDestroyed k L r k' L' := by
  cases h with
  | refused => exact .inl ⟨rfl, rfl⟩
  | preempted hs _ => exact .inl ⟨by rw [hs.rest], hs.lists _ not_false⟩
  | slept hs _ => exact .inl ⟨by rw [hs.rest], hs.lists _ not_false⟩
  | spawned _ hsp =>
    refine .inl ⟨by rw [hsp.rest], ?_⟩
    rw [hsp.lists, Function.update_of_ne (by simp), Function.update_of_ne (by simp)]
    exact allocLists_of_ne nofun nofun nofun
  | collected _ _ _ _ hcol =>
    refine .inl ⟨by rw [hcol.rest], ?_⟩
    rw [hcol.lists, Function.update_of_ne (by simp), Function.update_of_ne (by simp)]
  | waits _ _ hs => exact .inl ⟨by rw [hs.rest], hs.lists _ not_false⟩
  | exited _ _ hb _ _ => exact .inl ⟨by rw [hb.rest], hb.lists _ not_false⟩
  | reported hd _ hrep =>
    refine .inl ⟨by rw [hrep.rest, hd.rest], ?_⟩
    rw [hrep.lists _ (by simp) (by simp) (by simp) (by simp) (by simp)]
    exact hd.beside.lists _ not_false
  | semOpen ho =>
    cases ho with
    | refused => exact .inl ⟨rfl, rfl⟩
    | opened _ h => exact .inl (resKept_added h)
    | created hnew h => exact .inl ((resKept_semCreated hnew).trans (resKept_added h))
    | createdOnly hnew _ => exact .inl ((resKept_semCreated hnew).trans ⟨rfl, rfl⟩)
  | semWait ho =>
    cases ho with
    | refused => exact .inl ⟨rfl, rfl⟩
    | granted => exact .inl ⟨rfl, rfl⟩
    | blocked _ _ _ h => exact .inl ⟨by rw [h.rest], waitLists_of_ne nofun nofun nofun nofun⟩
  | semPost ho =>
    cases ho with
    | refused => exact .inl ⟨rfl, rfl⟩
    | posted => exact .inl ⟨rfl, rfl⟩
    | woken _ _ h => exact .inl ⟨by rw [h.rest], postLists_of_ne nofun nofun nofun nofun⟩
  | semClose ho =>
    cases ho with
    | refused => exact .inl ⟨rfl, rfl⟩
    | closed _ _ _ _ h _ => exact .inl ((resKept_removed h).trans ⟨rfl, rfl⟩)
    | destroyed _ _ _ _ h hd =>
      have hkept := resKept_removed h
      refine .inl ⟨?_, ?_⟩
      · show (_ : Kernel).resource = _
        rw [hd.rest]
        exact hkept.resource
      · rw [hd.lists, Function.update_of_ne (by simp [objects])]
        exact hkept.listed
  | openResource ho => exact .inr (.inl ho)
  | closeResource ho =>
    cases ho with
    | refused => exact .inl ⟨rfl, rfl⟩
    | closed _ _ _ h => exact .inl ((resKept_removed h).trans ⟨rfl, rfl⟩)
  | destroyResource ho => exact .inr (.inr ho)
  | mqOpen ho =>
    cases ho with
    | unopened h => exact .inl (resKept_queued h)
    | opened hq _ _ h => exact .inl ((resKept_queued hq).trans (resKept_added h))
  | mqClose ho =>
    cases ho with
    | refused => exact .inl ⟨rfl, rfl⟩
    | closed _ _ _ _ _ h => exact .inl ((resKept_removed h).trans ⟨rfl, rfl⟩)
  | mqUse _ hq => exact .inl (resKept_queued hq)

/-- A new resource gets an identifier that no other has. -/
theorem resourceIds_created (hs : Strung Regular Retained k L) (h : ResCreated k L r o k' L')
    (hn : (resourceIds k L).Nodup) : (resourceIds k' L').Nodup := by
  have hreg : Regular HeadAddr.resourcesList.nodeKind := (by decide : Regular .resource)
  have hlists : L' .resourcesList = L .resourcesList ++ [⟨.resource, o⟩] := by
    rw [h.created.lists]
    exact Function.update_self ..
  have hold : ∀ x ∈ L .resourcesList, (k'.resource x.idx).id = (k.resource x.idx).id := by
    intro x hx
    have hne : x.idx ≠ o := by
      rintro rfl
      have hlive := hs.live .resourcesList x hreg hx
      rw [hs.kind .resourcesList x hreg hx] at hlive
      exact h.created.fresh hlive
    rw [h.resource, Function.update_of_ne hne]
  have hids : resourceIds k' L' = resourceIds k L ++ [toInt (k.arg r 0)] := by
    unfold resourceIds
    rw [hlists, List.map_append, List.map_congr_left hold, List.map_singleton, h.resource,
      Function.update_self]
  rw [hids, List.nodup_append]
  refine ⟨hn, List.nodup_singleton _, fun i hi j hj he => ?_⟩
  obtain ⟨x, hx, rfl⟩ := List.mem_map.mp hi
  rw [List.mem_singleton] at hj
  subst hj
  refine h.id_new x.idx ?_ he
  rw [hs.node_eq (l := .resourcesList) hreg hx] at hx
  exact hx

theorem resourceIds_destroyed (h : Destroyed .resource k L o k' L') (hn : (resourceIds k L).Nodup) :
    (resourceIds k' L').Nodup := by
  have hlists : L' .resourcesList = (L .resourcesList).erase ⟨.resource, o⟩ := by
    rw [h.lists]
    exact Function.update_self ..
  have hresource : k'.resource = k.resource := by rw [h.rest]
  unfold resourceIds
  rw [hlists, hresource]
  exact (List.erase_sublist.map _).nodup hn

theorem resourceIds_setRetvalue (v : Int) : resourceIds (k.setRetvalue r v) L = resourceIds k L :=
  rfl

theorem resourceIds_called (hc : Coherent k L) (h : Called k L r num k' L')
    (hn : (resourceIds k L).Nodup) : (resourceIds k' L').Nodup := by
  have hs := hc.tidy.strung
  rcases resources_called h with hkept | ho | ho
  · rw [hkept.eq]
    exact hn
  · cases ho with
    | refused => exact hn
    | opened _ hadded =>
      rw [(resKept_added hadded).eq]
      exact hn
    | created hnew hadded =>
      rw [(resKept_added hadded).eq]
      exact resourceIds_created hs hnew hn
    | createdOnly hnew _ =>
      rw [resourceIds_setRetvalue]
      exact resourceIds_created hs hnew hn
  · cases ho with
    | refused => exact hn
    | destroyed hd =>
      rw [resourceIds_setRetvalue]
      exact resourceIds_destroyed hd hn

theorem resourceIds_acted (hc : Coherent k L) (h : Acted k L a k' L')
    (hn : (resourceIds k L).Nodup) : (resourceIds k' L').Nodup := by
  cases h with
  | ignored => exact hn
  | called hr hcall => exact resourceIds_called (coherent_setCall hc hr) hcall hn
  | ticked _ hs =>
    have hkept : ResKept _ L k' L' := ⟨by rw [hs.rest], hs.lists _ not_false⟩
    rw [hkept.eq]
    exact hn
  | restarted hre =>
    have hkept : ResKept _ L k' L' := ⟨by rw [hre.rest], hre.lists_of_ne (by simp) (by simp)⟩
    rw [hkept.eq]
    exact hn
  | stored => exact hn

/-! ## Numbers -/

/-- The open descriptors have different numbers, all of them given out before. -/
structure Numbered (s : FdTable) : Prop where
  nodup : s.fds.Nodup
  below : ∀ fd ∈ s.fds, fd < s.next

/-- Numbers are given out in ascending order, and never again. -/
theorem numbered_step {s s' : FdTable} (h : Numbered s) (hstep : FdStep .resource True s s') :
    Numbered s' := by
  cases hstep with
  | kept => exact h
  | opened =>
    refine ⟨?_, fun fd hfd => ?_⟩
    · rw [List.nodup_append]
      refine ⟨h.nodup, List.nodup_singleton _, fun i hi j hj he => ?_⟩
      rw [List.mem_singleton] at hj
      have hlt := h.below i hi
      omega
    · show fd < s.next + 1
      rcases List.mem_append.mp hfd with hfd | hfd
      · have hlt := h.below fd hfd
        omega
      · rw [List.mem_singleton] at hfd
        omega
  | closed as fd bs next =>
    have hsub : (as ++ bs).Sublist (as ++ fd :: bs) :=
      (List.sublist_cons_self fd bs).append_left as
    rw [if_pos rfl]
    exact ⟨hsub.nodup h.nodup, fun i hi => h.below i (hsub.mem hi)⟩

/-! ## The table -/

theorem paired_of_tied (hs : Strung Regular Retained k L) (h : Tied .resource k L)
    (hd : Allocated k .descriptor d) :
    ∃ ptr, Paired k d ptr ∧ ∃ o, OnResource k d ptr o := by
  obtain ⟨o, ptr, hobject, hptr, hback, hlisted⟩ := h.bound d hd
  have hu : ⟨.descriptorPtr, ptr⟩ ∈ L (.users .resource o) := by
    rcases hlisted with hu | ⟨hno, _⟩
    · exact hu
    · cases hno
  have hreg : Regular (HeadAddr.users .resource o).nodeKind := regular_pointerKind .resource
  have hreg' : Regular HeadAddr.resourcesList.nodeKind := (by decide : Regular .resource)
  have ho : ⟨.resource, o⟩ ∈ L .resourcesList := h.housed o _ hu
  refine ⟨ptr, ⟨hd, hs.allocated hreg hu, hptr, hback⟩, o, hobject, hs.allocated hreg' ho,
    (hs.linked_iff hreg').mpr ho, _, hs.holds hreg, ?_⟩
  exact List.count_eq_one_of_mem (hs.nodup hreg) hu

theorem pointed_of_tied (h : Tied .resource k L) (hp : Allocated k .descriptorPtr ptr) :
    ∃ d, Paired k d ptr := by
  obtain ⟨d, hback, hd, hptr⟩ := h.pointed ptr hp
  exact ⟨d, hd, hp, hptr, hback⟩

theorem pointerFree_of_tied (hs : Strung Regular Retained k L) (h : Tied .resource k L)
    {fd : Int} {res : Nat} (halloc : k.descriptorAlloc .resource fd res p = some (d, k')) :
    k'.descriptorPtrAlloc .resource d ≠ none := by
  unfold descriptorAlloc at halloc
  cases hnew : k.newItem Table.resource.descriptorKind with
  | none =>
    rw [hnew] at halloc
    cases halloc
  | some new =>
    obtain ⟨i, k₁⟩ := new
    rw [hnew] at halloc
    cases halloc
    have hf := newItem_fresh hs.pooled hnew
    have hpooled : Pooled (k₁.setDescriptor .resource d
        ⟨some p, some res, fd, (k₁.descriptor .resource d).ptr⟩) := pooled_congr rfl hf.pooled
    unfold descriptorPtrAlloc
    cases hnew₂ : (k₁.setDescriptor .resource d
        ⟨some p, some res, fd, (k₁.descriptor .resource d).ptr⟩).newItem
          Table.resource.pointerKind with
    | some new₂ =>
      obtain ⟨_, _⟩ := new₂
      exact Option.some_ne_none _
    | none =>
      -- the pool of pointers has as many free blocks as that of descriptors had
      have hsize : (k₁.pool .descriptorPtr).size = 0 := (newItem_eq_none hpooled).mp hnew₂
      have hpool : k₁.pool .descriptorPtr = k.pool .descriptorPtr := fresh_pool hf (by decide)
      have hlevel : (k.pool .descriptor).size = (k.pool .descriptorPtr).size := h.level
      rw [hpool, ← hlevel] at hsize
      have hnone : k.newItem .descriptor = none := (newItem_eq_none hs.pooled).mpr hsize
      cases hnone.symm.trans hnew

theorem owned_of_numbered (hs : Strung Regular Retained k L) (h : Tied .resource k L)
    (hn : Numbered (fdTable .resource k L p)) :
    ∃ ds : List Nat, Holds k.lists (.opened .resource p) (ds.map (Node.mk .descriptor)) ∧
      (∀ d ∈ ds, (k.descriptor .resource d).pcb = some p) ∧
      (ds.map fun d => (k.descriptor .resource d).fd).Nodup ∧
      ∀ d ∈ ds, (k.descriptor .resource d).fd < (k.pcb p).lastFd := by
  have hreg : Regular (HeadAddr.opened .resource p).nodeKind := regular_descriptorKind .resource
  have hfds : ((L (.opened .resource p)).map Node.idx).map (fun d => (k.descriptor .resource d).fd) =
      (fdTable .resource k L p).fds := by
    rw [List.map_map]
    rfl
  refine ⟨(L (.opened .resource p)).map Node.idx, hs.holds_idx hreg, fun d hd => ?_, ?_,
    fun d hd => ?_⟩
  · exact h.owner p d ((mem_map_idx hs (l := .opened .resource p) hreg).mp hd)
  · rw [hfds]
    exact hn.nodup
  · exact hn.below _ (hfds ▸ List.mem_map_of_mem hd)

/-- The resource table is consistent in every state of every run. -/
theorem resource_table_invariant {mem : Int → UInt8} {k₀ : Kernel} {as : List Action}
    (hs : Started mem k₀) (h : Run act (fun _ a => Ordinary a) k₀ as k) : ResourceTable k := by
  have hempty : Numbered ⟨[], 0⟩ := ⟨List.nodup_nil, nofun⟩
  obtain ⟨L₁, hc₁, hnumbered⟩ :=
    run_fdTable (t := .resource) (by decide) hempty (fun _ _ => numbered_step) hs h
  obtain ⟨L, hc, hids⟩ := run_coherent (I := fun k L => (resourceIds k L).Nodup)
    (fun _ _ ha => ha) (fun _ _ _ => List.nodup_nil)
    (fun _ _ _ _ _ hc hn _ hact _ _ => resourceIds_acted hc hact hn) hs h
  have hstrung := hc.tidy.strung
  have htied := hc.tidy.tied .resource
  refine ⟨⟨(L .resourcesList).map Node.idx, ?_, ?_⟩, fun d hd => paired_of_tied hstrung htied hd,
    fun ptr hp => pointed_of_tied htied hp, fun fd res p d k' => pointerFree_of_tied hstrung htied,
    fun p hp => owned_of_numbered hc₁.tidy.strung (hc₁.tidy.tied .resource) (hnumbered p hp)⟩
  · exact hstrung.holds_idx (l := .resourcesList) (by decide : Regular .resource)
  · rw [List.map_map]
    exact hids

/-- The first process has two descriptors on one resource and none on another. -/
theorem resource_table_invariant_shared :
    ∃ k₀ k, Started (fun _ => 0) k₀ ∧
      Run act (fun _ a => Ordinary a) k₀
        [.syscall DSOS_CALL_OPEN_RESOURCE [7, 0, 1], .syscall DSOS_CALL_OPEN_RESOURCE [5, 0, 1],
          .syscall DSOS_CALL_OPEN_RESOURCE [5, 0, 0], .syscall DSOS_CALL_CLOSE_RESOURCE [0]] k ∧
      (k.head .resourcesList).size = 2 ∧ (k.head (.opened .resource 0)).size = 2 ∧
      ResourceTable k := by
  obtain ⟨k₀, k, hs, h, htest⟩ := exists_run_from_start (fun _ a => Ordinary a)
    (fun _ a => decide (Ordinary a))
    [.syscall DSOS_CALL_OPEN_RESOURCE [7, 0, 1], .syscall DSOS_CALL_OPEN_RESOURCE [5, 0, 1],
      .syscall DSOS_CALL_OPEN_RESOURCE [5, 0, 0], .syscall DSOS_CALL_CLOSE_RESOURCE [0]]
    (fun k => (k.head .resourcesList).size = 2 ∧ (k.head (.opened .resource 0)).size = 2)
    (fun _ _ h => of_decide_eq_true h) (by decide +kernel)
  obtain ⟨hresources, hopened⟩ := of_decide_eq_true htest
  exact ⟨k₀, k, hs, h, hresources, hopened, resource_table_invariant hs h⟩

end DisastrOS.Resource.TableInvariant
