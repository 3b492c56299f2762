import DisastrOS.Process.FreshStart
import DisastrOS.Process.Isolation
import Mathlib.Data.List.Find

/-!
# Open descriptors stay open

What a file descriptor of a process is bound to does not change until the process closes it or
exits, whatever the process and all others do meanwhile.
-/
namespace DisastrOS.Process.OpenHandles

open DisastrOS.Machine
open DisastrOS.Machine.Kernel
open DisastrOS.Machine.Runs
open DisastrOS.Descriptors.Bindings
open DisastrOS.Descriptors.Tables
open DisastrOS.Lists.RegularLists
open DisastrOS.Lists.QueueChains
open DisastrOS.Lists.Wiring
open DisastrOS.Pool.Blocks
open DisastrOS.Process.Table
open DisastrOS.Process.View
open DisastrOS.Process.Coherence
open DisastrOS.Process.Creation
open DisastrOS.Process.FdTables
open DisastrOS.Process.FreshStart
open DisastrOS.Process.Handles
open DisastrOS.Process.Isolation
open DisastrOS.Process.SystemRuns
open DisastrOS.Process.Transitions
open DisastrOS.Semaphore.Calls
open DisastrOS.Resource.Calls
open DisastrOS.MessageQueue.Calls
open DisastrOS.MessageQueue.CoherentCalls
open DisastrOS.Library.GuardedRun
open DisastrOS.Library.Outcome

variable {mem : Int → UInt8} {k k' k₀ : Kernel} {L L' : HeadAddr → List Node} {t t' : Table}
  {p r o d ptr : Nat} {fd num : Int} {a : Action} {as bs : List Action} {xs ys : List Node}
  {x : Node} {D D' : Nat → Descriptor} {b : Nat × Nat}

/-! ## Looking up a number -/

/-- The first descriptor of a list with the number `fd`, and its object. -/
def byFd (D : Nat → Descriptor) (xs : List Node) (fd : Int) : Option (Nat × Nat) :=
  ((xs.map Node.idx).find? fun d => (D d).fd = fd).bind fun d => (D d).object.map fun o => (d, o)

theorem boundTo_eq (hs : Strung Regular Retained k L) :
    k.boundTo t p fd = .ok (byFd (k.descriptor t) (L (.opened t p)) fd) := by
  have hreg : Regular (HeadAddr.opened t p).nodeKind := regular_descriptorKind t
  unfold boundTo descriptorListByFd byFd
  rw [hs.search_pure hreg]
  cases ((L (.opened t p)).map Node.idx).find? fun d => decide ((k.descriptor t d).fd = fd) with
  | none => rfl
  | some d => rfl

theorem byFd_congr (h : ∀ x ∈ xs, D' x.idx = D x.idx) : byFd D' xs fd = byFd D xs fd := by
  unfold byFd
  have hfind : (xs.map Node.idx).find? (fun d => decide ((D' d).fd = fd)) =
      (xs.map Node.idx).find? fun d => decide ((D d).fd = fd) := by
    refine List.find?_congr fun d hd => ?_
    obtain ⟨x, hx, rfl⟩ := List.mem_map.mp hd
    rw [h x hx]
  rw [hfind]
  cases hf : (xs.map Node.idx).find? fun d => decide ((D d).fd = fd) with
  | none => rfl
  | some d =>
    obtain ⟨x, hx, rfl⟩ := List.mem_map.mp (List.mem_of_find?_eq_some hf)
    show (D' x.idx).object.map _ = (D x.idx).object.map _
    rw [h x hx]

/-- What is opened later does not come before what is open. -/
theorem byFd_append (h : byFd D xs fd = some b) : byFd D (xs ++ ys) fd = some b := by
  unfold byFd at h ⊢
  rw [List.map_append, List.find?_append]
  cases hf : (xs.map Node.idx).find? fun d => decide ((D d).fd = fd) with
  | none =>
    rw [hf] at h
    cases h
  | some d =>
    rw [hf] at h
    exact h

/-- An element that is not looked for can be erased. -/
theorem find?_erase {α : Type} [BEq α] [LawfulBEq α] {q : α → Bool} {x : α} {xs : List α}
    (hx : q x = false) : (xs.erase x).find? q = xs.find? q := by
  induction xs with
  | nil => rfl
  | cons y ys ih =>
    rw [List.erase_cons]
    split
    · next he =>
      obtain rfl := eq_of_beq he
      rw [List.find?_cons, hx]
    · rw [List.find?_cons, List.find?_cons, ih]

/-- A descriptor with another number can be closed. -/
theorem byFd_erase (hne : (D x.idx).fd ≠ fd) : byFd D (xs.erase x) fd = byFd D xs fd := by
  unfold byFd
  have herase : (xs.erase x).find? (fun y => decide ((D y.idx).fd = fd)) =
      xs.find? fun y => decide ((D y.idx).fd = fd) := find?_erase (decide_eq_false hne)
  have hfind : ∀ zs : List Node, (zs.map Node.idx).find? (fun d => decide ((D d).fd = fd)) =
      (zs.find? fun y => decide ((D y.idx).fd = fd)).map Node.idx := fun zs => List.find?_map
  rw [hfind, hfind, herase]

/-! ## Opening and closing -/

/-- A process whose descriptors are as before has bound what it had. -/
theorem boundTo_same (hs : Strung Regular Retained k L) (hs' : Strung Regular Retained k' L')
    (hopened : L' (.opened t p) = L (.opened t p))
    (hd : ∀ x ∈ L (.opened t p), k'.descriptor t x.idx = k.descriptor t x.idx) :
    k'.boundTo t p fd = k.boundTo t p fd := by
  rw [boundTo_eq hs, boundTo_eq hs', hopened, byFd_congr hd]

theorem boundTo_kept (hs : Strung Regular Retained k L) (hs' : Strung Regular Retained k' L')
    (h : FdsKept t k L k' L') : k'.boundTo t p fd = k.boundTo t p fd :=
  boundTo_same hs hs' (h.opened p) fun _ _ => by rw [h.descriptor]

theorem boundTo_spared (hs : Strung Regular Retained k L) (hs' : Strung Regular Retained k' L')
    (h : Spared p k L k' L') : k'.boundTo t p fd = k.boundTo t p fd :=
  boundTo_same hs hs' (h.opened t) (h.descriptor t)

theorem boundTo_created (hs : Strung Regular Retained k L) (h : Created t' k L o k' L') :
    k'.boundTo t p fd = k.boundTo t p fd :=
  boundTo_kept hs h.woven.strung (fdsKept_created h)

theorem boundTo_setRetvalue (v : Int) :
    (k.setRetvalue r v).boundTo t p fd = k.boundTo t p fd :=
  boundTo_congr rfl rfl

theorem boundTo_modPcb (f : PCB → PCB) : (k.modPcb r f).boundTo t p fd = k.boundTo t p fd :=
  boundTo_congr rfl rfl

/-- What a process opens does not hide what it has open. -/
theorem boundTo_added (hs : Strung Regular Retained k L)
    (h : Added Regular Retained k L t' r o d ptr k') (hb : k.boundTo t r fd = .ok (some b)) :
    k'.boundTo t r fd = .ok (some b) := by
  by_cases ht : t = t'
  · subst ht
    have hreg : Regular (HeadAddr.opened t r).nodeKind := regular_descriptorKind t
    have hold : ∀ x ∈ L (.opened t r), k'.descriptor t x.idx = k.descriptor t x.idx := by
      intro x hx
      have hne : x.idx ≠ d := by
        rintro rfl
        have hlive := hs.live _ x hreg hx
        rw [hs.kind _ x hreg hx] at hlive
        exact h.freshDescriptor hlive
      rw [h.descriptor, Function.update_self, Function.update_of_ne hne]
    have hlist : withOpened L t r o d ptr (.opened t r) =
        L (.opened t r) ++ [⟨t.descriptorKind, d⟩] := by
      unfold withOpened
      rw [Function.update_of_ne (by simp), Function.update_self]
    rw [boundTo_eq hs, Except.ok.injEq, ← byFd_congr hold] at hb
    rw [boundTo_eq h.strung, hlist, byFd_append hb]
  · rw [boundTo_kept hs h.strung (fdsKept_added h ht)]
    exact hb

/-- Closing a number leaves the others as they are. -/
theorem boundTo_removed (hs : Strung Regular Retained k L)
    (h : Removed Regular Retained k L t' r o d ptr k')
    (hne : t = t' → (k.descriptor t d).fd ≠ fd) : k'.boundTo t r fd = k.boundTo t r fd := by
  by_cases ht : t = t'
  · subst ht
    have hlist : withClosed L t r o d ptr (.opened t r) =
        (L (.opened t r)).erase ⟨t.descriptorKind, d⟩ := by
      unfold withClosed
      rw [Function.update_of_ne (by simp), Function.update_self]
    have hdescriptor : k'.descriptor = k.descriptor := by rw [h.rest]
    rw [boundTo_eq hs, boundTo_eq h.strung, hlist, hdescriptor, byFd_erase (hne rfl)]
  · exact boundTo_kept hs h.strung (fdsKept_removed h ht)

theorem boundTo_semOpen (hc : Coherent k L) (h : SemOpened k L r k' L')
    (hb : k.boundTo t r fd = .ok (some b)) : k'.boundTo t r fd = .ok (some b) := by
  have hs := hc.tidy.strung
  cases h with
  | refused => rwa [boundTo_setRetvalue]
  | opened _ h => exact boundTo_added hs h hb
  | created hnew h =>
    rw [← boundTo_created hs hnew.created] at hb
    exact boundTo_added hnew.created.woven.strung h hb
  | createdOnly hnew => rwa [boundTo_setRetvalue, boundTo_created hs hnew.created]

theorem boundTo_openResource (hc : Coherent k L) (h : ResOpened k L r k' L')
    (hb : k.boundTo t r fd = .ok (some b)) : k'.boundTo t r fd = .ok (some b) := by
  have hs := hc.tidy.strung
  cases h with
  | refused => rwa [boundTo_setRetvalue]
  | opened _ h => exact boundTo_added hs h hb
  | created hnew h =>
    rw [← boundTo_created hs hnew.created] at hb
    exact boundTo_added hnew.created.woven.strung h hb
  | createdOnly hnew => rwa [boundTo_setRetvalue, boundTo_created hs hnew.created]

theorem boundTo_mqOpen (hc : Coherent k L) (h : MqOpened k L r k' L')
    (hb : k.boundTo t r fd = .ok (some b)) : k'.boundTo t r fd = .ok (some b) := by
  have hs := hc.tidy.strung
  cases h with
  | unopened h => rwa [boundTo_kept hs h.settled.strung (fdsKept_queued h)]
  | opened hq _ _ h =>
    rw [← boundTo_kept hs hq.settled.strung (fdsKept_queued hq)] at hb
    exact boundTo_added hq.settled.strung h hb

/-- The number that a close is called with is not `fd`. -/
theorem boundTo_semClose (hc : Coherent k L) (h : SemClosed k L r k' L')
    (hfd : t = .semaphore → toInt (k.arg r 0) ≠ fd) : k'.boundTo t r fd = k.boundTo t r fd := by
  have hs := hc.tidy.strung
  have hne {d sem : Nat} (hd : SemFd k r d sem) : t = .semaphore → (k.descriptor t d).fd ≠ fd := by
    rintro rfl
    rw [(boundTo_listed hs hd.bound).2.1]
    exact hfd rfl
  cases h with
  | refused => exact boundTo_setRetvalue _
  | closed hd _ _ _ h =>
    rw [boundTo_setRetvalue, boundTo_modPcb]
    exact boundTo_removed hs h (hne hd)
  | @destroyed _ sem ptr k₁ k₂ _ hd _ _ _ h hfree =>
    have hs₁ : Strung Regular Retained (k₁.modPcb r fun q =>
      q.setFdCounter .semaphore (q.fdCounter .semaphore - 1)) _ := h.strung.congr rfl rfl
    rw [boundTo_setRetvalue, boundTo_kept hs₁ hfree.woven.strung (fdsKept_destroyed hfree),
      boundTo_modPcb]
    exact boundTo_removed hs h (hne hd)

theorem boundTo_mqClose (hc : Coherent k L) (h : MqClosed k L r k' L')
    (hfd : t = .mq → toInt (k.arg r 0) ≠ fd) : k'.boundTo t r fd = k.boundTo t r fd := by
  have hs := hc.tidy.strung
  cases h with
  | refused => exact boundTo_setRetvalue _
  | closed _ hd _ _ _ h =>
    rw [boundTo_setRetvalue, boundTo_modPcb]
    refine boundTo_removed hs h ?_
    rintro rfl
    rw [(boundTo_listed hs hd).2.1]
    exact hfd rfl

/-- The outcomes of `internal_closeResource`, with the number of what it closes. -/
theorem closeResource_cases (hc : Coherent k L) (hr : k.running = some r)
    (h : internalCloseResource k = .ok k') :
    (∃ v, k' = k.setRetvalue r v) ∨ ∃ d res ptr k₁,
      (k.descriptor .resource d).fd = toInt (k.arg r 0) ∧
      Removed Regular Retained k L .resource r res d ptr k₁ ∧ k' = k₁.setRetvalue r 0 := by
  have hs := hc.tidy.strung
  unfold internalCloseResource at h
  obtain ⟨r', hr', h⟩ := bind_eq_ok.mp h
  obtain rfl : r = r' := Option.some.inj (hr.symm.trans (deref_eq_ok.mp hr'))
  obtain ⟨found, hfound, h⟩ := bind_eq_ok.mp h
  cases found with
  | none =>
    cases h
    exact .inl ⟨_, rfl⟩
  | some d =>
    obtain ⟨hm, hfd⟩ := hs.search_some (l := .opened .resource r)
      (regular_descriptorKind .resource) hfound
    obtain ⟨res, hres, h⟩ := bind_eq_ok.mp h
    obtain ⟨ptr, hptr, h⟩ := bind_eq_ok.mp h
    have hres : (k.descriptor .resource d).object = some res := deref_eq_ok.mp hres
    have hptr : (k.descriptor .resource d).ptr = some ptr := deref_eq_ok.mp hptr
    obtain ⟨ptr', hptr', _, hu, _⟩ := Coherent.pointer_listed hc hr hm hres
    obtain rfl : ptr = ptr' := Option.some.inj (hptr.symm.trans hptr')
    cases h
    exact .inr ⟨d, res, ptr, _, of_decide_eq_true hfd, unlist_removed hs
      (regular_descriptorKind .resource) (regular_pointerKind .resource) hm hu, rfl⟩

theorem boundTo_closeResource (hc : Coherent k L) (hr : k.running = some r)
    (h : internalCloseResource k = .ok k') (hfd : t = .resource → toInt (k.arg r 0) ≠ fd) :
    k'.boundTo t r fd = k.boundTo t r fd := by
  rcases closeResource_cases hc hr h with ⟨v, rfl⟩ | ⟨d, res, ptr, k₁, hd, hremoved, rfl⟩
  · exact boundTo_setRetvalue v
  · rw [boundTo_setRetvalue]
    refine boundTo_removed hc.tidy.strung hremoved ?_
    rintro rfl
    rw [hd]
    exact hfd rfl

/-- The call that closes a descriptor of a table. -/
def closeCall : Table → Int
  | .resource => DSOS_CALL_CLOSE_RESOURCE
  | .semaphore => DSOS_CALL_SEMCLOSE
  | .mq => DSOS_CALL_MQCLOSE

/-- The running process keeps what it has bound when it neither closes it nor exits. -/
theorem boundTo_called (hc : Coherent k L) (hr : k.running = some r)
    (h : Called k L r num k' L') (hs' : Strung Regular Retained k' L')
    (hexit : num ≠ DSOS_CALL_EXIT) (hclose : num = closeCall t → toInt (k.arg r 0) ≠ fd)
    (hres : num = DSOS_CALL_CLOSE_RESOURCE → internalCloseResource k = .ok k')
    (hb : k.boundTo t r fd = .ok (some b)) : k'.boundTo t r fd = .ok (some b) := by
  have hs := hc.tidy.strung
  cases h with
  | refused => rwa [boundTo_setRetvalue]
  | preempted h => rwa [boundTo_kept hs hs' (fdsKept_scheduled h)]
  | slept h => rwa [boundTo_kept hs hs' (fdsKept_scheduled h)]
  | @spawned _ c _ _ _ _ h =>
    have hne : r ≠ c := fun he => h.fresh (he ▸ hc.sound.placed.live_of_running hr)
    rw [boundTo_same hs hs' _ fun _ _ => by rw [h.rest]]
    · exact hb
    · rw [h.lists, Function.update_of_ne (by simp), Function.update_of_ne (by simp)]
      exact allocLists_of_ne (by simp [hne]) (by simp) (by simp [hne])
  | collected _ _ _ _ h => rwa [boundTo_kept hs hs' (fdsKept_collected h)]
  | waits _ _ h => rwa [boundTo_kept hs hs' (fdsKept_scheduled h)]
  | exited => exact absurd rfl hexit
  | reported => exact absurd rfl hexit
  | semOpen h => exact boundTo_semOpen hc h hb
  | semWait h => rwa [boundTo_spared hs hs' (spared_semWait h)]
  | semPost h => rwa [boundTo_spared hs hs' (spared_semPost h)]
  | semClose h => rwa [boundTo_semClose hc h fun ht => hclose (by rw [ht]; rfl)]
  | openResource h => exact boundTo_openResource hc h hb
  | closeResource =>
    rwa [boundTo_closeResource hc hr (hres rfl) fun ht => hclose (by rw [ht]; rfl)]
  | destroyResource h => rwa [boundTo_spared hs hs' (spared_destroyResource h)]
  | mqOpen h => exact boundTo_mqOpen hc h hb
  | mqClose h => rwa [boundTo_mqClose hc h fun ht => hclose (by rw [ht]; rfl)]
  | mqUse _ h => rwa [boundTo_kept hs hs' (fdsKept_queued h)]

/-! ## Runs -/

/-- The process `p` closes its descriptor `fd`, or exits. -/
def GivesUp (t : Table) (p : Nat) (fd : Int) (k : Kernel) : Action → Prop
  | .syscall num args => k.running = some p ∧
      (num = DSOS_CALL_EXIT ∨ (num = closeCall t ∧ toInt (args.getD 0 0) = fd))
  | _ => False

instance (t : Table) (p : Nat) (fd : Int) (k : Kernel) (a : Action) :
    Decidable (GivesUp t p fd k a) :=
  match a with
  | .syscall _ _ => inferInstanceAs (Decidable (_ ∧ _))
  | .timer | .restart | .store _ _ | .dispatch _ => inferInstanceAs (Decidable False)

/-- No action but these two takes a descriptor from a process. -/
theorem boundTo_act (hc : Coherent k L) (h : Acted k L a k' L') (hact : act k a = .ok k')
    (hs' : Strung Regular Retained k' L') (hlive : Allocated k .pcb p)
    (hno : ¬ GivesUp t p fd k a) (hb : k.boundTo t p fd = .ok (some b)) :
    k'.boundTo t p fd = .ok (some b) := by
  have hs := hc.tidy.strung
  by_cases hp : k.running = some p
  · cases h with
    | ignored => exact hb
    | stored => rwa [boundTo_same hs hs' rfl fun _ _ => rfl]
    | restarted hre =>
      rw [hre.idle] at hp
      cases hp
    | ticked _ h =>
      have hkept := fdsKept_scheduled (t := t) h
      rwa [boundTo_kept hs hs' ⟨hkept.descriptor, hkept.opened, hkept.counter⟩]
    | @called r num args _ _ hr h =>
      obtain rfl : r = p := Option.some.inj (hr.symm.trans hp)
      have hact : k.disastrOSSyscall num args = .ok k' := hact
      have hexit : num ≠ DSOS_CALL_EXIT := fun he => hno ⟨hp, .inl he⟩
      refine boundTo_called (coherent_setCall hc hr) hr h hs' hexit ?_ ?_ ?_
      · intro hnum hfd
        refine hno ⟨hp, .inr ⟨hnum, ?_⟩⟩
        have harg : (k.setCall r num args).arg r 0 = args.getD 0 0 := arg_setCall (by
          rw [hnum]
          cases t <;> decide)
        rwa [harg] at hfd
      · rintro rfl
        exact syscall_handled args rfl (by decide) (by decide) hr hact
      · rwa [boundTo_setCall]
  · rwa [boundTo_spared hs hs' (spared_acted hc h hact hp hlive)]

/-- The object of a descriptor is there, unless its process may be blocked on it. -/
theorem object_live (hc : Coherent k L) (hb : k.boundTo t p fd = .ok (some (d, o)))
    (hfree : t ≠ .semaphore ∨ k.running = some p) : Allocated k (objects t).nodeKind o := by
  have hs := hc.tidy.strung
  obtain ⟨hm, -, ho⟩ := boundTo_listed hs hb
  have hlisted : ObjectListed L t o := by
    by_cases hr : k.running = some p
    · obtain ⟨_, _, _, _, hlisted⟩ := Coherent.pointer_listed hc hr hm ho
      exact hlisted
    · obtain ⟨o', ptr, ho', -, -, hpointer⟩ :=
        (hc.tidy.tied t).bound d (allocated_of_opened hs hm)
      obtain rfl : o = o' := Option.some.inj (ho.symm.trans ho')
      rcases hpointer with hu | ⟨ht, -⟩
      · exact (hc.tidy.tied t).housed o _ hu
      · exact absurd ht (hfree.resolve_right hr)
  cases t with
  | resource => exact hs.allocated (l := .resourcesList) (by decide : Regular .resource) hlisted
  | semaphore => exact hs.allocated (l := .semaphoresList) (by decide : Regular .semaphore) hlisted
  | mq => exact hc.hung.live _ _ irregular_messageQueues hlisted

/-- What the invariant of a run says of a file descriptor that is not given up. -/
theorem boundTo_run (hc : Coherent k L) (hlives : LivesOn (view k L) p)
    (hb : k.boundTo t p fd = .ok (some b))
    (h : Run act (fun k a => Ordinary a ∧ ¬ GivesUp t p fd k a) k bs k') :
    ∃ L', Coherent k' L' ∧ LivesOn (view k' L') p ∧ k'.boundTo t p fd = .ok (some b) := by
  refine run_invariant (I := fun k => ∃ L, Coherent k L ∧ LivesOn (view k L) p ∧
    k.boundTo t p fd = .ok (some b)) ?_ ⟨L, hc, hlives, hb⟩ h
  rintro k₁ a k₂ ⟨L₁, hc₁, hlives, hb₁⟩ ⟨ha, hno⟩ hact
  obtain ⟨L₂, hacted, hc₂, hstep⟩ := act_done hc₁ ha hact
  refine ⟨L₂, hc₂, livesOn_step hlives hstep fun hr args he => ?_,
    boundTo_act hc₁ hacted hact hc₂.tidy.strung hlives.1 hno hb₁⟩
  subst he
  exact hno ⟨hr, .inl rfl⟩

/-- A file descriptor stays bound to the same descriptor block and the same object until its
process closes it or exits, and neither block is freed. The object of a semaphore descriptor is
there whenever its process runs. -/
theorem open_until_closed (hs : Started mem k₀) (h : Run act (fun _ a => Ordinary a) k₀ as k)
    (hlive : Allocated k .pcb p) (hz : (k.pcb p).status ≠ .Zombie)
    (hb : k.boundTo t p fd = .ok (some (d, o)))
    (h' : Run act (fun k a => Ordinary a ∧ ¬ GivesUp t p fd k a) k bs k') :
    k'.boundTo t p fd = .ok (some (d, o)) ∧ Allocated k' t.descriptorKind d ∧
      (t ≠ .semaphore ∨ k'.running = some p → Allocated k' (objects t).nodeKind o) := by
  obtain ⟨L, hc⟩ := coherent_run hs h
  obtain ⟨L', hc', -, hb'⟩ := boundTo_run hc ⟨hlive, hz⟩ hb h'
  have hm := (boundTo_listed hc'.tidy.strung hb').1
  exact ⟨hb', allocated_of_opened hc'.tidy.strung hm, object_live hc' hb'⟩

/-- Init closes another number, and its child the same number of its own. -/
theorem open_until_closed_shared : ∃ k₀ k k' : Kernel, Started (fun _ => 0) k₀ ∧
    Run act (fun _ a => Ordinary a) k₀ [.syscall DSOS_CALL_SEMOPEN [7, 1, 1],
      .syscall DSOS_CALL_SEMOPEN [5, 1, 1], .syscall DSOS_CALL_SPAWN []] k ∧
    k.boundTo .semaphore 0 0 = .ok (some (0, 0)) ∧
    Run act (fun k a => Ordinary a ∧ ¬ GivesUp .semaphore 0 0 k a) k
      [.syscall DSOS_CALL_SEMCLOSE [1], .syscall DSOS_CALL_PREEMPT [],
        .syscall DSOS_CALL_SEMOPEN [7, 0, 0], .syscall DSOS_CALL_SEMCLOSE [0], .timer] k' ∧
    ((k'.pcb 0).lastSemFd = 1 ∧ (k'.pcb 1).syscallRetvalue = 0) ∧
    k'.boundTo .semaphore 0 0 = .ok (some (0, 0)) ∧ Allocated k' .semDescriptor 0 ∧
      (Table.semaphore ≠ .semaphore ∨ k'.running = some 0 → Allocated k' .semaphore 0) := by
  obtain ⟨k₀, k, hs, h, htest⟩ := exists_run_from_start (fun _ a => Ordinary a)
    (fun _ a => decide (Ordinary a)) [.syscall DSOS_CALL_SEMOPEN [7, 1, 1],
      .syscall DSOS_CALL_SEMOPEN [5, 1, 1], .syscall DSOS_CALL_SPAWN []]
    (fun k => k.running = some 0 ∧ (k.pcb 0).status ≠ .Zombie ∧
      k.boundTo .semaphore 0 0 = .ok (some (0, 0)) ∧
      ((exec act (fun k a => decide (Ordinary a ∧ ¬ GivesUp .semaphore 0 0 k a)) k
        [.syscall DSOS_CALL_SEMCLOSE [1], .syscall DSOS_CALL_PREEMPT [],
          .syscall DSOS_CALL_SEMOPEN [7, 0, 0], .syscall DSOS_CALL_SEMCLOSE [0], .timer]).any
            fun k' => (k'.pcb 0).lastSemFd = 1 ∧ (k'.pcb 1).syscallRetvalue = 0) = true)
    (fun _ _ hcheck => of_decide_eq_true hcheck) (by decide +kernel)
  obtain ⟨hr, hz, hb, htest⟩ := of_decide_eq_true htest
  obtain ⟨k', h', hanswers⟩ :=
    exists_run (fun k a => Ordinary a ∧ ¬ GivesUp .semaphore 0 0 k a)
      (fun _ _ hcheck => of_decide_eq_true hcheck) htest
  obtain ⟨L, hc⟩ := coherent_run hs h
  have hlive : Allocated k .pcb 0 := hc.sound.placed.live_of_running hr
  exact ⟨k₀, k, k', hs, h, hb, h', of_decide_eq_true hanswers,
    open_until_closed hs h hlive hz hb h'⟩

end DisastrOS.Process.OpenHandles
