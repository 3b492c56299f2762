import DisastrOS.Pool.Blocks

/-!
# Calls that leave the messages alone

Only `mqWrite` and `mqRead` write to messages or change the pool of their blocks.
-/
namespace DisastrOS.MessageQueue.MessageFrame

open DisastrOS.Machine
open DisastrOS.Machine.Kernel
open DisastrOS.Library.Outcome

/-- The messages and the pool of their blocks are as before. -/
def SameMessages (k k' : Kernel) : Prop :=
  k'.message = k.message ∧ k'.pool .message = k.pool .message

variable {k k' k'' : Kernel} {i : Nat}

theorem same_trans (h : SameMessages k k') (h' : SameMessages k' k'') : SameMessages k k'' :=
  ⟨h'.1.trans h.1, h'.2.trans h.2⟩

theorem same_then {x : Except Fault Kernel} (h : SameMessages k k')
    (hx : Ensures x (SameMessages k')) : Ensures x (SameMessages k) :=
  ensures_mono hx fun _ h' => same_trans h h'

theorem same_newItem {kind : Kind} (hne : kind ≠ .message) (hnew : k.newItem kind = some (i, k')) :
    SameMessages k k' := by
  unfold Kernel.newItem Kernel.getBlock at hnew
  split at hnew
  · cases hnew
  · next j k₁ hget =>
    cases hnew
    split at hget
    · cases hget
    · cases hget
      exact ⟨rfl, Function.update_of_ne hne.symm _ _⟩

theorem same_detachFirst (k : Kernel) (l : HeadAddr) :
    Ensures (k.detachFirst l) fun x => SameMessages k x.2 := by
  unfold detachFirst
  exact ensures_bind_any fun item => ensures_bind_any fun i => ensures_ok ⟨rfl, rfl⟩

theorem same_releaseBlock {kind : Kind} (hne : kind ≠ .message) :
    SameMessages k (k.releaseBlock kind i) :=
  ⟨rfl, Function.update_of_ne hne.symm _ _⟩

theorem same_freeUnused {l : HeadAddr} {kind : Kind} (hne : kind ≠ .message) :
    Ensures (k.freeUnused l kind i) (SameMessages k) :=
  ensures_ite (fun _ => ensures_ok (same_releaseBlock hne)) fun _ => ensures_error _

/-! ## Processes and timers -/

theorem same_wakeElapsed (fuel : Nat) (previous : Option Node) (k : Kernel) :
    Ensures (wakeElapsed fuel previous k) (SameMessages k) := by
  induction fuel generalizing previous k with
  | zero => exact ensures_error _
  | succ fuel ih =>
    unfold wakeElapsed
    refine ensures_bind_any fun found => ?_
    cases found with
    | none => exact ensures_ok ⟨rfl, rfl⟩
    | some timer =>
      refine ensures_bind_any fun p => ?_
      unfold timerListRemoveCurrent
      refine ensures_bind (ensures_bind (same_detachFirst _ _) fun x hx =>
        ensures_ok (same_trans hx ⟨rfl, rfl⟩)) fun k₁ h₁ => ?_
      exact same_then (same_trans ⟨rfl, rfl⟩ h₁) (ih _ k₁)

theorem same_schedule (k : Kernel) : Ensures k.internalSchedule (SameMessages k) := by
  unfold internalSchedule
  refine ensures_bind (same_wakeElapsed _ _ k) fun k₁ h₁ => same_then h₁ ?_
  split
  · exact ensures_ok ⟨rfl, rfl⟩
  · refine ensures_bind (same_detachFirst _ _) fun x hx => ensures_bind_any fun r => ?_
    exact ensures_ok (same_trans hx ⟨rfl, rfl⟩)

theorem same_timerListAdd (k : Kernel) (time : Int) (p : Nat) :
    Ensures (k.timerListAdd time p) fun x => ∀ k', x = some k' → SameMessages k k' := by
  unfold timerListAdd timerItemAlloc
  refine ensures_bind_any fun previous => ?_
  cases hnew : k.newItem .timerItem with
  | none => exact ensures_ok fun k' he => nomatch he
  | some new =>
    refine ensures_ok fun k' he => ?_
    cases he
    exact same_trans (same_newItem (by decide) hnew) ⟨rfl, rfl⟩

theorem same_sleep (k : Kernel) : Ensures k.internalSleep (SameMessages k) := by
  unfold internalSleep
  refine ensures_bind_any fun r => ensures_ite (fun _ => ensures_ok ⟨rfl, rfl⟩) fun _ => ?_
  refine ensures_bind_any fun time => ensures_bind (same_timerListAdd k _ r) fun added hadd => ?_
  cases added with
  | none => exact ensures_ok ⟨rfl, rfl⟩
  | some k₁ =>
    refine same_then (hadd k₁ rfl) ?_
    simp only
    split
    · exact ensures_ok ⟨rfl, rfl⟩
    · refine ensures_bind (same_detachFirst _ _) fun x hx => ?_
      exact ensures_ok (same_trans ⟨rfl, rfl⟩ hx)

theorem same_pcbAlloc (k : Kernel) : Ensures k.pcbAlloc fun x => SameMessages k x.2 := by
  unfold pcbAlloc
  refine ensures_bind (P := fun x => SameMessages k x.2) (fun x hx => ?_) fun x hx =>
    ensures_bind_any fun next => ensures_ok (same_trans hx ⟨rfl, rfl⟩)
  exact same_newItem (i := x.1) (by decide) (deref_eq_ok.mp hx)

theorem same_spawn (context : Bool) (k : Kernel) :
    Ensures (k.createProcess context) (SameMessages k) := by
  unfold createProcess
  refine ensures_bind_any fun r => ?_
  refine ensures_bind (same_pcbAlloc k) fun x hx => ?_
  have hptr : ∀ (k : Kernel) (p : Nat), Ensures (k.pcbPtrAlloc p) fun x => SameMessages k x.2 := by
    intro k p
    unfold pcbPtrAlloc
    refine ensures_bind (P := fun x => SameMessages k x.2) (fun x hx => ?_) fun x hx =>
      ensures_ok (same_trans hx ⟨rfl, rfl⟩)
    exact same_newItem (i := x.1) (by decide) (deref_eq_ok.mp hx)
  refine ensures_bind (hptr _ _) fun y hy => ?_
  exact ensures_ok (same_trans (same_trans hx ⟨rfl, rfl⟩) (same_trans hy ⟨rfl, rfl⟩))

theorem same_reparentChildren (r init fuel : Nat) (k : Kernel) :
    Ensures (reparentChildren r init fuel k) (SameMessages k) := by
  induction fuel generalizing k with
  | zero => exact ensures_error _
  | succ fuel ih =>
    unfold reparentChildren
    split
    · exact ensures_ok ⟨rfl, rfl⟩
    · refine ensures_bind_any fun ptr => ensures_bind_any fun child => ?_
      exact same_then ⟨rfl, rfl⟩ (ih _)

theorem same_releaseTimers (r fuel : Nat) (o : Option Node) (k : Kernel) :
    Ensures (releaseTimers r fuel o k) (SameMessages k) := by
  induction fuel generalizing o k with
  | zero => exact ensures_error _
  | succ fuel ih =>
    cases o with
    | none => exact ensures_ok ⟨rfl, rfl⟩
    | some item =>
      unfold releaseTimers
      refine ensures_bind_any fun timer => ensures_ite (fun _ => ?_) fun _ => ih _ k
      exact same_then ⟨rfl, rfl⟩ (ih _ _)

theorem same_releaseDescriptors (r fuel : Nat) (k : Kernel) :
    Ensures (releaseDescriptors r fuel k) (SameMessages k) := by
  induction fuel generalizing k with
  | zero => exact ensures_error _
  | succ fuel ih =>
    unfold releaseDescriptors
    split
    · exact ensures_ok ⟨rfl, rfl⟩
    · refine ensures_bind_any fun d => ensures_bind_any fun res => ensures_bind_any fun ptr => ?_
      exact same_then ⟨rfl, rfl⟩ (ih _)

theorem same_storeResult (k : Kernel) (result v : Int) :
    Ensures (k.storeResult result v) (SameMessages k) := by
  refine ensures_ite (fun _ k' hk => ?_) fun _ => ensures_ok ⟨rfl, rfl⟩
  obtain ⟨_, rfl⟩ := storeInt_eq_ok.mp hk
  exact ⟨rfl, rfl⟩

theorem same_reportToParent (k : Kernel) (r parent : Nat) :
    Ensures (k.reportToParent r parent) (SameMessages k) := by
  unfold reportToParent
  refine ensures_bind_any fun found => ensures_bind_any fun self => ?_
  refine ensures_bind (P := SameMessages k) (same_then ⟨rfl, rfl⟩ (same_storeResult _ _ _))
    fun k₁ h₁ => same_then h₁ ?_
  refine ensures_bind (same_releaseTimers r _ _ k₁) fun k₂ h₂ => same_then h₂ ?_
  refine ensures_bind (same_releaseDescriptors r _ k₂) fun k₃ h₃ => same_then h₃ ?_
  exact ensures_ok ⟨rfl, rfl⟩

theorem same_exit (k : Kernel) : Ensures k.internalExit (SameMessages k) := by
  unfold internalExit
  refine ensures_bind_any fun r => ?_
  simp only
  split
  · exact ensures_error _
  · refine ensures_bind (same_then ⟨rfl, rfl⟩ (same_reparentChildren r _ _ _)) fun k₁ h₁ =>
      same_then h₁ (ensures_bind_any fun parent => ensures_ite (fun _ => ?_) fun _ => ?_)
    · exact same_then ⟨rfl, rfl⟩ (same_reportToParent _ r parent)
    · refine ensures_bind (same_detachFirst _ _) fun x hx => ?_
      exact ensures_ok (same_trans (same_trans ⟨rfl, rfl⟩ hx) ⟨rfl, rfl⟩)

theorem same_blockInWait (k : Kernel) (r : Nat) : Ensures (k.blockInWait r) (SameMessages k) := by
  unfold blockInWait
  refine ensures_bind (same_detachFirst _ _) fun x hx => ?_
  exact ensures_ok (same_trans (same_trans ⟨rfl, rfl⟩ hx) ⟨rfl, rfl⟩)

theorem same_wait (k : Kernel) : Ensures k.internalWait (SameMessages k) := by
  unfold internalWait
  refine ensures_bind_any fun r => ?_
  simp only
  split
  · exact ensures_ok ⟨rfl, rfl⟩
  · refine ensures_bind_any fun awaited => ?_
    split
    · refine ensures_ite (fun _ => ensures_ok ⟨rfl, rfl⟩) fun _ => ?_
      exact same_blockInWait k r
    · refine ensures_ite (fun _ => ?_) fun _ => same_blockInWait k r
      refine ensures_bind (P := SameMessages k) (same_then ⟨rfl, rfl⟩ (same_storeResult _ _ _))
        fun k₁ h₁ => ?_
      exact ensures_ok (same_trans h₁ ⟨rfl, rfl⟩)

/-! ## Objects and descriptors -/

theorem same_descriptorAlloc {t : Table} {fd : Int} {object pcb : Nat}
    (h : k.descriptorAlloc t fd object pcb = some (i, k')) : SameMessages k k' := by
  unfold descriptorAlloc at h
  split at h
  · cases h
  · next hnew =>
    cases h
    exact same_trans (same_newItem (by cases t <;> decide) hnew) ⟨rfl, rfl⟩

theorem same_descriptorPtrAlloc {t : Table} {d : Nat}
    (h : k.descriptorPtrAlloc t d = some (i, k')) : SameMessages k k' := by
  unfold descriptorPtrAlloc at h
  split at h
  · cases h
  · next hnew =>
    cases h
    exact same_trans (same_newItem (by cases t <;> decide) hnew) ⟨rfl, rfl⟩

theorem same_openDescriptor (k : Kernel) (t : Table) (p object : Nat) (err : Int) :
    SameMessages k (k.openDescriptor t p object err) := by
  unfold openDescriptor
  split
  · exact ⟨rfl, rfl⟩
  · next d k₁ hd =>
    split
    · exact same_trans (same_descriptorAlloc hd) ⟨rfl, rfl⟩
    · next ptr k₂ hptr =>
      exact same_trans (same_trans (same_descriptorAlloc hd) (same_descriptorPtrAlloc hptr))
        ⟨rfl, rfl⟩

theorem same_closeDescriptor (k : Kernel) (t : Table) (p d object : Nat) :
    SameMessages k (k.closeDescriptor t p d object).2 := by
  unfold closeDescriptor
  simp only
  split
  · exact ⟨rfl, rfl⟩
  · refine same_trans (same_trans ⟨rfl, rfl⟩ (same_releaseBlock ?_))
      (same_trans (same_releaseBlock ?_) ⟨rfl, rfl⟩)
    · cases t <;> decide
    · cases t <;> decide

theorem same_bindResource (k : Kernel) (r : Nat) (found : Option Nat) (type openMode : Int) :
    Ensures (internalOpenResource.bind k r found type openMode) (SameMessages k) := by
  unfold internalOpenResource.bind
  split
  · exact ensures_ok ⟨rfl, rfl⟩
  · refine ensures_ite (fun _ => ensures_ok ⟨rfl, rfl⟩) fun _ =>
      ensures_ite (fun _ => ensures_ok ⟨rfl, rfl⟩) fun _ => ?_
    split
    · exact ensures_ok ⟨rfl, rfl⟩
    · next des k₁ hdes =>
      refine same_then (same_descriptorAlloc hdes) (ensures_bind_any fun next => ?_)
      simp only
      generalize hk₂ : (k₁.modPcb r fun q => { q with lastFd := next }) = k₂
      have h₂ : SameMessages k₁ k₂ := by
        rw [← hk₂]
        exact ⟨rfl, rfl⟩
      cases hptr : k₂.descriptorPtrAlloc .resource des with
      | none => exact ensures_bind_any fun ptr => ensures_ok (same_trans h₂ ⟨rfl, rfl⟩)
      | some new =>
        refine ensures_bind_any fun ptr => ensures_ok ?_
        exact same_trans (same_trans h₂ (same_descriptorPtrAlloc (i := new.1) hptr)) ⟨rfl, rfl⟩

theorem same_openResource (k : Kernel) : Ensures k.internalOpenResource (SameMessages k) := by
  unfold internalOpenResource
  refine ensures_bind_any fun r => ensures_bind_any fun found => ensures_ite (fun _ => ?_)
    fun _ => same_bindResource k r _ _ _
  refine ensures_ite (fun _ => ensures_ok ⟨rfl, rfl⟩) fun _ => ?_
  have halloc : ∀ id type, Ensures (deref (k.resourceAlloc id type)) fun x =>
      SameMessages k x.2 := by
    intro id type x hx
    have hsome := deref_eq_ok.mp hx
    unfold resourceAlloc at hsome
    split at hsome
    · cases hsome
    · next hnew =>
      cases hsome
      exact same_trans (same_newItem (by decide) hnew) ⟨rfl, rfl⟩
  refine ensures_bind (halloc _ _) fun x hx => ?_
  exact same_then (same_trans hx ⟨rfl, rfl⟩) (same_bindResource _ r _ _ _)

theorem same_closeResource (k : Kernel) : Ensures k.internalCloseResource (SameMessages k) := by
  unfold internalCloseResource
  refine ensures_bind_any fun r => ensures_bind_any fun found => ?_
  split
  · exact ensures_ok ⟨rfl, rfl⟩
  · exact ensures_bind_any fun res => ensures_bind_any fun ptr => ensures_ok ⟨rfl, rfl⟩

theorem same_destroyResource (k : Kernel) :
    Ensures k.internalDestroyResource (SameMessages k) := by
  unfold internalDestroyResource
  refine ensures_bind_any fun r => ensures_bind_any fun found => ?_
  split
  · exact ensures_ok ⟨rfl, rfl⟩
  · refine ensures_ite (fun _ => ensures_ok ⟨rfl, rfl⟩) fun _ => ?_
    unfold resourceFree
    refine ensures_bind (same_freeUnused (by decide)) fun k₁ h₁ => ?_
    exact ensures_ok (same_trans (same_trans ⟨rfl, rfl⟩ h₁) ⟨rfl, rfl⟩)

/-! ## Semaphores -/

theorem same_semOpen (k : Kernel) : Ensures k.internalSemOpen (SameMessages k) := by
  unfold internalSemOpen
  refine ensures_bind_any fun r => ensures_ite (fun _ => ensures_ok ⟨rfl, rfl⟩) fun _ =>
    ensures_ite (fun _ => ensures_ok ⟨rfl, rfl⟩) fun _ =>
    ensures_ite (fun _ => ensures_ok ⟨rfl, rfl⟩) fun _ => ensures_bind_any fun found => ?_
  split
  · refine ensures_ite (fun _ => ensures_ok ⟨rfl, rfl⟩) fun _ => ?_
    exact ensures_ok (same_openDescriptor k _ _ _ _)
  · refine ensures_ite (fun _ => ensures_ite (fun _ => ensures_ok ⟨rfl, rfl⟩) fun _ => ?_)
      fun _ => ensures_ok ⟨rfl, rfl⟩
    split
    · exact ensures_ok ⟨rfl, rfl⟩
    · next sem k₁ halloc =>
      unfold semaphoreAlloc at halloc
      split at halloc
      · cases halloc
      · next hnew =>
        cases halloc
        refine ensures_ok (same_trans (same_trans (same_newItem (by decide) hnew) ⟨rfl, rfl⟩)
          (same_openDescriptor _ _ _ _ _))

theorem same_semWait (k : Kernel) : Ensures k.internalSemWait (SameMessages k) := by
  unfold internalSemWait
  refine ensures_bind_any fun r => ensures_ite (fun _ => ensures_ok ⟨rfl, rfl⟩) fun _ =>
    ensures_bind_any fun bound => ?_
  split
  · exact ensures_ok ⟨rfl, rfl⟩
  · refine ensures_ite (fun _ => ensures_ok ⟨rfl, rfl⟩) fun _ => ?_
    split
    · exact ensures_ok ⟨rfl, rfl⟩
    · refine ensures_bind (same_detachFirst _ _) fun x hx => ?_
      exact ensures_ok (same_trans (same_trans ⟨rfl, rfl⟩ hx) ⟨rfl, rfl⟩)

theorem same_semPost (k : Kernel) : Ensures k.internalSemPost (SameMessages k) := by
  unfold internalSemPost
  refine ensures_bind_any fun r => ensures_ite (fun _ => ensures_ok ⟨rfl, rfl⟩) fun _ =>
    ensures_bind_any fun bound => ?_
  split
  · exact ensures_ok ⟨rfl, rfl⟩
  · refine ensures_bind_any fun count => ensures_ite (fun _ => ensures_ite (fun _ => ?_) fun _ =>
      ensures_ok ⟨rfl, rfl⟩) fun _ => ensures_ok ⟨rfl, rfl⟩
    refine ensures_bind (same_detachFirst _ _) fun x hx => ensures_bind_any fun d => ?_
    split
    · exact ensures_ok (same_trans (same_trans ⟨rfl, rfl⟩ hx) ⟨rfl, rfl⟩)
    · exact ensures_ok (same_trans (same_trans ⟨rfl, rfl⟩ hx) ⟨rfl, rfl⟩)

theorem same_semClose (k : Kernel) : Ensures k.internalSemClose (SameMessages k) := by
  unfold internalSemClose
  refine ensures_bind_any fun r => ensures_ite (fun _ => ensures_ok ⟨rfl, rfl⟩) fun _ =>
    ensures_bind_any fun bound => ?_
  split
  · exact ensures_ok ⟨rfl, rfl⟩
  · next d sem =>
    have hclose := same_closeDescriptor k .semaphore r d sem
    split
    · next hc =>
      rw [hc] at hclose
      exact ensures_ok (same_trans hclose ⟨rfl, rfl⟩)
    · next hc =>
      rw [hc] at hclose
      refine same_then hclose (ensures_ite (fun _ => ?_) fun _ => ensures_ok ⟨rfl, rfl⟩)
      unfold semaphoreFree
      refine ensures_bind (same_freeUnused (by decide)) fun k₁ h₁ => ?_
      exact ensures_ok (same_trans (same_trans ⟨rfl, rfl⟩ h₁) ⟨rfl, rfl⟩)

/-! ## Message queues -/

theorem same_addQueues (mq : Nat) (i : Int) (n : Nat) (k : Kernel) :
    SameMessages k (addQueues mq i n k).2 := by
  induction n generalizing i k with
  | zero => exact ⟨rfl, rfl⟩
  | succ n ih =>
    unfold addQueues
    cases hq : k.queueAlloc i with
    | none => exact ⟨rfl, rfl⟩
    | some new =>
      refine same_trans ?_ (ih (i + 1) _)
      unfold queueAlloc at hq
      split at hq
      · cases hq
      · next hnew =>
        cases hq
        exact same_trans (same_newItem (by decide) hnew) ⟨rfl, rfl⟩

theorem same_mqOpen (k : Kernel) : Ensures k.internalMqOpen (SameMessages k) := by
  unfold internalMqOpen
  refine ensures_bind_any fun r => ensures_ite (fun _ => ensures_ok ⟨rfl, rfl⟩) fun _ =>
    ensures_ite (fun _ => ensures_ok ⟨rfl, rfl⟩) fun _ => ensures_bind_any fun found => ?_
  split
  · refine ensures_ite (fun _ => ensures_ok ⟨rfl, rfl⟩) fun _ => ?_
    unfold openFound
    split
    · exact ensures_error _
    · exact ensures_ok (same_openDescriptor k _ _ _ _)
  · refine ensures_ite (fun _ => ensures_ite (fun _ => ensures_ok ⟨rfl, rfl⟩) fun _ =>
      ensures_ite (fun _ => ensures_ok ⟨rfl, rfl⟩) fun _ => ?_) fun _ => ensures_ok ⟨rfl, rfl⟩
    split
    · exact ensures_ok ⟨rfl, rfl⟩
    · next mq k₁ halloc =>
      have hnew : SameMessages k k₁ := by
        unfold messageQueueAlloc at halloc
        split at halloc
        · cases halloc
        · next hnew =>
          cases halloc
          exact same_trans (same_newItem (by decide) hnew) ⟨rfl, rfl⟩
      have hadd := same_addQueues mq 0 (toInt (k.arg r 2) + 1).toNat k₁
      split
      · next hq =>
        rw [hq] at hadd
        exact ensures_ok (same_trans (same_trans hnew hadd) ⟨rfl, rfl⟩)
      · next hq =>
        rw [hq] at hadd
        exact ensures_ok (same_trans (same_trans (same_trans hnew hadd) ⟨rfl, rfl⟩)
          (same_openDescriptor _ _ _ _ _))

theorem same_mqClose (k : Kernel) : Ensures k.internalMqClose (SameMessages k) := by
  unfold internalMqClose
  refine ensures_bind_any fun r => ensures_ite (fun _ => ensures_ok ⟨rfl, rfl⟩) fun _ =>
    ensures_bind_any fun bound => ?_
  split
  · exact ensures_ok ⟨rfl, rfl⟩
  · next d mq =>
    have hclose := same_closeDescriptor k .mq r d mq
    split
    · next hc =>
      rw [hc] at hclose
      exact ensures_ok (same_trans hclose ⟨rfl, rfl⟩)
    · next hc =>
      rw [hc] at hclose
      exact ensures_ok (same_trans hclose ⟨rfl, rfl⟩)

theorem same_removeQueues (mq n : Nat) (k : Kernel) :
    Ensures (removeQueues mq n k) (SameMessages k) := by
  induction n generalizing k with
  | zero => exact ensures_ok ⟨rfl, rfl⟩
  | succ n ih =>
    unfold removeQueues
    refine ensures_bind (same_detachFirst _ _) fun x hx => same_then hx ?_
    refine ensures_ite (fun _ => ?_) fun _ => ih _
    exact ensures_bind (same_freeUnused (by decide)) fun k₁ h₁ => same_then h₁ (ih k₁)

theorem same_mqUnlink (k : Kernel) : Ensures k.internalMqUnlink (SameMessages k) := by
  unfold internalMqUnlink
  refine ensures_bind_any fun r => ensures_bind_any fun found => ?_
  split
  · exact ensures_ok ⟨rfl, rfl⟩
  · refine ensures_bind_any fun mq => ensures_ite (fun _ => ensures_ok ⟨rfl, rfl⟩) fun _ =>
      ensures_ite (fun _ => ensures_ok ⟨rfl, rfl⟩) fun _ => ?_
    refine ensures_bind (same_then ⟨rfl, rfl⟩ (same_removeQueues mq _ _)) fun k₁ h₁ => ?_
    unfold messageQueueFree
    refine ensures_bind (same_freeUnused (by decide)) fun k₂ h₂ => ?_
    exact ensures_ok (same_trans (same_trans h₁ h₂) ⟨rfl, rfl⟩)

/-! ## Actions -/

theorem ite_some {α : Type} {p : Prop} [Decidable p] {x y : Option α} {v : α}
    (h : (if p then x else y) = some v) : (p ∧ x = some v) ∨ (¬ p ∧ y = some v) := by
  by_cases hp : p
  · exact .inl ⟨hp, by rwa [if_pos hp] at h⟩
  · exact .inr ⟨hp, by rwa [if_neg hp] at h⟩

theorem same_handler {num : Int} {handler : Kernel → Except Fault Kernel}
    (hv : syscallVector num = some handler) (hread : num ≠ DSOS_CALL_MQREAD)
    (hwrite : num ≠ DSOS_CALL_MQWRITE) (k : Kernel) : Ensures (handler k) (SameMessages k) := by
  unfold syscallVector at hv
  rcases ite_some hv with ⟨hn, hv⟩ | ⟨_, hv⟩
  · cases hv
    exact same_schedule k
  rcases ite_some hv with ⟨hn, hv⟩ | ⟨_, hv⟩
  · cases hv
    exact same_spawn _ k
  rcases ite_some hv with ⟨hn, hv⟩ | ⟨_, hv⟩
  · cases hv
    exact same_wait k
  rcases ite_some hv with ⟨hn, hv⟩ | ⟨_, hv⟩
  · cases hv
    exact same_exit k
  rcases ite_some hv with ⟨hn, hv⟩ | ⟨_, hv⟩
  · cases hv
    exact same_spawn _ k
  rcases ite_some hv with ⟨hn, hv⟩ | ⟨_, hv⟩
  · cases hv
    exact same_sleep k
  rcases ite_some hv with ⟨hn, hv⟩ | ⟨_, hv⟩
  · cases hv
    exact same_openResource k
  rcases ite_some hv with ⟨hn, hv⟩ | ⟨_, hv⟩
  · cases hv
    exact same_closeResource k
  rcases ite_some hv with ⟨hn, hv⟩ | ⟨_, hv⟩
  · cases hv
    exact same_destroyResource k
  rcases ite_some hv with ⟨hn, hv⟩ | ⟨_, hv⟩
  · cases hv
    exact ensures_error _
  rcases ite_some hv with ⟨hn, hv⟩ | ⟨_, hv⟩
  · cases hv
    exact same_semOpen k
  rcases ite_some hv with ⟨hn, hv⟩ | ⟨_, hv⟩
  · cases hv
    exact same_semClose k
  rcases ite_some hv with ⟨hn, hv⟩ | ⟨_, hv⟩
  · cases hv
    exact same_semWait k
  rcases ite_some hv with ⟨hn, hv⟩ | ⟨_, hv⟩
  · cases hv
    exact same_semPost k
  rcases ite_some hv with ⟨hn, hv⟩ | ⟨_, hv⟩
  · cases hv
    exact same_mqOpen k
  rcases ite_some hv with ⟨hn, hv⟩ | ⟨_, hv⟩
  · cases hv
    exact same_mqClose k
  rcases ite_some hv with ⟨hn, hv⟩ | ⟨_, hv⟩
  · exact absurd hn hread
  rcases ite_some hv with ⟨hn, hv⟩ | ⟨_, hv⟩
  · exact absurd hn hwrite
  rcases ite_some hv with ⟨hn, hv⟩ | ⟨_, hv⟩
  · cases hv
    exact same_mqUnlink k
  cases hv

theorem same_resumeMain (k : Kernel) : Ensures k.resumeMain (SameMessages k) := by
  unfold resumeMain
  split
  · exact ensures_error _
  · refine ensures_bind (same_pcbAlloc k) fun x hx => ?_
    exact ensures_ok (same_trans hx ⟨rfl, rfl⟩)

/-- Every action but a write or a read leaves the messages alone. -/
theorem same_act {a : Action}
    (ha : ∀ num args, a = .syscall num args → num ≠ DSOS_CALL_MQREAD ∧ num ≠ DSOS_CALL_MQWRITE)
    (k : Kernel) : Ensures (k.act a) (SameMessages k) := by
  cases a with
  | dispatch p => exact ensures_ok ⟨rfl, rfl⟩
  | store addr v =>
    intro k' hk
    obtain ⟨_, rfl⟩ := storeChar_eq_ok.mp hk
    exact ⟨rfl, rfl⟩
  | restart => exact same_resumeMain k
  | timer =>
    refine ensures_bind_any fun r => ensures_bind_any fun time => ?_
    refine ensures_bind (same_then ⟨rfl, rfl⟩ (same_schedule _)) fun k₁ h₁ => ?_
    exact ensures_bind_any fun _ => ensures_setcontext h₁
  | syscall num args =>
    obtain ⟨hread, hwrite⟩ := ha num args rfl
    change Ensures (k.disastrOSSyscall num args) _
    unfold disastrOSSyscall
    split
    · exact ensures_error _
    · next r _ =>
      refine ensures_ite (fun _ => ensures_ok ⟨rfl, rfl⟩) fun _ =>
        ensures_ite (fun _ => ensures_error _) fun _ => ?_
      have hsame : SameMessages k (k.setCall r num args) := ⟨rfl, rfl⟩
      refine same_then hsame ?_
      unfold disastrOSTrap
      refine ensures_bind_any fun r' =>
        ensures_bind (P := SameMessages (k.setCall r num args)) ?_ fun _ => ensures_setcontext
      split
      · exact ensures_ok ⟨rfl, rfl⟩
      · next hv => exact same_handler hv hread hwrite _

end DisastrOS.MessageQueue.MessageFrame
