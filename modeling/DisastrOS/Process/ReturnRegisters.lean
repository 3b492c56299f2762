import DisastrOS.Process.Transitions

/-!
# Who writes the registers of a process

A handler writes the number of the call and the return value of the running process only.
The one exception is `exit`, which completes the call of a parent that waits.
-/
namespace DisastrOS.Process.ReturnRegisters

open DisastrOS.Machine
open DisastrOS.Machine.Kernel
open DisastrOS.Machine.Runs
open DisastrOS.MessageQueue.Calls
open DisastrOS.MessageQueue.CoherentCalls
open DisastrOS.Process.Transitions
open DisastrOS.Library.GuardedRun
open DisastrOS.Library.Outcome

variable {k k' k₁ : Kernel} {p r d q mq n i : Nat} {t : Table} {v : Int} {num : Int}
  {args : List Int} {a : Action}

/-- The number of the call and the return value of `p` are as before. -/
structure Frozen (p : Nat) (k k' : Kernel) : Prop where
  num : (k'.pcb p).syscallNum = (k.pcb p).syscallNum
  value : (k'.pcb p).syscallRetvalue = (k.pcb p).syscallRetvalue

theorem Frozen.refl : Frozen p k k := ⟨rfl, rfl⟩

theorem Frozen.trans (h : Frozen p k k₁) (h' : Frozen p k₁ k') : Frozen p k k' :=
  ⟨h'.num.trans h.num, h'.value.trans h.value⟩

theorem frozen_of_pcb (h : k'.pcb = k.pcb) : Frozen p k k' := ⟨by rw [h], by rw [h]⟩

/-- A process is changed, and these registers of it are not. -/
theorem frozen_modPcb {f : PCB → PCB} (hnum : ∀ q, (f q).syscallNum = q.syscallNum)
    (hvalue : ∀ q, (f q).syscallRetvalue = q.syscallRetvalue) : Frozen p k (k.modPcb r f) := by
  by_cases he : p = r
  · subst he
    exact ⟨by simp [modPcb, hnum], by simp [modPcb, hvalue]⟩
  · exact ⟨by simp [modPcb, he], by simp [modPcb, he]⟩

theorem frozen_setRetvalue (h : Frozen p k k₁) (hp : p ≠ r) : Frozen p k (k₁.setRetvalue r v) :=
  h.trans ⟨by simp [setRetvalue, modPcb, hp], by simp [setRetvalue, modPcb, hp]⟩

theorem frozen_setCall (hp : p ≠ r) : Frozen p k (k.setCall r num args) :=
  ⟨by simp [setCall, modPcb, hp], by simp [setCall, modPcb, hp]⟩

theorem frozen_setStatus (h : Frozen p k k₁) (st : ProcessStatus) :
    Frozen p k (k₁.setStatus r st) :=
  h.trans (frozen_modPcb (fun _ => rfl) fun _ => rfl)

theorem frozen_signal (h : Frozen p k k₁) (sig : BitVec 32) : Frozen p k (k₁.signal r sig) :=
  h.trans (frozen_modPcb (fun _ => rfl) fun _ => rfl)

theorem frozen_setFdCounter (f : PCB → Int) (h : k₁.pcb = k.pcb) :
    Frozen p k (k₁.modPcb r fun q => q.setFdCounter t (f q)) :=
  (frozen_of_pcb h).trans
    (frozen_modPcb (fun _ => by cases t <;> rfl) fun _ => by cases t <;> rfl)

/-- Every state in which the computation completes. -/
abbrev Freezes (p : Nat) (k : Kernel) (x : Except Fault Kernel) : Prop := Ensures x (Frozen p k)

theorem freezes_after {x : Except Fault Kernel} (hx : Freezes p k₁ x) (h : Frozen p k k₁) :
    Freezes p k x :=
  ensures_mono hx fun _ h' => h.trans h'

theorem freezes_refusal (hp : p ≠ r) : Freezes p k (.ok (k.setRetvalue r v)) :=
  ensures_ok (frozen_setRetvalue .refl hp)

/-- A handler starts by looking up who is running. -/
theorem freezes_handler {f : Nat → Except Fault Kernel} (hp : k.running ≠ some p)
    (h : ∀ r, k.running = some r → p ≠ r → Freezes p k (f r)) :
    Freezes p k (deref k.running >>= f) := by
  refine ensures_bind (P := fun r => k.running = some r) (fun r hr => deref_eq_ok.mp hr) ?_
  intro r hr
  exact h r hr fun he => hp (he ▸ hr)

/-! ## Operations -/

theorem pcb_newItem {kind : Kind} (h : k.newItem kind = some (i, k')) : k'.pcb = k.pcb := by
  unfold newItem getBlock at h
  cases hget : (k.pool kind).getBlock with
  | mk b a =>
    rw [hget] at h
    cases b with
    | none => cases h
    | some b =>
      cases h
      rfl

theorem pcb_detachFirst {l : HeadAddr} (h : k.detachFirst l = .ok (i, k')) : k'.pcb = k.pcb := by
  unfold detachFirst at h
  obtain ⟨_, _, h⟩ := bind_eq_ok.mp h
  obtain ⟨_, _, h⟩ := bind_eq_ok.mp h
  cases h
  rfl

theorem pcb_freeUnused {l : HeadAddr} {kind : Kind} (h : k.freeUnused l kind i = .ok k') :
    k'.pcb = k.pcb := by
  unfold freeUnused at h
  split at h
  · cases h
    rfl
  · cases h

theorem pcb_resourceAlloc {id type : Int} (h : k.resourceAlloc id type = some (i, k')) :
    k'.pcb = k.pcb := by
  unfold resourceAlloc at h
  split at h
  · cases h
  · next hitem =>
    cases h
    have hpcb := pcb_newItem hitem
    exact hpcb

theorem pcb_messageQueueAlloc {id priority : Int}
    (h : k.messageQueueAlloc id priority = some (i, k')) : k'.pcb = k.pcb := by
  unfold messageQueueAlloc at h
  split at h
  · cases h
  · next hitem =>
    cases h
    have hpcb := pcb_newItem hitem
    exact hpcb

theorem pcb_descriptorAlloc {fd : Int} {object : Nat}
    (h : k.descriptorAlloc t fd object r = some (i, k')) : k'.pcb = k.pcb := by
  unfold descriptorAlloc at h
  split at h
  · cases h
  · next hitem =>
    cases h
    have hpcb := pcb_newItem hitem
    exact hpcb

theorem pcb_descriptorPtrAlloc (d : Nat) :
    (((k.descriptorPtrAlloc t d).map Prod.snd).getD k).pcb = k.pcb := by
  unfold descriptorPtrAlloc
  cases hitem : k.newItem t.pointerKind with
  | none => rfl
  | some new =>
    have hpcb := pcb_newItem hitem
    exact hpcb

theorem pcb_storeResult {addr : Int} (h : k.storeResult addr v = .ok k') : k'.pcb = k.pcb := by
  unfold storeResult at h
  split at h
  · obtain ⟨_, rfl⟩ := storeInt_eq_ok.mp h
    rfl
  · cases h
    rfl

theorem frozen_openDescriptor {object : Nat} {err : Int} {k₀ : Kernel} (h : Frozen p k₀ k)
    (hp : p ≠ r) : Frozen p k₀ (k.openDescriptor t r object err) := by
  refine h.trans ?_
  unfold openDescriptor descriptorAlloc
  cases hnew : k.newItem t.descriptorKind with
  | none => exact frozen_setRetvalue .refl hp
  | some new =>
    obtain ⟨d, k₁⟩ := new
    have hk₁ : k₁.pcb = k.pcb := pcb_newItem hnew
    simp only [descriptorPtrAlloc]
    generalize hk₂ : k₁.setDescriptor t d _ = k₂
    have hpcb : k₂.pcb = k.pcb := by
      rw [← hk₂]
      exact hk₁
    cases hnew₂ : k₂.newItem t.pointerKind with
    | none => exact frozen_setRetvalue (frozen_of_pcb hpcb) hp
    | some new₂ =>
      obtain ⟨ptr, k₃⟩ := new₂
      have hk₃ : k₃.pcb = k.pcb := (pcb_newItem hnew₂).trans hpcb
      simp only
      exact frozen_setRetvalue (frozen_setFdCounter (fun q => q.fdCounter t + 1) hk₃) hp

theorem frozen_closeDescriptor {object : Nat} {b : Bool}
    (h : k.closeDescriptor t r d object = (b, k')) : Frozen p k k' := by
  unfold closeDescriptor at h
  simp only at h
  split at h
  · cases h
    exact frozen_of_pcb rfl
  · cases h
    exact frozen_setFdCounter (fun q => q.fdCounter t - 1) rfl

/-! ## Tables and queues -/

theorem semOpen_freezes (hp : k.running ≠ some p) : Freezes p k (internalSemOpen k) := by
  refine freezes_handler hp fun r _ hpr => ?_
  simp only
  split
  · exact freezes_refusal hpr
  split
  · exact freezes_refusal hpr
  split
  · exact freezes_refusal hpr
  refine ensures_bind_any fun found => ?_
  cases found with
  | some sem =>
    simp only
    split
    · exact freezes_refusal hpr
    · exact ensures_ok (frozen_openDescriptor .refl hpr)
  | none =>
    simp only
    split
    · split
      · exact freezes_refusal hpr
      · split
        · exact freezes_refusal hpr
        · next hnew =>
          unfold semaphoreAlloc at hnew
          split at hnew
          · cases hnew
          · next hitem =>
            cases hnew
            have hpcb := pcb_newItem hitem
            exact ensures_ok (frozen_openDescriptor (frozen_of_pcb hpcb) hpr)
    · exact freezes_refusal hpr

theorem semWait_freezes (hp : k.running ≠ some p) : Freezes p k (internalSemWait k) := by
  refine freezes_handler hp fun r _ hpr => ?_
  simp only
  split
  · exact freezes_refusal hpr
  refine ensures_bind_any fun found => ?_
  cases found with
  | none => exact freezes_refusal hpr
  | some bound =>
    simp only
    split
    · exact ensures_ok (frozen_setRetvalue (frozen_of_pcb rfl) hpr)
    · split
      · exact freezes_refusal hpr
      · refine ensures_bind (P := fun x => x.2.pcb = k.pcb) (fun x hx => pcb_detachFirst hx) ?_
        exact fun x hx => ensures_ok (frozen_of_pcb hx)

theorem semPost_freezes (hp : k.running ≠ some p) : Freezes p k (internalSemPost k) := by
  refine freezes_handler hp fun r _ hpr => ?_
  simp only
  split
  · exact freezes_refusal hpr
  refine ensures_bind_any fun found => ?_
  cases found with
  | none => exact freezes_refusal hpr
  | some bound =>
    refine ensures_bind_any fun count => ?_
    split
    · split
      · refine ensures_bind (P := fun x => x.2.pcb = k.pcb) (fun x hx => pcb_detachFirst hx) ?_
        intro x hx
        refine ensures_bind_any fun d => ?_
        split
        · exact ensures_ok (frozen_setRetvalue (frozen_of_pcb hx) hpr)
        · exact ensures_ok (frozen_of_pcb hx)
      · exact ensures_ok (frozen_setRetvalue (frozen_of_pcb rfl) hpr)
    · exact ensures_ok (frozen_setRetvalue (frozen_of_pcb rfl) hpr)

theorem semClose_freezes (hp : k.running ≠ some p) : Freezes p k (internalSemClose k) := by
  refine freezes_handler hp fun r _ hpr => ?_
  simp only
  split
  · exact freezes_refusal hpr
  refine ensures_bind_any fun found => ?_
  cases found with
  | none => exact freezes_refusal hpr
  | some bound =>
    simp only
    split
    · next hclose =>
      exact ensures_ok (frozen_setRetvalue (frozen_closeDescriptor hclose) hpr)
    · next hclose =>
      have hk₁ := frozen_closeDescriptor (p := p) hclose
      split
      · refine ensures_bind (P := fun x => Frozen p k x) (fun x hx => ?_) ?_
        · unfold semaphoreFree at hx
          have hpcb := pcb_freeUnused hx
          exact hk₁.trans (frozen_of_pcb hpcb)
        · exact fun x hx => ensures_ok (frozen_setRetvalue hx hpr)
      · exact ensures_ok (frozen_setRetvalue hk₁ hpr)

theorem openResource_freezes (hp : k.running ≠ some p) :
    Freezes p k (internalOpenResource k) := by
  have hbind : ∀ {k₁ : Kernel} {r : Nat} {found : Option Nat} {type openMode : Int},
      k₁.pcb = k.pcb → p ≠ r →
      Freezes p k (internalOpenResource.bind k₁ r found type openMode) := by
    intro k₁ r found type openMode hk₁ hpr
    unfold internalOpenResource.bind
    cases found with
    | none => exact ensures_ok (frozen_setRetvalue (frozen_of_pcb hk₁) hpr)
    | some res =>
      simp only
      split
      · exact ensures_ok (frozen_setRetvalue (frozen_of_pcb hk₁) hpr)
      split
      · exact ensures_ok (frozen_setRetvalue (frozen_of_pcb hk₁) hpr)
      split
      · exact ensures_ok (frozen_setRetvalue (frozen_of_pcb hk₁) hpr)
      · next des k₂ halloc =>
        have hpcb := (pcb_descriptorAlloc halloc).trans hk₁
        refine ensures_bind_any fun next => ensures_bind_any fun ptr => ?_
        have hcounted : Frozen p k (k₂.modPcb r fun q => { q with lastFd := next }) :=
          (frozen_of_pcb hpcb).trans (frozen_modPcb (fun _ => rfl) fun _ => rfl)
        have hptr := pcb_descriptorPtrAlloc (t := .resource)
          (k := k₂.modPcb r fun q => { q with lastFd := next }) des
        exact ensures_ok (frozen_setRetvalue (hcounted.trans (frozen_of_pcb hptr)) hpr)
  refine freezes_handler hp fun r _ hpr => ?_
  refine ensures_bind_any fun found => ?_
  simp only
  split
  · split
    · exact freezes_refusal hpr
    · refine ensures_bind (P := fun x => x.2.pcb = k.pcb) (fun x hx => ?_) fun x hx => ?_
      · exact pcb_resourceAlloc (deref_eq_ok.mp hx)
      · exact hbind hx hpr
  · exact hbind rfl hpr

theorem closeResource_freezes (hp : k.running ≠ some p) :
    Freezes p k (internalCloseResource k) := by
  refine freezes_handler hp fun r _ hpr => ?_
  refine ensures_bind_any fun found => ?_
  cases found with
  | none => exact freezes_refusal hpr
  | some d =>
    refine ensures_bind_any fun res => ensures_bind_any fun ptr => ?_
    exact ensures_ok (frozen_setRetvalue (frozen_of_pcb rfl) hpr)

theorem destroyResource_freezes (hp : k.running ≠ some p) :
    Freezes p k (internalDestroyResource k) := by
  refine freezes_handler hp fun r _ hpr => ?_
  refine ensures_bind_any fun found => ?_
  cases found with
  | none => exact freezes_refusal hpr
  | some res =>
    simp only
    split
    · exact freezes_refusal hpr
    · refine ensures_bind (P := fun x => x.pcb = k.pcb) (fun x hx => ?_) fun x hx => ?_
      · unfold resourceFree at hx
        have hpcb := pcb_freeUnused hx
        exact hpcb
      · exact ensures_ok (frozen_setRetvalue (frozen_of_pcb hx) hpr)

theorem mqOpen_freezes (hp : k.running ≠ some p) : Freezes p k (internalMqOpen k) := by
  refine freezes_handler hp fun r _ hpr => ?_
  simp only
  split
  · exact freezes_refusal hpr
  split
  · exact freezes_refusal hpr
  refine ensures_bind_any fun found => ?_
  cases found with
  | some mq =>
    simp only
    split
    · exact freezes_refusal hpr
    · intro k' hk'
      rw [(openFound_ok hk').1]
      exact frozen_openDescriptor .refl hpr
  | none =>
    simp only
    split
    · split
      · exact freezes_refusal hpr
      split
      · exact freezes_refusal hpr
      split
      · exact freezes_refusal hpr
      · next hnew =>
        have hpcb := pcb_messageQueueAlloc hnew
        split
        · next hadd =>
          exact ensures_ok (frozen_setRetvalue (frozen_of_pcb ((addQueues_pcb hadd).trans hpcb)) hpr)
        · next hadd =>
          have hk₂ := (addQueues_pcb hadd).trans hpcb
          exact ensures_ok (frozen_openDescriptor (frozen_of_pcb hk₂) hpr)
    · exact freezes_refusal hpr

theorem mqClose_freezes (hp : k.running ≠ some p) : Freezes p k (internalMqClose k) := by
  refine freezes_handler hp fun r _ hpr => ?_
  simp only
  split
  · exact freezes_refusal hpr
  refine ensures_bind_any fun found => ?_
  cases found with
  | none => exact freezes_refusal hpr
  | some bound =>
    simp only
    split
    · next hclose => exact ensures_ok (frozen_setRetvalue (frozen_closeDescriptor hclose) hpr)
    · next hclose => exact ensures_ok (frozen_setRetvalue (frozen_closeDescriptor hclose) hpr)

theorem mqWrite_freezes (hp : k.running ≠ some p) : Freezes p k (internalMqWrite k) := by
  refine freezes_handler hp fun r _ hpr => ?_
  simp only
  split
  · exact freezes_refusal hpr
  split
  · exact freezes_refusal hpr
  split
  · exact freezes_refusal hpr
  refine ensures_bind_any fun found => ?_
  cases found with
  | none => exact freezes_refusal hpr
  | some bound =>
    simp only
    split
    · exact freezes_refusal hpr
    refine ensures_bind_any fun queue => ?_
    cases queue with
    | none => exact freezes_refusal hpr
    | some q =>
      simp only
      split
      · exact freezes_refusal hpr
      · next hnew =>
        unfold messageAlloc at hnew
        split at hnew
        · cases hnew
        · next hitem =>
          cases hnew
          have hpcb := pcb_newItem hitem
          exact ensures_ok (frozen_setRetvalue (frozen_of_pcb hpcb) hpr)

/-- The loop ends with a delivery or with a refusal. -/
theorem readClasses_freezes {buf bufSize priority j : Int} (hpr : p ≠ r) :
    Freezes p k (readClasses r mq buf bufSize priority j n k) := by
  induction n generalizing j k with
  | zero => exact freezes_refusal hpr
  | succ n ih =>
    refine ensures_bind_any fun queue => ?_
    cases queue with
    | none => exact freezes_refusal hpr
    | some q =>
      simp only
      split
      · refine ensures_bind (P := fun x => x.2.pcb = k.pcb) (fun x hx => pcb_detachFirst hx) ?_
        intro x hx
        refine freezes_after ?_ (frozen_of_pcb hx)
        split
        · refine ensures_bind_any fun c => ?_
          refine ensures_bind (P := fun y => y.pcb = x.2.pcb) (fun y hy => ?_) fun y hy => ?_
          · obtain ⟨_, rfl⟩ := storeChar_eq_ok.mp hy
            rfl
          refine ensures_bind (P := fun z => z.pcb = x.2.pcb) (fun z hz => ?_) fun z hz => ?_
          · obtain ⟨_, rfl⟩ := storeInt_eq_ok.mp hz
            exact hy
          · exact ensures_ok (frozen_setRetvalue (frozen_of_pcb hz) hpr)
        · exact ih
      · exact ih

theorem mqRead_freezes (hp : k.running ≠ some p) : Freezes p k (internalMqRead k) := by
  refine freezes_handler hp fun r _ hpr => ?_
  simp only
  split
  · exact freezes_refusal hpr
  refine ensures_bind_any fun found => ?_
  cases found with
  | none => exact freezes_refusal hpr
  | some bound =>
    simp only
    split
    · exact freezes_refusal hpr
    · exact readClasses_freezes hpr

theorem removeQueues_pcb : Ensures (removeQueues mq n k) fun k' => k'.pcb = k.pcb := by
  induction n generalizing k with
  | zero => exact ensures_ok rfl
  | succ n ih =>
    refine ensures_bind (P := fun x => x.2.pcb = k.pcb) (fun x hx => pcb_detachFirst hx) ?_
    intro x hx
    simp only
    split
    · refine ensures_bind (P := fun y => y.pcb = k.pcb) (fun y hy => ?_) fun y hy => ?_
      · unfold queueFree at hy
        exact (pcb_freeUnused hy).trans hx
      · exact ensures_mono ih fun _ h => h.trans hy
    · exact ensures_mono ih fun _ h => h.trans hx

theorem mqUnlink_freezes (hp : k.running ≠ some p) : Freezes p k (internalMqUnlink k) := by
  refine freezes_handler hp fun r _ hpr => ?_
  refine ensures_bind_any fun found => ?_
  cases found with
  | none => exact freezes_refusal hpr
  | some found =>
    refine ensures_bind_any fun mq => ?_
    split
    · exact freezes_refusal hpr
    split
    · exact freezes_refusal hpr
    refine ensures_bind (P := fun x => x.pcb = k.pcb) (fun x hx => removeQueues_pcb x hx) ?_
    intro x hx
    refine ensures_bind (P := fun y => y.pcb = k.pcb) (fun y hy => ?_) fun y hy => ?_
    · unfold messageQueueFree at hy
      exact (pcb_freeUnused hy).trans hx
    · exact ensures_ok (frozen_setRetvalue (frozen_of_pcb hy) hpr)

/-! ## Scheduling -/

theorem wakeElapsed_freezes {fuel : Nat} {previous : Option Node} :
    Freezes p k (wakeElapsed fuel previous k) := by
  induction fuel generalizing previous k with
  | zero => exact ensures_error _
  | succ fuel ih =>
    refine ensures_bind_any fun found => ?_
    cases found with
    | none => exact ensures_ok .refl
    | some timer =>
      refine ensures_bind_any fun q => ?_
      have hwoken : Frozen p k (k.modPcb q fun x => { x with status := .Ready, timer := none }) :=
        frozen_modPcb (fun _ => rfl) fun _ => rfl
      refine ensures_bind (P := Frozen p k) (fun k₂ hk₂ => ?_) fun k₂ hk₂ => freezes_after ih hk₂
      unfold timerListRemoveCurrent at hk₂
      obtain ⟨⟨i, k₃⟩, hd, hk₂⟩ := bind_eq_ok.mp hk₂
      have hpcb := pcb_detachFirst hd
      cases hk₂
      exact hwoken.trans (frozen_of_pcb hpcb)

theorem schedule_freezes : Freezes p k (internalSchedule k) := by
  refine ensures_bind (P := Frozen p k) wakeElapsed_freezes fun k₁ hk₁ => ?_
  split
  · exact ensures_ok hk₁
  · refine ensures_bind (P := fun x => Frozen p k x.2) (fun x hx => ?_) fun x hx => ?_
    · exact hk₁.trans (frozen_of_pcb (pcb_detachFirst hx))
    refine ensures_bind_any fun r => ensures_ok ?_
    have hstatus : Frozen p k (x.2.setStatus r .Ready) := frozen_setStatus hx _
    have hready : Frozen p k ((x.2.setStatus r .Ready).append .readyList ⟨.pcb, r⟩) :=
      hstatus.trans (frozen_of_pcb rfl)
    have hrun := frozen_setStatus (r := x.1) hready .Running
    exact hrun.trans (frozen_of_pcb rfl)

theorem timer_freezes : Freezes p k (timerInterrupt k) := by
  refine ensures_bind_any fun _ => ensures_bind_any fun time => ?_
  have htime : Frozen p k { k with disastrOSTime := time } := frozen_of_pcb rfl
  refine ensures_bind (P := Frozen p k) (fun k₁ hk₁ => ?_) fun k₁ hk₁ => ?_
  · exact htime.trans (schedule_freezes k₁ hk₁)
  · exact ensures_bind_any fun _ => ensures_setcontext hk₁

theorem sleep_freezes (hp : k.running ≠ some p) : Freezes p k (internalSleep k) := by
  refine freezes_handler hp fun r _ hpr => ?_
  split
  · exact freezes_refusal hpr
  refine ensures_bind_any fun time => ?_
  refine ensures_bind (P := fun found => ∀ k₁, found = some k₁ → k₁.pcb = k.pcb)
    (fun found hfound => ?_) fun found hfound => ?_
  · unfold timerListAdd at hfound
    obtain ⟨_, _, hfound⟩ := bind_eq_ok.mp hfound
    unfold timerItemAlloc at hfound
    cases hitem : k.newItem .timerItem with
    | none =>
      rw [hitem] at hfound
      cases hfound
      intro k₁ he
      cases he
    | some new =>
      have hpcb := pcb_newItem hitem
      rw [hitem] at hfound
      cases hfound
      intro k₁ he
      cases he
      exact hpcb
  cases found with
  | none => exact freezes_refusal hpr
  | some k₁ =>
    have hk₁ : Frozen p k k₁ := frozen_of_pcb (hfound k₁ rfl)
    have hstatus : Frozen p k (k₁.setStatus r .Waiting) := frozen_setStatus hk₁ _
    simp only
    split
    · exact ensures_ok (hstatus.trans (frozen_of_pcb rfl))
    · refine ensures_bind (P := fun x => Frozen p k x.2) (fun x hx => ?_) fun x hx => ?_
      · have hpcb := pcb_detachFirst hx
        exact hstatus.trans (frozen_of_pcb hpcb)
      · exact ensures_ok (hx.trans (frozen_of_pcb rfl))

theorem frozen_pcbAlloc {x : Nat × Kernel} (hx : k.pcbAlloc = .ok x) : Frozen p k x.2 := by
  unfold pcbAlloc at hx
  obtain ⟨⟨c, k₁⟩, hnew, hx⟩ := bind_eq_ok.mp hx
  obtain ⟨next, _, hx⟩ := bind_eq_ok.mp hx
  have hpcb := pcb_newItem (deref_eq_ok.mp hnew)
  cases hx
  have hfilled : Frozen p k₁ (k₁.modPcb c fun q =>
      { q with
        pid := k₁.lastPid, returnValue := 0, lastFd := 0, signals := 0
        signalsMask := 0xFFFFFFFF, status := .Invalid, parent := none, timer := none
        lastSemFd := 0, lastMqFd := 0 }) := frozen_modPcb (fun _ => rfl) fun _ => rfl
  exact ((frozen_of_pcb hpcb).trans hfilled).trans (frozen_of_pcb rfl)

theorem resumeMain_freezes : Freezes p k k.resumeMain := by
  unfold resumeMain
  split
  · exact ensures_error _
  · refine ensures_bind (P := fun x => Frozen p k x.2) (fun _ hx => frozen_pcbAlloc hx) fun x hx => ?_
    have hrun : Frozen p x.2 (x.2.modPcb x.1 fun q => { q with status := .Running, cpuState := true }) :=
      frozen_modPcb (fun _ => rfl) fun _ => rfl
    exact ensures_ok ((hx.trans hrun).trans (frozen_of_pcb rfl))

theorem spawn_freezes {context : Bool} (hp : k.running ≠ some p) :
    Freezes p k (createProcess context k) := by
  refine freezes_handler hp fun r _ hpr => ?_
  refine ensures_bind (P := fun x => Frozen p k x.2) (fun _ hx => frozen_pcbAlloc hx) fun x hx => ?_
  have hchild : Frozen p k
      (x.2.modPcb x.1 fun q =>
        { q with status := .Ready, parent := some r, cpuState := context || q.cpuState }) :=
    hx.trans (frozen_modPcb (fun _ => rfl) fun _ => rfl)
  refine ensures_bind (P := fun y => Frozen p k y.2) (fun y hy => ?_) fun y hy => ?_
  · unfold pcbPtrAlloc at hy
    obtain ⟨⟨ptr, k₂⟩, hnew, hy⟩ := bind_eq_ok.mp hy
    have hpcb := pcb_newItem (deref_eq_ok.mp hnew)
    cases hy
    exact hchild.trans (frozen_of_pcb hpcb)
  · exact ensures_ok (frozen_setRetvalue (hy.trans (frozen_of_pcb rfl)) hpr)

theorem wait_freezes (hp : k.running ≠ some p) : Freezes p k (internalWait k) := by
  refine freezes_handler hp fun r _ hpr => ?_
  have hblock : Freezes p k (k.blockInWait r) := by
    unfold blockInWait
    have hstatus : Frozen p k (k.setStatus r .Waiting) := frozen_setStatus .refl _
    refine ensures_bind (P := fun x => Frozen p k x.2) (fun x hx => ?_) fun x hx => ?_
    · have hpcb := pcb_detachFirst hx
      exact hstatus.trans (frozen_of_pcb hpcb)
    · exact ensures_ok (hx.trans (frozen_of_pcb rfl))
  simp only
  split
  · exact freezes_refusal hpr
  refine ensures_bind_any fun found => ?_
  cases found with
  | none =>
    simp only
    split
    · exact freezes_refusal hpr
    · exact hblock
  | some awaited =>
    obtain ⟨ptr, child⟩ := awaited
    simp only
    split
    · refine ensures_bind (P := Frozen p k) (fun k₁ hk₁ => ?_) fun k₁ hk₁ => ?_
      · have hpcb := pcb_storeResult hk₁
        have hset : Frozen p k (k.setRetvalue r (k.pcb child).pid) := frozen_setRetvalue .refl hpr
        exact hset.trans (frozen_of_pcb hpcb)
      · exact ensures_ok (hk₁.trans (frozen_of_pcb rfl))
    · exact hblock

/-! ## Termination -/

theorem reparentChildren_freezes {init fuel : Nat} :
    Freezes p k (reparentChildren r init fuel k) := by
  induction fuel generalizing k with
  | zero => exact ensures_error _
  | succ fuel ih =>
    unfold reparentChildren
    split
    · exact ensures_ok .refl
    · next item _ =>
      refine ensures_bind_any fun ptr => ensures_bind_any fun child => ?_
      have hmoved : Frozen p k ((k.detach (.children r) item).append (.children init) item) :=
        frozen_of_pcb rfl
      exact freezes_after ih (frozen_signal hmoved _)

theorem releaseTimers_freezes {fuel : Nat} {item : Option Node} :
    Freezes p k (releaseTimers r fuel item k) := by
  induction fuel generalizing item k with
  | zero => exact ensures_error _
  | succ fuel ih =>
    cases item with
    | none => exact ensures_ok .refl
    | some item =>
      refine ensures_bind_any fun timer => ?_
      simp only
      split
      · exact freezes_after ih (frozen_of_pcb rfl)
      · exact ih

theorem releaseDescriptors_freezes {fuel : Nat} : Freezes p k (releaseDescriptors r fuel k) := by
  induction fuel generalizing k with
  | zero => exact ensures_error _
  | succ fuel ih =>
    unfold releaseDescriptors
    split
    · exact ensures_ok .refl
    · refine ensures_bind_any fun d => ensures_bind_any fun res => ensures_bind_any fun ptr => ?_
      exact freezes_after ih (frozen_of_pcb rfl)

theorem reportToParent_freezes {parent : Nat} (hp : p ≠ parent) :
    Freezes p k (k.reportToParent r parent) := by
  have hstatus : Frozen p k (k.setStatus parent .Running) := frozen_setStatus .refl _
  refine ensures_bind_any fun found => ensures_bind_any fun self => ?_
  refine ensures_bind (P := Frozen p k) (fun k₁ hk₁ => ?_) fun k₁ hk₁ => ?_
  · have hpcb := pcb_storeResult hk₁
    have hset : Frozen p k ((k.setStatus parent .Running).setRetvalue parent
        (((k.setStatus parent .Running).pcb r).pid)) := frozen_setRetvalue hstatus hp
    exact hset.trans (frozen_of_pcb hpcb)
  refine ensures_bind (P := Frozen p k) (fun k₂ hk₂ => ?_) fun k₂ hk₂ => ?_
  · exact hk₁.trans (releaseTimers_freezes k₂ hk₂)
  refine ensures_bind (P := Frozen p k) (fun k₃ hk₃ => ?_) fun k₃ hk₃ => ?_
  · exact hk₂.trans (releaseDescriptors_freezes k₃ hk₃)
  · exact ensures_ok (hk₃.trans (frozen_of_pcb rfl))

/-- A process that is not in `wait` is not reported to. -/
theorem exit_freezes (hnum : (k.pcb p).syscallNum ≠ DSOS_CALL_WAIT) :
    Freezes p k (internalExit k) := by
  refine ensures_bind_any fun r => ?_
  have hvalue : Frozen p k
      (k.modPcb r fun q => { q with returnValue := toInt (q.syscallArgs 0) }) :=
    frozen_modPcb (fun _ => rfl) fun _ => rfl
  simp only
  split
  · exact ensures_error _
  refine ensures_bind (P := Frozen p k) (fun k₁ hk₁ => ?_) fun k₁ hk₁ => ?_
  · exact hvalue.trans (reparentChildren_freezes k₁ hk₁)
  refine ensures_bind_any fun parent => ?_
  have hzombie : Frozen p k ((k₁.setStatus r .Zombie).append .zombieList ⟨.pcb, r⟩) :=
    (frozen_setStatus hk₁ .Zombie).trans (frozen_of_pcb rfl)
  have hdead := frozen_signal (r := parent) hzombie DSOS_SIGCHLD
  split
  · next hwaits =>
    refine freezes_after (reportToParent_freezes fun he => hnum ?_) hdead
    subst he
    exact hdead.num.symm.trans hwaits.2.1
  · refine ensures_bind (P := fun x => Frozen p k x.2) (fun x hx => ?_) fun x hx => ?_
    · exact hdead.trans (frozen_of_pcb (pcb_detachFirst hx))
    · have hrun : Frozen p k (x.2.setStatus x.1 .Running) := frozen_setStatus hx _
      exact ensures_ok (hrun.trans (frozen_of_pcb rfl))

/-! ## Actions -/

theorem of_ite_some {α : Type} {c : Prop} [Decidable c] {x y : α} {rest : Option α}
    (h : (if c then some x else rest) = some y) : y = x ∨ rest = some y := by
  split at h
  · exact .inl (Option.some.inj h).symm
  · exact .inr h

theorem handler_freezes {f : Kernel → Except Fault Kernel} (hp : k.running ≠ some p)
    (hnum : (k.pcb p).syscallNum ≠ DSOS_CALL_WAIT) (hv : syscallVector num = some f) :
    Freezes p k (f k) := by
  unfold syscallVector at hv
  rcases of_ite_some hv with rfl | hv
  · exact schedule_freezes
  rcases of_ite_some hv with rfl | hv
  · exact spawn_freezes hp
  rcases of_ite_some hv with rfl | hv
  · exact wait_freezes hp
  rcases of_ite_some hv with rfl | hv
  · exact exit_freezes hnum
  rcases of_ite_some hv with rfl | hv
  · exact spawn_freezes hp
  rcases of_ite_some hv with rfl | hv
  · exact sleep_freezes hp
  rcases of_ite_some hv with rfl | hv
  · exact openResource_freezes hp
  rcases of_ite_some hv with rfl | hv
  · exact closeResource_freezes hp
  rcases of_ite_some hv with rfl | hv
  · exact destroyResource_freezes hp
  rcases of_ite_some hv with rfl | hv
  · exact ensures_error _
  rcases of_ite_some hv with rfl | hv
  · exact semOpen_freezes hp
  rcases of_ite_some hv with rfl | hv
  · exact semClose_freezes hp
  rcases of_ite_some hv with rfl | hv
  · exact semWait_freezes hp
  rcases of_ite_some hv with rfl | hv
  · exact semPost_freezes hp
  rcases of_ite_some hv with rfl | hv
  · exact mqOpen_freezes hp
  rcases of_ite_some hv with rfl | hv
  · exact mqClose_freezes hp
  rcases of_ite_some hv with rfl | hv
  · exact mqRead_freezes hp
  rcases of_ite_some hv with rfl | hv
  · exact mqWrite_freezes hp
  rcases of_ite_some hv with rfl | hv
  · exact mqUnlink_freezes hp
  · cases hv

/-- What the others do leaves the registers of a process alone that is not in `wait`. -/
theorem act_freezes (ha : Ordinary a) (hp : k.running ≠ some p)
    (hnum : (k.pcb p).syscallNum ≠ DSOS_CALL_WAIT) : Freezes p k (act k a) := by
  cases a with
  | syscall num args =>
    show Freezes p k (k.disastrOSSyscall num args)
    unfold disastrOSSyscall
    cases hr : k.running with
    | none => exact ensures_error _
    | some r =>
      have hpr : p ≠ r := fun he => hp (he ▸ hr)
      have hset : Frozen p k (k.setCall r num args) := frozen_setCall hpr
      simp only
      split
      · exact ensures_ok .refl
      split
      · exact ensures_error _
      refine freezes_after ?_ hset
      have hp₁ : (k.setCall r num args).running ≠ some p := hp
      refine freezes_handler hp₁ fun r' _ hpr' => ?_
      refine ensures_bind (P := Frozen p (k.setCall r num args)) ?_ fun _ => ensures_setcontext
      split
      · exact freezes_refusal hpr'
      · next f hv => exact handler_freezes hp₁ (fun he => hnum (hset.num.symm.trans he)) hv
  | timer => exact timer_freezes
  | restart => exact resumeMain_freezes
  | store addr v =>
    intro k' hk'
    obtain ⟨_, rfl⟩ := storeChar_eq_ok.mp hk'
    exact frozen_of_pcb rfl
  | dispatch q => exact ha.elim

/-- While `p` does not run it keeps the registers of a call other than `wait`. -/
theorem frozen_run {as : List Action}
    (h : Run act (fun k a => Ordinary a ∧ k.running ≠ some p) k as k')
    (hnum : (k.pcb p).syscallNum ≠ DSOS_CALL_WAIT) : Frozen p k k' := by
  refine run_invariant (I := Frozen p k) (fun k₁ a k₂ hk₁ hguard hact => ?_) .refl h
  have hnum₁ : (k₁.pcb p).syscallNum ≠ DSOS_CALL_WAIT := fun he => hnum (hk₁.num.symm.trans he)
  exact hk₁.trans (act_freezes hguard.1 hguard.2 hnum₁ k₂ hact)

end DisastrOS.Process.ReturnRegisters
