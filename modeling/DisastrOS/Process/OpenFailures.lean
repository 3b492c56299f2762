import DisastrOS.Process.Quotas

/-!
# When a failed `semOpen` or `openResource` leaves no trace

Both calls put a new object into the global list before they allocate the descriptor for it.
When there is no block for the descriptor the object stays. A new resource is used before it
is tested for NULL.
-/
namespace DisastrOS.Process.OpenFailures

open DisastrOS.Machine
open DisastrOS.Machine.Kernel
open DisastrOS.Machine.Runs
open DisastrOS.Lists.Sequences
open DisastrOS.Lists.Wiring
open DisastrOS.Lists.RegularLists
open DisastrOS.Pool.Blocks
open DisastrOS.Descriptors.Bindings
open DisastrOS.Descriptors.Tables
open DisastrOS.Process.Coherence
open DisastrOS.Process.FdTables
open DisastrOS.Process.Handles
open DisastrOS.Process.Quotas
open DisastrOS.Process.Spawning
open DisastrOS.Process.Steps
open DisastrOS.Process.SystemRuns
open DisastrOS.Process.Transitions
open DisastrOS.Process.View
open DisastrOS.Semaphore.Calls
open DisastrOS.Resource.Calls
open DisastrOS.MessageQueue.Calls
open DisastrOS.MessageQueue.OpenAtomic
open DisastrOS.Library.GuardedRun
open DisastrOS.Library.Outcome

variable {k k' k₁ : Kernel} {L : HeadAddr → List Node} {t : Table} {r o : Nat} {args : List Int}

/-- The pools that opening an object of the table allocates from. -/
def PoolOf (t : Table) (kind : Kind) : Prop :=
  kind = (objects t).nodeKind ∨ kind = t.descriptorKind ∨ kind = t.pointerKind

/-- All lists, the counter of `r` and the free blocks are as before. -/
structure Untouched (t : Table) (k : Kernel) (r : Nat) (k' : Kernel) : Prop where
  lists : k'.lists = k.lists
  counter : (k'.pcb r).fdCounter t = (k.pcb r).fdCounter t
  free : ∀ kind, PoolOf t kind → (k'.pool kind).size = (k.pool kind).size

/-- The call has to allocate a new object. -/
def Creates : Table → Kernel → Nat → Prop
  | .resource, k, r => k.resourceListById .resourcesList (toInt (k.arg r 0)) = .ok none ∧
      hasFlag (toInt (k.arg r 2)) DSOS_CREATE = true
  | .semaphore, k, r => (k.pcb r).lastSemFd + 1 ≤ MAX_NUM_SEMDESCRIPTORS_PER_PROCESS ∧
      0 ≤ toInt (k.arg r 0) ∧
      k.semaphoreListById .semaphoresList (toInt (k.arg r 0)) = .ok none ∧
      hasFlag (toInt (k.arg r 1)) DSOS_CREATE = true ∧
      (k.head .semaphoresList).size + 1 ≤ MAX_NUM_SEMAPHORES
  | .mq, _, _ => False

/-- The semaphore `o` is there and may be opened. -/
def Finds (k : Kernel) (r o : Nat) : Prop :=
  (k.pcb r).lastSemFd + 1 ≤ MAX_NUM_SEMDESCRIPTORS_PER_PROCESS ∧ 0 ≤ toInt (k.arg r 0) ∧
    k.semaphoreListById .semaphoresList (toInt (k.arg r 0)) = .ok (some o) ∧
    ¬ (hasFlag (toInt (k.arg r 1)) DSOS_CREATE ∧ hasFlag (toInt (k.arg r 1)) DSOS_EXCL)

/-- The call completes and leaves no trace when it returns an error, or needs a new object and
there is no block for it. -/
def FailsAtomically (t : Table) (k : Kernel) (r : Nat) (args : List Int) : Prop :=
  (∀ k', k.act (.syscall (openCall t) args) = .ok k' → (k'.pcb r).syscallRetvalue < 0 →
    Untouched t k r k') ∧
  (Creates t (k.setCall r (openCall t) args) r → (k.pool (objects t).nodeKind).size = 0 →
    ∃ k', k.act (.syscall (openCall t) args) = .ok k' ∧ Untouched t k r k')

/-- The call needs a new object and gets none that it can test, or gets one and no descriptor
for it. -/
def RunsDry : Table → Kernel → Nat → Prop
  | .resource, k, r => Creates .resource k r ∧
      ((k.pool .resource).size = 0 ∨ (k.pool .descriptor).size = 0)
  | .semaphore, k, r => Creates .semaphore k r ∧
      (k.pool .semaphore).size ≠ 0 ∧ (k.pool .semDescriptor).size = 0
  | .mq, _, _ => False

/-- The call opens a semaphore and returns the negative number that `r` has counted down to. -/
def CountsBelowZero (k : Kernel) (r : Nat) : Prop :=
  (k.pcb r).lastSemFd < 0 ∧ (k.pool .semDescriptor).size ≠ 0 ∧
    ((∃ o, Finds k r o) ∨ (Creates .semaphore k r ∧ (k.pool .semaphore).size ≠ 0))

/-- What the call must not run into. -/
def GoesWrong (t : Table) (k : Kernel) (r : Nat) : Prop :=
  RunsDry t k r ∨ (t = .semaphore ∧ CountsBelowZero k r)

/-! ## Refusals -/

theorem untouched_setRetvalue (t : Table) (v : Int) : Untouched t k r (k.setRetvalue r v) :=
  ⟨rfl, counter_setRetvalue t r, fun _ _ => rfl⟩

theorem untouched_setCall {num : Int} :
    Untouched t (k.setCall r num args) r k' ↔ Untouched t k r k' :=
  ⟨fun h => ⟨h.lists, h.counter.trans (counter_setCall t r), h.free⟩,
    fun h => ⟨h.lists, h.counter.trans (counter_setCall t r).symm, h.free⟩⟩

/-- A descriptor that has been added shows in the counter, and its number is returned. -/
theorem counter_added {d ptr : Nat} {k₀ : Kernel} (h : Added Regular Retained k L t r o d ptr k')
    (hpcb : k.pcb = k₀.pcb) : ¬ Untouched t k₀ r k' ∧
      (k'.pcb r).syscallRetvalue = (k₀.pcb r).fdCounter t := by
  refine ⟨fun hu => ?_, by rw [h.pcb, Function.update_self, hpcb]⟩
  have hcounter := hu.counter
  rw [h.pcb, Function.update_self, fdCounter_retvalue, fdCounter_setFdCounter, hpcb] at hcounter
  omega

/-! ## `semOpen` -/

/-- What the handler does with the result of the search. -/
def semOpenFound (k : Kernel) (r : Nat) (found : Option Nat) : Kernel :=
  if (k.pcb r).lastSemFd + 1 > MAX_NUM_SEMDESCRIPTORS_PER_PROCESS ∨ toInt (k.arg r 0) < 0 then
    k.setRetvalue r DSOS_ESEMAPHOREOPEN
  else match found with
    | some sem =>
      if hasFlag (toInt (k.arg r 1)) DSOS_CREATE ∧ hasFlag (toInt (k.arg r 1)) DSOS_EXCL then
        k.setRetvalue r DSOS_ESEMAPHOREOPEN
      else k.openDescriptor .semaphore r sem DSOS_ESEMAPHOREOPEN
    | none =>
      if hasFlag (toInt (k.arg r 1)) DSOS_CREATE ∧
          (k.head .semaphoresList).size + 1 ≤ MAX_NUM_SEMAPHORES then
        match k.semaphoreAlloc (toInt (k.arg r 0)) (toInt (k.arg r 2 % 2 ^ 32)) with
        | none => k.setRetvalue r DSOS_ESEMAPHOREOPEN
        | some (sem, k₁) => (k₁.append .semaphoresList ⟨.semaphore, sem⟩).openDescriptor
            .semaphore r sem DSOS_ESEMAPHOREOPEN
      else k.setRetvalue r DSOS_ESEMAPHOREOPEN

theorem semOpen_eq {found : Option Nat} (hr : k.running = some r)
    (hfound : k.semaphoreListById .semaphoresList (toInt (k.arg r 0)) = .ok found) :
    internalSemOpen k = .ok (semOpenFound k r found) := by
  have hcount : ¬ k.arg r 2 % 2 ^ 32 < 0 := by omega
  unfold internalSemOpen semOpenFound
  rw [deref_eq_ok.mpr hr]
  simp only [bind, Except.bind, hfound]
  by_cases hfd : (k.pcb r).lastSemFd + 1 > MAX_NUM_SEMDESCRIPTORS_PER_PROCESS
  · rw [if_pos hfd, if_pos (.inl hfd)]
    rfl
  by_cases hid : toInt (k.arg r 0) < 0
  · rw [if_neg hfd, if_pos hid, if_pos (.inr hid)]
    rfl
  rw [if_neg hfd, if_neg hid, if_neg hcount, if_neg (not_or.mpr ⟨hfd, hid⟩)]
  cases found with
  | some sem =>
    simp only
    split <;> rfl
  | none =>
    simp only
    by_cases hflag : hasFlag (toInt (k.arg r 1)) DSOS_CREATE = true
    · by_cases hsize : (k.head .semaphoresList).size + 1 > MAX_NUM_SEMAPHORES
      · rw [if_pos hflag, if_pos hsize, if_neg fun h => absurd hsize (not_lt.mpr h.2)]
        rfl
      · rw [if_pos hflag, if_neg hsize, if_pos ⟨hflag, not_lt.mp hsize⟩]
        cases k.semaphoreAlloc (toInt (k.arg r 0)) (toInt (k.arg r 2 % 2 ^ 32)) <;> rfl
    · rw [if_neg hflag, if_neg fun h => hflag h.1]
      rfl

theorem semOpen_finds (hr : k.running = some r) (h : Finds k r o) :
    internalSemOpen k = .ok (k.openDescriptor .semaphore r o DSOS_ESEMAPHOREOPEN) := by
  obtain ⟨hfd, hid, hfound, hflags⟩ := h
  rw [semOpen_eq hr hfound]
  unfold semOpenFound
  rw [if_neg (by omega)]
  exact congrArg _ (if_neg hflags)

theorem semOpen_creates (hr : k.running = some r) (h : Creates .semaphore k r) :
    internalSemOpen k = .ok (match k.semaphoreAlloc (toInt (k.arg r 0))
        (toInt (k.arg r 2 % 2 ^ 32)) with
      | none => k.setRetvalue r DSOS_ESEMAPHOREOPEN
      | some (sem, k₁) => (k₁.append .semaphoresList ⟨.semaphore, sem⟩).openDescriptor
          .semaphore r sem DSOS_ESEMAPHOREOPEN) := by
  obtain ⟨hfd, hid, hfound, hflag, hsize⟩ := h
  rw [semOpen_eq hr hfound]
  unfold semOpenFound
  rw [if_neg (by omega)]
  exact congrArg _ (if_pos ⟨hflag, hsize⟩)

theorem semOpen_cases (hs : Strung Regular Retained k L) (hr : k.running = some r) :
    internalSemOpen k = .ok (k.setRetvalue r DSOS_ESEMAPHOREOPEN) ∨ (∃ o, Finds k r o) ∨
      Creates .semaphore k r := by
  have hreg : Regular HeadAddr.semaphoresList.nodeKind := (by decide : Regular .semaphore)
  obtain ⟨found, hfound⟩ : ∃ found,
      k.semaphoreListById .semaphoresList (toInt (k.arg r 0)) = .ok found :=
    ⟨_, hs.search_pure (l := .semaphoresList) hreg _⟩
  rw [semOpen_eq hr hfound]
  unfold semOpenFound
  split
  · exact .inl rfl
  next hquota =>
  obtain ⟨hfd, hid⟩ := not_or.mp hquota
  cases found with
  | some o =>
    simp only
    split
    · exact .inl rfl
    · next hflags => exact .inr (.inl ⟨o, not_lt.mp hfd, not_lt.mp hid, hfound, hflags⟩)
  | none =>
    simp only
    split
    · next h => exact .inr (.inr ⟨not_lt.mp hfd, not_lt.mp hid, hfound, h.1, h.2⟩)
    · exact .inl rfl

theorem semaphoreAlloc_full {id count : Int} (h : Pooled k) (hfull : (k.pool .semaphore).size = 0) :
    k.semaphoreAlloc id count = none := by
  unfold semaphoreAlloc
  rw [(newItem_eq_none h).mpr hfull]

theorem semaphoreAlloc_some {id count : Int} (h : Pooled k) (hsome : (k.pool .semaphore).size ≠ 0) :
    ∃ sem k₁, k.semaphoreAlloc id count = some (sem, k₁) := by
  obtain ⟨i, k₁, hnew⟩ := exists_newItem h hsome
  unfold semaphoreAlloc
  rw [hnew]
  exact ⟨_, _, rfl⟩

/-- A new semaphore takes a block, and no process knows of it yet. -/
theorem semaphoreAlloc_pools {id count : Int} {sem : Nat} (hs : Strung Regular Retained k L)
    (h : k.semaphoreAlloc id count = some (sem, k₁)) :
    (k₁.pool .semaphore).size = (k.pool .semaphore).size - 1 ∧ k₁.pcb = k.pcb ∧
      ∀ kind, kind ≠ .semaphore → k₁.pool kind = k.pool kind := by
  unfold semaphoreAlloc at h
  cases hnew : k.newItem .semaphore with
  | none =>
    rw [hnew] at h
    cases h
  | some new =>
    obtain ⟨i, k₂⟩ := new
    rw [hnew] at h
    cases h
    have hf := newItem_fresh hs.pooled hnew
    refine ⟨hf.size, ?_, fun kind hk => ?_⟩
    · show k₂.pcb = k.pcb
      rw [hf.eq]
    · show k₂.pool kind = k.pool kind
      exact fresh_pool hf hk

/-- The outcome of a creating call with a block for the semaphore. -/
theorem semOpen_new (hc : Coherent k L) (hr : k.running = some r) (h : Creates .semaphore k r)
    (hsome : (k.pool .semaphore).size ≠ 0) :
    ∃ k', internalSemOpen k = .ok k' ∧
      (((k'.pcb r).syscallRetvalue = DSOS_ESEMAPHOREOPEN ∧ (k.pool .semDescriptor).size = 0 ∧
          (k'.pool .semaphore).size = (k.pool .semaphore).size - 1) ∨
        (k.pool .semDescriptor).size ≠ 0 ∧ ∃ k₂ L₂ sem d ptr, k₂.pcb = k.pcb ∧
          Added Regular Retained k₂ L₂ .semaphore r sem d ptr k') := by
  obtain ⟨sem, k₁, halloc⟩ : ∃ sem k₁,
      k.semaphoreAlloc (toInt (k.arg r 0)) (toInt (k.arg r 2 % 2 ^ 32)) = some (sem, k₁) :=
    semaphoreAlloc_some hc.tidy.strung.pooled hsome
  obtain ⟨hsize, hpcb, hpool⟩ := semaphoreAlloc_pools hc.tidy.strung halloc
  obtain ⟨hcre, -, -⟩ := semaphoreAlloc_created hc.tidy halloc
  have hm : Moved k L (fun _ => True) _ _ :=
    moved_created (t := .semaphore) hc.tidy (by decide : Regular .semaphore) hcre trivial
  have hopen := semOpen_creates hr h
  rw [halloc] at hopen
  refine ⟨_, hopen, ?_⟩
  rcases openDescriptor_tied hm.woven.strung (hm.tied .semaphore) r sem DSOS_ESEMAPHOREOPEN with
    ⟨he, hfull⟩ | ⟨d, ptr, hadded⟩
  · have hfull : (k₁.pool .semDescriptor).size = 0 := hfull
    simp only [he]
    exact .inl ⟨setRetvalue_self _ _ _, by rw [← hpool _ (by decide)]; exact hfull, hsize⟩
  · refine .inr ⟨fun hzero => ?_, k₁.append .semaphoresList ⟨.semaphore, sem⟩, _, sem, d, ptr, hpcb,
      hadded⟩
    have hless := hadded.descriptorSize
    have hpos := size_nonneg hadded.strung.pooled Table.semaphore.descriptorKind
    have hsame : ((k₁.append .semaphoresList ⟨.semaphore, sem⟩).pool Table.semaphore.descriptorKind).size
      = (k.pool .semDescriptor).size := congrArg PoolAllocator.size (hpool .semDescriptor (by decide))
    omega

/-- What `FailsAtomically` says of the handler, with the registers filled in. -/
def HandlerFails (t : Table) (f : Kernel → Except Fault Kernel) (k : Kernel) (r : Nat) : Prop :=
  (∀ k', f k = .ok k' → (k'.pcb r).syscallRetvalue < 0 → Untouched t k r k') ∧
  (Creates t k r → (k.pool (objects t).nodeKind).size = 0 → ∃ k', f k = .ok k' ∧ Untouched t k r k')

theorem failsAtomically_handler {f : Kernel → Except Fault Kernel} (hc : Coherent k L)
    (hr : k.running = some r) (hv : syscallVector (openCall t) = some f) :
    FailsAtomically t k r args ↔ HandlerFails t f (k.setCall r (openCall t) args) r := by
  have h0 : 0 ≤ openCall t := by cases t <;> decide
  have hlt : openCall t < DSOS_MAX_SYSCALLS := by cases t <;> decide
  have hact : k.act (.syscall (openCall t) args) = f (k.setCall r (openCall t) args) :=
    syscall_direct hc hv h0 hlt (by cases t <;> decide) hr args
  unfold FailsAtomically HandlerFails
  simp only [hact, untouched_setCall]
  exact Iff.rfl

theorem semOpen_fails_iff (hc : Coherent k L) (hr : k.running = some r) :
    HandlerFails .semaphore internalSemOpen k r ↔ ¬ GoesWrong .semaphore k r := by
  have hs := hc.tidy.strung
  constructor
  · rintro ⟨hfails, -⟩ (⟨hcreates, hsome, hfull⟩ | ⟨-, hneg, hsome, ⟨o, hfinds⟩ | ⟨hcreates, hsem⟩⟩)
    · obtain ⟨k', hk', ⟨hret, _, hsize⟩ | ⟨hne, _⟩⟩ := semOpen_new hc hr hcreates hsome
      · have hu := hfails k' hk' (by rw [hret]; decide)
        have hsame : (k'.pool .semaphore).size = _ := hu.free .semaphore (.inl rfl)
        omega
      · exact hne hfull
    · rcases openDescriptor_tied hs (hc.tidy.tied .semaphore) r o DSOS_ESEMAPHOREOPEN with
        ⟨_, hfull⟩ | ⟨d, ptr, hadded⟩
      · exact hsome hfull
      · obtain ⟨hno, hret⟩ := counter_added hadded rfl
        exact hno (hfails _ (semOpen_finds hr hfinds) (hret.trans_lt hneg))
    · obtain ⟨k', hk', ⟨_, hfull, _⟩ | ⟨_, k₂, L₂, sem, d, ptr, hpcb, hadded⟩⟩ :=
        semOpen_new hc hr hcreates hsem
      · exact hsome hfull
      · obtain ⟨hno, hret⟩ := counter_added hadded hpcb
        exact hno (hfails k' hk' (hret.trans_lt hneg))
  · intro hright
    have hfull : Creates .semaphore k r → (k.pool .semaphore).size = 0 →
        internalSemOpen k = .ok (k.setRetvalue r DSOS_ESEMAPHOREOPEN) := by
      intro hcreates hsem
      rw [semOpen_creates hr hcreates, semaphoreAlloc_full hs.pooled hsem]
    refine ⟨fun k' hk' hneg => ?_, fun hcreates hsem => ?_⟩
    · rcases semOpen_cases hs hr with hrefused | ⟨o, hfinds⟩ | hcreates
      · cases hrefused.symm.trans hk'
        exact untouched_setRetvalue _ _
      · cases (semOpen_finds hr hfinds).symm.trans hk'
        rcases openDescriptor_tied hs (hc.tidy.tied .semaphore) r o DSOS_ESEMAPHOREOPEN with
          ⟨he, _⟩ | ⟨d, ptr, hadded⟩
        · rw [he]
          exact untouched_setRetvalue _ _
        · have hsize := hadded.descriptorSize
          have hpos := size_nonneg hadded.strung.pooled Table.semaphore.descriptorKind
          rw [(counter_added hadded rfl).2] at hneg
          refine absurd (.inr ⟨rfl, hneg, fun hzero => ?_, .inl ⟨o, hfinds⟩⟩) hright
          have hzero : (k.pool Table.semaphore.descriptorKind).size = 0 := hzero
          omega
      · by_cases hsem : (k.pool .semaphore).size = 0
        · cases (hfull hcreates hsem).symm.trans hk'
          exact untouched_setRetvalue _ _
        · obtain ⟨k₁, hk₁, hcases⟩ := semOpen_new hc hr hcreates hsem
          cases hk₁.symm.trans hk'
          rcases hcases with ⟨_, hzero, _⟩ | ⟨hsome, k₂, L₂, sem, d, ptr, hpcb, hadded⟩
          · exact absurd (.inl ⟨hcreates, hsem, hzero⟩) hright
          · rw [(counter_added hadded hpcb).2] at hneg
            exact absurd (.inr ⟨rfl, hneg, hsome, .inr ⟨hcreates, hsem⟩⟩) hright
    · exact ⟨_, hfull hcreates hsem, untouched_setRetvalue _ _⟩

/-! ## `openResource` -/

theorem openResource_existing (hr : k.running = some r)
    (hflag : hasFlag (toInt (k.arg r 2)) DSOS_CREATE = true)
    (hfound : k.resourceListById .resourcesList (toInt (k.arg r 0)) = .ok (some o)) :
    internalOpenResource k = .ok (k.setRetvalue r DSOS_ERESOURCECREATE) := by
  unfold internalOpenResource
  rw [deref_eq_ok.mpr hr]
  simp only [bind, Except.bind, hfound]
  rw [if_pos hflag]
  rfl

theorem openResource_creating (hr : k.running = some r) (h : Creates .resource k r) :
    internalOpenResource k = (deref (k.resourceAlloc (toInt (k.arg r 0)) (toInt (k.arg r 1)))).bind
      fun new => internalOpenResource.bind (new.2.append .resourcesList ⟨.resource, new.1⟩) r
        (some new.1) (toInt (k.arg r 1)) (toInt (k.arg r 2)) := by
  obtain ⟨hfound, hflag⟩ := h
  unfold internalOpenResource
  rw [deref_eq_ok.mpr hr]
  simp only [bind, Except.bind, hfound]
  rw [if_pos hflag]
  rfl

theorem openResource_opening {found : Option Nat} (hr : k.running = some r)
    (hflag : ¬ hasFlag (toInt (k.arg r 2)) DSOS_CREATE = true)
    (hfound : k.resourceListById .resourcesList (toInt (k.arg r 0)) = .ok found) :
    internalOpenResource k =
      internalOpenResource.bind k r found (toInt (k.arg r 1)) (toInt (k.arg r 2)) := by
  unfold internalOpenResource
  rw [deref_eq_ok.mpr hr]
  simp only [bind, Except.bind, hfound]
  rw [if_neg hflag]

/-- Without a block for the descriptor the end of the handler refuses. -/
theorem bind_full {type openMode : Int} (h : Pooled k) (hfull : (k.pool .descriptor).size = 0) :
    ∃ v < 0, internalOpenResource.bind k r (some o) type openMode = .ok (k.setRetvalue r v) := by
  have hno : ∀ fd object pcb, k.descriptorAlloc .resource fd object pcb = none := by
    intro fd object pcb
    have hnone : k.newItem Table.resource.descriptorKind = none := (newItem_eq_none h).mpr hfull
    unfold descriptorAlloc
    rw [hnone]
  unfold internalOpenResource.bind
  simp only [hno]
  split
  · exact ⟨_, by decide, rfl⟩
  · split
    · exact ⟨_, by decide, rfl⟩
    · exact ⟨_, by decide, rfl⟩

/-- A resource that has just been created has its block, and nobody uses it. -/
theorem resourceAlloc_new (hc : Coherent k L) {res : Nat} {id type : Int}
    (h : k.resourceAlloc id type = some (res, k₁)) :
    ∃ L₂, Strung Regular Retained (k₁.append .resourcesList ⟨.resource, res⟩) L₂ ∧
      (k₁.pool .resource).size = (k.pool .resource).size - 1 ∧
      k₁.pool .descriptor = k.pool .descriptor ∧ k₁.pcb = k.pcb ∧
      (k₁.resource res).type = type ∧
      ((k₁.append .resourcesList ⟨.resource, res⟩).head (.users .resource res)).size = 0 := by
  have hreg : Regular HeadAddr.resourcesList.nodeKind := (by decide : Regular .resource)
  obtain ⟨hcre, hfields, -⟩ := resourceAlloc_created hc.tidy h
  have hm : Moved k L (fun _ => True) _ _ := moved_created (t := .resource) hc.tidy hreg hcre trivial
  refine ⟨_, hm.woven.strung, ?_⟩
  unfold resourceAlloc at h
  cases hnew : k.newItem .resource with
  | none =>
    rw [hnew] at h
    cases h
  | some new =>
    obtain ⟨i, k₂⟩ := new
    rw [hnew] at h
    cases h
    have hf := newItem_fresh hc.tidy.strung.pooled hnew
    refine ⟨hf.size, ?_, ?_, ?_, ?_⟩
    · show k₂.pool .descriptor = k.pool .descriptor
      exact fresh_pool hf (by decide)
    · show k₂.pcb = k.pcb
      rw [hf.eq]
    · rw [hfields, Function.update_self]
    · show ((listInsert _ _ _ _).2.head _).size = 0
      rw [insert_head _ _ _ (by simp)]
      show (Function.update k₂.lists.head _ ⟨none, none, 0⟩ _).size = 0
      rw [Function.update_self]

theorem openResource_fails_iff (hc : Coherent k L) (hr : k.running = some r)
    (hcounter : 0 ≤ (k.pcb r).lastFd) :
    HandlerFails .resource internalOpenResource k r ↔ ¬ GoesWrong .resource k r := by
  have hs := hc.tidy.strung
  have hreg : Regular HeadAddr.resourcesList.nodeKind := (by decide : Regular .resource)
  have hnone : (k.pool .resource).size = 0 → ∀ id type, k.resourceAlloc id type = none := by
    intro hzero id type
    unfold resourceAlloc
    rw [(newItem_eq_none hs.pooled).mpr hzero]
  constructor
  · rintro ⟨hfails, hcompletes⟩ (⟨hcreates, hshort⟩ | ⟨ht, -⟩)
    · by_cases hzero : (k.pool .resource).size = 0
      · obtain ⟨k', hk', -⟩ := hcompletes hcreates hzero
        rw [openResource_creating hr hcreates, hnone hzero] at hk'
        cases hk'
      · have hfull := hshort.resolve_left hzero
        obtain ⟨i, k₀, hnew⟩ := exists_newItem hs.pooled hzero
        obtain ⟨res, k₁, halloc⟩ : ∃ res k₁,
            k.resourceAlloc (toInt (k.arg r 0)) (toInt (k.arg r 1)) = some (res, k₁) := by
          unfold resourceAlloc
          rw [hnew]
          exact ⟨_, _, rfl⟩
        obtain ⟨L₂, hs₂, hsize, hpool, -⟩ := resourceAlloc_new hc halloc
        obtain ⟨v, hv, hbind⟩ : ∃ v < 0, internalOpenResource.bind
            (k₁.append .resourcesList ⟨.resource, res⟩) r (some res) (toInt (k.arg r 1))
              (toInt (k.arg r 2)) = .ok ((k₁.append .resourcesList ⟨.resource, res⟩).setRetvalue r v) :=
          bind_full hs₂.pooled ((congrArg PoolAllocator.size hpool).trans hfull)
        have hk' := openResource_creating hr hcreates
        rw [halloc] at hk'
        have hu := hfails _ (hk'.trans hbind) (by rw [setRetvalue_self]; exact hv)
        have hsame : (k₁.pool .resource).size = _ := hu.free .resource (.inl rfl)
        omega
    · cases ht
  · intro hright
    have hright : ¬ RunsDry .resource k r := fun h => hright (.inl h)
    have hadded : ∀ {k₂ : Kernel} {L₂ : HeadAddr → List Node} {res d ptr : Nat} {k' : Kernel},
        k₂.pcb = k.pcb → Added Regular Retained k₂ L₂ .resource r res d ptr k' →
          ¬ (k'.pcb r).syscallRetvalue < 0 := by
      intro k₂ L₂ res d ptr k' hpcb h
      rw [(counter_added h hpcb).2]
      exact not_lt.mpr hcounter
    refine ⟨fun k' hk' hneg => ?_, fun hcreates hzero => absurd ⟨hcreates, .inl hzero⟩ hright⟩
    obtain ⟨found, hfound⟩ : ∃ found,
        k.resourceListById .resourcesList (toInt (k.arg r 0)) = .ok found :=
      ⟨_, hs.search_pure (l := .resourcesList) hreg _⟩
    by_cases hflag : hasFlag (toInt (k.arg r 2)) DSOS_CREATE = true
    · cases found with
      | some o =>
        cases (openResource_existing hr hflag hfound).symm.trans hk'
        exact untouched_setRetvalue _ _
      | none =>
        have hcreates : Creates .resource k r := ⟨hfound, hflag⟩
        have hk' := (openResource_creating hr hcreates).symm.trans hk'
        cases halloc : k.resourceAlloc (toInt (k.arg r 0)) (toInt (k.arg r 1)) with
        | none =>
          rw [halloc] at hk'
          cases hk'
        | some new =>
          obtain ⟨res, k₁⟩ := new
          rw [halloc] at hk'
          have hk' : internalOpenResource.bind (k₁.append .resourcesList ⟨.resource, res⟩) r
              (some res) (toInt (k.arg r 1)) (toInt (k.arg r 2)) = .ok k' := hk'
          obtain ⟨L₂, hs₂, _, hpool, hpcb, htype, husers⟩ := resourceAlloc_new hc halloc
          rcases bind_ok hs₂ hk' with ⟨v, _, rfl, hreason⟩ | ⟨_, d, ptr, _, ha⟩
          · have hfull := hreason res rfl htype fun h => h.2 husers
            exact absurd ⟨hcreates, .inr ((congrArg PoolAllocator.size hpool).symm.trans hfull)⟩ hright
          · have hpcb₂ : (k₁.append .resourcesList ⟨.resource, res⟩).pcb = k.pcb := hpcb
            exact absurd hneg (hadded hpcb₂ ha)
    · have hk' := (openResource_opening hr hflag hfound).symm.trans hk'
      rcases bind_ok hs hk' with ⟨v, _, rfl, _⟩ | ⟨_, d, ptr, _, ha⟩
      · exact untouched_setRetvalue _ _
      · exact absurd hneg (hadded rfl ha)

/-- With a block for the descriptor a shared resource is opened, as long as the counter is in
range. -/
theorem bind_total {type : Int} (hs : Strung Regular Retained k L) (htied : Tied .resource k L)
    (htype : (k.resource o).type = type) (hsome : (k.pool .descriptor).size ≠ 0)
    (h0 : 0 ≤ (k.pcb r).lastFd) (hlast : (k.pcb r).lastFd + 1 < 2 ^ 31) :
    ∃ d ptr k', internalOpenResource.bind k r (some o) type 0 = .ok k' ∧
      Added Regular Retained k L .resource r o d ptr k' := by
  have hok : ∃ k', internalOpenResource.bind k r (some o) type 0 = .ok k' := by
    obtain ⟨d, k₁, hnew⟩ : ∃ d k₁, k.newItem Table.resource.descriptorKind = some (d, k₁) :=
      exists_newItem hs.pooled hsome
    have hf := newItem_fresh hs.pooled hnew
    have hlevel := htied.level
    have hsize : (k₁.pool .descriptorPtr).size ≠ 0 := by
      rw [fresh_pool hf (by decide)]
      exact fun hz => hsome (hlevel.trans hz)
    have hpcb : k₁.pcb = k.pcb := by rw [hf.eq]
    have hadd : ∀ des, addInt ((k₁.setDescriptor .resource d des).pcb r).lastFd 1 =
        .ok ((k.pcb r).lastFd + 1) := by
      intro des
      show addInt (k₁.pcb r).lastFd 1 = _
      rw [hpcb]
      exact addInt_eq_ok.mpr ⟨⟨by omega, hlast⟩, rfl⟩
    obtain ⟨ptr, k₂, hnew₂⟩ : ∃ ptr k₂, (k₁.setDescriptor .resource d
        { pcb := some r, object := some o, fd := (k.pcb r).lastFd,
          ptr := (k₁.descriptor .resource d).ptr }).newItem Table.resource.pointerKind =
        some (ptr, k₂) := exists_newItem (pooled_congr rfl hf.pooled) hsize
    unfold internalOpenResource.bind descriptorAlloc descriptorPtrAlloc
    simp only
    rw [if_neg (by simp [htype]), if_neg (by simp [hasFlag])]
    rw [hnew]
    simp only [bind, Except.bind]
    rw [hadd]
    simp only
    rw [newItem_modPcb, hnew₂]
    simp [setDescriptor, deref]
    exact ⟨_, rfl⟩
  obtain ⟨k', hk'⟩ := hok
  rcases bind_ok hs hk' with ⟨_, _, _, hreason⟩ | ⟨_, d, ptr, he, ha⟩
  · exact absurd (hreason o rfl htype fun h => by simp [hasFlag] at h) hsome
  · cases he
    exact ⟨d, ptr, k', hk', ha⟩

/-! ## The calls -/

theorem counted_fdStep {s s' : FdTable} (h : 0 ≤ s.next) (hstep : FdStep .resource True s s') :
    0 ≤ s'.next := by
  cases hstep with
  | kept => exact h
  | opened => exact Int.le_add_one h
  | closed => exact h

/-- A process never counts its resources down. -/
theorem reachable_lastFd {mem : Int → UInt8} {k₀ : Kernel} {as : List Action} (hs : Started mem k₀)
    (h : Run act (fun _ a => Ordinary a) k₀ as k) :
    ∃ L, Coherent k L ∧ ∀ p, Allocated k .pcb p → 0 ≤ (k.pcb p).lastFd :=
  run_fdTable (t := .resource) (I := fun s => 0 ≤ s.next) (by decide) le_rfl
    (fun _ _ => counted_fdStep) hs h

/-- In every reachable state a failed `semOpen` or `openResource` has left no trace, exactly when
it does not run out of blocks after it has created the object, and has not returned a negative
number for a descriptor that it has opened. -/
theorem opens_fail_atomically_iff {mem : Int → UInt8} {k₀ : Kernel} {as : List Action}
    (hs : Started mem k₀) (h : Run act (fun _ a => Ordinary a) k₀ as k) (ht : t ≠ .mq)
    (hr : k.running = some r) (args : List Int) :
    FailsAtomically t k r args ↔ ¬ GoesWrong t (k.setCall r (openCall t) args) r := by
  obtain ⟨L, hc, hfds⟩ := reachable_lastFd hs h
  have hc₁ : Coherent (k.setCall r (openCall t) args) L := coherent_setCall hc hr
  have hr₁ : (k.setCall r (openCall t) args).running = some r := hr
  cases t with
  | resource =>
    rw [failsAtomically_handler hc hr rfl]
    refine openResource_fails_iff hc₁ hr₁ ?_
    show 0 ≤ ((k.setCall r _ args).pcb r).fdCounter .resource
    rw [counter_setCall]
    exact hfds r (hc.sound.placed.live_of_running hr)
  | semaphore =>
    rw [failsAtomically_handler hc hr rfl]
    exact semOpen_fails_iff hc₁ hr₁
  | mq => exact absurd rfl ht

instance : Decidable (RunsDry .resource k r) :=
  inferInstanceAs (Decidable ((_ ∧ _) ∧ (_ ∨ _)))

/-- The first process asks for a resource that is not there. -/
theorem opens_fail_atomically_missing :
    ∃ k₀ k, Started (fun _ => 0) k₀ ∧ Run act (fun _ a => Ordinary a) k₀ [] k ∧
      k.running = some 0 ∧ FailsAtomically .resource k 0 [7, 0, 0] := by
  obtain ⟨k₀, k, hs, h, htest⟩ := exists_run_from_start (fun _ a => Ordinary a)
    (fun _ a => decide (Ordinary a)) []
    (fun k => k.running = some 0 ∧
      ¬ RunsDry .resource (k.setCall 0 DSOS_CALL_OPEN_RESOURCE [7, 0, 0]) 0)
    (fun _ _ h => of_decide_eq_true h) (by decide +kernel)
  obtain ⟨hr, hdry⟩ := of_decide_eq_true htest
  have hright : ¬ GoesWrong .resource (k.setCall 0 DSOS_CALL_OPEN_RESOURCE [7, 0, 0]) 0 := by
    rintro (h | ⟨h, -⟩)
    · exact hdry h
    · cases h
  exact ⟨k₀, k, hs, h, hr, (opens_fail_atomically_iff hs h (by decide) hr [7, 0, 0]).mpr hright⟩

/-! ## All descriptors of one process -/

/-- The first process has opened the resource 7 `n` times. -/
structure Filled (n : Nat) (k : Kernel) : Prop where
  running : k.running = some 0
  counter : (k.pcb 0).lastFd = n
  free : (k.pool .descriptor).size = 1024 - n
  found : k.resourceListById .resourcesList 7 = .ok (some 0)
  type : (k.resource 0).type = 0
  missing : k.resourceListById .resourcesList 8 = .ok none

theorem resourceListById_setCall {num id : Int} :
    (k.setCall r num args).resourceListById .resourcesList id =
      k.resourceListById .resourcesList id :=
  search_frame rfl (fun _ _ => rfl) fun _ => rfl

theorem arg_openResource {i : Nat} (hi : i < 3) :
    (k.setCall r DSOS_CALL_OPEN_RESOURCE args).arg r i = args.getD i 0 :=
  arg_setCall hi

theorem filled_step {n : Nat} (hc : Coherent k L) (h : Filled n k) (hn : n < 1024) :
    ∃ k', k.act (.syscall DSOS_CALL_OPEN_RESOURCE [7, 0, 0]) = .ok k' ∧ Filled (n + 1) k' := by
  have hc₁ : Coherent (k.setCall 0 DSOS_CALL_OPEN_RESOURCE [7, 0, 0]) L :=
    coherent_setCall hc h.running
  have hs := hc₁.tidy.strung
  have hcounter := h.counter
  have hfree := h.free
  have hcounter₁ : ((k.setCall 0 DSOS_CALL_OPEN_RESOURCE [7, 0, 0]).pcb 0).lastFd = n :=
    (counter_setCall .resource 0).trans hcounter
  have hsome : ((k.setCall 0 DSOS_CALL_OPEN_RESOURCE [7, 0, 0]).pool .descriptor).size ≠ 0 := by
    show (k.pool .descriptor).size ≠ 0
    omega
  obtain ⟨d, ptr, k', hbind, ha⟩ := bind_total (r := 0) hs (hc₁.tidy.tied .resource) h.type hsome
    (by omega) (by omega)
  have hopening : internalOpenResource (k.setCall 0 DSOS_CALL_OPEN_RESOURCE [7, 0, 0]) =
      internalOpenResource.bind (k.setCall 0 DSOS_CALL_OPEN_RESOURCE [7, 0, 0]) 0 (some 0) 0 0 := by
    have hfound : (k.setCall 0 DSOS_CALL_OPEN_RESOURCE [7, 0, 0]).resourceListById .resourcesList
        (toInt ((k.setCall 0 DSOS_CALL_OPEN_RESOURCE [7, 0, 0]).arg 0 0)) = .ok (some 0) := by
      rw [arg_openResource (by decide), resourceListById_setCall]
      exact h.found
    have hflag : ¬ hasFlag (toInt ((k.setCall 0 DSOS_CALL_OPEN_RESOURCE [7, 0, 0]).arg 0 2))
        DSOS_CREATE = true := by
      rw [arg_openResource (by decide)]
      decide
    exact openResource_opening h.running hflag hfound
  have hact : k.act (.syscall DSOS_CALL_OPEN_RESOURCE [7, 0, 0]) = .ok k' :=
    ((syscall_direct hc rfl (by decide) (by decide) (by decide) h.running _).trans hopening).trans
      hbind
  have hsearch : ∀ id, k'.resourceListById .resourcesList id =
      k.resourceListById .resourcesList id := by
    intro id
    have hreg : Regular HeadAddr.resourcesList.nodeKind := (by decide : Regular .resource)
    unfold resourceListById
    rw [ha.strung.search_pure (l := .resourcesList) hreg, hc.tidy.strung.search_pure hreg]
    unfold withOpened
    rw [Function.update_of_ne (by simp), Function.update_of_ne (by simp), ha.rest]
    rfl
  have hless : (k'.pool .descriptor).size = (k.pool .descriptor).size - 1 := ha.descriptorSize
  refine ⟨k', hact, ?_, ?_, ?_, (hsearch 7).trans h.found, ?_, (hsearch 8).trans h.missing⟩
  · rw [ha.rest]
    exact h.running
  · have hnext : (k'.pcb 0).fdCounter .resource = n + 1 := by
      rw [ha.pcb, Function.update_self, fdCounter_retvalue, fdCounter_setFdCounter]
      exact congrArg (· + 1) hcounter₁
    exact hnext
  · push_cast
    omega
  · rw [ha.rest]
    exact h.type

theorem exists_filled (n : Nat) (hn : n < 1024) :
    ∃ k₀ k, Started (fun _ => 0) k₀ ∧
      Run act (fun _ a => Ordinary a) k₀ (.syscall DSOS_CALL_OPEN_RESOURCE [7, 0, 1] ::
        List.replicate n (.syscall DSOS_CALL_OPEN_RESOURCE [7, 0, 0])) k ∧ Filled (n + 1) k := by
  induction n with
  | zero =>
    obtain ⟨k₀, k, hs, h, htest⟩ := exists_run_from_start (fun _ a => Ordinary a)
      (fun _ a => decide (Ordinary a)) [.syscall DSOS_CALL_OPEN_RESOURCE [7, 0, 1]]
      (fun k => k.running = some 0 ∧ (k.pcb 0).lastFd = 1 ∧ (k.pool .descriptor).size = 1023 ∧
        k.resourceListById .resourcesList 7 = .ok (some 0) ∧ (k.resource 0).type = 0 ∧
        k.resourceListById .resourcesList 8 = .ok none)
      (fun _ _ h => of_decide_eq_true h) (by decide +kernel)
    obtain ⟨hr, hcounter, hfree, hfound, htype, hmissing⟩ := of_decide_eq_true htest
    exact ⟨k₀, k, hs, h, hr, hcounter, hfree, hfound, htype, hmissing⟩
  | succ n ih =>
    obtain ⟨k₀, k, hs, hrun, h⟩ := ih (by omega)
    obtain ⟨L, hc⟩ := coherent_run hs hrun
    obtain ⟨k', hact, h'⟩ := filled_step hc h (by omega)
    refine ⟨k₀, k', hs, ?_, h'⟩
    rw [List.replicate_succ', ← List.cons_append]
    have hordinary : Ordinary (.syscall DSOS_CALL_OPEN_RESOURCE [7, 0, 0]) := trivial
    exact .snoc hrun hordinary hact

/-- After 1024 descriptors the next resource is created without one. -/
theorem resource_left_behind :
    ∃ k₀ k, Started (fun _ => 0) k₀ ∧
      Run act (fun _ a => Ordinary a) k₀ (.syscall DSOS_CALL_OPEN_RESOURCE [7, 0, 1] ::
        List.replicate 1023 (.syscall DSOS_CALL_OPEN_RESOURCE [7, 0, 0])) k ∧
      k.running = some 0 ∧ ¬ FailsAtomically .resource k 0 [8, 0, 1] := by
  obtain ⟨k₀, k, hs, hrun, h⟩ := exists_filled 1023 (by decide)
  obtain ⟨L, hc, hfds⟩ := reachable_lastFd hs hrun
  refine ⟨k₀, k, hs, hrun, h.running, fun hw => ?_⟩
  have hc₁ : Coherent (k.setCall 0 DSOS_CALL_OPEN_RESOURCE [8, 0, 1]) L :=
    coherent_setCall hc h.running
  have hcounter : 0 ≤ ((k.setCall 0 DSOS_CALL_OPEN_RESOURCE [8, 0, 1]).pcb 0).lastFd := by
    have hsame : ((k.setCall 0 DSOS_CALL_OPEN_RESOURCE [8, 0, 1]).pcb 0).lastFd = (k.pcb 0).lastFd :=
      counter_setCall .resource 0
    rw [hsame, h.counter]
    exact Int.natCast_nonneg _
  have hright := (openResource_fails_iff hc₁ h.running hcounter).mp
    ((failsAtomically_handler hc h.running rfl).mp hw)
  refine hright (.inl ⟨⟨?_, ?_⟩, .inr h.free⟩)
  · rw [arg_openResource (by decide), resourceListById_setCall]
    exact h.missing
  · rw [arg_openResource (by decide)]
    decide

end DisastrOS.Process.OpenFailures
