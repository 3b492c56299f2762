import DisastrOS.Lists.Wiring

/-!
# The state after the kernel start

All lists are empty, the first process has been allocated and is running.
-/
namespace DisastrOS.Lists.Boot

open DisastrOS.Machine
open DisastrOS.Machine.Kernel
open DisastrOS.Lists.Sequences
open DisastrOS.Lists.Wiring
open DisastrOS.Pool.Blocks
open DisastrOS.Pool.BlockContract
open DisastrOS.Library.LinkedSequence
open DisastrOS.Library.Outcome

/-- The state in which `disastrOS_start` lets the first process run. -/
structure Booted (mem : Int → UInt8) (k : Kernel) : Prop where
  wired : Wired Everything k (fun _ => [])
  allocated : ∀ kind i, Allocated k kind i ↔ kind = .pcb ∧ i = 0
  size : ∀ kind, kind ≠ .pcb → (k.pool kind).size = numItems kind
  rest : k = { Kernel.zeroed mem with
    pool := k.pool
    pcb := Function.update (fun _ => {}) 0
      { status := .Running, cpuState := true, signalsMask := 0xFFFFFFFF }
    running := some 0
    initPcb := some 0
    lastPid := 1 }

/-- The pools of the kinds in `ks` have been initialised. -/
structure PoolsReady (ks : List Kind) (k₀ k : Kernel) : Prop where
  rest : k = { k₀ with pool := k.pool }
  indexed : ∀ kind ∈ ks, Indexed (k.pool kind) (numItems kind)
  unused : ∀ kind ∈ ks, ∀ i : Nat, ¬ Allocated k kind i
  size : ∀ kind ∈ ks, (k.pool kind).size = numItems kind
  first : ∀ kind ∈ ks, (k.pool kind).firstIdx = 0

theorem initPool_ready {ks : List Kind} {k₀ k : Kernel} (kind : Kind)
    (h : PoolsReady ks k₀ k) : ∃ k', initPool kind k = .ok k' ∧ PoolsReady (kind :: ks) k₀ k' := by
  have hn : 1 ≤ numItems kind := by cases kind <;> decide
  have hfit : numItems kind * (1 + SIZEOF_INT) ≤ bufferItems kind * (1 + SIZEOF_INT) := by
    cases kind <;> decide
  have hint : bufferItems kind * (1 + SIZEOF_INT) < 2 ^ 31 := by cases kind <;> decide
  obtain ⟨a, hinit, hbuf, hitem, hmax, hfree⟩ :=
    init_freeList (k.pool kind) 1 (numItems kind) 0 _ (by decide) hn hfit hint
  have hsize : a.size = numItems kind := by
    rw [hfree.size, length_ascending]
    omega
  have hfirst : a.firstIdx = 0 := by
    have hc := hfree.chain
    cases hm : (numItems kind).toNat with
    | zero => omega
    | succ m =>
      rw [hm] at hc
      exact hc.1
  have hunused : ∀ i : Nat, ¬ HandedOut a i := by
    intro i hi
    rw [handedOut_iff hfree, hmax, mem_ascending] at hi
    omega
  refine ⟨{ k with pool := Function.update k.pool kind a }, ?_, ?_, ?_, ?_, ?_, ?_⟩
  · unfold initPool
    rw [hinit]
  · rw [h.rest]
  all_goals
    intro kind' hk'
    by_cases he : kind' = kind
    · subst he
      simp only [Allocated, Function.update_self]
      first
        | exact ⟨⟨_, hfree⟩, hbuf, hitem, hmax⟩
        | exact hunused
        | exact hsize
        | exact hfirst
    · have hks := (List.mem_cons.mp hk').resolve_left he
      simp only [Allocated, Function.update_of_ne he]
      first
        | exact h.indexed kind' hks
        | exact h.unused kind' hks
        | exact h.size kind' hks
        | exact h.first kind' hks

theorem ready_of_initPool {ks : List Kind} {k₀ k k' : Kernel} {kind : Kind}
    (h : PoolsReady ks k₀ k) (hinit : initPool kind k = .ok k') :
    PoolsReady (kind :: ks) k₀ k' := by
  obtain ⟨k₁, hk₁, hr⟩ := initPool_ready kind h
  rw [hinit, Except.ok.injEq] at hk₁
  rwa [hk₁]

/-- Initialising an empty head changes nothing. -/
theorem initList_eq_self {k : Kernel} {l : HeadAddr} (h : k.lists.head l = ⟨none, none, 0⟩) :
    k.initList l = k := by
  unfold initList listInit ListMem.setHead
  rw [← h, Function.update_eq_self]

/-- With no links and empty heads everywhere, all lists are wired and empty. -/
theorem wired_zeroed {k : Kernel} (hpool : Pooled k)
    (hitem : k.lists.item = fun _ => ⟨none, none⟩)
    (hhead : k.lists.head = fun _ => ⟨none, none, 0⟩) : Wired Everything k fun _ => [] := by
  refine ⟨⟨fun l _ => ?_, fun _ _ => List.nodup_nil, ?_⟩, ?_, ?_, ?_, hpool⟩
  · unfold Holds
    rw [hhead]
    exact represents_nil _
  · intro l l' x _ _ hx
    cases hx
  · intro l x _ hx
    cases hx
  · intro l x _ hx
    cases hx
  · intro x _ _ _
    unfold Unlinked
    rw [hitem]

/-- The state in front of `getcontext(&main_context)`: only the pools have changed. -/
structure Initialised (mem : Int → UInt8) (k : Kernel) : Prop where
  rest : k = { Kernel.zeroed mem with pool := k.pool }
  indexed : ∀ kind, Indexed (k.pool kind) (numItems kind)
  unused : ∀ kind (i : Nat), ¬ Allocated k kind i
  size : ∀ kind, (k.pool kind).size = numItems kind
  first : ∀ kind, (k.pool kind).firstIdx = 0

theorem initSystem_ok {mem : Int → UInt8} {k : Kernel}
    (h : initSystem (Kernel.zeroed mem) = .ok k) : Initialised mem k := by
  have r₀ : PoolsReady [] (Kernel.zeroed mem) (Kernel.zeroed mem) :=
    ⟨rfl, by simp, by simp, by simp, by simp⟩
  unfold initSystem at h
  obtain ⟨k₁, h₁, h⟩ := bind_eq_ok.mp h
  obtain ⟨k₂, h₂, h⟩ := bind_eq_ok.mp h
  obtain ⟨k₃, h₃, h⟩ := bind_eq_ok.mp h
  obtain ⟨k₄, h₄, h⟩ := bind_eq_ok.mp h
  obtain ⟨k₅, h₅, h⟩ := bind_eq_ok.mp h
  obtain ⟨k₆, h₆, h⟩ := bind_eq_ok.mp h
  obtain ⟨k₇, h₇, h⟩ := bind_eq_ok.mp h
  obtain ⟨k₈, h₈, h⟩ := bind_eq_ok.mp h
  obtain ⟨k₉, h₉, h⟩ := bind_eq_ok.mp h
  obtain ⟨k₁₀, h₁₀, h⟩ := bind_eq_ok.mp h
  obtain ⟨k₁₁, h₁₁, h⟩ := bind_eq_ok.mp h
  obtain ⟨k₁₂, h₁₂, h⟩ := bind_eq_ok.mp h
  obtain ⟨k₁₃, h₁₃, h⟩ := bind_eq_ok.mp h
  obtain ⟨k₁₄, h₁₄, h⟩ := bind_eq_ok.mp h
  have r := ready_of_initPool (ready_of_initPool (ready_of_initPool (ready_of_initPool
    (ready_of_initPool (ready_of_initPool (ready_of_initPool (ready_of_initPool
    (ready_of_initPool (ready_of_initPool (ready_of_initPool (ready_of_initPool
    (ready_of_initPool (ready_of_initPool r₀ h₁) h₂) h₃) h₄) h₅) h₆) h₇) h₈) h₉) h₁₀) h₁₁)
    h₁₂) h₁₃) h₁₄
  have hall : ∀ kind : Kind, kind ∈ [Kind.message, .queue, .mqDescriptorPtr, .mqDescriptor,
      .messageQueue, .semDescriptorPtr, .semDescriptor, .semaphore, .descriptorPtr, .descriptor,
      .resource, .timerItem, .pcbPtr, .pcb] := by
    intro kind
    cases kind <;> decide
  clear h₁ h₂ h₃ h₄ h₅ h₆ h₇ h₈ h₉ h₁₀ h₁₁ h₁₂ h₁₃ h₁₄
  generalize hk₀ : ({ k₁₄ with initPcb := none, running := none } : Kernel) = k₀ at h
  have heq : k₀ = { Kernel.zeroed mem with pool := k₁₄.pool } := by
    rw [← hk₀, r.rest]
    rfl
  have hz : ∀ l, k₀.initList l = k₀ := fun l => initList_eq_self (by rw [heq]; rfl)
  simp only [hz, pure, Except.pure, Except.ok.injEq] at h
  subst h
  have hpool : k₀.pool = k₁₄.pool := by rw [heq]
  refine ⟨hpool ▸ heq, fun kind => ?_, fun kind i => ?_, fun kind => ?_, fun kind => ?_⟩
  · rw [hpool]
    exact r.indexed kind (hall kind)
  · rw [allocated_congr hpool]
    exact r.unused kind (hall kind) i
  · rw [hpool]
    exact r.size kind (hall kind)
  · rw [hpool]
    exact r.first kind (hall kind)

/-- The first block of a pool is handed out first. -/
theorem Initialised.newItem {mem : Int → UInt8} {k k' : Kernel} {kind : Kind} {i : Nat}
    (h : Initialised mem k) (hnew : k.newItem kind = some (i, k')) :
    i = 0 ∧ k' = { Kernel.zeroed mem with pool := k'.pool } := by
  have hf := newItem_fresh h.indexed hnew
  refine ⟨?_, ?_⟩
  · unfold Kernel.newItem at hnew
    split at hnew
    · cases hnew
    · next hb =>
      cases hnew
      obtain ⟨x, hx, rfl, _⟩ := getBlock_eq_some hb
      have hind := h.indexed kind
      rw [PoolAllocator.getBlock, h.first kind, hind.buffer, hind.itemSize] at hx
      cases hx
      rfl
  · have hclear : Function.update (Kernel.zeroed mem).lists.item ⟨kind, i⟩ ⟨none, none⟩ =
        (Kernel.zeroed mem).lists.item :=
      Function.update_eq_self (f := (Kernel.zeroed mem).lists.item) _
    obtain ⟨pool, hpool⟩ : ∃ pool, k' = { Kernel.zeroed mem with
        lists := { (Kernel.zeroed mem).lists with
          item := Function.update (Kernel.zeroed mem).lists.item ⟨kind, i⟩ ⟨none, none⟩ }
        pool := pool } := ⟨_, by rw [hf.eq, h.rest]⟩
    rw [hclear] at hpool
    rw [hpool]

theorem startFirstProcess_booted {mem : Int → UInt8} {k k' : Kernel} (hi : Initialised mem k)
    (h : k.startFirstProcess = .ok k') : Booted mem k' := by
  unfold startFirstProcess at h
  obtain ⟨⟨p, k₂⟩, halloc, h⟩ := bind_eq_ok.mp h
  simp only [pure, Except.pure, Except.ok.injEq] at h
  unfold pcbAlloc at halloc
  obtain ⟨⟨p', k₁⟩, hnew, halloc⟩ := bind_eq_ok.mp halloc
  have hnew := deref_eq_ok.mp hnew
  have hf := newItem_fresh hi.indexed hnew
  obtain ⟨rfl, hrest⟩ := hi.newItem hnew
  obtain ⟨next, hnext, halloc⟩ := bind_eq_ok.mp halloc
  have hlast : next = 1 := by
    rw [hrest] at hnext
    cases hnext
    rfl
  subst hlast
  simp only [pure, Except.pure, Except.ok.injEq, Prod.mk.injEq] at halloc
  obtain ⟨rfl, rfl⟩ := halloc
  have hz : ∀ f l, (k₁.modPcb 0 f).initList l = k₁.modPcb 0 f := fun f l =>
    initList_eq_self (by rw [hrest]; rfl)
  simp only [hz] at h
  have hpool : k'.pool = k₁.pool := by rw [← h]; rfl
  have hstate : k' = { Kernel.zeroed mem with
      pool := k'.pool
      pcb := Function.update (fun _ => {}) 0
        { status := .Running, cpuState := true, signalsMask := 0xFFFFFFFF }
      running := some 0
      initPcb := some 0
      lastPid := 1 } := by
    rw [← h, hrest]
    simp [modPcb, zeroed, Function.update_idem]
  refine ⟨wired_zeroed (pooled_congr hpool hf.pooled) ?_ ?_, fun kind i => ?_,
    fun kind hne => ?_, hstate⟩
  · rw [hstate]
    rfl
  · rw [hstate]
    rfl
  · rw [allocated_congr hpool, hf.allocated]
    simp [hi.unused kind i]
  · rw [hpool, hf.eq]
    change (Function.update k.pool .pcb _ kind).size = _
    rw [Function.update_of_ne hne]
    exact hi.size kind

theorem start_booted {mem : Int → UInt8} {k : Kernel}
    (h : disastrOSStart (Kernel.zeroed mem) = .ok k) : Booted mem k := by
  unfold disastrOSStart at h
  obtain ⟨k₀, hinit, h⟩ := bind_eq_ok.mp h
  exact startFirstProcess_booted (initSystem_ok hinit) h

end DisastrOS.Lists.Boot
