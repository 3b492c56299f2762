import Mathlib.Algebra.BigOperators.Ring.Finset
import DisastrOS.Process.Kinship
import DisastrOS.Process.TableCalls

/-!
# The links to children

Each process but init is linked to its parent by one block. `internal_exit` detaches the
link of a process whose parent waits for it and does not free it. In runs without such an
exit every link in use is a node of a list of children, so the blocks suffice.
-/
namespace DisastrOS.Process.ChildLinks

open DisastrOS.Machine
open DisastrOS.Machine.Kernel
open DisastrOS.Machine.Runs
open DisastrOS.Lists.Wiring
open DisastrOS.Lists.RegularLists
open DisastrOS.Lists.Boot
open DisastrOS.Pool.Blocks
open DisastrOS.Process.Table
open DisastrOS.Process.Steps
open DisastrOS.Process.View
open DisastrOS.Process.Coherence
open DisastrOS.Process.Creation
open DisastrOS.Process.Waiting
open DisastrOS.Process.Exit
open DisastrOS.Process.Transitions
open DisastrOS.Process.SystemRuns
open DisastrOS.Process.Kinship
open DisastrOS.Process.TableCalls
open DisastrOS.Library.GuardedRun

variable {k k' : Kernel} {L L' : HeadAddr → List Node} {r i parent : Nat}
  {num : Int} {args : List Int} {a : Action}

/-! ## Exits that are awaited -/

/-- The parent of the running process waits for it in `wait`. -/
def AwaitedByParent (k : Kernel) : Prop :=
  ∃ r ∈ k.running, ∃ parent ∈ (k.pcb r).parent, Awaits k parent r

instance (k : Kernel) : Decidable (AwaitedByParent k) :=
  inferInstanceAs (Decidable (∃ r ∈ k.running, ∃ parent ∈ (k.pcb r).parent, Awaits k parent r))

/-- The running process exits while its parent waits for it. -/
def ExitsAwaited (k : Kernel) : Action → Prop
  | .syscall num _ => num = DSOS_CALL_EXIT ∧ AwaitedByParent k
  | _ => False

instance (k : Kernel) : DecidablePred (ExitsAwaited k)
  | .syscall _ _ => inferInstanceAs (Decidable (_ ∧ AwaitedByParent k))
  | .timer => isFalse id
  | .restart => isFalse id
  | .store _ _ => isFalse id
  | .dispatch _ => isFalse id

/-- What the guard says of the call, with the registers filled in. -/
theorem awaited_of_waitsFor (hc : Coherent k L) (hr : k.running = some r)
    (hparent : (k.pcb r).parent = some parent)
    (hw : WaitsFor (((view (k.setCall r num args) L).adopt r i).die r parent) parent r) :
    AwaitedByParent k := by
  rw [waitsFor_died (coherent_setCall hc hr).sound hr] at hw
  have hnw : (view (k.setCall r num args) L).info r = View.control ((k.pcb r).called num args) := by
    show View.control (Function.update k.pcb r _ r) = _
    rw [Function.update_self]
    rfl
  have hpr : parent ≠ r := by
    rintro rfl
    have hs : Sound (view (k.setCall parent num args) L) := (coherent_setCall hc hr).sound
    exact (hs.placed.not_mem_of_running hr).2.1 (hs.marked.waits parent hw.1)
  obtain ⟨hst, hnum, harg⟩ := hw
  have hinfo : (view (k.setCall r num args) L).info parent = View.control (k.pcb parent) := by
    show View.control (Function.update k.pcb r _ parent) = _
    rw [Function.update_of_ne hpr]
  rw [hinfo] at hst hnum harg
  rw [hnw] at harg
  exact ⟨r, hr, parent, hparent, hst, hnum, harg⟩

/-! ## Links in use are listed -/

/-- Every child link in use is a node of a list of children. -/
def LinksListed (k : Kernel) (L : HeadAddr → List Node) : Prop :=
  ∀ i, Allocated k .pcbPtr i → ∃ q, ⟨.pcbPtr, i⟩ ∈ L (.children q)

theorem linksListed_kept (h : LinksListed k L) (hpool : k'.pool .pcbPtr = k.pool .pcbPtr)
    (hlists : ∀ q, L' (.children q) = L (.children q)) : LinksListed k' L' := by
  intro i ha
  obtain ⟨q, hq⟩ := h i ((allocated_of_pool hpool).mp ha)
  exact ⟨q, by rwa [hlists]⟩

theorem linksListed_scheduled (h : LinksListed k L) (hs : Scheduled k L k' L') :
    LinksListed k' L' :=
  linksListed_kept h (hs.pool _ (by decide)) fun _ => hs.lists _ id

theorem linksListed_undisturbed (h : LinksListed k L) (hu : Undisturbed k L k' L') :
    LinksListed k' L' :=
  linksListed_kept h (hu.pool _ (.inr (.inl rfl))) fun _ => hu.lists _ trivial

theorem linksListed_spawned {p ptr : Nat} (h : LinksListed k L) (hc : Coherent k L)
    (hr : k.running = some r) (hsp : Spawned k L r p ptr k' L') : LinksListed k' L' := by
  have hlive : ∀ q x, x ∈ L (.children q) → Allocated k .pcb q := by
    intro q x hx
    obtain ⟨_, _, _, _, hq, _⟩ := hc.sound.family.child q _ (List.mem_map.mpr ⟨x, hx, rfl⟩)
    exact hq
  have hpr : p ≠ r := by
    rintro rfl
    exact hsp.fresh (hc.sound.placed.live_of_running hr)
  intro i ha
  rcases (hsp.allocated _ _).mp ha with ⟨he, _⟩ | ⟨_, rfl⟩ | ha
  · cases he
  · refine ⟨r, ?_⟩
    rw [hsp.children_self hpr]
    exact List.mem_append_right _ List.mem_cons_self
  · obtain ⟨q, hq⟩ := h i ha
    have hqp : q ≠ p := fun he => hsp.fresh (he ▸ hlive q _ hq)
    refine ⟨q, ?_⟩
    by_cases hqr : q = r
    · subst hqr
      rw [hsp.children_self hpr]
      exact List.mem_append_left _ hq
    · rw [hsp.lists_of_ne (by simp) (by simp [hqr]),
        allocLists_of_ne (by simp) (by simp [hqp]) (by simp)]
      exact hq

theorem linksListed_restarted {p : Nat} (h : LinksListed k L) (hc : Coherent k L)
    (hre : Restarted k L p k' L') : LinksListed k' L' := by
  intro i ha
  obtain ⟨q, hq⟩ := h i (((hre.allocated _ _).mp ha).resolve_left fun he => nomatch he.1)
  obtain ⟨_, _, _, _, hlive, _⟩ :=
    hc.sound.family.child q _ (List.mem_map.mpr ⟨_, hq, rfl⟩)
  have hqp : q ≠ p := fun he => hre.fresh (he ▸ hlive)
  refine ⟨q, ?_⟩
  rw [hre.lists_of_ne (by simp) (by simp [hqp])]
  exact hq

theorem linksListed_collected {ptr c : Nat} (h : LinksListed k L)
    (hs : Strung Regular Retained k L) (hcol : Collected k L r ptr c k' L') :
    LinksListed k' L' := by
  intro i ha
  obtain ⟨_, hne, ha⟩ := (hcol.allocated _ _).mp ha
  obtain ⟨q, hq⟩ := h i ha
  refine ⟨q, ?_⟩
  rw [hcol.lists, Function.update_of_ne (by simp),
    mem_erase_update (hs.nodup (l := .children r) (regular_children r))]
  refine ⟨hq, fun he => hne ⟨rfl, ?_⟩⟩
  injection he.2

theorem linksListed_died (h : LinksListed k L) (hd : Died k L r i parent k' L') :
    LinksListed k' L' := by
  have hpool : k'.pool = k.pool := by rw [hd.rest]
  have hchildren : ∀ q, L' (.children q) = Function.update (Function.update L (.children r) [])
      (.children i) (L (.children i) ++ L (.children r)) (.children q) := fun q => by
    rw [hd.lists, Function.update_of_ne (by simp)]
  intro j ha
  obtain ⟨q, hq⟩ := h j ((allocated_congr hpool).mp ha)
  by_cases hqr : q = r
  · subst hqr
    refine ⟨i, ?_⟩
    rw [hchildren, Function.update_self]
    exact List.mem_append_right _ hq
  · refine ⟨q, ?_⟩
    rw [hchildren]
    by_cases hqi : q = i
    · subst hqi
      rw [Function.update_self]
      exact List.mem_append_left _ hq
    · rw [Function.update_of_ne (by simp [hqi]), Function.update_of_ne (by simp [hqr])]
      exact hq

theorem linksListed_called (h : LinksListed k L) (hc : Coherent k L) (hr : k.running = some r)
    (hcall : Called k L r num k' L')
    (hguard : num = DSOS_CALL_EXIT → ∀ i parent, (k.pcb r).parent = some parent →
      ¬ WaitsFor (((view k L).adopt r i).die r parent) parent r) : LinksListed k' L' := by
  cases hcall with
  | refused => exact linksListed_kept h rfl fun _ => rfl
  | preempted hs _ => exact linksListed_scheduled h hs
  | slept hs _ => exact linksListed_scheduled h hs
  | spawned _ hsp => exact linksListed_spawned h hc hr hsp
  | collected _ _ _ _ hcol => exact linksListed_collected h hc.tidy.strung hcol
  | waits _ _ hs => exact linksListed_scheduled h hs
  | exited hd _ _ hk hlists =>
    refine linksListed_kept (linksListed_died h hd) ?_ fun _ => hlists _ (by simp)
    rw [hk]
    rfl
  | reported hd hw _ => exact absurd hw (hguard rfl _ _ hd.parent_eq)
  | semOpen ho => exact linksListed_undisturbed h (undisturbed_semOpen ho)
  | semWait ho => exact linksListed_undisturbed h (undisturbed_semWait ho)
  | semPost ho => exact linksListed_undisturbed h (undisturbed_semPost ho)
  | semClose ho => exact linksListed_undisturbed h (undisturbed_semClose ho)
  | openResource ho => exact linksListed_undisturbed h (undisturbed_openResource ho)
  | closeResource ho => exact linksListed_undisturbed h (undisturbed_closeResource ho)
  | destroyResource ho => exact linksListed_undisturbed h (undisturbed_destroyResource ho)
  | mqOpen ho => exact linksListed_undisturbed h (undisturbed_mqOpen ho)
  | mqClose ho => exact linksListed_undisturbed h (undisturbed_mqClose ho)
  | mqUse _ hq => exact linksListed_undisturbed h (undisturbed_queued hq)

theorem linksListed_acted (h : LinksListed k L) (hc : Coherent k L) (hact : Acted k L a k' L')
    (hguard : ¬ ExitsAwaited k a) : LinksListed k' L' := by
  cases hact with
  | ignored => exact h
  | @called r num args _ _ hr hcall =>
    have h₁ : LinksListed (k.setCall r num args) L := linksListed_kept h rfl fun _ => rfl
    refine linksListed_called h₁ (coherent_setCall hc hr) hr hcall ?_
    intro he i parent hparent hw
    have hparent' : (k.pcb r).parent = some parent := by
      rw [← hparent]
      show _ = (Function.update k.pcb r _ r).parent
      rw [Function.update_self]
    exact hguard ⟨he, awaited_of_waitsFor hc hr hparent' hw⟩
  | ticked hr hs =>
    have h₁ : LinksListed { k with disastrOSTime := k.disastrOSTime + 1 } L :=
      linksListed_kept h rfl fun _ => rfl
    exact linksListed_scheduled h₁ hs
  | restarted hre => exact linksListed_restarted h hc hre
  | stored => exact linksListed_kept h rfl fun _ => rfl

/-! ## Counting links -/

/-- The links in use are the children of the processes in use, and there is a free one. -/
structure LinksCounted (k : Kernel) : Prop where
  count : ((inUse k .pcbPtr).card : Int) = ∑ p ∈ inUse k .pcb, (k.head (.children p)).size
  free : k.getBlock .pcbPtr ≠ none

/-- Every link leads to another process, and none to init. -/
theorem card_links_lt (hc : Coherent k L) (h : LinksListed k L) :
    (inUse k .pcbPtr).card < (inUse k .pcb).card := by
  obtain ⟨i, _, hil, hnone⟩ := hc.sound.family.init
  -- the child that a link leads to
  have hchild : ∀ x ∈ inUse k .pcbPtr, ∃ q p, ⟨.pcbPtr, x⟩ ∈ L (.children q) ∧
      k.pcbPtr x = some p ∧ p ∈ (inUse k .pcb).erase i := by
    intro x hx
    obtain ⟨q, hq⟩ := h x (mem_inUse.mp hx)
    have hmem : k.pcbPtr x ∈ (view k L).children q := List.mem_map.mpr ⟨_, hq, rfl⟩
    obtain ⟨p, hp, hlive, hne, _⟩ := hc.sound.family.child q _ hmem
    refine ⟨q, p, hq, hp, Finset.mem_erase.mpr ⟨?_, mem_inUse.mpr hlive⟩⟩
    rintro rfl
    exact hne hnone
  have hle : (inUse k .pcbPtr).card ≤ ((inUse k .pcb).erase i).card := by
    refine Finset.card_le_card_of_injOn (fun x => (k.pcbPtr x).getD 0) (fun x hx => ?_) ?_
    · obtain ⟨q, p, _, hp, hmem⟩ := hchild x hx
      show (k.pcbPtr x).getD 0 ∈ _
      rwa [hp]
    · intro x hx y hy he
      obtain ⟨q, p, hq, hp, _⟩ := hchild x hx
      obtain ⟨q', p', hq', hp', _⟩ := hchild y hy
      have he : (k.pcbPtr x).getD 0 = (k.pcbPtr y).getD 0 := he
      rw [hp, hp', Option.getD_some, Option.getD_some] at he
      subst he
      -- a process is a child of one process, and once
      have hmem : some p ∈ (view k L).children q := List.mem_map.mpr ⟨_, hq, hp⟩
      have hmem' : some p ∈ (view k L).children q' := List.mem_map.mpr ⟨_, hq', hp'⟩
      obtain rfl := hc.sound.family.apart q q' _ hmem hmem'
      have hxy := List.inj_on_of_nodup_map (hc.sound.family.nodup q) hq hq' (hp.trans hp'.symm)
      injection hxy
  exact hle.trans_lt (Finset.card_erase_lt_of_mem (mem_inUse.mpr hil))

theorem linksCounted_of_listed (hc : Coherent k L) (h : LinksListed k L) : LinksCounted k := by
  have hs := hc.tidy.strung
  have hunion : inUse k .pcbPtr =
      (inUse k .pcb).biUnion fun p => ((L (.children p)).map Node.idx).toFinset := by
    ext x
    rw [mem_inUse, Finset.mem_biUnion]
    constructor
    · intro ha
      obtain ⟨q, hq⟩ := h x ha
      obtain ⟨_, _, _, _, hlive, _⟩ :=
        hc.sound.family.child q _ (List.mem_map.mpr ⟨_, hq, rfl⟩)
      exact ⟨q, mem_inUse.mpr hlive, List.mem_toFinset.mpr (List.mem_map.mpr ⟨_, hq, rfl⟩)⟩
    · rintro ⟨q, _, hx⟩
      have hx := hs.mem_idx (l := .children q) (regular_children q) (List.mem_toFinset.mp hx)
      exact hs.allocated (l := .children q) (regular_children q) hx
  have hdisj : ((inUse k .pcb : Finset Nat) : Set Nat).PairwiseDisjoint
      fun p => ((L (.children p)).map Node.idx).toFinset := by
    intro p _ q _ hne
    refine Finset.disjoint_left.mpr fun x hx hx' => hne ?_
    have hp := hs.mem_idx (l := .children p) (regular_children p) (List.mem_toFinset.mp hx)
    have hq := hs.mem_idx (l := .children q) (regular_children q) (List.mem_toFinset.mp hx')
    injection hs.apart (l := .children p) (j := .children q) (regular_children p)
      (regular_children q) hp hq
  refine ⟨?_, getBlock_ne_none hs.pooled ?_⟩
  · rw [hunion, Finset.card_biUnion hdisj]
    rw [Nat.cast_sum]
    refine Finset.sum_congr rfl fun p _ => ?_
    rw [List.toFinset_card_of_nodup (hs.nodup_idx (l := .children p) (regular_children p)),
      List.length_map, hs.size_eq (l := .children p) (regular_children p)]
  · have hlt := card_links_lt hc h
    have hle : (inUse k .pcb).card ≤ 1024 := by
      have hsub : inUse k .pcb ⊆ Finset.range 1024 := fun p hp =>
        Finset.mem_range.mpr (allocated_bound hs.pooled (mem_inUse.mp hp))
      simpa using Finset.card_le_card hsub
    show _ < MAX_NUM_PROCESSES
    unfold MAX_NUM_PROCESSES
    omega

/-- In every state of a run in which nobody exits whose parent waits for it, the links in
use are counted by the sizes of the lists of children, and spawning finds a free one. -/
theorem no_link_leak {mem : Int → UInt8} {k₀ k : Kernel} {as : List Action}
    (hstart : Started mem k₀)
    (hrun : Run act (fun k a => Ordinary a ∧ ¬ ExitsAwaited k a) k₀ as k) : LinksCounted k := by
  have hboot : ∀ mem k, Booted mem k → LinksListed k noNodes := by
    intro mem k hb i ha
    cases ((hb.allocated _ _).mp ha).1
  obtain ⟨L, hc, h⟩ := run_coherent (fun _ _ ha => ha.1) hboot
    (fun _ _ _ _ _ hc h hguard hact _ _ => linksListed_acted h hc hact hguard.2) hstart hrun
  exact linksCounted_of_listed hc h

/-- A child exits before its parent waits for it, and is reaped. -/
theorem no_link_leak_reaped :
    ∃ k₀ k, Started (fun _ => 0) k₀ ∧
      Run act (fun k a => Ordinary a ∧ ¬ ExitsAwaited k a) k₀
        [.syscall DSOS_CALL_SPAWN [0, 0], .syscall DSOS_CALL_SPAWN [0, 0],
          .syscall DSOS_CALL_PREEMPT [], .syscall DSOS_CALL_EXIT [7], .syscall DSOS_CALL_PREEMPT [],
          .syscall DSOS_CALL_WAIT [0, 0]] k ∧
      k.lastPid = 3 ∧ (k.pool .pcbPtr).size = 1023 ∧ LinksCounted k := by
  obtain ⟨k₀, k, hstart, hrun, htest⟩ := exists_run_from_start
    (fun k a => Ordinary a ∧ ¬ ExitsAwaited k a)
    (fun k a => decide (Ordinary a ∧ ¬ ExitsAwaited k a))
    [.syscall DSOS_CALL_SPAWN [0, 0], .syscall DSOS_CALL_SPAWN [0, 0],
      .syscall DSOS_CALL_PREEMPT [], .syscall DSOS_CALL_EXIT [7], .syscall DSOS_CALL_PREEMPT [],
      .syscall DSOS_CALL_WAIT [0, 0]]
    (fun k => k.lastPid = 3 ∧ (k.pool .pcbPtr).size = 1023)
    (fun _ _ h => of_decide_eq_true h) (by decide +kernel)
  obtain ⟨hlast, hsize⟩ := of_decide_eq_true htest
  exact ⟨k₀, k, hstart, hrun, hlast, hsize, no_link_leak hstart hrun⟩

/-- A child exits while init waits for it: its link stays in use and is in no list. -/
theorem awaited_exit_leaks_link :
    ∃ k₀ k, Started (fun _ => 0) k₀ ∧
      Run act (fun _ a => Ordinary a) k₀
        [.syscall DSOS_CALL_SPAWN [0, 0], .syscall DSOS_CALL_WAIT [0, 0],
          .syscall DSOS_CALL_EXIT [7]] k ∧ ¬ LinksCounted k := by
  obtain ⟨k₀, k, hstart, hrun, htest⟩ := exists_run_from_start (fun _ a => Ordinary a)
    (fun _ a => decide (Ordinary a))
    [.syscall DSOS_CALL_SPAWN [0, 0], .syscall DSOS_CALL_WAIT [0, 0],
      .syscall DSOS_CALL_EXIT [7]]
    (fun k => (k.pool .pcbPtr).size = 1023 ∧ (k.pool .pcb).size = 1023 ∧ k.initPcb = some 0 ∧
      (k.head (.children 0)).size = 0)
    (fun _ _ h => of_decide_eq_true h) (by decide +kernel)
  obtain ⟨hlinks, hpcb, hinit, hsize⟩ := of_decide_eq_true htest
  refine ⟨k₀, k, hstart, hrun, fun h => ?_⟩
  obtain ⟨L, hc, _⟩ := run_coherent (I := fun _ _ => True) (fun _ _ ha => ha)
    (fun _ _ _ => trivial) (fun _ _ _ _ _ _ _ _ _ _ _ => trivial) hstart hrun
  have hpooled := hc.tidy.strung.pooled
  obtain ⟨i, hi, hlive, _⟩ := hc.sound.family.init
  obtain rfl : i = 0 := by
    have hi : k.initPcb = some i := hi
    rw [hinit, Option.some.injEq] at hi
    exact hi.symm
  have hone : (inUse k .pcb).card = 1 := by
    have hsum := card_inUse (k := k) hpooled .pcb
    rw [hpcb] at hsum
    have hsum : _ + 1023 = (1024 : Int) := hsum
    omega
  obtain ⟨p, hp⟩ := Finset.card_eq_one.mp hone
  obtain rfl : p = 0 := by
    have hmem : 0 ∈ inUse k .pcb := mem_inUse.mpr hlive
    rw [hp, Finset.mem_singleton] at hmem
    exact hmem.symm
  have hlinks' : ((inUse k .pcbPtr).card : Int) + 1023 = 1024 := by
    have hsum := card_inUse (k := k) hpooled .pcbPtr
    rwa [hlinks] at hsum
  have hcount := h.count
  rw [hp, Finset.sum_singleton, hsize] at hcount
  omega

end DisastrOS.Process.ChildLinks
