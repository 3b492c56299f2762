import DisastrOS.Process.Transitions

/-!
# Runs of the whole system

The state after the kernel start is coherent, so every state that ordinary actions
reach is. The rules give invariants of runs on top of that.
-/
namespace DisastrOS.Process.SystemRuns

open DisastrOS.Machine
open DisastrOS.Machine.Kernel
open DisastrOS.Machine.Runs
open DisastrOS.Lists.Boot
open DisastrOS.Lists.Wiring
open DisastrOS.Lists.RegularLists
open DisastrOS.Lists.QueueChains
open DisastrOS.Pool.Blocks
open DisastrOS.Descriptors.Tables
open DisastrOS.Process.Table
open DisastrOS.Process.Steps
open DisastrOS.Process.View
open DisastrOS.Process.Coherence
open DisastrOS.Process.Transitions
open DisastrOS.Library.GuardedRun

variable {mem : Int → UInt8} {k k₀ : Kernel} {as : List Action}

/-- The lists of the kernel after its start. -/
abbrev noNodes : HeadAddr → List Node := fun _ => []

theorem booted_strung (h : Booted mem k) : Strung Regular Retained k noNodes := by
  have hw := h.wired
  refine ⟨⟨fun l _ => hw.threaded.holds l trivial, fun _ _ => List.nodup_nil, ?_⟩, ?_, ?_, ?_,
    hw.pooled⟩
  · intro _ _ _ _ _ hx
    cases hx
  · intro _ _ _ hx
    cases hx
  · intro _ _ _ hx
    cases hx
  · intro x _ ha _
    exact hw.loose x trivial ha fun _ _ hx => by cases hx

theorem booted_tied (h : Booted mem k) (t : Table) : Tied t k noNodes := by
  refine ⟨fun d ha => ?_, fun ptr ha => ?_, fun _ _ hm => ?_, ?_, fun _ _ hx => ?_⟩
  · exact absurd ((h.allocated _ _).mp ha).1 (by cases t <;> decide)
  · exact absurd ((h.allocated _ _).mp ha).1 (by cases t <;> decide)
  · cases hm
  · rw [h.size _ (by cases t <;> decide), h.size _ (by cases t <;> decide)]
    cases t <;> rfl
  · cases hx

/-- The first process, as the process table shows it. -/
theorem booted_view (h : Booted mem k) : view k noNodes =
    { live := fun i => i = 0
      info := Function.update (fun _ => {}) 0
        { status := .Running, cpuState := true, signalsMask := 0xFFFFFFFF }
      running := some 0
      ready := [], waiting := [], zombie := [], timers := []
      children := fun _ => [], waiters := fun _ => []
      init := some 0, lastPid := 1, time := 0 } := by
  have hlive : Allocated k .pcb = fun i => i = 0 :=
    funext fun i => propext ((h.allocated .pcb i).trans (and_iff_right rfl))
  have hinfo : (fun p => View.control (k.pcb p)) =
      Function.update (fun _ => {}) 0
        { status := .Running, cpuState := true, signalsMask := 0xFFFFFFFF } := by
    rw [h.rest]
    funext p
    by_cases hp : p = 0
    · rw [hp]
      rfl
    · show View.control ((Function.update (fun _ => {}) 0 _ : Nat → PCB) p) = _
      rw [Function.update_of_ne hp]
      rfl
  unfold view
  rw [hlive, hinfo, h.rest]
  rfl

theorem booted_sound (h : Booted mem k) : Sound (view k noNodes) := by
  rw [booted_view h]
  have hstatus : ∀ p : Nat, (Function.update (fun _ => ({} : PCB)) 0
      { status := .Running, cpuState := true, signalsMask := 0xFFFFFFFF } p).status =
        if p = 0 then .Running else .Created := fun p => by
    rw [Function.update_apply]
    split <;> rfl
  refine ⟨⟨?_, fun p => ?_⟩, ⟨fun p => ?_, fun p hp => ?_, ?_⟩, ⟨?_, ?_, ?_⟩, ⟨?_, ?_, ?_⟩,
    ⟨?_, ?_, ?_, ?_, fun p hp => .inl ?_, ?_, ⟨0, ?_⟩, fun p q hp hq _ => ?_, fun p hp => ?_⟩⟩
  · simp [ProcessTable.places]
  · simp [ProcessTable.places]
  · simp only [List.not_mem_nil, false_iff, not_and, hstatus]
    rintro rfl
    simp
  · simp only [hstatus] at hp
    split at hp <;> cases hp
  all_goals try simp
  · rw [hp, Function.update_self]
  · exact hp.trans hq.symm
  · rw [hp, Function.update_self]
    decide

/-- There are no message queues and no queues yet. -/
theorem booted_hung (h : Booted mem k) : Hung k noNodes := by
  have hfirst : ∀ l, (k.lists.head l).first = none ∧ (k.lists.head l).last = none := fun l =>
    ⟨(h.wired.threaded.holds l trivial).first, (h.wired.threaded.holds l trivial).last⟩
  exact ⟨⟨fun l _ => (hfirst l).1, fun _ _ => trivial, fun _ _ => List.nodup_nil, nofun⟩, nofun,
    nofun, nofun, [], [], rfl, (hfirst _).2, .inl rfl⟩

theorem booted_coherent (h : Booted mem k) : Coherent k noNodes := by
  refine ⟨⟨booted_strung h, booted_tied h, fun i hi => ?_, fun p => ?_⟩, booted_hung h,
    booted_sound h⟩
  · cases ((h.allocated _ _).mp hi).1
  · rw [h.rest]
    show ((Function.update (fun _ => {}) 0 _ : Nat → PCB) p).timer = none
    rw [Function.update_apply]
    split <;> rfl

/-- What every ordinary action inside the guard keeps holds in every state of a run. -/
theorem run_coherent {I : Kernel → (HeadAddr → List Node) → Prop} {guard : Kernel → Action → Prop}
    (hordinary : ∀ k a, guard k a → Ordinary a)
    (hstart : ∀ mem k, Booted mem k → I k noNodes)
    (hkeep : ∀ k L a k' L', Coherent k L → I k L → guard k a → Acted k L a k' L' →
      Step (view k L) a (view k' L') → Coherent k' L' → I k' L')
    (hs : Started mem k₀) (h : Run act guard k₀ as k) : ∃ L, Coherent k L ∧ I k L := by
  have hb := start_booted hs
  refine run_invariant (I := fun k => ∃ L, Coherent k L ∧ I k L) ?_
    ⟨noNodes, booted_coherent hb, hstart mem k₀ hb⟩ h
  rintro k a k' ⟨L, hc, hi⟩ hguard hact
  obtain ⟨L', hacted, hc', hstep⟩ := act_done hc (hordinary k a hguard) hact
  exact ⟨L', hc', hkeep k L a k' L' hc hi hguard hacted hstep hc'⟩

theorem coherent_run (hs : Started mem k₀) (h : Run act (fun _ a => Ordinary a) k₀ as k) :
    ∃ L, Coherent k L := by
  obtain ⟨L, hc, _⟩ := run_coherent (I := fun _ _ => True) (fun _ _ ha => ha)
    (fun _ _ _ => trivial) (fun _ _ _ _ _ _ _ _ _ _ _ => trivial) hs h
  exact ⟨L, hc⟩

/-- In states of a run a guard may be replaced by what follows from it there. -/
theorem run_reguard {guard guard' : Kernel → Action → Prop}
    (hordinary : ∀ k a, guard k a → Ordinary a)
    (himp : ∀ k L a, Coherent k L → guard k a → guard' k a) (hs : Started mem k₀)
    (h : Run act guard k₀ as k) : Run act guard' k₀ as k := by
  induction h with
  | nil => exact .nil _
  | snoc hrun hguard hact ih =>
    obtain ⟨L, hc⟩ := coherent_run hs (run_mono hordinary hrun)
    exact .snoc ih (himp _ L _ hc hguard) hact

/-- The same with a history of what `watch` has seen. -/
theorem run_history {ω : Type} {watch : Kernel → Action → Kernel → List ω}
    {I : Kernel → (HeadAddr → List Node) → List ω → Prop} {guard : Kernel → Action → Prop}
    {seen : List ω}
    (hordinary : ∀ k a, guard k a → Ordinary a)
    (hstart : ∀ mem k, Booted mem k → I k noNodes [])
    (hkeep : ∀ k L h a k' L', Coherent k L → I k L h → guard k a → Acted k L a k' L' →
      Step (view k L) a (view k' L') → Coherent k' L' → I k' L' (h ++ watch k a k'))
    (hs : Started mem k₀)
    (h : Run (withHistory act watch) (fun s a => guard s.1 a) (k₀, []) as (k, seen)) :
    ∃ L, Coherent k L ∧ I k L seen := by
  have hb := start_booted hs
  refine run_invariant (I := fun s => ∃ L, Coherent s.1 L ∧ I s.1 L s.2) ?_
    ⟨noNodes, booted_coherent hb, hstart mem k₀ hb⟩ h
  rintro ⟨k, seen⟩ a ⟨k', seen'⟩ ⟨L, hc, hi⟩ hguard hact
  obtain ⟨hact, hseen⟩ := withHistory_ok.mp hact
  have hseen : seen' = seen ++ watch k a k' := hseen
  subst hseen
  obtain ⟨L', hacted, hc', hstep⟩ := act_done hc (hordinary k a hguard) hact
  exact ⟨L', hc', hkeep k L seen a k' L' hc hi hguard hacted hstep hc'⟩

/-- The same for a property of the process table. -/
theorem run_table {I : ProcessTable → Prop} {guard : Kernel → Action → Prop}
    (hordinary : ∀ k a, guard k a → Ordinary a)
    (hstart : ∀ mem k, Booted mem k → I (view k noNodes))
    (hkeep : ∀ k L a s', Coherent k L → I (view k L) → guard k a → Step (view k L) a s' →
      Sound s' → I s')
    (hs : Started mem k₀) (h : Run act guard k₀ as k) :
    ∃ L, Coherent k L ∧ I (view k L) :=
  run_coherent (I := fun k L => I (view k L)) hordinary hstart
    (fun k L a _ _ hc hi hguard _ hstep hc' => hkeep k L a _ hc hi hguard hstep hc'.sound) hs h

end DisastrOS.Process.SystemRuns
