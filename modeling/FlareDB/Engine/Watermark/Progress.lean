import FlareDB.Engine.Watermark.Graph

/-! The scheduler cannot get stuck. Along every protocol run a completed
producer has lifted the barriers of its consumers or recorded its output as
empty, and a stage with nothing pending is not clamped by unconsumed input. Once
nothing runs, the sources are finished and nothing is held, the highest stage
that is not done is therefore ready. -/
namespace FlareDB

open KeyedStore

namespace StageState

/-- What holds of every stage on its own. -/
structure Sound (stage : StageState) : Prop where
  pendingMin : stage.pending = ∅ → stage.pendingMin = maxTimestamp
  input_le : stage.input ≤ maxTimestamp
  unproduced : ∀ pcollection ∈ stage.unproduced, pcollection ∈ stage.mainInputs
  unproducedSideInputs : ∀ pcollection ∈ stage.unproducedSideInputs,
    pcollection ∈ stage.sideInputs

/-- A produced input no longer blocks the stage, except as a side input whose
last completion was empty. -/
def Covered (pcollection : PCollectionId) (stage : StageState) : Prop :=
  pcollection ∉ stage.unproduced ∧
    (pcollection ∈ stage.unproducedSideInputs → pcollection ∈ stage.pendingEmpty)

/-- A stage starts sound. -/
theorem Sound.state (spec : StageSpec) : spec.state.Sound where
  pendingMin _ := rfl
  input_le := by
    simp only [StageSpec.state, StageState.init]
    split
    · exact le_refl _
    · exact minTimestamp_le_maxTimestamp
  unproduced := by simp [StageSpec.state, StageState.init]
  unproducedSideInputs := by simp [StageSpec.state, StageState.init]

variable {stage : StageState}

/-- Starting a bundle keeps a stage sound. -/
theorem Sound.started (h : stage.Sound) : stage.started.Sound := by
  unfold StageState.started
  split
  · exact ⟨fun _ => rfl, h.input_le, h.unproduced, h.unproducedSideInputs⟩
  · exact ⟨h.pendingMin, h.input_le, h.unproduced, h.unproducedSideInputs⟩

/-- So does the end of a bundle. -/
theorem Sound.finished (h : stage.Sound) : stage.finished.Sound :=
  ⟨h.pendingMin, h.input_le, h.unproduced, h.unproducedSideInputs⟩

/-- So does a main input that a producer completed. -/
theorem Sound.receiveMain (h : stage.Sound) (pcollection : PCollectionId) (isEmpty : Bool)
    (outputMin : Option Timestamp) : (stage.receiveMain pcollection isEmpty outputMin).Sound := by
  have hProduced : ∀ other ∈ stage.unproduced.erase pcollection, other ∈ stage.mainInputs :=
    fun other hOther => h.unproduced other (Finset.mem_of_mem_erase hOther)
  unfold StageState.receiveMain
  simp only
  split
  · exact ⟨h.pendingMin, h.input_le, hProduced, h.unproducedSideInputs⟩
  · refine ⟨fun hEmpty => ?_, h.input_le, hProduced, h.unproducedSideInputs⟩
    exact absurd hEmpty (Finset.insert_ne_empty _ _)

/-- So does a side input that a producer completed. -/
theorem Sound.receiveSide (h : stage.Sound) (pcollection : PCollectionId) (isEmpty : Bool) :
    (stage.receiveSide pcollection isEmpty).Sound := by
  cases isEmpty with
  | true => exact ⟨h.pendingMin, h.input_le, h.unproduced, h.unproducedSideInputs⟩
  | false =>
      exact ⟨h.pendingMin, h.input_le, h.unproduced, fun other hOther =>
        h.unproducedSideInputs other (Finset.mem_of_mem_erase hOther)⟩

/-- So does releasing the holds of empty inputs. -/
theorem Sound.releaseEmpty (h : stage.Sound) : stage.releaseEmpty.Sound :=
  ⟨h.pendingMin, h.input_le, h.unproduced, fun other hOther =>
    h.unproducedSideInputs other (Finset.mem_filter.mp hOther).1⟩

/-- So do watermarks, as long as the input watermark is not past the end. -/
theorem Sound.withWatermarks (h : stage.Sound) {input : Timestamp} (hInput : input ≤ maxTimestamp)
    (output : Timestamp) : (stage.withWatermarks input output).Sound :=
  ⟨h.pendingMin, hInput, h.unproduced, h.unproducedSideInputs⟩

theorem Sound.retouched {after : StageState} (h : stage.Sound) (hTouched : stage.Retouched after) :
    after.Sound := by
  rw [hTouched.same]
  exact ⟨h.pendingMin, h.input_le, h.unproduced, h.unproducedSideInputs⟩

theorem Covered.retouched {after : StageState} {pcollection : PCollectionId}
    (h : stage.Covered pcollection) (hTouched : stage.Retouched after) :
    after.Covered pcollection := by
  rw [hTouched.same]
  exact h

theorem Covered.started {pcollection : PCollectionId} (h : stage.Covered pcollection) :
    stage.started.Covered pcollection := by
  unfold StageState.started
  split <;> exact h

theorem Covered.releaseEmpty (hSound : stage.Sound) {pcollection : PCollectionId}
    (h : stage.Covered pcollection) : stage.releaseEmpty.Covered pcollection := by
  refine ⟨h.1, fun hBlocked => ?_⟩
  obtain ⟨hUnproduced, hKept⟩ := Finset.mem_filter.mp hBlocked
  exact absurd ⟨h.2 hUnproduced, hSound.unproducedSideInputs _ hUnproduced⟩ hKept

theorem Covered.receiveMain_of_ne {pcollection other : PCollectionId} (hNe : other ≠ pcollection)
    (isEmpty : Bool) (outputMin : Option Timestamp) (h : stage.Covered other) :
    (stage.receiveMain pcollection isEmpty outputMin).Covered other := by
  unfold Covered StageState.receiveMain at *
  cases stage.timeSortedInputClosed <;> cases isEmpty <;> simp_all

theorem Covered.receiveSide_of_ne {pcollection other : PCollectionId} (hNe : other ≠ pcollection)
    (isEmpty : Bool) (h : stage.Covered other) :
    (stage.receiveSide pcollection isEmpty).Covered other := by
  unfold Covered StageState.receiveSide at *
  cases isEmpty <;> simp_all

theorem unproduced_receiveMain (pcollection : PCollectionId) (isEmpty : Bool)
    (outputMin : Option Timestamp) :
    (stage.receiveMain pcollection isEmpty outputMin).unproduced =
      stage.unproduced.erase pcollection ∧
    (stage.receiveMain pcollection isEmpty outputMin).unproducedSideInputs =
      stage.unproducedSideInputs := by
  unfold StageState.receiveMain
  cases stage.timeSortedInputClosed <;> simp

/-- A stage that has received an output as a side input is covered for it,
provided the main barrier is already lifted. -/
theorem covered_receiveSide {pcollection : PCollectionId} (isEmpty : Bool)
    (h : pcollection ∉ stage.unproduced) :
    (stage.receiveSide pcollection isEmpty).Covered pcollection := by
  cases isEmpty <;> simp [Covered, StageState.receiveSide, h]

end StageState

namespace WatermarkManager

variable {manager : WatermarkManager}

theorem sound_deliver {stage : StageState} (h : stage.Sound) (isEmpty : Bool)
    (outputMin : Option Timestamp) (id : StageId) (pcollection : PCollectionId) :
    (manager.deliver isEmpty outputMin id stage pcollection).Sound := by
  unfold deliver
  simp only
  split <;> split
  · exact (h.receiveMain _ _ _).receiveSide _ _
  · exact h.receiveSide _ _
  · exact h.receiveMain _ _ _
  · exact h

theorem covered_deliver_of_ne {stage : StageState} {pcollection other : PCollectionId}
    (hNe : other ≠ pcollection) (h : stage.Covered other) (isEmpty : Bool)
    (outputMin : Option Timestamp) (id : StageId) :
    (manager.deliver isEmpty outputMin id stage pcollection).Covered other := by
  unfold deliver
  simp only
  split <;> split
  · exact (h.receiveMain_of_ne hNe _ _).receiveSide_of_ne hNe _
  · exact h.receiveSide_of_ne hNe _
  · exact h.receiveMain_of_ne hNe _ _
  · exact h

/-- Delivering an output to a stage wired for it lifts the barriers on it. -/
theorem covered_deliver {stage : StageState} {id : StageId} {pcollection : PCollectionId}
    (hMain : pcollection ∈ stage.unproduced → id ∈ manager.consumersOf pcollection)
    (hSide : pcollection ∈ stage.unproducedSideInputs →
      id ∈ manager.sideInputConsumersOf pcollection)
    (isEmpty : Bool) (outputMin : Option Timestamp) :
    (manager.deliver isEmpty outputMin id stage pcollection).Covered pcollection := by
  unfold deliver
  simp only
  by_cases hConsumer : id ∈ manager.consumersOf pcollection
  · obtain ⟨hErased, hSideSame⟩ :=
      stage.unproduced_receiveMain pcollection isEmpty outputMin
    have hLifted : pcollection ∉ (stage.receiveMain pcollection isEmpty outputMin).unproduced := by
      rw [hErased]
      exact Finset.notMem_erase _ _
    rw [if_pos hConsumer]
    split
    · exact StageState.covered_receiveSide isEmpty hLifted
    next hNot =>
      refine ⟨hLifted, fun hBlocked => absurd (hSide ?_) hNot⟩
      rwa [hSideSame] at hBlocked
  · have hLifted : pcollection ∉ stage.unproduced := fun h => hConsumer (hMain h)
    rw [if_neg hConsumer]
    split
    · exact StageState.covered_receiveSide isEmpty hLifted
    next hNot => exact ⟨hLifted, fun hBlocked => absurd (hSide hBlocked) hNot⟩

theorem wiring_fields {first second : StageState} (h : first.wiring = second.wiring) :
    first.mainInputs = second.mainInputs ∧ first.sideInputs = second.sideInputs ∧
      first.outputs = second.outputs := by
  injection h with hMain hSide hOutputs
  exact ⟨hMain, hSide, hOutputs⟩

section Deliveries

variable {id : StageId}

/-- Delivering outputs one by one: every output delivered is covered at the end,
and what was covered before stays covered. -/
theorem covered_foldl_deliver (isEmpty : Bool) (outputMin : Option Timestamp)
    (outputs : List PCollectionId) {stage : StageState} (hSound : stage.Sound)
    (hMain : ∀ pcollection ∈ stage.mainInputs, id ∈ manager.consumersOf pcollection)
    (hSide : ∀ pcollection ∈ stage.sideInputs, id ∈ manager.sideInputConsumersOf pcollection)
    {pcollection : PCollectionId}
    (h : pcollection ∈ outputs ∨ stage.Covered pcollection) :
    (outputs.foldl (manager.deliver isEmpty outputMin id) stage).Covered pcollection := by
  induction outputs generalizing stage with
  | nil => exact h.resolve_left (by simp)
  | cons output rest ih =>
      rw [List.foldl_cons]
      obtain ⟨hMainInputs, hSideInputs, _⟩ :=
        wiring_fields (manager.received_deliver isEmpty outputMin id stage output).wiring
      refine ih (sound_deliver hSound _ _ _ _) (by rwa [hMainInputs]) (by rwa [hSideInputs]) ?_
      by_cases hOutput : pcollection = output
      · subst hOutput
        exact Or.inr (covered_deliver (fun hMem => hMain _ (hSound.unproduced _ hMem))
          (fun hMem => hSide _ (hSound.unproducedSideInputs _ hMem)) isEmpty outputMin)
      · rcases h with hMem | hCovered
        · exact Or.inl ((List.mem_cons.mp hMem).resolve_left hOutput)
        · exact Or.inr (covered_deliver_of_ne hOutput hCovered _ _ _)

/-- Completing all outputs of a stage keeps another stage sound. -/
theorem sound_foldl_deliver (isEmpty : Bool) (outputMin : Option Timestamp)
    (outputs : List PCollectionId) {stage : StageState} (hSound : stage.Sound) :
    (outputs.foldl (manager.deliver isEmpty outputMin id) stage).Sound := by
  induction outputs generalizing stage with
  | nil => exact hSound
  | cons output rest ih => exact ih (sound_deliver hSound _ _ _ _)

end Deliveries

end WatermarkManager

/-- What holds of a manager along every protocol run over a graph. -/
structure Progressing (specs : List StageSpec) (manager : WatermarkManager) : Prop where
  shape : Shape specs manager
  sound : ∀ id stage, manager.stages.lookup id = some stage → stage.Sound
  covered : ∀ id stage producerId producer pcollection,
    manager.stages.lookup id = some stage → manager.stages.lookup producerId = some producer →
    producer.completed = true → pcollection ∈ producer.outputs → stage.Covered pcollection

namespace Progressing

open WatermarkManager

variable {specs : List StageSpec} {manager after : WatermarkManager}

/-- A manager that is built of a graph starts progressing. -/
theorem build (hDistinct : (specs.map StageSpec.id).Nodup) :
    Progressing specs (WatermarkManager.build specs) := by
  refine ⟨shape_build hDistinct, ?_, ?_⟩
  · intro id stage hStage
    obtain ⟨spec, _, _, rfl⟩ := lookup_build specs hStage
    exact StageState.Sound.state spec
  · intro id stage producerId producer pcollection _ hProducer hCompleted
    obtain ⟨spec, _, _, rfl⟩ := lookup_build specs hProducer
    cases hCompleted

/-- A stage is told about each PCollection it reads. -/
theorem mem_consumersOf (h : Progressing specs manager) {id : StageId} {stage : StageState}
    (hStage : manager.stages.lookup id = some stage) :
    (∀ pcollection ∈ stage.mainInputs, id ∈ manager.consumersOf pcollection) ∧
      ∀ pcollection ∈ stage.sideInputs, id ∈ manager.sideInputConsumersOf pcollection := by
  obtain ⟨spec, hSpec, hId, hWiring⟩ := h.shape.lookup id stage hStage
  injection hWiring with hMain hSide
  refine ⟨fun pcollection hMem => ?_, fun pcollection hMem => ?_⟩
  · rw [h.shape.consumers]
    exact ⟨spec, hSpec, hId, by rwa [← hMain]⟩
  · rw [h.shape.sideInputConsumers]
    exact ⟨spec, hSpec, hId, by rwa [← hSide]⟩

/-- A completion delivers the outputs of the completed stage to every consumer. -/
theorem completed (h : Progressing specs manager) {id : StageId} {stage : StageState}
    {isEmpty : Bool} {outputMin : Option Timestamp}
    (hStage : manager.stages.lookup id = some stage)
    (hRewrites : Rewrites (manager.completion id stage.outputs isEmpty outputMin) manager after)
    (hShape : Shape specs after) : Progressing specs after := by
  have hFinished : ∀ other current, manager.stages.lookup other = some current →
      (if other = id then current.finished else current).Sound := by
    intro other current hCurrent
    split
    · exact (h.sound other current hCurrent).finished
    · exact h.sound other current hCurrent
  refine ⟨hShape, ?_, ?_⟩
  · intro other current hCurrent
    obtain ⟨old, hOld, rfl⟩ := hRewrites.exists_before hCurrent
    exact sound_foldl_deliver _ _ _ (hFinished other old hOld)
  · intro other current producerId producer pcollection hCurrent hProducer hCompleted hOutput
    obtain ⟨old, hOld, rfl⟩ := hRewrites.exists_before hCurrent
    obtain ⟨oldProducer, hOldProducer, rfl⟩ := hRewrites.exists_before hProducer
    obtain ⟨hMain, hSide⟩ := h.mem_consumersOf hOld
    have hOutputs := (wiring_fields (manager.wiring_completion id stage.outputs isEmpty outputMin
      producerId oldProducer)).2.2
    rw [hOutputs] at hOutput
    have hWiring : (if other = id then old.finished else old).wiring = old.wiring := by
      split <;> simp
    obtain ⟨hMainInputs, hSideInputs, _⟩ := wiring_fields hWiring
    refine covered_foldl_deliver _ _ _ (hFinished other old hOld) (by rwa [hMainInputs])
      (by rwa [hSideInputs]) ?_
    -- An output of the completing stage is delivered now; any other was covered before.
    by_cases hProducerId : producerId = id
    · subst hProducerId
      rw [hStage] at hOldProducer
      cases hOldProducer
      exact Or.inl hOutput
    · have hOldCompleted : oldProducer.completed = true := by
        rw [(manager.received_completion id _ _ _ producerId oldProducer).same,
          if_neg hProducerId] at hCompleted
        exact hCompleted
      have hCovered := h.covered other old producerId oldProducer pcollection hOld hOldProducer
        hOldCompleted hOutput
      right
      split <;> exact hCovered

/-- A refresh moves watermarks only, and none past the end. -/
theorem refresh (h : Progressing specs manager) : Progressing specs manager.refresh := by
  refine ⟨h.shape.refresh, ?_, ?_⟩
  · refine refresh_induction (P := fun current => ∀ id stage,
      current.stages.lookup id = some stage → stage.Sound) ?_ h.sound
    intro current id moved _ hSound other stage hStage
    obtain ⟨old, hOld, rfl⟩ := (current.rewrites_modifyStage id _).exists_before hStage
    split
    · exact (hSound other old hOld).withWatermarks
        (max_le (hSound other old hOld).input_le (current.computeInput_le moved)) _
    · exact hSound other old hOld
  · obtain ⟨input, output, hRefresh, _⟩ := manager.rewrites_refresh
    intro id stage producerId producer pcollection hStage hProducer hCompleted hOutput
    obtain ⟨old, hOld, rfl⟩ := hRefresh.exists_before hStage
    obtain ⟨oldProducer, hOldProducer, rfl⟩ := hRefresh.exists_before hProducer
    exact h.covered id old producerId oldProducer pcollection hOld hOldProducer hCompleted hOutput

/-- Every change of the protocol keeps the invariant. -/
theorem change (h : Progressing specs manager) (hChange : Change manager after) :
    Progressing specs after := by
  have hShape := h.shape.change hChange
  cases hChange with
  | retouched f hRewrites hTouched =>
      refine ⟨hShape, ?_, ?_⟩
      · intro id stage hStage
        obtain ⟨old, hOld, rfl⟩ := hRewrites.exists_before hStage
        exact (h.sound id old hOld).retouched (hTouched id old)
      · intro id stage producerId producer pcollection hStage hProducer hCompleted hOutput
        obtain ⟨old, hOld, rfl⟩ := hRewrites.exists_before hStage
        obtain ⟨oldProducer, hOldProducer, rfl⟩ := hRewrites.exists_before hProducer
        rw [(hTouched producerId oldProducer).same] at hCompleted hOutput
        exact (h.covered id old producerId oldProducer pcollection hOld hOldProducer hCompleted
          hOutput).retouched (hTouched id old)
  | started started stage _ _ hRewrites =>
      refine ⟨hShape, ?_, ?_⟩
      · intro id stage hStage
        obtain ⟨old, hOld, rfl⟩ := hRewrites.exists_before hStage
        split
        · exact (h.sound id old hOld).started
        · exact h.sound id old hOld
      · intro id stage producerId producer pcollection hStage hProducer hCompleted hOutput
        obtain ⟨old, hOld, rfl⟩ := hRewrites.exists_before hStage
        obtain ⟨oldProducer, hOldProducer, rfl⟩ := hRewrites.exists_before hProducer
        have hSame : (if producerId = started then oldProducer.started else oldProducer).completed =
              oldProducer.completed ∧
            (if producerId = started then oldProducer.started else oldProducer).outputs =
              oldProducer.outputs := by
          unfold StageState.started
          split <;> (try split) <;> exact ⟨rfl, rfl⟩
        rw [hSame.1] at hCompleted
        rw [hSame.2] at hOutput
        have hCovered := h.covered id old producerId oldProducer pcollection hOld hOldProducer
          hCompleted hOutput
        split
        · exact hCovered.started
        · exact hCovered
  | completed id stage isEmpty outputMin hStage _ hRewrites =>
      exact h.completed hStage hRewrites hShape
  | released hRewrites =>
      refine ⟨hShape, ?_, ?_⟩
      · intro id stage hStage
        obtain ⟨old, hOld, rfl⟩ := hRewrites.exists_before hStage
        exact (h.sound id old hOld).releaseEmpty
      · intro id stage producerId producer pcollection hStage hProducer hCompleted hOutput
        obtain ⟨old, hOld, rfl⟩ := hRewrites.exists_before hStage
        obtain ⟨oldProducer, hOldProducer, rfl⟩ := hRewrites.exists_before hProducer
        exact StageState.Covered.releaseEmpty (h.sound id old hOld) (h.covered id old producerId
          oldProducer pcollection hOld hOldProducer hCompleted hOutput)

/-- Every operation keeps a manager progressing. -/
theorem effect (h : Progressing specs manager) (hEffect : Effect manager after) :
    Progressing specs after := by
  cases hEffect with
  | changed hChange => exact h.change hChange
  | refreshed hEq =>
      subst hEq
      exact h.refresh

theorem effects (h : Progressing specs manager) (hEffects : Effects manager after) :
    Progressing specs after := by
  induction hEffects with
  | refl => exact h
  | tail _ hLast ih => exact ih.effect hLast

end Progressing

namespace WatermarkManager

section Chain

variable {specs : List StageSpec} {manager : WatermarkManager} (hGraph : WellFormed specs)
  (hShape : Shape specs manager)
include hShape

/-- A stage is wired as its spec says. -/
theorem wiring_of_lookup {spec : StageSpec} (hSpec : spec ∈ specs) {stage : StageState}
    (hStage : manager.stages.lookup spec.id = some stage) : stage.wiring = spec.wiring := by
  obtain ⟨found, hFound, hWiring⟩ := hShape.registered spec hSpec
  rw [hStage] at hFound
  cases hFound
  exact hWiring

/-- The producer of an input is the stage the specs name. -/
theorem feeds_of_producerOf {spec : StageSpec} (hSpec : spec ∈ specs) {stage : StageState}
    (hStage : manager.stages.lookup spec.id = some stage) {pcollection : PCollectionId}
    (hInput : pcollection ∈ stage.inputs) {producer : StageState}
    (hProducer : manager.producerOf pcollection = some producer) :
    ∃ above, Feeds specs above spec ∧ manager.stages.lookup above.id = some producer ∧
      pcollection ∈ producer.outputs := by
  obtain ⟨id, hId, hLookup⟩ := Option.bind_eq_some_iff.mp hProducer
  obtain ⟨above, hAbove, rfl, hOutput⟩ := hShape.producers pcollection id hId
  injection wiring_of_lookup hShape hSpec hStage with hMain hSide
  injection wiring_of_lookup hShape hAbove hLookup with _ _ hOutputs
  refine ⟨above, ⟨hAbove, hSpec, pcollection, hOutput, ?_⟩, hLookup, by rwa [hOutputs]⟩
  rwa [StageState.inputs, hMain, hSide] at hInput

include hGraph

/-- Every input has a producer. -/
theorem exists_producerOf {spec : StageSpec} (hSpec : spec ∈ specs) {stage : StageState}
    (hStage : manager.stages.lookup spec.id = some stage) {pcollection : PCollectionId}
    (hInput : pcollection ∈ stage.inputs) :
    ∃ producer, manager.producerOf pcollection = some producer := by
  injection wiring_of_lookup hShape hSpec hStage with hMain hSide
  rw [StageState.inputs, hMain, hSide] at hInput
  obtain ⟨above, ⟨hAbove, hOutput⟩, _⟩ := hGraph.produced spec hSpec pcollection hInput
  obtain ⟨id, hId⟩ := hShape.produced above hAbove pcollection hOutput
  obtain ⟨owner, hOwner, rfl, _⟩ := hShape.producers pcollection id hId
  obtain ⟨producer, hProducer, _⟩ := hShape.registered owner hOwner
  exact ⟨producer, by rw [producerOf, hId]; exact hProducer⟩

/-- On an acyclic graph the quiescence check does not depend on its fuel, once
there is more of it than stages above the one it starts from. -/
theorem upstreamChainIsQuiescent_fuel {spec : StageSpec} (hSpec : spec ∈ specs)
    {stage : StageState} (hStage : manager.stages.lookup spec.id = some stage)
    {fuel more : Nat} (hFuel : rank specs spec < fuel) (hMore : fuel ≤ more) :
    manager.upstreamChainIsQuiescent fuel stage = manager.upstreamChainIsQuiescent more stage := by
  induction fuel generalizing spec stage more with
  | zero => omega
  | succ fuel ih =>
      obtain ⟨more, rfl⟩ : ∃ less, more = less + 1 := ⟨more - 1, by omega⟩
      simp only [upstreamChainIsQuiescent]
      rw [Bool.eq_iff_iff, List.all_eq_true, List.all_eq_true]
      refine forall₂_congr fun producer hProducer => ?_
      obtain ⟨pcollection, hInput, hFound⟩ := List.mem_filterMap.mp hProducer
      obtain ⟨above, hFeeds, hLookup, _⟩ :=
        feeds_of_producerOf hShape hSpec hStage hInput hFound
      have hRank := rank_lt_rank hGraph hFeeds
      rw [ih hFeeds.1 hLookup (by omega) (by omega : fuel ≤ more)]

/-- On an acyclic graph the quiescence check satisfies the recursion of the
engine, which has no fuel. -/
theorem upstreamChainIsQuiescent_eq {spec : StageSpec} (hSpec : spec ∈ specs)
    {stage : StageState} (hStage : manager.stages.lookup spec.id = some stage) :
    manager.upstreamChainIsQuiescent manager.stages.entries.length stage =
      (stage.inputs.filterMap manager.producerOf).all fun producer => producer.isQuiescent &&
        manager.upstreamChainIsQuiescent manager.stages.entries.length producer := by
  have hLength : manager.stages.entries.length = specs.length := by
    rw [← hShape.length, AList.keys, List.keys, List.length_map]
  have hRank := rank_lt_length hGraph hSpec
  rw [upstreamChainIsQuiescent_fuel hGraph hShape hSpec hStage (by omega) (Nat.le_succ _)]
  rfl

end Chain

end WatermarkManager

/-- A manager in which nothing runs, nothing is held and nothing is empty, whose
sources are finished and whose watermarks have settled. -/
structure AtRest (specs : List StageSpec) (manager : WatermarkManager) : Prop where
  progressing : Progressing specs manager
  settled : ∀ id stage, manager.stages.lookup id = some stage → manager.Settled stage
  inFlight : ∀ id stage, manager.stages.lookup id = some stage → stage.inFlight = 0
  minHold : ∀ id stage, manager.stages.lookup id = some stage → stage.minHold = none
  pendingEmpty : ∀ id stage, manager.stages.lookup id = some stage → stage.pendingEmpty = ∅
  finished : ∀ id stage source, manager.stages.lookup id = some stage →
    stage.source = some source → source.finished = true

namespace AtRest

open WatermarkManager

variable {specs : List StageSpec} {manager : WatermarkManager} (hGraph : WellFormed specs)
  (h : AtRest specs manager)

/-- A stage that is done, and whose consumers may take its input as complete. -/
def Released (stage : StageState) : Prop :=
  stage.isDone = true ∧ maxTimestamp ≤ stage.output

include h in
/-- A stage that is done is quiescent. -/
theorem isQuiescent_of_isDone {id : StageId} {stage : StageState}
    (hStage : manager.stages.lookup id = some stage) (hDone : stage.isDone = true) :
    stage.isQuiescent = true := by
  have hHold := h.minHold id stage hStage
  have hEmpty := h.pendingEmpty id stage hStage
  simp only [StageState.isDone, Bool.and_eq_true, decide_eq_true_eq] at hDone
  simp [StageState.isQuiescent, hHold, hEmpty, hDone]

section Stage

variable {spec : StageSpec} (hSpec : spec ∈ specs) {stage : StageState}
  (hStage : manager.stages.lookup spec.id = some stage)
  (hAbove : ∀ above, Feeds specs above spec → ∀ producer,
    manager.stages.lookup above.id = some producer → Released producer)
include hGraph h hSpec hStage hAbove

/-- Every input of a stage below released stages is covered, and its watermark
is maximal. -/
theorem input_released {pcollection : PCollectionId} (hInput : pcollection ∈ stage.inputs) :
    stage.Covered pcollection ∧ maxTimestamp ≤ manager.upstream pcollection := by
  obtain ⟨producer, hProducer⟩ :=
    exists_producerOf hGraph h.progressing.shape hSpec hStage hInput
  obtain ⟨above, hFeeds, hLookup, hOutput⟩ :=
    feeds_of_producerOf h.progressing.shape hSpec hStage hInput hProducer
  obtain ⟨hDone, hMax⟩ := hAbove above hFeeds producer hLookup
  simp only [StageState.isDone, Bool.and_eq_true, decide_eq_true_eq] at hDone
  refine ⟨h.progressing.covered _ _ _ _ _ hStage hLookup hDone.1.1.1.1.1.1 hOutput, ?_⟩
  rw [upstream, hProducer]
  exact hMax

/-- When everything above is done, no input is missing. -/
theorem unproduced_eq_empty : stage.unproduced = ∅ ∧ stage.unproducedSideInputs = ∅ := by
  have hSound := h.progressing.sound _ _ hStage
  refine ⟨Finset.eq_empty_of_forall_notMem fun pcollection hMem => ?_,
    Finset.eq_empty_of_forall_notMem fun pcollection hMem => ?_⟩
  · have hInput := List.mem_append_left stage.sideInputs (hSound.unproduced _ hMem)
    exact (input_released hGraph h hSpec hStage hAbove hInput).1.1 hMem
  · have hInput := List.mem_append_right stage.mainInputs (hSound.unproducedSideInputs _ hMem)
    have hHeld := (input_released hGraph h hSpec hStage hAbove hInput).1.2 hMem
    rw [h.pendingEmpty _ _ hStage] at hHeld
    exact Finset.notMem_empty _ hHeld

/-- When everything above is done, the input watermark is at the end. -/
theorem max_le_input : maxTimestamp ≤ stage.input := by
  refine le_trans ?_ (h.settled _ _ hStage).1
  unfold computeInput
  split
  · exact le_refl _
  · rw [le_upstreamMin_iff]
    exact ⟨le_refl _, fun pcollection hInput =>
      (input_released hGraph h hSpec hStage hAbove hInput).2⟩

/-- Then a stage that is not done has work. -/
theorem hasWork_of_not_isDone (hDone : stage.isDone = false) : stage.hasWork = true := by
  have hSound := h.progressing.sound _ _ hStage
  have hFlight := h.inFlight _ _ hStage
  obtain ⟨_, hSide⟩ := unproduced_eq_empty hGraph h hSpec hStage hAbove
  unfold StageState.hasWork
  split
  next hCompleted =>
    by_cases hPending : stage.pending = ∅
    · have hClamp : stage.effectiveInput = stage.input := by
        rw [StageState.effectiveInput, hSound.pendingMin hPending]
        exact min_eq_left hSound.input_le
      rw [hClamp]
      simp only [StageState.isDone, hCompleted, hSide, hPending, hFlight, decide_true,
        Bool.true_and, Bool.and_true] at hDone
      cases hRerun : stage.rerunPending with
      | true => simp
      | false =>
          rw [hRerun] at hDone
          by_cases hQueued : stage.queued = 0
          · simpa [hQueued, hPending] using hDone
          · simp [Nat.pos_of_ne_zero hQueued]
    · simp [hPending]
  · rfl

/-- Then a stage with work may run. -/
theorem isReady_of_hasWork (hWork : stage.hasWork = true) :
    stage.isReadyWithoutUpstreamBarrier = true := by
  obtain ⟨hMain, hSide⟩ := unproduced_eq_empty hGraph h hSpec hStage hAbove
  have hInput := max_le_input hGraph h hSpec hStage hAbove
  have hFlight := h.inFlight _ _ hStage
  have hWiring := wiring_of_lookup h.progressing.shape hSpec hStage
  injection hWiring with _ _ _ _ _ hRequired hMaxInFlight
  have hGate : stage.requiredWatermark ≤ stage.input := by
    rw [hRequired]
    exact (hGraph.required spec hSpec).trans hInput
  have hRoom : ¬stage.maxInFlight ≤ stage.inFlight := by omega
  unfold StageState.isReadyWithoutUpstreamBarrier
  rw [if_neg (by simp [hRoom, hMain, hSide]), if_neg (by simp [hFlight]), if_neg (by simp [hWork])]
  cases stage.kind <;> simp [hGate]

/-- A stage that is done publishes the end. -/
theorem max_le_output (hDone : stage.isDone = true) : maxTimestamp ≤ stage.output := by
  have hSound := h.progressing.sound _ _ hStage
  simp only [StageState.isDone, Bool.and_eq_true, decide_eq_true_eq] at hDone
  obtain ⟨⟨⟨⟨⟨⟨hCompleted, _⟩, hPending⟩, _⟩, _⟩, _⟩, _⟩ := hDone
  refine le_trans ?_ (h.settled _ _ hStage).2
  rw [le_computeOutput_iff]
  refine ⟨?_, fun hFirst => absurd hFirst (by simp [hCompleted]),
    fun hEmpty => absurd (h.pendingEmpty _ _ hStage) hEmpty, fun hold hHold => ?_⟩
  · unfold producedWatermark
    split
    next source hSource =>
      rw [SourceState.output, if_pos (h.finished _ _ source hStage hSource)]
    · rw [le_min_iff, le_upstreamMin_iff, hSound.pendingMin hPending]
      exact ⟨⟨le_refl _, fun pcollection hInput => (input_released hGraph h hSpec hStage hAbove
        (List.mem_append_left stage.sideInputs hInput)).2⟩, le_refl _⟩
  · rw [h.minHold _ _ hStage] at hHold
    cases hHold

end Stage

include hGraph h

/-- Then the chain above a gated stage is quiescent. -/
theorem chain_of_released {spec : StageSpec} (hSpec : spec ∈ specs) {stage : StageState}
    (hStage : manager.stages.lookup spec.id = some stage)
    (hAbove : ∀ above ∈ specs, rank specs above < rank specs spec → ∀ producer,
      manager.stages.lookup above.id = some producer → Released producer)
    {fuel : Nat} (hFuel : rank specs spec < fuel) :
    manager.upstreamChainIsQuiescent fuel stage = true := by
  induction fuel generalizing spec stage with
  | zero => omega
  | succ fuel ih =>
      rw [upstreamChainIsQuiescent, List.all_eq_true]
      intro producer hProducer
      obtain ⟨pcollection, hInput, hFound⟩ := List.mem_filterMap.mp hProducer
      obtain ⟨above, hFeeds, hLookup, _⟩ :=
        feeds_of_producerOf h.progressing.shape hSpec hStage hInput hFound
      have hRank := rank_lt_rank hGraph hFeeds
      have hReleased := hAbove above hFeeds.1 hRank producer hLookup
      rw [Bool.and_eq_true]
      refine ⟨isQuiescent_of_isDone h hLookup hReleased.1, ?_⟩
      exact ih hFeeds.1 hLookup (fun other hOther hLess => hAbove other hOther (by omega))
        (by omega)

/-- At rest, either some stage is ready or every stage is done: by induction on
how many stages lie above it. -/
theorem released_of_readyStages_nil (hReady : manager.readyStages = []) {spec : StageSpec}
    (hSpec : spec ∈ specs) {stage : StageState}
    (hStage : manager.stages.lookup spec.id = some stage) : Released stage := by
  induction hRank : rank specs spec using Nat.strong_induction_on generalizing spec stage with
  | _ n ih =>
      subst hRank
      have hAbove : ∀ above ∈ specs, rank specs above < rank specs spec → ∀ producer,
          manager.stages.lookup above.id = some producer → Released producer :=
        fun above hMem hLess producer hLookup => ih _ hLess hMem hLookup rfl
      have hFeeding : ∀ above, Feeds specs above spec → ∀ producer,
          manager.stages.lookup above.id = some producer → Released producer :=
        fun above hFeeds => hAbove above hFeeds.1 (rank_lt_rank hGraph hFeeds)
      have hDone : stage.isDone = true := by
        by_contra hNot
        have hWork := hasWork_of_not_isDone hGraph h hSpec hStage hFeeding (by simpa using hNot)
        have hMayRun := isReady_of_hasWork hGraph h hSpec hStage hFeeding hWork
        have hLength : manager.stages.entries.length = specs.length := by
          rw [← h.progressing.shape.length, AList.keys, List.keys, List.length_map]
        have hChain : manager.upstreamChainIsQuiescent manager.stages.entries.length stage = true :=
          chain_of_released hGraph h hSpec hStage hAbove (by
            rw [hLength]
            exact rank_lt_length hGraph hSpec)
        have hMem : spec.id ∈ manager.readyStages := by
          rw [readyStages, List.mem_insertionSort, List.mem_filter]
          refine ⟨mem_keys_iff.mpr ⟨stage, hStage⟩, ?_⟩
          simp [stageIsReady, hStage, hMayRun, hChain]
        rw [hReady] at hMem
        cases hMem
      exact ⟨hDone, max_le_output hGraph h hSpec hStage hFeeding hDone⟩

end AtRest

namespace WatermarkManager

/-- Releasing the empty inputs and refreshing rewrites every stage by the
release, up to its watermarks. -/
theorem rewrites_releaseEmptyInputHolds (manager : WatermarkManager) :
    ∃ input output : StageId → Timestamp,
      Rewrites (fun id stage => stage.releaseEmpty.withWatermarks (input id) (output id)) manager
        manager.releaseEmptyInputHolds.1.refresh := by
  have hReleased := manager.rewrites_mapStages fun _ stage => stage.releaseEmpty
  unfold releaseEmptyInputHolds
  simp only
  split
  · obtain ⟨_, _, hFirst, _⟩ :=
      (manager.mapStages fun _ stage => stage.releaseEmpty).rewrites_refresh
    obtain ⟨input, output, hSecond, _⟩ :=
      (manager.mapStages fun _ stage => stage.releaseEmpty).refresh.rewrites_refresh
    exact ⟨input, output, (hReleased.trans hFirst).trans hSecond⟩
  · obtain ⟨input, output, hOnce, _⟩ :=
      (manager.mapStages fun _ stage => stage.releaseEmpty).rewrites_refresh
    exact ⟨input, output, hReleased.trans hOnce⟩

/-- The scheduler cannot get stuck: in every state of a protocol run over a
well-formed graph in which no bundle is in flight, the sources are finished and
nothing is held, releasing the empty inputs and refreshing leaves the run
complete or a stage ready. -/
theorem isComplete_or_readyStages {specs : List StageSpec} (hGraph : WellFormed specs)
    {manager : WatermarkManager}
    (hRun : Runs.Reaches step (fun _ _ => True) (build specs) manager)
    (hIdle : ∀ id stage, manager.stages.lookup id = some stage → stage.inFlight = 0)
    (hFinished : ∀ id stage source, manager.stages.lookup id = some stage →
      stage.source = some source → source.finished = true)
    (hUnheld : ∀ id stage, manager.stages.lookup id = some stage → stage.minHold = none) :
    manager.releaseEmptyInputHolds.1.refresh.isComplete = true ∨
      manager.releaseEmptyInputHolds.1.refresh.readyStages ≠ [] := by
  have hProgressing : Progressing specs manager :=
    hRun.invariant (fun _ _ _ _ hStep hBefore => hBefore.effects (effects_of_step hStep))
      (Progressing.build hGraph.distinct)
  obtain ⟨input, output, hRewrites⟩ := manager.rewrites_releaseEmptyInputHolds
  have hRest : AtRest specs manager.releaseEmptyInputHolds.1.refresh := by
    refine ⟨(hProgressing.effects (effects_releaseEmptyInputHolds manager)).refresh, fun id stage => refresh_settled, ?_, ?_, ?_, ?_⟩
    all_goals
      intro id stage
    · intro hStage
      obtain ⟨old, hOld, rfl⟩ := hRewrites.exists_before hStage
      exact hIdle id old hOld
    · intro hStage
      obtain ⟨old, hOld, rfl⟩ := hRewrites.exists_before hStage
      exact hUnheld id old hOld
    · intro hStage
      obtain ⟨old, hOld, rfl⟩ := hRewrites.exists_before hStage
      rfl
    · intro source hStage hSource
      obtain ⟨old, hOld, rfl⟩ := hRewrites.exists_before hStage
      exact hFinished id old source hOld hSource
  by_cases hReady : manager.releaseEmptyInputHolds.1.refresh.readyStages = []
  · left
    rw [isComplete, List.all_eq_true]
    intro entry hEntry
    have hStage := AList.mem_lookup_iff.mpr hEntry
    obtain ⟨spec, hSpec, hId, _⟩ := hRest.progressing.shape.lookup _ _ hStage
    rw [← hId] at hStage
    exact (AtRest.released_of_readyStages_nil hGraph hRest hReady hSpec hStage).1
  · exact Or.inr hReady

/-- The source has read an empty input and finished; the aggregation has not
run. -/
def readFinished : WatermarkManager :=
  (Runs.play step (build [readStage, workStage .watermarkGated maxTimestamp 1]) [.startBundle "read",
    .completeBundle "read" none (some 0), .reportSourceFinished "read", .refresh]).getD new

theorem isComplete_or_readyStages_readFinished :
    readFinished.releaseEmptyInputHolds.1.refresh.isComplete = true ∨
      readFinished.releaseEmptyInputHolds.1.refresh.readyStages ≠ [] := by
  have hIdle : Forall (fun _ stage => stage.inFlight = 0) readFinished.stages :=
    forall_of_entries (by decide +kernel)
  have hFinished : Forall (fun _ stage => ∀ source ∈ stage.source, source.finished = true)
      readFinished.stages :=
    forall_of_entries (by decide +kernel)
  have hUnheld : Forall (fun _ stage => stage.minHold = none) readFinished.stages :=
    forall_of_entries (by decide +kernel)
  exact isComplete_or_readyStages (wellFormed_sourceThenWork true .watermarkGated (le_refl _) 1)
    (Runs.reaches_getD_play (fun _ _ => trivial) (by decide +kernel) new) hIdle
    (fun id stage source hStage hSource => hFinished id stage hStage source hSource) hUnheld

end WatermarkManager

end FlareDB
