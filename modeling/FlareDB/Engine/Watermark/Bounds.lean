import FlareDB.Engine.Watermark.Graph

/-! What bounds the watermarks of a stage along every run: its input watermark
stays at or below the output watermarks of its producers, its output watermark
at or below its holds while they stand, and a lifted barrier means that the
producer has completed. -/
namespace FlareDB

open KeyedStore

/-- A graph in which a PCollection has at most one producer, and in which only a
stage with main inputs reads side inputs. -/
structure SingleProducers (specs : List StageSpec) : Prop where
  distinct : (specs.map StageSpec.id).Nodup
  single : ∀ first ∈ specs, ∀ second ∈ specs, ∀ pcollection, pcollection ∈ first.outputs →
    pcollection ∈ second.outputs → first = second
  roots : ∀ spec ∈ specs, spec.mainInputs = [] → spec.sideInputs = []

/-- A graph in which a PCollection has at most one producer. -/
structure UniqueProducers (specs : List StageSpec) : Prop where
  distinct : (specs.map StageSpec.id).Nodup
  single : ∀ first ∈ specs, ∀ second ∈ specs, ∀ pcollection, pcollection ∈ first.outputs →
    pcollection ∈ second.outputs → first = second

/-- Single producers are unique ones. -/
theorem SingleProducers.unique {specs : List StageSpec} (h : SingleProducers specs) :
    UniqueProducers specs :=
  ⟨h.distinct, h.single⟩

namespace StageState

/-- The stage has recorded no completion of a PCollection's producer: it still
waits for it wherever it reads it, and has not seen it empty. -/
def Unseen (pcollection : PCollectionId) (stage : StageState) : Prop :=
  (pcollection ∈ stage.mainInputs → pcollection ∈ stage.unproduced) ∧
    (pcollection ∈ stage.sideInputs → pcollection ∈ stage.unproducedSideInputs) ∧
    pcollection ∉ stage.pendingEmpty

variable {stage : StageState} {pcollection : PCollectionId}

/-- Retouching a stage delivers nothing to it. -/
theorem Unseen.retouched {after : StageState} (h : stage.Unseen pcollection)
    (hTouched : stage.Retouched after) : after.Unseen pcollection := by
  rw [hTouched.same]
  exact h

/-- Nor does starting a bundle. -/
theorem Unseen.started (h : stage.Unseen pcollection) : stage.started.Unseen pcollection := by
  unfold StageState.started
  split <;> exact h

/-- Nor does releasing its empty inputs. -/
theorem Unseen.releaseEmpty (h : stage.Unseen pcollection) :
    stage.releaseEmpty.Unseen pcollection := by
  refine ⟨h.1, fun hSide => ?_, Finset.notMem_empty _⟩
  exact Finset.mem_filter.mpr ⟨h.2.1 hSide, fun hEmpty => h.2.2 hEmpty.1⟩

/-- A delivery of one PCollection leaves another unseen. -/
theorem Unseen.receiveMain {other : PCollectionId} (hNe : pcollection ≠ other) (isEmpty : Bool)
    (outputMin : Option Timestamp) (h : stage.Unseen pcollection) :
    (stage.receiveMain other isEmpty outputMin).Unseen pcollection := by
  unfold Unseen StageState.receiveMain at *
  cases stage.timeSortedInputClosed <;> cases isEmpty <;> simp_all

theorem Unseen.receiveSide {other : PCollectionId} (hNe : pcollection ≠ other) (isEmpty : Bool)
    (h : stage.Unseen pcollection) : (stage.receiveSide other isEmpty).Unseen pcollection := by
  unfold Unseen StageState.receiveSide at *
  cases isEmpty <;> simp_all

end StageState

namespace WatermarkManager

variable {manager after : WatermarkManager}

/-- Deliveries of other PCollections leave one unseen. -/
theorem unseen_foldl_deliver (isEmpty : Bool) (outputMin : Option Timestamp) (id : StageId)
    {pcollection : PCollectionId} {outputs : List PCollectionId} (hNew : pcollection ∉ outputs)
    {stage : StageState} (h : stage.Unseen pcollection) :
    (outputs.foldl (manager.deliver isEmpty outputMin id) stage).Unseen pcollection := by
  induction outputs generalizing stage with
  | nil => exact h
  | cons output rest ih =>
      rw [List.mem_cons, not_or] at hNew
      obtain ⟨hNe, hRest⟩ := hNew
      refine ih hRest ?_
      unfold deliver
      simp only
      split <;> split
      · exact (h.receiveMain hNe _ _).receiveSide hNe _
      · exact h.receiveSide hNe _
      · exact h.receiveMain hNe _ _
      · exact h

end WatermarkManager

/-- What bounds the watermarks of every stage of a manager over a graph. -/
structure Bounded (specs : List StageSpec) (manager : WatermarkManager) : Prop where
  shape : Shape specs manager
  floor : ∀ id stage, manager.stages.lookup id = some stage → minTimestamp ≤ stage.output
  lastRun_le : ∀ id stage, manager.stages.lookup id = some stage →
    stage.watermarkAtLastRun ≤ stage.input
  input_le : ∀ id stage, manager.stages.lookup id = some stage → stage.isSource = false →
    ∀ pcollection ∈ stage.inputs, stage.input ≤ manager.upstream pcollection
  unseen : ∀ id stage producerId producer pcollection,
    manager.stages.lookup id = some stage → manager.stages.lookup producerId = some producer →
    producer.completed = false → pcollection ∈ producer.outputs → stage.Unseen pcollection

namespace Bounded

open WatermarkManager

variable {specs : List StageSpec} {manager after : WatermarkManager}

/-- Where no output moves, no upstream watermark does. -/
theorem upstream_eq {f : StageId → StageState → StageState} (h : Rewrites f manager after)
    (hOutput : ∀ id stage, (f id stage).output = stage.output) (pcollection : PCollectionId) :
    after.upstream pcollection = manager.upstream pcollection := by
  unfold upstream producerOf
  rw [h.producers]
  cases manager.producers.lookup pcollection with
  | none => rfl
  | some id =>
      simp only [Option.bind_some]
      rw [h.lookup, Option.map_map]
      congr 2
      funext stage
      exact hOutput id stage

/-- A rewriting that leaves the watermarks alone keeps the bounds. -/
theorem rewrites {f : StageId → StageState → StageState} (h : Bounded specs manager)
    (hRewrites : Rewrites f manager after)
    (hWiring : ∀ id stage, (f id stage).wiring = stage.wiring)
    (hWatermarks : ∀ id stage, (f id stage).input = stage.input ∧
      (f id stage).output = stage.output)
    (hLastRun : ∀ id stage, stage.watermarkAtLastRun ≤ stage.input →
      (f id stage).watermarkAtLastRun ≤ stage.input)
    (hUnseen : ∀ id stage producerId producer pcollection,
      manager.stages.lookup id = some stage →
      manager.stages.lookup producerId = some producer →
      (f producerId producer).completed = false → pcollection ∈ producer.outputs →
      (f id stage).Unseen pcollection) : Bounded specs after := by
  have hFields : ∀ id stage, (f id stage).inputs = stage.inputs ∧
      (f id stage).outputs = stage.outputs ∧ (f id stage).isSource = stage.isSource := by
    intro id stage
    injection hWiring id stage with hMain hSide hOutputs hSource
    exact ⟨by rw [StageState.inputs, hMain, hSide]; rfl, hOutputs, hSource⟩
  refine ⟨h.shape.rewrites hRewrites hWiring, ?_, ?_, ?_, ?_⟩
  · intro id stage hStage
    obtain ⟨old, hOld, rfl⟩ := hRewrites.exists_before hStage
    rw [(hWatermarks id old).2]
    exact h.floor id old hOld
  · intro id stage hStage
    obtain ⟨old, hOld, rfl⟩ := hRewrites.exists_before hStage
    rw [(hWatermarks id old).1]
    exact hLastRun id old (h.lastRun_le id old hOld)
  · intro id stage hStage hSource pcollection hInput
    obtain ⟨old, hOld, rfl⟩ := hRewrites.exists_before hStage
    rw [(hFields id old).2.2] at hSource
    rw [(hFields id old).1] at hInput
    rw [(hWatermarks id old).1, upstream_eq hRewrites (fun id stage => (hWatermarks id stage).2)]
    exact h.input_le id old hOld hSource pcollection hInput
  · intro id stage producerId producer pcollection hStage hProducer hCompleted hOutput
    obtain ⟨old, hOld, rfl⟩ := hRewrites.exists_before hStage
    obtain ⟨oldProducer, hOldProducer, rfl⟩ := hRewrites.exists_before hProducer
    rw [(hFields producerId oldProducer).2.1] at hOutput
    exact hUnseen id old producerId oldProducer pcollection hOld hOldProducer hCompleted hOutput

/-- Starting a bundle moves no watermark, and records one at or below the input. -/
theorem started_fields (stage : StageState) :
    stage.started.input = stage.input ∧ stage.started.output = stage.output ∧
      stage.started.completed = stage.completed ∧
      (stage.watermarkAtLastRun ≤ stage.input → stage.started.watermarkAtLastRun ≤ stage.input) := by
  unfold StageState.started
  split
  · exact ⟨rfl, rfl, rfl, fun _ => min_le_left _ _⟩
  · exact ⟨rfl, rfl, rfl, fun h => h⟩

/-- Every change keeps the watermarks in their bounds. -/
theorem change (hGraph : UniqueProducers specs) (h : Bounded specs manager)
    (hChange : Change manager after) : Bounded specs after := by
  cases hChange with
  | retouched f hRewrites hTouched =>
      refine h.rewrites hRewrites (fun id stage => (hTouched id stage).wiring) ?_ ?_ ?_
      · intro id stage
        rw [(hTouched id stage).same]
        exact ⟨rfl, rfl⟩
      · intro id stage hLastRun
        rw [(hTouched id stage).same]
        exact hLastRun
      · intro id stage producerId producer pcollection hStage hProducer hCompleted hOutput
        rw [(hTouched producerId producer).same] at hCompleted
        exact (h.unseen id stage producerId producer pcollection hStage hProducer hCompleted
          hOutput).retouched (hTouched id stage)
  | started started _ _ _ hRewrites =>
      refine h.rewrites hRewrites ?_ ?_ ?_ ?_
      · intro id stage
        split <;> simp
      · intro id stage
        split
        · exact ⟨(started_fields stage).1, (started_fields stage).2.1⟩
        · exact ⟨rfl, rfl⟩
      · intro id stage hLastRun
        split
        · exact (started_fields stage).2.2.2 hLastRun
        · exact hLastRun
      · intro id stage producerId producer pcollection hStage hProducer hCompleted hOutput
        have hOld : producer.completed = false := by
          split at hCompleted
          · rwa [(started_fields producer).2.2.1] at hCompleted
          · exact hCompleted
        have hUnseen := h.unseen id stage producerId producer pcollection hStage hProducer hOld
          hOutput
        split
        · exact hUnseen.started
        · exact hUnseen
  | completed completed stage isEmpty outputMin hStage _ hRewrites =>
      refine h.rewrites hRewrites (manager.wiring_completion _ _ _ _) ?_ ?_ ?_
      · intro id current
        rw [(manager.received_completion completed stage.outputs isEmpty outputMin id current).same]
        split <;> exact ⟨rfl, rfl⟩
      · intro id current hLastRun
        rw [(manager.received_completion completed stage.outputs isEmpty outputMin id current).same]
        split <;> exact hLastRun
      · intro id current producerId producer pcollection hCurrent hProducer hCompleted hOutput
        rw [(manager.received_completion completed stage.outputs isEmpty outputMin producerId
          producer).same] at hCompleted
        -- A producer that has not completed is not the completing stage, so its
        -- output is not delivered now.
        by_cases hId : producerId = completed
        · rw [if_pos hId] at hCompleted
          cases hCompleted
        · rw [if_neg hId] at hCompleted
          have hNew : pcollection ∉ stage.outputs := by
            intro hDelivered
            obtain ⟨first, hFirst, hFirstId, hFirstWiring⟩ := h.shape.lookup _ _ hProducer
            obtain ⟨second, hSecond, hSecondId, hSecondWiring⟩ := h.shape.lookup _ _ hStage
            injection hFirstWiring with _ _ hFirstOutputs
            injection hSecondWiring with _ _ hSecondOutputs
            have hSame := hGraph.single first hFirst second hSecond pcollection
              (by rwa [← hFirstOutputs]) (by rwa [← hSecondOutputs])
            exact hId (by rw [← hFirstId, ← hSecondId, hSame])
          refine unseen_foldl_deliver _ _ _ hNew ?_
          have hUnseen := h.unseen id current producerId producer pcollection hCurrent hProducer
            hCompleted hOutput
          split <;> exact hUnseen
  | released hRewrites =>
      refine h.rewrites hRewrites (fun _ stage => stage.wiring_releaseEmpty)
        (fun _ _ => ⟨rfl, rfl⟩) (fun _ _ hLastRun => hLastRun) ?_
      intro id stage producerId producer pcollection hStage hProducer hCompleted hOutput
      exact (h.unseen id stage producerId producer pcollection hStage hProducer hCompleted
        hOutput).releaseEmpty

/-- Where outputs only rise, upstream watermarks do. -/
theorem upstream_le {f : StageId → StageState → StageState} (h : Rewrites f manager after)
    (hOutput : ∀ id stage, stage.output ≤ (f id stage).output) (pcollection : PCollectionId) :
    manager.upstream pcollection ≤ after.upstream pcollection := by
  unfold upstream producerOf
  rw [h.producers]
  cases manager.producers.lookup pcollection with
  | none => exact le_refl _
  | some id =>
      simp only [Option.bind_some]
      rw [h.lookup]
      cases manager.stages.lookup id with
      | none => exact le_refl _
      | some stage => exact hOutput id stage

/-- Advancing a stage keeps the bounds. -/
theorem advanceStage (h : Bounded specs manager) {id : StageId} {moved : StageState}
    (hMoved : manager.stages.lookup id = some moved) :
    Bounded specs (manager.advanceStage id moved) := by
  have hRewrites := manager.rewrites_modifyStage id fun stage =>
    stage.withWatermarks (max stage.input (manager.computeInput moved))
      (max stage.output (manager.computeOutput moved))
  have hRaised : ∀ (other : StageId) (stage : StageState), stage.output ≤ (if other = id then
      stage.withWatermarks (max stage.input (manager.computeInput moved))
        (max stage.output (manager.computeOutput moved)) else stage).output := by
    intro other stage
    split
    · exact le_max_left _ _
    · exact le_refl _
  refine ⟨h.shape.rewrites hRewrites ?_, ?_, ?_, ?_, ?_⟩
  · intro other stage
    split <;> rfl
  · intro other stage hStage
    obtain ⟨old, hOld, rfl⟩ := hRewrites.exists_before hStage
    exact (h.floor other old hOld).trans (hRaised other old)
  · intro other stage hStage
    obtain ⟨old, hOld, rfl⟩ := hRewrites.exists_before hStage
    split
    · exact (h.lastRun_le other old hOld).trans (le_max_left _ _)
    · exact h.lastRun_le other old hOld
  · intro other stage hStage hSource pcollection hInput
    refine le_trans ?_ (upstream_le hRewrites hRaised pcollection)
    obtain ⟨old, hOld, rfl⟩ := hRewrites.exists_before hStage
    by_cases hId : other = id
    · subst hId
      rw [if_pos rfl] at hSource hInput ⊢
      rw [hMoved] at hOld
      cases hOld
      refine max_le (h.input_le other moved hMoved hSource pcollection hInput) ?_
      have hNotSource : moved.isSource = false := hSource
      rw [computeInput, hNotSource]
      exact ((manager.le_upstreamMin_iff _ _).mp (le_refl _)).2 pcollection hInput
    · rw [if_neg hId] at hSource hInput ⊢
      exact h.input_le other old hOld hSource pcollection hInput
  · intro other stage producerId producer pcollection hStage hProducer hCompleted hOutput
    obtain ⟨old, hOld, rfl⟩ := hRewrites.exists_before hStage
    obtain ⟨oldProducer, hOldProducer, rfl⟩ := hRewrites.exists_before hProducer
    have hUnseen := h.unseen other old producerId oldProducer pcollection hOld hOldProducer
      (by split at hCompleted <;> exact hCompleted) (by split at hOutput <;> exact hOutput)
    split <;> exact hUnseen

/-- So does a refresh. -/
theorem refresh (h : Bounded specs manager) : Bounded specs manager.refresh :=
  refresh_induction (fun _ _ _ hMoved hCurrent => hCurrent.advanceStage hMoved) h

/-- So does every sequence of changes. -/
theorem effects (hGraph : UniqueProducers specs) (h : Bounded specs manager)
    (hEffects : Effects manager after) : Bounded specs after := by
  induction hEffects with
  | refl => exact h
  | tail _ hLast ih =>
      cases hLast with
      | changed hChange => exact ih.change hGraph hChange
      | refreshed hEq =>
          subst hEq
          exact ih.refresh

/-- A manager as built is in bounds. -/
theorem build (hGraph : UniqueProducers specs) : Bounded specs (WatermarkManager.build specs) := by
  refine ⟨shape_build hGraph.distinct, ?_, ?_, ?_, ?_⟩
  · intro id stage hStage
    obtain ⟨spec, _, _, rfl⟩ := lookup_build specs hStage
    exact le_refl _
  · intro id stage hStage
    obtain ⟨spec, _, _, rfl⟩ := lookup_build specs hStage
    simp only [StageSpec.state, StageState.init]
    split
    · exact minTimestamp_le_maxTimestamp
    · exact le_refl _
  · intro id stage hStage hSource pcollection _
    obtain ⟨spec, _, _, rfl⟩ := lookup_build specs hStage
    have hInput : spec.state.input = minTimestamp := by
      cases hInputs : spec.mainInputs.isEmpty <;>
        simp_all [StageSpec.state, StageState.init, StageState.isSource]
    rw [hInput, upstream]
    cases hProducer : (WatermarkManager.build specs).producerOf pcollection with
    | none => exact le_refl _
    | some producer =>
        obtain ⟨producerId, _, hLookup⟩ := Option.bind_eq_some_iff.mp hProducer
        obtain ⟨above, _, _, rfl⟩ := lookup_build specs hLookup
        exact le_refl _
  · intro id stage producerId producer pcollection hStage _ _ _
    obtain ⟨spec, _, _, rfl⟩ := lookup_build specs hStage
    simp [StageState.Unseen, StageSpec.state, StageState.init]

/-- A stage whose barriers are lifted has only completed producers. -/
theorem completed_of_unproduced (h : Bounded specs manager) {id producerId : StageId}
    {stage producer : StageState} (hStage : manager.stages.lookup id = some stage)
    (hProducer : manager.stages.lookup producerId = some producer) {pcollection : PCollectionId}
    (hOutput : pcollection ∈ producer.outputs) (hInput : pcollection ∈ stage.inputs)
    (hMain : stage.unproduced = ∅) (hSide : stage.unproducedSideInputs = ∅) :
    producer.completed = true := by
  cases hCompleted : producer.completed with
  | true => rfl
  | false =>
      obtain ⟨hMainUnseen, hSideUnseen, _⟩ :=
        h.unseen id stage producerId producer pcollection hStage hProducer hCompleted hOutput
      rcases List.mem_append.mp hInput with hRead | hRead
      · have hBlocked := hMainUnseen hRead
        rw [hMain] at hBlocked
        exact absurd hBlocked (Finset.notMem_empty _)
      · have hBlocked := hSideUnseen hRead
        rw [hSide] at hBlocked
        exact absurd hBlocked (Finset.notMem_empty _)

end Bounded

end FlareDB
