import FlareDB.Fusion.Fuser

/-! What a stage consists of once it has grown: the closure of its initial
transforms under the PCollections it is extended over. -/
namespace FlareDB

open KeyedStore Worklist

namespace QueryablePipeline

variable {pipeline : QueryablePipeline}

theorem mem_nodes {node : PTransformNode} : node ∈ pipeline.nodes ↔
    node.id ∈ pipeline.primitives ∧ pipeline.components.transforms.lookup node.id = some node.transform := by
  rw [nodes, List.mem_filterMap]
  constructor
  · rintro ⟨id, hId, hNode⟩
    obtain ⟨transform, hFound, rfl⟩ := Option.map_eq_some_iff.mp hNode
    exact ⟨List.mem_dedup.mp hId, hFound⟩
  · rintro ⟨hId, hFound⟩
    refine ⟨node.id, List.mem_dedup.mpr hId, ?_⟩
    rw [transformNode, hFound]
    rfl

/-- The id tells the nodes of the graph apart. -/
theorem node_eq_of_id {node other : PTransformNode} (hNode : node ∈ pipeline.nodes)
    (hOther : other ∈ pipeline.nodes) (hId : node.id = other.id) : node = other := by
  have hFirst := (mem_nodes.mp hNode).2
  rw [hId, (mem_nodes.mp hOther).2] at hFirst
  cases node
  cases other
  cases hId
  cases hFirst
  rfl

/-- A PCollection node as the pipeline has it. -/
def IsCollection (pipeline : QueryablePipeline) (collection : PCollectionNode) : Prop :=
  pipeline.components.pcollections.lookup collection.id = some collection.collection

theorem isCollection_of_pcollectionNode {id : String} {collection : PCollectionNode}
    (h : pipeline.pcollectionNode id = some collection) : pipeline.IsCollection collection := by
  obtain ⟨found, hFound, rfl⟩ := Option.map_eq_some_iff.mp h
  exact hFound

/-- Two collections of a pipeline with one id are one. -/
theorem collection_eq_of_id {collection other : PCollectionNode}
    (hCollection : pipeline.IsCollection collection) (hOther : pipeline.IsCollection other)
    (hId : collection.id = other.id) : collection = other := by
  rw [IsCollection, hId, hOther] at hCollection
  cases collection
  cases other
  cases hId
  cases hCollection
  rfl

/-- A consumer is a node of the pipeline. -/
theorem mem_nodes_of_consumer {collection : PCollectionNode} {node : PTransformNode}
    (h : node ∈ pipeline.getPerElementConsumers collection) : node ∈ pipeline.nodes :=
  (List.mem_filter.mp h).1

/-- An output is a collection of the pipeline. -/
theorem isCollection_of_output {node : PTransformNode} {collection : PCollectionNode}
    (h : collection ∈ pipeline.getOutputPcol node) : pipeline.IsCollection collection := by
  rw [getOutputPcol] at h
  split at h
  · cases h
  · obtain ⟨id, _, hFound⟩ := List.mem_filterMap.mp (List.mem_dedup.mp h)
    exact isCollection_of_pcollectionNode hFound

/-- The PCollections a stage handles: what its initial transforms produce, and
what the consumers of a PCollection produce that it is extended over. -/
inductive StageReaches (pipeline : QueryablePipeline) (initial : List PTransformNode)
    (environment : Environment) (splittable : Bool) : PCollectionNode → Prop
  | initial {node collection} (hNode : node ∈ initial)
      (hOutput : collection ∈ pipeline.getOutputPcol node) :
      StageReaches pipeline initial environment splittable collection
  | extend {candidate consumer collection}
      (hReaches : StageReaches pipeline initial environment splittable candidate)
      (hExtends : pipeline.extendsOver environment splittable candidate = true)
      (hConsumer : consumer ∈ pipeline.getPerElementConsumers candidate)
      (hOutput : collection ∈ pipeline.getOutputPcol consumer) :
      StageReaches pipeline initial environment splittable collection

/-- The transforms a stage runs. -/
def StagePlaces (pipeline : QueryablePipeline) (initial : List PTransformNode)
    (environment : Environment) (splittable : Bool) (node : PTransformNode) : Prop :=
  node ∈ initial ∨ ∃ candidate, pipeline.StageReaches initial environment splittable candidate ∧
    pipeline.extendsOver environment splittable candidate = true ∧
    node ∈ pipeline.getPerElementConsumers candidate

section Growth

variable {initial : List PTransformNode} {environment : Environment} {splittable : Bool}

theorem StageReaches.isCollection {collection : PCollectionNode}
    (h : pipeline.StageReaches initial environment splittable collection) :
    pipeline.IsCollection collection := by
  cases h with
  | initial _ hOutput => exact isCollection_of_output hOutput
  | extend _ _ _ hOutput => exact isCollection_of_output hOutput

/-- The invariant of the candidate loop. -/
structure Grows (pipeline : QueryablePipeline) (initial : List PTransformNode)
    (environment : Environment) (splittable : Bool) (state : StageGrowth)
    (queue : List PCollectionNode) : Prop where
  fused : ∀ collection ∈ state.fusedPcols,
    pipeline.StageReaches initial environment splittable collection ∧
      pipeline.extendsOver environment splittable collection = true
  materialized : ∀ collection ∈ state.materializedPcols,
    pipeline.StageReaches initial environment splittable collection ∧
      pipeline.extendsOver environment splittable collection = false
  pending : ∀ collection ∈ queue, pipeline.StageReaches initial environment splittable collection
  transforms : ∀ node, node ∈ state.fusedTransforms ↔
    node ∈ initial ∨ ∃ candidate ∈ state.fusedPcols, node ∈ pipeline.getPerElementConsumers candidate
  outputs : ∀ node ∈ state.fusedTransforms, ∀ collection ∈ pipeline.getOutputPcol node,
    collection ∈ state.fusedPcols ∨ collection ∈ state.materializedPcols ∨ collection ∈ queue

variable {state next : StageGrowth} {candidate : PCollectionNode}
  {queue more : List PCollectionNode}

/-- A stage that grows takes nodes of the pipeline only. -/
theorem Grows.transform_mem (hInitial : ∀ node ∈ initial, node ∈ pipeline.nodes)
    (h : pipeline.Grows initial environment splittable state queue) :
    ∀ node ∈ state.fusedTransforms, node ∈ pipeline.nodes := by
  intro node hNode
  rcases (h.transforms node).mp hNode with hFirst | ⟨found, _, hConsumer⟩
  · exact hInitial node hFirst
  · exact mem_nodes_of_consumer hConsumer

/-- A collection seen before adds nothing. -/
theorem Grows.skip (h : pipeline.Grows initial environment splittable state (candidate :: queue))
    (hSeen : candidate.id ∈ state.fusedPcols.map PCollectionNode.id ∨
      candidate.id ∈ state.materializedPcols.map PCollectionNode.id) :
    pipeline.Grows initial environment splittable state (queue ++ []) := by
  have hCandidate := (h.pending candidate (List.mem_cons_self ..)).isCollection
  have hMem : candidate ∈ state.fusedPcols ∨ candidate ∈ state.materializedPcols := by
    rcases hSeen with hFused | hMaterialized
    · obtain ⟨found, hFound, hId⟩ := List.mem_map.mp hFused
      exact Or.inl (collection_eq_of_id (h.fused found hFound).1.isCollection hCandidate hId ▸ hFound)
    · obtain ⟨found, hFound, hId⟩ := List.mem_map.mp hMaterialized
      exact Or.inr
        (collection_eq_of_id (h.materialized found hFound).1.isCollection hCandidate hId ▸ hFound)
  rw [List.append_nil]
  refine ⟨h.fused, h.materialized, fun collection hPending =>
    h.pending collection (List.mem_cons_of_mem _ hPending), h.transforms, ?_⟩
  intro node hNode collection hOutput
  rcases h.outputs node hNode collection hOutput with hFused | hMaterialized | hQueued
  · exact Or.inl hFused
  · exact Or.inr (Or.inl hMaterialized)
  · rcases List.mem_cons.mp hQueued with rfl | hLater
    · exact hMem.imp_right Or.inl
    · exact Or.inr (Or.inr hLater)

/-- A collection the stage cannot extend over is materialized. -/
theorem Grows.materialize
    (h : pipeline.Grows initial environment splittable state (candidate :: queue))
    (hBoundary : pipeline.extendsOver environment splittable candidate = false) :
    pipeline.Grows initial environment splittable
      { state with materializedPcols := state.materializedPcols ++ [candidate] } (queue ++ []) := by
  rw [List.append_nil]
  refine ⟨h.fused, ?_, fun collection hPending =>
    h.pending collection (List.mem_cons_of_mem _ hPending), h.transforms, ?_⟩
  · intro collection hMem
    rcases List.mem_append.mp hMem with hOld | hNew
    · exact h.materialized collection hOld
    · rw [List.mem_singleton.mp hNew]
      exact ⟨h.pending candidate (List.mem_cons_self ..), hBoundary⟩
  · intro node hNode collection hOutput
    rcases h.outputs node hNode collection hOutput with hFused | hMaterialized | hQueued
    · exact Or.inl hFused
    · exact Or.inr (Or.inl (List.mem_append_left _ hMaterialized))
    · rcases List.mem_cons.mp hQueued with rfl | hLater
      · exact Or.inr (Or.inl (List.mem_append_right _ (List.mem_singleton_self _)))
      · exact Or.inr (Or.inr hLater)

/-- One it can extend over is fused, with its consumers. -/
theorem Grows.extend (hInitial : ∀ node ∈ initial, node ∈ pipeline.nodes)
    (h : pipeline.Grows initial environment splittable state (candidate :: queue))
    (hExtends : pipeline.extendsOver environment splittable candidate = true)
    (sides : List SideInputRef) :
    pipeline.Grows initial environment splittable
      { state with
        sideInputs := sides
        fusedTransforms := IndexSet.extend PTransformNode.id state.fusedTransforms
          (pipeline.getPerElementConsumers candidate)
        fusedPcols := state.fusedPcols ++ [candidate] }
      (queue ++ (pipeline.getPerElementConsumers candidate).flatMap pipeline.getOutputPcol) := by
  have hCandidate := h.pending candidate (List.mem_cons_self ..)
  have hTransforms (node : PTransformNode) :
      node ∈ IndexSet.extend PTransformNode.id state.fusedTransforms
          (pipeline.getPerElementConsumers candidate) ↔
        node ∈ state.fusedTransforms ∨ node ∈ pipeline.getPerElementConsumers candidate :=
    IndexSet.mem_extend_iff (P := (· ∈ pipeline.nodes))
      (fun _ _ hNode hOther hId => node_eq_of_id hNode hOther hId) (h.transform_mem hInitial)
      fun _ hConsumer => mem_nodes_of_consumer hConsumer
  refine ⟨?_, h.materialized, ?_, ?_, ?_⟩
  · intro collection hMem
    rcases List.mem_append.mp hMem with hOld | hNew
    · exact h.fused collection hOld
    · rw [List.mem_singleton.mp hNew]
      exact ⟨hCandidate, hExtends⟩
  · intro collection hMem
    rcases List.mem_append.mp hMem with hOld | hNew
    · exact h.pending collection (List.mem_cons_of_mem _ hOld)
    · obtain ⟨consumer, hConsumer, hOutput⟩ := List.mem_flatMap.mp hNew
      exact hCandidate.extend hExtends hConsumer hOutput
  · intro node
    refine (hTransforms node).trans ?_
    rw [h.transforms]
    simp only [List.mem_append, List.mem_singleton, or_and_right, exists_or, exists_eq_left, or_assoc]
  · intro node hNode collection hOutput
    rcases (hTransforms node).mp hNode with hOld | hConsumer
    · rcases h.outputs node hOld collection hOutput with hFused | hMaterialized | hQueued
      · exact Or.inl (List.mem_append_left _ hFused)
      · exact Or.inr (Or.inl hMaterialized)
      · rcases List.mem_cons.mp hQueued with rfl | hLater
        · exact Or.inl (List.mem_append_right _ (List.mem_singleton_self _))
        · exact Or.inr (Or.inr (List.mem_append_left _ hLater))
    · exact Or.inr (Or.inr (List.mem_append_right _ (List.mem_flatMap.mpr ⟨node, hConsumer, hOutput⟩)))

/-- Visiting a candidate keeps the stage growing as it should. -/
theorem Grows.visit (hInitial : ∀ node ∈ initial, node ∈ pipeline.nodes)
    (hVisit : pipeline.visitCandidate environment splittable state candidate = done (next, more))
    (h : pipeline.Grows initial environment splittable state (candidate :: queue)) :
    pipeline.Grows initial environment splittable next (queue ++ more) := by
  rw [visitCandidate] at hVisit
  split at hVisit
  next hSeen =>
    cases done_inj hVisit
    exact h.skip hSeen
  · split at hVisit
    next hExtends =>
      obtain ⟨sides, _, hDone⟩ := bind_eq_done hVisit
      cases done_inj hDone
      exact h.extend hInitial hExtends _
    next hBoundary =>
      cases done_inj hVisit
      exact h.materialize (Bool.eq_false_iff.mpr hBoundary)

/-- It starts with the initial nodes and their outputs. -/
theorem grows_initial (hInitial : ∀ node ∈ initial, node ∈ pipeline.nodes)
    (refs : List (List SideInputRef × List UserStateRef × List TimerRef)) :
    pipeline.Grows initial environment splittable (initialGrowth initial refs)
      (initial.flatMap pipeline.getOutputPcol) := by
  have hTransforms (node : PTransformNode) :
      node ∈ IndexSet.extend PTransformNode.id [] initial ↔ node ∈ [] ∨ node ∈ initial :=
    IndexSet.mem_extend_iff (P := (· ∈ pipeline.nodes))
      (fun _ _ hNode hOther hId => node_eq_of_id hNode hOther hId) (List.forall_mem_nil _) hInitial
  refine ⟨(fun _ hMem => nomatch hMem), (fun _ hMem => nomatch hMem), ?_, ?_, ?_⟩
  · intro collection hMem
    obtain ⟨node, hNode, hOutput⟩ := List.mem_flatMap.mp hMem
    exact .initial hNode hOutput
  · intro node
    refine (hTransforms node).trans ?_
    simp [initialGrowth]
  · intro node hNode collection hOutput
    rcases (hTransforms node).mp hNode with hMem | hMem
    · cases hMem
    · exact Or.inr (Or.inr (List.mem_flatMap.mpr ⟨node, hMem, hOutput⟩))

/-- Once the queue is empty, everything the stage reaches has been handled. -/
theorem Grows.reached (h : pipeline.Grows initial environment splittable state [])
    {collection : PCollectionNode}
    (hReaches : pipeline.StageReaches initial environment splittable collection) :
    collection ∈ state.fusedPcols ∨ collection ∈ state.materializedPcols := by
  have hHandled {node : PTransformNode} (hNode : node ∈ state.fusedTransforms)
      {output : PCollectionNode} (hOutput : output ∈ pipeline.getOutputPcol node) :
      output ∈ state.fusedPcols ∨ output ∈ state.materializedPcols := by
    rcases h.outputs node hNode output hOutput with hFused | hMaterialized | hQueued
    · exact Or.inl hFused
    · exact Or.inr hMaterialized
    · cases hQueued
  induction hReaches with
  | initial hNode hOutput => exact hHandled ((h.transforms _).mpr (Or.inl hNode)) hOutput
  | @extend candidate consumer collection hReaches hExtends hConsumer hOutput ih =>
      rcases ih with hFused | hMaterialized
      · exact hHandled ((h.transforms _).mpr (Or.inr ⟨candidate, hFused, hConsumer⟩)) hOutput
      · rw [(h.materialized candidate hMaterialized).2] at hExtends
        cases hExtends

/-- A finished stage has fused exactly the collections it reaches and can extend
over. -/
theorem Grows.mem_fused_iff (h : pipeline.Grows initial environment splittable state [])
    {collection : PCollectionNode} : collection ∈ state.fusedPcols ↔
      pipeline.StageReaches initial environment splittable collection ∧
        pipeline.extendsOver environment splittable collection = true := by
  constructor
  · exact h.fused collection
  · rintro ⟨hReaches, hExtends⟩
    rcases h.reached hReaches with hFused | hMaterialized
    · exact hFused
    · rw [(h.materialized collection hMaterialized).2] at hExtends
      cases hExtends

/-- It has materialized exactly those it reaches and cannot. -/
theorem Grows.mem_materialized_iff (h : pipeline.Grows initial environment splittable state [])
    {collection : PCollectionNode} : collection ∈ state.materializedPcols ↔
      pipeline.StageReaches initial environment splittable collection ∧
        pipeline.extendsOver environment splittable collection = false := by
  constructor
  · exact h.materialized collection
  · rintro ⟨hReaches, hBoundary⟩
    rcases h.reached hReaches with hFused | hMaterialized
    · rw [(h.fused collection hFused).2] at hBoundary
      cases hBoundary
    · exact hMaterialized

/-- It has taken exactly the transforms that are placed in it. -/
theorem Grows.mem_transforms_iff (h : pipeline.Grows initial environment splittable state [])
    {node : PTransformNode} :
    node ∈ state.fusedTransforms ↔ pipeline.StagePlaces initial environment splittable node := by
  rw [h.transforms, StagePlaces]
  constructor
  · rintro (hFirst | ⟨candidate, hFused, hConsumer⟩)
    · exact Or.inl hFirst
    · obtain ⟨hReaches, hExtends⟩ := h.mem_fused_iff.mp hFused
      exact Or.inr ⟨candidate, hReaches, hExtends, hConsumer⟩
  · rintro (hFirst | ⟨candidate, hReaches, hExtends, hConsumer⟩)
    · exact Or.inl hFirst
    · exact Or.inr ⟨candidate, h.mem_fused_iff.mpr ⟨hReaches, hExtends⟩, hConsumer⟩

end Growth

/-- The environment of a stage is that of its first node. -/
theorem getStageEnvironment_eq_ok {initial : List PTransformNode} {environment : Environment}
    (h : pipeline.getStageEnvironment initial = .ok environment) :
    ∃ first rest, initial = first :: rest ∧
      pipeline.getEnvironment first.transform = some environment := by
  cases initial with
  | nil => cases h
  | cons first rest =>
      obtain ⟨found, hFound, hRest⟩ := Results.bind_eq_ok h
      obtain ⟨_, _, hPure⟩ := Results.bind_eq_ok hRest
      cases hPure
      rw [nodeEnvironment] at hFound
      split at hFound
      next hEnvironment =>
        cases hFound
        exact ⟨first, rest, rfl, hEnvironment⟩
      · cases hFound

theorem stageStart_eq_ok {initial : List PTransformNode} {environment : Environment}
    {refs : List (List SideInputRef × List UserStateRef × List TimerRef)}
    (h : pipeline.stageStart initial = .ok (environment, refs)) :
    pipeline.getStageEnvironment initial = .ok environment ∧
      initial.mapM pipeline.transformRefs = .ok refs := by
  obtain ⟨found, hFound, hRest⟩ := Results.bind_eq_ok h
  obtain ⟨collected, hCollected, hPure⟩ := Results.bind_eq_ok hRest
  cases hPure
  exact ⟨hFound, hCollected⟩

end QueryablePipeline

/-! Sanitizing a stage drops inputs of its transforms, and nothing else that
other stages see. -/

/-- Sanitizing inputs keeps the transforms' ids. -/
theorem transform_ids_sanitize (dangling : List String) (nodes : List PTransformNode) (id : String) :
    id ∈ (IndexSet.extend PTransformNode.id []
        (nodes.map (PTransformNode.sanitize dangling))).map PTransformNode.id ↔
      id ∈ nodes.map PTransformNode.id := by
  rw [IndexSet.mem_keys_extend, List.map_map]
  exact or_iff_right List.not_mem_nil

theorem sanitize_transform_ids (stage : ExecutableStage) (id : String) :
    id ∈ (sanitizeDanglingPTransformInputs stage).transforms.map PTransformNode.id ↔
      id ∈ stage.transforms.map PTransformNode.id := by
  rw [sanitizeDanglingPTransformInputs]
  dsimp only
  split
  · exact Iff.rfl
  · exact transform_ids_sanitize _ stage.transforms id

@[simp] theorem sanitize_id (stage : ExecutableStage) :
    (sanitizeDanglingPTransformInputs stage).id = stage.id := by
  rw [sanitizeDanglingPTransformInputs]
  dsimp only
  split <;> rfl

@[simp] theorem sanitize_environment (stage : ExecutableStage) :
    (sanitizeDanglingPTransformInputs stage).environment = stage.environment := by
  rw [sanitizeDanglingPTransformInputs]
  dsimp only
  split <;> rfl

@[simp] theorem sanitize_outputPcols (stage : ExecutableStage) :
    (sanitizeDanglingPTransformInputs stage).outputPcols = stage.outputPcols := by
  rw [sanitizeDanglingPTransformInputs]
  dsimp only
  split <;> rfl

namespace QueryablePipeline

variable {pipeline : QueryablePipeline}

/-- What a fused stage is. -/
structure IsStage (pipeline : QueryablePipeline) (initial : List PTransformNode)
    (environment : Environment) (stage : ExecutableStage) : Prop where
  stageEnvironment : stage.environment = environment
  outputs : ∀ collection, collection ∈ stage.outputPcols ↔
    pipeline.StageReaches initial environment (initial.any transformHasSplittableProcessUrn)
        collection ∧
      pipeline.extendsOver environment (initial.any transformHasSplittableProcessUrn)
        collection = false
  transforms : ∀ id, id ∈ stage.transforms.map PTransformNode.id ↔
    ∃ node, node.id = id ∧ pipeline.StagePlaces initial environment
      (initial.any transformHasSplittableProcessUrn) node

/-- A stage that is done is a finished growth from its initial nodes. -/
theorem fuseStage_eq_done {fuel id : Nat} {inputPcol : PCollectionNode}
    {initial : List PTransformNode} {stage : ExecutableStage}
    (hInitial : ∀ node ∈ initial, node ∈ pipeline.nodes)
    (h : pipeline.fuseStage fuel id inputPcol initial = done stage) :
    stage.id = id ∧ ∃ environment, pipeline.getStageEnvironment initial = .ok environment ∧
      pipeline.IsStage initial environment stage := by
  obtain ⟨⟨environment, refs⟩, hStart, hRest⟩ := bind_eq_done h
  obtain ⟨grown, hRun, hDone⟩ := bind_eq_done hRest
  cases done_inj hDone
  have hGrown : pipeline.Grows initial environment
      (initial.any transformHasSplittableProcessUrn) grown [] :=
    run_invariant (fun _ _ _ _ _ hVisit hGrows => hGrows.visit hInitial hVisit)
      (grows_initial hInitial refs) hRun
  refine ⟨sanitize_id _, environment, (stageStart_eq_ok (attempt_eq_done hStart)).1,
    sanitize_environment _, ?_, ?_⟩
  · intro collection
    rw [sanitize_outputPcols]
    exact hGrown.mem_materialized_iff
  · intro nodeId
    rw [sanitize_transform_ids, List.mem_map]
    constructor
    · rintro ⟨node, hNode, hId⟩
      exact ⟨node, hId, hGrown.mem_transforms_iff.mp hNode⟩
    · rintro ⟨node, hId, hPlaces⟩
      exact ⟨node, hGrown.mem_transforms_iff.mpr hPlaces, hId⟩

end QueryablePipeline
end FlareDB
