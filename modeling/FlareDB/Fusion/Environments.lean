import FlareDB.Fusion.Starts

/-! The environment a fused transform runs in. -/
namespace FlareDB

open KeyedStore Worklist Results

/-- What the rewriting of the producers and the sanitizing of a stage keep. -/
structure ExecutableStage.RewrittenTo (stage rewritten : ExecutableStage) : Prop where
  environment : rewritten.environment = stage.environment
  transforms : ∀ id, id ∈ rewritten.transforms.map PTransformNode.id ↔
    id ∈ stage.transforms.map PTransformNode.id

/-- Sanitizing rewrites a stage. -/
theorem ExecutableStage.rewrittenTo_sanitize (stage : ExecutableStage) :
    stage.RewrittenTo (sanitizeDanglingPTransformInputs stage) :=
  ⟨sanitize_environment stage, sanitize_transform_ids stage⟩

/-- So does replacing its PCollections. -/
theorem ExecutableStage.rewrittenTo_update (stage : ExecutableStage)
    (originalToPartial : List (String × PCollectionNode)) :
    stage.RewrittenTo (stage.update originalToPartial) := by
  refine ⟨rfl, fun id => ?_⟩
  have hIds : (stage.transforms.map (PTransformNode.update originalToPartial)).map
      PTransformNode.id = stage.transforms.map PTransformNode.id := by
    rw [List.map_map]
    rfl
  exact Iff.of_eq (congrArg (id ∈ ·) hIds)

theorem ExecutableStage.RewrittenTo.trans {first second third : ExecutableStage}
    (h : first.RewrittenTo second) (hNext : second.RewrittenTo third) : first.RewrittenTo third :=
  ⟨hNext.environment.trans h.environment, fun id => (hNext.transforms id).trans (h.transforms id)⟩

namespace QueryablePipeline

variable {pipeline : QueryablePipeline}

/-- Deduplicating rewrites the stage and adds it to the others. -/
theorem deduplicateStage_stages {producers : List (PCollectionNode × StageOrTransform)}
    {state next : Deduplication} {stage : ExecutableStage}
    (h : deduplicateStage producers state stage = .ok next) :
    ∃ rewritten, stage.RewrittenTo rewritten ∧ next.stages = state.stages ++ [rewritten] := by
  obtain ⟨originalToPartial, _, hPure⟩ := bind_eq_ok h
  cases hPure
  refine ⟨_, ?_, rfl⟩
  split
  · exact ⟨rfl, fun _ => Iff.rfl⟩
  · exact stage.rewrittenTo_update originalToPartial

/-- Deduplicating a transform leaves the stages. -/
theorem deduplicateTransform_stages {producers : List (PCollectionNode × StageOrTransform)}
    {state next : Deduplication} {node : PTransformNode}
    (h : deduplicateTransform producers state node = .ok next) : next.stages = state.stages := by
  obtain ⟨originalToPartial, _, hPure⟩ := bind_eq_ok h
  cases hPure
  rfl

theorem foldlM_deduplicateStage_stages {producers : List (PCollectionNode × StageOrTransform)}
    {stages : List ExecutableStage} {state finish : Deduplication}
    (h : stages.foldlM (deduplicateStage producers) state = .ok finish) :
    ∃ rewritten, List.Forall₂ ExecutableStage.RewrittenTo stages rewritten ∧
      finish.stages = state.stages ++ rewritten := by
  induction stages generalizing state with
  | nil =>
      cases h
      exact ⟨[], .nil, (List.append_nil _).symm⟩
  | cons stage stages ih =>
      rw [List.foldlM_cons] at h
      obtain ⟨next, hNext, hRest⟩ := bind_eq_ok h
      obtain ⟨first, hFirst, hAdded⟩ := deduplicateStage_stages hNext
      obtain ⟨rest, hRewritten, hFinish⟩ := ih hRest
      refine ⟨first :: rest, .cons hFirst hRewritten, ?_⟩
      rw [hFinish, hAdded, List.append_assoc]
      rfl

/-- The stages of the fused pipeline are those fused, rewritten. -/
theorem ensureSingleProducer_sdkStages {stages : List ExecutableStage}
    {unfused : List PTransformNode} {fused : FusedPipeline}
    (h : pipeline.ensureSingleProducer stages unfused = .ok fused) :
    List.Forall₂ ExecutableStage.RewrittenTo stages fused.sdkStages := by
  obtain ⟨rewritten, hRewritten, hRest⟩ := bind_eq_ok h
  obtain ⟨deduplicated, hDeduplicated, hPure⟩ := bind_eq_ok hRest
  cases hPure
  obtain ⟨updated, hUpdated, hStages⟩ := foldlM_deduplicateStage_stages hRewritten
  have hSame : deduplicated.stages = rewritten.stages := by
    refine foldlM_invariant (fun state _ => state.stages = rewritten.stages) ?_ rfl
      hDeduplicated
    intro state node rest next hStep hState
    exact (deduplicateTransform_stages hStep).trans hState
  show List.Forall₂ _ _ (deduplicated.stages.map sanitizeDanglingPTransformInputs)
  rw [hSame, hStages, List.nil_append, List.forall₂_map_right_iff]
  exact hUpdated.imp fun _ updated hStage => hStage.trans updated.rewrittenTo_sanitize

/-- A consumer below an output of a root. -/
def RootConsumer (pipeline : QueryablePipeline) (consumer : CollectionConsumers) : Prop :=
  ∃ root ∈ pipeline.getRootTransforms, ∃ output ∈ pipeline.getOutputPcol root,
    pipeline.FusibleBelow output consumer

theorem RootConsumer.isConsumer {consumer : CollectionConsumers}
    (h : pipeline.RootConsumer consumer) : pipeline.IsConsumer consumer := by
  obtain ⟨root, _, output, hOutput, hBelow⟩ := h
  exact hBelow.isConsumer (isCollection_of_output hOutput)

/-- The consumers below a root are those below its outputs. -/
theorem getRootConsumers_fusible {fuel : Nat} {root : PTransformNode} {found : DescendantConsumers}
    (h : pipeline.getRootConsumers fuel root = done found) (consumer : CollectionConsumers) :
    consumer ∈ found.fusible ↔
      ∃ output ∈ pipeline.getOutputPcol root, pipeline.FusibleBelow output consumer := by
  obtain ⟨parts, hParts, hDone⟩ := bind_eq_done h
  cases done_inj hDone
  have hFinds := (mapM_eq_done hParts).imp fun _ _ hFound => getDescendantConsumers_eq_done hFound
  rw [mem_join_fusible]
  constructor
  · rintro ⟨part, hPart, hMem⟩
    obtain ⟨output, hOutput, hFound⟩ := forall₂_right hFinds hPart
    exact ⟨output, hOutput, (hFound.fusible consumer).mp hMem⟩
  · rintro ⟨output, hOutput, hBelow⟩
    obtain ⟨part, hPart, hFound⟩ := forall₂_left hFinds hOutput
    exact ⟨part, hPart, (hFound.fusible consumer).mpr hBelow⟩

/-- The stages of a fused pipeline, before the producers are rewritten. -/
theorem fuse_eq_done {fuel : Nat} {fused : FusedPipeline} (h : pipeline.fuse fuel = done fused) :
    ∃ state, pipeline.Fuses pipeline.RootConsumer state [] ∧
      pipeline.ensureSingleProducer state.stages state.unfused = .ok fused := by
  obtain ⟨descendants, hDescendants, hRest⟩ := bind_eq_done h
  obtain ⟨state, hRun, hSingle⟩ := bind_eq_done hRest
  have hFinds := (mapM_eq_done hDescendants).imp fun _ _ hFound => getRootConsumers_fusible hFound
  have hInitial (consumer : CollectionConsumers) :
      consumer ∈ descendants.flatMap DescendantConsumers.fusible ↔ pipeline.RootConsumer consumer := by
    rw [List.mem_flatMap]
    constructor
    · rintro ⟨found, hFound, hMem⟩
      obtain ⟨root, hRoot, hConsumers⟩ := forall₂_right hFinds hFound
      obtain ⟨output, hOutput, hBelow⟩ := (hConsumers consumer).mp hMem
      exact ⟨root, hRoot, output, hOutput, hBelow⟩
    · rintro ⟨root, hRoot, output, hOutput, hBelow⟩
      obtain ⟨found, hFound, hConsumers⟩ := forall₂_left hFinds hRoot
      exact ⟨found, hFound, (hConsumers consumer).mpr ⟨output, hOutput, hBelow⟩⟩
  have hConsumers : ∀ consumer ∈ descendants.flatMap DescendantConsumers.fusible,
      pipeline.IsConsumer consumer := fun consumer hMem => ((hInitial consumer).mp hMem).isConsumer
  refine ⟨state, ?_, attempt_eq_done hSingle⟩
  refine run_invariant (fun _ _ _ _ _ hVisit hFuses =>
    hFuses.visit (fun _ hRoot => hRoot.isConsumer) hVisit) ?_ hRun
  refine ⟨?_, List.forall_mem_nil _, List.forall_mem_nil _, ?_, List.forall_mem_nil _, rfl⟩
  · intro group hGroup
    have hIsGroup := isGroup_of_mem hConsumers hGroup
    exact ⟨⟨hIsGroup.nonempty, List.Subset.refl _, hIsGroup.key, hIsGroup.compatible⟩,
      fun consumer hMem => .root ((hInitial consumer).mp (hIsGroup.subset hMem))⟩
  · intro consumer hRoot
    obtain ⟨group, hGroup, hMem⟩ := groupSiblings_cover hConsumers ((hInitial consumer).mpr hRoot)
    exact Or.inr ⟨group, hGroup, hMem⟩

/-- Every transform of a stage that has an environment has that of the stage. -/
def OneEnvironment (pipeline : QueryablePipeline) (stage : ExecutableStage) : Prop :=
  ∀ id ∈ stage.transforms.map PTransformNode.id, ∀ transform,
    pipeline.components.transforms.lookup id = some transform → ∀ environment,
      pipeline.getEnvironment transform = some environment → environment = stage.environment

/-- A stage is extended into another environment: over a PCollection with a
consumer of that environment. -/
def CrossesEnvironments (pipeline : QueryablePipeline) : Prop :=
  ∃ start environment candidate node other, pipeline.Starts pipeline.RootConsumer start ∧
    pipeline.getEnvironment start.node.transform = some environment ∧
    pipeline.StageReaches [start.node] environment
      ([start.node].any transformHasSplittableProcessUrn) candidate ∧
    pipeline.extendsOver environment
      ([start.node].any transformHasSplittableProcessUrn) candidate = true ∧
    node ∈ pipeline.getPerElementConsumers candidate ∧
    pipeline.getEnvironment node.transform = some other ∧ other ≠ environment

/-- A transform that is let into a stage has the stage's urn, or is a Flatten. -/
theorem canFuseTransform_environment {node : PTransformNode} {environment other : Environment}
    {candidate : PCollectionNode}
    (h : pipeline.canFuseTransform node environment candidate = true)
    (hOther : pipeline.getEnvironment node.transform = some other) :
    other.urn = environment.urn ∨ node.getUrn = .flatten := by
  rw [canFuseTransform] at h
  split at h
  · rw [canFuseParDo, hOther] at h
    cases hSpec : node.transform.spec with
    | none =>
        rw [hSpec] at h
        cases h
    | some spec =>
        rw [hSpec] at h
        dsimp only at h
        split at h
        next hSame => exact Or.inl (of_decide_eq_true hSame)
        · cases h
  · split at h
    · rw [canFuseCompatibleEnv, hOther] at h
      exact Or.inl (of_decide_eq_true h)
    · exact Or.inr (of_decide_eq_true h)

/-- A collection is fused only when each of its consumers is let in. -/
theorem canFuseTransform_of_canFuse {candidate : PCollectionNode} {environment : Environment}
    (h : pipeline.canFuse candidate environment = .fuse) {node : PTransformNode}
    (hNode : node ∈ pipeline.getPerElementConsumers candidate) :
    pipeline.canFuseTransform node environment candidate = true := by
  rw [canFuse] at h
  split at h
  · cases h
  next hNone =>
    by_contra hCannot
    apply hNone
    refine List.any_eq_true.mpr ⟨node, hNode, ?_⟩
    rw [Bool.eq_false_iff.mpr hCannot]
    exact Bool.or_true _

/-- A stage is extended over a consumer of another environment only if that has the
URN of the stage's and differs elsewhere, or if the consumer is a Flatten that has
to be transcoded by another SDK. -/
theorem extendsOver_environment {environment other : Environment} {splittable : Bool}
    {candidate : PCollectionNode} (h : pipeline.extendsOver environment splittable candidate = true)
    {node : PTransformNode} (hNode : node ∈ pipeline.getPerElementConsumers candidate)
    (hOther : pipeline.getEnvironment node.transform = some other) :
    other.urn = environment.urn ∨ node.getUrn = .flatten := by
  rw [extendsOver, Bool.and_eq_true] at h
  exact canFuseTransform_environment (canFuseTransform_of_canFuse (of_decide_eq_true h.1) hNode)
    hOther

/-- Every transform of a fused stage runs in its own environment exactly when no
stage is extended into another one. -/
theorem oneEnvironment_iff {fuel : Nat} {fused : FusedPipeline}
    (h : pipeline.fuse fuel = done fused) :
    (∀ stage ∈ fused.sdkStages, pipeline.OneEnvironment stage) ↔
      ¬pipeline.CrossesEnvironments := by
  obtain ⟨state, hFuses, hSingle⟩ := fuse_eq_done h
  have hRewritten := ensureSingleProducer_sdkStages hSingle
  constructor
  · rintro hOne ⟨start, environment, candidate, node, other, hStarts, hStart, hReaches, hExtends,
      hNode, hOther, hDiffers⟩
    obtain ⟨stage, hStage, group, hStageOf, hMember⟩ :=
      hFuses.starts_stage (fun _ hRoot => hRoot.isConsumer) hStarts
    obtain ⟨rewritten, hMem, hKept⟩ := forall₂_left hRewritten hStage
    cases hStart.symm.trans (hStageOf.environment start hMember)
    have hPlaced : node.id ∈ stage.transforms.map PTransformNode.id := by
      apply (hStageOf.isStage.transforms node.id).mpr
      rw [hStageOf.siblings.splittable hMember]
      refine ⟨node, rfl, Or.inr ⟨candidate, hReaches.mono ?_, hExtends, hNode⟩⟩
      intro first hFirst
      rw [List.mem_singleton.mp hFirst]
      exact List.mem_map_of_mem hMember
    apply hDiffers
    rw [← hKept.environment]
    exact hOne rewritten hMem node.id ((hKept.transforms node.id).mpr hPlaced) node.transform
      (mem_nodes.mp (mem_nodes_of_consumer hNode)).2 other hOther
  · intro hNone rewritten hMem id hId transform hTransform environment hEnvironment
    obtain ⟨stage, hStage, hKept⟩ := forall₂_right hRewritten hMem
    obtain ⟨group, hStageOf⟩ := hFuses.stages stage hStage
    rw [hKept.environment]
    obtain ⟨node, rfl, hPlaces⟩ :=
      (hStageOf.isStage.transforms id).mp ((hKept.transforms id).mp hId)
    -- the transform of a node is the pipeline's own
    have hOwn (hNode : node ∈ pipeline.nodes) : transform = node.transform :=
      Option.some.inj (hTransform.symm.trans (mem_nodes.mp hNode).2)
    rcases hPlaces with hInitial | ⟨candidate, hReaches, hExtends, hConsumer⟩
    · obtain ⟨member, hMember, rfl⟩ := List.mem_map.mp hInitial
      have hConsumer := (hStageOf.starts member hMember).isConsumer fun _ hRoot => hRoot.isConsumer
      rw [hOwn hConsumer.2, hStageOf.environment member hMember] at hEnvironment
      exact (Option.some.inj hEnvironment).symm
    · obtain ⟨first, hFirst, hFrom⟩ := hReaches.of_initial
      obtain ⟨member, hMember, rfl⟩ := List.mem_map.mp hFirst
      rw [hStageOf.siblings.splittable hMember] at hFrom hExtends
      rw [hOwn (mem_nodes_of_consumer hConsumer)] at hEnvironment
      by_contra hDiffers
      exact hNone ⟨member, stage.environment, candidate, node, environment,
        hStageOf.starts member hMember, hStageOf.environment member hMember, hFrom, hExtends,
        hConsumer, hEnvironment, hDiffers⟩

/-- Impulse, then two ParDos in a row, in the two environments given. -/
def twoParDos (first second : Environment) : QueryablePipeline where
  components :=
    { transforms := ofPairs
        [("impulse", ⟨"impulse", some ⟨.impulse, .empty⟩, ofPairs [], ofPairs [("out", "start")], "", []⟩),
          ("read", ⟨"read", some ⟨.parDo, .parDo ⟨[], [], []⟩⟩, ofPairs [("in", "start")],
            ofPairs [("out", "lines")], "first", []⟩),
          ("parse", ⟨"parse", some ⟨.parDo, .parDo ⟨[], [], []⟩⟩, ofPairs [("in", "lines")],
            ofPairs [("out", "rows")], "second", []⟩)]
      pcollections := ofPairs
        [("start", ⟨"start", "bytes"⟩), ("lines", ⟨"lines", "bytes"⟩), ("rows", ⟨"rows", "bytes"⟩)]
      environments := ofPairs [("first", first), ("second", second)] }
  primitives := ["impulse", "read", "parse"]

theorem oneEnvironment_iff_twoParDos :
    ∃ fused, (twoParDos ⟨"docker", [1], []⟩ ⟨"process", [1], []⟩).fuse 20 = done fused ∧
      ((∀ stage ∈ fused.sdkStages,
          (twoParDos ⟨"docker", [1], []⟩ ⟨"process", [1], []⟩).OneEnvironment stage) ↔
        ¬(twoParDos ⟨"docker", [1], []⟩ ⟨"process", [1], []⟩).CrossesEnvironments) := by
  have hPasses : passes ((twoParDos ⟨"docker", [1], []⟩ ⟨"process", [1], []⟩).fuse 20)
      (fun _ => true) = true := by decide +kernel
  obtain ⟨fused, hFused, _⟩ := exists_done_of_passes hPasses
  exact ⟨fused, hFused, oneEnvironment_iff hFused⟩

/-- Two containers are different environments with one URN: the second ParDo is
fused into the stage of the first. -/
theorem not_oneEnvironment_twoContainers :
    ∃ fused, (twoParDos ⟨"docker", [1], []⟩ ⟨"docker", [2], []⟩).fuse 20 = done fused ∧
      ∃ stage ∈ fused.sdkStages,
        ¬(twoParDos ⟨"docker", [1], []⟩ ⟨"docker", [2], []⟩).OneEnvironment stage := by
  have hPasses : passes ((twoParDos ⟨"docker", [1], []⟩ ⟨"docker", [2], []⟩).fuse 20)
      (fun fused => fused.sdkStages.any fun stage => stage.environment = ⟨"docker", [1], []⟩ &&
        "parse" ∈ stage.transforms.map PTransformNode.id) = true := by decide +kernel
  obtain ⟨fused, hFused, hTest⟩ := exists_done_of_passes hPasses
  obtain ⟨stage, hStage, hPlaced⟩ := List.any_eq_true.mp hTest
  rw [Bool.and_eq_true] at hPlaced
  refine ⟨fused, hFused, stage, hStage, ?_⟩
  intro hOne
  have hSame := hOne "parse" (of_decide_eq_true hPlaced.2) _ rfl ⟨"docker", [2], []⟩ rfl
  rw [of_decide_eq_true hPlaced.1] at hSame
  exact absurd hSame (by decide)

end QueryablePipeline
end FlareDB
