import FlareDB.Fusion.Siblings

/-! Where stages start. Every consumer of an SDK that is below a root, or below
an output of a stage, starts a stage together with its siblings, and no other
consumer does. -/
namespace FlareDB

open KeyedStore Worklist Results

namespace QueryablePipeline

variable {pipeline : QueryablePipeline}

/-- From a PCollection down to another through transforms of the runner. -/
inductive Descends (pipeline : QueryablePipeline) : PCollectionNode → PCollectionNode → Prop
  | here (collection) : Descends pipeline collection collection
  | through {collection consumer output below}
      (hConsumer : consumer ∈ pipeline.getPerElementConsumers collection)
      (hRunner : pipeline.getEnvironment consumer.transform = none)
      (hOutput : output ∈ pipeline.getOutputPcol consumer)
      (hBelow : Descends pipeline output below) : Descends pipeline collection below

def FusibleBelow (pipeline : QueryablePipeline) (collection : PCollectionNode)
    (consumer : CollectionConsumers) : Prop :=
  pipeline.Descends collection consumer.collection ∧
    consumer.node ∈ pipeline.getPerElementConsumers consumer.collection ∧
    (pipeline.getEnvironment consumer.node.transform).isSome = true

def UnfusibleBelow (pipeline : QueryablePipeline) (collection : PCollectionNode)
    (node : PTransformNode) : Prop :=
  ∃ below, pipeline.Descends collection below ∧ node ∈ pipeline.getPerElementConsumers below ∧
    pipeline.getEnvironment node.transform = none

theorem Descends.isCollection {collection below : PCollectionNode}
    (h : pipeline.Descends collection below) (hCollection : pipeline.IsCollection collection) :
    pipeline.IsCollection below := by
  induction h with
  | here => exact hCollection
  | through _ _ hOutput _ ih => exact ih (isCollection_of_output hOutput)

theorem FusibleBelow.isConsumer {collection : PCollectionNode} {consumer : CollectionConsumers}
    (h : pipeline.FusibleBelow collection consumer) (hCollection : pipeline.IsCollection collection) :
    pipeline.IsConsumer consumer :=
  ⟨h.1.isCollection hCollection, mem_nodes_of_consumer h.2.1⟩

/-- What the search below a PCollection finds. -/
structure FindsBelow (pipeline : QueryablePipeline) (collection : PCollectionNode)
    (found : DescendantConsumers) : Prop where
  fusible : ∀ consumer, consumer ∈ found.fusible ↔ pipeline.FusibleBelow collection consumer
  unfusible : ∀ node, node ∈ found.unfusible ↔ pipeline.UnfusibleBelow collection node

/-- What is found below is found in one of the parts. -/
theorem mem_join_fusible {parts : List DescendantConsumers} {consumer : CollectionConsumers} :
    consumer ∈ (DescendantConsumers.join parts).fusible ↔ ∃ part ∈ parts, consumer ∈ part.fusible :=
  List.mem_flatMap

theorem mem_join_unfusible {parts : List DescendantConsumers} {node : PTransformNode} :
    node ∈ (DescendantConsumers.join parts).unfusible ↔ ∃ part ∈ parts, node ∈ part.unfusible :=
  List.mem_flatMap

/-- What one consumer contributes to the search below its PCollection. -/
structure Contributes (pipeline : QueryablePipeline) (collection : PCollectionNode)
    (node : PTransformNode) (part : DescendantConsumers) : Prop where
  fusible : ∀ consumer, consumer ∈ part.fusible ↔
    consumer = ⟨collection, node⟩ ∧ (pipeline.getEnvironment node.transform).isSome = true ∨
      pipeline.getEnvironment node.transform = none ∧
        ∃ output ∈ pipeline.getOutputPcol node, pipeline.FusibleBelow output consumer
  unfusible : ∀ other, other ∈ part.unfusible ↔
    pipeline.getEnvironment node.transform = none ∧
      (other = node ∨ ∃ output ∈ pipeline.getOutputPcol node, pipeline.UnfusibleBelow output other)

/-- The parts of all consumers are what is below the collection. -/
theorem findsBelow_join {collection : PCollectionNode} {parts : List DescendantConsumers}
    (h : List.Forall₂ (pipeline.Contributes collection)
      (pipeline.getPerElementConsumers collection) parts) :
    pipeline.FindsBelow collection (DescendantConsumers.join parts) := by
  constructor
  · intro consumer
    rw [mem_join_fusible]
    constructor
    · rintro ⟨part, hPart, hMem⟩
      obtain ⟨node, hNode, hContributes⟩ := forall₂_right h hPart
      rcases (hContributes.fusible consumer).mp hMem with ⟨rfl, hSome⟩ | ⟨hRunner, output, hOutput, hBelow⟩
      · exact ⟨.here collection, hNode, hSome⟩
      · exact ⟨.through hNode hRunner hOutput hBelow.1, hBelow.2⟩
    · rintro ⟨hDescends, hNode, hSome⟩
      generalize hEnd : consumer.collection = below at hDescends
      cases hDescends with
      | here =>
          rw [hEnd] at hNode
          obtain ⟨part, hPart, hContributes⟩ := forall₂_left h hNode
          refine ⟨part, hPart, (hContributes.fusible consumer).mpr (Or.inl ⟨?_, hSome⟩)⟩
          cases consumer
          cases hEnd
          rfl
      | @through _ first output _ hConsumer hRunner hOutput hBelow =>
          obtain ⟨part, hPart, hContributes⟩ := forall₂_left h hConsumer
          exact ⟨part, hPart, (hContributes.fusible consumer).mpr
            (Or.inr ⟨hRunner, output, hOutput, hEnd ▸ hBelow, hNode, hSome⟩)⟩
  · intro node
    rw [mem_join_unfusible]
    constructor
    · rintro ⟨part, hPart, hMem⟩
      obtain ⟨first, hFirst, hContributes⟩ := forall₂_right h hPart
      obtain ⟨hRunner, hEither⟩ := (hContributes.unfusible node).mp hMem
      rcases hEither with rfl | ⟨output, hOutput, below, hBelow, hNode⟩
      · exact ⟨collection, .here collection, hFirst, hRunner⟩
      · exact ⟨below, .through hFirst hRunner hOutput hBelow, hNode⟩
    · rintro ⟨below, hDescends, hNode, hNone⟩
      cases hDescends with
      | here =>
          obtain ⟨part, hPart, hContributes⟩ := forall₂_left h hNode
          exact ⟨part, hPart, (hContributes.unfusible node).mpr ⟨hNone, Or.inl rfl⟩⟩
      | @through _ first output _ hConsumer hRunner hOutput hBelow =>
          obtain ⟨part, hPart, hContributes⟩ := forall₂_left h hConsumer
          exact ⟨part, hPart, (hContributes.unfusible node).mpr
            ⟨hRunner, Or.inr ⟨output, hOutput, below, hBelow, hNode, hNone⟩⟩⟩

/-- A search that is done has found what is below. -/
theorem getDescendantConsumers_eq_done {fuel : Nat} {collection : PCollectionNode}
    {found : DescendantConsumers}
    (h : pipeline.getDescendantConsumers fuel collection = done found) :
    pipeline.FindsBelow collection found := by
  induction fuel generalizing collection found with
  | zero => cases h
  | succ fuel ih =>
      obtain ⟨parts, hParts, hDone⟩ := bind_eq_done h
      cases done_inj hDone
      apply findsBelow_join
      apply (mapM_eq_done hParts).imp
      intro node part hPart
      cases hEnvironment : pipeline.getEnvironment node.transform with
      | some environment =>
          rw [hEnvironment] at hPart
          cases done_inj hPart
          constructor
          · intro consumer
            rw [hEnvironment]
            simp
          · intro other
            rw [hEnvironment]
            simp
      | none =>
          rw [hEnvironment] at hPart
          obtain ⟨below, hBelow, hJoined⟩ := bind_eq_done hPart
          cases done_inj hJoined
          have hFinds := (mapM_eq_done hBelow).imp fun _ _ hFound => ih hFound
          constructor
          · intro consumer
            rw [mem_join_fusible, hEnvironment]
            constructor
            · rintro ⟨part, hPart, hMem⟩
              rcases List.mem_cons.mp hPart with rfl | hPart
              · cases hMem
              · obtain ⟨output, hOutput, hFound⟩ := forall₂_right hFinds hPart
                exact Or.inr ⟨rfl, output, hOutput, (hFound.fusible consumer).mp hMem⟩
            · rintro (⟨_, hSome⟩ | ⟨_, output, hOutput, hFusible⟩)
              · cases hSome
              · obtain ⟨part, hPart, hFound⟩ := forall₂_left hFinds hOutput
                exact ⟨part, List.mem_cons_of_mem _ hPart, (hFound.fusible consumer).mpr hFusible⟩
          · intro other
            rw [mem_join_unfusible, hEnvironment]
            constructor
            · rintro ⟨part, hPart, hMem⟩
              rcases List.mem_cons.mp hPart with rfl | hPart
              · exact ⟨rfl, Or.inl (List.mem_singleton.mp hMem)⟩
              · obtain ⟨output, hOutput, hFound⟩ := forall₂_right hFinds hPart
                exact ⟨rfl, Or.inr ⟨output, hOutput, (hFound.unfusible other).mp hMem⟩⟩
            · rintro ⟨_, rfl | ⟨output, hOutput, hUnfusible⟩⟩
              · exact ⟨_, List.mem_cons_self .., List.mem_singleton_self _⟩
              · obtain ⟨part, hPart, hFound⟩ := forall₂_left hFinds hOutput
                exact ⟨part, List.mem_cons_of_mem _ hPart, (hFound.unfusible other).mpr hUnfusible⟩

/-- The consumers at which stages start, from those below the roots on: a stage
that starts at a consumer runs in its environment. -/
inductive Starts (pipeline : QueryablePipeline) (roots : CollectionConsumers → Prop) :
    CollectionConsumers → Prop
  | root {consumer} (hRoot : roots consumer) : Starts pipeline roots consumer
  | after {consumer environment output next} (hStarts : Starts pipeline roots consumer)
      (hEnvironment : pipeline.getEnvironment consumer.node.transform = some environment)
      (hReaches : pipeline.StageReaches [consumer.node] environment
        ([consumer.node].any transformHasSplittableProcessUrn) output)
      (hBoundary : pipeline.extendsOver environment
        ([consumer.node].any transformHasSplittableProcessUrn) output = false)
      (hNext : pipeline.FusibleBelow output next) : Starts pipeline roots next

section Loop

variable {roots : CollectionConsumers → Prop}

/-- A stage reaches what it would reach from one of its initial transforms. -/
theorem StageReaches.of_initial {initial : List PTransformNode} {environment : Environment}
    {splittable : Bool} {collection : PCollectionNode}
    (h : pipeline.StageReaches initial environment splittable collection) :
    ∃ node ∈ initial, pipeline.StageReaches [node] environment splittable collection := by
  induction h with
  | initial hNode hOutput => exact ⟨_, hNode, .initial (List.mem_singleton_self _) hOutput⟩
  | extend _ hExtends hConsumer hOutput ih =>
      obtain ⟨node, hNode, hReaches⟩ := ih
      exact ⟨node, hNode, hReaches.extend hExtends hConsumer hOutput⟩

/-- A stage that starts with more reaches more. -/
theorem StageReaches.mono {initial larger : List PTransformNode} {environment : Environment}
    {splittable : Bool} {collection : PCollectionNode} (hSubset : initial ⊆ larger)
    (h : pipeline.StageReaches initial environment splittable collection) :
    pipeline.StageReaches larger environment splittable collection := by
  induction h with
  | initial hNode hOutput => exact .initial (hSubset hNode) hOutput
  | extend _ hExtends hConsumer hOutput ih => exact ih.extend hExtends hConsumer hOutput

/-- A group of siblings with a stage of its own. -/
structure StageOf (pipeline : QueryablePipeline) (roots : CollectionConsumers → Prop)
    (group : List CollectionConsumers) (stage : ExecutableStage) : Prop where
  siblings : pipeline.IsGroup group group
  starts : ∀ consumer ∈ group, pipeline.Starts roots consumer
  environment : ∀ consumer ∈ group,
    pipeline.getEnvironment consumer.node.transform = some stage.environment
  isStage : pipeline.IsStage (group.map CollectionConsumers.node) stage.environment stage

/-- A consumer that has been fused, or is in a group still to be fused. -/
def Handled (state : FuserState) (queue : List (List CollectionConsumers))
    (consumer : CollectionConsumers) : Prop :=
  consumer.key ∈ state.consumedPairs ∨ ∃ group ∈ queue, consumer ∈ group

/-- The invariant of the loop over the groups of siblings. -/
structure Fuses (pipeline : QueryablePipeline) (roots : CollectionConsumers → Prop)
    (state : FuserState) (queue : List (List CollectionConsumers)) : Prop where
  queued : ∀ group ∈ queue, pipeline.IsGroup group group ∧
    ∀ consumer ∈ group, pipeline.Starts roots consumer
  stages : ∀ stage ∈ state.stages, ∃ group, pipeline.StageOf roots group stage
  consumed : ∀ key ∈ state.consumedPairs, ∃ stage ∈ state.stages, ∃ group,
    pipeline.StageOf roots group stage ∧ key ∈ group.map CollectionConsumers.key
  roots : ∀ consumer, roots consumer → Handled state queue consumer
  below : ∀ stage ∈ state.stages, ∀ output ∈ stage.outputPcols, ∀ consumer,
    pipeline.FusibleBelow output consumer → Handled state queue consumer
  ids : state.stages.map ExecutableStage.id = List.range state.stages.length

/-- A stage starts at consumers of the pipeline. -/
theorem Starts.isConsumer (hRoots : ∀ consumer, roots consumer → pipeline.IsConsumer consumer)
    {consumer : CollectionConsumers} (h : pipeline.Starts roots consumer) :
    pipeline.IsConsumer consumer := by
  cases h with
  | root hRoot => exact hRoots consumer hRoot
  | after _ _ hReaches _ hNext => exact hNext.isConsumer hReaches.isCollection

/-- Siblings are fused into a stage in the environment they share. -/
theorem stageOf_fuseSiblings (hRoots : ∀ consumer, roots consumer → pipeline.IsConsumer consumer)
    {fuel id : Nat} {group : List CollectionConsumers} {stage : ExecutableStage}
    (hGroup : pipeline.IsGroup group group)
    (hStarts : ∀ consumer ∈ group, pipeline.Starts roots consumer)
    (h : pipeline.fuseSiblings fuel id group = done stage) :
    stage.id = id ∧ pipeline.StageOf roots group stage := by
  cases group with
  | nil => exact absurd rfl hGroup.nonempty
  | cons first rest =>
      have hInitial : ∀ node ∈ (first :: rest).map CollectionConsumers.node, node ∈ pipeline.nodes := by
        intro node hNode
        obtain ⟨consumer, hConsumer, rfl⟩ := List.mem_map.mp hNode
        exact ((hStarts consumer hConsumer).isConsumer hRoots).2
      obtain ⟨hId, environment, hEnvironment, hStage⟩ := fuseStage_eq_done hInitial h
      obtain ⟨node, others, hNodes, hFirst⟩ := getStageEnvironment_eq_ok hEnvironment
      cases hNodes
      refine ⟨hId, hGroup, hStarts, ?_, hStage.stageEnvironment ▸ hStage⟩
      intro consumer hConsumer
      have hKey := hGroup.key consumer hConsumer first (List.mem_cons_self ..)
      rw [hStage.stageEnvironment, ← hFirst]
      exact congrArg SiblingKey.env hKey

/-- A consumer that was handled stays so. -/
theorem Handled.mono {state next : FuserState} {queue rest : List (List CollectionConsumers)}
    {consumer : CollectionConsumers} (h : Handled state queue consumer)
    (hConsumed : state.consumedPairs ⊆ next.consumedPairs)
    (hQueue : ∀ group ∈ queue, consumer ∈ group →
      consumer.key ∈ next.consumedPairs ∨ group ∈ rest) : Handled next rest consumer := by
  rcases h with hKey | ⟨group, hGroup, hMem⟩
  · exact Or.inl (hConsumed hKey)
  · rcases hQueue group hGroup hMem with hKey | hRest
    · exact Or.inl hKey
    · exact Or.inr ⟨group, hRest, hMem⟩

/-- A group that was consumed before adds nothing. -/
theorem Fuses.skip {state : FuserState} {candidates : List CollectionConsumers}
    {queue : List (List CollectionConsumers)}
    (h : pipeline.Fuses roots state (candidates :: queue))
    (hSeen : ∀ consumer ∈ candidates, consumer.key ∈ state.consumedPairs) :
    pipeline.Fuses roots state (queue ++ []) := by
  rw [List.append_nil]
  have hHandled {consumer : CollectionConsumers} (hOld : Handled state (candidates :: queue) consumer) :
      Handled state queue consumer := by
    apply hOld.mono (List.Subset.refl _)
    intro group hGroup hMem
    rcases List.mem_cons.mp hGroup with rfl | hRest
    · exact Or.inl (hSeen consumer hMem)
    · exact Or.inr hRest
  exact ⟨fun group hGroup => h.queued group (List.mem_cons_of_mem _ hGroup), h.stages, h.consumed,
    fun consumer hRoot => hHandled (h.roots consumer hRoot),
    fun stage hStage output hOutput consumer hBelow =>
      hHandled (h.below stage hStage output hOutput consumer hBelow), h.ids⟩

/-- Fusing a group consumes it and puts what lies below in the queue. -/
theorem Fuses.fuse (hRoots : ∀ consumer, roots consumer → pipeline.IsConsumer consumer)
    {fuel : Nat} {state : FuserState} {candidates : List CollectionConsumers}
    {queue : List (List CollectionConsumers)} {stage : ExecutableStage}
    {below : List DescendantConsumers} (unfused : List PTransformNode)
    (h : pipeline.Fuses roots state (candidates :: queue))
    (hStage : pipeline.fuseSiblings fuel state.stages.length candidates = done stage)
    (hBelow : List.Forall₂ pipeline.FindsBelow stage.outputPcols below) :
    pipeline.Fuses roots
      { consumedPairs := state.consumedPairs ++ candidates.map CollectionConsumers.key
        stages := state.stages ++ [stage]
        unfused := unfused }
      (queue ++ below.flatMap fun descendants => pipeline.groupSiblings descendants.fusible) := by
  obtain ⟨hGroup, hStarts⟩ := h.queued candidates (List.mem_cons_self ..)
  obtain ⟨hId, hStageOf⟩ := stageOf_fuseSiblings hRoots hGroup hStarts hStage
  have hReaches {output : PCollectionNode} (hOutput : output ∈ stage.outputPcols) :=
    (hStageOf.isStage.outputs output).mp hOutput
  -- what is found below an output of the new stage starts a stage
  have hNext {output : PCollectionNode} (hOutput : output ∈ stage.outputPcols)
      {consumer : CollectionConsumers} (hFusible : pipeline.FusibleBelow output consumer) :
      pipeline.Starts roots consumer := by
    obtain ⟨node, hNode, hFrom⟩ := (hReaches hOutput).1.of_initial
    obtain ⟨member, hMember, rfl⟩ := List.mem_map.mp hNode
    have hFlag := hGroup.splittable hMember
    refine .after (hStarts member hMember) (hStageOf.environment member hMember) ?_ ?_ hFusible
    · exact hFlag ▸ hFrom
    · exact hFlag ▸ (hReaches hOutput).2
  have hConsumers {output : PCollectionNode} (hOutput : output ∈ stage.outputPcols)
      {found : DescendantConsumers} (hFound : pipeline.FindsBelow output found) :
      ∀ consumer ∈ found.fusible, pipeline.IsConsumer consumer := fun consumer hMem =>
    ((hFound.fusible consumer).mp hMem).isConsumer (hReaches hOutput).1.isCollection
  have hHandled {consumer : CollectionConsumers} (hOld : Handled state (candidates :: queue) consumer) :
      Handled
        { consumedPairs := state.consumedPairs ++ candidates.map CollectionConsumers.key
          stages := state.stages ++ [stage]
          unfused := unfused }
        (queue ++ below.flatMap fun descendants => pipeline.groupSiblings descendants.fusible)
        consumer := by
    apply hOld.mono (List.subset_append_left ..)
    intro group hMemGroup hMem
    rcases List.mem_cons.mp hMemGroup with rfl | hRest
    · exact Or.inl (List.mem_append_right _ (List.mem_map_of_mem hMem))
    · exact Or.inr (List.mem_append_left _ hRest)
  refine ⟨?_, ?_, ?_, fun consumer hRoot => hHandled (h.roots consumer hRoot), ?_, ?_⟩
  · intro group hMem
    rcases List.mem_append.mp hMem with hOld | hNew
    · exact h.queued group (List.mem_cons_of_mem _ hOld)
    · obtain ⟨found, hFound, hSiblings⟩ := List.mem_flatMap.mp hNew
      obtain ⟨output, hOutput, hFinds⟩ := forall₂_right hBelow hFound
      have hIsGroup := isGroup_of_mem (hConsumers hOutput hFinds) hSiblings
      exact ⟨⟨hIsGroup.nonempty, List.Subset.refl _, hIsGroup.key, hIsGroup.compatible⟩,
        fun consumer hConsumer =>
          hNext hOutput ((hFinds.fusible consumer).mp (hIsGroup.subset hConsumer))⟩
  · intro other hMem
    rcases List.mem_append.mp hMem with hOld | hNew
    · exact h.stages other hOld
    · rw [List.mem_singleton.mp hNew]
      exact ⟨candidates, hStageOf⟩
  · intro key hMem
    rcases List.mem_append.mp hMem with hOld | hNew
    · obtain ⟨other, hOther, group, hGroupOf, hKey⟩ := h.consumed key hOld
      exact ⟨other, List.mem_append_left _ hOther, group, hGroupOf, hKey⟩
    · exact ⟨stage, List.mem_append_right _ (List.mem_singleton_self _), candidates, hStageOf, hNew⟩
  · intro other hMem output hOutput consumer hFusible
    rcases List.mem_append.mp hMem with hOld | hNew
    · exact hHandled (h.below other hOld output hOutput consumer hFusible)
    · rw [List.mem_singleton.mp hNew] at hOutput
      obtain ⟨found, hFound, hFinds⟩ := forall₂_left hBelow hOutput
      obtain ⟨group, hSiblings, hIn⟩ := groupSiblings_cover (hConsumers hOutput hFinds)
        ((hFinds.fusible consumer).mpr hFusible)
      exact Or.inr ⟨group, List.mem_append_right _ (List.mem_flatMap.mpr ⟨found, hFound, hSiblings⟩), hIn⟩
  · show (state.stages ++ [stage]).map ExecutableStage.id = List.range (state.stages ++ [stage]).length
    rw [List.map_append, h.ids, List.map_singleton, hId, List.length_append, List.length_singleton,
      List.range_succ]

/-- Each visit keeps the fuser at what it should have consumed. -/
theorem Fuses.visit (hRoots : ∀ consumer, roots consumer → pipeline.IsConsumer consumer)
    {fuel : Nat} {state next : FuserState} {candidates : List CollectionConsumers}
    {queue more : List (List CollectionConsumers)}
    (hVisit : pipeline.visitSiblings fuel state candidates = done (next, more))
    (h : pipeline.Fuses roots state (candidates :: queue)) :
    pipeline.Fuses roots next (queue ++ more) := by
  rw [visitSiblings] at hVisit
  split at hVisit
  · cases hVisit
  next hConsistent =>
    split at hVisit
    next hEmpty =>
      cases done_inj hVisit
      apply h.skip
      intro consumer hMem
      by_contra hFresh
      have hFiltered : consumer ∈ candidates.filter
          fun other => other.key ∉ state.consumedPairs :=
        List.mem_filter.mpr ⟨hMem, decide_eq_true hFresh⟩
      rw [List.length_eq_zero_iff.mp hEmpty] at hFiltered
      cases hFiltered
    next hNonempty =>
      obtain ⟨stage, hStage, hRest⟩ := bind_eq_done hVisit
      obtain ⟨below, hBelow, hDone⟩ := bind_eq_done hRest
      have hLength : (candidates.filter fun consumer => consumer.key ∉ state.consumedPairs).length =
          candidates.length := by
        by_contra hDiffers
        exact hConsistent ⟨hDiffers, hNonempty⟩
      have hAll : (candidates.filter fun consumer => consumer.key ∉ state.consumedPairs) = candidates :=
        List.filter_eq_self.mpr (List.length_filter_eq_length_iff.mp hLength)
      rw [hAll] at hStage hDone
      cases done_inj hDone
      exact h.fuse hRoots _ hStage ((mapM_eq_done hBelow).imp fun _ _ hFound =>
        getDescendantConsumers_eq_done hFound)

/-- When the loop ends, every consumer at which a stage starts is in the group
of one. -/
theorem Fuses.starts_stage (hRoots : ∀ consumer, roots consumer → pipeline.IsConsumer consumer)
    {state : FuserState} (h : pipeline.Fuses roots state []) {consumer : CollectionConsumers}
    (hStarts : pipeline.Starts roots consumer) :
    ∃ stage ∈ state.stages, ∃ group, pipeline.StageOf roots group stage ∧ consumer ∈ group := by
  have hStage {consumer : CollectionConsumers} (hStarts : pipeline.Starts roots consumer)
      (hHandled : Handled state [] consumer) :
      ∃ stage ∈ state.stages, ∃ group, pipeline.StageOf roots group stage ∧ consumer ∈ group := by
    rcases hHandled with hKey | ⟨group, hGroup, _⟩
    · obtain ⟨stage, hStage, group, hStageOf, hMem⟩ := h.consumed _ hKey
      obtain ⟨member, hMember, hSame⟩ := List.mem_map.mp hMem
      have hEq := consumer_eq_of_key ((hStageOf.starts member hMember).isConsumer hRoots)
        (hStarts.isConsumer hRoots) hSame
      exact ⟨stage, hStage, group, hStageOf, hEq ▸ hMember⟩
    · cases hGroup
  induction hStarts with
  | root hRoot => exact hStage (.root hRoot) (h.roots _ hRoot)
  | @after consumer environment output next hStarts hEnvironment hReaches hBoundary hNext ih =>
      obtain ⟨stage, hMem, group, hStageOf, hMember⟩ := ih
      have hSame := hStageOf.environment consumer hMember
      cases hEnvironment.symm.trans hSame
      have hFlag := hStageOf.siblings.splittable hMember
      have hOutput : output ∈ stage.outputPcols := by
        apply (hStageOf.isStage.outputs output).mpr
        rw [hFlag]
        refine ⟨hReaches.mono ?_, hBoundary⟩
        intro node hNode
        rw [List.mem_singleton.mp hNode]
        exact List.mem_map_of_mem hMember
      exact hStage (.after hStarts hEnvironment hReaches hBoundary hNext)
        (h.below stage hMem output hOutput next hNext)

end Loop
end QueryablePipeline
end FlareDB
