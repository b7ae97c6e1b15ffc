import FlareDB.Fusion.Stage

/-! The greedy fusion of a pipeline into stages, and the rewriting that leaves
every PCollection with one producer. -/
namespace FlareDB

open KeyedStore Worklist

/-- The transforms below a PCollection that the runner executes, and the
consumers that root stages. -/
structure DescendantConsumers where
  unfusible : List PTransformNode
  fusible : List CollectionConsumers

def DescendantConsumers.join (parts : List DescendantConsumers) : DescendantConsumers where
  unfusible := parts.flatMap unfusible
  fusible := parts.flatMap fusible

/-- A producer: a stage or a transform of the runner, compared by its id. -/
inductive StageOrTransform where
  | stage (id : Nat)
  | transform (id : String)
deriving DecidableEq, Repr

structure FusedPipeline where
  components : Components
  sdkStages : List ExecutableStage
  runnerStages : List PTransformNode

/-- The state of the loop over the groups of siblings. -/
structure FuserState where
  consumedPairs : List (String × String)
  stages : List ExecutableStage
  unfused : List PTransformNode

/-- The first of `base`, `base-0`, `base-1` and so on that is not taken. -/
def uniqueId (base : String) (taken : List String) : String :=
  if base ∈ taken then
    (((List.range (taken.length + 1)).map fun counter => s!"{base}-{counter}").find?
      (· ∉ taken)).getD base
  else base

/-- A partial of every duplicate, by the id of the original. -/
def createPartialPcollections (taken : List String) : List PCollectionNode →
    List (String × PCollectionNode) →
    Except BeamTranslationError (List (String × PCollectionNode))
  | [], minted => .ok minted
  | duplicate :: duplicates, minted =>
      let partialId := uniqueId duplicate.id (taken ++ minted.map fun entry => entry.2.id)
      if duplicate.id ∈ minted.map Prod.fst then
        .error (.invalidArgument
          s!"duplicate pcollection appeared more than once in a single stage: {duplicate.id}")
      else createPartialPcollections taken duplicates (minted ++
        [(duplicate.id, ⟨partialId, { duplicate.collection with uniqueName := partialId }⟩)])

/-- The node an id is redirected to. -/
def redirect (originalToPartial : List (String × PCollectionNode)) (id : String) :
    Option PCollectionNode :=
  (originalToPartial.find? fun entry => entry.1 = id).map Prod.snd

def updateOutputs (originalToPartial : List (String × PCollectionNode)) (transform : PTransform) :
    PTransform :=
  { transform with
    outputs := KeyedStore.mapValues
      (fun id => ((redirect originalToPartial id).map PCollectionNode.id).getD id)
      transform.outputs }

def PTransformNode.update (originalToPartial : List (String × PCollectionNode))
    (node : PTransformNode) : PTransformNode :=
  { node with transform := updateOutputs originalToPartial node.transform }

def insertPartials (originalToPartial : List (String × PCollectionNode))
    (pcollections : Store String PCollection) : Store String PCollection :=
  originalToPartial.foldl (fun table entry => table.insert entry.2.id entry.2.collection)
    pcollections

def ExecutableStage.update (originalToPartial : List (String × PCollectionNode))
    (stage : ExecutableStage) : ExecutableStage :=
  let transforms := stage.transforms.map (PTransformNode.update originalToPartial)
  { stage with
    components := { stage.components with
      transforms := transformTable transforms
      pcollections := insertPartials originalToPartial stage.components.pcollections }
    outputPcols := stage.outputPcols.map fun pcol => (redirect originalToPartial pcol.id).getD pcol
    transforms := transforms }

/-- What the rewriting of the producers has done. -/
structure Deduplication where
  components : Components
  originalToPartials : Store String (List PCollectionNode)
  stages : List ExecutableStage
  transforms : List PTransformNode

def Deduplication.register (state : Deduplication)
    (originalToPartial : List (String × PCollectionNode)) : Deduplication :=
  { state with
    components := { state.components with
      pcollections := insertPartials originalToPartial state.components.pcollections }
    originalToPartials := originalToPartial.foldl (fun table entry =>
      table.insert entry.1 ((table.lookup entry.1).getD [] ++ [entry.2])) state.originalToPartials }

def createFlattenOfPartials (transformId originalId : String) (inputs : List PCollectionNode) :
    PTransform where
  uniqueName := transformId
  spec := some ⟨.flatten, .empty⟩
  inputs := ofPairs (inputs.zipIdx.map fun input => (s!"input_{input.2}", input.1.id))
  outputs := ofPairs [("output", originalId)]
  environmentId := ""
  subtransforms := []

/-- A Flatten that merges the partials of one PCollection. -/
def introduceFlatten (state : Components × List PTransformNode)
    (entry : String × List PCollectionNode) : Components × List PTransformNode :=
  let flattenId := uniqueId "unzipped_flatten" state.1.transforms.keys
  let flatten := createFlattenOfPartials flattenId entry.1 entry.2
  ({ state.1 with transforms := state.1.transforms.insert flattenId flatten },
    state.2 ++ [⟨flattenId, flatten⟩])

namespace QueryablePipeline

variable (pipeline : QueryablePipeline)

/-- The consumers below a PCollection: those of an SDK, and behind a transform
of the runner those of its outputs. -/
def getDescendantConsumers : Nat → PCollectionNode → Attempt BeamTranslationError DescendantConsumers
  | 0, _ => outOfFuel
  | fuel + 1, pcol => do
      let parts ← (pipeline.getPerElementConsumers pcol).mapM fun consumer =>
        match pipeline.getEnvironment consumer.transform with
        | some _ => done ⟨[], [⟨pcol, consumer⟩]⟩
        | none => do
            let below ← (pipeline.getOutputPcol consumer).mapM (getDescendantConsumers fuel)
            done (DescendantConsumers.join (⟨[consumer], []⟩ :: below))
      done (DescendantConsumers.join parts)

def getRootConsumers (fuel : Nat) (root : PTransformNode) :
    Attempt BeamTranslationError DescendantConsumers := do
  let parts ← (pipeline.getOutputPcol root).mapM (pipeline.getDescendantConsumers fuel)
  done (DescendantConsumers.join parts)

def fuseSiblings (fuel id : Nat) : List CollectionConsumers → Attempt BeamTranslationError ExecutableStage
  | [] => fail (.invalidArgument "must contain atleast one element GreedyStageFuser")
  | root :: siblings =>
      pipeline.fuseStage fuel id root.collection
        ((root :: siblings).map CollectionConsumers.node)

/-- One round of the loop over the groups of siblings. -/
def visitSiblings (fuel : Nat) (state : FuserState) (candidates : List CollectionConsumers) :
    Attempt BeamTranslationError (FuserState × List (List CollectionConsumers)) :=
  let siblings := candidates.filter fun consumer => consumer.key ∉ state.consumedPairs
  if siblings.length ≠ candidates.length ∧ siblings.length ≠ 0 then
    fail (.invalidState "Inconsistent collection of siblings reported")
  else if siblings.length = 0 then done (state, [])
  else do
    let stage ← pipeline.fuseSiblings fuel state.stages.length siblings
    let below ← stage.outputPcols.mapM (pipeline.getDescendantConsumers fuel)
    done ({ consumedPairs := state.consumedPairs ++ siblings.map CollectionConsumers.key
            stages := state.stages ++ [stage]
            unfused := IndexSet.extend PTransformNode.id state.unfused
              (below.flatMap DescendantConsumers.unfusible) },
      below.flatMap fun descendants => pipeline.groupSiblings descendants.fusible)

/-- Every producer with a PCollection it produces. -/
def collectProducers (stages : List ExecutableStage) (unfused : List PTransformNode) :
    List (PCollectionNode × StageOrTransform) :=
  (stages.flatMap fun stage => stage.outputPcols.map fun output => (output, .stage stage.id)) ++
    unfused.flatMap fun node => (pipeline.getOutputPcol node).map fun output =>
      (output, .transform node.id)

/-- What a producer produces that another producer produces too. -/
def duplicatesOf (producers : List (PCollectionNode × StageOrTransform))
    (producer : StageOrTransform) : List PCollectionNode :=
  ((producers.filter fun entry => entry.2 = producer).map Prod.fst).filter fun pcol =>
    1 < (producers.filter fun entry => entry.1.id = pcol.id).length

/-- The partials of a producer, if it has to be rewritten. -/
def partialsOf (producers : List (PCollectionNode × StageOrTransform)) (state : Deduplication)
    (producer : StageOrTransform) : Except BeamTranslationError (List (String × PCollectionNode)) :=
  createPartialPcollections state.components.pcollections.keys
    (duplicatesOf producers producer) []

def deduplicateStage (producers : List (PCollectionNode × StageOrTransform)) (state : Deduplication)
    (stage : ExecutableStage) : Except BeamTranslationError Deduplication := do
  let originalToPartial ← partialsOf producers state (.stage stage.id)
  let registered := state.register originalToPartial
  pure { registered with
    stages := state.stages ++
      [if originalToPartial = [] then stage else stage.update originalToPartial] }

def deduplicateTransform (producers : List (PCollectionNode × StageOrTransform))
    (state : Deduplication) (node : PTransformNode) : Except BeamTranslationError Deduplication := do
  let originalToPartial ← partialsOf producers state (.transform node.id)
  let registered := state.register originalToPartial
  pure { registered with
    transforms := state.transforms ++
      [if originalToPartial = [] then node else node.update originalToPartial] }

/-- No PCollection keeps more than one producer: each producer of it emits a
partial, and a Flatten merges them. -/
def ensureSingleProducer (stages : List ExecutableStage) (unfused : List PTransformNode) :
    Except BeamTranslationError FusedPipeline := do
  let producers := pipeline.collectProducers stages unfused
  let start : Deduplication := ⟨pipeline.components, ∅, [], []⟩
  let rewritten ← stages.foldlM (deduplicateStage producers) start
  let deduplicated ← unfused.foldlM (deduplicateTransform producers) rewritten
  let (components, introduced) := (deduplicated.originalToPartials.entries.map fun entry =>
    (entry.1, entry.2)).foldl introduceFlatten (deduplicated.components, [])
  pure
    { components := components
      sdkStages := deduplicated.stages.map sanitizeDanglingPTransformInputs
      runnerStages := IndexSet.extend PTransformNode.id [] (deduplicated.transforms ++ introduced) }

/-- Fuse the pipeline below the consumers of its roots. -/
def fusePipeline (fuel : Nat) (initialUnfused : List PTransformNode)
    (initialConsumers : List CollectionConsumers) : Attempt BeamTranslationError FusedPipeline := do
  let state ← run (pipeline.visitSiblings fuel) fuel
    ⟨[], [], IndexSet.extend PTransformNode.id [] initialUnfused⟩
    (pipeline.groupSiblings initialConsumers)
  attempt (pipeline.ensureSingleProducer state.stages state.unfused)

/-- The roots that the runner executes. -/
def unfusedRoots : List PTransformNode :=
  pipeline.getRootTransforms.filter fun root => pipeline.getEnvironment root.transform = none

/-- Fuse a pipeline from its roots. -/
def fuse (fuel : Nat) : Attempt BeamTranslationError FusedPipeline := do
  let descendants ← pipeline.getRootTransforms.mapM (pipeline.getRootConsumers fuel)
  pipeline.fusePipeline fuel
    (pipeline.unfusedRoots ++ descendants.flatMap DescendantConsumers.unfusible)
    (descendants.flatMap DescendantConsumers.fusible)

end QueryablePipeline
end FlareDB
