import FlareDB.Fusion.Compatibility
import FlareDB.Lib.Worklist

/-! The growth of one executable stage from its initial transforms. -/
namespace FlareDB

open KeyedStore Worklist

/-- A fused stage. The id stands for the UUID it is compared by. -/
structure ExecutableStage where
  id : Nat
  components : Components
  environment : Environment
  inputPcol : PCollectionNode
  sideInputs : List SideInputRef
  userStates : List UserStateRef
  timers : List TimerRef
  outputPcols : List PCollectionNode
  transforms : List PTransformNode

def SideInputRef.key (side : SideInputRef) : String × String × String :=
  (side.collection.id, side.transform.id, side.name)

def UserStateRef.key (state : UserStateRef) : String × String × String :=
  (state.transform.id, state.name, state.collection.id)

def TimerRef.key (timer : TimerRef) : String × String :=
  (timer.transform.id, timer.name)

def isSplittableComponent (node : PTransformNode) : Bool :=
  node.getUrn ∈ Urn.splittablePardoComponents

def transformHasSplittableProcessUrn (node : PTransformNode) : Bool :=
  node.getUrn ∈ [Urn.splittableProcessElements, .splittableProcessKeyed, .splittableProcessSized]

/-- What the growth of a stage has collected. -/
structure StageGrowth where
  fusedTransforms : List PTransformNode
  sideInputs : List SideInputRef
  fusedPcols : List PCollectionNode
  materializedPcols : List PCollectionNode

/-- The inputs a transform of a stage may have: the stage's input and outputs,
its side inputs and timers, and what its transforms produce. -/
def ExecutableStage.possibleInputs (stage : ExecutableStage) : List String :=
  stage.inputPcol.id :: stage.outputPcols.map PCollectionNode.id ++
    stage.sideInputs.map (fun side => side.collection.id) ++
    stage.timers.filterMap (fun timer => timer.transform.transform.inputs.lookup timer.name) ++
    stage.transforms.flatMap (fun node => storeValues node.transform.outputs)

/-- Drop the inputs of a map that go to the given PCollections. -/
def dropInputs (dangling : List String) (inputs : Store String String) : Store String String where
  entries := inputs.entries.filter fun input => input.2 ∉ dangling
  nodupKeys := List.NodupKeys.sublist List.filter_sublist inputs.nodupKeys

def PTransformNode.sanitize (dangling : List String) (node : PTransformNode) : PTransformNode :=
  { node with transform := { node.transform with
      inputs := dropInputs dangling node.transform.inputs } }

/-- The table of the transforms of a stage. -/
def transformTable (nodes : List PTransformNode) : Store String PTransform :=
  ofPairs (nodes.map fun node => (node.id, node.transform))

def sanitizeDanglingPTransformInputs (stage : ExecutableStage) : ExecutableStage :=
  let dangling := (stage.transforms.flatMap fun node => storeValues node.transform.inputs).filter
    (· ∉ stage.possibleInputs)
  if dangling = [] then stage
  else
    let transforms := IndexSet.extend PTransformNode.id []
      (stage.transforms.map (PTransformNode.sanitize dangling))
    { stage with
      components := { stage.components with
        transforms := transformTable transforms
        pcollections := dangling.foldl (fun table id => table.erase id) stage.components.pcollections }
      transforms := transforms }

namespace QueryablePipeline

variable (pipeline : QueryablePipeline)

def nodeEnvironment (node : PTransformNode) : Except BeamTranslationError Environment :=
  match pipeline.getEnvironment node.transform with
  | some environment => .ok environment
  | none => .error (.invalidArgument
      "Environment must be populated on all PTransformNodes in GreedyStageFuser")

def checkEnvironment (environment : Environment) (node : PTransformNode) :
    Except BeamTranslationError Unit := do
  let own ← pipeline.nodeEnvironment node
  if sameEnvironment environment own then .ok () else .error (.differentEnvironments environment own)

/-- The environment of the first initial transform, checked against the others. -/
def getStageEnvironment : List PTransformNode → Except BeamTranslationError Environment
  | [] => .error (.invalidArgument "must contain atleast one element GreedyStageFuser")
  | first :: rest => do
      let environment ← pipeline.nodeEnvironment first
      (first :: rest).forM (pipeline.checkEnvironment environment)
      pure environment

/-- Whether a stage is extended over a PCollection. What a stage with a
splittable process transform hands to another splittable transform stays a
boundary. -/
def extendsOver (environment : Environment) (splittable : Bool) (candidate : PCollectionNode) :
    Bool :=
  pipeline.canFuse candidate environment = .fuse &&
    !(splittable && (pipeline.getPerElementConsumers candidate).any isSplittableComponent)

/-- The side inputs of the consumers a stage is extended by. -/
def consumerSideInputs (consumers : List PTransformNode) :
    Except BeamTranslationError (List SideInputRef) := do
  let sides ← consumers.mapM pipeline.getSideInputs
  pure sides.flatten

/-- One round of the candidate loop. -/
def visitCandidate (environment : Environment) (splittable : Bool) (state : StageGrowth)
    (candidate : PCollectionNode) :
    Attempt BeamTranslationError (StageGrowth × List PCollectionNode) :=
  if candidate.id ∈ state.fusedPcols.map PCollectionNode.id ∨
      candidate.id ∈ state.materializedPcols.map PCollectionNode.id then done (state, [])
  else if pipeline.extendsOver environment splittable candidate then do
    let consumers := pipeline.getPerElementConsumers candidate
    let sides ← attempt (pipeline.consumerSideInputs consumers)
    done ({ state with
      sideInputs := IndexSet.extend SideInputRef.key state.sideInputs sides
      fusedTransforms := IndexSet.extend PTransformNode.id state.fusedTransforms consumers
      fusedPcols := state.fusedPcols ++ [candidate] }, consumers.flatMap pipeline.getOutputPcol)
  else done ({ state with materializedPcols := state.materializedPcols ++ [candidate] }, [])

/-- The side inputs, states and timers of an initial transform. -/
def transformRefs (node : PTransformNode) :
    Except BeamTranslationError (List SideInputRef × List UserStateRef × List TimerRef) := do
  let sides ← pipeline.getSideInputs node
  let states ← pipeline.getUserStates node
  let timers ← pipeline.getTimers node
  pure (sides, states, timers)

/-- The environment of a stage and what its initial transforms refer to. -/
def stageStart (initialNodes : List PTransformNode) : Except BeamTranslationError
    (Environment × List (List SideInputRef × List UserStateRef × List TimerRef)) := do
  let environment ← pipeline.getStageEnvironment initialNodes
  let refs ← initialNodes.mapM pipeline.transformRefs
  pure (environment, refs)

def initialGrowth (initialNodes : List PTransformNode)
    (refs : List (List SideInputRef × List UserStateRef × List TimerRef)) : StageGrowth where
  fusedTransforms := IndexSet.extend PTransformNode.id [] initialNodes
  sideInputs := IndexSet.extend SideInputRef.key [] (refs.flatMap fun ref => ref.1)
  fusedPcols := []
  materializedPcols := []

/-- The stage that grows from its initial transforms, under a fresh id. -/
def fuseStage (fuel : Nat) (id : Nat) (inputPcol : PCollectionNode)
    (initialNodes : List PTransformNode) : Attempt BeamTranslationError ExecutableStage := do
  let (environment, refs) ← attempt (pipeline.stageStart initialNodes)
  let grown ← run (pipeline.visitCandidate environment
      (initialNodes.any transformHasSplittableProcessUrn)) fuel
    (initialGrowth initialNodes refs) (initialNodes.flatMap pipeline.getOutputPcol)
  done (sanitizeDanglingPTransformInputs
    { id := id
      components := pipeline.components
      environment := environment
      inputPcol := inputPcol
      sideInputs := grown.sideInputs
      userStates := IndexSet.extend UserStateRef.key [] (refs.flatMap fun ref => ref.2.1)
      timers := IndexSet.extend TimerRef.key [] (refs.flatMap fun ref => ref.2.2)
      outputPcols := grown.materializedPcols
      transforms := grown.fusedTransforms })

end QueryablePipeline
end FlareDB
