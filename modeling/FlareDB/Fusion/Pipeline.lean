import FlareDB.Lib.KeyedStore
import FlareDB.Lib.IndexSet
import FlareDB.Lib.Results

/-! The pipeline graph. A hash map is a store under unique keys and a hash set
a list; their order stands for the order of iteration, which is arbitrary. -/
namespace FlareDB

open KeyedStore

/-- The URNs that the pipeline graph and the fuser tell apart. -/
inductive Urn where
  | create
  | parDo
  | flatten
  | groupByKey
  | groupByKeyWrapper
  | impulse
  | assignWindows
  | testStream
  | mapWindows
  | mergeWindows
  | toStrings
  | managed
  | createView
  | combinePrecombine
  | combineMergeAccumulators
  | combineExtractOutputs
  | splittablePairWithRestriction
  | splittableSplitAndSize
  | splittableTruncateSized
  | splittableProcessElements
  | splittableProcessKeyed
  | splittableProcessSized
  | other (urn : String)
deriving DecidableEq, Repr

namespace Urn

def flare : List Urn :=
  [groupByKey, impulse, flatten, testStream]

def splittablePardoComponents : List Urn :=
  [splittablePairWithRestriction, splittableTruncateSized, splittableSplitAndSize,
    splittableProcessSized]

def validMainInputUrns : List Urn :=
  [parDo, splittablePairWithRestriction, splittableSplitAndSize, splittableTruncateSized,
    splittableProcessElements, splittableProcessSized]

def validSideInputUrns : List Urn :=
  [parDo, splittablePairWithRestriction, splittableSplitAndSize, splittableProcessSized]

def combineFusible : List Urn :=
  [combinePrecombine, combineMergeAccumulators, combineExtractOutputs]

end Urn

/-- The parts of a ParDo payload the fuser reads, by local name. -/
structure ParDoPayload where
  sideInputs : List String
  stateSpecs : List String
  timerFamilySpecs : List String
deriving DecidableEq, Repr

/-- The payload bytes of a spec: none, a ParDo payload, or bytes that are not one. -/
inductive SpecPayload where
  | empty
  | parDo (payload : ParDoPayload)
  | malformed
deriving DecidableEq, Repr

/-- No bytes are the payload with every field at its default. -/
def SpecPayload.decode : SpecPayload → Option ParDoPayload
  | .empty => some ⟨[], [], []⟩
  | .parDo payload => some payload
  | .malformed => none

structure FunctionSpec where
  urn : Urn
  payload : SpecPayload
deriving DecidableEq, Repr

/-- An environment. What is neither URN nor payload stands in `details`. -/
structure Environment where
  urn : String
  payload : List UInt8
  details : List UInt8
deriving DecidableEq, Repr

structure PCollection where
  uniqueName : String
  coderId : String
deriving DecidableEq, Repr

structure PTransform where
  uniqueName : String
  spec : Option FunctionSpec
  inputs : Store String String
  outputs : Store String String
  environmentId : String
  subtransforms : List String

structure Components where
  transforms : Store String PTransform
  pcollections : Store String PCollection
  environments : Store String Environment

/-- Transform nodes are compared by id. -/
structure PTransformNode where
  id : String
  transform : PTransform

/-- PCollection nodes are compared by id. -/
structure PCollectionNode where
  id : String
  collection : PCollection
deriving DecidableEq, Repr

inductive BeamTranslationError where
  | invalidArgument (message : String)
  | invalidState (message : String)
  | notFound (message : String)
  | differentEnvironments (got other : Environment)
deriving DecidableEq, Repr

def payloadNotDecoded : BeamTranslationError :=
  .invalidArgument "Failed to decode ParDoPayload"

/-- The values of a map. -/
def storeValues (map : Store String String) : List String :=
  map.entries.map fun entry => entry.2

/-- The local names a ParDo payload declares, when the URN carries one. -/
def localNames (valid : List Urn) (names : ParDoPayload → List String) (transform : PTransform) :
    Except BeamTranslationError (List String) :=
  match transform.spec with
  | none => .ok []
  | some spec =>
      if spec.urn ∈ valid then
        match spec.payload.decode with
        | some payload => .ok (names payload)
        | none => .error payloadNotDecoded
      else .ok []

def getLocalSideInputNames : PTransform → Except BeamTranslationError (List String) :=
  localNames Urn.validSideInputUrns ParDoPayload.sideInputs

def getLocalUserStateNames : PTransform → Except BeamTranslationError (List String) :=
  localNames [.parDo] ParDoPayload.stateSpecs

def getLocalTimerNames : PTransform → Except BeamTranslationError (List String) :=
  localNames [.parDo] ParDoPayload.timerFamilySpecs

structure SideInputRef where
  collection : PCollectionNode
  transform : PTransformNode
  name : String

structure UserStateRef where
  transform : PTransformNode
  name : String
  collection : PCollectionNode

structure TimerRef where
  transform : PTransformNode
  name : String

namespace Components

variable (components : Components)

def findTransform (id : String) : Except BeamTranslationError PTransformNode :=
  match components.transforms.lookup id with
  | some transform => .ok ⟨id, transform⟩
  | none => .error (.notFound s!"Transform '{id}'")

def findPCollection (id : String) : Except BeamTranslationError PCollectionNode :=
  match components.pcollections.lookup id with
  | some collection => .ok ⟨id, collection⟩
  | none => .error (.notFound s!"PCollection '{id}'")

def sideInputFromId (transformId name : String) : Except BeamTranslationError SideInputRef := do
  let node ← components.findTransform transformId
  match node.transform.inputs.lookup name with
  | none => .error (.notFound s!"Input '{name}' on transform '{transformId}'")
  | some pcolId => do
      let collection ← components.findPCollection pcolId
      pure ⟨collection, node, name⟩

def timerFromId (transformId name : String) : Except BeamTranslationError TimerRef := do
  let node ← components.findTransform transformId
  pure ⟨node, name⟩

/-- The one input that is neither a side input nor a timer. -/
def getMainInputName (transform : PTransform) : Except BeamTranslationError String :=
  match transform.spec with
  | none => .error (.invalidArgument "Transform is missing spec")
  | some spec =>
      if spec.urn ∈ Urn.validMainInputUrns then
        match spec.payload.decode with
        | none => .error payloadNotDecoded
        | some payload =>
            match transform.inputs.keys.filter
              (· ∉ payload.sideInputs ++ payload.timerFamilySpecs) with
            | [name] => .ok name
            | names => .error (.invalidArgument
                s!"Expected exactly one main input, found {names.length}")
      else .error (.invalidArgument "Unexpected payload type")

def userStateFromId (transformId name : String) : Except BeamTranslationError UserStateRef := do
  let node ← components.findTransform transformId
  let main ← getMainInputName node.transform
  match node.transform.inputs.lookup main with
  | none => .error (.notFound s!"Main input '{main}' on transform '{transformId}'")
  | some pcolId => do
      let collection ← components.findPCollection pcolId
      pure ⟨node, name, collection⟩

end Components

/-- The pipeline and the ids of its primitive transforms, which are the
transform nodes of its graph. -/
structure QueryablePipeline where
  components : Components
  primitives : List String

namespace QueryablePipeline

variable (pipeline : QueryablePipeline)

def pcollectionNode (id : String) : Option PCollectionNode :=
  (pipeline.components.pcollections.lookup id).map (PCollectionNode.mk id)

def transformNode (id : String) : Option PTransformNode :=
  (pipeline.components.transforms.lookup id).map (PTransformNode.mk id)

/-- The transform nodes of the graph. -/
def nodes : List PTransformNode :=
  pipeline.primitives.dedup.filterMap pipeline.transformNode

/-- The inputs of a transform that are edges of the graph: each an input name,
a PCollection and whether it is a side input. A transform whose payload cannot
be decoded has none. -/
def inputEdges (transform : PTransform) : List (PCollectionNode × Bool) :=
  match getLocalSideInputNames transform with
  | .error _ => []
  | .ok sides => transform.inputs.entries.filterMap fun input =>
      (pipeline.pcollectionNode input.2).map fun collection => (collection, decide (input.1 ∈ sides))

def getRootTransforms : List PTransformNode :=
  pipeline.nodes.filter fun node => (pipeline.inputEdges node.transform).isEmpty

def getPerElementConsumers (collection : PCollectionNode) : List PTransformNode :=
  pipeline.nodes.filter fun node =>
    (pipeline.inputEdges node.transform).any fun edge => edge.1.id = collection.id ∧ edge.2 = false

def getSingletonConsumers (collection : PCollectionNode) : List PTransformNode :=
  pipeline.nodes.filter fun node =>
    (pipeline.inputEdges node.transform).any fun edge => edge.1.id = collection.id ∧ edge.2 = true

/-- The PCollections a transform of the graph produces, as the graph has them. -/
def getOutputPcol (node : PTransformNode) : List PCollectionNode :=
  match pipeline.nodes.find? (fun other => other.id = node.id) with
  | none => []
  | some found => ((storeValues found.transform.outputs).filterMap pipeline.pcollectionNode).dedup

/-- A native Flatten copies values unchanged, so its output must have the coder
of every input. -/
def flattenHasDifferentInputAndOutputCoders (transform : PTransform) : Bool :=
  match (storeValues transform.outputs).head? with
  | none => false
  | some outputId => match pipeline.components.pcollections.lookup outputId with
      | none => false
      | some output => (storeValues transform.inputs).any fun inputId =>
          match pipeline.components.pcollections.lookup inputId with
          | none => false
          | some input => input.coderId ≠ output.coderId

/-- A runner-owned primitive executes in FlareDB, also when the SDK attaches an
environment to it. -/
def getEnvironment (transform : PTransform) : Option Environment :=
  match transform.spec with
  | none => pipeline.components.environments.lookup transform.environmentId
  | some spec =>
      if spec.urn ∈ Urn.flare ∧ ¬(spec.urn = .flatten ∧
          pipeline.flattenHasDifferentInputAndOutputCoders transform = true) then none
      else pipeline.components.environments.lookup transform.environmentId

def getSideInputs (node : PTransformNode) : Except BeamTranslationError (List SideInputRef) := do
  let names ← getLocalSideInputNames node.transform
  names.mapM (pipeline.components.sideInputFromId node.id)

def getUserStates (node : PTransformNode) : Except BeamTranslationError (List UserStateRef) := do
  let names ← getLocalUserStateNames node.transform
  names.mapM (pipeline.components.userStateFromId node.id)

def getTimers (node : PTransformNode) : Except BeamTranslationError (List TimerRef) := do
  let names ← getLocalTimerNames node.transform
  names.mapM (pipeline.components.timerFromId node.id)

end QueryablePipeline
end FlareDB
