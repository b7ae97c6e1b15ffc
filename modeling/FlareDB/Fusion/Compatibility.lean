import FlareDB.Fusion.Pipeline
import Mathlib.Data.List.Sort
import Mathlib.Data.String.Basic

/-! Which transforms may share a stage: the consumers of one PCollection that
root a stage together, and the consumers a stage is extended by. -/
namespace FlareDB

open KeyedStore

/-- A PCollection and a transform that consumes it. -/
structure CollectionConsumers where
  collection : PCollectionNode
  node : PTransformNode

namespace CollectionConsumers

/-- Consumers are compared by the ids of the PCollection and of the transform. -/
def key (consumer : CollectionConsumers) : String × String :=
  (consumer.collection.id, consumer.node.id)

def cmp (left right : CollectionConsumers) : Ordering :=
  (compare left.collection.id right.collection.id).then (compare left.node.id right.node.id)

def inOrder (consumers : List CollectionConsumers) : List CollectionConsumers :=
  (IndexSet.extend key [] consumers).insertionSort fun left right => cmp left right ≠ .gt

/-- Sets of consumers are compared by their elements. -/
def groupsInOrder (groups : List (List CollectionConsumers)) : List (List CollectionConsumers) :=
  (IndexSet.extend (List.map key) [] groups).insertionSort
    fun left right => List.compareLex cmp left right ≠ .gt

end CollectionConsumers

/-- A PCollection and an environment, as the key of its groups of siblings. -/
structure SiblingKey where
  pcolId : String
  env : Option Environment
deriving DecidableEq

def PTransformNode.getUrn (node : PTransformNode) : Urn :=
  match node.transform.spec with
  | some spec => spec.urn
  | none => .other ""

/-- Environments are told apart by their URN only. -/
def sameEnvironment (left right : Environment) : Bool :=
  left.urn = right.urn

def hasStateOrTimers (node : PTransformNode) : Bool :=
  match node.transform.spec with
  | none => false
  | some spec => match spec.payload with
      | .empty => false
      | .malformed => true
      | .parDo payload => !payload.stateSpecs.isEmpty || !payload.timerFamilySpecs.isEmpty

inductive PCollectionFusibility where
  | fuse
  | materialize
deriving DecidableEq, Repr

namespace QueryablePipeline

variable (pipeline : QueryablePipeline)

def compatibleEnvironments (left right : PTransformNode) : Bool :=
  pipeline.getEnvironment left.transform = pipeline.getEnvironment right.transform

/-- A payload that cannot be decoded counts as having side inputs. -/
def hasSideInputsInPayload (node : PTransformNode) : Bool :=
  match pipeline.getSideInputs node with
  | .ok sides => !sides.isEmpty
  | .error _ => true

def parDoCompatibility (parDo other : PTransformNode) : Bool :=
  parDo.id = other.id ||
    (!pipeline.hasSideInputsInPayload parDo && !hasStateOrTimers parDo &&
      pipeline.compatibleEnvironments parDo other)

def isCompatibleOneWay (node other : PTransformNode) : Bool :=
  if node.getUrn ∈ Urn.splittablePardoComponents then false
  else if node.getUrn = .parDo then pipeline.parDoCompatibility node other
  else if node.getUrn ∈ Urn.combineFusible ∨ node.getUrn = .assignWindows then
    pipeline.compatibleEnvironments node other
  else false

def isCompatible (node other : PTransformNode) : Bool :=
  pipeline.isCompatibleOneWay node other && pipeline.isCompatibleOneWay other node

/-- A consumer joins the first group it is compatible with, or starts one. -/
def joinGroups (consumer : CollectionConsumers) :
    List (List CollectionConsumers) → List (List CollectionConsumers)
  | [] => [[consumer]]
  | group :: groups =>
      if group.all fun member => pipeline.isCompatible member.node consumer.node then
        (group ++ [consumer]) :: groups
      else group :: joinGroups consumer groups

def siblingKey (consumer : CollectionConsumers) : SiblingKey where
  pcolId := consumer.collection.id
  env := pipeline.getEnvironment consumer.node.transform

def compact (table : Store SiblingKey (List (List CollectionConsumers)))
    (consumer : CollectionConsumers) : Store SiblingKey (List (List CollectionConsumers)) :=
  table.insert (pipeline.siblingKey consumer)
    (pipeline.joinGroups consumer ((table.lookup (pipeline.siblingKey consumer)).getD []))

def groupSiblings (newConsumers : List CollectionConsumers) : List (List CollectionConsumers) :=
  CollectionConsumers.groupsInOrder
    (((CollectionConsumers.inOrder newConsumers).foldl pipeline.compact ∅).entries.flatMap
      fun entry => entry.2)

def canFuseParDo (parDo : PTransformNode) (environment : Environment)
    (candidate : PCollectionNode) : Bool :=
  match pipeline.getEnvironment parDo.transform, parDo.transform.spec with
  | some own, some spec =>
      if sameEnvironment own environment then
        match spec.payload with
        | .parDo payload =>
            -- a timer PCollection is a loop of the transform to itself
            if parDo.transform.inputs.entries.any fun input =>
                decide (input.1 ∈ payload.timerFamilySpecs ∧ input.2 = candidate.id) then true
            else if !payload.stateSpecs.isEmpty || !payload.timerFamilySpecs.isEmpty then false
            else !pipeline.hasSideInputsInPayload parDo
        | _ => false
      else false
  | _, _ => false

def canFuseCompatibleEnv (operation : PTransformNode) (environment : Environment) : Bool :=
  match pipeline.getEnvironment operation.transform with
  | some own => sameEnvironment own environment
  | none => false

def canFuseTransform (node : PTransformNode) (environment : Environment)
    (candidate : PCollectionNode) : Bool :=
  if node.getUrn ∈ [Urn.parDo, .splittablePairWithRestriction, .splittableSplitAndSize] then
    pipeline.canFuseParDo node environment candidate
  else if node.getUrn ∈ Urn.combineFusible ∨ node.getUrn = .assignWindows then
    pipeline.canFuseCompatibleEnv node environment
  else decide (node.getUrn = .flatten)

def anySideInputs (consumer : PTransformNode) : Bool :=
  (storeValues consumer.transform.inputs).any fun inputId =>
    match pipeline.pcollectionNode inputId with
    | some collection => !(pipeline.getSingletonConsumers collection).isEmpty
    | none => false

def canFuse (candidate : PCollectionNode) (environment : Environment) : PCollectionFusibility :=
  if (pipeline.getPerElementConsumers candidate).any fun consumer =>
      pipeline.anySideInputs consumer ||
        !pipeline.canFuseTransform consumer environment candidate then .materialize
  else if (pipeline.getSingletonConsumers candidate).isEmpty then .fuse
  else .materialize

end QueryablePipeline
end FlareDB
