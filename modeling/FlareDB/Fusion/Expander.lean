import FlareDB.Coders.PickledLeaves
import FlareDB.Lib.FreshNames

/-! Splittable ParDos replaced by the chain of their components. A hash map is a
store under unique keys; the order in which it lists them is arbitrary. -/
namespace FlareDB.Expander

open KeyedStore FreshNames

abbrev FunctionSpec := CoderSpec

/-- The fields of a ParDo payload that the expansion reads. -/
structure ParDoPayload where
  restrictionCoderId : String
  sideInputs : List String
deriving DecidableEq, Repr

structure PCollection where
  uniqueName : String
  coderId : String
  isBounded : Int
  windowingStrategyId : String
deriving DecidableEq, Repr

structure PTransform where
  uniqueName : String
  spec : Option FunctionSpec
  subtransforms : List String
  inputs : Store String String
  outputs : Store String String
  environmentId : String

structure Components where
  coders : Store String Coder
  pcollections : Store String PCollection
  transforms : Store String PTransform

def parDoTransform : String := "beam:transform:pardo:v1"

def kvCoder : String := "beam:coder:kv:v1"

def doubleCoder : String := "beam:coder:double:v1"

/-- The members of a chain, in its order. -/
inductive SdfRole where
  | pairWithRestriction
  | splitAndSize
  | truncateAndSize
  | processSizedElementsAndRestrictions
deriving DecidableEq, Repr

def SdfRole.urn : SdfRole → String
  | pairWithRestriction => "beam:transform:sdf_pair_with_restriction:v1"
  | splitAndSize => "beam:transform:sdf_split_and_size_restrictions:v1"
  | truncateAndSize => "beam:transform:sdf_truncate_sized_restrictions:v1"
  | processSizedElementsAndRestrictions =>
      "beam:transform:sdf_process_sized_element_and_restrictions:v1"

def SdfRole.label : SdfRole → String
  | pairWithRestriction => "PairWithRestriction"
  | splitAndSize => "SplitAndSize"
  | truncateAndSize => "TruncateAndSize"
  | processSizedElementsAndRestrictions => "ProcessSizedElementsAndRestrictions"

/-- The members whose outputs are new. -/
def linkRoles (isDrain : Bool) : List SdfRole :=
  [.pairWithRestriction, .splitAndSize] ++ if isDrain then [.truncateAndSize] else []

def memberRoles (isDrain : Bool) : List SdfRole :=
  linkRoles isDrain ++ [.processSizedElementsAndRestrictions]

/-- The orders in which hash maps list their keys. -/
structure HashOrders where
  transforms : List String → List String
  inputs : String → List String → List String
  coders : List String → List String
  transforms_perm : ∀ keys, (transforms keys).Perm keys
  inputs_perm : ∀ transformId keys, (inputs transformId keys).Perm keys
  coders_perm : ∀ keys, (coders keys).Perm keys

/-! Building blocks of the chain. -/

def makeKvCoder (keyCoderId valueCoderId : String) : Coder :=
  ⟨some ⟨kvCoder, []⟩, [keyCoderId, valueCoderId]⟩

def pcollectionNames (existing : Components) : List String :=
  existing.pcollections.entries.map fun entry => entry.2.uniqueName

/-- The name is looked up among the PCollections, whatever it is for. -/
def generateUniquePcollectionName (stem : String) (existing : Components) : String :=
  fresh (pcollectionNames existing) stem

def makePcollection (coderId : String) (template : PCollection) (uniqueNamePrefix : String)
    (existing : Components) : PCollection where
  uniqueName := generateUniquePcollectionName uniqueNamePrefix existing
  coderId := coderId
  isBounded := template.isBounded
  windowingStrategyId := template.windowingStrategyId

def makeSdfSubTransform (urn : String) (payload : List UInt8) (inputs outputs : Store String String)
    (uniqueNamePrefix environmentId : String) (existing : Components) : PTransform where
  uniqueName := generateUniquePcollectionName uniqueNamePrefix existing
  spec := some ⟨urn, payload⟩
  subtransforms := []
  inputs := inputs
  outputs := outputs
  environmentId := environmentId

def isDoubleCoder (existing : Components) (id : String) : Bool :=
  (existing.coders.lookup id).elim false fun coder => coder.hasUrn doubleCoder

def existingDoubleCoder (orders : HashOrders) (existing : Components) : Option String :=
  (orders.coders existing.coders.keys).find? (isDoubleCoder existing)

/-- The id of a double coder and the new coders, with it if it had to be made. -/
def getOrAddDoubleCoder (orders : HashOrders) (existing : Components) (out : Store String Coder) :
    String × Store String Coder :=
  match existingDoubleCoder orders existing with
  | some id => (id, out)
  | none =>
      let doubleCoderId := fresh existing.coders.keys "DoubleCoder"
      (doubleCoderId, out.insert doubleCoderId ⟨some ⟨doubleCoder, []⟩, []⟩)

/-- The first input that is no side input, or else any. -/
def getMainInputNameFromPayload (names : List String) (payload : ParDoPayload) : String :=
  match names.find? fun name => name ∉ payload.sideInputs with
  | some name => name
  | none => names.headD ""

/-! One ParDo. -/

/-- A splittable ParDo with its main input. -/
structure SplittableParDo where
  transformId : String
  parDo : PTransform
  payloadBytes : List UInt8
  payload : ParDoPayload
  mainInputName : String
  mainInputPcolId : String
  mainInputPcol : PCollection

section

variable (decode : List UInt8 → Option ParDoPayload) (orders : HashOrders)

def findSplittableParDo (transformId : String) (existing : Components) :
    Option SplittableParDo := do
  let parDo ← existing.transforms.lookup transformId
  let spec ← parDo.spec
  let payload ← decode spec.payload
  if payload.restrictionCoderId.isEmpty then none
  else do
    let mainInputName :=
      getMainInputNameFromPayload (orders.inputs transformId parDo.inputs.keys) payload
    let mainInputPcolId ← parDo.inputs.lookup mainInputName
    let mainInputPcol ← existing.pcollections.lookup mainInputPcolId
    pure ⟨transformId, parDo, spec.payload, payload, mainInputName, mainInputPcolId, mainInputPcol⟩

end

namespace SplittableParDo

variable (found : SplittableParDo) (existing : Components)

def coderId (role : SdfRole) : String :=
  fresh existing.coders.keys (labelled found.mainInputPcol.coderId role.label)

def outId (role : SdfRole) : String :=
  fresh existing.pcollections.keys (labelled found.mainInputPcolId role.label)

def memberId (role : SdfRole) : String :=
  fresh existing.transforms.keys (labelled found.transformId role.label)

def outPcollection (role : SdfRole) : PCollection :=
  makePcollection (found.coderId existing role) found.mainInputPcol
    (labelled found.mainInputPcol.uniqueName role.label) existing

/-- Only the inputs that the payload names. -/
def sideInputs : Store String String :=
  keep (fun name => name ∈ found.payload.sideInputs) found.parDo.inputs

/-- The main input from the member before, with the side inputs. -/
def chainedInputs (pcolId : String) : Store String String :=
  found.sideInputs ∪ (∅ : Store String String).insert found.mainInputName pcolId

def memberInputs (isDrain : Bool) : SdfRole → Store String String
  | .pairWithRestriction => found.parDo.inputs
  | .splitAndSize => found.chainedInputs (found.outId existing .pairWithRestriction)
  | .truncateAndSize => found.chainedInputs (found.outId existing .splitAndSize)
  | .processSizedElementsAndRestrictions =>
      found.chainedInputs
        (found.outId existing (if isDrain then .truncateAndSize else .splitAndSize))

def memberOutputs : SdfRole → Store String String
  | .processSizedElementsAndRestrictions => found.parDo.outputs
  | role => (∅ : Store String String).insert "out" (found.outId existing role)

def member (isDrain : Bool) (role : SdfRole) : PTransform :=
  makeSdfSubTransform role.urn found.payloadBytes (found.memberInputs existing isDrain role)
    (found.memberOutputs existing role) (labelled found.parDo.uniqueName role.label)
    found.parDo.environmentId existing

/-- The new coders: KV of element and restriction, of that and a size, and when
draining of that and a size again. -/
def newCoders (orders : HashOrders) (isDrain : Bool) : Store String Coder :=
  let coders := (∅ : Store String Coder).insert (found.coderId existing .pairWithRestriction)
    (makeKvCoder found.mainInputPcol.coderId found.payload.restrictionCoderId)
  let (doubleCoderId, coders) := getOrAddDoubleCoder orders existing coders
  let coders := coders.insert (found.coderId existing .splitAndSize)
    (makeKvCoder (found.coderId existing .pairWithRestriction) doubleCoderId)
  if isDrain then
    let (double2Id, coders) := getOrAddDoubleCoder orders existing coders
    coders.insert (found.coderId existing .truncateAndSize)
      (makeKvCoder (found.coderId existing .splitAndSize) double2Id)
  else coders

def newPcollections (isDrain : Bool) : Store String PCollection :=
  ofPairs ((linkRoles isDrain).map fun role =>
    (found.outId existing role, found.outPcollection existing role))

def newTransforms (isDrain : Bool) : Store String PTransform :=
  ofPairs ((memberRoles isDrain).map fun role =>
    (found.memberId existing role, found.member existing isDrain role))

/-- The ParDo without its spec: a composite of the chain. -/
def compositeRoot (isDrain : Bool) : PTransform :=
  { found.parDo with
    spec := none
    subtransforms := (memberRoles isDrain).map (found.memberId existing) }

end SplittableParDo

/-- A transform that replaces another, with its components. -/
structure Replacement where
  root : PTransform
  components : Components

/-- The replacement of a splittable ParDo, in drain mode with a truncation. -/
def getReplacement (decode : List UInt8 → Option ParDoPayload) (orders : HashOrders)
    (isDrain : Bool) (transformId : String) (existing : Components) : Option Replacement :=
  (findSplittableParDo decode orders transformId existing).map fun found =>
    ⟨found.compositeRoot existing isDrain,
      found.newCoders existing orders isDrain,
      found.newPcollections existing isDrain,
      found.newTransforms existing isDrain⟩

/-! The whole pipeline. A pass that panics, or is still running when the fuel is
spent, has no result. -/

def removeSubtransforms : Nat → PTransform → Components → Option Components
  | 0, _, _ => none
  | fuel + 1, pt, target =>
      pt.subtransforms.foldlM (fun target subId =>
        match target.transforms.lookup subId with
        | none => some target
        | some sub => do
            let target ← removeSubtransforms fuel sub target
            pure { target with transforms := target.transforms.erase subId }) target

def Components.extend (result : Components) (updated : Components) : Components where
  coders := updated.coders ∪ result.coders
  pcollections := updated.pcollections ∪ result.pcollections
  transforms := updated.transforms ∪ result.transforms

/-- One transform of the snapshot. -/
def updateOne (urn : String) (replacement : String → Components → Option Replacement) (fuel : Nat)
    (result : Components) (transformId : String) : Option Components :=
  match result.transforms.lookup transformId with
  | none => some result
  | some transform =>
      if transform.spec.elim false fun spec => spec.urn == urn then
        match replacement transformId result with
        | none => some result
        | some updated =>
            if updated.root.outputs = transform.outputs then do
              let remaining ← removeSubtransforms fuel transform result
              let merged := remaining.extend updated.components
              pure { merged with transforms := merged.transforms.insert transformId updated.root }
            else none
      else some result

/-- `ids` is the snapshot of the transform ids. -/
def updateTransform (urn : String) (replacement : String → Components → Option Replacement)
    (fuel : Nat) (ids : List String) (components : Components) : Option Components :=
  ids.foldlM (updateOne urn replacement fuel) components

/-- The expansion of the splittable ParDos of a pipeline. -/
def expandSplittableParDos (decode : List UInt8 → Option ParDoPayload) (orders : HashOrders)
    (isDrain : Bool) (fuel : Nat) (components : Components) : Option Components :=
  updateTransform parDoTransform (getReplacement decode orders isDrain) fuel
    (orders.transforms components.transforms.keys) components

end FlareDB.Expander
