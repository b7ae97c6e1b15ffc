import FlareDB.Engine.Watermark.State
import FlareDB.Lib.Stabilize

/-! Graph-level watermark propagation and stage eligibility: the stages, the
wiring of their PCollections, and the operations the scheduler drives them
with. -/
namespace FlareDB

open KeyedStore

/-- The stages with their PCollection wiring: who produces a PCollection, who
reads it as a main input, and who reads it as a side input. -/
structure WatermarkManager where
  stages : Store StageId StageState
  producers : Store PCollectionId StageId
  consumers : Store PCollectionId (List StageId)
  sideInputConsumers : Store PCollectionId (List StageId)

namespace WatermarkManager

def new : WatermarkManager where
  stages := ∅
  producers := ∅
  consumers := ∅
  sideInputConsumers := ∅

/-- Record a reader of a PCollection once. -/
def addConsumer (stage : StageId) (consumers : Store PCollectionId (List StageId))
    (input : PCollectionId) : Store PCollectionId (List StageId) :=
  let known := (consumers.lookup input).getD []
  consumers.insert input (if stage ∈ known then known else known ++ [stage])

/-- Register a stage and its PCollection wiring. -/
def addStage (manager : WatermarkManager) (stage : StageId)
    (mainInputs sideInputs outputs : List PCollectionId) : WatermarkManager where
  stages := manager.stages.insert stage (StageState.init mainInputs sideInputs outputs)
  producers := outputs.foldl (fun producers output => producers.insert output stage)
    manager.producers
  consumers := mainInputs.foldl (addConsumer stage) manager.consumers
  sideInputConsumers := sideInputs.foldl (addConsumer stage) manager.sideInputConsumers

variable (manager : WatermarkManager)

/-- All registered stage ids, sorted. -/
def stageIds : List StageId :=
  manager.stages.keys.insertionSort (· ≤ ·)

def consumersOf (pcollection : PCollectionId) : List StageId :=
  (manager.consumers.lookup pcollection).getD []

def sideInputConsumersOf (pcollection : PCollectionId) : List StageId :=
  (manager.sideInputConsumers.lookup pcollection).getD []

/-- The stage that produces a PCollection, when it is wired and registered. -/
def producerOf (pcollection : PCollectionId) : Option StageState :=
  (manager.producers.lookup pcollection).bind manager.stages.lookup

def modifyStage (id : StageId) (f : StageState → StageState) : WatermarkManager :=
  { manager with stages := modify id f manager.stages }

def mapStages (f : StageId → StageState → StageState) : WatermarkManager :=
  { manager with stages := mapKeyed f manager.stages }

def unknownStage (id : StageId) : String :=
  "unknown stage '" ++ id ++ "'"

/-- Change a registered stage, or report that it is unknown. -/
def withStage (id : StageId) (f : StageState → StageState) : Except String WatermarkManager :=
  match manager.stages.lookup id with
  | none => .error (unknownStage id)
  | some _ => .ok (manager.modifyStage id f)

/-- Change the reports of a source, or report that the stage is not one. -/
def withSource (id : StageId) (f : SourceState → SourceState) :
    Except String WatermarkManager :=
  match manager.stages.lookup id with
  | none => .error (unknownStage id)
  | some stage =>
      if stage.source.isNone then
        .error ("stage '" ++ id ++ "' is not a source (it has main inputs)")
      else .ok (manager.modifyStage id fun stage => { stage with source := stage.source.map f })

/-- Report a source partition's watermark, monotonic per partition. -/
def reportSourcePartitionWatermark (id : StageId) (partition : String) (timestamp : Timestamp) :
    Except String WatermarkManager :=
  manager.withSource id fun source =>
    let entry := (source.partitions.lookup partition).getD PartitionWatermark.default
    { source with
      partitions := source.partitions.insert partition
        { watermark := max entry.watermark timestamp, idle := false } }

/-- Report a source's watermark for its default partition. -/
def reportSourceWatermark (id : StageId) (timestamp : Timestamp) :
    Except String WatermarkManager :=
  manager.reportSourcePartitionWatermark id "" timestamp

def setSourcePartitionIdle (id : StageId) (partition : String) (idle : Bool) :
    Except String WatermarkManager :=
  manager.withSource id fun source =>
    let entry := (source.partitions.lookup partition).getD PartitionWatermark.default
    { source with partitions := source.partitions.insert partition { entry with idle := idle } }

def reportSourceFinished (id : StageId) : Except String WatermarkManager :=
  manager.withSource id fun source => { source with finished := true }

def setSourceAutoFinish (id : StageId) (autoFinish : Bool) : Except String WatermarkManager :=
  manager.withSource id fun source => { source with autoFinish := autoFinish }

def addHold (id : StageId) (timestamp : Timestamp) : Except String WatermarkManager :=
  manager.withStage id fun stage =>
    { stage with watermarkHolds := timestamp :: stage.watermarkHolds }

/-- Release one hold at a timestamp, if there is one. -/
def releaseHold (id : StageId) (timestamp : Timestamp) : Except String WatermarkManager :=
  manager.withStage id fun stage =>
    { stage with watermarkHolds := stage.watermarkHolds.erase timestamp }

/-- Replace every stage's event-time holds; a stage without an entry has none. -/
def setEventTimeHolds (holds : Store StageId (List Timestamp)) : WatermarkManager :=
  manager.mapStages fun id stage =>
    { stage with watermarkHolds := (holds.lookup id).getD [] }

/-- Replace every stage's deferred-work holds; a stage without an entry has
none. -/
def setResidualHolds (holds : Store StageId (List Timestamp)) : WatermarkManager :=
  manager.mapStages fun id stage =>
    { stage with residualHolds := (holds.lookup id).getD [] }

def setStageKind (id : StageId) (kind : StageKind) : Except String WatermarkManager :=
  manager.withStage id fun stage => { stage with kind := kind }

def setRequiredWatermark (id : StageId) (watermark : Timestamp) :
    Except String WatermarkManager :=
  manager.withStage id fun stage => { stage with requiredWatermark := watermark }

def setMaxInFlight (id : StageId) (maxInFlight : Nat) : Except String WatermarkManager :=
  manager.withStage id fun stage => { stage with maxInFlight := max maxInFlight 1 }

/-- Declare bundle work items, each consumed by one started bundle. -/
def enqueueBundles (id : StageId) (count : Nat) : Except String WatermarkManager :=
  manager.withStage id fun stage => { stage with queued := stage.queued + count }

/-- Re-arm a stage to run another bundle. -/
def markRerun (id : StageId) : Except String WatermarkManager :=
  manager.withStage id fun stage => { stage with rerunPending := true }

/-- Output watermark of the stage producing a PCollection; the smallest
timestamp when the producer is unknown. -/
def upstream (pcollection : PCollectionId) : Timestamp :=
  ((manager.producerOf pcollection).map StageState.output).getD minTimestamp

/-- The minimum of the upstream watermarks of some inputs. -/
def upstreamMin (inputs : List PCollectionId) : Timestamp :=
  inputs.foldl (fun watermark input => min watermark (manager.upstream input)) maxTimestamp

def computeInput (stage : StageState) : Timestamp :=
  if stage.isSource then maxTimestamp else manager.upstreamMin stage.inputs

/-- What a stage may publish before any hold: the source's own report, or the
main upstream watermarks clamped by unconsumed input. -/
def producedWatermark (stage : StageState) : Timestamp :=
  match stage.source with
  | some source => source.output
  | none => min (manager.upstreamMin stage.mainInputs) stage.pendingMin

/-- The output watermark of a stage. A bundle of the first run that is running
or queued is itself a hold, and so is an input whose last completion was
empty. -/
def computeOutput (stage : StageState) : Timestamp :=
  let produced := manager.producedWatermark stage
  let bundled :=
    if stage.completed = false ∧ (0 < stage.inFlight ∨ 0 < stage.queued) then
      min produced stage.watermarkAtLastRun
    else produced
  let populated := if stage.pendingEmpty ≠ ∅ then min bundled minTimestamp else bundled
  match stage.minHold with
  | some hold => min populated hold
  | none => populated

/-- Move a stage's watermarks up to what its producers now allow, never down. -/
def advanceStage (id : StageId) (stage : StageState) : WatermarkManager :=
  manager.modifyStage id fun current =>
    current.withWatermarks (max current.input (manager.computeInput stage))
      (max current.output (manager.computeOutput stage))

/-- One stage of a refresh pass. The list collects the stages that moved. -/
def refreshStage (state : (WatermarkManager × List StageId) × Bool) (id : StageId) :
    (WatermarkManager × List StageId) × Bool :=
  match state.1.1.stages.lookup id with
  | none => state
  | some stage =>
      if stage.input < state.1.1.computeInput stage ∨
          stage.output < state.1.1.computeOutput stage then
        ((state.1.1.advanceStage id stage, state.1.2.insert id), true)
      else state

/-- One pass over every stage, and whether any of them moved. -/
def refreshPass (state : WatermarkManager × List StageId) :
    (WatermarkManager × List StageId) × Bool :=
  state.1.stageIds.foldl refreshStage (state, false)

/-- How far the watermarks can still move. -/
def headroom : Nat :=
  (manager.stages.entries.map fun entry =>
    (maxTimestamp - entry.2.input).toNat + (maxTimestamp - entry.2.output).toNat).sum

/-- Advance every watermark to a fixpoint, and the stages that moved. -/
def refreshAdvanced : WatermarkManager × List StageId :=
  let settled := Stabilize.loop refreshPass (manager.headroom + 1) (manager, [])
  (settled.1, settled.2.insertionSort (· ≤ ·))

def refresh : WatermarkManager :=
  manager.refreshAdvanced.1

/-- Whether the producers above a stage, and theirs in turn, are quiescent. The
fuel bounds the length of the chain, which on an acyclic graph is less than the
number of stages. -/
def upstreamChainIsQuiescent : Nat → StageState → Bool
  | 0, _ => false
  | fuel + 1, stage =>
      (stage.inputs.filterMap manager.producerOf).all fun producer =>
        producer.isQuiescent && upstreamChainIsQuiescent fuel producer

def stageIsReady (id : StageId) : Bool :=
  match manager.stages.lookup id with
  | none => false
  | some stage =>
      if stage.isReadyWithoutUpstreamBarrier = false then false
      else if stage.kind = .ordinary then true
      else manager.upstreamChainIsQuiescent manager.stages.entries.length stage

/-- Stages that may run a bundle now, sorted. -/
def readyStages : List StageId :=
  (manager.stages.keys.filter manager.stageIsReady).insertionSort (· ≤ ·)

/-- Mark that a bundle of a stage has started. -/
def startBundle (id : StageId) : Except String WatermarkManager :=
  match manager.stages.lookup id with
  | none => .error (unknownStage id)
  | some stage =>
      match stage.startError id with
      | some error => .error error
      | none => .ok (manager.modifyStage id StageState.started)

/-- Change one consumer, and note it if that makes it ready. -/
def notifyConsumer (f : StageState → StageState) (state : WatermarkManager × List StageId)
    (consumer : StageId) : WatermarkManager × List StageId :=
  let manager := state.1.modifyStage consumer f
  (manager, if manager.stageIsReady consumer then state.2 ++ [consumer] else state.2)

/-- Tell the readers of one output PCollection about a completed bundle. -/
def notifyConsumers (isEmpty : Bool) (outputMin : Option Timestamp)
    (state : WatermarkManager × List StageId) (pcollection : PCollectionId) :
    WatermarkManager × List StageId :=
  let notified := (state.1.consumersOf pcollection).foldl
    (notifyConsumer fun stage => stage.receiveMain pcollection isEmpty outputMin) state
  (notified.1.sideInputConsumersOf pcollection).foldl
    (notifyConsumer fun stage => stage.receiveSide pcollection isEmpty) notified

/-- Mark a bundle complete and wake the readers of every output. A bundle that
had no input and committed no timestamp, or whose stage itself reads an empty
input, leaves its outputs empty. The stages that became ready are returned. -/
def completeBundleWithMinAndInput (id : StageId) (outputMin : Option Timestamp)
    (inputCount : Option Nat) : Except String (WatermarkManager × List StageId) :=
  match manager.stages.lookup id with
  | none => .error (unknownStage id)
  | some stage =>
      if stage.inFlight = 0 then .error ("stage '" ++ id ++ "' has no bundle in flight")
      else
        let hasEmptyInputs := decide (stage.pendingEmpty ≠ ∅)
        let producedNothing := outputMin.isNone && decide (inputCount = some 0)
        let propagatedMin := if hasEmptyInputs then some minTimestamp else outputMin
        let woken := stage.outputs.foldl
          (notifyConsumers (producedNothing || hasEmptyInputs) propagatedMin)
          (manager.modifyStage id StageState.finished, [])
        .ok (woken.1, (woken.2.insertionSort (· ≤ ·)).dedup)

/-- Whether every stage is done. -/
def isComplete : Bool :=
  manager.stages.entries.all fun entry => entry.2.isDone

/-- Release the empty-input holds of every stage. Returns how many stages held
any; the watermarks are refreshed if one did. -/
def releaseEmptyInputHolds : WatermarkManager × Nat :=
  let released := manager.stages.entries.countP fun entry => decide (entry.2.pendingEmpty ≠ ∅)
  let settled := manager.mapStages fun _ stage => stage.releaseEmpty
  (if 0 < released then settled.refresh else settled, released)

/-- Whether a bundle's input watermark stays at or below every hold of the
stage's producers: their outstanding first-run bundles and their explicit
holds. -/
def validateBundleInputWatermark (id : StageId) (watermark : Timestamp) : Except String Unit :=
  match manager.stages.lookup id with
  | none => .error (unknownStage id)
  | some stage =>
      stage.inputs.forM fun input =>
        match manager.producers.lookup input with
        | none => .ok ()
        | some producerId =>
            match manager.stages.lookup producerId with
            | none => .ok ()
            | some producer =>
                match producer.outstandingHold with
                | none => .ok ()
                | some hold =>
                    if hold < watermark then
                      .error ("watermark invariant violated: stage '" ++ id ++
                        "' was handed input watermark " ++ formatTimestamp watermark ++
                        " while upstream '" ++ producerId ++ "' still holds " ++
                        formatTimestamp hold)
                    else .ok ()

end WatermarkManager

end FlareDB
