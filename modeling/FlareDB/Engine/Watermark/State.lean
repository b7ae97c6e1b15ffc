import FlareDB.Coders.Window
import FlareDB.Lib.KeyedStore
import Mathlib.Data.Finset.Basic
import Mathlib.Data.String.Basic
import Mathlib.Data.List.Sort

/-! The watermark, hold and pending state of one stage, and the decisions that
need nothing but this state: its earliest hold, whether it has work, what a
started bundle and a producer's completion change. -/
namespace FlareDB

open KeyedStore

/-- A watermark in milliseconds since the Unix epoch. Watermarks are compared
and never added, so the model does not bound them. -/
abbrev Timestamp := Int

def minTimestamp : Timestamp := beamMinTimestampMillis.toInt

def maxTimestamp : Timestamp := beamMaxTimestampMillis.toInt

abbrev StageId := String

abbrev PCollectionId := String

/-- Render a watermark: the two sentinels read as infinities. -/
def formatTimestamp (timestamp : Timestamp) : String :=
  if timestamp ≤ minTimestamp then "-inf"
  else if maxTimestamp ≤ timestamp then "+inf"
  else toString timestamp

theorem minTimestamp_le_maxTimestamp : minTimestamp ≤ maxTimestamp := by decide

structure PartitionWatermark where
  watermark : Timestamp
  idle : Bool
deriving DecidableEq, Repr

/-- A partition nothing has been reported for, as `or_default` creates it. -/
def PartitionWatermark.default : PartitionWatermark where
  watermark := 0
  idle := false

/-- External watermark reports for a source stage. -/
structure SourceState where
  partitions : Store String PartitionWatermark
  finished : Bool
  autoFinish : Bool

def SourceState.default : SourceState where
  partitions := ∅
  finished := false
  autoFinish := true

/-- The source's output watermark: the largest timestamp once finished, the
smallest while no partition has reported, else the minimum over the partitions
that are not idle. -/
def SourceState.output (source : SourceState) : Timestamp :=
  if source.finished then maxTimestamp
  else if source.partitions.entries.isEmpty then minTimestamp
  else source.partitions.entries.foldl
    (fun watermark entry =>
      if entry.2.idle then watermark else min watermark entry.2.watermark)
    maxTimestamp

theorem foldl_partitions_le (entries : List (Sigma fun _ : String => PartitionWatermark))
    (bound : Timestamp) :
    entries.foldl (fun watermark entry =>
      if entry.2.idle then watermark else min watermark entry.2.watermark) bound ≤ bound := by
  induction entries generalizing bound with
  | nil => exact le_refl bound
  | cons entry rest ih =>
      rw [List.foldl_cons]
      refine (ih _).trans ?_
      split
      · exact le_refl bound
      · exact min_le_left _ _

theorem SourceState.output_le (source : SourceState) : source.output ≤ maxTimestamp := by
  unfold SourceState.output
  split
  · exact le_refl _
  · split
    · exact minTimestamp_le_maxTimestamp
    · exact foldl_partitions_le _ _

/-- How a stage becomes eligible for a bundle. -/
inductive StageKind where
  | ordinary
  | watermarkGated
  | timeSortedInputWatermarkGated
deriving DecidableEq, Repr

/-- Per-stage watermark, hold and pending state. The two hold fields are
multisets of timestamps. -/
structure StageState where
  mainInputs : List PCollectionId
  sideInputs : List PCollectionId
  outputs : List PCollectionId
  source : Option SourceState
  input : Timestamp
  output : Timestamp
  watermarkHolds : List Timestamp
  residualHolds : List Timestamp
  unproduced : Finset PCollectionId
  unproducedSideInputs : Finset PCollectionId
  pending : Finset PCollectionId
  pendingMin : Timestamp
  inFlight : Nat
  queued : Nat
  maxInFlight : Nat
  completed : Bool
  rerunPending : Bool
  kind : StageKind
  timeSortedInputClosed : Bool
  requiredWatermark : Timestamp
  watermarkAtLastRun : Timestamp
  pendingEmpty : Finset PCollectionId

namespace StageState

/-- The state of a newly registered stage. A stage without main inputs is a
source, whose input watermark is already maximal. -/
def init (mainInputs sideInputs outputs : List PCollectionId) : StageState where
  mainInputs := mainInputs
  sideInputs := sideInputs
  outputs := outputs
  source := if mainInputs.isEmpty then some SourceState.default else none
  input := if mainInputs.isEmpty then maxTimestamp else minTimestamp
  output := minTimestamp
  watermarkHolds := []
  residualHolds := []
  unproduced := mainInputs.toFinset
  unproducedSideInputs := sideInputs.toFinset
  pending := ∅
  pendingMin := maxTimestamp
  inFlight := 0
  queued := 0
  maxInFlight := 1
  completed := false
  rerunPending := false
  kind := .ordinary
  timeSortedInputClosed := false
  requiredWatermark := minTimestamp
  watermarkAtLastRun := minTimestamp
  pendingEmpty := ∅

variable (stage : StageState)

def isSource : Bool :=
  stage.source.isSome

/-- The PCollections the stage reads, main inputs first. -/
def inputs : List PCollectionId :=
  stage.mainInputs ++ stage.sideInputs

/-- The earliest hold over the event-time and the deferred-work holds. -/
def minHold : Option Timestamp :=
  match stage.watermarkHolds.min?, stage.residualHolds.min? with
  | some timer, some residual => some (min timer residual)
  | some timer, none => some timer
  | none, some residual => some residual
  | none, none => none

/-- The earliest hold a consumer must respect: the explicit holds and, on the
first run, the bundle that is running or queued. -/
def outstandingHold : Option Timestamp :=
  let outstandingBundle :=
    if stage.completed = false ∧ (0 < stage.inFlight ∨ 0 < stage.queued) then
      some stage.watermarkAtLastRun
    else none
  match outstandingBundle, stage.minHold with
  | some bundle, some held => some (min bundle held)
  | some bundle, none => some bundle
  | none, some held => some held
  | none, none => none

/-- The input watermark clamped by the oldest unconsumed input. -/
def effectiveInput : Timestamp :=
  min stage.input stage.pendingMin

/-- Whether a stage that may run has something to run for. -/
def hasWork : Bool :=
  if stage.completed then
    stage.rerunPending || decide (0 < stage.queued) || decide (stage.pending ≠ ∅) ||
      (decide (stage.kind = .watermarkGated) &&
        decide (stage.watermarkAtLastRun < stage.effectiveInput))
  else true

def isReadyWithoutUpstreamBarrier : Bool :=
  if stage.maxInFlight ≤ stage.inFlight ∨ stage.unproduced ≠ ∅ ∨
      stage.unproducedSideInputs ≠ ∅ then false
  else if stage.completed = false ∧ 0 < stage.inFlight ∧ stage.queued = 0 then false
  else if stage.hasWork = false then false
  else
    match stage.kind with
    | .ordinary => true
    | .watermarkGated | .timeSortedInputWatermarkGated =>
        decide (stage.requiredWatermark ≤ stage.input)

/-- Why `start_bundle` refuses a stage, in the order it checks. -/
def startError (id : StageId) : Option String :=
  if stage.maxInFlight ≤ stage.inFlight then
    some ("stage '" ++ id ++ "' already has its maximum number of bundles in flight")
  else if stage.completed = false ∧ 0 < stage.inFlight ∧ stage.queued = 0 then
    some ("stage '" ++ id ++ "' already has its first bundle in flight and no queued work items")
  else if stage.completed = true ∧ stage.rerunPending = false ∧ stage.queued = 0 ∧
      ¬(stage.kind = .watermarkGated ∧ stage.watermarkAtLastRun < stage.input) ∧
      stage.pending = ∅ then
    some ("stage '" ++ id ++ "' has already completed and is not re-armed")
  else if stage.unproduced ≠ ∅ then
    some ("stage '" ++ id ++ "' still has unproduced main inputs")
  else none

/-- The stage once a bundle of it has started. The first bundle of a wave takes
everything pending and records the effective input watermark. -/
def started : StageState :=
  let counted : StageState :=
    { stage with
      inFlight := stage.inFlight + 1
      queued := stage.queued - 1
      rerunPending := false
      timeSortedInputClosed := stage.timeSortedInputClosed ||
        (decide (stage.kind = .timeSortedInputWatermarkGated) &&
          decide (stage.requiredWatermark ≤ stage.input)) }
  if stage.inFlight = 0 then
    { counted with
      pending := ∅
      pendingMin := maxTimestamp
      watermarkAtLastRun := stage.effectiveInput }
  else counted

/-- The stage once one of its bundles has completed. -/
def finished : StageState :=
  { stage with inFlight := stage.inFlight - 1, completed := true }

def withWatermarks (input output : Timestamp) : StageState :=
  { stage with input := input, output := output }

/-- What a consumer records when the producer of a main input completes: the
input is produced and pending, unless time-sorted input is closed and the rows
are dropped as late. -/
def receiveMain (pcollection : PCollectionId) (isEmpty : Bool) (outputMin : Option Timestamp) :
    StageState :=
  let produced : StageState := { stage with unproduced := stage.unproduced.erase pcollection }
  if stage.timeSortedInputClosed then produced
  else
    { produced with
      pending := insert pcollection stage.pending
      pendingEmpty :=
        if isEmpty then insert pcollection stage.pendingEmpty
        else stage.pendingEmpty.erase pcollection
      pendingMin := outputMin.elim stage.pendingMin (min stage.pendingMin) }

/-- What a consumer records when the producer of a side input completes. -/
def receiveSide (pcollection : PCollectionId) (isEmpty : Bool) : StageState :=
  if isEmpty then
    { stage with pendingEmpty := insert pcollection stage.pendingEmpty }
  else
    { stage with
      pendingEmpty := stage.pendingEmpty.erase pcollection
      unproducedSideInputs := stage.unproducedSideInputs.erase pcollection }

/-- Empty inputs become final: they no longer hold the output back, and the
empty side inputs count as produced. -/
def releaseEmpty : StageState :=
  { stage with
    pendingEmpty := ∅
    unproducedSideInputs :=
      stage.unproducedSideInputs.filter fun input =>
        ¬(input ∈ stage.pendingEmpty ∧ input ∈ stage.sideInputs) }

/-- Whether nothing is left to do for the stage. -/
def isDone : Bool :=
  stage.completed && decide (stage.unproducedSideInputs = ∅) && decide (stage.pending = ∅) &&
    !stage.rerunPending && decide (stage.queued = 0) && decide (stage.inFlight = 0) &&
    !(decide (stage.kind = .watermarkGated) && decide (stage.watermarkAtLastRun < stage.input))

/-- Whether the stage itself has no outstanding work, as a gated consumer below
it requires. -/
def isQuiescent : Bool :=
  stage.completed && decide (stage.inFlight = 0) && decide (stage.queued = 0) &&
    decide (stage.pending = ∅) && !stage.rerunPending && decide (stage.pendingEmpty = ∅) &&
    stage.minHold.isNone

/-- A watermark is at or below the earliest hold exactly if it is at or below
every hold. -/
theorem forall_minHold_iff (watermark : Timestamp) :
    (∀ hold, stage.minHold = some hold → watermark ≤ hold) ↔
      ∀ hold ∈ stage.watermarkHolds ++ stage.residualHolds, watermark ≤ hold := by
  have hMin : ∀ holds : List Timestamp, (∀ hold, holds.min? = some hold → watermark ≤ hold) ↔
      ∀ hold ∈ holds, watermark ≤ hold := by
    intro holds
    cases hMin : holds.min? with
    | none => simp [List.min?_eq_none_iff.mp hMin]
    | some least =>
        simp only [Option.some.injEq, forall_eq']
        exact List.le_min?_iff hMin
  rw [List.forall_mem_append, ← hMin, ← hMin]
  unfold minHold
  cases stage.watermarkHolds.min? <;> cases stage.residualHolds.min? <;> simp

theorem receiveMain_receiveMain (pcollection : PCollectionId) (isEmpty : Bool)
    (outputMin : Option Timestamp) :
    (stage.receiveMain pcollection isEmpty outputMin).receiveMain pcollection isEmpty outputMin =
      stage.receiveMain pcollection isEmpty outputMin := by
  unfold receiveMain
  cases stage.timeSortedInputClosed <;> cases isEmpty <;> cases outputMin <;> simp

theorem receiveSide_receiveSide (pcollection : PCollectionId) (isEmpty : Bool) :
    (stage.receiveSide pcollection isEmpty).receiveSide pcollection isEmpty =
      stage.receiveSide pcollection isEmpty := by
  cases isEmpty <;> simp [receiveSide]

end StageState

end FlareDB
