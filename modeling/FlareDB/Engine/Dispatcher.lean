import FlareDB.Engine.Scheduler

/-! The dispatcher loop: reconcile the holds with the durable timers, promote due
timers, start what is ready, and join what completes. -/
namespace FlareDB

open KeyedStore

/-- One deferred bundle's worth of splittable work: the element bytes to process
and the output watermarks it holds back. -/
structure SdfWorkItem where
  seed : List UInt8
  holds : List Timestamp
deriving DecidableEq

/-- Pending bundle work for one splittable stage, oldest first. -/
structure SdfQueue where
  initialized : Bool
  registered : Bool
  items : List SdfWorkItem

def SdfQueue.default : SdfQueue where
  initialized := false
  registered := false
  items := []

/-- A bundle that has been handed out and has not been joined. -/
structure RunningBundle where
  stage : StageId
  kind : NodeKind
  timers : List TimerEntry
  inputWatermark : Timestamp
  seed : Option SdfWorkItem
  initialized : Bool
  registered : Bool

/-- Whether executing the bundle reads the rows appended to its stage's input. A
worker bundle that was handed timers only fires them, and a splittable bundle
reads its input only to initialize. -/
def RunningBundle.readsInput (bundle : RunningBundle) : Bool :=
  match bundle.kind with
  | .worker => bundle.timers.isEmpty
  | .runner => true
  | .splittable => !bundle.initialized

/-- What a joined bundle leaves: the minimum event time its wave committed, the
rows it read, the timers it emitted and its residual work items. With it come the
split residuals that running bundles have announced and the loop has not yet
received. -/
structure BundleOutcome where
  outputMin : Option Timestamp
  inputCount : Nat
  timers : List TimerOutput
  items : List SdfWorkItem
  splits : List (StageId × SdfWorkItem)

/-- A runner source's report on its script. -/
structure SourceProgress where
  stage : StageId
  watermark : Option Timestamp
  done : Bool

structure Dispatcher where
  scheduler : NodeScheduler
  timers : TimerStore
  pendingTimers : Store StageId (List TimerEntry)
  sdfQueues : Store StageId SdfQueue
  residualHolds : Store StageId (List Timestamp)
  running : List RunningBundle

/-- Add holds to a stage's multiset. -/
def addHolds (holdsOf : Store StageId (List Timestamp)) (stage : StageId)
    (holds : List Timestamp) : Store StageId (List Timestamp) :=
  if holds.isEmpty then holdsOf
  else holdsOf.insert stage ((holdsOf.lookup stage).getD [] ++ holds)

/-- Remove one occurrence of each hold from a stage's multiset. -/
def removeHolds (holdsOf : Store StageId (List Timestamp)) (stage : StageId)
    (holds : List Timestamp) : Store StageId (List Timestamp) :=
  match holdsOf.lookup stage with
  | none => holdsOf
  | some held =>
      let left := held.diff holds
      if left.isEmpty then holdsOf.erase stage else holdsOf.insert stage left

namespace Dispatcher

/-- The dispatcher at the start of a run. -/
def start (scheduler : NodeScheduler) : Dispatcher where
  scheduler := scheduler
  timers := ∅
  pendingTimers := ∅
  sdfQueues := ∅
  residualHolds := ∅
  running := []

variable (dispatcher : Dispatcher)

def manager : WatermarkManager :=
  dispatcher.scheduler.watermarks

def withManager (manager : WatermarkManager) : Dispatcher :=
  { dispatcher with scheduler := { dispatcher.scheduler with watermarks := manager } }

/-- The queue of a splittable stage. -/
def sdfQueue (stage : StageId) : SdfQueue :=
  (dispatcher.sdfQueues.lookup stage).getD SdfQueue.default

/-- The holds of a list of timers, by owning stage. -/
def timerHolds (scheduler : NodeScheduler) (timers : List TimerEntry) :
    Store StageId (List Timestamp) :=
  timers.foldl
    (fun holdsOf timer =>
      match scheduler.stageForTransform timer.key.transformId with
      | none => holdsOf
      | some stage => addHolds holdsOf stage [timer.holdTimestamp])
    ∅

/-- Rebuild every stage's watermark holds from the durable event-time timers. -/
def syncEventTimeHolds : Dispatcher :=
  dispatcher.withManager (dispatcher.manager.setEventTimeHolds
    (timerHolds dispatcher.scheduler dispatcher.timers.allEventTimeTimers))

/-- Delete groups of fired timers and queue them for their stages. -/
def deliverTimers (groups : List (StageId × List TimerEntry)) : Dispatcher :=
  { dispatcher with
    timers := groups.foldl (fun store group => store.deleteAll group.2) dispatcher.timers
    pendingTimers :=
      groups.foldl (fun pending group => queueTimers pending group.1 group.2)
        dispatcher.pendingTimers }

/-- Promote every event-time timer its stage's input watermark has reached, and
how many there were. -/
def promoteDueEventTimeTimers : Dispatcher × Nat :=
  if dispatcher.timers.allEventTimeTimers.isEmpty then (dispatcher, 0)
  else
    let promoted := dispatcher.scheduler.promoteDueEventTimeTimers
      dispatcher.timers.allEventTimeTimers
    (({ dispatcher with scheduler := promoted.1 } : Dispatcher).deliverTimers promoted.2,
      (promoted.2.map fun group => group.2.length).sum)

/-- Hand out one started bundle: it takes the timers queued for its stage and,
for a splittable stage that has initialized, the oldest work item. -/
def spawn (id : StageId) : Except String Dispatcher := do
  let inputWatermark := (dispatcher.manager.bundleInputWatermark id).getD minTimestamp
  dispatcher.manager.validateBundleInputWatermark id inputWatermark
  let kind := (dispatcher.scheduler.nodes.lookup id).getD .runner
  let timers := (dispatcher.pendingTimers.lookup id).getD []
  let queue := dispatcher.sdfQueue id
  let taken := { dispatcher with pendingTimers := dispatcher.pendingTimers.erase id }
  match kind with
  | .splittable =>
      .ok { taken with
        sdfQueues := dispatcher.sdfQueues.insert id
          { queue with items := if queue.initialized then queue.items.tail else queue.items }
        running := dispatcher.running ++ [{
          stage := id
          kind := kind
          timers := timers
          inputWatermark := inputWatermark
          seed := if queue.initialized then queue.items.head? else none
          initialized := queue.initialized
          registered := queue.registered }] }
  | _ =>
      .ok { taken with
        running := dispatcher.running ++ [{
          stage := id
          kind := kind
          timers := timers
          inputWatermark := inputWatermark
          seed := none
          initialized := false
          registered := false }] }

/-- The head of the loop, up to the choice of what runs next. -/
def prepare : Dispatcher :=
  let synced := dispatcher.syncEventTimeHolds
  let held := synced.withManager (synced.manager.setResidualHolds dispatcher.residualHolds)
  held.promoteDueEventTimeTimers.1

/-- One pass of the loop up to the point where it waits: start the bundles that
are ready and hand each of them out. -/
def schedule : Except String Dispatcher :=
  let prepared := dispatcher.prepare
  let next := prepared.scheduler.nextNodes
  next.2.foldlM spawn { prepared with scheduler := next.1 }

/-- Queue work items of a splittable stage, hold its output watermark for them
and declare them to the scheduler. -/
def enqueueSdfItems (stage : StageId) (items : List SdfWorkItem) : Except String Dispatcher :=
  let queue := dispatcher.sdfQueue stage
  let residualHolds := items.foldl (fun holdsOf item => addHolds holdsOf stage item.holds)
    dispatcher.residualHolds
  if items.isEmpty then
    .ok { dispatcher with sdfQueues := dispatcher.sdfQueues.insert stage queue }
  else
    ((dispatcher.manager.setResidualHolds residualHolds).enqueueBundles stage items.length).map
      fun manager =>
        { dispatcher.withManager manager with
          residualHolds := residualHolds
          sdfQueues := dispatcher.sdfQueues.insert stage
            { initialized := true, registered := true, items := queue.items ++ items } }

/-- The dispatcher when the work item of a splittable bundle has been released. -/
def released (bundle : RunningBundle) : Dispatcher :=
  { dispatcher with
    residualHolds := removeHolds dispatcher.residualHolds bundle.stage
      ((bundle.seed.map SdfWorkItem.holds).getD [])
    sdfQueues := dispatcher.sdfQueues.insert bundle.stage
      { dispatcher.sdfQueue bundle.stage with initialized := true, registered := true } }

/-- What a joined splittable bundle leaves: its consumed item is released, its
residuals are queued, and so are the announced split residuals. -/
def joinSdf (bundle : RunningBundle) (items : List SdfWorkItem)
    (splits : List (StageId × SdfWorkItem)) : Except String Dispatcher := do
  let queued ← (dispatcher.released bundle).enqueueSdfItems bundle.stage items
  splits.foldlM (fun dispatcher split => dispatcher.enqueueSdfItems split.1 [split.2]) queued

/-- The dispatcher when a bundle has been taken off the running ones and its
timers are durable. -/
def left (index : Nat) (outcome : BundleOutcome) : Dispatcher :=
  { dispatcher with
    running := dispatcher.running.eraseIdx index
    timers := flushTimers dispatcher.timers outcome.timers }

/-- Join a bundle: its timers are durable, its residuals are queued, the holds
are reconciled, and it is marked complete. The committed minimum is taken only
with the last bundle of a wave. -/
def join (index : Nat) (outcome : BundleOutcome) : Except String Dispatcher :=
  match dispatcher.running[index]? with
  | none => .error "no bundle in flight"
  | some bundle => do
      let left := dispatcher.left index outcome
      let queued ← if bundle.kind = .splittable then
          left.joinSdf bundle outcome.items outcome.splits
        else .ok left
      let inputCount := if bundle.kind = .splittable then none else some outcome.inputCount
      let outputMin :=
        if queued.manager.inFlightBundles bundle.stage ≤ 1 then outcome.outputMin else none
      let synced := queued.syncEventTimeHolds
      .ok (synced.withManager
        (synced.manager.markCompleteWithMinAndInput bundle.stage outputMin inputCount))

/-- Apply one report of a runner source. -/
def applyReport (report : SourceProgress) (manager : WatermarkManager) :
    Except String WatermarkManager := do
  let advanced ← match report.watermark with
    | some watermark => manager.reportSourceWatermark report.stage watermark
    | none => .ok manager
  if report.done then advanced.reportSourceFinished report.stage
  else advanced.markRerun report.stage

/-- Apply the reports of the runner sources, and refresh if there were any. -/
def applySourceProgress (reports : List SourceProgress) : Except String Dispatcher := do
  let manager ← reports.foldlM (fun manager report => applyReport report manager)
    dispatcher.manager
  .ok (dispatcher.withManager (if reports.isEmpty then manager else manager.refresh))

/-- Fire the processing-time timers due at a time, and how many there were. -/
def fireDueProcessingTime (now : Timestamp) : Dispatcher × Nat :=
  let taken := dispatcher.timers.takeDueProcessingTime now
  let promoted := dispatcher.scheduler.promoteDueTimers taken.2
  ({ dispatcher with
      scheduler := promoted.1
      timers := taken.1
      pendingTimers := promoted.2.foldl
        (fun pending group => queueTimers pending group.1 group.2) dispatcher.pendingTimers },
    taken.2.length)

/-- What the loop does when nothing is in flight: apply source progress and fire
timers, and if that changes nothing, finish or let the empty inputs go. -/
def idle (reports : List SourceProgress) (now : Timestamp) : Except String Dispatcher := do
  let applied ← dispatcher.applySourceProgress reports
  let promoted := applied.promoteDueEventTimeTimers
  let fired := promoted.1.fireDueProcessingTime now
  if 0 < reports.length + promoted.2 + fired.2 then .ok fired.1
  else if fired.1.manager.isComplete then .ok fired.1
  else
    let released := fired.1.manager.releaseEmptyInputHolds
    if 0 < released.2 then .ok (fired.1.withManager released.1)
    else .error "executable graph deadlocked: no ready nodes and no in-flight work"

end Dispatcher

/-- The turns of the loop. -/
inductive DispatchAction where
  | schedule
  | split (stage : StageId) (item : SdfWorkItem)
  | join (index : Nat) (outcome : BundleOutcome)
  | idle (reports : List SourceProgress) (now : Timestamp)

/-- Whether a splittable bundle of a stage is running. -/
def Dispatcher.maySplit (dispatcher : Dispatcher) (stage : StageId) : Bool :=
  dispatcher.running.any fun bundle =>
    decide (bundle.stage = stage) && decide (bundle.kind = .splittable)

/-- One turn. A split residual comes from a running bundle of its stage, and the
loop is idle only while nothing is in flight. A turn that fails ends the run. -/
def Dispatcher.step (dispatcher : Dispatcher) : DispatchAction → Option Dispatcher
  | .schedule => dispatcher.schedule.toOption
  | .split stage item =>
      if dispatcher.maySplit stage then (dispatcher.enqueueSdfItems stage [item]).toOption
      else none
  | .join index outcome =>
      if outcome.splits.all fun split => dispatcher.maySplit split.1 then
        (dispatcher.join index outcome).toOption
      else none
  | .idle reports now =>
      if dispatcher.running.isEmpty then (dispatcher.idle reports now).toOption else none

end FlareDB
