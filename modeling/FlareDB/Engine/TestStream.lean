import FlareDB.Engine.SourceWork
import FlareDB.Engine.Watermark.Ceilings

/-! A source whose elements and time advances are scripted. Each of its bundles
plays one event and reports progress; the loop applies the report once nothing is
in flight, and re-arms the source for its next event. -/
namespace FlareDB

open KeyedStore Results

/-- A single scripted event, in pipeline order. -/
inductive ScriptedEvent where
  | element (timestamp : Int64) (encoded : List UInt8)
  | watermark (newWatermark : Timestamp)
  | processingTime (advance : Int64)

/-- The time an event advances the processing-time clock by. -/
def ScriptedEvent.advance : ScriptedEvent → Option Int64
  | .processingTime advance => some advance
  | .element _ _ | .watermark _ => none

/-- The part of a `TestStream` that survives the node's re-runs. -/
structure TestStreamState where
  events : List ScriptedEvent
  processingTime : Int64

/-- A report of a runner source, with the processing time it advances to. -/
structure StreamReport where
  progress : SourceProgress
  processingTime : Option Int64

/-- What one bundle of a `TestStream` leaves: its state, the element it writes
and its report. -/
structure PlayedEvent where
  state : TestStreamState
  written : Option WindowedValue
  report : StreamReport

namespace TestStreamState

/-- A script before its first event. -/
def ofScript (script : List ScriptedEvent) : TestStreamState where
  events := script
  processingTime := 0

/-- Play one event. A source emits in the global window, and the last event, like
an empty script, reports that the source is done. -/
def execute (decodeElement : List UInt8 → Except String BeamRecord) (stage : StageId)
    (state : TestStreamState) : Except String PlayedEvent :=
  match state.events with
  | [] => .ok {
      state := state
      written := none
      report := { progress := ⟨stage, none, true⟩, processingTime := none } }
  | .watermark newWatermark :: rest => .ok {
      state := { state with events := rest }
      written := none
      report := { progress := ⟨stage, some newWatermark, rest.isEmpty⟩, processingTime := none } }
  | .processingTime advance :: rest =>
      let now := state.processingTime + advance
      .ok {
        state := { events := rest, processingTime := now }
        written := none
        report := { progress := ⟨stage, none, rest.isEmpty⟩, processingTime := some now } }
  | .element timestamp encoded :: rest => do
      let value ← decodeElement encoded
      .ok {
        state := { state with events := rest }
        written := some
          { value := value, timestampMillis := timestamp, windows := [.global],
            pane := PaneInfo.noFiring }
        report := { progress := ⟨stage, none, rest.isEmpty⟩, processingTime := none } }

end TestStreamState

/-- The manual clock when it has not been set. -/
def manualClockUnset : Int64 := Int64.minValue

/-- The processing time: the manual clock once it is set, and the wall clock
before. -/
def processingTimeNow (manualNow : Int64) (wall : Timestamp) : Timestamp :=
  if manualNow = manualClockUnset then wall else manualNow.toInt

/-- The loop over one `TestStream`: the dispatcher, the stream, the events it has
played, the reports that the loop has not received, and the manual clock. -/
structure StreamRun where
  dispatcher : Dispatcher
  stream : TestStreamState
  played : List ScriptedEvent
  reports : List StreamReport
  manualNow : Int64

/-- How the loop goes on once it has handed out what is ready: it receives a split
residual, it joins a bundle, or it finds nothing in flight. -/
inductive LoopChoice where
  | split (stage : StageId) (item : SdfWorkItem)
  | join (index : Nat) (outcome : BundleOutcome)
  | idle (wall : Timestamp)

/-- The clock once reports have been applied. -/
def clockAfter (reports : List StreamReport) (manualNow : Int64) : Int64 :=
  reports.foldl (fun now report => report.processingTime.getD now) manualNow

namespace StreamRun

def start (scheduler : NodeScheduler) (script : List ScriptedEvent) : StreamRun where
  dispatcher := Dispatcher.start scheduler
  stream := TestStreamState.ofScript script
  played := []
  reports := []
  manualNow := manualClockUnset

/-- The run once a bundle has executed: a bundle of the source plays an event. -/
def execute (decodeElement : List UInt8 → Except String BeamRecord) (source : StageId)
    (run : StreamRun) (bundle : Option RunningBundle) : Except String StreamRun :=
  if bundle.map RunningBundle.stage = some source then do
    let event ← run.stream.execute decodeElement source
    .ok { run with
      stream := event.state
      played := run.played ++ run.stream.events.head?.toList
      reports := run.reports ++ [event.report] }
  else .ok run

/-- One pass of the loop: hand out what is ready, then wait for what comes. -/
def turn (decodeElement : List UInt8 → Except String BeamRecord) (source : StageId)
    (run : StreamRun) (choice : LoopChoice) : Option StreamRun := do
  let scheduled ← run.dispatcher.step .schedule
  match choice with
  | .split stage item =>
      let next ← scheduled.step (.split stage item)
      some { run with dispatcher := next }
  | .join index outcome =>
      let executed ← (run.execute decodeElement source scheduled.running[index]?).toOption
      let next ← scheduled.step (.join index outcome)
      some { executed with dispatcher := next }
  | .idle wall =>
      let manualNow := clockAfter run.reports run.manualNow
      let next ← scheduled.step
        (.idle (run.reports.map StreamReport.progress) (processingTimeNow manualNow wall))
      some { run with dispatcher := next, reports := [], manualNow := manualNow }

end StreamRun

/-- The processing time after some events: unset while none of them advances it,
then the sum of the advances. -/
def clockOf (events : List ScriptedEvent) : Int64 :=
  let advances := events.filterMap ScriptedEvent.advance
  if advances.isEmpty then manualClockUnset else advances.foldl (· + ·) 0

/-- Whether an event-time timer is due at the input watermark of a stage. -/
def eventTimeTimerIsDue (manager : WatermarkManager) (stage : StageId) (entry : TimerEntry) :
    Bool :=
  decide (entry.domain = .eventTime) &&
    entry.isDueAtWatermark ((manager.effectiveInputWatermark stage).getD minTimestamp)

namespace WatermarkManager

/-- A manager with a stage that has not been re-armed. A gated stage waits while
a source above it is re-armed, so what waits only for the source is ready here. -/
def disarm (source : StageId) (manager : WatermarkManager) : WatermarkManager :=
  manager.modifyStage source fun stage => { stage with rerunPending := false }

end WatermarkManager

/-- What a source has to publish, at most, once a report has been applied. -/
def SourceState.levelAfter (source : SourceState) : Option Timestamp → Timestamp
  | none => source.output
  | some watermark =>
      max ((source.partitions.lookup "").getD PartitionWatermark.default).watermark watermark

/-- The level that watermarks may rise to once a report has been applied: what its
source then has to publish, or what has been published before. -/
def WatermarkManager.levelAfter (manager : WatermarkManager) (report : SourceProgress) :
    Timestamp :=
  max manager.highestOutput
    (((manager.stages.lookup report.stage).bind StageState.source).elim minTimestamp
      fun source => source.levelAfter report.watermark)

/-- The reports of a source that goes on find nothing to disturb but the source: no
stage may reach the time of an event-time timer of its own while watermarks stay at
the level of the report, no processing-time timer is due, and no other stage would
be ready with its input watermark at that level. -/
def Dispatcher.Undisturbed (source : StageId) (dispatcher : Dispatcher)
    (reports : List SourceProgress) (now : Timestamp) : Prop :=
  ∀ report ∈ reports, report.done = false →
    (∀ timer ∈ dispatcher.timers.allEventTimeTimers,
      ∀ stage ∈ dispatcher.scheduler.stageForTransform timer.key.transformId,
        dispatcher.manager.mayReach (dispatcher.manager.levelAfter report)
          timer.fireTimestamp stage = false) ∧
    dispatcher.timers.dueProcessingTime now = [] ∧
    ∀ id ∈ dispatcher.manager.stages.keys, id ≠ source →
      dispatcher.reconciled.readyAt (dispatcher.manager.levelAfter report) id = false

instance (source : StageId) (dispatcher : Dispatcher) (reports : List SourceProgress)
    (now : Timestamp) : Decidable (Dispatcher.Undisturbed source dispatcher reports now) :=
  inferInstanceAs (Decidable (∀ report ∈ _, _))

namespace StreamRun

/-- The condition on a pass: whenever the loop is to apply the progress of a source
with events left, it finds nothing else to disturb. -/
def Undisturbed (source : StageId) (run : StreamRun) : LoopChoice → Prop
  | .idle wall => ∀ scheduled ∈ run.dispatcher.step .schedule,
      Dispatcher.Undisturbed source scheduled (run.reports.map StreamReport.progress)
        (processingTimeNow (clockAfter run.reports run.manualNow) wall)
  | .split _ _ | .join _ _ => True

instance (source : StageId) (run : StreamRun) (choice : LoopChoice) :
    Decidable (run.Undisturbed source choice) :=
  match choice with
  | .idle _ => inferInstanceAs (Decidable (∀ scheduled ∈ _, _))
  | .split _ _ | .join _ _ => inferInstanceAs (Decidable True)

/-- Whether the source has been reported finished. -/
def reportedFinished (source : StageId) (run : StreamRun) : Bool :=
  (run.reports.any fun report => report.progress.done) ||
    decide (((run.dispatcher.manager.stages.lookup source).bind StageState.source).map
      SourceState.finished = some true)

/-- A script is played one settled event at a time: in order, each event once,
finished with the last one, on a clock that is the sum of the advances, and
whenever the source is handed out nothing else is in flight, handed out or, but
for the re-arm, ready. -/
structure PlaysSettled (source : StageId) (script : List ScriptedEvent) (run : StreamRun) :
    Prop where
  inOrder : run.played ++ run.stream.events = script
  finishedLast : run.reportedFinished source = true → run.stream.events = []
  cursor : run.stream.processingTime =
    (run.played.filterMap ScriptedEvent.advance).foldl (· + ·) 0
  clock : clockAfter run.reports run.manualNow = clockOf run.played
  alone : source ∈ run.dispatcher.chosen → run.reports = [] ∧ run.dispatcher.running = [] ∧
    run.dispatcher.chosen = [source] ∧
    ∀ id ∈ (run.dispatcher.prepare.manager.refresh.disarm source).readyStages, id = source

end StreamRun

namespace WatermarkManager

variable {manager : WatermarkManager} {source id : StageId}

/-- Disarming the source changes the source alone. -/
theorem lookup_disarm (manager : WatermarkManager) (source id : StageId) :
    (manager.disarm source).stages.lookup id = (manager.stages.lookup id).map fun stage =>
      if id = source then { stage with rerunPending := false } else stage :=
  (manager.rewrites_modifyStage source _).lookup id

/-- A chain that is quiescent stays so when a stage is disarmed. -/
theorem upstreamChainIsQuiescent_disarm (fuel : Nat) {first second : StageState}
    (hInputs : first.inputs = second.inputs)
    (h : manager.upstreamChainIsQuiescent fuel first = true) :
    (manager.disarm source).upstreamChainIsQuiescent fuel second = true := by
  have hProducers : manager.producers = (manager.disarm source).producers := rfl
  refine upstreamChainIsQuiescent_before hProducers ?_ fuel hInputs h
  intro id disarmed hDisarmed
  rw [lookup_disarm] at hDisarmed
  obtain ⟨stage, hStage, rfl⟩ := Option.map_eq_some_iff.mp hDisarmed
  refine ⟨stage, hStage, ?_, fun hQuiescent => ?_⟩
  · split <;> rfl
  · split
    · unfold StageState.isQuiescent at hQuiescent ⊢
      simp only [Bool.and_eq_true] at hQuiescent ⊢
      exact ⟨⟨⟨hQuiescent.1.1.1, rfl⟩, hQuiescent.1.2⟩, hQuiescent.2⟩
    · exact hQuiescent

/-- A source that is disarmed is still below the level. -/
theorem Below.disarm {before current : WatermarkManager} {level : Timestamp}
    (h : Below source level before current) : Below source level before (current.disarm source) := by
  have hRewrites := current.rewrites_modifyStage source fun stage =>
    { stage with rerunPending := false }
  refine ⟨h.reports.trans (.of_rewrites hRewrites fun other stage _ => ?_), ?_, ?_, ?_⟩
  · split
    next hOwn => exact ⟨⟨rfl, rfl⟩, fun hOther => absurd hOwn hOther⟩
    · exact ⟨.refl stage, fun _ => ⟨rfl, rfl⟩⟩
  · intro other stage hStage
    obtain ⟨old, hOld, rfl⟩ := hRewrites.exists_before hStage
    split <;> exact h.output_le other old hOld
  · intro stage hStage
    obtain ⟨old, hOld, rfl⟩ := hRewrites.exists_before hStage
    rw [if_pos rfl]
    exact h.source_le old hOld
  · intro other old stage hOther hOld hStage
    obtain ⟨mid, hMid, rfl⟩ := hRewrites.exists_before hStage
    rw [if_neg hOther]
    exact h.input_le other old mid hOther hOld hMid

/-- What is ready is the re-armed stage, or ready without the re-arm. -/
theorem mem_readyStages_disarm (h : id ∈ manager.readyStages) (hNe : id ≠ source) :
    id ∈ (manager.disarm source).readyStages := by
  have hRewrites := manager.rewrites_modifyStage source fun stage =>
    { stage with rerunPending := false }
  rw [readyStages, List.mem_insertionSort, List.mem_filter] at h ⊢
  refine ⟨by rw [disarm, hRewrites.keys]; exact h.1, ?_⟩
  have hReady := h.2
  unfold stageIsReady at hReady ⊢
  rw [lookup_disarm]
  cases hStage : manager.stages.lookup id with
  | none =>
      rw [hStage] at hReady
      cases hReady
  | some stage =>
      rw [hStage] at hReady
      simp only [Option.map_some, if_neg hNe] at hReady ⊢
      split at hReady
      · cases hReady
      next hMayRun =>
        rw [if_neg hMayRun]
        split at hReady
        next hKind => rw [if_pos hKind]
        next hKind =>
          rw [if_neg hKind]
          have hLength : (manager.disarm source).stages.entries.length =
              manager.stages.entries.length := by
            have hKeys := congrArg List.length hRewrites.keys
            simpa [disarm, AList.keys, List.keys] using hKeys
          rw [hLength]
          exact upstreamChainIsQuiescent_disarm _ rfl hReady

end WatermarkManager

/-- A pipeline that is fed by one source has no other. -/
theorem FedBy.oneSource {source : StageId} {specs : List StageSpec} (h : FedBy source specs)
    {manager : WatermarkManager} (hShape : Shape specs manager) : manager.OneSource source := by
  intro id stage hStage
  obtain ⟨spec, hSpec, hId, hWiring⟩ := hShape.lookup id stage hStage
  injection hWiring with hMain _ _ hSource
  rw [hSource, hMain]
  refine ⟨fun hNone => hId ▸ h.only spec hSpec (List.isEmpty_iff.mp hNone), fun hReads hNone => ?_⟩
  rw [hNone] at hReads
  cases hReads

/-- A partition that has just been reported bounds what its source has to publish. -/
theorem SourceState.output_insert_le (source : SourceState) (hGoesOn : source.finished = false)
    (partition : String) (watermark : Timestamp) :
    SourceState.output { source with
      partitions := source.partitions.insert partition ⟨watermark, false⟩ } ≤ watermark := by
  unfold SourceState.output
  rw [if_neg (by simp [hGoesOn]), AList.entries_insert, List.foldl_cons, if_neg (by simp)]
  exact (foldl_partitions_le _ _).trans (min_le_right _ _)

/-- Where no timer is due, promoting changes nothing. -/
theorem NodeScheduler.promote_none {scheduler : NodeScheduler}
    {isDue : WatermarkManager → StageId → TimerEntry → Bool} {timers : List TimerEntry}
    (h : ∀ timer ∈ timers, ∀ stage ∈ scheduler.stageForTransform timer.key.transformId,
      isDue scheduler.watermarks stage timer = false) :
    scheduler.promote isDue timers = (scheduler, []) := by
  have hFold : timers.foldl (scheduler.promoteTimer isDue) (scheduler.watermarks, ∅) =
      (scheduler.watermarks, ∅) := by
    induction timers with
    | nil => rfl
    | cons timer rest ih =>
        obtain ⟨hTimer, hRest⟩ := List.forall_mem_cons.mp h
        have hKept : scheduler.promoteTimer isDue (scheduler.watermarks, ∅) timer =
            (scheduler.watermarks, ∅) := by
          unfold promoteTimer
          cases hOwner : scheduler.stageForTransform timer.key.transformId with
          | none => rfl
          | some stage => simp [hTimer stage hOwner]
        rw [List.foldl_cons, hKept]
        exact ih hRest
  unfold promote
  simp only [hFold]
  rfl

namespace Dispatcher

open WatermarkManager

variable {dispatcher next : Dispatcher} {source : StageId}

/-- No event-time timer is due at the input watermark of its stage. -/
def NoneDue (dispatcher : Dispatcher) : Prop :=
  ∀ timer ∈ dispatcher.timers.allEventTimeTimers,
    ∀ stage ∈ dispatcher.scheduler.stageForTransform timer.key.transformId,
      eventTimeTimerIsDue dispatcher.manager stage timer = false

/-- When no timer is due, none is promoted. -/
theorem promoteDueEventTimeTimers_of_noneDue (h : dispatcher.NoneDue) :
    dispatcher.promoteDueEventTimeTimers = (dispatcher, 0) := by
  unfold promoteDueEventTimeTimers
  split
  · rfl
  · have hNone : dispatcher.scheduler.promoteDueEventTimeTimers
        dispatcher.timers.allEventTimeTimers = (dispatcher.scheduler, []) :=
      NodeScheduler.promote_none h
    rw [hNone]
    rfl

/-- When no processing-time timer is due, none is fired. -/
theorem fireDueProcessingTime_of_none {now : Timestamp}
    (h : dispatcher.timers.dueProcessingTime now = []) :
    dispatcher.fireDueProcessingTime now = (dispatcher, 0) := by
  unfold fireDueProcessingTime TimerStore.takeDueProcessingTime
  rw [h]
  rfl

/-- Reconciling replaces the holds of timers and of deferred work, and nothing else. -/
theorem rewrites_reconciled (dispatcher : Dispatcher) : Rewrites (fun id stage => { stage with
      watermarkHolds := ((timerHolds dispatcher.scheduler
        dispatcher.timers.allEventTimeTimers).lookup id).getD []
      residualHolds := (dispatcher.residualHolds.lookup id).getD [] })
    dispatcher.manager dispatcher.reconciled :=
  (dispatcher.manager.rewrites_mapStages fun id stage => { stage with
    watermarkHolds := ((timerHolds dispatcher.scheduler
      dispatcher.timers.allEventTimeTimers).lookup id).getD [] }).trans
    (rewrites_mapStages _ fun id stage => { stage with
      residualHolds := (dispatcher.residualHolds.lookup id).getD [] })

/-- Holds do not decide which timers are due. -/
theorem effectiveInputWatermark_reconciled (stage : StageId) :
    dispatcher.reconciled.effectiveInputWatermark stage =
      dispatcher.manager.effectiveInputWatermark stage := by
  unfold effectiveInputWatermark
  rw [dispatcher.rewrites_reconciled.lookup, Option.map_map]
  rfl

/-- Where no timer is due, the head of the loop only reconciles the holds. -/
theorem manager_prepare_of_noneDue (h : dispatcher.NoneDue) :
    dispatcher.prepare.manager = dispatcher.reconciled := by
  have hHeld : (dispatcher.withManager dispatcher.reconciled).NoneDue := by
    intro timer hTimer stage hStage
    rw [← h timer hTimer stage hStage]
    unfold eventTimeTimerIsDue
    congr 3
    exact dispatcher.effectiveInputWatermark_reconciled stage
  exact congrArg (fun promoted => promoted.1.manager) (promoteDueEventTimeTimers_of_noneDue hHeld)

/-- A report of a source that goes on changes the source alone: it is re-armed, and
publishes no more than the report allows. -/
theorem applyReport_goesOn {report : SourceProgress} {manager reported : WatermarkManager}
    (hGoesOn : report.done = false) (h : applyReport report manager = .ok reported) :
    ∃ f : SourceState → SourceState, Rewrites (fun id stage => if id = report.stage then
        { stage with source := stage.source.map f, rerunPending := true } else stage)
        manager reported ∧
      ∀ state, state.finished = false → (f state).output ≤ state.levelAfter report.watermark := by
  unfold applyReport at h
  cases hWatermark : report.watermark with
  | none =>
      rw [hWatermark, hGoesOn] at h
      have hReported : reported = _ := withStage_ok h
      refine ⟨id, ?_, fun state _ => le_refl _⟩
      rw [hReported]
      refine (manager.rewrites_modifyStage report.stage _).congr fun other stage _ => ?_
      simp
  | some watermark =>
      rw [hWatermark, hGoesOn] at h
      obtain ⟨advanced, hAdvanced, hReported⟩ := bind_eq_ok h
      have hFirst : advanced = _ := withSource_ok hAdvanced
      have hSecond : reported = _ := withStage_ok hReported
      let insert (state : SourceState) : SourceState := { state with
        partitions := state.partitions.insert "" ⟨state.levelAfter (some watermark), false⟩ }
      refine ⟨insert, ?_, fun state hState => state.output_insert_le hState "" _⟩
      rw [hSecond, hFirst]
      refine ((manager.rewrites_modifyStage report.stage _).trans
        (rewrites_modifyStage _ report.stage _)).congr fun other stage _ => ?_
      split <;> rfl

/-- The watermarks once a report has been propagated: below the level of the report,
and before every time that stages keep them from. -/
theorem applySourceProgress_goesOn (hSource : dispatcher.manager.OneSource source)
    {report : SourceProgress} (hStage : report.stage = source) (hGoesOn : report.done = false)
    (hUnfinished : ∀ stage, dispatcher.manager.stages.lookup source = some stage →
      ∀ state, stage.source = some state → state.finished = false)
    (h : dispatcher.applySourceProgress [report] = .ok next) :
    next = dispatcher.withManager next.manager ∧
      Below source (dispatcher.manager.levelAfter report) dispatcher.manager next.manager ∧
      ∀ time, Kept source time dispatcher.manager next.manager := by
  subst hStage
  obtain ⟨reported, hReported, hSettled⟩ := bind_eq_ok h
  rw [List.foldlM_cons] at hReported
  obtain ⟨_, hApplied, hLast⟩ := bind_eq_ok hReported
  cases hLast
  cases hSettled
  obtain ⟨f, hRewrites, hBound⟩ := applyReport_goesOn hGoesOn hApplied
  have hReports : Reports report.stage dispatcher.manager reported := by
    refine .of_rewrites hRewrites fun id stage _ => ?_
    split
    next hOwn => exact ⟨⟨rfl, by simp [StageState.isSource]⟩, fun hOther => absurd hOwn hOther⟩
    · exact ⟨.refl stage, fun _ => ⟨rfl, rfl⟩⟩
  have hSame : ∀ id old stage, dispatcher.manager.stages.lookup id = some old →
      reported.stages.lookup id = some stage →
        stage.input = old.input ∧ stage.output = old.output := by
    intro id old stage hOld hNew
    rw [hRewrites.lookup_of_before hOld] at hNew
    cases hNew
    split <;> exact ⟨rfl, rfl⟩
  have hBelow : Below report.stage (dispatcher.manager.levelAfter report) dispatcher.manager
      reported := by
    refine .of_reports hReports (le_max_left _ _) hSame fun stage hNew state hState => ?_
    obtain ⟨old, hOld, rfl⟩ := hRewrites.exists_before hNew
    rw [if_pos rfl] at hState
    obtain ⟨before, hBefore, rfl⟩ := Option.map_eq_some_iff.mp hState
    refine (hBound before (hUnfinished old hOld before hBefore)).trans ?_
    rw [levelAfter, hOld, Option.bind_some, hBefore, Option.elim_some]
    exact le_max_right _ _
  have hLevel : minTimestamp ≤ dispatcher.manager.levelAfter report :=
    dispatcher.manager.minTimestamp_le_highestOutput.trans (le_max_left _ _)
  exact ⟨rfl, hBelow.refresh hLevel hSource,
    fun time => (Kept.of_reports hReports hSame).refresh⟩

/-- Timers that the level of a report does not reach are not due once it has been
applied. -/
theorem noneDue_of_unreached {specs : List StageSpec} (hSource : dispatcher.manager.OneSource source)
    (hNode : SourceNode source specs dispatcher) {level : Timestamp} {manager : WatermarkManager}
    (hBelow : Below source level dispatcher.manager manager)
    (hKept : ∀ time, Kept source time dispatcher.manager manager)
    (hTimers : ∀ timer ∈ dispatcher.timers.allEventTimeTimers,
      ∀ id ∈ dispatcher.scheduler.stageForTransform timer.key.transformId,
        dispatcher.manager.mayReach level timer.fireTimestamp id = false) :
    (dispatcher.withManager manager).NoneDue := by
  intro timer hTimer id hOwner
  have hOther : id ≠ source := fun hSame => hNode.timerless _ (hSame ▸ hOwner)
  have hOut := hTimers timer hTimer id hOwner
  have hBefore : ((manager.effectiveInputWatermark id).getD minTimestamp) <
      timer.fireTimestamp := by
    cases hNext : manager.stages.lookup id with
    | some next =>
        obtain ⟨stage, hStageBefore, _⟩ := hBelow.reports.exists_before hNext
        rw [effectiveInputWatermark, hNext]
        exact effectiveInput_lt hBelow (hKept _) hSource hOther hStageBefore hNext hOut
    | none =>
        have hUnknown : dispatcher.manager.stages.lookup id = none := by
          rw [Option.eq_none_iff_forall_ne_some]
          intro stage hStageBefore
          obtain ⟨next, hFound, _⟩ := hBelow.reports.stages id stage hStageBefore
          rw [hNext] at hFound
          cases hFound
        rw [effectiveInputWatermark, hNext]
        simpa [mayReach, hUnknown] using hOut
  have hNotDue : timer.isDueAtWatermark ((manager.effectiveInputWatermark id).getD minTimestamp) =
      false := by
    simp [TimerEntry.isDueAtWatermark, not_le.mpr hBefore]
  show (decide _ && timer.isDueAtWatermark ((manager.effectiveInputWatermark id).getD
    minTimestamp)) = false
  rw [hNotDue, Bool.and_false]

/-- Stages that would not be ready at the level of a report are not ready once it has
been applied, the re-arm of the source apart. -/
theorem ready_of_belowLevel {level : Timestamp} {manager : WatermarkManager}
    (hLevel : minTimestamp ≤ level) (hSource : dispatcher.manager.OneSource source)
    (hBelow : Below source level dispatcher.manager manager)
    (hArmed : ∀ stage, dispatcher.manager.stages.lookup source = some stage →
      stage.rerunPending = false)
    (hReady : ∀ id ∈ dispatcher.manager.stages.keys, id ≠ source →
      dispatcher.reconciled.readyAt level id = false) :
    ∀ id ∈ ((dispatcher.withManager manager).reconciled.refresh.disarm source).readyStages,
      id = source := by
  have hHeld := hBelow.reheld dispatcher.rewrites_reconciled
    (dispatcher.withManager manager).rewrites_reconciled
  have hHeldSource : dispatcher.reconciled.OneSource source := by
    intro id stage hFound
    obtain ⟨old, hOld, rfl⟩ := dispatcher.rewrites_reconciled.exists_before hFound
    exact hSource id old hOld
  have hAfter := (hHeld.refresh hLevel hHeldSource).disarm
  intro id hId
  by_contra hOther
  rw [readyStages, List.mem_insertionSort, List.mem_filter] at hId
  have hKey : id ∈ dispatcher.manager.stages.keys := by
    rw [← dispatcher.rewrites_reconciled.keys, ← hAfter.reports.keys]
    exact hId.1
  refine absurd (hAfter.readyAt ?_ hOther hId.2) (Bool.eq_false_iff.mp (hReady id hKey hOther))
  intro other old stage hOld hFound
  obtain ⟨known, hKnown, _, hRerun⟩ := hAfter.reports.exists_before hFound
  rw [hOld] at hKnown
  cases hKnown
  by_cases hSame : other = source
  · subst hSame
    obtain ⟨first, hFirst, rfl⟩ := dispatcher.rewrites_reconciled.exists_before hOld
    rw [lookup_disarm] at hFound
    obtain ⟨armed, _, rfl⟩ := Option.map_eq_some_iff.mp hFound
    rw [if_pos rfl]
    exact (hArmed first hFirst).symm
  · exact (hRerun hSame).2

/-- An idle turn that finds nothing to disturb applies its report and nothing else,
and leaves nothing ready but the source. -/
theorem idle_of_undisturbed {specs : List StageSpec} (hFed : FedBy source specs)
    (hNode : SourceNode source specs dispatcher) {report : SourceProgress}
    (hStage : report.stage = source) (hGoesOn : report.done = false)
    (hWork : dispatcher.manager.workOf source = some (sourceWork 0 true false false))
    {now : Timestamp} (hQuiet : Dispatcher.Undisturbed source dispatcher [report] now)
    (h : dispatcher.idle [report] now = .ok next) :
    ∀ id ∈ (next.prepare.manager.refresh.disarm source).readyStages, id = source := by
  obtain ⟨hTimers, hProcessing, hReady⟩ := hQuiet report (List.mem_singleton_self _) hGoesOn
  have hSource := hFed.oneSource hNode.tallied.shape
  obtain ⟨own, hOwn, hOwnWork⟩ := workOf_eq hWork
  unfold idle at h
  obtain ⟨applied, hApplied, hRest⟩ := bind_eq_ok h
  obtain ⟨hOnly, hBelow, hKept⟩ := applySourceProgress_goesOn hSource hStage hGoesOn
    (fun stage hFound state hState => by
      rw [hOwn] at hFound
      cases hFound
      have hFinished := congrArg StageWork.finished hOwnWork
      simpa [StageState.work, sourceWork, hState] using hFinished) hApplied
  generalize hManager : applied.manager = manager at hOnly hBelow hKept
  subst hOnly
  have hNone : (dispatcher.withManager manager).NoneDue :=
    noneDue_of_unreached hSource hNode hBelow hKept hTimers
  rw [promoteDueEventTimeTimers_of_noneDue hNone] at hRest
  have hUnfired : (dispatcher.withManager manager).fireDueProcessingTime now =
      (dispatcher.withManager manager, 0) := fireDueProcessingTime_of_none hProcessing
  simp only [hUnfired] at hRest
  rw [if_pos (by simp)] at hRest
  cases hRest
  rw [manager_prepare_of_noneDue hNone]
  refine ready_of_belowLevel
    (dispatcher.manager.minTimestamp_le_highestOutput.trans (le_max_left _ _)) hSource hBelow
    (fun stage hFound => ?_) hReady
  rw [hOwn] at hFound
  cases hFound
  exact congrArg StageWork.rerunPending hOwnWork

end Dispatcher

/-- What one bundle of a stream leaves: the first event is played, its advance is
added to the clock, and the last one is reported as such. -/
structure TestStreamState.Plays (stage : StageId) (state : TestStreamState) (event : PlayedEvent) :
    Prop where
  events : state.events = state.events.head?.toList ++ event.state.events
  cursor : event.state.processingTime =
    (state.events.head?.toList.filterMap ScriptedEvent.advance).foldl (· + ·) state.processingTime
  stage : event.report.progress.stage = stage
  done : event.report.progress.done = event.state.events.isEmpty
  clock : event.report.processingTime =
    if (state.events.head?.toList.filterMap ScriptedEvent.advance).isEmpty then none
    else some event.state.processingTime

/-- What a bundle of the source plays: the next event of the script. -/
theorem TestStreamState.execute_ok {decodeElement : List UInt8 → Except String BeamRecord}
    {stage : StageId} {state : TestStreamState} {event : PlayedEvent}
    (h : state.execute decodeElement stage = .ok event) : state.Plays stage event := by
  unfold execute at h
  cases hEvents : state.events with
  | nil =>
      rw [hEvents] at h
      cases h
      constructor <;> simp [hEvents]
  | cons first rest =>
      rw [hEvents] at h
      cases first with
      | element timestamp encoded =>
          obtain ⟨value, _, hOk⟩ := bind_eq_ok h
          cases hOk
          constructor <;> simp [hEvents, List.filterMap_cons, ScriptedEvent.advance]
      | watermark newWatermark =>
          cases h
          constructor <;> simp [hEvents, List.filterMap_cons, ScriptedEvent.advance]
      | processingTime advance =>
          cases h
          constructor <;> simp [hEvents, ScriptedEvent.advance]

/-- An event played after others moves the clock by its own advance. -/
theorem clockOf_append {played : List ScriptedEvent} {stage : StageId} {state : TestStreamState}
    {event : PlayedEvent} (h : state.Plays stage event)
    (hCursor : state.processingTime =
      (played.filterMap ScriptedEvent.advance).foldl (· + ·) 0) :
    event.report.processingTime.getD (clockOf played) =
      clockOf (played ++ state.events.head?.toList) := by
  rw [h.clock]
  unfold clockOf
  rw [List.filterMap_append]
  cases hAdvances : state.events.head?.toList.filterMap ScriptedEvent.advance with
  | nil => simp
  | cons advance rest =>
      have hTime := h.cursor
      rw [hAdvances, hCursor, ← List.foldl_append] at hTime
      simp [hTime]

namespace StreamRun

open WatermarkManager Dispatcher

variable {source : StageId} {specs : List StageSpec} {settled : Prop} {run : StreamRun}
  {scheduled next : Dispatcher}

/-- Between two events: the source has yet to run, or has been re-armed, and
nothing is in flight. In a settled run nothing but the source is ready. -/
structure Armed (source : StageId) (settled : Prop) (run : StreamRun) : Prop where
  work : ∃ completed rerunPending, run.dispatcher.manager.workOf source =
    some (sourceWork 0 completed rerunPending false) ∧
      (completed = false ∨ rerunPending = true)
  running : run.dispatcher.running = []
  reports : run.reports = []
  alone : settled →
    ∀ id ∈ (run.dispatcher.prepare.manager.refresh.disarm source).readyStages, id = source

/-- While an event is played, and until its report is applied; at the end the
source is finished. -/
inductive Underway (source : StageId) (run : StreamRun) : Prop where
  | playing (completed : Bool)
      (hWork : run.dispatcher.manager.workOf source = some (sourceWork 1 completed false false))
      (hReports : run.reports = [])
  | reported (report : StreamReport)
      (hWork : run.dispatcher.manager.workOf source = some (sourceWork 0 true false false))
      (hReports : run.reports = [report]) (hStage : report.progress.stage = source)
      (hDone : report.progress.done = run.stream.events.isEmpty)
  | finished (hWork : run.dispatcher.manager.workOf source = some (sourceWork 0 true false true))
      (hReports : run.reports = []) (hEvents : run.stream.events = [])

/-- What leaves the work of the source alone leaves it underway. -/
theorem Underway.of_work (h : Underway source run)
    (hWork : next.manager.workOf source = run.dispatcher.manager.workOf source) :
    Underway source { run with dispatcher := next } := by
  cases h with
  | playing completed hOld hReports => exact .playing completed (hWork.trans hOld) hReports
  | reported report hOld hReports hStage hDone =>
      exact .reported report (hWork.trans hOld) hReports hStage hDone
  | finished hOld hReports hEvents => exact .finished (hWork.trans hOld) hReports hEvents

/-- A source that is underway is not handed out. -/
theorem Underway.notMem_chosen (hFed : FedBy source specs)
    (hNode : SourceNode source specs run.dispatcher) (h : Underway source run) :
    source ∉ run.dispatcher.chosen := by
  intro hChosen
  have hReady := run.dispatcher.launched_spec.1 source hChosen
  cases h with
  | playing completed hWork _ =>
      exact absurd ((hNode.mem_readyStages_prepare_iff hFed hWork).mp hReady).1 one_ne_zero
  | reported _ hWork _ _ _ =>
      exact absurd ((hNode.mem_readyStages_prepare_iff hFed hWork).mp hReady).2 (by simp)
  | finished hWork _ _ =>
      exact absurd ((hNode.mem_readyStages_prepare_iff hFed hWork).mp hReady).2 (by simp)

/-- Handing out what is ready starts an armed source, and no other. -/
theorem Underway.schedule (hFed : FedBy source specs)
    (hNode : SourceNode source specs run.dispatcher)
    (h : Armed source settled run ∨ Underway source run)
    (hNext : run.dispatcher.schedule = .ok scheduled) :
    Underway source { run with dispatcher := scheduled } := by
  rcases h with hArmed | hUnderway
  · obtain ⟨completed, rerunPending, hWork, hRuns⟩ := hArmed.work
    refine .playing completed ?_ hArmed.reports
    exact (congrArg (fun manager => manager.workOf source)
      (schedule_handedOut hNext).2.2.manager).trans (hNode.started_of_armed hFed hWork hRuns).2
  · exact hUnderway.of_work (SourceNode.workOf_schedule hNext hNode
      (hUnderway.notMem_chosen hFed hNode))

/-- What holds between two passes of the loop: the invariant behind a script that
is played one event at a time. -/
structure Playing (source : StageId) (specs : List StageSpec) (script : List ScriptedEvent)
    (settled : Prop) (run : StreamRun) : Prop where
  node : SourceNode source specs run.dispatcher
  phase : Armed source settled run ∨ Underway source run
  inOrder : run.played ++ run.stream.events = script
  cursor : run.stream.processingTime =
    (run.played.filterMap ScriptedEvent.advance).foldl (· + ·) 0
  clock : clockAfter run.reports run.manualNow = clockOf run.played

variable {script : List ScriptedEvent}
  {decodeElement : List UInt8 → Except String BeamRecord}

/-- A split elsewhere does not disturb the script. -/
theorem Playing.split (h : Playing source specs script settled run)
    (hNode : SourceNode source specs scheduled)
    (hUnderway : Underway source { run with dispatcher := scheduled }) {stage : StageId}
    {item : SdfWorkItem} (hNext : scheduled.step (.split stage item) = some next) :
    Playing source specs script settled { run with dispatcher := next } where
  node := hNode.step hNext
  phase := Or.inr (hUnderway.of_work (hNode.workOf_split hNext))
  inOrder := h.inOrder
  cursor := h.cursor
  clock := h.clock

/-- A bundle of the source is in flight only while an event is played. -/
theorem Underway.of_running (hNode : SourceNode source specs scheduled)
    (h : Underway source { run with dispatcher := scheduled }) {bundle : RunningBundle}
    (hBundle : bundle ∈ scheduled.running) (hOwn : bundle.stage = source) :
    run.reports = [] ∧ ∃ completed,
      scheduled.manager.workOf source = some (sourceWork 1 completed false false) := by
  have hBusy : ∀ {completed rerunPending finished : Bool}, scheduled.manager.workOf source ≠
      some (sourceWork 0 completed rerunPending finished) := by
    intro completed rerunPending finished hWork
    obtain ⟨stage, hStage, hFound⟩ := workOf_eq hWork
    rw [← hOwn] at hStage
    have hPos := hNode.tallied.inFlight_pos hBundle hStage
    have hNone : stage.inFlight = 0 := congrArg StageWork.inFlight hFound
    omega
  cases h with
  | playing completed hWork hReports => exact ⟨hReports, completed, hWork⟩
  | reported _ hWork _ _ _ => exact absurd hWork hBusy
  | finished hWork _ _ => exact absurd hWork hBusy

/-- The source plays an event when its bundle joins, and a join elsewhere plays none. -/
theorem Playing.join (hFed : FedBy source specs) (h : Playing source specs script settled run)
    (hNode : SourceNode source specs scheduled)
    (hUnderway : Underway source { run with dispatcher := scheduled }) {index : Nat}
    {outcome : BundleOutcome} {executed : StreamRun}
    (hExecuted : run.execute decodeElement source scheduled.running[index]? = .ok executed)
    (hNext : scheduled.step (.join index outcome) = some next) :
    Playing source specs script settled { executed with dispatcher := next } := by
  have hJoined := hNode.step hNext
  unfold StreamRun.execute at hExecuted
  split at hExecuted
  next hOwn =>
    obtain ⟨bundle, hBundle, hStage⟩ := Option.map_eq_some_iff.mp hOwn
    obtain ⟨hReports, completed, hWork⟩ :=
      hUnderway.of_running hNode (List.mem_of_getElem? hBundle) hStage
    obtain ⟨found, hFound, hAfter⟩ := hNode.workOf_join hFed hWork hNext
    rw [hBundle] at hFound
    cases hFound
    rw [if_pos hStage.symm] at hAfter
    obtain ⟨event, hEvent, hOk⟩ := bind_eq_ok hExecuted
    cases hOk
    have hPlays := TestStreamState.execute_ok hEvent
    refine ⟨hJoined, Or.inr (.reported event.report hAfter ?_ hPlays.stage hPlays.done), ?_, ?_, ?_⟩
    · show run.reports ++ [event.report] = [event.report]
      rw [hReports, List.nil_append]
    · show run.played ++ run.stream.events.head?.toList ++ event.state.events = script
      rw [List.append_assoc, ← hPlays.events, h.inOrder]
    · show event.state.processingTime = _
      rw [hPlays.cursor, h.cursor, List.filterMap_append, List.foldl_append]
    · have hClock := h.clock
      rw [hReports] at hClock
      show clockAfter (run.reports ++ [event.report]) run.manualNow = _
      rw [hReports, ← clockOf_append hPlays h.cursor, ← hClock]
      rfl
  next hOther =>
    cases hExecuted
    refine ⟨hJoined, Or.inr ?_, h.inOrder, h.cursor, h.clock⟩
    have hKept : ∀ {inFlight : Nat} {completed rerunPending finished : Bool},
        scheduled.manager.workOf source =
          some (sourceWork inFlight completed rerunPending finished) →
        next.manager.workOf source = scheduled.manager.workOf source := by
      intro inFlight completed rerunPending finished hWork
      obtain ⟨bundle, hBundle, hAfter⟩ := hNode.workOf_join hFed hWork hNext
      rw [hAfter, hWork, if_neg]
      intro hOwn
      exact hOther (by rw [hBundle, hOwn]; rfl)
    have hSame : next.manager.workOf source = scheduled.manager.workOf source := by
      cases hUnderway with
      | playing _ hWork _ => exact hKept hWork
      | reported _ hWork _ _ _ => exact hKept hWork
      | finished hWork _ _ => exact hKept hWork
    exact hUnderway.of_work hSame

/-- An idle turn applies the report of the event that was played last. -/
theorem Playing.idle (hFed : FedBy source specs) (h : Playing source specs script settled run)
    (hNode : SourceNode source specs scheduled)
    (hUnderway : Underway source { run with dispatcher := scheduled }) {now : Timestamp}
    (hQuiet : settled → Dispatcher.Undisturbed source scheduled
      (run.reports.map StreamReport.progress) now)
    (hNext : scheduled.step (.idle (run.reports.map StreamReport.progress) now) = some next) :
    Playing source specs script settled
      { run with
        dispatcher := next, reports := [],
        manualNow := clockAfter run.reports run.manualNow } := by
  have hIdle := hNode.step hNext
  refine ⟨hIdle, ?_, h.inOrder, h.cursor, h.clock⟩
  simp only [Dispatcher.step] at hNext
  split at hNext
  next hRunning =>
    have hNone := List.isEmpty_iff.mp hRunning
    have hOk := toOption_eq_some hNext
    cases hUnderway with
    | playing completed hWork _ =>
        obtain ⟨stage, hStage, hFound⟩ := workOf_eq hWork
        have hCount := hNode.tallied.inFlight source stage hStage
        have hBusy : stage.inFlight = 1 := congrArg StageWork.inFlight hFound
        rw [hNone, hBusy] at hCount
        cases hCount
    | reported report hWork hReports hStage hDone =>
        have hReports : run.reports = [report] := hReports
        rw [hReports, List.map_singleton] at hOk hQuiet
        have hAfter : next.manager.workOf source = some (sourceWork 0 true
            (!report.progress.done) report.progress.done) := by
          refine hNode.workOf_idle hOk fun reported hReported => ?_
          rw [List.foldlM_cons] at hReported
          obtain ⟨applied, hApplied, hLast⟩ := bind_eq_ok hReported
          cases hLast
          rw [← hStage]
          exact SourceNode.workOf_applyReport hApplied (by rw [hStage]; exact hWork)
        cases hLast : report.progress.done with
        | true =>
            rw [hLast] at hAfter hDone
            exact Or.inr (.finished hAfter rfl (List.isEmpty_iff.mp hDone.symm))
        | false =>
            rw [hLast] at hAfter
            refine Or.inl ⟨⟨true, true, hAfter, Or.inr rfl⟩, ?_, rfl, fun hSettled => ?_⟩
            · exact ((idle_ok hOk).1.running).trans hNone
            · exact idle_of_undisturbed hFed hNode hStage hLast hWork (hQuiet hSettled) hOk
    | finished hWork hReports hEvents =>
        have hReports : run.reports = [] := hReports
        rw [hReports] at hOk
        refine Or.inr (.finished (hNode.workOf_idle hOk fun reported hReported => ?_) rfl hEvents)
        cases hReported
        exact hWork
  · cases hNext

/-- One pass of the loop. -/
theorem Playing.turn (hFed : FedBy source specs) (h : Playing source specs script settled run)
    {choice : LoopChoice} (hQuiet : settled → run.Undisturbed source choice) {after : StreamRun}
    (hTurn : run.turn decodeElement source choice = some after) :
    Playing source specs script settled after := by
  obtain ⟨scheduled, hScheduled, hRest⟩ := Option.bind_eq_some_iff.mp hTurn
  have hNode := h.node.step hScheduled
  have hUnderway := Underway.schedule hFed h.node h.phase (toOption_eq_some hScheduled)
  cases choice with
  | split stage item =>
      obtain ⟨next, hNext, hAfter⟩ := Option.bind_eq_some_iff.mp hRest
      cases hAfter
      exact h.split hNode hUnderway hNext
  | join index outcome =>
      obtain ⟨executed, hExecuted, hJoin⟩ := Option.bind_eq_some_iff.mp hRest
      obtain ⟨next, hNext, hAfter⟩ := Option.bind_eq_some_iff.mp hJoin
      cases hAfter
      exact h.join hFed hNode hUnderway (toOption_eq_some hExecuted) hNext
  | idle wall =>
      obtain ⟨next, hNext, hAfter⟩ := Option.bind_eq_some_iff.mp hRest
      cases hAfter
      exact h.idle hFed hNode hUnderway (fun hSettled => hQuiet hSettled scheduled hScheduled) hNext

/-- At the start the source is the only stage that does not wait for a producer. -/
theorem Playing.start (hFed : FedBy source specs) {nodes : Store StageId NodeKind}
    (hNode : nodes.lookup source = some .runner) {transformToStage : Store String StageId}
    (hTimers : ∀ transformId, transformToStage.lookup transformId ≠ some source)
    (script : List ScriptedEvent) (settled : Prop) :
    Playing source specs script settled
      (StreamRun.start ⟨WatermarkManager.build specs, nodes, transformToStage⟩ script) where
  node := ⟨Tallied.start hFed.distinct nodes transformToStage, hNode, hTimers,
    fun _ hBundle => by cases hBundle⟩
  phase := by
    refine Or.inl ⟨?_, rfl, rfl, fun _ id hId => ?_⟩
    · obtain ⟨spec, hSpec, hId, hMain, hSide, _, _, hAuto⟩ := hFed.registered
      obtain ⟨stage, hStage, _⟩ := (shape_build hFed.distinct).registered spec hSpec
      rw [hId] at hStage
      obtain ⟨found, hFound, hFoundId, rfl⟩ := lookup_build specs hStage
      have hSame : found = spec :=
        List.inj_on_of_nodup_map hFed.distinct hFound hSpec (hFoundId.trans hId.symm)
      refine ⟨false, false, ?_, Or.inl rfl⟩
      show (WatermarkManager.build specs).workOf source = _
      rw [workOf, hStage, hSame]
      simp [StageState.work, StageSpec.state, StageState.init, sourceWork, SourceState.default,
        hMain, hSide, hAuto]
    · obtain ⟨stage, hStage, hMain, _⟩ := barriers_of_mem_readyStages hId
      rw [lookup_disarm] at hStage
      obtain ⟨prepared, hPrepared, rfl⟩ := Option.map_eq_some_iff.mp hStage
      have hWaits : prepared.unproduced = ∅ := by
        split at hMain <;> exact hMain
      have hNoneDue : (StreamRun.start ⟨WatermarkManager.build specs, nodes, transformToStage⟩
          script).dispatcher.NoneDue := fun _ hTimer => by cases hTimer
      have hWork := workOf_refresh (StreamRun.start ⟨WatermarkManager.build specs, nodes,
        transformToStage⟩ script).dispatcher.prepare.manager id
      rw [manager_prepare_of_noneDue hNoneDue, workOf_reconciled] at hWork
      rw [manager_prepare_of_noneDue hNoneDue] at hPrepared
      rw [workOf, hPrepared] at hWork
      obtain ⟨built, hBuilt, hSame⟩ := workOf_eq hWork.symm
      obtain ⟨spec, hSpec, rfl, rfl⟩ := lookup_build specs hBuilt
      refine hFed.only spec hSpec (List.toFinset_eq_empty_iff _ |>.mp ?_)
      exact (congrArg StageWork.unproduced hSame).trans hWaits
  inOrder := rfl
  cursor := rfl
  clock := rfl

/-- A source that is handed out was armed. -/
theorem Playing.armed (hFed : FedBy source specs) (h : Playing source specs script settled run)
    (hChosen : source ∈ run.dispatcher.chosen) : Armed source settled run := by
  rcases h.phase with hArmed | hUnderway
  · exact hArmed
  · exact absurd hChosen (hUnderway.notMem_chosen hFed h.node)

/-- An armed source is handed out alone in a settled run. -/
theorem Playing.alone (hFed : FedBy source specs) (h : Playing source specs script True run)
    (hChosen : source ∈ run.dispatcher.chosen) : run.reports = [] ∧ run.dispatcher.running = [] ∧
      run.dispatcher.chosen = [source] ∧
      ∀ id ∈ (run.dispatcher.prepare.manager.refresh.disarm source).readyStages, id = source := by
  have hArmed := h.armed hFed hChosen
  have hAlone := hArmed.alone trivial
  obtain ⟨completed, rerunPending, hWork, hRuns⟩ := hArmed.work
  refine ⟨hArmed.reports, hArmed.running, ?_, hAlone⟩
  have hOnly : ∀ id ∈ run.dispatcher.chosen, id = source := by
    intro id hId
    by_contra hNe
    exact hNe (hAlone id (mem_readyStages_disarm (run.dispatcher.launched_spec.1 id hId) hNe))
  have hOnce := (h.node.started_of_armed hFed hWork hRuns).1
  rw [List.eq_replicate_of_mem hOnly, List.count_replicate_self] at hOnce
  rw [List.eq_replicate_of_mem hOnly, hOnce]
  rfl

/-- The source is reported finished only after its last event. -/
theorem Playing.finishedLast (h : Playing source specs script settled run)
    (hFinished : run.reportedFinished source = true) : run.stream.events = [] := by
  have hReport : ∀ {inFlight : Nat} {completed rerunPending finished : Bool},
      run.dispatcher.manager.workOf source =
        some (sourceWork inFlight completed rerunPending finished) →
      ((run.dispatcher.manager.stages.lookup source).bind StageState.source).map
        SourceState.finished = some finished := by
    intro inFlight completed rerunPending finished hWork
    obtain ⟨stage, hStage, hFound⟩ := workOf_eq hWork
    rw [hStage]
    exact congrArg StageWork.finished hFound
  unfold reportedFinished at hFinished
  rcases h.phase with hArmed | hUnderway
  · obtain ⟨completed, rerunPending, hWork, _⟩ := hArmed.work
    rw [hReport hWork, hArmed.reports] at hFinished
    cases hFinished
  · cases hUnderway with
    | playing completed hWork hReports =>
        rw [hReport hWork, hReports] at hFinished
        cases hFinished
    | reported report hWork hReports hStage hDone =>
        rw [hReport hWork, hReports] at hFinished
        simpa [hDone] using hFinished
    | finished _ _ hEvents => exact hEvents

/-- In every run a script is played in order, each event once and the last one
before the source is finished, on the clock of its advances, and nothing is in
flight when the source is handed out. -/
theorem playsInOrder (hFed : FedBy source specs) {nodes : Store StageId NodeKind}
    (hNode : nodes.lookup source = some .runner) {transformToStage : Store String StageId}
    (hTimers : ∀ transformId, transformToStage.lookup transformId ≠ some source)
    (decodeElement : List UInt8 → Except String BeamRecord) (script : List ScriptedEvent)
    {run : StreamRun} (hRun : Runs.Reaches (turn decodeElement source) (fun _ _ => True)
      (start ⟨WatermarkManager.build specs, nodes, transformToStage⟩ script) run) :
    run.played ++ run.stream.events = script ∧
      (run.reportedFinished source = true → run.stream.events = []) ∧
      clockAfter run.reports run.manualNow = clockOf run.played ∧
      (source ∈ run.dispatcher.chosen → run.reports = [] ∧ run.dispatcher.running = []) := by
  have hPlaying : Playing source specs script False run :=
    hRun.invariant (fun before choice after _ hTurn h => h.turn hFed (fun hFalse => hFalse.elim)
      hTurn) (Playing.start hFed hNode hTimers script False)
  refine ⟨hPlaying.inOrder, hPlaying.finishedLast, hPlaying.clock, fun hChosen => ?_⟩
  exact ⟨(hPlaying.armed hFed hChosen).reports, (hPlaying.armed hFed hChosen).running⟩

/-- A script is played one settled event at a time in every run in which the
reports of the source, while it has events left, find nothing else to disturb. -/
theorem playsSettled_of_undisturbed (hFed : FedBy source specs) {nodes : Store StageId NodeKind}
    (hNode : nodes.lookup source = some .runner) {transformToStage : Store String StageId}
    (hTimers : ∀ transformId, transformToStage.lookup transformId ≠ some source)
    (decodeElement : List UInt8 → Except String BeamRecord) (script : List ScriptedEvent)
    {run : StreamRun} (hRun : Runs.Reaches (turn decodeElement source) (Undisturbed source)
      (start ⟨WatermarkManager.build specs, nodes, transformToStage⟩ script) run) :
    run.PlaysSettled source script := by
  have hPlaying : Playing source specs script True run :=
    hRun.invariant (fun before choice after hQuiet hTurn h =>
      h.turn hFed (fun _ => hQuiet) hTurn) (Playing.start hFed hNode hTimers script True)
  exact ⟨hPlaying.inOrder, hPlaying.finishedLast, hPlaying.cursor, hPlaying.clock,
    hPlaying.alone hFed⟩

/-- A script of bytes, a stage with timers that reads it, and nothing else. -/
def scriptedPipeline : NodeScheduler where
  watermarks := build [streamStage, workStage .ordinary minTimestamp 1]
  nodes := ofPairs [("read", .runner), ("work", .worker)]
  transformToStage := ofPairs [("count", "work")]

theorem fedBy_scriptedPipeline :
    FedBy "read" [streamStage, workStage .ordinary minTimestamp 1] where
  distinct := by decide
  registered := ⟨streamStage, by simp, rfl, rfl, rfl, rfl, rfl, rfl⟩
  only := by simp [streamStage, readStage, workStage]

theorem timerless_scriptedPipeline (transformId : String) :
    scriptedPipeline.transformToStage.lookup transformId ≠ some "read" := by
  intro hOwner
  have hEntry := List.mem_singleton.mp (AList.mem_lookup_iff.mp hOwner)
  have hStage : "read" = "work" :=
    congrArg (fun entry : Sigma fun _ : String => StageId => entry.2) hEntry
  exact absurd hStage (by decide)

def decodeBytes (encoded : List UInt8) : Except String BeamRecord :=
  .ok (.primitive (.bytes encoded))

/-- An element whose stage sets a timer at 8, and a watermark of 7 that has been
applied, before the element at 20. -/
def timerAheadRun : StreamRun :=
  (Runs.playAllowed (turn decodeBytes "read") (Undisturbed "read")
    (start scriptedPipeline [.element 5 [1], .watermark 7, .element 20 [2]])
    [.join 0 ⟨some 5, 0, [], [], []⟩, .join 0 ⟨none, 1, [⟨alarm 8, false⟩], [], []⟩,
      .idle 0, .join 0 ⟨none, 0, [], [], []⟩, .join 0 ⟨none, 0, [], [], []⟩,
      .idle 0]).getD (start scriptedPipeline [])

theorem playsSettled_of_undisturbed_timerAheadRun :
    "read" ∈ timerAheadRun.dispatcher.chosen ∧
      timerAheadRun.played = [.element 5 [1], .watermark 7] ∧
      timerAheadRun.PlaysSettled "read" [.element 5 [1], .watermark 7, .element 20 [2]] :=
  ⟨by decide +kernel, rfl, playsSettled_of_undisturbed fedBy_scriptedPipeline rfl
    timerless_scriptedPipeline decodeBytes _
    (Runs.reaches_getD_playAllowed (by decide +kernel) (start scriptedPipeline []))⟩

/-- An element whose stage sets a timer at 8, and a watermark of 10 that has been
applied, before the element at 20. -/
def timerDueRun : StreamRun :=
  (Runs.play (turn decodeBytes "read")
    (start scriptedPipeline [.element 5 [1], .watermark 10, .element 20 [2]])
    [.join 0 ⟨some 5, 0, [], [], []⟩, .join 0 ⟨none, 1, [⟨alarm 8, false⟩], [], []⟩,
      .idle 0, .join 0 ⟨none, 0, [], [], []⟩, .join 0 ⟨none, 0, [], [], []⟩,
      .idle 0]).getD (start scriptedPipeline [])

/-- A script is not always played one settled event at a time: the timer that a
watermark makes due is handed out together with the next element. -/
theorem not_playsSettled_timerDueRun :
    ¬∀ source specs, FedBy source specs → ∀ nodes : Store StageId NodeKind,
      nodes.lookup source = some .runner → ∀ transformToStage : Store String StageId,
      (∀ transformId, transformToStage.lookup transformId ≠ some source) →
      ∀ decodeElement script run, Runs.Reaches (turn decodeElement source) (fun _ _ => True)
        (start ⟨WatermarkManager.build specs, nodes, transformToStage⟩ script) run →
          run.PlaysSettled source script := by
  intro h
  have hSettled := h "read" _ fedBy_scriptedPipeline _ rfl _ timerless_scriptedPipeline decodeBytes
    _ timerDueRun (Runs.reaches_getD_play (fun _ _ => trivial) (by decide +kernel)
      (start scriptedPipeline []))
  have hTogether : timerDueRun.dispatcher.chosen = ["read", "work"] := by decide +kernel
  have hAlone := (hSettled.alone (by rw [hTogether]; simp)).2.2.1
  rw [hTogether] at hAlone
  cases hAlone

end StreamRun

end FlareDB
