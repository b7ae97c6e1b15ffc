import FlareDB.Engine.DispatcherInput

/-! The work of a stage: what decides whether it may run, apart from its
watermarks and holds. A turn of the loop changes the work of a stage that reads
nothing only by starting or completing its bundles and by re-arming it. -/
namespace FlareDB

open KeyedStore Results

/-- What decides whether an ordinary stage may run, and the reports that finish
a source. -/
structure StageWork where
  unproduced : Finset PCollectionId
  unproducedSideInputs : Finset PCollectionId
  pending : Finset PCollectionId
  queued : Nat
  inFlight : Nat
  completed : Bool
  rerunPending : Bool
  autoFinish : Option Bool
  finished : Option Bool

def StageState.work (stage : StageState) : StageWork where
  unproduced := stage.unproduced
  unproducedSideInputs := stage.unproducedSideInputs
  pending := stage.pending
  queued := stage.queued
  inFlight := stage.inFlight
  completed := stage.completed
  rerunPending := stage.rerunPending
  autoFinish := stage.source.map SourceState.autoFinish
  finished := stage.source.map SourceState.finished

/-- The work of a source that finishes only when it reports so. -/
def sourceWork (inFlight : Nat) (completed rerunPending finished : Bool) : StageWork where
  unproduced := ∅
  unproducedSideInputs := ∅
  pending := ∅
  queued := 0
  inFlight := inFlight
  completed := completed
  rerunPending := rerunPending
  autoFinish := some false
  finished := some finished

namespace WatermarkManager

variable {manager before after : WatermarkManager} {id : StageId}

def workOf (manager : WatermarkManager) (id : StageId) : Option StageWork :=
  (manager.stages.lookup id).map StageState.work

theorem workOf_eq {work : StageWork} (h : manager.workOf id = some work) :
    ∃ stage, manager.stages.lookup id = some stage ∧ stage.work = work :=
  Option.map_eq_some_iff.mp h

/-- A rewriting that keeps the work of one stage. -/
theorem workOf_of_rewrites {f : StageId → StageState → StageState} (h : Rewrites f before after)
    (hWork : ∀ stage, before.stages.lookup id = some stage → (f id stage).work = stage.work) :
    after.workOf id = before.workOf id := by
  unfold workOf
  rw [h.lookup, Option.map_map]
  cases hStage : before.stages.lookup id with
  | none => rfl
  | some stage => exact congrArg some (hWork stage hStage)

/-- A bundle that ends leaves the source with one fewer in flight. -/
theorem work_finished {stage : StageState} {inFlight : Nat} {completed rerunPending finished : Bool}
    (h : stage.work = sourceWork inFlight completed rerunPending finished) :
    stage.finished.work = sourceWork (inFlight - 1) true rerunPending finished := by
  show { stage.work with inFlight := stage.work.inFlight - 1, completed := true } = _
  rw [h]
  rfl

/-- A source that reports its end is marked as finished. -/
theorem work_reportFinished {stage : StageState} {inFlight : Nat}
    {completed rerunPending finished : Bool}
    (h : stage.work = sourceWork inFlight completed rerunPending finished) :
    StageState.work { stage with
      source := stage.source.map fun source => { source with finished := true } } =
        sourceWork inFlight completed rerunPending true := by
  simp only [StageState.work, sourceWork, StageWork.mk.injEq] at h ⊢
  cases hSource : stage.source <;> simp_all

/-- A refresh moves watermarks, not work. -/
theorem workOf_refresh (manager : WatermarkManager) (id : StageId) :
    manager.refresh.workOf id = manager.workOf id := by
  obtain ⟨input, output, hRefresh, _⟩ := manager.rewrites_refresh
  exact workOf_of_rewrites hRefresh fun _ _ => rfl

/-- Holds are no work. -/
theorem workOf_setEventTimeHolds (manager : WatermarkManager) (id : StageId)
    (holds : Store StageId (List Timestamp)) :
    (manager.setEventTimeHolds holds).workOf id = manager.workOf id :=
  workOf_of_rewrites (manager.rewrites_mapStages _) fun _ _ => rfl

/-- Nor are the holds of residuals. -/
theorem workOf_setResidualHolds (manager : WatermarkManager) (id : StageId)
    (holds : Store StageId (List Timestamp)) :
    (manager.setResidualHolds holds).workOf id = manager.workOf id :=
  workOf_of_rewrites (manager.rewrites_mapStages _) fun _ _ => rfl

/-- A change of one stage leaves the work of the others. -/
theorem workOf_orKeep_withStage {other : StageId} (f : StageState → StageState)
    (hOther : id ≠ other) :
    (manager.orKeep (manager.withStage other f)).workOf id = manager.workOf id := by
  refine workOf_of_rewrites (rewrites_orKeep_withStage manager other f) fun stage _ => ?_
  rw [if_neg hOther]

/-- So does a change of one source. -/
theorem workOf_orKeep_withSource {other : StageId} (f : SourceState → SourceState)
    (hOther : id ≠ other) :
    (manager.orKeep (manager.withSource other f)).workOf id = manager.workOf id := by
  refine workOf_of_rewrites (rewrites_orKeep_withSource manager other f) fun stage _ => ?_
  rw [if_neg hOther]

/-- Releasing empty inputs leaves the work of a stage that awaits no side input. -/
theorem workOf_releaseEmptyInputHolds {work : StageWork} (h : manager.workOf id = some work)
    (hSide : work.unproducedSideInputs = ∅) :
    manager.releaseEmptyInputHolds.1.workOf id = some work := by
  have hReleased : (manager.mapStages fun _ stage => stage.releaseEmpty).workOf id = some work := by
    rw [← h]
    refine workOf_of_rewrites (manager.rewrites_mapStages _) fun stage hStage => ?_
    obtain ⟨found, hFound, hWork⟩ := workOf_eq h
    rw [hStage] at hFound
    cases hFound
    have hNone : stage.unproducedSideInputs = ∅ := by
      rw [← hWork] at hSide
      exact hSide
    simp [StageState.releaseEmpty, StageState.work, hNone]
  unfold releaseEmptyInputHolds
  simp only
  split
  · rwa [workOf_refresh]
  · exact hReleased

/-- A completed bundle is delivered to the readers of its outputs alone. -/
theorem workOf_completion {producer : StageId} {outputs : List PCollectionId} {isEmpty : Bool}
    {outputMin : Option Timestamp}
    (hReads : ∀ pcollection, id ∉ manager.consumersOf pcollection ∧
      id ∉ manager.sideInputConsumersOf pcollection)
    (h : Rewrites (manager.completion producer outputs isEmpty outputMin) manager after) :
    after.workOf id = (manager.stages.lookup id).map fun stage =>
      (if id = producer then stage.finished else stage).work := by
  have hDeliver : ∀ stage pcollection,
      manager.deliver isEmpty outputMin id stage pcollection = stage := by
    intro stage pcollection
    unfold deliver
    rw [if_neg (hReads pcollection).1, if_neg (hReads pcollection).2]
  have hFold : ∀ (outputs : List PCollectionId) (stage : StageState),
      outputs.foldl (manager.deliver isEmpty outputMin id) stage = stage := by
    intro outputs stage
    induction outputs with
    | nil => rfl
    | cons output rest ih =>
        rw [List.foldl_cons, hDeliver]
        exact ih
  unfold workOf
  rw [h.lookup, Option.map_map]
  congr 1
  funext stage
  simp only [Function.comp_apply, completion]
  rw [hFold]

/-- A joined bundle changes the work of a stage that reads nothing only if it is
its own, and finishes it only if completing a bundle does. -/
theorem workOf_markComplete {producer : StageId} (outputMin : Option Timestamp)
    (inputCount : Option Nat)
    (hReads : ∀ pcollection, id ∉ manager.consumersOf pcollection ∧
      id ∉ manager.sideInputConsumersOf pcollection)
    {inFlight : Nat} {completed rerunPending finished : Bool}
    (hWork : manager.workOf id = some (sourceWork inFlight completed rerunPending finished))
    (hFlight : id = producer → 0 < inFlight) :
    (manager.markCompleteWithMinAndInput producer outputMin inputCount).workOf id =
      some (if id = producer then sourceWork (inFlight - 1) true rerunPending finished
        else sourceWork inFlight completed rerunPending finished) := by
  obtain ⟨stage, hStage, hFound⟩ := workOf_eq hWork
  unfold markCompleteWithMinAndInput
  simp only
  rw [workOf_refresh]
  generalize hReported : (if manager.isSource producer && manager.sourceAutoFinishes producer then
    (manager.reportSourceFinished producer).toOption.getD manager else manager) = reported
  by_cases hId : id = producer
  · subst hId
    have hManual : manager.sourceAutoFinishes id = false := by
      have hAuto := congrArg StageWork.autoFinish hFound
      unfold sourceAutoFinishes
      cases hSource : stage.source with
      | none =>
          rw [StageState.work, hSource] at hAuto
          cases hAuto
      | some source =>
          rw [StageState.work, hSource] at hAuto
          simpa [hStage, hSource, sourceWork] using hAuto
    rw [hManual, Bool.and_false, if_neg Bool.false_ne_true] at hReported
    subst hReported
    have hBusy : stage.inFlight ≠ 0 := by
      have hCount : stage.inFlight = inFlight := congrArg StageWork.inFlight hFound
      rw [hCount]
      exact (hFlight rfl).ne'
    cases hComplete : manager.completeBundleWithMinAndInput id outputMin inputCount with
    | error message =>
        unfold completeBundleWithMinAndInput at hComplete
        rw [hStage] at hComplete
        simp only [hBusy, if_false] at hComplete
        cases hComplete
    | ok result =>
        obtain ⟨found, _, _, hRewrites⟩ := completeBundle_ok hComplete
        show result.1.workOf id = _
        rw [workOf_completion hReads hRewrites, hStage, if_pos rfl]
        simp only [Option.map_some, if_true]
        rw [work_finished hFound]
  · have hKept : reported.workOf id = manager.workOf id := by
      rw [← hReported]
      split
      · exact workOf_orKeep_withSource _ hId
      · rfl
    rw [if_neg hId]
    cases hComplete : reported.completeBundleWithMinAndInput producer outputMin inputCount with
    | error message => exact hKept.trans hWork
    | ok result =>
        obtain ⟨found, _, _, hRewrites⟩ := completeBundle_ok hComplete
        have hSame : ∀ pcollection, reported.consumersOf pcollection =
              manager.consumersOf pcollection ∧
            reported.sideInputConsumersOf pcollection =
              manager.sideInputConsumersOf pcollection := by
          intro pcollection
          rw [← hReported]
          split
          · have hOk := rewrites_orKeep_withSource manager producer fun source =>
              { source with finished := true }
            exact ⟨hOk.consumersOf pcollection, hOk.sideInputConsumersOf pcollection⟩
          · exact ⟨rfl, rfl⟩
        show result.1.workOf id = _
        rw [workOf_completion (fun pcollection => ?_) hRewrites]
        · simp only [hId, if_false]
          exact hKept.trans hWork
        · rw [(hSame pcollection).1, (hSame pcollection).2]
          exact hReads pcollection

section Ready

variable {stage : StageState} {inFlight : Nat} {completed rerunPending finished : Bool}

/-- An ordinary source with one slot may run exactly if it has nothing in flight
and has not run, or has been re-armed. -/
theorem mem_readyStages_iff (hStage : manager.stages.lookup id = some stage)
    (hWork : stage.work = sourceWork inFlight completed rerunPending finished)
    (hKind : stage.kind = .ordinary) (hSlots : stage.maxInFlight = 1) :
    id ∈ manager.readyStages ↔ inFlight = 0 ∧ (completed = false ∨ rerunPending = true) := by
  have hFlight : stage.inFlight = inFlight := congrArg StageWork.inFlight hWork
  have hMain : stage.unproduced = ∅ := congrArg StageWork.unproduced hWork
  have hSide : stage.unproducedSideInputs = ∅ := congrArg StageWork.unproducedSideInputs hWork
  have hPending : stage.pending = ∅ := congrArg StageWork.pending hWork
  have hQueued : stage.queued = 0 := congrArg StageWork.queued hWork
  have hCompleted : stage.completed = completed := congrArg StageWork.completed hWork
  have hRerun : stage.rerunPending = rerunPending := congrArg StageWork.rerunPending hWork
  have hKey : id ∈ manager.stages.keys := mem_keys_iff.mpr ⟨stage, hStage⟩
  rw [readyStages, List.mem_insertionSort, List.mem_filter, and_iff_right hKey]
  simp only [stageIsReady, hStage, hKind, if_true, StageState.isReadyWithoutUpstreamBarrier,
    StageState.hasWork, hSlots, hFlight, hMain, hSide, hPending, hQueued, hCompleted, hRerun]
  rcases Nat.eq_zero_or_pos inFlight with rfl | hPos
  · cases completed <;> cases rerunPending <;> simp
  · have hFull : 1 ≤ inFlight := hPos
    simp [hFull, hPos.ne']

/-- An armed source with a free slot may start. -/
theorem startError_eq_none (hWork : stage.work = sourceWork 0 completed rerunPending finished)
    (hSlots : stage.maxInFlight = 1) (hArmed : completed = false ∨ rerunPending = true) :
    stage.startError id = none := by
  have hFlight : stage.inFlight = 0 := congrArg StageWork.inFlight hWork
  have hMain : stage.unproduced = ∅ := congrArg StageWork.unproduced hWork
  have hCompleted : stage.completed = completed := congrArg StageWork.completed hWork
  have hRerun : stage.rerunPending = rerunPending := congrArg StageWork.rerunPending hWork
  unfold StageState.startError
  rcases hArmed with rfl | rfl <;> simp [hSlots, hFlight, hMain, hCompleted, hRerun]

/-- A source that starts has a bundle in flight and is no longer armed. -/
theorem work_started (hWork : stage.work = sourceWork 0 completed rerunPending finished) :
    stage.started.work = sourceWork 1 completed false finished := by
  have hFlight : stage.inFlight = 0 := congrArg StageWork.inFlight hWork
  have hStarted : stage.started.work = { stage.work with
      pending := ∅
      queued := stage.work.queued - 1
      inFlight := stage.work.inFlight + 1
      rerunPending := false } := by
    unfold StageState.started
    rw [if_pos hFlight]
    rfl
  rw [hStarted, hWork]
  rfl

end Ready

end WatermarkManager

/-- A graph that one script source feeds: the only stage without main inputs is
an ordinary stage with one slot that finishes only when it reports so. -/
structure FedBy (source : StageId) (specs : List StageSpec) : Prop where
  distinct : (specs.map StageSpec.id).Nodup
  registered : ∃ spec ∈ specs, spec.id = source ∧ spec.mainInputs = [] ∧ spec.sideInputs = [] ∧
    spec.kind = .ordinary ∧ spec.maxInFlight = 1 ∧ spec.autoFinish = false
  only : ∀ spec ∈ specs, spec.mainInputs = [] → spec.id = source

namespace FedBy

variable {source : StageId} {specs : List StageSpec} {manager : WatermarkManager}

theorem spec_eq (h : FedBy source specs) {spec : StageSpec} (hSpec : spec ∈ specs)
    (hId : spec.id = source) : spec.mainInputs = [] ∧ spec.sideInputs = [] ∧
      spec.kind = .ordinary ∧ spec.maxInFlight = 1 := by
  obtain ⟨found, hFound, hFoundId, hMain, hSide, hKind, hSlots, _⟩ := h.registered
  have hSame : spec = found :=
    List.inj_on_of_nodup_map h.distinct hSpec hFound (hId.trans hFoundId.symm)
  rw [hSame]
  exact ⟨hMain, hSide, hKind, hSlots⟩

/-- The source is an ordinary stage with a single slot. -/
theorem wiring (h : FedBy source specs) (hShape : Shape specs manager) {stage : StageState}
    (hStage : manager.stages.lookup source = some stage) :
    stage.kind = .ordinary ∧ stage.maxInFlight = 1 := by
  obtain ⟨spec, hSpec, hId, hWiring⟩ := hShape.lookup source stage hStage
  obtain ⟨_, _, hKind, hSlots⟩ := h.spec_eq hSpec hId
  refine ⟨(congrArg Wiring.kind hWiring).trans hKind, ?_⟩
  refine (congrArg Wiring.maxInFlight hWiring).trans ?_
  show max spec.maxInFlight 1 = 1
  rw [hSlots]
  rfl

/-- A source consumes nothing. -/
theorem notMem_consumersOf (h : FedBy source specs) (hShape : Shape specs manager)
    (pcollection : PCollectionId) : source ∉ manager.consumersOf pcollection ∧
      source ∉ manager.sideInputConsumersOf pcollection := by
  rw [hShape.consumers, hShape.sideInputConsumers]
  refine ⟨?_, ?_⟩
  · rintro ⟨spec, hSpec, hId, hRead⟩
    rw [(h.spec_eq hSpec hId).1] at hRead
    cases hRead
  · rintro ⟨spec, hSpec, hId, hRead⟩
    rw [(h.spec_eq hSpec hId).2.1] at hRead
    cases hRead

end FedBy

namespace Dispatcher

open WatermarkManager

section Work

variable {id : StageId}

/-- No timer belongs to a transform of the stage. -/
def Timerless (scheduler : NodeScheduler) (id : StageId) : Prop :=
  ∀ transformId, scheduler.stageForTransform transformId ≠ some id

/-- Timers of other stages leave the source's work alone. -/
theorem workOf_promote {scheduler : NodeScheduler} (hTimers : Timerless scheduler id)
    (isDue : WatermarkManager → StageId → TimerEntry → Bool) (timers : List TimerEntry) :
    (scheduler.promote isDue timers).1.watermarks.workOf id = scheduler.watermarks.workOf id := by
  have hFold : ∀ (rest : List TimerEntry)
      (state : WatermarkManager × Store StageId (List TimerEntry)),
      (rest.foldl (scheduler.promoteTimer isDue) state).1.workOf id = state.1.workOf id := by
    intro rest
    induction rest with
    | nil => exact fun _ => rfl
    | cons entry rest ih =>
        intro state
        rw [List.foldl_cons, ih]
        unfold NodeScheduler.promoteTimer
        split
        · rfl
        next stage hOwner =>
          split
          · refine workOf_orKeep_withStage _ fun hId => ?_
            exact hTimers entry.key.transformId (hId ▸ hOwner)
          · rfl
  exact hFold timers (scheduler.watermarks, ∅)

theorem workOf_promoteDueEventTimeTimers (dispatcher : Dispatcher)
    (hTimers : Timerless dispatcher.scheduler id) :
    dispatcher.promoteDueEventTimeTimers.1.manager.workOf id = dispatcher.manager.workOf id := by
  unfold promoteDueEventTimeTimers
  split
  · rfl
  · exact workOf_promote hTimers _ _

theorem workOf_fireDueProcessingTime (dispatcher : Dispatcher)
    (hTimers : Timerless dispatcher.scheduler id) (now : Timestamp) :
    (dispatcher.fireDueProcessingTime now).1.manager.workOf id = dispatcher.manager.workOf id :=
  workOf_promote hTimers _ _

variable {dispatcher next : Dispatcher}

/-- Reconciling the holds leaves the source's work alone. -/
theorem workOf_reconciled : dispatcher.reconciled.workOf id = dispatcher.manager.workOf id := by
  unfold reconciled
  rw [workOf_setResidualHolds, workOf_setEventTimeHolds]

/-- Nothing done before a stage is chosen changes the source's work. -/
theorem workOf_prepare (dispatcher : Dispatcher) (hTimers : Timerless dispatcher.scheduler id) :
    dispatcher.prepare.manager.refresh.workOf id = dispatcher.manager.workOf id := by
  rw [workOf_refresh]
  exact ((dispatcher.withManager dispatcher.reconciled).workOf_promoteDueEventTimeTimers
    hTimers).trans workOf_reconciled

/-- Split work of another stage leaves the source's work alone. -/
theorem workOf_enqueueSdfItems {stage : StageId} {items : List SdfWorkItem} (hOther : id ≠ stage)
    (h : dispatcher.enqueueSdfItems stage items = .ok next) :
    next.manager.workOf id = dispatcher.manager.workOf id := by
  unfold enqueueSdfItems at h
  simp only at h
  split at h
  · cases h
    rfl
  · have hHeld := dispatcher.manager.workOf_setResidualHolds id (items.foldl
      (fun holdsOf item => addHolds holdsOf stage item.holds) dispatcher.residualHolds)
    generalize dispatcher.manager.setResidualHolds (items.foldl
      (fun holdsOf item => addHolds holdsOf stage item.holds) dispatcher.residualHolds) = held
      at h hHeld
    cases hQueued : held.enqueueBundles stage items.length with
    | error message =>
        rw [hQueued] at h
        cases h
    | ok queued =>
        rw [hQueued] at h
        cases h
        show queued.workOf id = dispatcher.manager.workOf id
        rw [← hHeld, ← orKeep_ok held hQueued]
        exact workOf_orKeep_withStage _ hOther

theorem workOf_foldlM_enqueueSdfItems {splits : List (StageId × SdfWorkItem)}
    (hOther : ∀ split ∈ splits, id ≠ split.1)
    (h : splits.foldlM (fun dispatcher split => dispatcher.enqueueSdfItems split.1 [split.2])
      dispatcher = .ok next) : next.manager.workOf id = dispatcher.manager.workOf id := by
  induction splits generalizing dispatcher with
  | nil =>
      cases h
      rfl
  | cons split rest ih =>
      rw [List.foldlM_cons] at h
      obtain ⟨queued, hQueued, hRest⟩ := bind_eq_ok h
      obtain ⟨hFirst, hOthers⟩ := List.forall_mem_cons.mp hOther
      exact (ih hOthers hRest).trans (workOf_enqueueSdfItems hFirst hQueued)

end Work

/-- A dispatcher over a graph that one script source feeds: the source is a runner
stage and owns no timers, and each running bundle runs what its stage is. -/
structure SourceNode (source : StageId) (specs : List StageSpec) (dispatcher : Dispatcher) :
    Prop where
  tallied : Tallied specs dispatcher
  node : dispatcher.scheduler.nodes.lookup source = some .runner
  timerless : Timerless dispatcher.scheduler source
  kind : ∀ bundle ∈ dispatcher.running,
    bundle.kind = (dispatcher.scheduler.nodes.lookup bundle.stage).getD .runner

namespace SourceNode

variable {source : StageId} {specs : List StageSpec} {dispatcher next : Dispatcher}

/-- What is not the source's work may change freely. -/
theorem of_keeps (h : SourceNode source specs dispatcher) (hTallied : Tallied specs next)
    (hNodes : next.scheduler.nodes = dispatcher.scheduler.nodes)
    (hTransforms : next.scheduler.transformToStage = dispatcher.scheduler.transformToStage)
    (hRunning : ∀ bundle ∈ next.running, bundle ∈ dispatcher.running) :
    SourceNode source specs next where
  tallied := hTallied
  node := by rw [hNodes, h.node]
  timerless transformId := by
    rw [NodeScheduler.stageForTransform, hTransforms]
    exact h.timerless transformId
  kind bundle hBundle := by rw [hNodes, h.kind bundle (hRunning bundle hBundle)]

/-- Scheduling keeps the source a source. -/
theorem schedule (h : SourceNode source specs dispatcher) (hNext : dispatcher.schedule = .ok next) :
    SourceNode source specs next := by
  obtain ⟨_, hRunning, hHanded⟩ := schedule_handedOut hNext
  have hKept := dispatcher.prepare_spec.1.trans dispatcher.keeps_launched
  have hNodes : next.scheduler.nodes = dispatcher.scheduler.nodes := by
    rw [hHanded.scheduler, hKept.nodes]
  refine ⟨h.tallied.schedule hNext, by rw [hNodes, h.node], ?_, ?_⟩
  · intro transformId
    rw [NodeScheduler.stageForTransform, hHanded.scheduler, hKept.transformToStage]
    exact h.timerless transformId
  · intro bundle hBundle
    rw [hRunning] at hBundle
    rw [hNodes]
    rcases List.mem_append.mp hBundle with hOld | hNew
    · exact h.kind bundle hOld
    · rw [hHanded.kind bundle hNew, hKept.nodes]

/-- Joining a bundle keeps the source a source. -/
theorem join (h : SourceNode source specs dispatcher) {index : Nat} {outcome : BundleOutcome}
    (hNext : dispatcher.join index outcome = .ok next) : SourceNode source specs next := by
  have hTallied := h.tallied.join hNext
  obtain ⟨bundle, queued, _, hQueued, outputMin, inputCount, rfl⟩ := join_ok hNext
  refine h.of_keeps hTallied ?_ ?_ ?_
  · rcases hQueued with ⟨_, rfl⟩ | ⟨_, residual, hQueues, hSplits⟩
    · rfl
    · exact hSplits.frame.1.trans hQueues.nodes
  · rcases hQueued with ⟨_, rfl⟩ | ⟨_, residual, hQueues, hSplits⟩
    · rfl
    · exact hSplits.frame.2.1.trans hQueues.transformToStage
  · rcases hQueued with ⟨_, rfl⟩ | ⟨_, residual, hQueues, hSplits⟩
    · exact fun other hOther => List.mem_of_mem_eraseIdx hOther
    · intro other hOther
      have hRunning : queued.running = dispatcher.running.eraseIdx index :=
        hSplits.frame.2.2.2.1.trans hQueues.running
      refine List.mem_of_mem_eraseIdx (?_ : other ∈ dispatcher.running.eraseIdx index)
      rw [← hRunning]
      exact hOther

/-- Every step of the dispatcher keeps the source a source. -/
theorem step (h : SourceNode source specs dispatcher) {action : DispatchAction}
    (hStep : dispatcher.step action = some next) : SourceNode source specs next := by
  have hTallied := h.tallied.step hStep
  cases action with
  | schedule => exact h.schedule (toOption_eq_some hStep)
  | split id item =>
      simp only [Dispatcher.step] at hStep
      split at hStep
      · have hQueues := enqueueSdfItems_ok (toOption_eq_some hStep)
        refine h.of_keeps hTallied hQueues.nodes hQueues.transformToStage fun bundle hBundle => ?_
        rwa [hQueues.running] at hBundle
      · cases hStep
  | join index outcome =>
      simp only [Dispatcher.step] at hStep
      split at hStep
      · exact h.join (toOption_eq_some hStep)
      · cases hStep
  | idle reports now =>
      simp only [Dispatcher.step] at hStep
      split at hStep
      · have hKeeps := (idle_ok (toOption_eq_some hStep)).1
        refine h.of_keeps hTallied hKeeps.nodes hKeeps.transformToStage fun bundle hBundle => ?_
        rwa [hKeeps.running] at hBundle
      · cases hStep

/-- A splittable bundle is not one of the source. -/
theorem ne_of_splittable (h : SourceNode source specs dispatcher) {bundle : RunningBundle}
    (hBundle : bundle ∈ dispatcher.running) (hKind : bundle.kind = .splittable) :
    source ≠ bundle.stage := by
  intro hSame
  have hRuns := h.kind bundle hBundle
  rw [hKind, ← hSame, h.node] at hRuns
  cases hRuns

/-- A stage that may split is not the source. -/
theorem ne_of_maySplit (h : SourceNode source specs dispatcher) {stage : StageId}
    (hSplit : dispatcher.maySplit stage = true) : source ≠ stage := by
  unfold maySplit at hSplit
  obtain ⟨bundle, hBundle, hMatch⟩ := List.any_eq_true.mp hSplit
  rw [Bool.and_eq_true, decide_eq_true_eq, decide_eq_true_eq] at hMatch
  rw [← hMatch.1]
  exact h.ne_of_splittable hBundle hMatch.2

variable {inFlight : Nat} {completed rerunPending finished : Bool}

/-- The source is ready exactly if it has nothing in flight and has not run, or
has been re-armed. -/
theorem mem_readyStages_prepare_iff (hFed : FedBy source specs)
    (h : SourceNode source specs dispatcher) (hWork : dispatcher.manager.workOf source =
      some (sourceWork inFlight completed rerunPending finished)) :
    source ∈ dispatcher.prepare.manager.refresh.readyStages ↔
      inFlight = 0 ∧ (completed = false ∨ rerunPending = true) := by
  have hPrepared := dispatcher.workOf_prepare h.timerless
  rw [hWork] at hPrepared
  obtain ⟨stage, hStage, hFound⟩ := workOf_eq hPrepared
  obtain ⟨hKind, hSlots⟩ := hFed.wiring
    (h.tallied.shape.sameInput dispatcher.sameInput_prepare) hStage
  exact mem_readyStages_iff hStage hFound hKind hSlots

/-- A source that is not armed keeps its work while bundles are handed out. -/
theorem workOf_schedule (hNext : dispatcher.schedule = .ok next)
    (h : SourceNode source specs dispatcher) (hIdle : source ∉ dispatcher.chosen) :
    next.manager.workOf source = dispatcher.manager.workOf source := by
  obtain ⟨_, _, hHanded⟩ := schedule_handedOut hNext
  rw [hHanded.manager, ← dispatcher.workOf_prepare h.timerless]
  refine workOf_of_rewrites dispatcher.launched_spec.2 fun stage _ => ?_
  rw [List.count_eq_zero.mpr hIdle]
  rfl

/-- An armed source is handed out once. -/
theorem started_of_armed (hFed : FedBy source specs) (h : SourceNode source specs dispatcher)
    (hWork : dispatcher.manager.workOf source =
      some (sourceWork 0 completed rerunPending finished))
    (hArmed : completed = false ∨ rerunPending = true) :
    dispatcher.chosen.count source = 1 ∧
      dispatcher.launched.manager.workOf source = some (sourceWork 1 completed false finished) := by
  have hPrepared := dispatcher.workOf_prepare h.timerless
  rw [hWork] at hPrepared
  obtain ⟨stage, hStage, hFound⟩ := workOf_eq hPrepared
  obtain ⟨hKind, hSlots⟩ := hFed.wiring
    (h.tallied.shape.sameInput dispatcher.sameInput_prepare) hStage
  have hReady := (mem_readyStages_iff hStage hFound hKind hSlots).mpr ⟨rfl, hArmed⟩
  have hNode : (dispatcher.prepare.scheduler.nodes.lookup source).isSome = true := by
    rw [dispatcher.prepare_spec.1.nodes, h.node]
    rfl
  have hCount : dispatcher.chosen.count source = 1 := by
    have hStarts := dispatcher.prepare.scheduler.count_nextNodes hReady hNode hStage
      (startError_eq_none hFound hSlots hArmed)
    have hFlight : stage.inFlight = 0 := congrArg StageWork.inFlight hFound
    have hQueued : stage.queued = 0 := congrArg StageWork.queued hFound
    rw [hSlots, hFlight, hQueued] at hStarts
    exact hStarts
  refine ⟨hCount, ?_⟩
  rw [workOf, dispatcher.launched_spec.2.lookup_of_before hStage, hCount]
  exact congrArg some (work_started hFound)

theorem workOf_split (h : SourceNode source specs dispatcher) {stage : StageId}
    {item : SdfWorkItem} (hStep : dispatcher.step (.split stage item) = some next) :
    next.manager.workOf source = dispatcher.manager.workOf source := by
  simp only [Dispatcher.step] at hStep
  split at hStep
  next hSplit => exact workOf_enqueueSdfItems (h.ne_of_maySplit hSplit) (toOption_eq_some hStep)
  · cases hStep

/-- A join completes a bundle of the source only if it is the source's. -/
theorem workOf_join (hFed : FedBy source specs) (h : SourceNode source specs dispatcher)
    (hWork : dispatcher.manager.workOf source =
      some (sourceWork inFlight completed rerunPending finished)) {index : Nat}
    {outcome : BundleOutcome} (hStep : dispatcher.step (.join index outcome) = some next) :
    ∃ bundle, dispatcher.running[index]? = some bundle ∧
      next.manager.workOf source = some (if source = bundle.stage then
        sourceWork (inFlight - 1) true rerunPending finished
        else sourceWork inFlight completed rerunPending finished) := by
  simp only [Dispatcher.step] at hStep
  split at hStep
  next hSplits =>
    rw [List.all_eq_true] at hSplits
    obtain ⟨bundle, queued, hBundle, hQueued, outputMin, inputCount, rfl⟩ :=
      join_cases (toOption_eq_some hStep)
    refine ⟨bundle, hBundle, ?_⟩
    have hMem := List.mem_of_getElem? hBundle
    have hKept : queued.manager.workOf source = dispatcher.manager.workOf source ∧
        Touches StageState.SameInput dispatcher.manager queued.manager := by
      rcases hQueued with ⟨_, rfl⟩ | ⟨hKind, hSdf⟩
      · exact ⟨rfl, Rearms.rfl.sameInput⟩
      · obtain ⟨residual, hResidual, hRest⟩ := bind_eq_ok hSdf
        refine ⟨?_, ?_⟩
        · rw [workOf_foldlM_enqueueSdfItems
            (fun split hSplit => h.ne_of_maySplit (hSplits split hSplit)) hRest,
            workOf_enqueueSdfItems (h.ne_of_splittable hMem hKind) hResidual]
          rfl
        · exact Touches.trans StageState.SameInput.trans
            (enqueueSdfItems_ok hResidual).sameInput (foldlM_enqueueSdfItems_ok hRest).sameInput
    have hSynced : Touches StageState.SameInput dispatcher.manager
        queued.syncEventTimeHolds.manager :=
      Touches.trans StageState.SameInput.trans hKept.2 ((retouched_setEventTimeHolds _ _).mono
        fun _ _ hTouched => hTouched.sameInput)
    refine workOf_markComplete outputMin inputCount
      (hFed.notMem_consumersOf (h.tallied.shape.sameInput hSynced)) ?_ fun hOwn => ?_
    · rw [← hWork, ← hKept.1]
      exact workOf_setEventTimeHolds _ _ _
    · obtain ⟨stage, hStage, hFound⟩ := workOf_eq hWork
      rw [hOwn] at hStage
      have hBusy := h.tallied.inFlight_pos hMem hStage
      have hCount : stage.inFlight = inFlight := congrArg StageWork.inFlight hFound
      rwa [hCount] at hBusy
  · cases hStep

/-- What a report leaves of the source it is about: it is finished, or re-armed. -/
theorem workOf_applyReport {report : SourceProgress} {manager after : WatermarkManager}
    (h : applyReport report manager = .ok after)
    (hWork : manager.workOf report.stage = some (sourceWork 0 true false false)) :
    after.workOf report.stage = some (sourceWork 0 true (!report.done) report.done) := by
  have hLast : ∀ advanced : WatermarkManager,
      advanced.workOf report.stage = some (sourceWork 0 true false false) →
      (if report.done then advanced.reportSourceFinished report.stage
        else advanced.markRerun report.stage) = .ok after →
      after.workOf report.stage = some (sourceWork 0 true (!report.done) report.done) := by
    intro advanced hAdvanced hReported
    obtain ⟨stage, hStage, hFound⟩ := workOf_eq hAdvanced
    cases hDone : report.done with
    | true =>
        rw [hDone, if_pos rfl] at hReported
        rw [withSource_ok hReported, workOf,
          (advanced.rewrites_modifyStage _ _).lookup_of_before hStage, if_pos rfl, Option.map_some]
        exact congrArg some (work_reportFinished hFound)
    | false =>
        rw [hDone, if_neg Bool.false_ne_true] at hReported
        rw [withStage_ok hReported, workOf,
          (advanced.rewrites_modifyStage _ _).lookup_of_before hStage, if_pos rfl, Option.map_some]
        show some { stage.work with rerunPending := true } = _
        rw [hFound]
        rfl
  unfold applyReport at h
  cases hWatermark : report.watermark with
  | none =>
      rw [hWatermark] at h
      exact hLast manager hWork h
  | some watermark =>
      rw [hWatermark] at h
      obtain ⟨advanced, hAdvanced, hReported⟩ := bind_eq_ok h
      refine hLast advanced ?_ hReported
      rw [withSource_ok hAdvanced, ← hWork]
      refine workOf_of_rewrites (manager.rewrites_modifyStage _ _) fun stage _ => ?_
      rw [if_pos rfl]
      cases hSource : stage.source <;> simp [StageState.work, hSource]


/-- An idle turn changes the work of the source as its report does. -/
theorem workOf_idle (h : SourceNode source specs dispatcher) {reports : List SourceProgress}
    {now : Timestamp} (hNext : dispatcher.idle reports now = .ok next)
    (hReported : ∀ reported, reports.foldlM (fun manager report => applyReport report manager)
      dispatcher.manager = .ok reported →
        reported.workOf source = some (sourceWork inFlight completed rerunPending finished)) :
    next.manager.workOf source =
      some (sourceWork inFlight completed rerunPending finished) := by
  unfold idle at hNext
  obtain ⟨applied, hApplied, hRest⟩ := bind_eq_ok hNext
  unfold applySourceProgress at hApplied
  obtain ⟨reported, hOk, hSettled⟩ := bind_eq_ok hApplied
  have hWork := hReported reported hOk
  have hApplied : applied.manager.workOf source =
      some (sourceWork inFlight completed rerunPending finished) := by
    cases hSettled
    show (if reports.isEmpty then reported else reported.refresh).workOf source = _
    split
    · exact hWork
    · rw [workOf_refresh]
      exact hWork
  have hTimers : Timerless applied.scheduler source := by
    cases hSettled
    exact h.timerless
  have hFired : (applied.promoteDueEventTimeTimers.1.fireDueProcessingTime now).1.manager.workOf
      source = some (sourceWork inFlight completed rerunPending finished) := by
    rw [workOf_fireDueProcessingTime, workOf_promoteDueEventTimeTimers _ hTimers, hApplied]
    intro transformId
    rw [NodeScheduler.stageForTransform, applied.promoteDueEventTimeTimers_spec.1.transformToStage]
    exact hTimers transformId
  simp only at hRest
  generalize applied.promoteDueEventTimeTimers.1.fireDueProcessingTime now = fired
    at hRest hFired
  split at hRest
  · cases hRest
    exact hFired
  · split at hRest
    · cases hRest
      exact hFired
    · split at hRest
      · cases hRest
        exact workOf_releaseEmptyInputHolds hFired rfl
      · cases hRest

end SourceNode

end Dispatcher

end FlareDB
