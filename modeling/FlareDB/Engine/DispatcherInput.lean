import FlareDB.Engine.DispatcherEffects

/-! Whether a stage sees every row appended to its input. A producer's completion
leaves its output pending at the consumers, the first bundle of a wave takes
what is pending, and what that bundle is handed decides whether it reads. -/
namespace FlareDB

open KeyedStore

namespace WatermarkManager

open StageState

variable (manager : WatermarkManager)

/-- A delivery does not close a time-sorted input. -/
theorem closed_deliver (isEmpty : Bool) (outputMin : Option Timestamp) (id : StageId)
    (stage : StageState) (pcollection : PCollectionId) :
    (manager.deliver isEmpty outputMin id stage pcollection).timeSortedInputClosed =
      stage.timeSortedInputClosed := by
  rw [(manager.received_deliver isEmpty outputMin id stage pcollection).same]

/-- A delivered output is pending at the stages that read it, unless their
time-sorted input is closed. -/
theorem mem_pending_foldl_deliver (isEmpty : Bool) (outputMin : Option Timestamp) (id : StageId)
    {pcollection : PCollectionId} (hConsumer : id ∈ manager.consumersOf pcollection)
    {outputs : List PCollectionId} (hOutput : pcollection ∈ outputs) {stage : StageState}
    (hOpen : stage.timeSortedInputClosed = false) :
    pcollection ∈ (outputs.foldl (manager.deliver isEmpty outputMin id) stage).pending := by
  induction outputs generalizing stage with
  | nil => cases hOutput
  | cons output rest ih =>
      rw [List.foldl_cons]
      rcases List.mem_cons.mp hOutput with rfl | hRest
      · refine (manager.received_foldl_deliver _ _ _ _ _).pending_subset ?_
        unfold deliver
        rw [if_pos hConsumer]
        have hReceived : pcollection ∈
            (stage.receiveMain pcollection isEmpty outputMin).pending := by
          simp [receiveMain, hOpen]
        split
        · exact (received_receiveSide _ _ _).pending_subset hReceived
        · exact hReceived
      · exact ih hRest (by rw [closed_deliver, hOpen])

/-- What a stage does not read does not become pending at it. -/
theorem pending_foldl_deliver_eq (isEmpty : Bool) (outputMin : Option Timestamp) (id : StageId)
    {outputs : List PCollectionId} (hOther : ∀ output ∈ outputs, id ∉ manager.consumersOf output)
    (stage : StageState) :
    (outputs.foldl (manager.deliver isEmpty outputMin id) stage).pending = stage.pending := by
  induction outputs generalizing stage with
  | nil => rfl
  | cons output rest ih =>
      rw [List.foldl_cons, ih fun other hRest => hOther other (List.mem_cons_of_mem _ hRest)]
      unfold deliver
      rw [if_neg (hOther output List.mem_cons_self)]
      split
      · cases isEmpty <;> rfl
      · rfl

/-- Releasing the holds of empty inputs leaves every stage in its wave. -/
theorem sameWave_releaseEmptyInputHolds :
    Touches SameWave manager manager.releaseEmptyInputHolds.1 := by
  have hReleased : Touches SameWave manager
      (manager.mapStages fun _ stage => stage.releaseEmpty) :=
    ⟨_, manager.rewrites_mapStages _, fun _ _ => ⟨⟨rfl, rfl, rfl, rfl, rfl⟩, rfl, rfl⟩⟩
  unfold releaseEmptyInputHolds
  simp only
  split
  · exact Touches.trans SameWave.trans hReleased (sameWave_refresh _)
  · exact hReleased

theorem Rearms.sameWave {before after : WatermarkManager} (h : Rearms before after) :
    Touches SameWave before after :=
  h.mono fun _ _ hRearmed => hRearmed.1.sameWave

theorem Rearms.sameInput {before after : WatermarkManager} (h : Rearms before after) :
    Touches SameInput before after :=
  h.sameWave.mono fun _ _ hSame => hSame.toSameInput

end WatermarkManager

/-- Stages that read the same have the same shape. -/
theorem Shape.sameInput {specs : List StageSpec} {before after : WatermarkManager}
    (h : Shape specs before)
    (hSame : WatermarkManager.Touches StageState.SameInput before after) : Shape specs after := by
  obtain ⟨f, hRewrites, hInput⟩ := hSame
  exact h.rewrites hRewrites fun id stage => (hInput id stage).wiring

/-- The consumers of a PCollection are the stages that read it as a main input. -/
theorem Shape.mem_consumersOf {specs : List StageSpec} {manager : WatermarkManager}
    (h : Shape specs manager) {id : StageId} {stage : StageState}
    (hStage : manager.stages.lookup id = some stage) (pcollection : PCollectionId) :
    id ∈ manager.consumersOf pcollection ↔ pcollection ∈ stage.mainInputs := by
  rw [h.consumers]
  constructor
  · rintro ⟨spec, hSpec, rfl, hInput⟩
    obtain ⟨found, hFound, hWiring⟩ := h.registered spec hSpec
    rw [hStage] at hFound
    cases hFound
    have hInputs : stage.mainInputs = spec.mainInputs := congrArg Wiring.mainInputs hWiring
    rwa [hInputs]
  · intro hInput
    obtain ⟨spec, hSpec, hId, hWiring⟩ := h.lookup id stage hStage
    have hInputs : stage.mainInputs = spec.mainInputs := congrArg Wiring.mainInputs hWiring
    exact ⟨spec, hSpec, hId, by rwa [← hInputs]⟩

namespace Dispatcher

open WatermarkManager StageState

variable {dispatcher next : Dispatcher}

/-- Preparing to schedule delivers nothing. -/
theorem sameInput_prepare (dispatcher : Dispatcher) :
    Touches SameInput dispatcher.manager dispatcher.prepare.manager.refresh := by
  have hReconciled : Touches Retouched dispatcher.manager dispatcher.reconciled :=
    Touches.trans Retouched.trans (retouched_setEventTimeHolds _ _)
      (retouched_setResidualHolds _ _)
  have hPrepared : Touches SameInput dispatcher.manager dispatcher.prepare.manager :=
    Touches.trans SameInput.trans (hReconciled.mono fun _ _ h => h.sameInput)
      dispatcher.prepare_spec.2.sameInput
  exact Touches.trans SameInput.trans hPrepared (sameInput_refresh _)

/-- What a turn that schedules does to the stages: each starts as many bundles as
it is handed out, over the input it had. -/
theorem schedule_rewrites (hNext : dispatcher.schedule = .ok next) :
    ∃ f : StageId → StageState → StageState, (∀ id stage, SameInput stage (f id stage)) ∧
      Rewrites (fun id stage => StageState.started^[dispatcher.chosen.count id] (f id stage))
        dispatcher.manager next.manager := by
  obtain ⟨bundles, _, hHanded⟩ := schedule_ok hNext
  obtain ⟨f, hPrepared, hSame⟩ := dispatcher.sameInput_prepare
  have hRewrites := hPrepared.trans dispatcher.launched_spec.2
  rw [← hHanded.manager] at hRewrites
  exact ⟨f, hSame, hRewrites⟩

/-- Nor does queueing split work. -/
theorem Queues.sameInput {id : StageId} {items : List SdfWorkItem}
    (h : Queues id items dispatcher next) : Touches SameInput dispatcher.manager next.manager := by
  rcases h.manager with ⟨_, hSame⟩ | hRearms
  · rw [hSame]
    exact Rearms.rfl.sameInput
  · exact Touches.trans SameInput.trans ((retouched_setResidualHolds _ _).mono
      fun _ _ hTouched => hTouched.sameInput) hRearms.sameInput

/-- An idle turn of the dispatcher leaves every stage in its wave. -/
theorem sameWave_idle {reports : List SourceProgress} {now : Timestamp}
    (hNext : dispatcher.idle reports now = .ok next) :
    Touches SameWave dispatcher.manager next.manager := by
  obtain ⟨_, reported, settled, rearmed, hReported, hSettled, hRearmed, hLast⟩ := idle_ok hNext
  have hMiddle : Touches SameWave reported settled := by
    rcases hSettled with rfl | rfl
    · exact Rearms.rfl.sameWave
    · exact sameWave_refresh reported
  have hBefore : Touches SameWave dispatcher.manager rearmed :=
    Touches.trans SameWave.trans (Touches.trans SameWave.trans hReported.sameWave hMiddle)
      hRearmed.sameWave
  rcases hLast with hSame | hReleased
  · rwa [hSame]
  · rw [hReleased]
    exact Touches.trans SameWave.trans hBefore rearmed.sameWave_releaseEmptyInputHolds

/-- So it delivers nothing. -/
theorem sameInput_idle {reports : List SourceProgress} {now : Timestamp}
    (hNext : dispatcher.idle reports now = .ok next) :
    Touches SameInput dispatcher.manager next.manager :=
  (sameWave_idle hNext).mono fun _ _ hSame => hSame.toSameInput

theorem QueuesAll.sameInput {splits : List (StageId × SdfWorkItem)}
    (h : QueuesAll splits dispatcher next) :
    Touches SameInput dispatcher.manager next.manager := by
  induction splits generalizing dispatcher with
  | nil =>
      cases h
      exact Rearms.rfl.sameInput
  | cons split rest ih =>
      obtain ⟨middle, hQueues, hRest⟩ := h
      exact Touches.trans SameInput.trans hQueues.sameInput (ih hRest)

/-- The bundles a turn has handed out. -/
def handedOut (before after : Dispatcher) : List RunningBundle :=
  after.running.drop before.running.length

/-- Scheduling hands out the chosen stages' bundles, after those running. -/
theorem schedule_handedOut (hNext : dispatcher.schedule = .ok next) :
    (dispatcher.handedOut next).map RunningBundle.stage = dispatcher.chosen ∧
      next.running = dispatcher.running ++ dispatcher.handedOut next ∧
      HandedOut dispatcher.launched next (dispatcher.handedOut next) := by
  obtain ⟨bundles, hStages, hHanded⟩ := schedule_ok hNext
  have hRunning : next.running = dispatcher.running ++ bundles := by
    rw [hHanded.running, dispatcher.keeps_launched.running, dispatcher.prepare_spec.1.running]
  have hNew : dispatcher.handedOut next = bundles := by
    rw [handedOut, hRunning, List.drop_left]
  rw [hNew]
  exact ⟨hStages, hRunning, hHanded⟩

/-- The stages are those of a graph, and each has as many bundles in flight as
are running. -/
structure Tallied (specs : List StageSpec) (dispatcher : Dispatcher) : Prop where
  shape : Shape specs dispatcher.manager
  inFlight : ∀ id stage, dispatcher.manager.stages.lookup id = some stage →
    stage.inFlight = (dispatcher.running.map RunningBundle.stage).count id
  registered : ∀ bundle ∈ dispatcher.running,
    ∃ stage, dispatcher.manager.stages.lookup bundle.stage = some stage

/-- A stage with a running bundle has one in flight. -/
theorem Tallied.inFlight_pos {specs : List StageSpec} (h : Tallied specs dispatcher)
    {bundle : RunningBundle} (hBundle : bundle ∈ dispatcher.running) {stage : StageState}
    (hStage : dispatcher.manager.stages.lookup bundle.stage = some stage) : 0 < stage.inFlight := by
  rw [h.inFlight bundle.stage stage hStage]
  exact List.count_pos_iff.mpr (List.mem_map_of_mem hBundle)

/-- What a joined bundle leaves of every stage: its own is finished, and its
outputs are delivered. -/
structure Joined (dispatcher next : Dispatcher) (bundle : RunningBundle) (outcome : BundleOutcome)
    (producer : StageState) (reported completed : WatermarkManager) : Prop where
  lookup : dispatcher.manager.stages.lookup bundle.stage = some producer
  prepared : Touches SameInput dispatcher.manager reported
  delivered : ∃ isEmpty outputMin, Rewrites (reported.completion bundle.stage producer.outputs
    isEmpty outputMin) reported completed
  settled : Touches SameInput completed next.manager
  nodes : next.scheduler.nodes = dispatcher.scheduler.nodes
  initialized : ∀ other, other ≠ bundle.stage → (∀ split ∈ outcome.splits, split.1 ≠ other) →
    (next.sdfQueue other).initialized = (dispatcher.sdfQueue other).initialized

/-- What joining a bundle does, to the stage that produced it and to all others. -/
theorem join_stage {specs : List StageSpec} (h : Tallied specs dispatcher) {index : Nat}
    {outcome : BundleOutcome} (hNext : dispatcher.join index outcome = .ok next) :
    ∃ bundle producer reported completed, dispatcher.running[index]? = some bundle ∧
      next.running = dispatcher.running.eraseIdx index ∧
      Joined dispatcher next bundle outcome producer reported completed := by
  obtain ⟨bundle, queued, hBundle, hQueued, outputMin, inputCount, rfl⟩ := join_ok hNext
  obtain ⟨producer, hProducer⟩ := h.registered bundle (List.mem_of_getElem? hBundle)
  have hFlight := h.inFlight_pos (List.mem_of_getElem? hBundle) hProducer
  have hFrame : Touches SameInput dispatcher.manager queued.manager ∧
      queued.running = dispatcher.running.eraseIdx index ∧
      queued.scheduler.nodes = dispatcher.scheduler.nodes ∧
      ∀ other, other ≠ bundle.stage → (∀ split ∈ outcome.splits, split.1 ≠ other) →
        (queued.sdfQueue other).initialized = (dispatcher.sdfQueue other).initialized := by
    rcases hQueued with ⟨_, rfl⟩ | ⟨_, residual, hQueues, hSplits⟩
    · exact ⟨Rearms.rfl.sameInput, rfl, rfl, fun _ _ _ => rfl⟩
    · obtain ⟨hNodes, _, _, hRunning, hInitialized⟩ := hSplits.frame
      refine ⟨Touches.trans SameInput.trans hQueues.sameInput hSplits.sameInput,
        hRunning.trans hQueues.running, hNodes.trans hQueues.nodes, fun other hOther hNew => ?_⟩
      · rw [hInitialized other hNew, hQueues.initialized other hOther]
        simp [released, sdfQueue, left, AList.lookup_insert_ne hOther]
  obtain ⟨hSame, hRunning, hNodes, hInitialized⟩ := hFrame
  have hSynced : Touches SameInput dispatcher.manager queued.syncEventTimeHolds.manager :=
    Touches.trans SameInput.trans hSame ((retouched_setEventTimeHolds _ _).mono
      fun _ _ hTouched => hTouched.sameInput)
  obtain ⟨reported, completed, hRearms, hRefreshed, hCompleted⟩ :=
    queued.syncEventTimeHolds.manager.markComplete_spec bundle.stage outputMin inputCount
  have hReported : Touches SameInput dispatcher.manager reported :=
    Touches.trans SameInput.trans hSynced hRearms.sameInput
  obtain ⟨current, hCurrent, hInput⟩ := hReported.exists_after hProducer
  refine ⟨bundle, producer, reported, completed, hBundle, hRunning, hProducer, hReported, ?_, ?_,
    hNodes, hInitialized⟩
  · rcases hCompleted with ⟨_, hIdle⟩ | ⟨stage, isEmpty, propagatedMin, hStage, _, hRewrites⟩
    · have hNone := hIdle current hCurrent
      rw [hInput.inFlight] at hNone
      exact absurd hNone (Nat.pos_iff_ne_zero.mp hFlight)
    · rw [hCurrent] at hStage
      cases hStage
      have hOutputs : current.outputs = producer.outputs := congrArg Wiring.outputs hInput.wiring
      rw [hOutputs] at hRewrites
      exact ⟨isEmpty, propagatedMin, hRewrites⟩
  · show Touches SameInput completed
      (queued.syncEventTimeHolds.manager.markCompleteWithMinAndInput bundle.stage outputMin
        inputCount)
    rw [hRefreshed]
    exact sameInput_refresh completed

/-- What a join leaves of one stage. -/
structure Delivered (bundle : RunningBundle) (producer : StageState) (id : StageId)
    (old stage : StageState) : Prop where
  wiring : stage.wiring = old.wiring
  closed : stage.timeSortedInputClosed = old.timeSortedInputClosed
  inFlight : stage.inFlight = if id = bundle.stage then old.inFlight - 1 else old.inFlight
  completed : stage.completed = if id = bundle.stage then true else old.completed
  pending_subset : old.pending ⊆ stage.pending
  pending_of_read : ∀ output ∈ producer.outputs, output ∈ old.mainInputs →
    old.timeSortedInputClosed = false → stage.pending ≠ ∅
  pending_eq : (∀ output ∈ producer.outputs, output ∉ old.mainInputs) →
    stage.pending = old.pending

theorem Joined.exists_before {specs : List StageSpec} {bundle : RunningBundle}
    {outcome : BundleOutcome} {producer : StageState} {reported completed : WatermarkManager}
    (h : Joined dispatcher next bundle outcome producer reported completed)
    (hShape : Shape specs dispatcher.manager) {id : StageId} {stage : StageState}
    (hStage : next.manager.stages.lookup id = some stage) :
    ∃ old, dispatcher.manager.stages.lookup id = some old ∧
      Delivered bundle producer id old stage := by
  obtain ⟨isEmpty, outputMin, hRewrites⟩ := h.delivered
  obtain ⟨delivered, hDelivered, hSettled⟩ := h.settled.exists_before hStage
  obtain ⟨current, hCurrent, rfl⟩ := hRewrites.exists_before hDelivered
  obtain ⟨old, hOld, hPrepared⟩ := h.prepared.exists_before hCurrent
  have hConsumers := (hShape.sameInput h.prepared).mem_consumersOf hCurrent
  have hInputs : current.mainInputs = old.mainInputs :=
    congrArg Wiring.mainInputs hPrepared.wiring
  have hReceived := reported.received_completion bundle.stage producer.outputs isEmpty outputMin id
    current
  have hPending : (if id = bundle.stage then current.finished else current).pending =
      current.pending := by
    split <;> rfl
  have hClosed : (if id = bundle.stage then current.finished else current).timeSortedInputClosed =
      current.timeSortedInputClosed := by
    split <;> rfl
  refine ⟨old, hOld, ?_, ?_, ?_, ?_, ?_, ?_, ?_⟩
  · rw [hSettled.wiring, reported.wiring_completion, hPrepared.wiring]
  · rw [hSettled.closed, hReceived.same]
    exact hClosed.trans hPrepared.closed
  · rw [hSettled.inFlight, hReceived.same, ← hPrepared.inFlight]
    split <;> rfl
  · rw [hSettled.completed, hReceived.same, ← hPrepared.completed]
    split <;> rfl
  · rw [hSettled.pending, ← hPrepared.pending, ← hPending]
    exact hReceived.pending_subset
  · intro output hOutput hRead hOpen
    rw [hSettled.pending]
    refine Finset.ne_empty_of_mem (reported.mem_pending_foldl_deliver isEmpty outputMin id
      ((hConsumers output).mpr (by rwa [hInputs])) hOutput ?_)
    rw [hClosed, hPrepared.closed, hOpen]
  · intro hOther
    rw [hSettled.pending, ← hPrepared.pending, ← hPending]
    refine reported.pending_foldl_deliver_eq isEmpty outputMin id (fun output hOutput => ?_) _
    rw [hConsumers, hInputs]
    exact hOther output hOutput

theorem Joined.exists_after {specs : List StageSpec} {bundle : RunningBundle}
    {outcome : BundleOutcome} {producer : StageState} {reported completed : WatermarkManager}
    (h : Joined dispatcher next bundle outcome producer reported completed)
    (hShape : Shape specs dispatcher.manager) {id : StageId} {old : StageState}
    (hOld : dispatcher.manager.stages.lookup id = some old) :
    ∃ stage, next.manager.stages.lookup id = some stage ∧
      Delivered bundle producer id old stage := by
  obtain ⟨_, _, hRewrites⟩ := h.delivered
  obtain ⟨current, hCurrent, _⟩ := h.prepared.exists_after hOld
  obtain ⟨stage, hStage, _⟩ := h.settled.exists_after (hRewrites.lookup_of_before hCurrent)
  obtain ⟨found, hFound, hDelivered⟩ := h.exists_before hShape hStage
  rw [hOld] at hFound
  cases hFound
  exact ⟨stage, hStage, hDelivered⟩

namespace Tallied

variable {specs : List StageSpec}

/-- The tally stands while no bundle starts or ends. -/
theorem sameInput (h : Tallied specs dispatcher) (hRunning : next.running = dispatcher.running)
    (hSame : Touches SameInput dispatcher.manager next.manager) : Tallied specs next where
  shape := h.shape.sameInput hSame
  inFlight id stage hStage := by
    obtain ⟨old, hOld, hInput⟩ := hSame.exists_before hStage
    rw [hInput.inFlight, hRunning]
    exact h.inFlight id old hOld
  registered bundle hBundle := by
    rw [hRunning] at hBundle
    obtain ⟨old, hOld⟩ := h.registered bundle hBundle
    obtain ⟨stage, hStage, _⟩ := hSame.exists_after hOld
    exact ⟨stage, hStage⟩

theorem inFlight_iterate (count : Nat) (stage : StageState) :
    (StageState.started^[count] stage).inFlight = stage.inFlight + count := by
  induction count generalizing stage with
  | zero => rfl
  | succ count ih =>
      rw [Function.iterate_succ_apply, ih, StageState.inFlight_started]
      omega

theorem wiring_iterate (count : Nat) (stage : StageState) :
    (StageState.started^[count] stage).wiring = stage.wiring := by
  induction count generalizing stage with
  | zero => rfl
  | succ count ih => rw [Function.iterate_succ_apply, ih, StageState.wiring_started]

/-- Scheduling keeps the tally of running bundles. -/
theorem schedule (h : Tallied specs dispatcher) (hNext : dispatcher.schedule = .ok next) :
    Tallied specs next := by
  obtain ⟨hStages, hRunning, _⟩ := schedule_handedOut hNext
  obtain ⟨f, hSame, hRewrites⟩ := schedule_rewrites hNext
  refine ⟨?_, ?_, ?_⟩
  · refine h.shape.rewrites hRewrites fun id stage => ?_
    rw [wiring_iterate, (hSame id stage).wiring]
  · intro id stage hStage
    obtain ⟨old, hOld, hStarted⟩ := hRewrites.exists_before hStage
    rw [hStarted, inFlight_iterate, (hSame id old).inFlight, h.inFlight id old hOld, hRunning,
      List.map_append, List.count_append, hStages]
  · intro bundle hBundle
    rw [hRunning] at hBundle
    rcases List.mem_append.mp hBundle with hOld | hNew
    · obtain ⟨old, hStage⟩ := h.registered bundle hOld
      exact ⟨_, hRewrites.lookup_of_before hStage⟩
    · have hChosen : bundle.stage ∈ dispatcher.chosen := by
        rw [← hStages]
        exact List.mem_map_of_mem hNew
      obtain ⟨hReady, _⟩ := dispatcher.launched_spec
      obtain ⟨current, hCurrent, _⟩ := barriers_of_mem_readyStages (hReady _ hChosen)
      obtain ⟨old, hOld, _⟩ := dispatcher.sameInput_prepare.exists_before hCurrent
      exact ⟨_, hRewrites.lookup_of_before hOld⟩

/-- Joining a bundle keeps it. -/
theorem join (h : Tallied specs dispatcher) {index : Nat} {outcome : BundleOutcome}
    (hNext : dispatcher.join index outcome = .ok next) : Tallied specs next := by
  obtain ⟨bundle, producer, reported, completed, hBundle, hRunning, hJoined⟩ := join_stage h hNext
  obtain ⟨isEmpty, outputMin, hRewrites⟩ := hJoined.delivered
  have hPerm : (dispatcher.running.map RunningBundle.stage).Perm
      (bundle.stage :: next.running.map RunningBundle.stage) := by
    obtain ⟨hIndex, hGet⟩ := List.getElem?_eq_some_iff.mp hBundle
    have hErased := List.getElem_cons_eraseIdx_perm hIndex
    rw [hGet, ← hRunning] at hErased
    exact (hErased.map RunningBundle.stage).symm
  refine ⟨?_, ?_, ?_⟩
  · exact ((h.shape.sameInput hJoined.prepared).rewrites hRewrites
      (reported.wiring_completion _ _ _ _)).sameInput hJoined.settled
  · intro id stage hStage
    obtain ⟨old, hOld, hDelivered⟩ := hJoined.exists_before h.shape hStage
    have hCount := hPerm.count_eq id
    rw [← h.inFlight id old hOld, List.count_cons] at hCount
    rw [hDelivered.inFlight]
    by_cases hId : id = bundle.stage
    · subst hId
      simp only [beq_self_eq_true, if_true] at hCount ⊢
      omega
    · have hNe : (bundle.stage == id) = false := by simpa using Ne.symm hId
      simp only [hNe, hId, if_false, Bool.false_eq_true] at hCount ⊢
      omega
  · intro other hOther
    have hRunningBefore : other ∈ dispatcher.running := by
      rw [hRunning] at hOther
      exact List.mem_of_mem_eraseIdx hOther
    obtain ⟨old, hOld⟩ := h.registered other hRunningBefore
    obtain ⟨stage, hStage, _⟩ := hJoined.exists_after h.shape hOld
    exact ⟨stage, hStage⟩

/-- Every step of the dispatcher keeps it. -/
theorem step (h : Tallied specs dispatcher) {action : DispatchAction}
    (hStep : dispatcher.step action = some next) : Tallied specs next := by
  cases action with
  | schedule => exact h.schedule (toOption_eq_some hStep)
  | split id item =>
      simp only [Dispatcher.step] at hStep
      split at hStep
      · have hQueues := enqueueSdfItems_ok (toOption_eq_some hStep)
        exact h.sameInput hQueues.running hQueues.sameInput
      · cases hStep
  | join index outcome =>
      simp only [Dispatcher.step] at hStep
      split at hStep
      · exact h.join (toOption_eq_some hStep)
      · cases hStep
  | idle reports now =>
      simp only [Dispatcher.step] at hStep
      split at hStep
      · exact h.sameInput (idle_ok (toOption_eq_some hStep)).1.running
          (sameInput_idle (toOption_eq_some hStep))
      · cases hStep

/-- At the start nothing runs. -/
theorem start (hDistinct : (specs.map StageSpec.id).Nodup) (nodes : Store StageId NodeKind)
    (transformToStage : Store String StageId) :
    Tallied specs (Dispatcher.start ⟨build specs, nodes, transformToStage⟩) where
  shape := shape_build hDistinct
  inFlight id stage hStage := by
    obtain ⟨spec, _, _, rfl⟩ := lookup_build specs hStage
    rfl
  registered bundle hBundle := by cases hBundle

end Tallied

end Dispatcher

/-- A dispatcher with the stages that have unread input: a producer of a main
input has completed a bundle since the last bundle of the stage that read its
input was handed out. -/
structure InputRun where
  dispatcher : Dispatcher
  unread : StageId → Bool

namespace InputRun

open WatermarkManager StageState

def start (scheduler : NodeScheduler) : InputRun where
  dispatcher := Dispatcher.start scheduler
  unread := fun _ => false

/-- Whether one stage writes a main input of another. -/
def writesTo (manager : WatermarkManager) (producer consumer : StageId) : Bool :=
  match manager.stages.lookup producer, manager.stages.lookup consumer with
  | some writer, some reader => writer.outputs.any fun output => decide (output ∈ reader.mainInputs)
  | _, _ => false

/-- A turn of the dispatcher, and what it does to the unread inputs. -/
def step (run : InputRun) (action : DispatchAction) : Option InputRun :=
  (run.dispatcher.step action).map fun next =>
    { dispatcher := next
      unread := fun id =>
        match action with
        | .schedule => run.unread id && !(run.dispatcher.handedOut next).any fun bundle =>
            decide (bundle.stage = id) && bundle.readsInput
        | .join index _ => run.unread id || run.dispatcher.running[index]?.any fun bundle =>
            writesTo run.dispatcher.manager bundle.stage id
        | _ => run.unread id }

theorem dispatcher_step {run after : InputRun} {action : DispatchAction}
    (hStep : run.step action = some after) :
    run.dispatcher.step action = some after.dispatcher := by
  obtain ⟨next, hNext, rfl⟩ := Option.map_eq_some_iff.mp hStep
  exact hNext

/-- A stage writes to another when one of its outputs is read there. -/
theorem writesTo_iff {manager : WatermarkManager} {producer consumer : StageId} :
    writesTo manager producer consumer = true ↔
      ∃ writer reader, manager.stages.lookup producer = some writer ∧
        manager.stages.lookup consumer = some reader ∧
        ∃ output ∈ writer.outputs, output ∈ reader.mainInputs := by
  unfold writesTo
  cases manager.stages.lookup producer <;> cases manager.stages.lookup consumer <;> simp

/-- What a turn can be, and what it does to the unread inputs. -/
theorem step_cases {run after : InputRun} {action : DispatchAction}
    (hStep : run.step action = some after) :
    (action = .schedule ∧ run.dispatcher.schedule = .ok after.dispatcher ∧
      ∀ id, after.unread id = true → run.unread id = true ∧
        ∀ bundle ∈ run.dispatcher.handedOut after.dispatcher, bundle.stage = id →
          bundle.readsInput = false) ∨
    (∃ index outcome, action = .join index outcome ∧
      (∀ split ∈ outcome.splits, ∃ bundle ∈ run.dispatcher.running, bundle.stage = split.1) ∧
      run.dispatcher.join index outcome = .ok after.dispatcher ∧
      ∀ id, after.unread id = true → run.unread id = true ∨
        ∃ bundle, run.dispatcher.running[index]? = some bundle ∧
          writesTo run.dispatcher.manager bundle.stage id = true) ∨
    (∃ id item, action = .split id item ∧
      (∃ bundle ∈ run.dispatcher.running, bundle.stage = id) ∧
      run.dispatcher.enqueueSdfItems id [item] = .ok after.dispatcher ∧
      after.unread = run.unread) ∨
    (∃ reports now, action = .idle reports now ∧
      run.dispatcher.idle reports now = .ok after.dispatcher ∧ after.unread = run.unread) := by
  obtain ⟨next, hNext, rfl⟩ := Option.map_eq_some_iff.mp hStep
  have hSplit : ∀ id, run.dispatcher.maySplit id = true →
      ∃ bundle ∈ run.dispatcher.running, bundle.stage = id := by
    intro id hMay
    obtain ⟨bundle, hBundle, hStage⟩ := List.any_eq_true.mp hMay
    rw [Bool.and_eq_true, decide_eq_true_eq] at hStage
    exact ⟨bundle, hBundle, hStage.1⟩
  cases action with
  | schedule =>
      refine Or.inl ⟨rfl, toOption_eq_some hNext, fun id hUnread => ?_⟩
      simpa [List.any_eq_false] using hUnread
  | join index outcome =>
      simp only [Dispatcher.step] at hNext
      split at hNext
      next hSplits =>
        refine Or.inr (Or.inl ⟨index, outcome, rfl, fun split hMem => ?_, toOption_eq_some hNext,
          fun id hUnread => ?_⟩)
        · exact hSplit split.1 (List.all_eq_true.mp hSplits split hMem)
        · simpa [Option.any_eq_true] using hUnread
      · cases hNext
  | split id item =>
      simp only [Dispatcher.step] at hNext
      split at hNext
      next hMay =>
        exact Or.inr (Or.inr (Or.inl ⟨id, item, rfl, hSplit id hMay, toOption_eq_some hNext, rfl⟩))
      · cases hNext
  | idle reports now =>
      simp only [Dispatcher.step] at hNext
      split at hNext
      · exact Or.inr (Or.inr (Or.inr ⟨reports, now, rfl, toOption_eq_some hNext, rfl⟩))
      · cases hNext

end InputRun

end FlareDB
