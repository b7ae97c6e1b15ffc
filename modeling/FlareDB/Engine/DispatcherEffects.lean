import FlareDB.Engine.Dispatcher
import FlareDB.Engine.Watermark.Graph
import FlareDB.Lib.Results

/-! What a turn of the dispatcher loop does to the stages: which holds it sets,
which bundles it starts and completes, and what it leaves alone. -/
namespace FlareDB

open KeyedStore Results

namespace StageState

theorem Retouched.trans {before middle after : StageState} (first : Retouched before middle)
    (second : Retouched middle after) : Retouched before after where
  same := by rw [second.same, first.same]
  isSome_source := second.isSome_source.trans first.isSome_source
  queued_le := first.queued_le.trans second.queued_le
  rerunPending h := second.rerunPending (first.rerunPending h)

/-- Both hold multisets are as before. -/
def SameHolds (before after : StageState) : Prop :=
  after.watermarkHolds = before.watermarkHolds ∧ after.residualHolds = before.residualHolds

theorem SameHolds.trans {before middle after : StageState} (first : SameHolds before middle)
    (second : SameHolds middle after) : SameHolds before after :=
  ⟨second.1.trans first.1, second.2.trans first.2⟩

/-- The stage after reports, queued work or a re-arm, with its holds as before. -/
def Rearmed (before after : StageState) : Prop :=
  Retouched before after ∧ SameHolds before after

/-- No bundle of the stage has started or completed, and its unread input is as
before. -/
structure SameInput (before after : StageState) : Prop where
  wiring : after.wiring = before.wiring
  pending : after.pending = before.pending
  closed : after.timeSortedInputClosed = before.timeSortedInputClosed
  inFlight : after.inFlight = before.inFlight
  completed : after.completed = before.completed

theorem SameInput.trans {before middle after : StageState} (first : SameInput before middle)
    (second : SameInput middle after) : SameInput before after where
  wiring := second.wiring.trans first.wiring
  pending := second.pending.trans first.pending
  closed := second.closed.trans first.closed
  inFlight := second.inFlight.trans first.inFlight
  completed := second.completed.trans first.completed

/-- The wave in flight is as before too, and so is the oldest event time that
waits for the next one. -/
structure SameWave (before after : StageState) : Prop extends SameInput before after where
  pendingMin : after.pendingMin = before.pendingMin
  watermarkAtLastRun : after.watermarkAtLastRun = before.watermarkAtLastRun

theorem SameWave.trans {before middle after : StageState} (first : SameWave before middle)
    (second : SameWave middle after) : SameWave before after where
  toSameInput := first.toSameInput.trans second.toSameInput
  pendingMin := second.pendingMin.trans first.pendingMin
  watermarkAtLastRun := second.watermarkAtLastRun.trans first.watermarkAtLastRun

/-- Retouching a stage leaves its current wave alone. -/
theorem Retouched.sameWave {before after : StageState} (h : Retouched before after) :
    SameWave before after := by
  refine ⟨⟨h.wiring, ?_, ?_, ?_, ?_⟩, ?_, ?_⟩ <;> rw [h.same]

/-- Retouching a stage leaves its input alone. -/
theorem Retouched.sameInput {before after : StageState} (h : Retouched before after) :
    SameInput before after :=
  h.sameWave.toSameInput

end StageState

namespace WatermarkManager

open StageState

variable {before middle after : WatermarkManager}

/-- Retouching some stages is one of the effects an operation may have. -/
theorem Touches.effect (h : Touches Retouched before after) : Effect before after := by
  obtain ⟨f, hRewrites, hTouched⟩ := h
  exact .changed (.retouched f hRewrites hTouched)

theorem rearmed_refl (stage : StageState) : Rearmed stage stage :=
  ⟨.refl stage, rfl, rfl⟩

theorem rearmed_trans {old mid new : StageState} (first : Rearmed old mid)
    (second : Rearmed mid new) : Rearmed old new :=
  ⟨first.1.trans second.1, first.2.trans second.2⟩

/-- The manager after reports, queued work and re-arms. -/
abbrev Rearms : WatermarkManager → WatermarkManager → Prop :=
  Touches Rearmed

theorem Rearms.rfl {manager : WatermarkManager} : Rearms manager manager :=
  Touches.refl rearmed_refl manager

/-- An operation on one stage that fails leaves the manager as it was. -/
theorem touches_orKeep_withStage {R : StageState → StageState → Prop}
    (hRefl : ∀ stage, R stage stage) (manager : WatermarkManager) (id : StageId)
    {f : StageState → StageState} (hf : ∀ stage, R stage (f stage)) :
    Touches R manager (manager.orKeep (manager.withStage id f)) := by
  refine ⟨_, rewrites_orKeep_withStage manager id f, fun other stage => ?_⟩
  split
  · exact hf stage
  · exact hRefl stage

/-- Re-arming a stage, if it exists, re-arms nothing else. -/
theorem rearms_orKeep_withStage (manager : WatermarkManager) (id : StageId)
    {f : StageState → StageState} (hf : ∀ stage, Rearmed stage (f stage)) :
    Rearms manager (manager.orKeep (manager.withStage id f)) :=
  touches_orKeep_withStage rearmed_refl manager id hf

/-- An operation on a source touches the source alone. -/
theorem rearms_orKeep_withSource (manager : WatermarkManager) (id : StageId)
    (f : SourceState → SourceState) :
    Rearms manager (manager.orKeep (manager.withSource id f)) := by
  refine ⟨_, rewrites_orKeep_withSource manager id f, fun other stage => ?_⟩
  split
  · exact ⟨⟨rfl, by simp, le_refl _, fun h => h⟩, rfl, rfl⟩
  · exact rearmed_refl stage

theorem orKeep_ok (manager : WatermarkManager) {result : Except String WatermarkManager}
    (h : result = .ok after) : manager.orKeep result = after := by
  rw [h]
  rfl

theorem rearmed_markRerun (stage : StageState) :
    Rearmed stage { stage with rerunPending := true } :=
  ⟨⟨rfl, rfl, le_refl _, fun _ => rfl⟩, rfl, rfl⟩

/-- New holds of timers retouch the stages. -/
theorem retouched_setEventTimeHolds (manager : WatermarkManager)
    (holds : Store StageId (List Timestamp)) :
    Touches Retouched manager (manager.setEventTimeHolds holds) :=
  ⟨_, manager.rewrites_mapStages _, fun _ _ => ⟨rfl, rfl, le_refl _, fun h => h⟩⟩

/-- New holds of deferred work retouch the stages. -/
theorem retouched_setResidualHolds (manager : WatermarkManager)
    (holds : Store StageId (List Timestamp)) :
    Touches Retouched manager (manager.setResidualHolds holds) :=
  ⟨_, manager.rewrites_mapStages _, fun _ _ => ⟨rfl, rfl, le_refl _, fun h => h⟩⟩

/-- Declaring work items re-arms no other stage. -/
theorem rearms_enqueueBundles {manager after : WatermarkManager} {id : StageId} {count : Nat}
    (h : manager.enqueueBundles id count = .ok after) : Rearms manager after := by
  rw [← orKeep_ok manager h]
  exact manager.rearms_orKeep_withStage id fun stage =>
    ⟨⟨rfl, rfl, Nat.le_add_right _ _, fun h => h⟩, rfl, rfl⟩

/-- A refresh leaves the waves of the stages alone. -/
theorem sameWave_refresh (manager : WatermarkManager) :
    Touches SameWave manager manager.refresh := by
  obtain ⟨input, output, hRefresh, _⟩ := manager.rewrites_refresh
  exact ⟨_, hRefresh, fun _ _ => ⟨⟨rfl, rfl, rfl, rfl, rfl⟩, rfl, rfl⟩⟩

/-- A refresh leaves the inputs of the stages alone. -/
theorem sameInput_refresh (manager : WatermarkManager) :
    Touches SameInput manager manager.refresh :=
  manager.sameWave_refresh.mono fun _ _ hSame => hSame.toSameInput

/-- A refresh leaves all holds alone. -/
theorem sameHolds_refresh (manager : WatermarkManager) :
    Touches SameHolds manager manager.refresh := by
  obtain ⟨input, output, hRefresh, _⟩ := manager.rewrites_refresh
  exact ⟨_, hRefresh, fun _ _ => ⟨rfl, rfl⟩⟩

/-- A ready stage waits for no producer. -/
theorem barriers_of_mem_readyStages {manager : WatermarkManager} {id : StageId}
    (h : id ∈ manager.readyStages) : ∃ stage, manager.stages.lookup id = some stage ∧
      stage.unproduced = ∅ ∧ stage.unproducedSideInputs = ∅ := by
  rw [readyStages, List.mem_insertionSort, List.mem_filter] at h
  have hReady := h.2
  unfold stageIsReady at hReady
  split at hReady
  · cases hReady
  next stage hStage =>
    refine ⟨stage, hStage, ?_⟩
    split at hReady
    · cases hReady
    next hMayRun =>
      unfold StageState.isReadyWithoutUpstreamBarrier at hMayRun
      split at hMayRun
      · exact absurd rfl hMayRun
      next hBarriers =>
        rw [not_or, not_or, not_not, not_not] at hBarriers
        exact hBarriers.2

/-- A joined bundle, stage by stage: a bounded source is reported finished, the
completion is delivered unless the stage has nothing in flight, and the
watermarks are refreshed. -/
theorem markComplete_spec (manager : WatermarkManager) (id : StageId)
    (outputMin : Option Timestamp) (inputCount : Option Nat) :
    ∃ reported completed, Rearms manager reported ∧
      manager.markCompleteWithMinAndInput id outputMin inputCount = completed.refresh ∧
      ((completed = reported ∧ ∀ stage, reported.stages.lookup id = some stage →
          stage.inFlight = 0) ∨
        ∃ stage isEmpty propagatedMin, reported.stages.lookup id = some stage ∧
          0 < stage.inFlight ∧
          Rewrites (reported.completion id stage.outputs isEmpty propagatedMin) reported
            completed) := by
  have hReported : Rearms manager (if manager.isSource id && manager.sourceAutoFinishes id then
      (manager.reportSourceFinished id).toOption.getD manager else manager) := by
    split
    · exact manager.rearms_orKeep_withSource id _
    · exact Rearms.rfl
  unfold markCompleteWithMinAndInput
  simp only
  generalize (if manager.isSource id && manager.sourceAutoFinishes id then
    (manager.reportSourceFinished id).toOption.getD manager else manager) = reported
    at hReported ⊢
  refine ⟨reported, _, hReported, rfl, ?_⟩
  · cases hComplete : reported.completeBundleWithMinAndInput id outputMin inputCount with
    | error message =>
        refine Or.inl ⟨rfl, fun stage hStage => ?_⟩
        unfold completeBundleWithMinAndInput at hComplete
        rw [hStage] at hComplete
        simp only at hComplete
        split at hComplete
        next hIdle => exact hIdle
        · cases hComplete
    | ok result =>
        obtain ⟨stage, hStage, hFlight, hRewrites⟩ := completeBundle_ok hComplete
        exact Or.inr ⟨stage, _, _, hStage, hFlight, hRewrites⟩

end WatermarkManager

namespace NodeScheduler

open WatermarkManager

variable (scheduler : NodeScheduler)

/-- Promoting a timer re-arms the stage that owns it and touches no other. -/
theorem touches_promoteTimer {R : StageState → StageState → Prop} (hRefl : ∀ stage, R stage stage)
    (hRerun : ∀ stage, R stage { stage with rerunPending := true })
    (isDue : WatermarkManager → StageId → TimerEntry → Bool)
    (state : WatermarkManager × Store StageId (List TimerEntry)) (entry : TimerEntry) :
    Touches R state.1 (scheduler.promoteTimer isDue state entry).1 := by
  unfold promoteTimer
  split
  · exact Touches.refl hRefl _
  next stage _ =>
    split
    · exact touches_orKeep_withStage hRefl state.1 stage hRerun
    · exact Touches.refl hRefl _

/-- Promoting timers re-arms stages. -/
theorem touches_promote {R : StageState → StageState → Prop} (hRefl : ∀ stage, R stage stage)
    (hTrans : ∀ {old mid new}, R old mid → R mid new → R old new)
    (hRerun : ∀ stage, R stage { stage with rerunPending := true })
    (isDue : WatermarkManager → StageId → TimerEntry → Bool) (timers : List TimerEntry) :
    Touches R scheduler.watermarks (scheduler.promote isDue timers).1.watermarks := by
  have hFold : ∀ (rest : List TimerEntry)
      (state : WatermarkManager × Store StageId (List TimerEntry)),
      Touches R state.1 (rest.foldl (scheduler.promoteTimer isDue) state).1 := by
    intro rest
    induction rest with
    | nil => exact fun _ => Touches.refl hRefl _
    | cons entry rest ih =>
        intro state
        exact Touches.trans hTrans
          (scheduler.touches_promoteTimer hRefl hRerun isDue state entry) (ih _)
  exact hFold timers (scheduler.watermarks, ∅)

/-- Promoting timers re-arms stages and changes nothing else of the scheduler. -/
theorem rearms_promote (isDue : WatermarkManager → StageId → TimerEntry → Bool)
    (timers : List TimerEntry) :
    Rearms scheduler.watermarks (scheduler.promote isDue timers).1.watermarks ∧
      (scheduler.promote isDue timers).1.nodes = scheduler.nodes ∧
      (scheduler.promote isDue timers).1.transformToStage = scheduler.transformToStage :=
  ⟨scheduler.touches_promote rearmed_refl rearmed_trans rearmed_markRerun isDue timers, rfl, rfl⟩

end NodeScheduler

namespace Dispatcher

open WatermarkManager

/-- What no turn but a join or a split changes: the wiring, the residual work
and the running bundles. Timers may have been taken from the store. -/
structure Keeps (before after : Dispatcher) : Prop where
  nodes : after.scheduler.nodes = before.scheduler.nodes
  transformToStage : after.scheduler.transformToStage = before.scheduler.transformToStage
  residualHolds : after.residualHolds = before.residualHolds
  sdfQueues : after.sdfQueues = before.sdfQueues
  running : after.running = before.running
  timers : ∀ key entry, after.timers.lookup key = some entry →
    before.timers.lookup key = some entry

theorem Keeps.trans {before middle after : Dispatcher} (first : Keeps before middle)
    (second : Keeps middle after) : Keeps before after where
  nodes := second.nodes.trans first.nodes
  transformToStage := second.transformToStage.trans first.transformToStage
  residualHolds := second.residualHolds.trans first.residualHolds
  sdfQueues := second.sdfQueues.trans first.sdfQueues
  running := second.running.trans first.running
  timers key entry h := first.timers key entry (second.timers key entry h)

variable (dispatcher : Dispatcher)

theorem keeps_withManager (manager : WatermarkManager) :
    Keeps dispatcher (dispatcher.withManager manager) :=
  ⟨rfl, rfl, rfl, rfl, rfl, fun _ _ h => h⟩

/-- A timer that is left after a deletion was there before. -/
theorem lookup_of_lookup_deleteAll {store : TimerStore} {entries : List TimerEntry}
    {key : StorageKey} {entry : TimerEntry}
    (h : (store.deleteAll entries).lookup key = some entry) : store.lookup key = some entry := by
  rw [lookup_deleteAll] at h
  split at h
  · cases h
  · exact h

/-- A timer that is left after a delivery was there before. -/
theorem lookup_of_lookup_deliverTimers {groups : List (StageId × List TimerEntry)}
    {key : StorageKey} {entry : TimerEntry}
    (h : (dispatcher.deliverTimers groups).timers.lookup key = some entry) :
    dispatcher.timers.lookup key = some entry := by
  have hFold : ∀ (groups : List (StageId × List TimerEntry)) (store : TimerStore),
      (groups.foldl (fun store group => store.deleteAll group.2) store).lookup key =
        some entry → store.lookup key = some entry := by
    intro groups
    induction groups with
    | nil => exact fun _ h => h
    | cons group rest ih => exact fun store h => lookup_of_lookup_deleteAll (ih _ h)
  exact hFold groups dispatcher.timers h

/-- What promoting the due timers does: it keeps the loop's bundles and re-arms
stages. -/
theorem promoteDueEventTimeTimers_spec :
    Keeps dispatcher dispatcher.promoteDueEventTimeTimers.1 ∧
      Rearms dispatcher.manager dispatcher.promoteDueEventTimeTimers.1.manager := by
  unfold promoteDueEventTimeTimers
  split
  · exact ⟨⟨rfl, rfl, rfl, rfl, rfl, fun _ _ h => h⟩, Rearms.rfl⟩
  · obtain ⟨hRearms, hNodes, hTransforms⟩ := dispatcher.scheduler.rearms_promote
      (fun manager stage entry => decide (entry.domain = .eventTime) &&
        entry.isDueAtWatermark ((manager.effectiveInputWatermark stage).getD minTimestamp))
      dispatcher.timers.allEventTimeTimers
    refine ⟨⟨hNodes, hTransforms, rfl, rfl, rfl, fun key entry h => ?_⟩, hRearms⟩
    exact lookup_of_lookup_deliverTimers _ h

/-- What firing the due processing-time timers does. -/
theorem fireDueProcessingTime_spec (now : Timestamp) :
    Keeps dispatcher (dispatcher.fireDueProcessingTime now).1 ∧
      Rearms dispatcher.manager (dispatcher.fireDueProcessingTime now).1.manager := by
  obtain ⟨hRearms, hNodes, hTransforms⟩ := dispatcher.scheduler.rearms_promote
    (fun _ _ _ => true) (dispatcher.timers.takeDueProcessingTime now).2
  exact ⟨⟨hNodes, hTransforms, rfl, rfl, rfl, fun _ _ h => lookup_of_lookup_deleteAll h⟩, hRearms⟩

/-- The holds a turn works under: those of the durable timers and those of the
deferred work. -/
def reconciled : WatermarkManager :=
  (dispatcher.manager.setEventTimeHolds
    (timerHolds dispatcher.scheduler dispatcher.timers.allEventTimeTimers)).setResidualHolds
      dispatcher.residualHolds

/-- What a turn does before it polls the scheduler. -/
theorem prepare_spec :
    Keeps dispatcher dispatcher.prepare ∧ Rearms dispatcher.reconciled dispatcher.prepare.manager := by
  obtain ⟨hKeeps, hRearms⟩ := (dispatcher.syncEventTimeHolds.withManager
    (dispatcher.syncEventTimeHolds.manager.setResidualHolds
      dispatcher.residualHolds)).promoteDueEventTimeTimers_spec
  exact ⟨((dispatcher.keeps_withManager _).trans (keeps_withManager _ _)).trans hKeeps, hRearms⟩

/-- A report re-arms its source. -/
theorem rearms_applyReport {report : SourceProgress} {manager after : WatermarkManager}
    (h : applyReport report manager = .ok after) : Rearms manager after := by
  have hLast : ∀ advanced : WatermarkManager, (if report.done then
      advanced.reportSourceFinished report.stage else advanced.markRerun report.stage) =
        .ok after → Rearms advanced after := by
    intro advanced hReported
    split at hReported
    · rw [← orKeep_ok advanced hReported]
      exact advanced.rearms_orKeep_withSource report.stage _
    · rw [← orKeep_ok advanced hReported]
      exact advanced.rearms_orKeep_withStage report.stage rearmed_markRerun
  unfold applyReport at h
  cases hWatermark : report.watermark with
  | none =>
      rw [hWatermark] at h
      exact hLast manager h
  | some watermark =>
      rw [hWatermark] at h
      obtain ⟨advanced, hAdvanced, hReported⟩ := bind_eq_ok h
      refine Touches.trans rearmed_trans (?_ : Rearms manager advanced) (hLast advanced hReported)
      rw [← orKeep_ok manager hAdvanced]
      exact manager.rearms_orKeep_withSource report.stage _

/-- So do all reports of a turn. -/
theorem rearms_foldlM_applyReport {reports : List SourceProgress}
    {manager after : WatermarkManager}
    (h : reports.foldlM (fun manager report => applyReport report manager) manager = .ok after) :
    Rearms manager after := by
  induction reports generalizing manager with
  | nil =>
      cases h
      exact Rearms.rfl
  | cons report rest ih =>
      rw [List.foldlM_cons] at h
      obtain ⟨next, hNext, hRest⟩ := bind_eq_ok h
      exact Touches.trans rearmed_trans (rearms_applyReport hNext) (ih hRest)

/-- Bundles that have been handed out: each runs what its stage is and takes
timers that were queued for it. -/
structure HandedOut (before after : Dispatcher) (bundles : List RunningBundle) : Prop where
  scheduler : after.scheduler = before.scheduler
  timers : after.timers = before.timers
  residualHolds : after.residualHolds = before.residualHolds
  running : after.running = before.running ++ bundles
  initialized : ∀ id, (after.sdfQueue id).initialized = (before.sdfQueue id).initialized
  pendingTimers : ∀ id, (after.pendingTimers.lookup id).getD [] ⊆
    (before.pendingTimers.lookup id).getD []
  kind : ∀ bundle ∈ bundles,
    bundle.kind = (before.scheduler.nodes.lookup bundle.stage).getD .runner
  delivered : ∀ bundle ∈ bundles,
    bundle.timers ⊆ (before.pendingTimers.lookup bundle.stage).getD []
  seeded : ∀ bundle ∈ bundles, bundle.kind = .splittable →
    bundle.initialized = (before.sdfQueue bundle.stage).initialized

theorem HandedOut.manager {before after : Dispatcher} {bundles : List RunningBundle}
    (h : HandedOut before after bundles) : after.manager = before.manager :=
  congrArg NodeScheduler.watermarks h.scheduler

theorem HandedOut.refl : HandedOut dispatcher dispatcher [] :=
  ⟨rfl, rfl, rfl, by simp, fun _ => rfl, fun _ => List.Subset.refl _, by simp, by simp, by simp⟩

/-- Bundles handed out one after the other. -/
theorem HandedOut.trans {before middle after : Dispatcher} {first second : List RunningBundle}
    (hFirst : HandedOut before middle first) (hSecond : HandedOut middle after second) :
    HandedOut before after (first ++ second) where
  scheduler := hSecond.scheduler.trans hFirst.scheduler
  timers := hSecond.timers.trans hFirst.timers
  residualHolds := hSecond.residualHolds.trans hFirst.residualHolds
  running := by rw [hSecond.running, hFirst.running, List.append_assoc]
  initialized id := (hSecond.initialized id).trans (hFirst.initialized id)
  pendingTimers id := List.Subset.trans (hSecond.pendingTimers id) (hFirst.pendingTimers id)
  kind := by
    refine List.forall_mem_append.mpr ⟨hFirst.kind, ?_⟩
    rw [← hFirst.scheduler]
    exact hSecond.kind
  delivered := by
    refine List.forall_mem_append.mpr ⟨hFirst.delivered, fun bundle hBundle => ?_⟩
    exact List.Subset.trans (hSecond.delivered bundle hBundle) (hFirst.pendingTimers _)
  seeded := by
    refine List.forall_mem_append.mpr ⟨hFirst.seeded, fun bundle hBundle hKind => ?_⟩
    rw [hSecond.seeded bundle hBundle hKind, hFirst.initialized]

/-- What spawning a stage does: one bundle of it is handed out. -/
theorem spawn_ok {dispatcher next : Dispatcher} {id : StageId}
    (h : dispatcher.spawn id = .ok next) :
    ∃ bundle, bundle.stage = id ∧ HandedOut dispatcher next [bundle] := by
  have hErased : ∀ other, ((dispatcher.pendingTimers.erase id).lookup other).getD [] ⊆
      (dispatcher.pendingTimers.lookup other).getD [] := by
    intro other
    by_cases hOther : other = id
    · subst hOther
      simp
    · rw [AList.lookup_erase_ne hOther]
      exact List.Subset.refl _
  unfold spawn at h
  obtain ⟨_, _, hSpawned⟩ := bind_eq_ok h
  simp only at hSpawned
  split at hSpawned
  next hKind =>
    cases hSpawned
    refine ⟨_, rfl, rfl, rfl, rfl, rfl, ?_, hErased, by simp, by simp, by simp⟩
    intro other
    by_cases hOther : other = id
    · subst hOther
      simp [sdfQueue]
    · simp [sdfQueue, AList.lookup_insert_ne hOther]
  next hKind =>
    cases hSpawned
    refine ⟨_, rfl, rfl, rfl, rfl, rfl, fun _ => rfl, hErased, by simp, by simp, ?_⟩
    simp only [List.mem_singleton, forall_eq]
    exact fun hSplittable => absurd hSplittable hKind

/-- Spawning the chosen stages hands out one bundle for each. -/
theorem foldlM_spawn_ok {dispatcher next : Dispatcher} {ids : List StageId}
    (h : ids.foldlM spawn dispatcher = .ok next) :
    ∃ bundles, bundles.map RunningBundle.stage = ids ∧ HandedOut dispatcher next bundles := by
  induction ids generalizing dispatcher with
  | nil =>
      cases h
      exact ⟨[], rfl, HandedOut.refl _⟩
  | cons id rest ih =>
      rw [List.foldlM_cons] at h
      obtain ⟨spawned, hSpawned, hRest⟩ := bind_eq_ok h
      obtain ⟨bundle, hStage, hFirst⟩ := spawn_ok hSpawned
      obtain ⟨bundles, hStages, hOthers⟩ := ih hRest
      refine ⟨bundle :: bundles, by rw [List.map_cons, hStage, hStages], ?_⟩
      exact hFirst.trans hOthers

/-- The dispatcher when the bundles of a turn have started and none has been
handed out. -/
def launched : Dispatcher :=
  { dispatcher.prepare with scheduler := dispatcher.prepare.scheduler.nextNodes.1 }

/-- A poll of the scheduler keeps the loop's own state. -/
theorem keeps_nextNodes : Keeps dispatcher
    { dispatcher with scheduler := dispatcher.scheduler.nextNodes.1 } :=
  ⟨rfl, rfl, rfl, rfl, rfl, fun _ _ h => h⟩

theorem keeps_launched : Keeps dispatcher.prepare dispatcher.launched :=
  dispatcher.prepare.keeps_nextNodes

/-- The stages whose bundles a turn hands out. -/
def chosen : List StageId :=
  dispatcher.prepare.scheduler.nextNodes.2

/-- The bundles of a turn: of stages that are ready after a refresh, each started
as often as it is handed out. -/
theorem launched_spec :
    (∀ id ∈ dispatcher.chosen, id ∈ dispatcher.prepare.manager.refresh.readyStages) ∧
      Rewrites (fun id stage => StageState.started^[dispatcher.chosen.count id] stage)
        dispatcher.prepare.manager.refresh dispatcher.launched.manager := by
  obtain ⟨hReady, hRewrites, _⟩ := dispatcher.prepare.scheduler.nextNodes_spec
  exact ⟨fun id hId => (hReady id hId).1, hRewrites⟩

/-- What a scheduling turn does: it hands out one bundle for each chosen stage. -/
theorem schedule_ok {dispatcher next : Dispatcher} (h : dispatcher.schedule = .ok next) :
    ∃ bundles, bundles.map RunningBundle.stage = dispatcher.chosen ∧
      HandedOut dispatcher.launched next bundles :=
  foldlM_spawn_ok h

/-- Work items that have been queued for a splittable stage. -/
structure Queues (stage : StageId) (items : List SdfWorkItem) (before after : Dispatcher) :
    Prop where
  nodes : after.scheduler.nodes = before.scheduler.nodes
  transformToStage : after.scheduler.transformToStage = before.scheduler.transformToStage
  timers : after.timers = before.timers
  running : after.running = before.running
  residualHolds : after.residualHolds =
    items.foldl (fun holdsOf item => addHolds holdsOf stage item.holds) before.residualHolds
  manager : (items = [] ∧ after.manager = before.manager) ∨
    Rearms (before.manager.setResidualHolds after.residualHolds) after.manager
  initialized : ∀ other, other ≠ stage →
    (after.sdfQueue other).initialized = (before.sdfQueue other).initialized

/-- What queueing work items does. -/
theorem enqueueSdfItems_ok {dispatcher next : Dispatcher} {stage : StageId}
    {items : List SdfWorkItem} (h : dispatcher.enqueueSdfItems stage items = .ok next) :
    Queues stage items dispatcher next := by
  unfold enqueueSdfItems at h
  simp only at h
  split at h
  next hItems =>
    cases h
    have hNone := List.isEmpty_iff.mp hItems
    subst hNone
    refine ⟨rfl, rfl, rfl, rfl, rfl, Or.inl ⟨rfl, rfl⟩, fun other hOther => ?_⟩
    simp [sdfQueue, AList.lookup_insert_ne hOther]
  next hItems =>
    cases hQueued : (dispatcher.manager.setResidualHolds (items.foldl
        (fun holdsOf item => addHolds holdsOf stage item.holds)
        dispatcher.residualHolds)).enqueueBundles stage items.length with
    | error message =>
        rw [hQueued] at h
        cases h
    | ok manager =>
        rw [hQueued] at h
        cases h
        refine ⟨rfl, rfl, rfl, rfl, rfl, Or.inr (rearms_enqueueBundles hQueued), ?_⟩
        intro other hOther
        simp [sdfQueue, AList.lookup_insert_ne hOther]

/-- Split residuals that have been queued one after the other. -/
def QueuesAll : List (StageId × SdfWorkItem) → Dispatcher → Dispatcher → Prop
  | [], before, after => after = before
  | split :: rest, before, after =>
      ∃ middle, Queues split.1 [split.2] before middle ∧ QueuesAll rest middle after

/-- What queueing the splits of several stages does. -/
theorem foldlM_enqueueSdfItems_ok {dispatcher next : Dispatcher}
    {splits : List (StageId × SdfWorkItem)}
    (h : splits.foldlM (fun dispatcher split => dispatcher.enqueueSdfItems split.1 [split.2])
      dispatcher = .ok next) : QueuesAll splits dispatcher next := by
  induction splits generalizing dispatcher with
  | nil =>
      cases h
      rfl
  | cons split rest ih =>
      rw [List.foldlM_cons] at h
      obtain ⟨queued, hQueued, hRest⟩ := bind_eq_ok h
      exact ⟨queued, enqueueSdfItems_ok hQueued, ih hRest⟩

/-- What queueing split residuals leaves alone. -/
theorem QueuesAll.frame {splits : List (StageId × SdfWorkItem)} {before after : Dispatcher}
    (h : QueuesAll splits before after) :
    after.scheduler.nodes = before.scheduler.nodes ∧
      after.scheduler.transformToStage = before.scheduler.transformToStage ∧
      after.timers = before.timers ∧ after.running = before.running ∧
      ∀ other, (∀ split ∈ splits, split.1 ≠ other) →
        (after.sdfQueue other).initialized = (before.sdfQueue other).initialized := by
  induction splits generalizing before with
  | nil =>
      cases h
      exact ⟨rfl, rfl, rfl, rfl, fun _ _ => rfl⟩
  | cons split rest ih =>
      obtain ⟨middle, hQueues, hRest⟩ := h
      obtain ⟨hNodes, hTransforms, hTimers, hRunning, hInitialized⟩ := ih hRest
      refine ⟨hNodes.trans hQueues.nodes, hTransforms.trans hQueues.transformToStage,
        hTimers.trans hQueues.timers, hRunning.trans hQueues.running, fun other hOther => ?_⟩
      obtain ⟨hFirst, hOthers⟩ := List.forall_mem_cons.mp hOther
      rw [hInitialized other hOthers, hQueues.initialized other (Ne.symm hFirst)]

/-- A join, by kind of bundle. The committed minimum is passed on with the last
bundle of a wave. -/
theorem join_parts {dispatcher next : Dispatcher} {index : Nat} {outcome : BundleOutcome}
    (h : dispatcher.join index outcome = .ok next) :
    ∃ bundle queued, dispatcher.running[index]? = some bundle ∧
      ((bundle.kind ≠ .splittable ∧ queued = dispatcher.left index outcome) ∨
        (bundle.kind = .splittable ∧ (dispatcher.left index outcome).joinSdf bundle outcome.items
          outcome.splits = .ok queued)) ∧
      ∃ inputCount, next = queued.syncEventTimeHolds.withManager
        (queued.syncEventTimeHolds.manager.markCompleteWithMinAndInput bundle.stage
          (if queued.manager.inFlightBundles bundle.stage ≤ 1 then outcome.outputMin else none)
          inputCount) := by
  unfold join at h
  split at h
  · cases h
  next bundle hBundle =>
    simp only at h
    split at h
    next hKind =>
      obtain ⟨queued, hQueued, hNext⟩ := bind_eq_ok h
      cases hNext
      exact ⟨bundle, queued, hBundle, Or.inr ⟨hKind, hQueued⟩, _, rfl⟩
    next hKind =>
      cases h
      exact ⟨bundle, _, hBundle, Or.inl ⟨hKind, rfl⟩, _, rfl⟩

/-- The parts of a join, by kind of bundle. -/
theorem join_cases {dispatcher next : Dispatcher} {index : Nat} {outcome : BundleOutcome}
    (h : dispatcher.join index outcome = .ok next) :
    ∃ bundle queued, dispatcher.running[index]? = some bundle ∧
      ((bundle.kind ≠ .splittable ∧ queued = dispatcher.left index outcome) ∨
        (bundle.kind = .splittable ∧ (dispatcher.left index outcome).joinSdf bundle outcome.items
          outcome.splits = .ok queued)) ∧
      ∃ outputMin inputCount, next = queued.syncEventTimeHolds.withManager
        (queued.syncEventTimeHolds.manager.markCompleteWithMinAndInput bundle.stage outputMin
          inputCount) := by
  obtain ⟨bundle, queued, hBundle, hQueued, inputCount, hNext⟩ := join_parts h
  exact ⟨bundle, queued, hBundle, hQueued, _, inputCount, hNext⟩

/-- A joined bundle: its residual work is queued, the holds are reconciled and it
is marked complete. -/
theorem join_ok {dispatcher next : Dispatcher} {index : Nat} {outcome : BundleOutcome}
    (h : dispatcher.join index outcome = .ok next) :
    ∃ bundle queued, dispatcher.running[index]? = some bundle ∧
      ((bundle.kind ≠ .splittable ∧ queued = dispatcher.left index outcome) ∨
        (bundle.kind = .splittable ∧ ∃ residual, Queues bundle.stage outcome.items
          ((dispatcher.left index outcome).released bundle) residual ∧
            QueuesAll outcome.splits residual queued)) ∧
      ∃ outputMin inputCount, next = queued.syncEventTimeHolds.withManager
        (queued.syncEventTimeHolds.manager.markCompleteWithMinAndInput bundle.stage outputMin
          inputCount) := by
  obtain ⟨bundle, queued, hBundle, hQueued, hNext⟩ := join_cases h
  refine ⟨bundle, queued, hBundle, hQueued.imp_right ?_, hNext⟩
  rintro ⟨hKind, hSdf⟩
  obtain ⟨residual, hResidual, hSplits⟩ := bind_eq_ok hSdf
  exact ⟨hKind, residual, enqueueSdfItems_ok hResidual, foldlM_enqueueSdfItems_ok hSplits⟩

/-- An idle turn: sources report and timers re-arm stages, and if nothing moves
the empty inputs may be let go. -/
theorem idle_ok {dispatcher next : Dispatcher} {reports : List SourceProgress} {now : Timestamp}
    (h : dispatcher.idle reports now = .ok next) :
    Keeps dispatcher next ∧ ∃ reported settled rearmed, Rearms dispatcher.manager reported ∧
      (settled = reported ∨ settled = reported.refresh) ∧ Rearms settled rearmed ∧
      (next.manager = rearmed ∨ next.manager = rearmed.releaseEmptyInputHolds.1) := by
  unfold idle at h
  obtain ⟨applied, hApplied, hRest⟩ := bind_eq_ok h
  unfold applySourceProgress at hApplied
  obtain ⟨reported, hReported, hSettled⟩ := bind_eq_ok hApplied
  cases hSettled
  generalize hManager : (if reports.isEmpty then reported else reported.refresh) = settled
    at hRest
  obtain ⟨hPromoted, hPromotedRearms⟩ :=
    (dispatcher.withManager settled).promoteDueEventTimeTimers_spec
  obtain ⟨hFired, hFiredRearms⟩ :=
    (dispatcher.withManager settled).promoteDueEventTimeTimers.1.fireDueProcessingTime_spec now
  have hKeeps := ((dispatcher.keeps_withManager settled).trans hPromoted).trans hFired
  have hRearms : Rearms settled _ := Touches.trans rearmed_trans hPromotedRearms hFiredRearms
  have hMoved : settled = reported ∨ settled = reported.refresh := by
    rw [← hManager]
    split
    · exact Or.inl rfl
    · exact Or.inr rfl
  simp only at hRest
  generalize (dispatcher.withManager settled).promoteDueEventTimeTimers.1.fireDueProcessingTime
    now = fired at hRest hKeeps hRearms
  have hReports := rearms_foldlM_applyReport hReported
  split at hRest
  · cases hRest
    exact ⟨hKeeps, reported, settled, _, hReports, hMoved, hRearms, Or.inl rfl⟩
  · split at hRest
    · cases hRest
      exact ⟨hKeeps, reported, settled, _, hReports, hMoved, hRearms, Or.inl rfl⟩
    · split at hRest
      · cases hRest
        exact ⟨hKeeps.trans (keeps_withManager _ _), reported, settled, _, hReports, hMoved,
          hRearms, Or.inr rfl⟩
      · cases hRest

end Dispatcher

end FlareDB
