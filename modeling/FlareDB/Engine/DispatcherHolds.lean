import FlareDB.Engine.DispatcherEffects
import FlareDB.Engine.Watermark.Bounds

/-! The watermark check the dispatcher makes on its own bundles. A producer that
has completed is protected by its holds alone, so the check passes as long as no
stage's output watermark has passed one of its holds. Holds are set at a join or
a split, when the watermark of a re-running stage may already be past them. -/
namespace FlareDB

open KeyedStore

namespace WatermarkManager

open StageState

variable {before middle after : WatermarkManager}

/-- No output watermark has passed a hold of its stage. -/
def HoldsOpen (manager : WatermarkManager) : Prop :=
  ∀ id stage, manager.stages.lookup id = some stage →
    ∀ hold ∈ stage.watermarkHolds ++ stage.residualHolds, stage.output ≤ hold

/-- Holds stay open where neither holds nor output watermarks change. -/
theorem HoldsOpen.touches (h : HoldsOpen before) (hOutput : Touches
    (fun old new => new.output = old.output ∧ SameHolds old new) before after) :
    HoldsOpen after := by
  intro id stage hStage hold hHold
  obtain ⟨old, hOld, hSame, hTimers, hResidual⟩ := hOutput.exists_before hStage
  rw [hSame]
  rw [hTimers, hResidual] at hHold
  exact h id old hOld hold hHold

/-- A refresh raises no output watermark past an open hold. -/
theorem HoldsOpen.refresh {manager : WatermarkManager} (h : HoldsOpen manager) :
    HoldsOpen manager.refresh := by
  intro id stage hStage hold hHold
  obtain ⟨old, hOld, hTimers, hResidual⟩ := manager.sameHolds_refresh.exists_before hStage
  rw [hTimers, hResidual] at hHold
  have hBound : ∀ (current : WatermarkManager) input output,
      current.computeOutput (old.withWatermarks input output) ≤ hold := by
    intro current input output
    have hHolds := ((current.le_computeOutput_iff (old.withWatermarks input output) _).mp
      (le_refl _)).2.2.2
    exact ((old.withWatermarks input output).forall_minHold_iff _).mp hHolds hold hHold
  obtain ⟨input, output, hAfter, _, hBelow⟩ := output_refresh_le hOld hBound
  rw [hStage] at hAfter
  have hOutput := congrArg StageState.output (Option.some.inj hAfter)
  rw [hOutput]
  exact hBelow.trans (max_le (h id old hOld hold hHold) (le_refl _))

/-- What an operation that sets no hold does: the holds stand, and no watermark
passes one. -/
structure Drift (before after : WatermarkManager) : Prop where
  effects : Effects before after
  holds : Touches SameHolds before after
  holdsOpen : HoldsOpen before → HoldsOpen after

theorem Drift.trans (first : Drift before middle) (second : Drift middle after) :
    Drift before after where
  effects := first.effects.trans second.effects
  holds := Touches.trans SameHolds.trans first.holds second.holds
  holdsOpen h := second.holdsOpen (first.holdsOpen h)

/-- A change that leaves the holds alone. -/
theorem drift_of_rewrites {f : StageId → StageState → StageState} (h : Rewrites f before after)
    (hEffects : Effects before after)
    (hSame : ∀ id stage, (f id stage).output = stage.output ∧ SameHolds stage (f id stage)) :
    Drift before after where
  effects := hEffects
  holds := ⟨f, h, fun id stage => (hSame id stage).2⟩
  holdsOpen hOpen := hOpen.touches ⟨f, h, hSame⟩

theorem Rearms.drift (h : Rearms before after) : Drift before after := by
  have hEffect : Effect before after := Touches.effect (h.mono fun _ _ hRearmed => hRearmed.1)
  obtain ⟨f, hRewrites, hRearmed⟩ := h
  refine drift_of_rewrites hRewrites (.single hEffect) fun id stage => ⟨?_, (hRearmed id stage).2⟩
  rw [(hRearmed id stage).1.same]

/-- A refresh raises watermarks and changes no hold. -/
theorem drift_refresh (manager : WatermarkManager) : Drift manager manager.refresh where
  effects := .single (.refreshed rfl)
  holds := manager.sameHolds_refresh
  holdsOpen h := h.refresh

/-- A poll of the scheduler raises watermarks and changes no hold. -/
theorem drift_nextNodes (scheduler : NodeScheduler) :
    Drift scheduler.watermarks scheduler.nextNodes.1.watermarks := by
  obtain ⟨_, hRewrites, hEffects⟩ := scheduler.nextNodes_spec
  refine (drift_refresh scheduler.watermarks).trans (drift_of_rewrites hRewrites hEffects ?_)
  intro id stage
  rw [(begun_iterate _ stage).same]
  exact ⟨rfl, rfl, rfl⟩

/-- A completion changes no hold. -/
theorem drift_markComplete (manager : WatermarkManager) (id : StageId)
    (outputMin : Option Timestamp) (inputCount : Option Nat) :
    Drift manager (manager.markCompleteWithMinAndInput id outputMin inputCount) := by
  obtain ⟨reported, completed, hRearms, hRefreshed, hCompleted⟩ :=
    manager.markComplete_spec id outputMin inputCount
  rw [hRefreshed]
  refine Drift.trans (hRearms.drift.trans ?_) (drift_refresh completed)
  rcases hCompleted with ⟨rfl, _⟩ | ⟨stage, isEmpty, propagatedMin, hStage, hFlight, hRewrites⟩
  · exact Rearms.rfl.drift
  · refine drift_of_rewrites hRewrites (.single (.changed
      (.completed id stage isEmpty propagatedMin hStage hFlight hRewrites))) fun other current => ?_
    rw [(reported.received_completion id stage.outputs isEmpty propagatedMin other current).same]
    split <;> exact ⟨rfl, rfl, rfl⟩

/-- Releasing empty inputs changes no other hold. -/
theorem drift_releaseEmptyInputHolds (manager : WatermarkManager) :
    Drift manager manager.releaseEmptyInputHolds.1 := by
  have hReleased : Drift manager (manager.mapStages fun _ stage => stage.releaseEmpty) :=
    drift_of_rewrites (manager.rewrites_mapStages _) (.single (.changed manager.change_releaseEmpty))
      fun _ _ => ⟨rfl, rfl, rfl⟩
  unfold releaseEmptyInputHolds
  simp only
  split
  · exact hReleased.trans (drift_refresh _)
  · exact hReleased

/-- Timer holds that are not behind the output watermark stay open. -/
theorem HoldsOpen.setEventTimeHolds {manager : WatermarkManager} (h : HoldsOpen manager)
    {holds : Store StageId (List Timestamp)}
    (hAhead : ∀ id stage, manager.stages.lookup id = some stage →
      ∀ hold ∈ (holds.lookup id).getD [], stage.output ≤ hold) :
    HoldsOpen (manager.setEventTimeHolds holds) := by
  intro id stage hStage hold hHold
  obtain ⟨old, hOld, rfl⟩ := (manager.rewrites_mapStages _).exists_before hStage
  rcases List.mem_append.mp hHold with hTimer | hResidual
  · exact hAhead id old hOld hold hTimer
  · exact h id old hOld hold (List.mem_append_right _ hResidual)

/-- Holds of deferred work that are not behind the output watermark stay open. -/
theorem HoldsOpen.setResidualHolds {manager : WatermarkManager} (h : HoldsOpen manager)
    {holds : Store StageId (List Timestamp)}
    (hAhead : ∀ id stage, manager.stages.lookup id = some stage →
      ∀ hold ∈ (holds.lookup id).getD [], stage.output ≤ hold) :
    HoldsOpen (manager.setResidualHolds holds) := by
  intro id stage hStage hold hHold
  obtain ⟨old, hOld, rfl⟩ := (manager.rewrites_mapStages _).exists_before hStage
  rcases List.mem_append.mp hHold with hTimer | hResidual
  · exact h id old hOld hold (List.mem_append_left _ hTimer)
  · exact hAhead id old hOld hold hResidual

end WatermarkManager

section HoldStores

variable {holdsOf : Store StageId (List Timestamp)} {stage id : StageId} {hold : Timestamp}

/-- Adding the holds of a stage keeps the others. -/
theorem mem_addHolds {holds : List Timestamp} :
    hold ∈ ((addHolds holdsOf stage holds).lookup id).getD [] ↔
      hold ∈ (holdsOf.lookup id).getD [] ∨ (id = stage ∧ hold ∈ holds) := by
  unfold addHolds
  split
  next hEmpty => simp [List.isEmpty_iff.mp hEmpty]
  · by_cases hId : id = stage
    · subst hId
      simp
    · simp [hId]

/-- Adding the holds of several items. -/
theorem mem_foldl_addHolds {items : List SdfWorkItem} :
    hold ∈ ((items.foldl (fun holdsOf item => addHolds holdsOf stage item.holds)
      holdsOf).lookup id).getD [] ↔
      hold ∈ (holdsOf.lookup id).getD [] ∨ (id = stage ∧ ∃ item ∈ items, hold ∈ item.holds) := by
  induction items generalizing holdsOf with
  | nil => simp
  | cons item rest ih =>
      rw [List.foldl_cons, ih, mem_addHolds, List.exists_mem_cons_iff]
      tauto

/-- Giving holds back adds none. -/
theorem mem_of_mem_removeHolds {holds : List Timestamp}
    (h : hold ∈ ((removeHolds holdsOf stage holds).lookup id).getD []) :
    hold ∈ (holdsOf.lookup id).getD [] := by
  unfold removeHolds at h
  split at h
  · exact h
  next held hHeld =>
    simp only at h
    by_cases hId : id = stage
    · subst hId
      rw [hHeld]
      split at h
      · simp at h
      · rw [AList.lookup_insert] at h
        exact List.diff_subset _ _ h
    · split at h
      · rwa [AList.lookup_erase_ne hId] at h
      · rwa [AList.lookup_insert_ne hId] at h

/-- A stage is held by its own timers, each at its hold time. -/
theorem mem_timerHolds {scheduler : NodeScheduler} {timers : List TimerEntry} :
    hold ∈ ((Dispatcher.timerHolds scheduler timers).lookup id).getD [] ↔
      ∃ timer ∈ timers, scheduler.stageForTransform timer.key.transformId = some id ∧
        timer.holdTimestamp = hold := by
  induction timers using List.reverseRecOn with
  | nil => simp [Dispatcher.timerHolds]
  | append_singleton timers timer ih =>
      rw [Dispatcher.timerHolds] at ih ⊢
      rw [List.foldl_append, List.foldl_cons, List.foldl_nil]
      cases hStage : scheduler.stageForTransform timer.key.transformId with
      | none => simp [ih, hStage, or_and_right, exists_or]
      | some owner =>
          rw [mem_addHolds, ih]
          simp [hStage, or_and_right, exists_or, eq_comm]

/-- The event-time timers of the store. -/
theorem mem_allEventTimeTimers {store : TimerStore} {timer : TimerEntry} :
    timer ∈ store.allEventTimeTimers ↔
      timer.domain = .eventTime ∧ ∃ key, store.lookup key = some timer := by
  unfold TimerStore.allEventTimeTimers TimerStore.timers
  rw [List.mem_filter, decide_eq_true_eq, and_comm, List.mem_map]
  refine and_congr_right fun _ => ⟨?_, ?_⟩
  · rintro ⟨⟨key, entry⟩, hEntry, rfl⟩
    exact ⟨key, AList.mem_lookup_iff.mpr hEntry⟩
  · rintro ⟨key, hKey⟩
    exact ⟨⟨key, timer⟩, AList.mem_lookup_iff.mp hKey, rfl⟩

end HoldStores

namespace Dispatcher

open WatermarkManager

/-- The bounds of the watermarks, and holds that are open and stand for all
deferred work. -/
structure ResidualKept (specs : List StageSpec) (dispatcher : Dispatcher) : Prop where
  bounded : Bounded specs dispatcher.manager
  holdsOpen : dispatcher.manager.HoldsOpen
  residual : ∀ id stage, dispatcher.manager.stages.lookup id = some stage →
    ∀ hold ∈ (dispatcher.residualHolds.lookup id).getD [], hold ∈ stage.residualHolds

/-- The holds also stand for all durable timers. -/
structure HoldsKept (specs : List StageSpec) (dispatcher : Dispatcher) : Prop extends
    ResidualKept specs dispatcher where
  timers : ∀ id stage, dispatcher.manager.stages.lookup id = some stage →
    ∀ hold ∈ ((timerHolds dispatcher.scheduler
      dispatcher.timers.allEventTimeTimers).lookup id).getD [], hold ∈ stage.watermarkHolds

section Kept

variable {specs : List StageSpec} {dispatcher before after : Dispatcher}

/-- Without new timers there are no new timer holds. -/
theorem mem_timerHolds_of_lookup (before : Dispatcher)
    (hTransforms : after.scheduler.transformToStage = before.scheduler.transformToStage)
    (hTimers : ∀ key entry, after.timers.lookup key = some entry →
      before.timers.lookup key = some entry) {id : StageId} {hold : Timestamp}
    (h : hold ∈ ((timerHolds after.scheduler
      after.timers.allEventTimeTimers).lookup id).getD []) :
    hold ∈ ((timerHolds before.scheduler before.timers.allEventTimeTimers).lookup id).getD [] := by
  obtain ⟨timer, hTimer, hStage, hHold⟩ := mem_timerHolds.mp h
  obtain ⟨hDomain, key, hKey⟩ := mem_allEventTimeTimers.mp hTimer
  refine mem_timerHolds.mpr ⟨timer, mem_allEventTimeTimers.mpr ⟨hDomain, key, ?_⟩, ?_, hHold⟩
  · exact hTimers key timer hKey
  · rwa [NodeScheduler.stageForTransform, ← hTransforms]

/-- A turn that sets no hold and no timer keeps every hold standing. -/
theorem HoldsKept.drift (hGraph : SingleProducers specs) (h : HoldsKept specs before)
    (hTransforms : after.scheduler.transformToStage = before.scheduler.transformToStage)
    (hTimers : ∀ key entry, after.timers.lookup key = some entry →
      before.timers.lookup key = some entry)
    (hResidual : after.residualHolds = before.residualHolds)
    (hDrift : Drift before.manager after.manager) : HoldsKept specs after where
  bounded := h.bounded.effects hGraph.unique hDrift.effects
  holdsOpen := hDrift.holdsOpen h.holdsOpen
  residual id stage hStage hold hHold := by
    obtain ⟨old, hOld, _, hSame⟩ := hDrift.holds.exists_before hStage
    rw [hSame]
    rw [hResidual] at hHold
    exact h.residual id old hOld hold hHold
  timers id stage hStage hold hHold := by
    obtain ⟨old, hOld, hSame, _⟩ := hDrift.holds.exists_before hStage
    rw [hSame]
    exact h.timers id old hOld hold (mem_timerHolds_of_lookup before hTransforms hTimers hHold)

/-- What keeps the loop's state and only raises watermarks keeps the holds. -/
theorem HoldsKept.keeps (hGraph : SingleProducers specs) (h : HoldsKept specs before)
    (hKeeps : Keeps before after) (hDrift : Drift before.manager after.manager) :
    HoldsKept specs after :=
  h.drift hGraph hKeeps.transformToStage hKeeps.timers hKeeps.residualHolds hDrift

/-- Reconciling the holds with the timers is safe when no output watermark has
passed a timer's hold. -/
theorem ResidualKept.syncEventTimeHolds (hGraph : SingleProducers specs)
    (h : ResidualKept specs dispatcher)
    (hAhead : ∀ id stage, dispatcher.manager.stages.lookup id = some stage →
      ∀ hold ∈ ((timerHolds dispatcher.scheduler
        dispatcher.timers.allEventTimeTimers).lookup id).getD [], stage.output ≤ hold) :
    HoldsKept specs dispatcher.syncEventTimeHolds where
  bounded := h.bounded.effects hGraph.unique (.single (retouched_setEventTimeHolds _ _).effect)
  holdsOpen := h.holdsOpen.setEventTimeHolds hAhead
  residual id stage hStage hold hHold := by
    obtain ⟨old, hOld, rfl⟩ := (dispatcher.manager.rewrites_mapStages _).exists_before hStage
    exact h.residual id old hOld hold hHold
  timers id stage hStage hold hHold := by
    obtain ⟨old, hOld, rfl⟩ := (dispatcher.manager.rewrites_mapStages _).exists_before hStage
    exact hHold

/-- Reconciling the timer holds keeps the holds open. -/
theorem HoldsKept.reconciled (hGraph : SingleProducers specs) (h : HoldsKept specs dispatcher) :
    HoldsKept specs (dispatcher.withManager dispatcher.reconciled) := by
  have hSynced := h.toResidualKept.syncEventTimeHolds hGraph fun id stage hStage hold hHold =>
    h.holdsOpen id stage hStage hold (List.mem_append_left _ (h.timers id stage hStage hold hHold))
  refine ⟨⟨hSynced.bounded.effects hGraph.unique (.single (retouched_setResidualHolds _ _).effect), ?_,
    ?_⟩, ?_⟩
  · refine hSynced.holdsOpen.setResidualHolds fun id stage hStage hold hHold => ?_
    exact hSynced.holdsOpen id stage hStage hold
      (List.mem_append_right _ (hSynced.residual id stage hStage hold hHold))
  · intro id stage hStage hold hHold
    obtain ⟨old, hOld, rfl⟩ := (rewrites_mapStages _ _).exists_before hStage
    exact hHold
  · intro id stage hStage hold hHold
    obtain ⟨old, hOld, rfl⟩ := (rewrites_mapStages _ _).exists_before hStage
    exact hSynced.timers id old hOld hold hHold

/-- Preparing a turn keeps the holds open. -/
theorem HoldsKept.launched (hGraph : SingleProducers specs) (h : HoldsKept specs dispatcher) :
    HoldsKept specs dispatcher.launched := by
  obtain ⟨hKeeps, hRearms⟩ := dispatcher.prepare_spec
  have hPrepared := (h.reconciled hGraph).drift hGraph hKeeps.transformToStage hKeeps.timers
    hKeeps.residualHolds hRearms.drift
  have hStarted : Drift dispatcher.prepare.manager dispatcher.launched.manager :=
    drift_nextNodes dispatcher.prepare.scheduler
  exact hPrepared.keeps hGraph dispatcher.keeps_launched hStarted

/-- A scheduling turn keeps the holds open. -/
theorem HoldsKept.schedule (hGraph : SingleProducers specs) (h : HoldsKept specs dispatcher)
    (hNext : dispatcher.schedule = .ok after) : HoldsKept specs after := by
  obtain ⟨bundles, _, hHanded⟩ := schedule_ok hNext
  refine (h.launched hGraph).drift hGraph (by rw [hHanded.scheduler]) ?_ hHanded.residualHolds ?_
  · rw [hHanded.timers]
    exact fun _ _ hEntry => hEntry
  · rw [hHanded.manager]
    exact Rearms.rfl.drift

/-- Queued work items hold their stage, and the other stages are held as before. -/
theorem ResidualKept.queues (hGraph : SingleProducers specs) (h : ResidualKept specs before)
    {id : StageId} {items : List SdfWorkItem} (hQueues : Queues id items before after)
    (hAhead : ∀ stage, before.manager.stages.lookup id = some stage →
      ∀ item ∈ items, ∀ hold ∈ item.holds, stage.output ≤ hold) :
    ResidualKept specs after ∧ Touches (fun old new => new.output = old.output ∧
      new.watermarkHolds = old.watermarkHolds) before.manager after.manager := by
  rcases hQueues.manager with ⟨rfl, hSame⟩ | hRearms
  · have hHolds : after.residualHolds = before.residualHolds := hQueues.residualHolds
    refine ⟨⟨?_, ?_, ?_⟩, ?_⟩
    · rw [hSame]
      exact h.bounded
    · rw [hSame]
      exact h.holdsOpen
    · rw [hSame, hHolds]
      exact h.residual
    · rw [hSame]
      exact Touches.refl (fun _ => ⟨rfl, rfl⟩) _
  · have hDrift := hRearms.drift
    have hSet := retouched_setResidualHolds before.manager after.residualHolds
    refine ⟨⟨?_, ?_, ?_⟩, ?_⟩
    · exact (h.bounded.effects hGraph.unique (.single hSet.effect)).effects hGraph.unique hDrift.effects
    · refine hDrift.holdsOpen (h.holdsOpen.setResidualHolds fun other stage hStage hold hHold => ?_)
      rw [hQueues.residualHolds] at hHold
      rcases mem_foldl_addHolds.mp hHold with hOld | ⟨rfl, item, hItem, hNew⟩
      · exact h.holdsOpen other stage hStage hold
          (List.mem_append_right _ (h.residual other stage hStage hold hOld))
      · exact hAhead stage hStage item hItem hold hNew
    · intro other stage hStage hold hHold
      obtain ⟨middle, hMiddle, _, hSame⟩ := hDrift.holds.exists_before hStage
      obtain ⟨old, _, rfl⟩ := (rewrites_mapStages _ _).exists_before hMiddle
      rw [hSame]
      exact hHold
    · obtain ⟨f, hRewrites, hRearmed⟩ := hRearms
      refine ⟨_, (rewrites_mapStages _ _).trans hRewrites, fun other stage => ?_⟩
      refine ⟨?_, (hRearmed other _).2.1⟩
      rw [(hRearmed other _).1.same]

/-- So do the splits of several stages. -/
theorem ResidualKept.queuesAll (hGraph : SingleProducers specs) (h : ResidualKept specs before)
    {splits : List (StageId × SdfWorkItem)} (hQueues : QueuesAll splits before after)
    (hAhead : ∀ split ∈ splits, ∀ stage, before.manager.stages.lookup split.1 = some stage →
      ∀ hold ∈ split.2.holds, stage.output ≤ hold) :
    ResidualKept specs after ∧ Touches (fun old new => new.output = old.output ∧
      new.watermarkHolds = old.watermarkHolds) before.manager after.manager := by
  induction splits generalizing before with
  | nil =>
      cases hQueues
      exact ⟨h, Touches.refl (fun _ => ⟨rfl, rfl⟩) _⟩
  | cons split rest ih =>
      obtain ⟨middle, hFirst, hRest⟩ := hQueues
      obtain ⟨hSplit, hOthers⟩ := List.forall_mem_cons.mp hAhead
      obtain ⟨hMiddle, hTouches⟩ := h.queues hGraph hFirst fun stage hStage item hItem => by
        rw [List.mem_singleton.mp hItem]
        exact hSplit stage hStage
      obtain ⟨hKept, hAfter⟩ := ih hMiddle hRest fun other hOther stage hStage hold hHold => by
        obtain ⟨old, hOld, hOutput, _⟩ := hTouches.exists_before hStage
        rw [hOutput]
        exact hOthers other hOther old hOld hold hHold
      refine ⟨hKept, Touches.trans ?_ hTouches hAfter⟩
      exact fun first second => ⟨second.1.trans first.1, second.2.trans first.2⟩

/-- A joined bundle gives back its own holds and no others. -/
theorem ResidualKept.released (h : ResidualKept specs dispatcher) (bundle : RunningBundle) :
    ResidualKept specs (dispatcher.released bundle) where
  bounded := h.bounded
  holdsOpen := h.holdsOpen
  residual id stage hStage hold hHold :=
    h.residual id stage hStage hold (mem_of_mem_removeHolds hHold)

theorem ResidualKept.left (h : ResidualKept specs dispatcher) (index : Nat)
    (outcome : BundleOutcome) : ResidualKept specs (dispatcher.left index outcome) :=
  ⟨h.bounded, h.holdsOpen, h.residual⟩

/-- The stage that owns a timer. -/
def ownerOf (dispatcher : Dispatcher) (timer : TimerEntry) : Option StageState :=
  (dispatcher.scheduler.stageForTransform timer.key.transformId).bind
    dispatcher.manager.stages.lookup

/-- Every hold a turn sets is at or above the output watermark its stage has
reached by then. -/
def HoldsAhead (dispatcher : Dispatcher) : DispatchAction → Prop
  | .split id item => ∀ stage ∈ dispatcher.manager.stages.lookup id,
      ∀ hold ∈ item.holds, stage.output ≤ hold
  | .join index outcome =>
      (∀ timer ∈ outcome.timers, timer.clear = false → timer.entry.domain = .eventTime →
        ∀ stage ∈ dispatcher.ownerOf timer.entry, stage.output ≤ timer.entry.holdTimestamp) ∧
      (∀ bundle ∈ dispatcher.running[index]?, bundle.kind = .splittable →
        ∀ stage ∈ dispatcher.manager.stages.lookup bundle.stage,
          ∀ item ∈ outcome.items, ∀ hold ∈ item.holds, stage.output ≤ hold) ∧
      ∀ split ∈ outcome.splits, ∀ stage ∈ dispatcher.manager.stages.lookup split.1,
        ∀ hold ∈ split.2.holds, stage.output ≤ hold
  | .schedule | .idle _ _ => True

/-- No output watermark has passed the hold of a timer that is durable when a
bundle has been taken off. -/
theorem HoldsKept.le_timerHolds_left (h : HoldsKept specs dispatcher) {index : Nat}
    {outcome : BundleOutcome} (hAhead : dispatcher.HoldsAhead (.join index outcome)) {id : StageId}
    {stage : StageState} (hStage : dispatcher.manager.stages.lookup id = some stage)
    {hold : Timestamp} (hHold : hold ∈ ((timerHolds dispatcher.scheduler
      (dispatcher.left index outcome).timers.allEventTimeTimers).lookup id).getD []) :
    stage.output ≤ hold := by
  obtain ⟨timer, hTimer, hOwner, rfl⟩ := mem_timerHolds.mp hHold
  obtain ⟨hDomain, key, hKey⟩ := mem_allEventTimeTimers.mp hTimer
  have hFlushed : (flushTimers dispatcher.timers outcome.timers).lookup key = some timer := hKey
  rw [lookup_flushTimers] at hFlushed
  cases hWrite : (timerWrites outcome.timers).lookup key with
  | none =>
      rw [hWrite] at hFlushed
      have hStored := h.timers id stage hStage timer.holdTimestamp (mem_timerHolds.mpr
        ⟨timer, mem_allEventTimeTimers.mpr ⟨hDomain, key, hFlushed⟩, hOwner, rfl⟩)
      exact h.holdsOpen id stage hStage _ (List.mem_append_left _ hStored)
  | some write =>
      rw [hWrite, Option.getD_some] at hFlushed
      obtain ⟨output, hOutput, _, hSet⟩ := lookup_timerWrites _ hWrite
      cases hClear : output.clear with
      | true =>
          rw [hFlushed, hClear] at hSet
          cases hSet
      | false =>
          rw [hFlushed, hClear] at hSet
          cases hSet
          refine hAhead.1 output hOutput hClear hDomain stage ?_
          rw [ownerOf, hOwner]
          exact hStage

/-- A join whose new holds are ahead keeps the holds open. -/
theorem HoldsKept.join (hGraph : SingleProducers specs) (h : HoldsKept specs dispatcher)
    {index : Nat} {outcome : BundleOutcome}
    (hAhead : dispatcher.HoldsAhead (.join index outcome))
    (hNext : dispatcher.join index outcome = .ok after) : HoldsKept specs after := by
  obtain ⟨bundle, queued, hBundle, hQueued, outputMin, inputCount, rfl⟩ := join_ok hNext
  have hLeft := h.toResidualKept.left index outcome
  have hQueuedKept : ResidualKept specs queued ∧
      Touches (fun old new => new.output = old.output ∧ new.watermarkHolds = old.watermarkHolds)
        dispatcher.manager queued.manager ∧
      queued.timers = (dispatcher.left index outcome).timers ∧
      queued.scheduler.transformToStage = dispatcher.scheduler.transformToStage := by
    rcases hQueued with ⟨_, rfl⟩ | ⟨hKind, residual, hQueues, hSplits⟩
    · exact ⟨hLeft, Touches.refl (fun _ => ⟨rfl, rfl⟩) _, rfl, rfl⟩
    · obtain ⟨hResidual, hFirst⟩ := (hLeft.released bundle).queues hGraph hQueues
        fun stage hStage => hAhead.2.1 bundle hBundle hKind stage hStage
      obtain ⟨hKept, hRest⟩ := hResidual.queuesAll hGraph hSplits
        fun split hSplit stage hStage hold hHold => by
          obtain ⟨old, hOld, hOutput, _⟩ := hFirst.exists_before hStage
          rw [hOutput]
          exact hAhead.2.2 split hSplit old hOld hold hHold
      obtain ⟨_, hTransforms, hTimers, _⟩ := hSplits.frame
      refine ⟨hKept, Touches.trans (fun first second => ?_) hFirst hRest,
        hTimers.trans hQueues.timers, hTransforms.trans hQueues.transformToStage⟩
      exact ⟨second.1.trans first.1, second.2.trans first.2⟩
  obtain ⟨hKept, hTouches, hTimers, hTransforms⟩ := hQueuedKept
  have hSynced := hKept.syncEventTimeHolds hGraph fun id stage hStage hold hHold => by
    obtain ⟨old, hOld, hOutput, _⟩ := hTouches.exists_before hStage
    rw [hOutput]
    refine h.le_timerHolds_left hAhead hOld (mem_timerHolds_of_lookup
      (dispatcher.left index outcome) hTransforms (fun key entry hEntry => ?_) hHold)
    rwa [hTimers] at hEntry
  exact hSynced.keeps hGraph (keeps_withManager _ _) (drift_markComplete _ _ _ _)

/-- A split whose hold is ahead keeps the holds open. -/
theorem HoldsKept.split (hGraph : SingleProducers specs) (h : HoldsKept specs dispatcher)
    {id : StageId} {item : SdfWorkItem} (hAhead : dispatcher.HoldsAhead (.split id item))
    (hNext : dispatcher.enqueueSdfItems id [item] = .ok after) : HoldsKept specs after := by
  have hQueues := enqueueSdfItems_ok hNext
  obtain ⟨hKept, hTouches⟩ := h.toResidualKept.queues hGraph hQueues
    fun stage hStage other hOther => by
      rw [List.mem_singleton.mp hOther]
      exact hAhead stage hStage
  refine ⟨hKept, fun other stage hStage hold hHold => ?_⟩
  obtain ⟨old, hOld, _, hSame⟩ := hTouches.exists_before hStage
  rw [hSame]
  refine h.timers other old hOld hold
    (mem_timerHolds_of_lookup dispatcher hQueues.transformToStage ?_ hHold)
  rw [hQueues.timers]
  exact fun _ _ hEntry => hEntry

/-- An idle turn keeps the holds open. -/
theorem HoldsKept.idle (hGraph : SingleProducers specs) (h : HoldsKept specs dispatcher)
    {reports : List SourceProgress} {now : Timestamp}
    (hNext : dispatcher.idle reports now = .ok after) : HoldsKept specs after := by
  obtain ⟨hKeeps, reported, settled, rearmed, hReported, hSettled, hRearmed, hLast⟩ := idle_ok hNext
  refine h.keeps hGraph hKeeps ?_
  have hMiddle : Drift reported settled := by
    rcases hSettled with rfl | rfl
    · exact Rearms.rfl.drift
    · exact drift_refresh reported
  have hBefore := (hReported.drift.trans hMiddle).trans hRearmed.drift
  rcases hLast with hSame | hReleased
  · rwa [hSame]
  · rw [hReleased]
    exact hBefore.trans (drift_releaseEmptyInputHolds rearmed)

/-- So does every turn whose holds are ahead. -/
theorem HoldsKept.step (hGraph : SingleProducers specs) (h : HoldsKept specs dispatcher)
    {action : DispatchAction} (hAhead : dispatcher.HoldsAhead action)
    (hStep : dispatcher.step action = some after) : HoldsKept specs after := by
  cases action with
  | schedule => exact h.schedule hGraph (toOption_eq_some hStep)
  | split id item =>
      simp only [Dispatcher.step] at hStep
      split at hStep
      · exact h.split hGraph hAhead (toOption_eq_some hStep)
      · cases hStep
  | join index outcome =>
      simp only [Dispatcher.step] at hStep
      split at hStep
      · exact h.join hGraph hAhead (toOption_eq_some hStep)
      · cases hStep
  | idle reports now =>
      simp only [Dispatcher.step] at hStep
      split at hStep
      · exact h.idle hGraph (toOption_eq_some hStep)
      · cases hStep

theorem forM_eq_ok {α : Type} {check : α → Except String Unit} {items : List α}
    (h : ∀ item ∈ items, check item = .ok ()) : items.forM check = .ok () := by
  induction items with
  | nil => rfl
  | cons item rest ih =>
      have hFirst := h item List.mem_cons_self
      show (check item >>= fun _ => rest.forM check) = .ok ()
      rw [hFirst]
      exact ih fun other hOther => h other (List.mem_cons_of_mem _ hOther)

/-- A stage whose barriers are lifted was handed an input watermark at or below
every hold of its producers. -/
theorem validateBundleInputWatermark_ok (hGraph : SingleProducers specs)
    {manager : WatermarkManager} (hBounded : Bounded specs manager) (hOpen : manager.HoldsOpen)
    {id : StageId} {stage : StageState} (hStage : manager.stages.lookup id = some stage)
    (hMain : stage.unproduced = ∅) (hSide : stage.unproducedSideInputs = ∅) :
    manager.validateBundleInputWatermark id stage.watermarkAtLastRun = .ok () := by
  unfold validateBundleInputWatermark
  rw [hStage]
  refine forM_eq_ok fun input hInput => ?_
  cases hProducer : manager.producers.lookup input with
  | none => rfl
  | some producerId =>
      cases hLookup : manager.stages.lookup producerId with
      | none => simp only [hLookup]
      | some producer =>
          obtain ⟨spec, hSpec, rfl, hOutput⟩ := hBounded.shape.producers input producerId hProducer
          obtain ⟨found, hFound, hWiring⟩ := hBounded.shape.registered spec hSpec
          rw [hLookup] at hFound
          cases hFound
          have hOutputs : producer.outputs = spec.outputs := congrArg Wiring.outputs hWiring
          -- The barrier is lifted, so the producer has completed and only its holds count.
          have hCompleted := hBounded.completed_of_unproduced hStage hLookup
            (by rwa [hOutputs]) hInput hMain hSide
          have hOutstanding : producer.outstandingHold = producer.minHold := by
            simp only [StageState.outstandingHold, hCompleted, Bool.true_eq_false, false_and,
              if_false]
            cases producer.minHold <;> rfl
          simp only [hLookup, hOutstanding]
          cases hHold : producer.minHold with
          | none => rfl
          | some hold =>
              have hSource : stage.isSource = false := by
                obtain ⟨reader, hReader, _, hReads⟩ := hBounded.shape.lookup id stage hStage
                injection hReads with hMainInputs hSideInputs _ hIsSource
                by_contra hRoot
                rw [Bool.not_eq_false, hIsSource, List.isEmpty_iff] at hRoot
                have hNone := hGraph.roots reader hReader hRoot
                rw [StageState.inputs, hMainInputs, hSideInputs, hRoot, hNone] at hInput
                cases hInput
              have hUpstream : manager.upstream input = producer.output := by
                simp [upstream, producerOf, hProducer, hLookup]
              have hBelow : stage.watermarkAtLastRun ≤ hold := calc
                stage.watermarkAtLastRun ≤ stage.input := hBounded.lastRun_le id stage hStage
                _ ≤ manager.upstream input := hBounded.input_le id stage hStage hSource input hInput
                _ = producer.output := hUpstream
                _ ≤ hold := (producer.forall_minHold_iff _).mpr (hOpen _ producer hLookup) hold hHold
              exact if_neg (not_lt.mpr hBelow)

/-- Every bundle a turn hands out passes the watermark check. -/
theorem HoldsKept.validate (hGraph : SingleProducers specs) (h : HoldsKept specs dispatcher)
    {id : StageId} (hChosen : id ∈ dispatcher.chosen) :
    dispatcher.launched.manager.validateBundleInputWatermark id
      ((dispatcher.launched.manager.bundleInputWatermark id).getD minTimestamp) = .ok () := by
  have hLaunched := h.launched hGraph
  obtain ⟨hReady, hRewrites⟩ := dispatcher.launched_spec
  obtain ⟨old, hOld, hMain, hSide⟩ := barriers_of_mem_readyStages (hReady id hChosen)
  have hStage := hRewrites.lookup_of_before hOld
  have hBegun := StageState.begun_iterate (dispatcher.chosen.count id) old
  rw [bundleInputWatermark, hStage]
  refine validateBundleInputWatermark_ok hGraph hLaunched.bounded hLaunched.holdsOpen hStage ?_ ?_
  · exact (congrArg StageState.unproduced hBegun.same).trans hMain
  · exact (congrArg StageState.unproducedSideInputs hBegun.same).trans hSide

/-- Stages whose input watermarks are valid can all be spawned. -/
theorem foldlM_spawn_of_validate {ids : List StageId} (h : ∀ id ∈ ids,
    dispatcher.manager.validateBundleInputWatermark id
      ((dispatcher.manager.bundleInputWatermark id).getD minTimestamp) = .ok ()) :
    ∃ next, ids.foldlM spawn dispatcher = .ok next := by
  induction ids generalizing dispatcher with
  | nil => exact ⟨dispatcher, rfl⟩
  | cons id rest ih =>
      have hSpawned : ∃ spawned, dispatcher.spawn id = .ok spawned := by
        unfold spawn
        simp only [h id List.mem_cons_self]
        cases (dispatcher.scheduler.nodes.lookup id).getD .runner <;> exact ⟨_, rfl⟩
      obtain ⟨spawned, hSpawned⟩ := hSpawned
      obtain ⟨bundle, _, hHanded⟩ := spawn_ok hSpawned
      rw [List.foldlM_cons, hSpawned]
      refine ih fun other hOther => ?_
      rw [hHanded.manager]
      exact h other (List.mem_cons_of_mem _ hOther)

/-- No stage is held at the start. -/
theorem holdsKept_start (hGraph : SingleProducers specs) (nodes : Store StageId NodeKind)
    (transformToStage : Store String StageId) :
    HoldsKept specs (start ⟨build specs, nodes, transformToStage⟩) where
  bounded := Bounded.build hGraph.unique
  holdsOpen id stage hStage hold hHold := by
    obtain ⟨spec, _, _, rfl⟩ := lookup_build specs hStage
    cases hHold
  residual id stage hStage hold hHold := by
    simp [start] at hHold
  timers id stage hStage hold hHold := by
    obtain ⟨timer, hTimer, _⟩ := mem_timerHolds.mp hHold
    obtain ⟨_, key, hKey⟩ := mem_allEventTimeTimers.mp hTimer
    simp [start] at hKey

/-- In every run in which no hold is set below the output watermark its stage has
reached by then, every bundle the next turn hands out passes the watermark
check, so the turn succeeds. -/
theorem schedule_ok_of_holdsAhead (hGraph : SingleProducers specs)
    {nodes : Store StageId NodeKind} {transformToStage : Store String StageId}
    (hRun : Runs.Reaches Dispatcher.step HoldsAhead
      (start ⟨build specs, nodes, transformToStage⟩) dispatcher) :
    (∀ id ∈ dispatcher.chosen, dispatcher.launched.manager.validateBundleInputWatermark id
      ((dispatcher.launched.manager.bundleInputWatermark id).getD minTimestamp) = .ok ()) ∧
      ∃ next, dispatcher.schedule = .ok next := by
  have hKept : HoldsKept specs dispatcher :=
    hRun.invariant (fun _ _ _ hAhead hStep hBefore => hBefore.step hGraph hAhead hStep)
      (holdsKept_start hGraph nodes transformToStage)
  exact ⟨fun id hId => hKept.validate hGraph hId,
    foldlM_spawn_of_validate fun id hId => hKept.validate hGraph hId⟩

end Kept

instance (dispatcher : Dispatcher) (action : DispatchAction) :
    Decidable (dispatcher.HoldsAhead action) :=
  match action with
  | .split _ _ => inferInstanceAs (Decidable (∀ stage ∈ _, ∀ hold ∈ _, _ ≤ hold))
  | .join _ _ => inferInstanceAs (Decidable (_ ∧ _))
  | .schedule | .idle _ _ => inferInstanceAs (Decidable True)

/-- A source, a stage with timers that reads it, and a stage that reads that. -/
def timedPipeline : NodeScheduler where
  watermarks := build [readStage, workStage .ordinary minTimestamp 1, sinkStage]
  nodes := ofPairs [("read", .runner), ("work", .worker), ("sink", .worker)]
  transformToStage := ofPairs [("count", "work")]

theorem singleProducers_timedPipeline :
    SingleProducers [readStage, workStage .ordinary minTimestamp 1, sinkStage] where
  distinct := by decide
  single := by
    simp only [readStage, workStage, sinkStage]
    grind
  roots := by
    simp only [readStage, workStage, sinkStage]
    grind

/-- The stage with timers has set one at 10 in its first bundle. -/
def timerSet : Dispatcher :=
  (Runs.playAllowed Dispatcher.step HoldsAhead (start timedPipeline)
    [.schedule, .join 0 ⟨some 5, 1, [], [], []⟩, .schedule,
      .join 0 ⟨some 5, 1, [⟨alarm 10, false⟩], [], []⟩]).getD (start timedPipeline)

theorem schedule_ok_of_holdsAhead_timerSet :
    timerSet.chosen = ["sink", "work"] ∧
      (∀ id ∈ timerSet.chosen, timerSet.launched.manager.validateBundleInputWatermark id
        ((timerSet.launched.manager.bundleInputWatermark id).getD minTimestamp) = .ok ()) ∧
      ∃ next, timerSet.schedule = .ok next :=
  ⟨by decide +kernel, schedule_ok_of_holdsAhead singleProducers_timedPipeline
    (Runs.reaches_getD_playAllowed (by decide +kernel) (start timedPipeline))⟩

end Dispatcher

/-- A dispatcher with the output watermark the stage of each running bundle had
when the bundle was handed out. -/
structure HoldRun where
  dispatcher : Dispatcher
  startedAt : List Timestamp

namespace HoldRun

open Dispatcher

def start (scheduler : NodeScheduler) : HoldRun where
  dispatcher := Dispatcher.start scheduler
  startedAt := []

def step (run : HoldRun) (action : DispatchAction) : Option HoldRun :=
  (run.dispatcher.step action).map fun next =>
    { dispatcher := next
      startedAt :=
        match action with
        | .schedule => run.startedAt ++
            (next.running.drop run.dispatcher.running.length).map fun bundle =>
              ((next.manager.stages.lookup bundle.stage).map StageState.output).getD minTimestamp
        | .join index _ => run.startedAt.eraseIdx index
        | _ => run.startedAt }

/-- A joined bundle sets timers of its own stage, none of them with a hold below
the output watermark the stage had when the bundle started. There is no
splittable work. -/
def SetsAhead (run : HoldRun) : DispatchAction → Prop
  | .join index outcome =>
      (∀ bundle ∈ run.dispatcher.running[index]?, ∀ timer ∈ outcome.timers,
        run.dispatcher.scheduler.stageForTransform timer.entry.key.transformId =
          some bundle.stage) ∧
      ∀ output ∈ run.startedAt[index]?, ∀ timer ∈ outcome.timers,
        output ≤ timer.entry.holdTimestamp
  | .split _ _ => False
  | .schedule | .idle _ _ => True

instance (run : HoldRun) (action : DispatchAction) : Decidable (run.SetsAhead action) :=
  match action with
  | .join _ _ => inferInstanceAs (Decidable (_ ∧ _))
  | .split _ _ => inferInstanceAs (Decidable False)
  | .schedule | .idle _ _ => inferInstanceAs (Decidable True)

/-- The timer at 10 has been promoted and its callback is running. The join of
the other stage drops its hold, so the output watermark is at its end when the
callback sets the timer again at 20. -/
def timerReset : HoldRun :=
  (Runs.playAllowed step SetsAhead (start timedPipeline)
    [.schedule, .join 0 ⟨some 5, 1, [], [], []⟩, .schedule,
      .join 0 ⟨some 5, 1, [⟨alarm 10, false⟩], [], []⟩, .schedule,
      .join 0 ⟨none, 1, [], [], []⟩, .schedule,
      .join 0 ⟨none, 0, [⟨alarm 20, false⟩], [], []⟩]).getD (start timedPipeline)

/-- The dispatcher can trip its own check: a timer is set again within the bounds
of its bundle, and the next bundle that reads its stage is handed a watermark
past the hold. -/
theorem not_validate_timerReset :
    ¬∀ specs, SingleProducers specs → ∀ nodes transformToStage run,
      Runs.Reaches step SetsAhead
        (start ⟨WatermarkManager.build specs, nodes, transformToStage⟩) run →
          ∀ id ∈ run.dispatcher.chosen,
            run.dispatcher.launched.manager.validateBundleInputWatermark id
              ((run.dispatcher.launched.manager.bundleInputWatermark id).getD minTimestamp) =
                .ok () := by
  intro h
  have hFails : (timerReset.dispatcher.launched.manager.validateBundleInputWatermark "sink"
      ((timerReset.dispatcher.launched.manager.bundleInputWatermark "sink").getD
        minTimestamp)).toOption.isNone = true := by decide +kernel
  have hPasses := h _ singleProducers_timedPipeline _ _ timerReset
    (Runs.reaches_getD_playAllowed (by decide +kernel) (start timedPipeline)) "sink"
    (by decide +kernel)
  rw [hPasses] at hFails
  cases hFails

end HoldRun

end FlareDB
