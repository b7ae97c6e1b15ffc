import FlareDB.Engine.Watermark.Refresh
import FlareDB.Lib.Runs

/-! The scheduler protocol over a watermark manager: which operations are taken,
and what each of them does to every stage. -/
namespace FlareDB

open KeyedStore

namespace StageState

/-- The stage after reports, holds, queued work or a re-arm: its progress is as
before, and nothing is taken back. -/
structure Retouched (before after : StageState) : Prop where
  same : after = { before with
    source := after.source
    watermarkHolds := after.watermarkHolds
    residualHolds := after.residualHolds
    queued := after.queued
    rerunPending := after.rerunPending }
  isSome_source : after.source.isSome = before.source.isSome
  queued_le : before.queued ≤ after.queued
  rerunPending : before.rerunPending = true → after.rerunPending = true

theorem Retouched.refl (stage : StageState) : Retouched stage stage :=
  ⟨rfl, rfl, le_refl _, id⟩

/-- The stage after deliveries from its producers: only its inputs changed, and
what was pending still is. -/
structure Received (before after : StageState) : Prop where
  same : after = { before with
    unproduced := after.unproduced
    unproducedSideInputs := after.unproducedSideInputs
    pending := after.pending
    pendingMin := after.pendingMin
    pendingEmpty := after.pendingEmpty }
  pending_subset : before.pending ⊆ after.pending
  pendingMin_le : after.pendingMin ≤ before.pendingMin

theorem Received.refl (stage : StageState) : Received stage stage :=
  ⟨rfl, Finset.Subset.refl _, le_refl _⟩

/-- Receiving twice is receiving. -/
theorem Received.trans {before middle after : StageState} (first : Received before middle)
    (second : Received middle after) : Received before after where
  same := by
    rw [second.same, first.same]
  pending_subset := first.pending_subset.trans second.pending_subset
  pendingMin_le := second.pendingMin_le.trans first.pendingMin_le

/-- A main input that arrives changes the inputs only. -/
theorem received_receiveMain (stage : StageState) (pcollection : PCollectionId) (isEmpty : Bool)
    (outputMin : Option Timestamp) :
    Received stage (stage.receiveMain pcollection isEmpty outputMin) := by
  unfold receiveMain
  simp only
  split
  · exact ⟨rfl, Finset.Subset.refl _, le_refl _⟩
  · refine ⟨rfl, Finset.subset_insert _ _, ?_⟩
    cases outputMin with
    | none => exact le_refl _
    | some timestamp => exact min_le_left _ _

/-- So does a side input. -/
theorem received_receiveSide (stage : StageState) (pcollection : PCollectionId) (isEmpty : Bool) :
    Received stage (stage.receiveSide pcollection isEmpty) := by
  cases isEmpty <;> exact ⟨rfl, Finset.Subset.refl _, le_refl _⟩

/-- The stage after some of its bundles have started: what is pending may have
been taken, and nothing else about its inputs changed. -/
structure Begun (before after : StageState) : Prop where
  same : after = { before with
    inFlight := after.inFlight
    queued := after.queued
    rerunPending := after.rerunPending
    timeSortedInputClosed := after.timeSortedInputClosed
    pending := after.pending
    pendingMin := after.pendingMin
    watermarkAtLastRun := after.watermarkAtLastRun }
  inFlight_le : before.inFlight ≤ after.inFlight
  closed : before.timeSortedInputClosed = true → after.timeSortedInputClosed = true
  pending_eq : 0 < before.inFlight → after.pending = before.pending

theorem Begun.refl (stage : StageState) : Begun stage stage :=
  ⟨rfl, le_refl _, fun h => h, fun _ => rfl⟩

theorem Begun.trans {before middle after : StageState} (first : Begun before middle)
    (second : Begun middle after) : Begun before after where
  same := by rw [second.same, first.same]
  inFlight_le := first.inFlight_le.trans second.inFlight_le
  closed h := second.closed (first.closed h)
  pending_eq h := by
    rw [second.pending_eq (h.trans_le first.inFlight_le), first.pending_eq h]

/-- One bundle that starts is such a change. -/
theorem begun_started (stage : StageState) : Begun stage stage.started := by
  unfold started
  split
  next hIdle =>
    refine ⟨rfl, Nat.le_succ _, fun h => by simp [h], fun hRunning => ?_⟩
    exact absurd hIdle (Nat.pos_iff_ne_zero.mp hRunning)
  · exact ⟨rfl, Nat.le_succ _, fun h => by simp [h], fun _ => rfl⟩

theorem inFlight_started (stage : StageState) : stage.started.inFlight = stage.inFlight + 1 := by
  unfold started
  split <;> rfl

/-- So are any number of them. -/
theorem begun_iterate (count : Nat) (stage : StageState) :
    Begun stage (started^[count] stage) := by
  induction count generalizing stage with
  | zero => exact .refl stage
  | succ count ih => exact (begun_started stage).trans (ih stage.started)

/-- The first bundle of a wave takes everything pending. -/
theorem pending_iterate_of_idle {stage : StageState} (hIdle : stage.inFlight = 0) {count : Nat}
    (hCount : 0 < count) : (started^[count] stage).pending = ∅ := by
  obtain ⟨count, rfl⟩ : ∃ less, count = less + 1 := ⟨count - 1, by omega⟩
  rw [Function.iterate_succ_apply]
  have hRunning : 0 < stage.started.inFlight := by
    rw [inFlight_started]
    exact Nat.succ_pos _
  rw [(begun_iterate count stage.started).pending_eq hRunning]
  simp [started, hIdle]

end StageState

namespace WatermarkManager

variable (manager : WatermarkManager)

/-- What a consumer records about one output of a completed bundle. -/
def deliver (isEmpty : Bool) (outputMin : Option Timestamp) (id : StageId)
    (stage : StageState) (pcollection : PCollectionId) : StageState :=
  let received :=
    if id ∈ manager.consumersOf pcollection then stage.receiveMain pcollection isEmpty outputMin
    else stage
  if id ∈ manager.sideInputConsumersOf pcollection then received.receiveSide pcollection isEmpty
  else received

/-- What a completed bundle leaves in a stage: its own bundle is finished and
its outputs are delivered. -/
def completion (producer : StageId) (outputs : List PCollectionId) (isEmpty : Bool)
    (outputMin : Option Timestamp) (id : StageId) (stage : StageState) : StageState :=
  outputs.foldl (manager.deliver isEmpty outputMin id)
    (if id = producer then stage.finished else stage)

/-- A delivery changes the inputs only. -/
theorem received_deliver (isEmpty : Bool) (outputMin : Option Timestamp) (id : StageId)
    (stage : StageState) (pcollection : PCollectionId) :
    stage.Received (manager.deliver isEmpty outputMin id stage pcollection) := by
  unfold deliver
  simp only
  split <;> split
  · exact (stage.received_receiveMain _ _ _).trans (StageState.received_receiveSide _ _ _)
  · exact stage.received_receiveSide _ _
  · exact stage.received_receiveMain _ _ _
  · exact .refl stage

/-- So do the deliveries of all outputs. -/
theorem received_foldl_deliver (isEmpty : Bool) (outputMin : Option Timestamp) (id : StageId)
    (outputs : List PCollectionId) (stage : StageState) :
    stage.Received (outputs.foldl (manager.deliver isEmpty outputMin id) stage) := by
  induction outputs generalizing stage with
  | nil => exact .refl stage
  | cons pcollection rest ih => exact (manager.received_deliver _ _ _ _ _).trans (ih _)

/-- What a completion changes besides the inputs: the completing stage is
finished. -/
theorem received_completion (producer : StageId) (outputs : List PCollectionId) (isEmpty : Bool)
    (outputMin : Option Timestamp) (id : StageId) (stage : StageState) :
    (if id = producer then stage.finished else stage).Received
      (manager.completion producer outputs isEmpty outputMin id stage) :=
  manager.received_foldl_deliver _ _ _ _ _

/-- Notifying consumers rewrites each of them once, however often it is listed. -/
theorem rewrites_foldl_notifyConsumer (f : StageState → StageState)
    (hIdem : ∀ stage, f (f stage) = f stage) (consumers : List StageId)
    (state : WatermarkManager × List StageId) :
    Rewrites (fun id stage => if id ∈ consumers then f stage else stage) state.1
      (consumers.foldl (notifyConsumer f) state).1 := by
  induction consumers generalizing state with
  | nil => simpa using Rewrites.refl state.1
  | cons consumer rest ih =>
      rw [List.foldl_cons]
      refine ((state.1.rewrites_modifyStage consumer f).trans
        (ih (notifyConsumer f state consumer))).congr ?_
      intro id stage _
      by_cases hRest : id ∈ rest <;> by_cases hId : id = consumer <;> simp [hRest, hId, hIdem]

/-- Notifying the consumers of one PCollection, stage by stage. -/
theorem rewrites_notifyConsumers (isEmpty : Bool) (outputMin : Option Timestamp)
    (state : WatermarkManager × List StageId) (pcollection : PCollectionId) :
    Rewrites (fun id stage => state.1.deliver isEmpty outputMin id stage pcollection) state.1
      (notifyConsumers isEmpty outputMin state pcollection).1 := by
  have hMain := rewrites_foldl_notifyConsumer
    (fun stage => stage.receiveMain pcollection isEmpty outputMin)
    (fun stage => stage.receiveMain_receiveMain pcollection isEmpty outputMin)
    (state.1.consumersOf pcollection) state
  refine (hMain.trans (rewrites_foldl_notifyConsumer
    (fun stage => stage.receiveSide pcollection isEmpty)
    (fun stage => stage.receiveSide_receiveSide pcollection isEmpty) _ _)).congr ?_
  intro id stage _
  rw [hMain.sideInputConsumersOf]
  rfl

/-- What is delivered depends on the wiring, which a rewrite keeps. -/
theorem deliver_eq {f : StageId → StageState → StageState} {before after : WatermarkManager}
    (h : Rewrites f before after) (isEmpty : Bool) (outputMin : Option Timestamp) (id : StageId)
    (stage : StageState) (pcollection : PCollectionId) :
    after.deliver isEmpty outputMin id stage pcollection =
      before.deliver isEmpty outputMin id stage pcollection := by
  simp [deliver, h.consumersOf, h.sideInputConsumersOf]

/-- Notifying the consumers of all outputs, stage by stage. -/
theorem rewrites_foldl_notifyConsumers (isEmpty : Bool) (outputMin : Option Timestamp)
    (outputs : List PCollectionId) (state : WatermarkManager × List StageId) :
    Rewrites (fun id stage => outputs.foldl (state.1.deliver isEmpty outputMin id) stage) state.1
      (outputs.foldl (notifyConsumers isEmpty outputMin) state).1 := by
  induction outputs generalizing state with
  | nil => exact Rewrites.refl state.1
  | cons pcollection rest ih =>
      rw [List.foldl_cons]
      have hFirst := rewrites_notifyConsumers isEmpty outputMin state pcollection
      refine (hFirst.trans (ih _)).congr ?_
      intro id stage _
      simp only [List.foldl_cons]
      congr 1
      funext current other
      exact deliver_eq hFirst isEmpty outputMin id current other

/-- A completed bundle, stage by stage. -/
theorem completeBundle_ok {manager after : WatermarkManager} {id : StageId}
    {outputMin : Option Timestamp} {inputCount : Option Nat} {ready : List StageId}
    (h : manager.completeBundleWithMinAndInput id outputMin inputCount = .ok (after, ready)) :
    ∃ stage, manager.stages.lookup id = some stage ∧ 0 < stage.inFlight ∧
      Rewrites (manager.completion id stage.outputs
        ((outputMin.isNone && decide (inputCount = some 0)) || decide (stage.pendingEmpty ≠ ∅))
        (if stage.pendingEmpty ≠ ∅ then some minTimestamp else outputMin)) manager after := by
  unfold completeBundleWithMinAndInput at h
  split at h
  · cases h
  next stage hStage =>
    split at h
    · cases h
    next hFlight =>
      obtain ⟨rfl, _⟩ := Prod.mk.inj (Except.ok.inj h)
      refine ⟨stage, hStage, Nat.pos_of_ne_zero hFlight, ?_⟩
      have hFinished := manager.rewrites_modifyStage id StageState.finished
      refine (hFinished.trans (rewrites_foldl_notifyConsumers _ _ _
        (manager.modifyStage id StageState.finished, []))).congr ?_
      intro other current _
      simp only [completion, decide_eq_true_eq]
      congr 1

/-- A bundle starts only at a registered stage without a reason against it. -/
theorem startBundle_ok {manager after : WatermarkManager} {id : StageId}
    (h : manager.startBundle id = .ok after) :
    ∃ stage, manager.stages.lookup id = some stage ∧ stage.startError id = none ∧
      Rewrites (fun other stage => if other = id then stage.started else stage) manager after := by
  unfold startBundle at h
  split at h
  · cases h
  next stage hStage =>
    split at h
    · cases h
    next hError =>
      cases h
      exact ⟨stage, hStage, hError, manager.rewrites_modifyStage id _⟩

/-- A checked change of a stage is that change. -/
theorem withStage_ok {manager after : WatermarkManager} {id : StageId}
    {f : StageState → StageState} (h : manager.withStage id f = .ok after) :
    after = manager.modifyStage id f := by
  unfold withStage at h
  split at h <;> cases h
  rfl

/-- A checked change of a source is that change. -/
theorem withSource_ok {manager after : WatermarkManager} {id : StageId}
    {f : SourceState → SourceState} (h : manager.withSource id f = .ok after) :
    after = manager.modifyStage id fun stage => { stage with source := stage.source.map f } := by
  unfold withSource at h
  split at h
  · cases h
  · split at h <;> cases h
    rfl

end WatermarkManager

/-- The operations of the scheduler protocol. -/
inductive ManagerAction where
  | startBundle (stage : StageId)
  | completeBundle (stage : StageId) (outputMin : Option Timestamp) (inputCount : Option Nat)
  | enqueueBundles (stage : StageId) (count : Nat)
  | markRerun (stage : StageId)
  | addHold (stage : StageId) (timestamp : Timestamp)
  | releaseHold (stage : StageId) (timestamp : Timestamp)
  | setEventTimeHolds (holds : Store StageId (List Timestamp))
  | setResidualHolds (holds : Store StageId (List Timestamp))
  | reportSourcePartitionWatermark (stage : StageId) (partition : String) (timestamp : Timestamp)
  | setSourcePartitionIdle (stage : StageId) (partition : String) (idle : Bool)
  | reportSourceFinished (stage : StageId)
  | releaseEmptyInputHolds
  | refresh

/-- Whether an operation refreshes the watermarks. -/
def ManagerAction.refreshes : ManagerAction → Bool
  | .releaseEmptyInputHolds | .refresh => true
  | _ => false

namespace WatermarkManager

/-- One protocol step. Only a stage that `ready_stages` returns is started, and
an operation that fails is not a step. -/
def step (manager : WatermarkManager) : ManagerAction → Option WatermarkManager
  | .startBundle id =>
      if id ∈ manager.readyStages then (manager.startBundle id).toOption else none
  | .completeBundle id outputMin inputCount =>
      ((manager.completeBundleWithMinAndInput id outputMin inputCount).map Prod.fst).toOption
  | .enqueueBundles id count => (manager.enqueueBundles id count).toOption
  | .markRerun id => (manager.markRerun id).toOption
  | .addHold id timestamp => (manager.addHold id timestamp).toOption
  | .releaseHold id timestamp => (manager.releaseHold id timestamp).toOption
  | .setEventTimeHolds holds => some (manager.setEventTimeHolds holds)
  | .setResidualHolds holds => some (manager.setResidualHolds holds)
  | .reportSourcePartitionWatermark id partition timestamp =>
      (manager.reportSourcePartitionWatermark id partition timestamp).toOption
  | .setSourcePartitionIdle id partition idle =>
      (manager.setSourcePartitionIdle id partition idle).toOption
  | .reportSourceFinished id => (manager.reportSourceFinished id).toOption
  | .releaseEmptyInputHolds => some manager.releaseEmptyInputHolds.1
  | .refresh => some manager.refresh

/-- What an operation other than a refresh can do to a manager. -/
inductive Change (before after : WatermarkManager) : Prop where
  | retouched (f : StageId → StageState → StageState) (h : Rewrites f before after)
      (hTouched : ∀ id stage, StageState.Retouched stage (f id stage))
  | started (id : StageId) (stage : StageState) (hStage : before.stages.lookup id = some stage)
      (hStart : stage.startError id = none)
      (h : Rewrites (fun other stage => if other = id then stage.started else stage) before after)
  | completed (id : StageId) (stage : StageState) (isEmpty : Bool) (outputMin : Option Timestamp)
      (hStage : before.stages.lookup id = some stage) (hFlight : 0 < stage.inFlight)
      (h : Rewrites (before.completion id stage.outputs isEmpty outputMin) before after)
  | released (h : Rewrites (fun _ stage => stage.releaseEmpty) before after)

/-- A change or a refresh. -/
inductive Effect (before after : WatermarkManager) : Prop where
  | changed (h : Change before after)
  | refreshed (h : after = before.refresh)

/-- The chain of effects an operation has. -/
abbrev Effects : WatermarkManager → WatermarkManager → Prop :=
  Relation.ReflTransGen Effect

theorem toOption_eq_some {ε α : Type} {result : Except ε α} {value : α}
    (h : result.toOption = some value) : result = .ok value := by
  cases result <;> cases h
  rfl

/-- Retouching one stage is a change of the manager. -/
theorem change_withStage {manager after : WatermarkManager} {id : StageId}
    {f : StageState → StageState} (h : (manager.withStage id f).toOption = some after)
    (hTouched : ∀ stage, StageState.Retouched stage (f stage)) : Change manager after := by
  rw [withStage_ok (toOption_eq_some h)]
  refine .retouched _ (manager.rewrites_modifyStage id f) ?_
  intro other stage
  by_cases hId : other = id
  · simpa [hId] using hTouched stage
  · simpa [hId] using StageState.Retouched.refl stage

/-- So is a report of a source. -/
theorem change_withSource {manager after : WatermarkManager} {id : StageId}
    {f : SourceState → SourceState}
    (h : (manager.withSource id f).toOption = some after) : Change manager after := by
  rw [withSource_ok (toOption_eq_some h)]
  refine .retouched _ (manager.rewrites_modifyStage id _) ?_
  intro other stage
  by_cases hId : other = id
  · simp only [hId, if_true]
    exact ⟨rfl, by simp, le_refl _, fun h => h⟩
  · simpa [hId] using StageState.Retouched.refl stage

theorem change_releaseEmpty (manager : WatermarkManager) :
    Change manager (manager.mapStages fun _ stage => stage.releaseEmpty) :=
  .released (manager.rewrites_mapStages _)

/-- Releasing the holds of empty inputs is a sequence of changes. -/
theorem effects_releaseEmptyInputHolds (manager : WatermarkManager) :
    Effects manager manager.releaseEmptyInputHolds.1 := by
  have hReleased : Effects manager (manager.mapStages fun _ stage => stage.releaseEmpty) :=
    .single (.changed manager.change_releaseEmpty)
  unfold releaseEmptyInputHolds
  simp only
  split
  · exact hReleased.tail (.refreshed rfl)
  · exact hReleased

/-- So is the end of a bundle. -/
theorem change_completeBundle {manager after : WatermarkManager} {id : StageId}
    {outputMin : Option Timestamp} {inputCount : Option Nat} {ready : List StageId}
    (h : manager.completeBundleWithMinAndInput id outputMin inputCount = .ok (after, ready)) :
    Change manager after := by
  obtain ⟨stage, hStage, hFlight, hRewrites⟩ := completeBundle_ok h
  exact .completed id stage _ _ hStage hFlight hRewrites

/-- A protocol step that does not refresh is a single change. -/
theorem change_of_step {manager after : WatermarkManager} {action : ManagerAction}
    (hAction : action.refreshes = false) (h : manager.step action = some after) :
    Change manager after := by
  cases action with
  | startBundle id =>
      simp only [step] at h
      split at h
      · obtain ⟨stage, hStage, hStart, hRewrites⟩ := startBundle_ok (toOption_eq_some h)
        exact .started id stage hStage hStart hRewrites
      · cases h
  | completeBundle id outputMin inputCount =>
      have hOk := toOption_eq_some h
      cases hComplete : manager.completeBundleWithMinAndInput id outputMin inputCount with
      | error message => rw [hComplete] at hOk; cases hOk
      | ok result =>
          rw [hComplete] at hOk
          cases hOk
          exact change_completeBundle hComplete
  | enqueueBundles id count =>
      exact change_withStage h (fun stage => ⟨rfl, rfl, Nat.le_add_right _ _, fun h => h⟩)
  | markRerun id => exact change_withStage h (fun stage => ⟨rfl, rfl, le_refl _, fun _ => rfl⟩)
  | addHold id timestamp =>
      exact change_withStage h (fun stage => ⟨rfl, rfl, le_refl _, fun h => h⟩)
  | releaseHold id timestamp =>
      exact change_withStage h (fun stage => ⟨rfl, rfl, le_refl _, fun h => h⟩)
  | setEventTimeHolds holds =>
      cases h
      exact .retouched _ (manager.rewrites_mapStages _)
        (fun id stage => ⟨rfl, rfl, le_refl _, fun h => h⟩)
  | setResidualHolds holds =>
      cases h
      exact .retouched _ (manager.rewrites_mapStages _)
        (fun id stage => ⟨rfl, rfl, le_refl _, fun h => h⟩)
  | reportSourcePartitionWatermark id partition timestamp => exact change_withSource h
  | setSourcePartitionIdle id partition idle => exact change_withSource h
  | reportSourceFinished id => exact change_withSource h
  | releaseEmptyInputHolds => cases hAction
  | refresh => cases hAction

/-- Every protocol step is a chain of effects. -/
theorem effects_of_step {manager after : WatermarkManager} {action : ManagerAction}
    (h : manager.step action = some after) : Effects manager after := by
  cases hAction : action.refreshes with
  | false => exact .single (.changed (change_of_step hAction h))
  | true =>
      cases action <;> cases hAction <;> cases h
      · exact effects_releaseEmptyInputHolds manager
      · exact .single (.refreshed rfl)

end WatermarkManager

end FlareDB
