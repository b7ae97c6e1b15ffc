import FlareDB.Engine.DispatcherInput
import FlareDB.Engine.Eligibility

/-! How many bundles a poll of the scheduler starts. Every ready stage is started,
as often as its work items and its room allow. Between two completions of its
producers a stage that has run is polled again, and a bundle started beside
another leaves the input pending that justified it. -/
namespace FlareDB

open KeyedStore StageState

/-- The stage an operation queues work for or re-arms. -/
def ManagerAction.armed : ManagerAction → Option StageId
  | .enqueueBundles stage _ | .markRerun stage => some stage
  | _ => none

/-- Whether an operation only records reports, holds, queued work or a re-arm. -/
def ManagerAction.records : ManagerAction → Bool
  | .startBundle _ | .completeBundle _ _ _ | .releaseEmptyInputHolds | .refresh => false
  | _ => true

namespace WatermarkManager

variable {manager before after : WatermarkManager} {id : StageId}

/-- What such an operation does to each stage. Only the stage it is about is
armed by it. -/
theorem records_of_step {action : ManagerAction} (hRecords : action.records = true)
    (h : manager.step action = some after) :
    ∃ f, Rewrites f manager after ∧ ∀ id stage, Retouched stage (f id stage) ∧
      (action.armed ≠ some id → (f id stage).queued = stage.queued ∧
        (f id stage).rerunPending = stage.rerunPending) := by
  have hStage : ∀ {other : StageId} {f : StageState → StageState},
      (manager.withStage other f).toOption = some after →
      (∀ stage, Retouched stage (f stage)) →
      (∀ stage, action.armed ≠ some other → (f stage).queued = stage.queued ∧
        (f stage).rerunPending = stage.rerunPending) →
      ∃ f, Rewrites f manager after ∧ ∀ id stage, Retouched stage (f id stage) ∧
        (action.armed ≠ some id → (f id stage).queued = stage.queued ∧
          (f id stage).rerunPending = stage.rerunPending) := by
    intro other f hOk hTouched hKept
    rw [withStage_ok (toOption_eq_some hOk)]
    refine ⟨_, manager.rewrites_modifyStage other f, fun id stage => ?_⟩
    by_cases hId : id = other
    · subst hId
      rw [if_pos rfl]
      exact ⟨hTouched stage, hKept stage⟩
    · rw [if_neg hId]
      exact ⟨.refl stage, fun _ => ⟨rfl, rfl⟩⟩
  have hSource : ∀ {other : StageId} {f : SourceState → SourceState},
      (manager.withSource other f).toOption = some after →
      ∃ f, Rewrites f manager after ∧ ∀ id stage, Retouched stage (f id stage) ∧
        (action.armed ≠ some id → (f id stage).queued = stage.queued ∧
          (f id stage).rerunPending = stage.rerunPending) := by
    intro other f hOk
    rw [withSource_ok (toOption_eq_some hOk)]
    refine ⟨_, manager.rewrites_modifyStage other _, fun id stage => ?_⟩
    split
    · exact ⟨⟨rfl, by simp, le_refl _, fun h => h⟩, fun _ => ⟨rfl, rfl⟩⟩
    · exact ⟨.refl stage, fun _ => ⟨rfl, rfl⟩⟩
  cases action with
  | startBundle _ | completeBundle _ _ _ | releaseEmptyInputHolds | refresh => cases hRecords
  | enqueueBundles other count =>
      exact hStage h (fun _ => ⟨rfl, rfl, Nat.le_add_right _ _, fun h => h⟩)
        fun _ hOther => absurd rfl hOther
  | markRerun other =>
      exact hStage h (fun _ => ⟨rfl, rfl, le_refl _, fun _ => rfl⟩)
        fun _ hOther => absurd rfl hOther
  | addHold other timestamp | releaseHold other timestamp =>
      exact hStage h (fun _ => ⟨rfl, rfl, le_refl _, fun h => h⟩) fun _ _ => ⟨rfl, rfl⟩
  | setEventTimeHolds holds | setResidualHolds holds =>
      cases h
      exact ⟨_, manager.rewrites_mapStages _, fun _ _ =>
        ⟨⟨rfl, rfl, le_refl _, fun h => h⟩, fun _ => ⟨rfl, rfl⟩⟩⟩
  | reportSourcePartitionWatermark _ _ _ | setSourcePartitionIdle _ _ _
  | reportSourceFinished _ => exact hSource h

end WatermarkManager

/-! The barriers of a stage that has a bundle in flight or has completed one. -/

namespace StageState

/-- Nothing the stage reads is awaited. -/
def Unbarred (stage : StageState) : Prop :=
  stage.unproduced = ∅ ∧ stage.unproducedSideInputs = ∅

/-- The stage has had a bundle. -/
def HasRun (stage : StageState) : Prop :=
  stage.completed = true ∨ 0 < stage.inFlight

/-- Nothing more is awaited than before, and a first bundle finds nothing
awaited. -/
structure Opens (before after : StageState) : Prop where
  unproduced : after.unproduced ⊆ before.unproduced
  unproducedSideInputs : after.unproducedSideInputs ⊆ before.unproducedSideInputs
  first : after.HasRun → before.HasRun ∨ after.Unbarred

variable {before middle after stage : StageState}

/-- A stage for which nothing is awaited keeps awaiting nothing. -/
theorem Opens.unbarred (h : Opens before after) (hBefore : before.Unbarred) : after.Unbarred :=
  ⟨Finset.subset_empty.mp (hBefore.1 ▸ h.unproduced),
    Finset.subset_empty.mp (hBefore.2 ▸ h.unproducedSideInputs)⟩

/-- Step by step no more is awaited than before. -/
theorem Opens.trans (first : Opens before middle) (second : Opens middle after) :
    Opens before after where
  unproduced := second.unproduced.trans first.unproduced
  unproducedSideInputs := second.unproducedSideInputs.trans first.unproducedSideInputs
  first hRun := by
    rcases second.first hRun with hMiddle | hOpen
    · rcases first.first hMiddle with hBefore | hOpen
      · exact Or.inl hBefore
      · exact Or.inr (second.unbarred hOpen)
    · exact Or.inr hOpen

theorem Opens.refl (stage : StageState) : Opens stage stage :=
  ⟨Finset.Subset.refl _, Finset.Subset.refl _, Or.inl⟩

/-- A retouched stage awaits what it did, and has not run meanwhile. -/
theorem Retouched.opens (h : Retouched before after) : Opens before after := by
  refine ⟨?_, ?_, fun hRun => Or.inl ?_⟩
  · rw [h.same]
  · rw [h.same]
  · rw [h.same] at hRun
    exact hRun

/-- Bundles may start where nothing is awaited. -/
theorem Begun.opens (h : Begun before after) (hOpen : before.Unbarred) : Opens before after := by
  refine ⟨?_, ?_, fun _ => Or.inr ?_⟩
  · rw [h.same]
  · rw [h.same]
  · rw [h.same]
    exact hOpen

/-- A main input that arrives is awaited no longer. -/
theorem opens_receiveMain (stage : StageState) (pcollection : PCollectionId) (isEmpty : Bool)
    (outputMin : Option Timestamp) :
    Opens stage (stage.receiveMain pcollection isEmpty outputMin) := by
  unfold receiveMain
  dsimp only
  split <;> exact ⟨Finset.erase_subset _ _, Finset.Subset.refl _, Or.inl⟩

/-- Nor is a side input. -/
theorem opens_receiveSide (stage : StageState) (pcollection : PCollectionId) (isEmpty : Bool) :
    Opens stage (stage.receiveSide pcollection isEmpty) := by
  cases isEmpty
  · exact ⟨Finset.Subset.refl _, Finset.erase_subset _ _, Or.inl⟩
  · exact ⟨Finset.Subset.refl _, Finset.Subset.refl _, Or.inl⟩

/-- A stage whose bundle ends has run before. -/
theorem opens_finished (hFlight : 0 < stage.inFlight) : Opens stage stage.finished :=
  ⟨Finset.Subset.refl _, Finset.Subset.refl _, fun _ => Or.inl (Or.inr hFlight)⟩

end StageState

namespace WatermarkManager

variable {manager after : WatermarkManager}

theorem opens_foldl_deliver (isEmpty : Bool) (outputMin : Option Timestamp) (id : StageId)
    (outputs : List PCollectionId) (stage : StageState) :
    Opens stage (outputs.foldl (manager.deliver isEmpty outputMin id) stage) := by
  induction outputs generalizing stage with
  | nil => exact .refl stage
  | cons output rest ih =>
      refine Opens.trans ?_ (ih _)
      unfold deliver
      dsimp only
      split <;> split
      · exact (stage.opens_receiveMain _ _ _).trans (opens_receiveSide _ _ _)
      · exact stage.opens_receiveSide _ _
      · exact stage.opens_receiveMain _ _ _
      · exact .refl stage

theorem opens_completion {producer : StageId} {stage : StageState} {outputs : List PCollectionId}
    {isEmpty : Bool} {outputMin : Option Timestamp}
    (hStage : manager.stages.lookup producer = some stage) (hFlight : 0 < stage.inFlight)
    (h : Rewrites (manager.completion producer outputs isEmpty outputMin) manager after) :
    Touches Opens manager after := by
  refine Touches.of_rewrites h Opens.refl fun id current hCurrent => ?_
  refine Opens.trans ?_ (opens_foldl_deliver _ _ _ _ _)
  split
  next hOwn =>
    subst hOwn
    rw [hStage] at hCurrent
    cases hCurrent
    exact opens_finished hFlight
  · exact .refl current

/-- A refresh starts nothing and awaits nothing. -/
theorem opens_refresh (manager : WatermarkManager) : Touches Opens manager manager.refresh := by
  obtain ⟨input, output, hRefresh, _⟩ := manager.rewrites_refresh
  exact ⟨_, hRefresh, fun _ _ => ⟨Finset.Subset.refl _, Finset.Subset.refl _, Or.inl⟩⟩

/-- Bundles are started of stages that are ready, which await nothing. -/
theorem opens_started (count : StageId → Nat)
    (hReady : ∀ id, 0 < count id → id ∈ manager.readyStages)
    (h : Rewrites (fun id stage => StageState.started^[count id] stage) manager after) :
    Touches Opens manager after := by
  refine Touches.of_rewrites h Opens.refl fun id stage hStage => ?_
  rcases Nat.eq_zero_or_pos (count id) with hNone | hSome
  · rw [hNone]
    exact .refl stage
  · obtain ⟨found, hFound, hOpen⟩ := barriers_of_mem_readyStages (hReady id hSome)
    rw [hStage] at hFound
    cases hFound
    exact (begun_iterate (count id) stage).opens hOpen

/-- Every call of the manager starts a first bundle only where nothing is awaited. -/
theorem opens_step {action : ManagerAction} (h : manager.step action = some after) :
    Touches Opens manager after := by
  cases hRecords : action.records with
  | true =>
      obtain ⟨f, hRewrites, hTouched⟩ := records_of_step hRecords h
      exact ⟨f, hRewrites, fun id stage => (hTouched id stage).1.opens⟩
  | false =>
      cases action with
      | startBundle started =>
          simp only [step] at h
          split at h
          next hReady =>
            obtain ⟨_, _, _, hRewrites⟩ := startBundle_ok (toOption_eq_some h)
            refine opens_started (fun id => if id = started then 1 else 0) ?_ ?_
            · intro id hStarted
              split at hStarted
              next hId => rwa [hId]
              · cases hStarted
            · refine hRewrites.congr fun id stage _ => ?_
              split <;> rfl
          · cases h
      | completeBundle producer outputMin inputCount =>
          simp only [step] at h
          have hOk := toOption_eq_some h
          cases hComplete : manager.completeBundleWithMinAndInput producer outputMin inputCount with
          | error message =>
              rw [hComplete] at hOk
              cases hOk
          | ok result =>
              rw [hComplete] at hOk
              cases hOk
              obtain ⟨stage, hStage, hFlight, hRewrites⟩ := completeBundle_ok hComplete
              exact opens_completion hStage hFlight hRewrites
      | releaseEmptyInputHolds =>
          cases h
          have hReleased : Touches Opens manager
              (manager.mapStages fun _ stage => stage.releaseEmpty) :=
            ⟨_, manager.rewrites_mapStages _, fun _ _ =>
              ⟨Finset.Subset.refl _, Finset.filter_subset _ _, Or.inl⟩⟩
          unfold releaseEmptyInputHolds
          dsimp only
          split
          · exact Touches.trans Opens.trans hReleased (opens_refresh _)
          · exact hReleased
      | refresh =>
          cases h
          exact manager.opens_refresh
      | enqueueBundles _ _ | markRerun _ | addHold _ _ | releaseHold _ _ | setEventTimeHolds _
      | setResidualHolds _ | reportSourcePartitionWatermark _ _ _ | setSourcePartitionIdle _ _ _
      | reportSourceFinished _ => cases hRecords

/-- Completing a bundle starts none. -/
theorem opens_markComplete (manager : WatermarkManager) (producer : StageId)
    (outputMin : Option Timestamp) (inputCount : Option Nat) :
    Touches Opens manager (manager.markCompleteWithMinAndInput producer outputMin inputCount) := by
  obtain ⟨reported, completed, hReported, hEq, hCompleted⟩ :=
    manager.markComplete_spec producer outputMin inputCount
  rw [hEq]
  refine Touches.trans Opens.trans
    (hReported.mono fun _ _ hRearmed => hRearmed.1.opens) ?_
  refine Touches.trans Opens.trans ?_ completed.opens_refresh
  rcases hCompleted with ⟨rfl, _⟩ | ⟨stage, _, _, hStage, hFlight, hRewrites⟩
  · exact Touches.refl Opens.refl _
  · exact opens_completion hStage hFlight hRewrites

end WatermarkManager

namespace NodeScheduler

open WatermarkManager

variable {scheduler after : NodeScheduler}

/-- Every call of the scheduler starts a first bundle only where nothing is awaited. -/
theorem opens_act {action : SchedulerAction} (h : scheduler.act action = some after) :
    Touches Opens scheduler.watermarks after.watermarks := by
  cases action with
  | nextNodes =>
      cases h
      obtain ⟨hHanded, hRewrites, _⟩ := scheduler.nextNodes_spec
      refine Touches.trans Opens.trans scheduler.watermarks.opens_refresh
        (opens_started _ (fun id hStarted => ?_) hRewrites)
      exact (hHanded id (List.count_pos_iff.mp hStarted)).1
  | markComplete stage outputMin inputCount =>
      cases h
      exact scheduler.watermarks.opens_markComplete stage outputMin inputCount
  | manage action =>
      obtain ⟨watermarks, hStep, rfl⟩ := Option.map_eq_some_iff.mp h
      exact opens_step hStep

end NodeScheduler

/-! What a stage that has run is started for. -/

/-- What justifies a further bundle of a stage that has run. -/
structure StageDemand where
  wiring : Wiring
  pending : Finset PCollectionId
  queued : Nat
  inFlight : Nat
  completed : Bool
  rerunPending : Bool

def StageState.demand (stage : StageState) : StageDemand where
  wiring := stage.wiring
  pending := stage.pending
  queued := stage.queued
  inFlight := stage.inFlight
  completed := stage.completed
  rerunPending := stage.rerunPending

namespace WatermarkManager

variable {manager after : WatermarkManager} {id : StageId}

def demandOf (manager : WatermarkManager) (id : StageId) : Option StageDemand :=
  (manager.stages.lookup id).map StageState.demand

/-- Whether an operation is a further reason to start a stage, or completes one
of its bundles or of its producers'. -/
def disturbs (manager : WatermarkManager) (id : StageId) : ManagerAction → Bool
  | .startBundle stage | .enqueueBundles stage _ | .markRerun stage => stage == id
  | .completeBundle stage _ _ => stage == id || InputRun.writesTo manager stage id
  | _ => false

theorem demandOf_eq {demand : StageDemand} (h : manager.demandOf id = some demand) :
    ∃ stage, manager.stages.lookup id = some stage ∧ stage.demand = demand :=
  Option.map_eq_some_iff.mp h

/-- A rewrite that keeps a stage's demand keeps it in the manager. -/
theorem demandOf_of_rewrites {f : StageId → StageState → StageState}
    (h : Rewrites f manager after)
    (hDemand : ∀ stage, manager.stages.lookup id = some stage →
      (f id stage).demand = stage.demand) :
    after.demandOf id = manager.demandOf id := by
  unfold demandOf
  rw [h.lookup, Option.map_map]
  cases hStage : manager.stages.lookup id with
  | none => rfl
  | some stage => exact congrArg some (hDemand stage hStage)

/-- A refresh demands nothing new. -/
theorem demandOf_refresh (manager : WatermarkManager) (id : StageId) :
    manager.refresh.demandOf id = manager.demandOf id := by
  obtain ⟨input, output, hRefresh, _⟩ := manager.rewrites_refresh
  exact demandOf_of_rewrites hRefresh fun _ _ => rfl

theorem demand_of_retouched {stage touched : StageState} (h : Retouched stage touched)
    (hQueued : touched.queued = stage.queued)
    (hRerun : touched.rerunPending = stage.rerunPending) : touched.demand = stage.demand := by
  have hSame := h.sameInput
  simp only [StageState.demand, hSame.wiring, hSame.pending, hSame.inFlight, hSame.completed,
    hQueued, hRerun]

/-- The completion of another stage that writes none of the stage's inputs. -/
theorem demandOf_completion {producer : StageId} {outputs : List PCollectionId} {isEmpty : Bool}
    {outputMin : Option Timestamp} (hOther : producer ≠ id)
    (hReads : ∀ output ∈ outputs, id ∉ manager.consumersOf output)
    (h : Rewrites (manager.completion producer outputs isEmpty outputMin) manager after) :
    after.demandOf id = manager.demandOf id := by
  refine demandOf_of_rewrites h fun stage _ => ?_
  have hPending := manager.pending_foldl_deliver_eq isEmpty outputMin id hReads stage
  have hReceived := manager.received_foldl_deliver isEmpty outputMin id outputs stage
  unfold completion
  rw [if_neg (Ne.symm hOther)]
  generalize outputs.foldl (manager.deliver isEmpty outputMin id) stage = delivered
    at hPending hReceived
  rw [StageState.demand, StageState.demand, hReceived.wiring, hPending, hReceived.same]

/-- A stage that writes none of another's main inputs delivers nothing to it. -/
theorem notMem_consumersOf_of_writesTo {specs : List StageSpec} (hShape : Shape specs manager)
    {producer : StageId} (hWrites : InputRun.writesTo manager producer id = false)
    {writer : StageState} (hWriter : manager.stages.lookup producer = some writer)
    {output : PCollectionId} (hOutput : output ∈ writer.outputs) :
    id ∉ manager.consumersOf output := by
  intro hReads
  obtain ⟨spec, hSpec, rfl, hInput⟩ := (hShape.consumers id output).mp hReads
  obtain ⟨reader, hReader, hWiring⟩ := hShape.registered spec hSpec
  have hInputs : reader.mainInputs = spec.mainInputs := congrArg Wiring.mainInputs hWiring
  have hTrue := InputRun.writesTo_iff.mpr
    ⟨writer, reader, hWriter, hReader, output, hOutput, by rwa [hInputs]⟩
  rw [hWrites] at hTrue
  cases hTrue

/-- A bundle that writes nothing to a stage leaves that stage's demand. -/
theorem demandOf_markComplete {specs : List StageSpec} (hShape : Shape specs manager)
    {producer : StageId} (hOther : producer ≠ id)
    (hWrites : InputRun.writesTo manager producer id = false)
    (outputMin : Option Timestamp) (inputCount : Option Nat) :
    (manager.markCompleteWithMinAndInput producer outputMin inputCount).demandOf id =
      manager.demandOf id := by
  have hReported : ∀ reported, reported = (if manager.isSource producer &&
        manager.sourceAutoFinishes producer then
      (manager.reportSourceFinished producer).toOption.getD manager else manager) →
      ∃ f, Rewrites f manager reported ∧ (∀ stage, (f id stage).demand = stage.demand) ∧
        ∀ stage, (f producer stage).outputs = stage.outputs := by
    intro reported hEq
    subst hEq
    split
    · refine ⟨_, rewrites_orKeep_withSource manager producer _, fun stage => ?_, fun stage => ?_⟩
      · rw [if_neg (Ne.symm hOther)]
      · rw [if_pos rfl]
    · exact ⟨_, Rewrites.refl manager, fun _ => rfl, fun _ => rfl⟩
  unfold markCompleteWithMinAndInput
  dsimp only
  rw [demandOf_refresh]
  obtain ⟨f, hRewrites, hDemand, hOutputs⟩ := hReported _ rfl
  generalize (if manager.isSource producer && manager.sourceAutoFinishes producer then
    (manager.reportSourceFinished producer).toOption.getD manager else manager) = reported
    at hRewrites ⊢
  have hKept := demandOf_of_rewrites hRewrites fun stage _ => hDemand stage
  cases hComplete : reported.completeBundleWithMinAndInput producer outputMin inputCount with
  | error message => exact hKept
  | ok result =>
      obtain ⟨stage, hStage, _, hCompleted⟩ := completeBundle_ok hComplete
      refine (demandOf_completion hOther (fun output hOutput => ?_) hCompleted).trans hKept
      obtain ⟨writer, hWriter, rfl⟩ := hRewrites.exists_before hStage
      rw [hOutputs] at hOutput
      rw [hRewrites.consumersOf]
      exact notMem_consumersOf_of_writesTo hShape hWrites hWriter hOutput

/-- An operation that does not disturb a stage keeps its demand. -/
theorem demandOf_step {specs : List StageSpec} (hShape : Shape specs manager)
    {action : ManagerAction} (hQuiet : manager.disturbs id action = false)
    (h : manager.step action = some after) : after.demandOf id = manager.demandOf id := by
  cases hRecords : action.records with
  | true =>
      obtain ⟨f, hRewrites, hTouched⟩ := records_of_step hRecords h
      refine demandOf_of_rewrites hRewrites fun stage _ => ?_
      have hArmed : action.armed ≠ some id := by
        intro hArmed
        cases action <;> cases hArmed <;> simp [disturbs] at hQuiet
      obtain ⟨hQueued, hRerun⟩ := (hTouched id stage).2 hArmed
      exact demand_of_retouched (hTouched id stage).1 hQueued hRerun
  | false =>
      cases action with
      | startBundle started =>
          simp only [step] at h
          split at h
          · obtain ⟨_, _, _, hRewrites⟩ := startBundle_ok (toOption_eq_some h)
            have hOther : started ≠ id := by simpa [disturbs] using hQuiet
            refine demandOf_of_rewrites hRewrites fun stage _ => ?_
            rw [if_neg (Ne.symm hOther)]
          · cases h
      | completeBundle producer outputMin inputCount =>
          have hOther : producer ≠ id ∧
              InputRun.writesTo manager producer id = false := by
            simpa [disturbs] using hQuiet
          simp only [step] at h
          have hOk := toOption_eq_some h
          cases hComplete : manager.completeBundleWithMinAndInput producer outputMin inputCount with
          | error message =>
              rw [hComplete] at hOk
              cases hOk
          | ok result =>
              rw [hComplete] at hOk
              cases hOk
              obtain ⟨stage, hStage, _, hRewrites⟩ := completeBundle_ok hComplete
              exact demandOf_completion hOther.1 (fun output hOutput =>
                notMem_consumersOf_of_writesTo hShape hOther.2 hStage hOutput) hRewrites
      | releaseEmptyInputHolds =>
          cases h
          have hReleased : (manager.mapStages fun _ stage => stage.releaseEmpty).demandOf id =
              manager.demandOf id :=
            demandOf_of_rewrites (manager.rewrites_mapStages _) fun _ _ => rfl
          unfold releaseEmptyInputHolds
          dsimp only
          split
          · rw [demandOf_refresh, hReleased]
          · exact hReleased
      | refresh =>
          cases h
          exact manager.demandOf_refresh id
      | enqueueBundles _ _ | markRerun _ | addHold _ _ | releaseHold _ _ | setEventTimeHolds _
      | setResidualHolds _ | reportSourcePartitionWatermark _ _ _ | setSourcePartitionIdle _ _ _
      | reportSourceFinished _ => cases hRecords

end WatermarkManager

/-- Calls of the manager keep the pipeline's shape. -/
theorem Shape.effects {specs : List StageSpec} {manager after : WatermarkManager}
    (hShape : Shape specs manager) (hEffects : WatermarkManager.Effects manager after) :
    Shape specs after := by
  induction hEffects with
  | refl => exact hShape
  | tail _ hLast ih =>
      cases hLast with
      | changed hChange => exact ih.change hChange
      | refreshed hEq =>
          subst hEq
          exact ih.refresh

namespace StageDemand

/-- The stage has run, has no work items and is not re-armed. -/
structure Plain (demand : StageDemand) : Prop where
  completed : demand.completed = true
  queued : demand.queued = 0
  rerunPending : demand.rerunPending = false

/-- How many bundles may start before a producer, or a bundle of the stage,
completes. -/
def allowance (demand : StageDemand) : Nat :=
  if demand.wiring.kind = .watermarkGated then demand.wiring.maxInFlight - demand.inFlight
  else if demand.pending = ∅ then 0
  else if demand.inFlight = 0 then 1
  else demand.wiring.maxInFlight - demand.inFlight

/-- What a started bundle leaves. The first of a wave takes the pending input. -/
def afterStart (demand : StageDemand) : StageDemand :=
  { demand with
    pending := if demand.inFlight = 0 then ∅ else demand.pending
    inFlight := demand.inFlight + 1 }

variable {demand : StageDemand}

/-- A plain demand stays plain when the stage starts. -/
theorem Plain.afterStart (h : demand.Plain) : demand.afterStart.Plain :=
  ⟨h.completed, h.queued, h.rerunPending⟩

/-- A started bundle uses up some of the allowance. -/
theorem allowance_afterStart (hRoom : demand.inFlight < demand.wiring.maxInFlight)
    (hPending : demand.wiring.kind ≠ .watermarkGated → demand.pending ≠ ∅) :
    1 + demand.afterStart.allowance ≤ demand.allowance := by
  unfold allowance StageDemand.afterStart
  dsimp only
  by_cases hKind : demand.wiring.kind = .watermarkGated
  · rw [if_pos hKind, if_pos hKind]
    omega
  · rw [if_neg hKind, if_neg hKind, if_neg (hPending hKind)]
    by_cases hIdle : demand.inFlight = 0
    · simp [hIdle]
    · simp only [if_neg hIdle, if_neg (hPending hKind)]
      rw [if_neg (Nat.succ_ne_zero _)]
      omega

end StageDemand

theorem StageState.demand_started {stage : StageState} (h : stage.demand.Plain) :
    stage.started.demand = stage.demand.afterStart := by
  have hQueued : stage.queued = 0 := h.queued
  have hRerun : stage.rerunPending = false := h.rerunPending
  unfold StageDemand.afterStart StageState.demand
  dsimp only
  rw [wiring_started, stage.inFlight_started, stage.queued_started, hQueued, hRerun]
  unfold started
  split <;> rfl

namespace NodeScheduler

open WatermarkManager

variable {graph : ExecutableGraph} {splittableConcurrency : Nat}
  {scheduler after : NodeScheduler} {id : StageId}

/-- Whether an action disturbs a stage: anything but a poll may. -/
def disturbs (scheduler : NodeScheduler) (id : StageId) : SchedulerAction → Bool
  | .nextNodes => false
  | .markComplete stage _ _ => stage == id || InputRun.writesTo scheduler.watermarks stage id
  | .manage action => scheduler.watermarks.disturbs id action

/-- The bundles of a stage an action hands out. -/
def handedOut (scheduler : NodeScheduler) (id : StageId) : SchedulerAction → Nat
  | .nextNodes => scheduler.nextNodes.2.count id
  | .markComplete _ _ _ | .manage _ => 0

/-- The bundles of a stage that are started while nothing disturbs it. -/
def startsBetween (id : StageId) : NodeScheduler → List SchedulerAction → Option Nat
  | _, [] => some 0
  | scheduler, action :: rest =>
      if scheduler.disturbs id action then none
      else (scheduler.act action).bind fun next =>
        (startsBetween id next rest).map (scheduler.handedOut id action + ·)

/-- A scheduler of a graph, in which stages that have run await nothing. -/
structure Driven (graph : ExecutableGraph) (splittableConcurrency : Nat)
    (scheduler : NodeScheduler) : Prop where
  shape : Shape (graph.specs splittableConcurrency) scheduler.watermarks
  nodes : scheduler.nodes = (new graph splittableConcurrency).nodes
  opened : ∀ id stage, scheduler.watermarks.stages.lookup id = some stage →
    stage.HasRun → stage.Unbarred

theorem nodes_act {action : SchedulerAction} (h : scheduler.act action = some after) :
    after.nodes = scheduler.nodes := by
  cases action with
  | nextNodes | markComplete _ _ _ =>
      cases h
      rfl
  | manage action =>
      obtain ⟨watermarks, _, rfl⟩ := Option.map_eq_some_iff.mp h
      rfl

namespace Driven

/-- A call of the scheduler leaves it driven by the same graph. -/
theorem act (h : Driven graph splittableConcurrency scheduler) {action : SchedulerAction}
    (hAct : scheduler.act action = some after) : Driven graph splittableConcurrency after where
  shape := h.shape.effects (effects_act hAct)
  nodes := (nodes_act hAct).trans h.nodes
  opened id stage hStage hRun := by
    obtain ⟨old, hOld, hOpens⟩ := (opens_act hAct).exists_before hStage
    rcases hOpens.first hRun with hOldRun | hOpen
    · exact hOpens.unbarred (h.opened id old hOld hOldRun)
    · exact hOpen

variable (graph splittableConcurrency) in
/-- A new scheduler is driven by its graph. -/
theorem new : Driven graph splittableConcurrency
    (NodeScheduler.new graph splittableConcurrency) where
  shape := shape_build (ExecutableGraph.distinct_specs splittableConcurrency)
  nodes := rfl
  opened id stage hStage hRun := by
    obtain ⟨spec, _, _, rfl⟩ := lookup_build (graph.specs splittableConcurrency) hStage
    rcases hRun with hCompleted | hFlight
    · cases hCompleted
    · exact absurd hFlight (Nat.lt_irrefl 0)

/-- So is every scheduler reached from it. -/
theorem run (h : Driven graph splittableConcurrency scheduler) {actions : List SchedulerAction}
    (hRun : scheduler.run actions = some after) : Driven graph splittableConcurrency after := by
  induction actions generalizing scheduler with
  | nil =>
      cases hRun
      exact h
  | cons action actions ih =>
      rw [NodeScheduler.run, List.foldlM_cons] at hRun
      obtain ⟨next, hNext, hRest⟩ := Option.bind_eq_some_iff.mp hRun
      exact ih (h.act hNext) hRest

/-- The node a stage runs. -/
theorem node (h : Driven graph splittableConcurrency scheduler) {stage : StageState}
    (hStage : scheduler.watermarks.stages.lookup id = some stage) :
    ∃ index node, graph.nodes[index]? = some node ∧ node.id = id ∧
      stage.wiring = (graph.spec splittableConcurrency index node).wiring ∧
      (scheduler.nodes.lookup id).isSome = true := by
  obtain ⟨spec, hSpec, hId, hWiring⟩ := h.shape.lookup id stage hStage
  obtain ⟨index, node, hNode, rfl⟩ := ExecutableGraph.mem_specs.mp hSpec
  refine ⟨index, node, hNode, hId, hWiring, ?_⟩
  have hNodes : scheduler.nodes =
      ofPairs (graph.nodes.map fun node => (node.id, node.kind)) := by
    rw [h.nodes, ofPairs, List.foldl_map]
    rfl
  have hDistinct : ((graph.nodes.map fun node => (node.id, node.kind)).map Prod.fst).Nodup := by
    rw [List.map_map]
    exact graph.distinct
  have hFound : (ofPairs (graph.nodes.map fun node => (node.id, node.kind))).lookup node.id =
      some node.kind :=
    lookup_ofPairs hDistinct (List.mem_map_of_mem (List.mem_of_getElem? hNode))
  have hSame : node.id = id := hId
  rw [hNodes, ← hSame, hFound]
  rfl

/-- Only a splittable node takes more than one slot, and it is ordinary. -/
theorem ordinary_or_single (h : Driven graph splittableConcurrency scheduler) {stage : StageState}
    (hStage : scheduler.watermarks.stages.lookup id = some stage) :
    stage.kind = .ordinary ∨ stage.maxInFlight = 1 := by
  obtain ⟨index, node, _, _, hWiring, _⟩ := h.node hStage
  injection hWiring with _ _ _ _ hKind _ hMax
  cases node with
  | worker _ _ _ _ _ | runner _ _ _ _ => exact Or.inr hMax
  | splittable _ _ _ _ => exact Or.inl hKind

/-- Every ready stage is started, as often as its work items and its room
allow. -/
theorem count_nextNodes_of_ready (h : Driven graph splittableConcurrency scheduler)
    (hReady : id ∈ scheduler.watermarks.refresh.readyStages) {stage : StageState}
    (hStage : scheduler.watermarks.refresh.stages.lookup id = some stage) :
    stage.inFlight < stage.maxInFlight ∧ stage.hasWork = true ∧
      scheduler.nextNodes.2.count id =
        min (stage.maxInFlight - stage.inFlight) (max 1 stage.queued) := by
  have hMayRun := ExecutableGraph.mem_readyStages.mp hReady
  rw [stageIsReady, hStage] at hMayRun
  have hMayRun : stage.isReadyWithoutUpstreamBarrier = true := by
    by_contra hBlocked
    simp [Bool.eq_false_iff.mpr hBlocked] at hMayRun
  have hStart : stage.startError id = none := startError_of_ready hMayRun
  obtain ⟨old, hOld, _⟩ := (sameInput_refresh scheduler.watermarks).exists_before hStage
  obtain ⟨_, _, _, _, _, hNode⟩ := h.node hOld
  refine ⟨room_of_startError hStart, ?_, scheduler.count_nextNodes hReady hNode hStage hStart⟩
  by_contra hIdle
  simp [isReadyWithoutUpstreamBarrier, Bool.eq_false_iff.mpr hIdle] at hMayRun

/-- A poll starts at most one bundle of a stage without work items, and only over
pending input or an advanced gate. -/
theorem nextNodes_plain (h : Driven graph splittableConcurrency scheduler)
    {demand : StageDemand} (hPlain : demand.Plain)
    (hDemand : scheduler.watermarks.demandOf id = some demand) :
    scheduler.nextNodes.2.count id = 0 ∧
        scheduler.nextNodes.1.watermarks.demandOf id = some demand ∨
      scheduler.nextNodes.2.count id = 1 ∧
        (demand.wiring.kind ≠ .watermarkGated → demand.pending ≠ ∅) ∧
        demand.inFlight < demand.wiring.maxInFlight ∧
        scheduler.nextNodes.1.watermarks.demandOf id = some demand.afterStart := by
  rw [← demandOf_refresh] at hDemand
  obtain ⟨stage, hStage, rfl⟩ := demandOf_eq hDemand
  obtain ⟨hHanded, hRewrites, _⟩ := scheduler.nextNodes_spec
  have hAfter := hRewrites.lookup_of_before hStage
  rcases Nat.eq_zero_or_pos (scheduler.nextNodes.2.count id) with hNone | hSome
  · refine Or.inl ⟨hNone, ?_⟩
    rw [demandOf, hAfter, hNone]
    rfl
  · obtain ⟨hReady, _⟩ := hHanded id (List.count_pos_iff.mp hSome)
    obtain ⟨hRoom, hWork, hCount⟩ := h.count_nextNodes_of_ready hReady hStage
    have hCompleted : stage.completed = true := hPlain.completed
    have hQueued : stage.queued = 0 := hPlain.queued
    have hRerun : stage.rerunPending = false := hPlain.rerunPending
    have hOne : scheduler.nextNodes.2.count id = 1 := by
      rw [hCount, hQueued]
      omega
    refine Or.inr ⟨hOne, fun hKind hPending => ?_, hRoom, ?_⟩
    · have hNone : stage.pending = ∅ := hPending
      have hOther : stage.kind ≠ .watermarkGated := hKind
      simp [hasWork, hCompleted, hQueued, hRerun, hNone, hOther] at hWork
    · rw [demandOf, hAfter, hOne]
      exact congrArg some (demand_started hPlain)

/-- A poll starts a bundle of an ordinary stage that has run, has pending input
and has room. -/
theorem nextNodes_pending (h : Driven graph splittableConcurrency scheduler)
    {demand : StageDemand} (hPlain : demand.Plain)
    (hDemand : scheduler.watermarks.demandOf id = some demand)
    (hKind : demand.wiring.kind = .ordinary) (hPending : demand.pending ≠ ∅)
    (hRoom : demand.inFlight < demand.wiring.maxInFlight) :
    scheduler.nextNodes.2.count id = 1 ∧
      scheduler.nextNodes.1.watermarks.demandOf id = some demand.afterStart := by
  have hRefreshed := hDemand
  rw [← demandOf_refresh] at hRefreshed
  obtain ⟨stage, hStage, rfl⟩ := demandOf_eq hRefreshed
  have hCompleted : stage.completed = true := hPlain.completed
  have hOpen : stage.Unbarred := by
    obtain ⟨old, hOld, hOpens⟩ := (opens_refresh scheduler.watermarks).exists_before hStage
    rcases hOpens.first (Or.inl hCompleted) with hRun | hOpen
    · exact hOpens.unbarred (h.opened id old hOld hRun)
    · exact hOpen
  have hReady : id ∈ scheduler.watermarks.refresh.readyStages := by
    have hOrdinary : stage.kind = .ordinary := hKind
    have hSome : stage.pending ≠ ∅ := hPending
    have hFree : ¬stage.maxInFlight ≤ stage.inFlight := Nat.not_le_of_lt hRoom
    have hWork : stage.hasWork = true := by simp [hasWork, hCompleted, hSome]
    have hMayRun : stage.isReadyWithoutUpstreamBarrier = true := by
      rw [isReadyWithoutUpstreamBarrier, if_neg (by simp [hFree, hOpen.1, hOpen.2]),
        if_neg (by simp [hCompleted]), hWork, hOrdinary]
      rfl
    rw [ExecutableGraph.mem_readyStages, stageIsReady, hStage]
    simp [hMayRun, hOrdinary]
  rcases h.nextNodes_plain hPlain hDemand with ⟨hNone, _⟩ | ⟨hOne, _, _, hAfter⟩
  · obtain ⟨_, _, hCount⟩ := h.count_nextNodes_of_ready hReady hStage
    have hFree : stage.inFlight < stage.maxInFlight := hRoom
    omega
  · exact ⟨hOne, hAfter⟩

/-- One action, against what the stage may still be started for. -/
theorem allowance_act (h : Driven graph splittableConcurrency scheduler)
    {demand : StageDemand} (hPlain : demand.Plain)
    (hDemand : scheduler.watermarks.demandOf id = some demand) {action : SchedulerAction}
    (hQuiet : scheduler.disturbs id action = false) (hAct : scheduler.act action = some after) :
    ∃ left : StageDemand, left.Plain ∧ after.watermarks.demandOf id = some left ∧
      scheduler.handedOut id action + left.allowance ≤ demand.allowance := by
  cases action with
  | nextNodes =>
      cases hAct
      rcases h.nextNodes_plain hPlain hDemand with ⟨hNone, hAfter⟩ | ⟨hOne, hPending, hRoom, hAfter⟩
      · refine ⟨demand, hPlain, hAfter, ?_⟩
        rw [handedOut, hNone, Nat.zero_add]
      · refine ⟨_, hPlain.afterStart, hAfter, ?_⟩
        rw [handedOut, hOne]
        exact StageDemand.allowance_afterStart hRoom hPending
  | markComplete producer outputMin inputCount =>
      cases hAct
      have hOther : producer ≠ id ∧
          InputRun.writesTo scheduler.watermarks producer id = false := by
        simpa [disturbs] using hQuiet
      refine ⟨demand, hPlain, ?_, by rw [handedOut, Nat.zero_add]⟩
      rw [← hDemand]
      exact demandOf_markComplete h.shape hOther.1 hOther.2 outputMin inputCount
  | manage action =>
      obtain ⟨watermarks, hStep, rfl⟩ := Option.map_eq_some_iff.mp hAct
      refine ⟨demand, hPlain, ?_, by rw [handedOut, Nat.zero_add]⟩
      rw [← hDemand]
      exact demandOf_step h.shape hQuiet hStep

/-- Undisturbed, a stage is started within its allowance. -/
theorem startsBetween_le (h : Driven graph splittableConcurrency scheduler)
    {demand : StageDemand} (hPlain : demand.Plain)
    (hDemand : scheduler.watermarks.demandOf id = some demand) {actions : List SchedulerAction}
    {starts : Nat} (hStarts : startsBetween id scheduler actions = some starts) :
    starts ≤ demand.allowance := by
  induction actions generalizing scheduler demand starts with
  | nil =>
      cases hStarts
      exact Nat.zero_le _
  | cons action rest ih =>
      rw [startsBetween] at hStarts
      split at hStarts
      · cases hStarts
      next hQuiet =>
        obtain ⟨next, hAct, hRest⟩ := Option.bind_eq_some_iff.mp hStarts
        obtain ⟨more, hMore, rfl⟩ := Option.map_eq_some_iff.mp hRest
        obtain ⟨left, hLeft, hAfter, hSpent⟩ :=
          h.allowance_act hPlain hDemand (Bool.eq_false_iff.mpr hQuiet) hAct
        have hWithin := ih (h.act hAct) hLeft hAfter hMore
        omega

/-- Beside another bundle, two polls start two bundles over the same pending
input. -/
theorem startsBetween_twice (h : Driven graph splittableConcurrency scheduler)
    {demand : StageDemand} (hPlain : demand.Plain)
    (hDemand : scheduler.watermarks.demandOf id = some demand)
    (hKind : demand.wiring.kind = .ordinary) (hPending : demand.pending ≠ ∅)
    (hBusy : demand.inFlight ≠ 0) (hRoom : demand.inFlight + 1 < demand.wiring.maxInFlight) :
    startsBetween id scheduler [.nextNodes, .nextNodes] = some 2 := by
  obtain ⟨hFirst, hAfter⟩ := h.nextNodes_pending hPlain hDemand hKind hPending
    (Nat.lt_of_succ_lt hRoom)
  have hStill : demand.afterStart.pending ≠ ∅ := by
    rw [StageDemand.afterStart, if_neg hBusy]
    exact hPending
  have hPoll : ∀ polled : NodeScheduler, polled.act .nextNodes = some polled.nextNodes.1 :=
    fun _ => rfl
  have hNext := h.act (hPoll scheduler)
  obtain ⟨hSecond, _⟩ := hNext.nextNodes_pending hPlain.afterStart hAfter hKind hStill hRoom
  simp [startsBetween, disturbs, handedOut, hPoll, hFirst, hSecond]

end Driven

/-- A poll starts every ready stage as often as its work items and its room
allow. A stage that has run, with no work items and no re-arm, is started at
most once between two completions exactly if it has no pending input, no bundle
in flight, or room for one bundle at most. -/
theorem nextNodes_starts (graph : ExecutableGraph) (splittableConcurrency : Nat)
    {actions : List SchedulerAction} {scheduler : NodeScheduler}
    (hRun : (NodeScheduler.new graph splittableConcurrency).run actions = some scheduler) :
    (∀ id ∈ scheduler.watermarks.refresh.readyStages,
      0 < scheduler.nextNodes.2.count id ∧
        scheduler.nextNodes.2.count id =
          min (scheduler.watermarks.maxInFlight id - scheduler.watermarks.inFlightBundles id)
            (max 1 (scheduler.watermarks.queuedBundles id))) ∧
      ∀ id stage, scheduler.watermarks.stages.lookup id = some stage →
        stage.completed = true → stage.queued = 0 → stage.rerunPending = false →
          ((∀ polls starts, startsBetween id scheduler polls = some starts → starts ≤ 1) ↔
            stage.pending = ∅ ∨ stage.inFlight = 0 ∨ stage.maxInFlight ≤ stage.inFlight + 1) := by
  have hDriven := (Driven.new graph splittableConcurrency).run hRun
  constructor
  · intro id hReady
    obtain ⟨stage, hStage, _⟩ := barriers_of_mem_readyStages hReady
    obtain ⟨hRoom, _, hCount⟩ := hDriven.count_nextNodes_of_ready hReady hStage
    have hDemand := scheduler.watermarks.demandOf_refresh id
    rw [demandOf, hStage] at hDemand
    obtain ⟨old, hOld, hSame⟩ := demandOf_eq hDemand.symm
    have hMax : old.maxInFlight = stage.maxInFlight :=
      congrArg (fun demand => demand.wiring.maxInFlight) hSame
    have hFlight : old.inFlight = stage.inFlight := congrArg StageDemand.inFlight hSame
    have hQueued : old.queued = stage.queued := congrArg StageDemand.queued hSame
    rw [hCount, WatermarkManager.maxInFlight, inFlightBundles, queuedBundles, hOld]
    simp only [Option.map_some, Option.getD_some, hMax, hFlight, hQueued, and_true]
    omega
  · intro id stage hStage hCompleted hQueued hRerun
    have hPlain : stage.demand.Plain := ⟨hCompleted, hQueued, hRerun⟩
    have hDemand : scheduler.watermarks.demandOf id = some stage.demand := by
      rw [demandOf, hStage]
      rfl
    have hSlots := hDriven.ordinary_or_single hStage
    constructor
    · intro hOnce
      by_contra hOpen
      rw [not_or, not_or] at hOpen
      obtain ⟨hPending, hBusy, hRoom⟩ := hOpen
      have hKind : stage.kind = .ordinary := hSlots.resolve_right (by omega)
      have hTwice := hDriven.startsBetween_twice hPlain hDemand hKind hPending hBusy
        (Nat.lt_of_not_le hRoom)
      exact absurd (hOnce _ 2 hTwice) (by decide)
    · intro hHolds polls starts hStarts
      refine (hDriven.startsBetween_le hPlain hDemand hStarts).trans ?_
      have hKind : stage.kind = .watermarkGated → stage.maxInFlight = 1 :=
        fun hGated => hSlots.resolve_left (by rw [hGated]; decide)
      show (if stage.kind = .watermarkGated then stage.maxInFlight - stage.inFlight
        else if stage.pending = ∅ then 0
        else if stage.inFlight = 0 then 1
        else stage.maxInFlight - stage.inFlight) ≤ 1
      split
      next hGated =>
        rw [hKind hGated]
        exact Nat.sub_le _ _
      · split
        · exact Nat.zero_le _
        next hPending =>
          split
          · exact le_refl _
          next hBusy =>
            have hRoom := (hHolds.resolve_left hPending).resolve_left hBusy
            omega

/-- A source and a splittable stage that reads from it. -/
def readThenSplit : ExecutableGraph where
  nodes := [.runner "read" false true ["lines"], .splittable "split" true [] ["words"]]
  edges := [⟨0, 1, "lines"⟩]
  pcollectionStrategies := ∅
  windowingStrategies := ∅
  distinct := by decide
  connected := by decide

/-- The splittable stage runs beside a residual of its own, its first bundle
completes, and the source appends again. -/
def residualInFlight : List SchedulerAction :=
  [.nextNodes, .markComplete "read" (some 5) none, .nextNodes,
    .manage (.enqueueBundles "split" 1), .nextNodes, .markComplete "split" (some 5) none,
    .manage (.markRerun "read"), .nextNodes, .markComplete "read" (some 6) none]

/-- Two polls start two bundles over the same rows. -/
theorem not_startsBetween_le_one :
    ¬∀ (graph : ExecutableGraph) (splittableConcurrency : Nat) (actions : List SchedulerAction)
      (scheduler : NodeScheduler),
      (NodeScheduler.new graph splittableConcurrency).run actions = some scheduler →
      ∀ id stage, scheduler.watermarks.stages.lookup id = some stage →
        stage.completed = true → stage.queued = 0 → stage.rerunPending = false →
        ∀ polls starts, startsBetween id scheduler polls = some starts → starts ≤ 1 := by
  intro hClaim
  have hRun : ((NodeScheduler.new readThenSplit 4).run residualInFlight).isSome = true := by
    decide +kernel
  obtain ⟨scheduler, hScheduler⟩ := Option.isSome_iff_exists.mp hRun
  have hTwice : (((NodeScheduler.new readThenSplit 4).run residualInFlight).bind fun scheduler =>
      startsBetween "split" scheduler [.nextNodes, .nextNodes]) = some 2 := by decide +kernel
  have hPlain : (((NodeScheduler.new readThenSplit 4).run residualInFlight).bind fun scheduler =>
      (scheduler.watermarks.stages.lookup "split").map fun stage =>
        (stage.completed, stage.queued, stage.rerunPending)) = some (true, 0, false) := by
    decide +kernel
  rw [hScheduler, Option.bind_some] at hTwice hPlain
  obtain ⟨stage, hStage, hFields⟩ := Option.map_eq_some_iff.mp hPlain
  obtain ⟨hCompleted, hRest⟩ := Prod.mk.inj hFields
  obtain ⟨hQueued, hRerun⟩ := Prod.mk.inj hRest
  exact absurd (hClaim readThenSplit 4 residualInFlight scheduler hScheduler "split" stage hStage
    hCompleted hQueued hRerun _ 2 hTwice) (by decide)

/-- The run in which two bundles start: what a poll starts of each ready stage, and
that the splittable stage is started twice without a completion in between. -/
theorem nextNodes_starts_residualInFlight :
    ∃ scheduler, (NodeScheduler.new readThenSplit 4).run residualInFlight = some scheduler ∧
      "split" ∈ scheduler.watermarks.refresh.readyStages ∧
      (∀ id ∈ scheduler.watermarks.refresh.readyStages, 0 < scheduler.nextNodes.2.count id ∧
        scheduler.nextNodes.2.count id =
          min (scheduler.watermarks.maxInFlight id - scheduler.watermarks.inFlightBundles id)
            (max 1 (scheduler.watermarks.queuedBundles id))) ∧
      ¬∀ polls starts, startsBetween "split" scheduler polls = some starts → starts ≤ 1 := by
  have hRun : ((NodeScheduler.new readThenSplit 4).run residualInFlight).isSome = true := by
    decide +kernel
  obtain ⟨scheduler, hScheduler⟩ := Option.isSome_iff_exists.mp hRun
  have hState : (((NodeScheduler.new readThenSplit 4).run residualInFlight).bind fun scheduler =>
      (scheduler.watermarks.stages.lookup "split").map fun stage =>
        ((stage.completed, stage.queued, stage.rerunPending), (decide (stage.pending = ∅),
          stage.inFlight, stage.maxInFlight))) = some ((true, 0, false), (false, 1, 4)) := by
    decide +kernel
  have hReady : ((NodeScheduler.new readThenSplit 4).run residualInFlight).map (fun scheduler =>
      decide ("split" ∈ scheduler.watermarks.refresh.readyStages)) = some true := by
    decide +kernel
  rw [hScheduler, Option.bind_some] at hState
  rw [hScheduler, Option.map_some, Option.some.injEq, decide_eq_true_eq] at hReady
  obtain ⟨stage, hStage, hFields⟩ := Option.map_eq_some_iff.mp hState
  simp only [Prod.mk.injEq] at hFields
  obtain ⟨⟨hCompleted, hQueued, hRerun⟩, hPending, hFlight, hRoom⟩ := hFields
  obtain ⟨hCounts, hStarts⟩ := nextNodes_starts readThenSplit 4 hScheduler
  refine ⟨scheduler, hScheduler, hReady, hCounts, fun hOnce => ?_⟩
  rcases (hStarts "split" stage hStage hCompleted hQueued hRerun).mp hOnce with hNone | hIdle | hFull
  · exact of_decide_eq_false hPending hNone
  · omega
  · omega

end NodeScheduler

end FlareDB
