import FlareDB.Engine.Watermark.Ceilings
import FlareDB.Engine.Watermark.Graph

/-! A running bundle as a hold on the output watermark. The first run of a stage
is held by the bundle itself. A re-run is not: `compute_output` applies the
implicit hold only while the stage has never completed, so a re-run is held only
by what else clamps the stage. -/
namespace FlareDB

open KeyedStore

namespace StageState

/-- Something keeps the output watermark of the running bundle at or below the
watermark its wave started with: it is the first run, that watermark is already
the largest, an input is empty, or a hold or unconsumed input clamps it. -/
def RunHeld (stage : StageState) : Prop :=
  stage.completed = false ∨ maxTimestamp ≤ stage.watermarkAtLastRun ∨ stage.pendingEmpty ≠ ∅ ∨
    (∃ hold, stage.minHold = some hold ∧ hold ≤ stage.watermarkAtLastRun) ∨
    (stage.source = none ∧ stage.pendingMin ≤ stage.watermarkAtLastRun)

end StageState

namespace WatermarkManager

/-- Every bundle in flight is held, or reads from a stage that stays at or below
the watermark its wave started with. -/
def RunsHeld (manager : WatermarkManager) : Prop :=
  ∀ id stage, manager.stages.lookup id = some stage → 0 < stage.inFlight →
    stage.RunHeld ∨ manager.keepsMainInputBefore (stage.watermarkAtLastRun + 1) stage = true

/-- A stage that reads from one which stays before a time is raised no further. -/
theorem output_refresh_le_of_mainInput {manager : WatermarkManager} {id : StageId}
    {stage : StageState} (hStage : manager.stages.lookup id = some stage) {time : Timestamp}
    (hKept : manager.keepsMainInputBefore (time + 1) stage = true) :
    ∃ input output, manager.refresh.stages.lookup id = some (stage.withWatermarks input output) ∧
      stage.output ≤ output ∧ output ≤ max stage.output time := by
  obtain ⟨hNone, hProducer⟩ := Bool.and_eq_true_iff.mp hKept
  refine output_refresh_le_within (P := Kept id (time + 1) manager)
    (fun _ _ _ hMoved hCurrent => hCurrent.advanceStage hMoved) (.refl manager) hStage
    fun current input output hCurrent _ => ?_
  have hReads : (stage.withWatermarks input output).mainInputs = stage.mainInputs := rfl
  exact Int.lt_add_one_iff.mp (hCurrent.computeOutput_lt_of_mainInput hReads
    (Option.isNone_iff_eq_none.mp hNone) hProducer)

/-- While a held bundle runs, a refresh does not raise the output watermark past
the watermark the wave started with. -/
theorem output_refresh_le_watermarkAtLastRun {manager : WatermarkManager} {id : StageId}
    {stage : StageState} (hStage : manager.stages.lookup id = some stage)
    (hFlight : 0 < stage.inFlight)
    (hHeld : stage.RunHeld ∨
      manager.keepsMainInputBefore (stage.watermarkAtLastRun + 1) stage = true)
    (hFloor : minTimestamp ≤ stage.output) :
    ∃ input output, manager.refresh.stages.lookup id = some (stage.withWatermarks input output) ∧
      stage.output ≤ output ∧ output ≤ max stage.output stage.watermarkAtLastRun := by
  have hBounds := fun (current : WatermarkManager) input output =>
    (current.le_computeOutput_iff (stage.withWatermarks input output) _).mp (le_refl _)
  rcases hHeld with (hFirst | hMax | hEmpty | ⟨hold, hHold, hLe⟩ | ⟨hSource, hPending⟩) | hProducer
  · exact output_refresh_le hStage fun current input output =>
      (hBounds current input output).2.1 hFirst (Or.inl hFlight)
  · exact output_refresh_le hStage fun current input output =>
      (current.computeOutput_le _).trans hMax
  · obtain ⟨input, output, hAfter, hRaised, hBelow⟩ :=
      output_refresh_le hStage fun current input output =>
        (hBounds current input output).2.2.1 hEmpty
    refine ⟨input, output, hAfter, hRaised, hBelow.trans ?_⟩
    rw [max_eq_left hFloor]
    exact le_max_left _ _
  · exact output_refresh_le hStage fun current input output =>
      ((hBounds current input output).2.2.2 hold hHold).trans hLe
  · refine output_refresh_le hStage fun current input output => ?_
    have hProduced := (hBounds current input output).1
    rw [producedWatermark, show (stage.withWatermarks input output).source = none from hSource]
      at hProduced
    exact hProduced.trans ((min_le_right _ _).trans hPending)
  · exact output_refresh_le_of_mainInput hStage hProducer

/-- From one manager to the next, no output watermark falls, and the running
stages keep the watermark of their wave and are raised no further than it. -/
def KeepsWaves (before after : WatermarkManager) : Prop :=
  ∀ id stage, after.stages.lookup id = some stage →
    ∃ old, before.stages.lookup id = some old ∧ old.output ≤ stage.output ∧
      (0 < old.inFlight → stage.watermarkAtLastRun = old.watermarkAtLastRun ∧
        stage.output ≤ max old.output old.watermarkAtLastRun)

theorem keepsWaves_of_rewrites {f : StageId → StageState → StageState}
    {before after : WatermarkManager} (h : Rewrites f before after)
    (hSame : ∀ id stage, (f id stage).output = stage.output ∧
      (0 < stage.inFlight → (f id stage).watermarkAtLastRun = stage.watermarkAtLastRun)) :
    KeepsWaves before after := by
  intro id stage hStage
  obtain ⟨old, hOld, rfl⟩ := h.exists_before hStage
  obtain ⟨hOutput, hWave⟩ := hSame id old
  refine ⟨old, hOld, hOutput.ge, fun hFlight => ⟨hWave hFlight, ?_⟩⟩
  rw [hOutput]
  exact le_max_left _ _

theorem Change.keepsWaves {before after : WatermarkManager} (h : Change before after) :
    KeepsWaves before after := by
  cases h with
  | retouched f hRewrites hTouched =>
      refine keepsWaves_of_rewrites hRewrites fun id stage => ?_
      rw [(hTouched id stage).same]
      exact ⟨rfl, fun _ => rfl⟩
  | started id stage _ _ hRewrites =>
      refine keepsWaves_of_rewrites hRewrites fun other current => ?_
      unfold StageState.started
      split
      · split
        next hIdle => exact ⟨rfl, fun hFlight => absurd hIdle (Nat.pos_iff_ne_zero.mp hFlight)⟩
        · exact ⟨rfl, fun _ => rfl⟩
      · exact ⟨rfl, fun _ => rfl⟩
  | completed id stage isEmpty outputMin _ _ hRewrites =>
      refine keepsWaves_of_rewrites hRewrites fun other current => ?_
      rw [(before.received_completion id stage.outputs isEmpty outputMin other current).same]
      split <;> exact ⟨rfl, fun _ => rfl⟩
  | released hRewrites => exact keepsWaves_of_rewrites hRewrites fun _ _ => ⟨rfl, fun _ => rfl⟩

theorem keepsWaves_refresh {manager : WatermarkManager} (hHeld : manager.RunsHeld)
    (hFloor : ∀ id stage, manager.stages.lookup id = some stage → minTimestamp ≤ stage.output) :
    KeepsWaves manager manager.refresh := by
  intro id stage hStage
  obtain ⟨input, output, hRefresh, hRaised⟩ := manager.rewrites_refresh
  obtain ⟨old, hOld, rfl⟩ := hRefresh.exists_before hStage
  refine ⟨old, hOld, (hRaised id old hOld).2, fun hFlight => ⟨rfl, ?_⟩⟩
  obtain ⟨_, _, hAfter, _, hBelow⟩ := output_refresh_le_watermarkAtLastRun hOld hFlight
    (hHeld id old hOld hFlight) (hFloor id old hOld)
  rw [hStage] at hAfter
  have hOutput := congrArg StageState.output (Option.some.inj hAfter)
  exact hOutput.trans_le hBelow

end WatermarkManager

/-- A manager with the output watermark each stage had when its current wave of
bundles started. -/
structure Observed where
  manager : WatermarkManager
  startedAt : StageId → Timestamp

namespace Observed

open WatermarkManager

/-- The number of bundles of a stage that are running. -/
def inFlight (manager : WatermarkManager) (id : StageId) : Nat :=
  ((manager.stages.lookup id).map StageState.inFlight).getD 0

def output (manager : WatermarkManager) (id : StageId) : Timestamp :=
  ((manager.stages.lookup id).map StageState.output).getD minTimestamp

def start (specs : List StageSpec) : Observed where
  manager := build specs
  startedAt := output (build specs)

/-- A protocol step; the record of a stage is fixed while one of its bundles
runs. -/
def step (observed : Observed) (action : ManagerAction) : Option Observed :=
  (observed.manager.step action).map fun after =>
    { manager := after
      startedAt := fun id =>
        if inFlight observed.manager id = 0 then output after id else observed.startedAt id }

/-- Where an operation refreshes, every bundle in flight is held. -/
def HeldStep (observed : Observed) : ManagerAction → Prop
  | .refresh => observed.manager.RunsHeld
  | .releaseEmptyInputHolds =>
      (observed.manager.mapStages fun _ stage => stage.releaseEmpty).RunsHeld
  | _ => True

/-- No output watermark has fallen below the smallest timestamp, and a running
stage has not been raised past the watermark of its wave. -/
structure WavesHeld (observed : Observed) : Prop where
  floor : ∀ id stage, observed.manager.stages.lookup id = some stage →
    minTimestamp ≤ stage.output
  wave : ∀ id stage, observed.manager.stages.lookup id = some stage → 0 < stage.inFlight →
    stage.output ≤ max (observed.startedAt id) stage.watermarkAtLastRun

theorem keepsWaves_of_step {observed : Observed} {action : ManagerAction}
    {after : WatermarkManager} (hHeld : observed.HeldStep action) (hWaves : observed.WavesHeld)
    (hStep : observed.manager.step action = some after) :
    KeepsWaves observed.manager after := by
  cases hAction : action.refreshes with
  | false => exact (change_of_step hAction hStep).keepsWaves
  | true =>
      cases action <;> cases hAction <;> cases hStep
      · -- The release changes no watermark, so the refresh after it starts from the same waves.
        let released := observed.manager.mapStages fun _ stage => stage.releaseEmpty
        have hReleased := observed.manager.rewrites_mapStages fun _ stage => stage.releaseEmpty
        unfold releaseEmptyInputHolds
        simp only
        split
        · have hFloor : ∀ id stage, released.stages.lookup id = some stage →
              minTimestamp ≤ stage.output := by
            intro id stage hStage
            obtain ⟨old, hOld, rfl⟩ := hReleased.exists_before hStage
            exact hWaves.floor id old hOld
          intro id stage hStage
          obtain ⟨middle, hMiddle, hRaised, hWave⟩ := keepsWaves_refresh hHeld hFloor id stage hStage
          obtain ⟨old, hOld, rfl⟩ := hReleased.exists_before hMiddle
          exact ⟨old, hOld, hRaised, hWave⟩
        · exact (change_releaseEmpty observed.manager).keepsWaves
      · exact keepsWaves_refresh hHeld hWaves.floor

theorem WavesHeld.step {observed after : Observed} {action : ManagerAction}
    (hWaves : observed.WavesHeld) (hHeld : observed.HeldStep action)
    (hStep : observed.step action = some after) : after.WavesHeld := by
  obtain ⟨manager, hManager, rfl⟩ := Option.map_eq_some_iff.mp hStep
  have hKeeps := keepsWaves_of_step hHeld hWaves hManager
  refine ⟨?_, ?_⟩
  · intro id stage hStage
    obtain ⟨old, hOld, hRaised, _⟩ := hKeeps id stage hStage
    exact (hWaves.floor id old hOld).trans hRaised
  · intro id stage hStage hFlight
    obtain ⟨old, hOld, _, hWave⟩ := hKeeps id stage hStage
    have hRunning : inFlight observed.manager id = old.inFlight := by simp [inFlight, hOld]
    by_cases hIdle : old.inFlight = 0
    · -- The wave starts with this step, so the record is the watermark itself.
      have hNow : output manager id = stage.output :=
        congrArg (fun found => (found.map StageState.output).getD minTimestamp) hStage
      simp only [hRunning, hIdle, if_true, hNow]
      exact le_max_left _ _
    · obtain ⟨hSame, hBelow⟩ := hWave (Nat.pos_of_ne_zero hIdle)
      simp only [hRunning, hIdle, if_false]
      rw [hSame]
      exact hBelow.trans (max_le (hWaves.wave id old hOld (Nat.pos_of_ne_zero hIdle))
        (le_max_right _ _))

theorem wavesHeld_start (specs : List StageSpec) : (start specs).WavesHeld := by
  refine ⟨?_, ?_⟩
  · intro id stage hStage
    obtain ⟨spec, _, _, rfl⟩ := lookup_build specs hStage
    exact le_refl _
  · intro id stage hStage hFlight
    obtain ⟨spec, _, _, rfl⟩ := lookup_build specs hStage
    exact absurd hFlight (lt_irrefl 0)

/-- In every run whose refreshes find each running bundle held, the output
watermark of a running stage never passes the watermark its wave started with,
and the next refresh that finds them held does not raise it past that. -/
theorem output_le_of_heldRun {specs : List StageSpec} {observed : Observed}
    (hRun : Runs.Reaches step HeldStep (start specs) observed) {id : StageId}
    {stage : StageState} (hStage : observed.manager.stages.lookup id = some stage)
    (hFlight : 0 < stage.inFlight) :
    stage.output ≤ max (observed.startedAt id) stage.watermarkAtLastRun ∧
      (observed.manager.RunsHeld → ∀ refreshed,
        observed.manager.refresh.stages.lookup id = some refreshed →
          refreshed.output ≤ max stage.output stage.watermarkAtLastRun) := by
  have hWaves : observed.WavesHeld :=
    hRun.invariant (fun _ _ _ hHeld hStep hBefore => hBefore.step hHeld hStep)
      (wavesHeld_start specs)
  refine ⟨hWaves.wave id stage hStage hFlight, fun hHeld refreshed hRefreshed => ?_⟩
  obtain ⟨old, hOld, _, hWave⟩ := keepsWaves_refresh hHeld hWaves.floor id refreshed hRefreshed
  rw [hStage] at hOld
  cases hOld
  exact (hWave hFlight).2

/-- A source runs its first bundle, and a refresh finds it held. -/
def firstRun : Observed :=
  let started := ((start [readStage]).step (.startBundle "read")).getD (start [readStage])
  (started.step .refresh).getD started

theorem output_le_of_heldRun_firstRun :
    ∃ stage, firstRun.manager.stages.lookup "read" = some stage ∧ 0 < stage.inFlight ∧
      stage.output ≤ max (firstRun.startedAt "read") stage.watermarkAtLastRun ∧
      (firstRun.manager.RunsHeld → ∀ refreshed,
        firstRun.manager.refresh.stages.lookup "read" = some refreshed →
          refreshed.output ≤ max stage.output stage.watermarkAtLastRun) := by
  have hRunning : (firstRun.manager.stages.lookup "read").map StageState.inFlight = some 1 := by
    decide +kernel
  obtain ⟨stage, hStage, hFlight⟩ := Option.map_eq_some_iff.mp hRunning
  have hStarted : Runs.Reaches step HeldStep (start [readStage])
      (((start [readStage]).step (.startBundle "read")).getD (start [readStage])) :=
    Runs.Reaches.snoc_getD (Runs.Reaches.refl _) (ManagerAction.startBundle "read") trivial
      (by decide +kernel) _
  have hFirst : Forall (fun _ stage => 0 < stage.inFlight → stage.completed = false)
      (((start [readStage]).step (.startBundle "read")).getD (start [readStage])).manager.stages :=
    forall_of_entries (by decide +kernel)
  have hRun := hStarted.snoc_getD .refresh
    (fun id stage hStage hFlight => Or.inl (Or.inl (hFirst id stage hStage hFlight))) (by decide +kernel)
    (((start [readStage]).step (.startBundle "read")).getD (start [readStage]))
  have hPositive : 0 < stage.inFlight := by omega
  exact ⟨stage, hStage, hPositive, output_le_of_heldRun hRun hStage hPositive⟩

/-- The source writes rows at 42 and later at 150. The stage that reads it has
consumed the first and is running again over the second. -/
def rerunStarted : WatermarkManager :=
  (Runs.play WatermarkManager.step (build [readStage, workStage .ordinary minTimestamp 1])
    [.startBundle "read", .completeBundle "read" (some 42) (some 1),
      .reportSourcePartitionWatermark "read" "" 100, .refresh,
      .startBundle "work", .completeBundle "work" (some 42) (some 1), .refresh,
      .markRerun "read", .startBundle "read", .completeBundle "read" (some 150) (some 1),
      .reportSourcePartitionWatermark "read" "" 200, .refresh, .startBundle "work"]).getD new

/-- A running bundle is not always a hold: while the second run is in flight, a
refresh raises the output watermark from 150 to 200. -/
theorem not_output_le_rerun :
    ¬∀ specs, WellFormed specs → ∀ manager,
      Runs.Reaches WatermarkManager.step (fun _ _ => True) (build specs) manager →
        ∀ id stage refreshed, manager.stages.lookup id = some stage → 0 < stage.inFlight →
          manager.refresh.stages.lookup id = some refreshed → stage.output < refreshed.output →
            refreshed.output ≤ stage.watermarkAtLastRun := by
  intro h
  have hBefore : (rerunStarted.stages.lookup "work").map (fun stage =>
      (stage.inFlight, stage.output, stage.watermarkAtLastRun)) = some (1, 150, 150) := by
    decide +kernel
  have hAfter : (rerunStarted.refresh.stages.lookup "work").map StageState.output = some 200 := by
    decide +kernel
  obtain ⟨stage, hStage, hFields⟩ := Option.map_eq_some_iff.mp hBefore
  obtain ⟨refreshed, hRefreshed, hOutput⟩ := Option.map_eq_some_iff.mp hAfter
  simp only [Prod.mk.injEq] at hFields
  obtain ⟨hFlight, hBelow, hWave⟩ := hFields
  have hRaised := h _ (wellFormed_sourceThenWork true .ordinary minTimestamp_le_maxTimestamp 1) rerunStarted
    (Runs.reaches_getD_play (fun _ _ => trivial) (by decide +kernel) new) "work" stage refreshed
    hStage (by omega) hRefreshed (by rw [hBelow, hOutput]; decide)
  rw [hOutput, hWave] at hRaised
  exact absurd hRaised (by decide)

end Observed

end FlareDB
