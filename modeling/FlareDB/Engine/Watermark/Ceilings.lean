import FlareDB.Engine.Watermark.Refresh
import Mathlib.Data.List.MinMax

/-! How far the reports of a source can move the watermarks, judged on the manager
before they are applied. Nothing is published above the level of the source, and
a stage that is held back, or reads from one that is, stays where it is. -/
namespace FlareDB

open KeyedStore

namespace StageState

/-- A hold, a bundle of the first run or an empty input keeps the output watermark
before a time. -/
def heldBefore (time : Timestamp) (stage : StageState) : Bool :=
  (decide (stage.completed = false ∧ (0 < stage.inFlight ∨ 0 < stage.queued)) &&
      decide (stage.watermarkAtLastRun < time)) ||
    (decide (stage.pendingEmpty ≠ ∅) && decide (minTimestamp < time)) ||
    (stage.watermarkHolds ++ stage.residualHolds).any fun hold => decide (hold < time)

/-- The stage with its input watermark at a level, if it was below. -/
def raiseInput (level : Timestamp) (stage : StageState) : StageState :=
  { stage with input := max stage.input level }

/-- What the reports of a source may change of a stage. -/
structure Advanced (before after : StageState) : Prop where
  same : after = { before with
    source := after.source
    rerunPending := after.rerunPending
    input := after.input
    output := after.output }
  isSource : after.isSource = before.isSource

theorem Advanced.refl (stage : StageState) : stage.Advanced stage :=
  ⟨rfl, rfl⟩

theorem Advanced.trans {before middle after : StageState} (first : before.Advanced middle)
    (second : middle.Advanced after) : before.Advanced after where
  same := by rw [second.same, first.same]
  isSource := second.isSource.trans first.isSource

/-- Watermarks do not end quiescence. -/
theorem Advanced.isQuiescent {before after : StageState} (h : before.Advanced after)
    (hRerun : after.rerunPending = before.rerunPending) :
    after.isQuiescent = before.isQuiescent := by
  rw [h.same, hRerun]
  rfl

/-- Watermarks do not change what holds a stage. -/
theorem Advanced.heldBefore {before after : StageState} (h : before.Advanced after)
    (time : Timestamp) : after.heldBefore time = before.heldBefore time := by
  rw [h.same]
  rfl

/-- A stage that has work once its input watermark has moved had it at the level. -/
theorem hasWork_raised {before after : StageState} (h : before.Advanced after)
    (hRerun : after.rerunPending = before.rerunPending) {level : Timestamp}
    (hInput : after.input ≤ max before.input level) (hWork : after.hasWork = true) :
    (before.raiseInput level).hasWork = true := by
  have hClamped : after.effectiveInput ≤ (before.raiseInput level).effectiveInput := by
    rw [h.same]
    exact min_le_min_right _ hInput
  rw [h.same] at hWork
  simp only [hasWork, hRerun] at hWork ⊢
  split at hWork
  next hCompleted =>
    rw [if_pos (show (before.raiseInput level).completed = true from hCompleted)]
    simp only [Bool.or_eq_true, Bool.and_eq_true, decide_eq_true_eq] at hWork ⊢
    refine hWork.imp id fun hGated => ⟨hGated.1, lt_of_lt_of_le hGated.2 ?_⟩
    rw [h.same] at hClamped
    exact hClamped
  next hFirst => rw [if_neg (show ¬(before.raiseInput level).completed = true from hFirst)]

/-- A gate that is passed stays so at a higher input watermark. -/
theorem passes_raised (kind : StageKind) {required input raised : Timestamp}
    (hRaised : input ≤ raised) :
    (match kind with
      | .ordinary => true
      | .watermarkGated | .timeSortedInputWatermarkGated => decide (required ≤ input)) = true →
    (match kind with
      | .ordinary => true
      | .watermarkGated | .timeSortedInputWatermarkGated => decide (required ≤ raised)) = true := by
  cases kind with
  | ordinary => exact id
  | watermarkGated | timeSortedInputWatermarkGated =>
      exact fun hPassed => decide_eq_true ((of_decide_eq_true hPassed).trans hRaised)

/-- What a stage waits for besides a higher input watermark is as before. -/
theorem ready_raised {before after : StageState} (h : before.Advanced after)
    (hRerun : after.rerunPending = before.rerunPending) {level : Timestamp}
    (hInput : after.input ≤ max before.input level)
    (hReady : after.isReadyWithoutUpstreamBarrier = true) :
    (before.raiseInput level).isReadyWithoutUpstreamBarrier = true := by
  have hFields : after.maxInFlight = before.maxInFlight ∧ after.inFlight = before.inFlight ∧
      after.unproduced = before.unproduced ∧
      after.unproducedSideInputs = before.unproducedSideInputs ∧
      after.completed = before.completed ∧ after.queued = before.queued ∧
      after.kind = before.kind ∧ after.requiredWatermark = before.requiredWatermark := by
    rw [h.same]
    exact ⟨rfl, rfl, rfl, rfl, rfl, rfl, rfl, rfl⟩
  obtain ⟨hSlots, hFlight, hMain, hSide, hCompleted, hQueued, hKind, hRequired⟩ := hFields
  unfold isReadyWithoutUpstreamBarrier at hReady ⊢
  rw [hSlots, hFlight, hMain, hSide, hCompleted, hQueued, hKind, hRequired] at hReady
  split at hReady
  · cases hReady
  next hOpen =>
    rw [if_neg (show ¬((before.raiseInput level).maxInFlight ≤ (before.raiseInput level).inFlight ∨
      (before.raiseInput level).unproduced ≠ ∅ ∨
      (before.raiseInput level).unproducedSideInputs ≠ ∅) from hOpen)]
    split at hReady
    · cases hReady
    next hFirst =>
      rw [if_neg (show ¬((before.raiseInput level).completed = false ∧
        0 < (before.raiseInput level).inFlight ∧ (before.raiseInput level).queued = 0) from hFirst)]
      split at hReady
      · cases hReady
      next hHas =>
        have hWork := hasWork_raised h hRerun hInput (Bool.not_eq_false _ ▸ hHas)
        rw [hWork, if_neg (by simp)]
        exact passes_raised before.kind hInput hReady

end StageState

namespace WatermarkManager

/-- The highest output watermark that any stage has published. -/
def highestOutput (manager : WatermarkManager) : Timestamp :=
  (manager.stages.entries.map fun entry => entry.2.output).foldr max minTimestamp

/-- Whether the output watermark of a stage stays before a time whatever its source
reports: the stage is held, its unconsumed input is earlier, or a producer of its
main input stays before the time in turn. -/
def keepsOutputBefore (manager : WatermarkManager) (time : Timestamp) : Nat → StageState → Bool
  | 0, _ => false
  | fuel + 1, stage =>
      decide (stage.output < time) &&
        (stage.heldBefore time || (stage.source.isNone && (decide (stage.pendingMin < time) ||
          (stage.mainInputs.filterMap manager.producerOf).any (keepsOutputBefore manager time fuel))))

/-- Whether a producer keeps the input watermark of a stage before a time. -/
def keepsInputBefore (manager : WatermarkManager) (time : Timestamp) (stage : StageState) : Bool :=
  decide (stage.input < time) && (stage.inputs.filterMap manager.producerOf).any
    (manager.keepsOutputBefore time manager.stages.entries.length)

/-- Whether a producer keeps what a stage may publish before a time. -/
def keepsMainInputBefore (manager : WatermarkManager) (time : Timestamp) (stage : StageState) :
    Bool :=
  stage.source.isNone && (stage.mainInputs.filterMap manager.producerOf).any
    (manager.keepsOutputBefore time manager.stages.entries.length)

/-- Whether the watermark a stage fires its timers at may reach a time while
nothing is published above a level. -/
def mayReach (manager : WatermarkManager) (level time : Timestamp) (id : StageId) : Bool :=
  match manager.stages.lookup id with
  | none => decide (time ≤ minTimestamp)
  | some stage =>
      decide (time ≤ (stage.raiseInput level).effectiveInput) &&
        !manager.keepsInputBefore time stage

/-- Whether a stage would be ready with its input watermark at a level. -/
def readyAt (manager : WatermarkManager) (level : Timestamp) (id : StageId) : Bool :=
  (manager.modifyStage id (StageState.raiseInput level)).stageIsReady id

variable {manager before middle after current : WatermarkManager} {source : StageId}

/-- No stage has published more than the highest watermark. -/
theorem output_le_highestOutput {id : StageId} {stage : StageState}
    (hStage : manager.stages.lookup id = some stage) : stage.output ≤ manager.highestOutput :=
  List.le_max_of_le' _ (List.mem_map_of_mem (f := fun entry : Sigma fun _ : StageId => StageState =>
    entry.2.output) (AList.mem_lookup_iff.mp hStage)) (le_refl _)

theorem minTimestamp_le_highestOutput (manager : WatermarkManager) :
    minTimestamp ≤ manager.highestOutput := by
  unfold highestOutput
  induction manager.stages.entries.map fun entry => entry.2.output with
  | nil => exact le_refl _
  | cons output rest ih => exact ih.trans (le_max_right _ _)

/-- One manager is another once reports of a source have been applied and the
watermarks advanced: but for watermarks, only the source itself has changed. -/
structure Reports (source : StageId) (before after : WatermarkManager) : Prop where
  keys : after.stages.keys = before.stages.keys
  producers : after.producers = before.producers
  stages : ∀ id stage, before.stages.lookup id = some stage →
    ∃ next, after.stages.lookup id = some next ∧ stage.Advanced next ∧
      (id ≠ source → next.source = stage.source ∧ next.rerunPending = stage.rerunPending)

namespace Reports

theorem of_rewrites {f : StageId → StageState → StageState} (h : Rewrites f before after)
    (hAdvanced : ∀ id stage, before.stages.lookup id = some stage → stage.Advanced (f id stage) ∧
      (id ≠ source → (f id stage).source = stage.source ∧
        (f id stage).rerunPending = stage.rerunPending)) : Reports source before after where
  keys := h.keys
  producers := h.producers
  stages id stage hStage := ⟨_, h.lookup_of_before hStage, hAdvanced id stage hStage⟩

theorem refl (manager : WatermarkManager) : Reports source manager manager :=
  ⟨rfl, rfl, fun _ stage hStage => ⟨stage, hStage, .refl stage, fun _ => ⟨rfl, rfl⟩⟩⟩

theorem trans (first : Reports source before middle) (second : Reports source middle after) :
    Reports source before after where
  keys := second.keys.trans first.keys
  producers := second.producers.trans first.producers
  stages id stage hStage := by
    obtain ⟨mid, hMid, hFirst, hFirstOther⟩ := first.stages id stage hStage
    obtain ⟨next, hNext, hSecond, hSecondOther⟩ := second.stages id mid hMid
    refine ⟨next, hNext, hFirst.trans hSecond, fun hOther => ?_⟩
    exact ⟨(hSecondOther hOther).1.trans (hFirstOther hOther).1,
      (hSecondOther hOther).2.trans (hFirstOther hOther).2⟩

theorem exists_before (h : Reports source before after) {id : StageId} {next : StageState}
    (hNext : after.stages.lookup id = some next) : ∃ stage,
      before.stages.lookup id = some stage ∧ stage.Advanced next ∧
      (id ≠ source → next.source = stage.source ∧ next.rerunPending = stage.rerunPending) := by
  have hKey : id ∈ before.stages.keys := by
    rw [← h.keys]
    exact mem_keys_iff.mpr ⟨next, hNext⟩
  obtain ⟨stage, hStage⟩ := mem_keys_iff.mp hKey
  obtain ⟨found, hFound, hAdvanced⟩ := h.stages id stage hStage
  rw [hNext] at hFound
  cases hFound
  exact ⟨stage, hStage, hAdvanced⟩

theorem advanceStage (current : WatermarkManager) (id : StageId) (moved : StageState) :
    Reports source current (current.advanceStage id moved) :=
  of_rewrites (current.rewrites_modifyStage id _) fun other stage _ => by
    split
    · exact ⟨⟨rfl, rfl⟩, fun _ => ⟨rfl, rfl⟩⟩
    · exact ⟨.refl stage, fun _ => ⟨rfl, rfl⟩⟩

end Reports

/-- A stage is as far as the slowest of its inputs. -/
theorem upstreamMin_le {inputs : List PCollectionId} {pcollection : PCollectionId}
    (h : pcollection ∈ inputs) : manager.upstreamMin inputs ≤ manager.upstream pcollection :=
  ((manager.le_upstreamMin_iff _ _).mp (le_refl _)).2 pcollection h

/-- Watermarks that a level bounds: no output watermark is above it, nor is what
the source has to publish, and no other stage's input watermark is, unless it was
above it before. -/
structure Below (source : StageId) (level : Timestamp) (before current : WatermarkManager) :
    Prop where
  reports : Reports source before current
  output_le : ∀ id stage, current.stages.lookup id = some stage → stage.output ≤ level
  source_le : ∀ stage, current.stages.lookup source = some stage →
    ∀ state, stage.source = some state → state.output ≤ level
  input_le : ∀ id old stage, id ≠ source → before.stages.lookup id = some old →
    current.stages.lookup id = some stage → stage.input ≤ max old.input level

/-- The source is the only stage that publishes what is reported for it, and every
other stage reads a main input. -/
def OneSource (source : StageId) (manager : WatermarkManager) : Prop :=
  ∀ id stage, manager.stages.lookup id = some stage →
    (stage.isSource = true → id = source) ∧ (stage.isSource = false → stage.mainInputs ≠ [])

/-- Reports leave the source the only one. -/
theorem Reports.oneSource (h : Reports source before after) (hSource : OneSource source before) :
    OneSource source after := by
  intro id next hNext
  obtain ⟨stage, hStage, hAdvanced, _⟩ := h.exists_before hNext
  have hMain : next.mainInputs = stage.mainInputs := by rw [hAdvanced.same]
  rw [hAdvanced.isSource, hMain]
  exact hSource id stage hStage

namespace Below

variable {level : Timestamp}

/-- Nothing is read above the level. -/
theorem upstream_le (h : Below source level before current) (hLevel : minTimestamp ≤ level)
    (pcollection : PCollectionId) : current.upstream pcollection ≤ level := by
  unfold upstream producerOf
  cases current.producers.lookup pcollection with
  | none => exact hLevel
  | some id =>
      rw [Option.bind_some]
      cases hStage : current.stages.lookup id with
      | none => exact hLevel
      | some stage => exact h.output_le id stage hStage

/-- Nothing is produced above the level. -/
theorem producedWatermark_le (h : Below source level before current) (hLevel : minTimestamp ≤ level)
    (hSource : OneSource source before) {id : StageId} {stage : StageState}
    (hStage : current.stages.lookup id = some stage) : current.producedWatermark stage ≤ level := by
  obtain ⟨hOwn, hReads⟩ := h.reports.oneSource hSource id stage hStage
  unfold producedWatermark
  cases hState : stage.source with
  | some state =>
      have hId := hOwn (by rw [StageState.isSource, hState]; rfl)
      exact h.source_le stage (hId ▸ hStage) state hState
  | none =>
      have hMain := hReads (by rw [StageState.isSource, hState]; rfl)
      obtain ⟨pcollection, hPcollection⟩ := List.exists_mem_of_ne_nil _ hMain
      exact (min_le_left _ _).trans ((upstreamMin_le hPcollection).trans (h.upstream_le hLevel _))

/-- The source apart, no stage is to move its input watermark above the level. -/
theorem computeInput_le (h : Below source level before current) (hLevel : minTimestamp ≤ level)
    (hSource : OneSource source before) {id : StageId} {stage : StageState}
    (hStage : current.stages.lookup id = some stage) (hOther : id ≠ source) :
    current.computeInput stage ≤ level := by
  obtain ⟨hOwn, hReads⟩ := h.reports.oneSource hSource id stage hStage
  have hNot : stage.isSource = false := Bool.eq_false_iff.mpr fun hIs => hOther (hOwn hIs)
  obtain ⟨pcollection, hPcollection⟩ := List.exists_mem_of_ne_nil _ (hReads hNot)
  rw [computeInput, hNot]
  exact (upstreamMin_le (List.mem_append_left _ hPcollection)).trans (h.upstream_le hLevel _)

/-- Moving a stage keeps everything below the level. -/
theorem advanceStage (h : Below source level before current) (hLevel : minTimestamp ≤ level)
    (hSource : OneSource source before) {id : StageId} {moved : StageState}
    (hMoved : current.stages.lookup id = some moved) :
    Below source level before (current.advanceStage id moved) := by
  have hRewrites := current.rewrites_modifyStage id fun stage =>
    stage.withWatermarks (max stage.input (current.computeInput moved))
      (max stage.output (current.computeOutput moved))
  have hOutput : current.computeOutput moved ≤ level :=
    ((current.le_computeOutput_iff moved _).mp (le_refl _)).1.trans
      (h.producedWatermark_le hLevel hSource hMoved)
  refine ⟨h.reports.trans (.advanceStage current id moved), ?_, ?_, ?_⟩
  · intro other stage hStage
    obtain ⟨old, hOld, rfl⟩ := hRewrites.exists_before hStage
    split
    · exact max_le (h.output_le other old hOld) hOutput
    · exact h.output_le other old hOld
  · intro stage hStage state hState
    obtain ⟨old, hOld, rfl⟩ := hRewrites.exists_before hStage
    refine h.source_le old hOld state ?_
    split at hState <;> exact hState
  · intro other old stage hOther hOld hStage
    obtain ⟨mid, hMid, rfl⟩ := hRewrites.exists_before hStage
    have hBefore := h.input_le other old mid hOther hOld hMid
    split
    next hId =>
      subst hId
      exact max_le hBefore ((h.computeInput_le hLevel hSource hMoved hOther).trans (le_max_right _ _))
    · exact hBefore

/-- Reports that have been applied and not yet propagated. -/
theorem of_reports (h : Reports source before current) (hLevel : before.highestOutput ≤ level)
    (hSame : ∀ id old stage, before.stages.lookup id = some old →
      current.stages.lookup id = some stage → stage.input = old.input ∧ stage.output = old.output)
    (hSource : ∀ stage, current.stages.lookup source = some stage →
      ∀ state, stage.source = some state → state.output ≤ level) :
    Below source level before current where
  reports := h
  output_le id stage hStage := by
    obtain ⟨old, hOld, _⟩ := h.exists_before hStage
    rw [(hSame id old stage hOld hStage).2]
    exact (output_le_highestOutput hOld).trans hLevel
  source_le := hSource
  input_le id old stage _ hOld hStage := by
    rw [(hSame id old stage hOld hStage).1]
    exact le_max_left _ _

/-- The level does not depend on the holds. -/
theorem reheld (h : Below source level before current) {held nowHeld : WatermarkManager}
    {timers residuals : StageId → List Timestamp}
    (hBefore : Rewrites (fun id stage => { stage with
      watermarkHolds := timers id, residualHolds := residuals id }) before held)
    (hCurrent : Rewrites (fun id stage => { stage with
      watermarkHolds := timers id, residualHolds := residuals id }) current nowHeld) :
    Below source level held nowHeld where
  reports := by
    refine ⟨by rw [hBefore.keys, hCurrent.keys, h.reports.keys],
      by rw [hBefore.producers, hCurrent.producers, h.reports.producers], fun id stage hStage => ?_⟩
    obtain ⟨old, hOld, rfl⟩ := hBefore.exists_before hStage
    obtain ⟨next, hNext, hAdvanced, hOther⟩ := h.reports.stages id old hOld
    refine ⟨_, hCurrent.lookup_of_before hNext, ⟨?_, hAdvanced.isSource⟩, hOther⟩
    rw [hAdvanced.same]
  output_le id stage hStage := by
    obtain ⟨old, hOld, rfl⟩ := hCurrent.exists_before hStage
    exact h.output_le id old hOld
  source_le stage hStage := by
    obtain ⟨old, hOld, rfl⟩ := hCurrent.exists_before hStage
    exact h.source_le old hOld
  input_le id old stage hOther hOld hStage := by
    obtain ⟨first, hFirst, rfl⟩ := hBefore.exists_before hOld
    obtain ⟨second, hSecond, rfl⟩ := hCurrent.exists_before hStage
    exact h.input_le id first second hOther hFirst hSecond

/-- A refresh stays below the level. -/
theorem refresh (h : Below source level before current) (hLevel : minTimestamp ≤ level)
    (hSource : OneSource source before) : Below source level before current.refresh :=
  refresh_induction (fun _ _ _ hMoved hCurrent => hCurrent.advanceStage hLevel hSource hMoved) h

end Below

/-- A chain that is quiescent was so before what only ended quiescence. -/
theorem upstreamChainIsQuiescent_before (hProducers : after.producers = before.producers)
    (hStages : ∀ id old, before.stages.lookup id = some old → ∃ new,
      after.stages.lookup id = some new ∧ new.inputs = old.inputs ∧
        (new.isQuiescent = true → old.isQuiescent = true)) (fuel : Nat) {old new : StageState}
    (hInputs : new.inputs = old.inputs) (h : after.upstreamChainIsQuiescent fuel new = true) :
    before.upstreamChainIsQuiescent fuel old = true := by
  induction fuel generalizing old new with
  | zero => cases h
  | succ fuel ih =>
      rw [upstreamChainIsQuiescent, List.all_eq_true] at h ⊢
      intro producer hProducer
      obtain ⟨input, hInput, hFound⟩ := List.mem_filterMap.mp hProducer
      obtain ⟨id, hWired, hOld⟩ := Option.bind_eq_some_iff.mp hFound
      obtain ⟨later, hLater, hReads, hQuiescent⟩ := hStages id producer hOld
      have hAfter := h later (List.mem_filterMap.mpr ⟨input, by rwa [hInputs],
        Option.bind_eq_some_iff.mpr ⟨id, by rwa [hProducers], hLater⟩⟩)
      rw [Bool.and_eq_true] at hAfter ⊢
      exact ⟨hQuiescent hAfter.1, ih hReads hAfter.2⟩

/-- A stage that is ready once the watermarks have advanced would have been ready
before with its input watermark at the level. -/
theorem Below.readyAt {level : Timestamp} (h : Below source level before current)
    (hRerun : ∀ id old stage, before.stages.lookup id = some old →
      current.stages.lookup id = some stage → stage.rerunPending = old.rerunPending)
    {id : StageId} (hOther : id ≠ source) (hReady : current.stageIsReady id = true) :
    before.readyAt level id = true := by
  have hRaised := before.rewrites_modifyStage id (StageState.raiseInput level)
  unfold stageIsReady at hReady
  split at hReady
  · cases hReady
  next stage hStage =>
    obtain ⟨old, hOld, hAdvanced, _⟩ := h.reports.exists_before hStage
    have hSame := hRerun id old stage hOld hStage
    have hHere := hRaised.lookup_of_before hOld
    rw [if_pos rfl] at hHere
    split at hReady
    · cases hReady
    next hMayRun =>
      have hStands := StageState.ready_raised hAdvanced hSame (h.input_le id old stage hOther hOld
        hStage) (Bool.not_eq_false _ ▸ hMayRun)
      have hKind : stage.kind = old.kind := by rw [hAdvanced.same]
      rw [WatermarkManager.readyAt, stageIsReady, hHere]
      simp only [hStands]
      rw [if_neg (by simp)]
      split at hReady
      next hOrdinary => rw [if_pos (show (old.raiseInput level).kind = .ordinary from hKind ▸ hOrdinary)]
      next hGated =>
        rw [if_neg (show ¬(old.raiseInput level).kind = .ordinary from hKind ▸ hGated)]
        have hLength : (before.modifyStage id (StageState.raiseInput level)).stages.entries.length =
            current.stages.entries.length := by
          have hKeys := congrArg List.length (hRaised.keys.trans h.reports.keys.symm)
          simpa [AList.keys, List.keys] using hKeys
        rw [hLength]
        refine upstreamChainIsQuiescent_before (h.reports.producers.trans hRaised.producers.symm) ?_ _
          (by rw [hAdvanced.same]; rfl) hReady
        intro other raised hOtherStage
        obtain ⟨first, hFirst, rfl⟩ := hRaised.exists_before hOtherStage
        obtain ⟨later, hLater, hMoved, _⟩ := h.reports.stages other first hFirst
        refine ⟨later, hLater, ?_, fun hQuiescent => ?_⟩
        · rw [hMoved.same]
          split <;> rfl
        · rw [hMoved.isQuiescent (hRerun other first later hFirst hLater)] at hQuiescent
          split <;> exact hQuiescent

/-- Stages that stay before a time: whatever held them back before still does. -/
structure Kept (source : StageId) (time : Timestamp) (before current : WatermarkManager) :
    Prop where
  reports : Reports source before current
  output_lt : ∀ fuel id old stage, before.stages.lookup id = some old →
    before.keepsOutputBefore time fuel old = true → current.stages.lookup id = some stage →
      stage.output < time
  input_lt : ∀ id old stage, old.isSource = false → before.stages.lookup id = some old →
    before.keepsInputBefore time old = true → current.stages.lookup id = some stage →
      stage.input < time

namespace Kept

variable {time : Timestamp}

/-- A producer that stays before the time keeps what is read from it there. -/
theorem upstream_lt (h : Kept source time before current) {fuel : Nat}
    {inputs : List PCollectionId} (hKept : (inputs.filterMap before.producerOf).any
      (before.keepsOutputBefore time fuel) = true) :
    ∃ pcollection ∈ inputs, current.upstream pcollection < time := by
  obtain ⟨producer, hProducer, hKeeps⟩ := List.any_eq_true.mp hKept
  obtain ⟨pcollection, hRead, hFound⟩ := List.mem_filterMap.mp hProducer
  obtain ⟨id, hWired, hOld⟩ := Option.bind_eq_some_iff.mp hFound
  obtain ⟨stage, hStage, _⟩ := h.reports.stages id producer hOld
  refine ⟨pcollection, hRead, ?_⟩
  have hUpstream : current.upstream pcollection = stage.output := by
    simp [upstream, producerOf, h.reports.producers, hWired, hStage]
  rw [hUpstream]
  exact h.output_lt fuel id producer stage hOld hKeeps hStage

/-- A stage that is held before a time publishes nothing from there on. -/
theorem computeOutput_lt_of_heldBefore {stage : StageState} (hHeld : stage.heldBefore time = true) :
    current.computeOutput stage < time := by
  obtain ⟨_, hRun, hEmpty, hHolds⟩ := (current.le_computeOutput_iff stage _).mp (le_refl _)
  rw [stage.forall_minHold_iff] at hHolds
  simp only [StageState.heldBefore, Bool.or_eq_true, Bool.and_eq_true, decide_eq_true_eq,
    List.any_eq_true] at hHeld
  rcases hHeld with (⟨⟨hFirst, hWork⟩, hLast⟩ | ⟨hPending, hMin⟩) | ⟨hold, hHold, hLate⟩
  · exact (hRun hFirst hWork).trans_lt hLast
  · exact (hEmpty hPending).trans_lt hMin
  · exact (hHolds hold hHold).trans_lt hLate

/-- A producer that stays before the time keeps what its consumers publish there. -/
theorem computeOutput_lt_of_mainInput (h : Kept source time before current) {old stage : StageState}
    (hMain : stage.mainInputs = old.mainInputs) (hNone : stage.source = none) {fuel : Nat}
    (hKept : (old.mainInputs.filterMap before.producerOf).any
      (before.keepsOutputBefore time fuel) = true) : current.computeOutput stage < time := by
  have hProduced := ((current.le_computeOutput_iff stage _).mp (le_refl _)).1
  obtain ⟨pcollection, hRead, hLate⟩ := h.upstream_lt hKept
  rw [producedWatermark, hNone, hMain] at hProduced
  exact hProduced.trans_lt ((min_le_left _ _).trans_lt ((upstreamMin_le hRead).trans_lt hLate))

/-- A stage that stays before a time is not to move its output watermark past it. -/
theorem computeOutput_lt (h : Kept source time before current) {fuel : Nat} {id : StageId}
    {old stage : StageState} (hOld : before.stages.lookup id = some old)
    (hKeeps : before.keepsOutputBefore time fuel old = true)
    (hStage : current.stages.lookup id = some stage) : current.computeOutput stage < time := by
  obtain ⟨found, hFound, hAdvanced, _⟩ := h.reports.exists_before hStage
  rw [hOld] at hFound
  cases hFound
  cases fuel with
  | zero => cases hKeeps
  | succ fuel =>
      rw [keepsOutputBefore, Bool.and_eq_true, Bool.or_eq_true, Bool.and_eq_true,
        Bool.or_eq_true] at hKeeps
      rcases hKeeps.2 with hHeld | ⟨hNone, hWaits⟩
      · exact computeOutput_lt_of_heldBefore ((hAdvanced.heldBefore time).trans hHeld)
      · have hProduced := ((current.le_computeOutput_iff stage _).mp (le_refl _)).1
        have hNoSource : stage.source = none := by
          have hNot : old.isSource = false := by
            rw [StageState.isSource, Option.isNone_iff_eq_none.mp hNone]
            rfl
          rw [← hAdvanced.isSource] at hNot
          exact Option.not_isSome_iff_eq_none.mp (Bool.eq_false_iff.mp hNot)
        have hMain : stage.mainInputs = old.mainInputs := by rw [hAdvanced.same]
        have hPendingMin : stage.pendingMin = old.pendingMin := by rw [hAdvanced.same]
        rcases hWaits with hPending | hProducer
        · refine hProduced.trans_lt ?_
          rw [producedWatermark, hNoSource, hPendingMin]
          exact (min_le_right _ _).trans_lt (of_decide_eq_true hPending)
        · exact h.computeOutput_lt_of_mainInput hMain hNoSource hProducer

/-- Moving a stage keeps what stays before the time there. -/
theorem advanceStage (h : Kept source time before current) {id : StageId} {moved : StageState}
    (hMoved : current.stages.lookup id = some moved) :
    Kept source time before (current.advanceStage id moved) := by
  have hRewrites := current.rewrites_modifyStage id fun stage =>
    stage.withWatermarks (max stage.input (current.computeInput moved))
      (max stage.output (current.computeOutput moved))
  refine ⟨h.reports.trans (.advanceStage current id moved), ?_, ?_⟩
  · intro fuel other old stage hOld hKeeps hStage
    obtain ⟨mid, hMid, rfl⟩ := hRewrites.exists_before hStage
    have hBefore := h.output_lt fuel other old mid hOld hKeeps hMid
    split
    next hId =>
      subst hId
      exact max_lt hBefore (h.computeOutput_lt hOld hKeeps hMoved)
    · exact hBefore
  · intro other old stage hReads hOld hKeeps hStage
    obtain ⟨mid, hMid, rfl⟩ := hRewrites.exists_before hStage
    have hBefore := h.input_lt other old mid hReads hOld hKeeps hMid
    split
    next hId =>
      subst hId
      refine max_lt hBefore ?_
      obtain ⟨found, hFound, hAdvanced, _⟩ := h.reports.exists_before hMoved
      rw [hOld] at hFound
      cases hFound
      have hNot : moved.isSource = false := hAdvanced.isSource.trans hReads
      have hInputs : moved.inputs = old.inputs := by
        rw [hAdvanced.same]
        rfl
      obtain ⟨pcollection, hRead, hLate⟩ := h.upstream_lt (Bool.and_eq_true_iff.mp hKeeps).2
      rw [computeInput, hNot, hInputs]
      exact (upstreamMin_le hRead).trans_lt hLate
    · exact hBefore

/-- Before anything has moved, all that was before the time is there. -/
theorem of_reports (h : Reports source before current)
    (hSame : ∀ id old stage, before.stages.lookup id = some old →
      current.stages.lookup id = some stage → stage.input = old.input ∧ stage.output = old.output) :
    Kept source time before current where
  reports := h
  output_lt fuel id old stage hOld hKeeps hStage := by
    rw [(hSame id old stage hOld hStage).2]
    cases fuel with
    | zero => cases hKeeps
    | succ fuel => exact of_decide_eq_true (Bool.and_eq_true_iff.mp hKeeps).1
  input_lt id old stage _ hOld hKeeps hStage := by
    rw [(hSame id old stage hOld hStage).1]
    exact of_decide_eq_true (Bool.and_eq_true_iff.mp hKeeps).1

/-- A refresh leaves what is kept before a time there. -/
theorem refresh (h : Kept source time before current) : Kept source time before current.refresh :=
  refresh_induction (fun _ _ _ hMoved hCurrent => hCurrent.advanceStage hMoved) h

theorem refl (manager : WatermarkManager) : Kept source time manager manager :=
  of_reports (.refl manager) fun _ old stage hOld hStage => by
    rw [hOld] at hStage
    cases hStage
    exact ⟨rfl, rfl⟩

end Kept

/-- Nothing fires that could not reach its time: the watermark a stage fires its
timers at stays before it. -/
theorem effectiveInput_lt {level time : Timestamp} {id : StageId} {stage next : StageState}
    (hBelow : Below source level before current) (hKept : Kept source time before current)
    (hSource : OneSource source before) (hOther : id ≠ source) (hStage : before.stages.lookup id = some stage)
    (hNext : current.stages.lookup id = some next)
    (hOut : before.mayReach level time id = false) : next.effectiveInput < time := by
  obtain ⟨found, hFound, hAdvanced, _⟩ := hBelow.reports.exists_before hNext
  rw [hStage] at hFound
  cases hFound
  have hPendingMin : next.pendingMin = stage.pendingMin := by rw [hAdvanced.same]
  simp only [mayReach, hStage, Bool.and_eq_false_iff, decide_eq_false_iff_not, not_le,
    Bool.not_eq_false'] at hOut
  rcases hOut with hBefore | hKeeps
  · have hInput := hBelow.input_le id stage next hOther hStage hNext
    have hClamped : next.effectiveInput ≤ (stage.raiseInput level).effectiveInput := by
      rw [StageState.effectiveInput, StageState.effectiveInput, hPendingMin]
      exact min_le_min_right _ hInput
    exact hClamped.trans_lt hBefore
  · have hReads : stage.isSource = false :=
      Bool.eq_false_iff.mpr fun hIs => hOther ((hSource id stage hStage).1 hIs)
    exact (min_le_left _ _).trans_lt (hKept.input_lt id stage next hReads hStage hKeeps hNext)

end WatermarkManager

end FlareDB
