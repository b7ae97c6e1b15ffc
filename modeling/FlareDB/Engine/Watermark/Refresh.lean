import FlareDB.Engine.Watermark.Manager
import Mathlib.Algebra.Order.BigOperators.Group.List
import Mathlib.Tactic.Linarith

/-! What an operation does to a manager stage by stage, and what a refresh does:
it only moves watermarks up, and it ends where no stage can move any more. -/
namespace FlareDB

open KeyedStore

/-- One manager is another with every stage rewritten by a function. -/
structure Rewrites (f : StageId → StageState → StageState) (before after : WatermarkManager) :
    Prop where
  lookup : ∀ id, after.stages.lookup id = (before.stages.lookup id).map (f id)
  keys : after.stages.keys = before.stages.keys
  producers : after.producers = before.producers
  consumers : after.consumers = before.consumers
  sideInputConsumers : after.sideInputConsumers = before.sideInputConsumers

namespace Rewrites

variable {f g : StageId → StageState → StageState} {before middle after : WatermarkManager}

theorem refl (manager : WatermarkManager) : Rewrites (fun _ stage => stage) manager manager :=
  ⟨fun id => by simp, rfl, rfl, rfl, rfl⟩

/-- Rewriting stage by stage composes. -/
theorem trans (first : Rewrites f before middle) (second : Rewrites g middle after) :
    Rewrites (fun id stage => g id (f id stage)) before after where
  lookup id := by
    rw [second.lookup, first.lookup, Option.map_map]
    rfl
  keys := second.keys.trans first.keys
  producers := second.producers.trans first.producers
  consumers := second.consumers.trans first.consumers
  sideInputConsumers := second.sideInputConsumers.trans first.sideInputConsumers

theorem congr (h : Rewrites f before after)
    (hEq : ∀ id stage, before.stages.lookup id = some stage → f id stage = g id stage) :
    Rewrites g before after where
  lookup id := by
    rw [h.lookup]
    cases hStage : before.stages.lookup id with
    | none => rfl
    | some stage => simp [hEq id stage hStage]
  keys := h.keys
  producers := h.producers
  consumers := h.consumers
  sideInputConsumers := h.sideInputConsumers

theorem lookup_of_before (h : Rewrites f before after) {id : StageId} {stage : StageState}
    (hStage : before.stages.lookup id = some stage) :
    after.stages.lookup id = some (f id stage) := by
  rw [h.lookup, hStage]
  rfl

/-- Every stage after a rewrite was there before it. -/
theorem exists_before (h : Rewrites f before after) {id : StageId} {stage : StageState}
    (hStage : after.stages.lookup id = some stage) :
    ∃ old, before.stages.lookup id = some old ∧ stage = f id old := by
  rw [h.lookup] at hStage
  obtain ⟨old, hOld, hEq⟩ := Option.map_eq_some_iff.mp hStage
  exact ⟨old, hOld, hEq.symm⟩

theorem consumersOf (h : Rewrites f before after) (pcollection : PCollectionId) :
    after.consumersOf pcollection = before.consumersOf pcollection := by
  simp [WatermarkManager.consumersOf, h.consumers]

theorem sideInputConsumersOf (h : Rewrites f before after) (pcollection : PCollectionId) :
    after.sideInputConsumersOf pcollection = before.sideInputConsumersOf pcollection := by
  simp [WatermarkManager.sideInputConsumersOf, h.sideInputConsumers]

end Rewrites

namespace WatermarkManager

/-- Every stage of one manager is related to the stage of that id in another,
and the wiring is the same. -/
def Touches (R : StageState → StageState → Prop) (before after : WatermarkManager) : Prop :=
  ∃ f, Rewrites f before after ∧ ∀ id stage, R stage (f id stage)

section Touches

variable {R S : StageState → StageState → Prop} {before middle after : WatermarkManager}

/-- A weaker relation holds of the same stages. -/
theorem Touches.mono (h : Touches R before after) (hSub : ∀ old new, R old new → S old new) :
    Touches S before after := by
  obtain ⟨f, hRewrites, hRelated⟩ := h
  exact ⟨f, hRewrites, fun id stage => hSub _ _ (hRelated id stage)⟩

theorem Touches.refl (hRefl : ∀ stage, R stage stage) (manager : WatermarkManager) :
    Touches R manager manager :=
  ⟨_, Rewrites.refl manager, fun _ stage => hRefl stage⟩

/-- A rewriting counts on the stages there are. -/
theorem Touches.of_rewrites {f : StageId → StageState → StageState} (h : Rewrites f before after)
    (hRefl : ∀ stage, R stage stage)
    (hRelated : ∀ id stage, before.stages.lookup id = some stage → R stage (f id stage)) :
    Touches R before after := by
  classical
  refine ⟨fun id stage => if before.stages.lookup id = some stage then f id stage else stage,
    h.congr fun id stage hStage => by rw [if_pos hStage], fun id stage => ?_⟩
  dsimp only
  split
  next hStage => exact hRelated id stage hStage
  · exact hRefl stage

/-- Step by step relations compose when the relation does. -/
theorem Touches.trans (hTrans : ∀ {old mid new}, R old mid → R mid new → R old new)
    (first : Touches R before middle) (second : Touches R middle after) :
    Touches R before after := by
  obtain ⟨f, hFirst, hOld⟩ := first
  obtain ⟨g, hSecond, hNew⟩ := second
  exact ⟨_, hFirst.trans hSecond, fun id stage => hTrans (hOld id stage) (hNew id _)⟩

theorem Touches.exists_before (h : Touches R before after) {id : StageId} {stage : StageState}
    (hStage : after.stages.lookup id = some stage) :
    ∃ old, before.stages.lookup id = some old ∧ R old stage := by
  obtain ⟨f, hRewrites, hRelated⟩ := h
  obtain ⟨old, hOld, rfl⟩ := hRewrites.exists_before hStage
  exact ⟨old, hOld, hRelated id old⟩

theorem Touches.exists_after (h : Touches R before after) {id : StageId} {stage : StageState}
    (hStage : before.stages.lookup id = some stage) :
    ∃ new, after.stages.lookup id = some new ∧ R stage new := by
  obtain ⟨f, hRewrites, hRelated⟩ := h
  exact ⟨_, hRewrites.lookup_of_before hStage, hRelated id stage⟩

end Touches

variable (manager : WatermarkManager)

/-- Mapping all stages is such a rewrite. -/
theorem rewrites_mapStages (f : StageId → StageState → StageState) :
    Rewrites f manager (manager.mapStages f) :=
  ⟨lookup_mapKeyed f manager.stages, keys_mapKeyed f manager.stages, rfl, rfl, rfl⟩

/-- Modifying one stage is a rewrite that leaves the others. -/
theorem rewrites_modifyStage (id : StageId) (f : StageState → StageState) :
    Rewrites (fun other stage => if other = id then f stage else stage) manager
      (manager.modifyStage id f) :=
  rewrites_mapStages manager _

theorem mem_stageIds {id : StageId} {stage : StageState}
    (h : manager.stages.lookup id = some stage) : id ∈ manager.stageIds := by
  rw [stageIds, List.mem_insertionSort]
  exact mem_keys_iff.mpr ⟨stage, h⟩

/-- A stage that cannot move any more. -/
def Settled (stage : StageState) : Prop :=
  manager.computeInput stage ≤ stage.input ∧ manager.computeOutput stage ≤ stage.output

theorem foldl_min_upstream (inputs : List PCollectionId) (bound watermark : Timestamp) :
    watermark ≤ inputs.foldl (fun current input => min current (manager.upstream input)) bound ↔
      watermark ≤ bound ∧ ∀ input ∈ inputs, watermark ≤ manager.upstream input := by
  induction inputs generalizing bound with
  | nil => simp
  | cons input rest ih =>
      rw [List.foldl_cons, ih, le_min_iff, List.forall_mem_cons, and_assoc]

/-- What lies below the upstream watermark lies below that of every input. -/
theorem le_upstreamMin_iff (inputs : List PCollectionId) (watermark : Timestamp) :
    watermark ≤ manager.upstreamMin inputs ↔
      watermark ≤ maxTimestamp ∧ ∀ input ∈ inputs, watermark ≤ manager.upstream input :=
  foldl_min_upstream manager inputs maxTimestamp watermark

/-- No input watermark exceeds the end of time. -/
theorem computeInput_le (stage : StageState) : manager.computeInput stage ≤ maxTimestamp := by
  unfold computeInput
  split
  · exact le_refl _
  · exact ((manager.le_upstreamMin_iff _ _).mp (le_refl _)).1

/-- Nor does what a source produces. -/
theorem producedWatermark_le (stage : StageState) :
    manager.producedWatermark stage ≤ maxTimestamp := by
  unfold producedWatermark
  split
  next source _ => exact source.output_le
  · exact (min_le_left _ _).trans ((manager.le_upstreamMin_iff _ _).mp (le_refl _)).1

/-- What a stage may publish is bounded by exactly these: what it has produced,
a running or queued bundle of its first run, an empty input, and its earliest
hold. -/
theorem le_computeOutput_iff (stage : StageState) (watermark : Timestamp) :
    watermark ≤ manager.computeOutput stage ↔
      watermark ≤ manager.producedWatermark stage ∧
        (stage.completed = false → 0 < stage.inFlight ∨ 0 < stage.queued →
          watermark ≤ stage.watermarkAtLastRun) ∧
        (stage.pendingEmpty ≠ ∅ → watermark ≤ minTimestamp) ∧
        ∀ hold, stage.minHold = some hold → watermark ≤ hold := by
  unfold computeOutput
  cases hHold : stage.minHold <;> by_cases hEmpty : stage.pendingEmpty = ∅ <;>
    by_cases hFirst : stage.completed = false ∧ (0 < stage.inFlight ∨ 0 < stage.queued) <;>
    simp only [hEmpty, hFirst, ne_eq, not_true_eq_false, not_false_eq_true, if_true, if_false,
      le_min_iff] <;>
    grind

/-- Nor an output watermark. -/
theorem computeOutput_le (stage : StageState) : manager.computeOutput stage ≤ maxTimestamp :=
  ((manager.le_computeOutput_iff stage _).mp (le_refl _)).1.trans
    (manager.producedWatermark_le stage)

/-- Raising a watermark does not add room above it. -/
theorem headroom_max_le (current computed : Timestamp) :
    (maxTimestamp - max current computed).toNat ≤ (maxTimestamp - current).toNat :=
  Int.toNat_le_toNat (sub_le_sub_left (le_max_left _ _) _)

/-- Raising it strictly takes room away. -/
theorem headroom_max_lt {current computed : Timestamp} (hMoved : current < computed)
    (hBound : computed ≤ maxTimestamp) :
    (maxTimestamp - max current computed).toNat < (maxTimestamp - current).toNat := by
  rw [max_eq_right hMoved.le]
  exact (Int.toNat_lt_toNat (sub_pos.mpr (hMoved.trans_le hBound))).mpr
    (sub_lt_sub_left hMoved _)

section Pass

/-- What every advance of a single stage preserves, a refresh preserves. -/
theorem refresh_induction {P : WatermarkManager → Prop}
    (hAdvance : ∀ manager id stage, manager.stages.lookup id = some stage →
      P manager → P (manager.advanceStage id stage))
    {manager : WatermarkManager} (h : P manager) : P manager.refresh := by
  have hStage : ∀ (state : (WatermarkManager × List StageId) × Bool) id,
      P state.1.1 → P (refreshStage state id).1.1 := by
    intro state id hState
    unfold refreshStage
    split
    · exact hState
    next stage hLookup =>
      split
      · exact hAdvance _ id stage hLookup hState
      · exact hState
  have hFold : ∀ (ids : List StageId) (state : (WatermarkManager × List StageId) × Bool),
      P state.1.1 → P (ids.foldl refreshStage state).1.1 := by
    intro ids
    induction ids with
    | nil => exact fun _ hState => hState
    | cons id rest ih => exact fun state hState => ih _ (hStage state id hState)
  have hPass : ∀ state : WatermarkManager × List StageId,
      P state.1 → P (refreshPass state).1.1 :=
    fun state hState => hFold _ (state, false) hState
  exact Stabilize.loop_induction
    (P := fun state : WatermarkManager × List StageId => P state.1) hPass _ h

/-- A refresh changes nothing but watermarks, and never lowers one. -/
theorem rewrites_refresh (manager : WatermarkManager) :
    ∃ input output : StageId → Timestamp,
      Rewrites (fun id stage => stage.withWatermarks (input id) (output id)) manager
        manager.refresh ∧
      ∀ id stage, manager.stages.lookup id = some stage →
        stage.input ≤ input id ∧ stage.output ≤ output id := by
  refine refresh_induction (P := fun current => ∃ input output : StageId → Timestamp,
    Rewrites (fun id stage => stage.withWatermarks (input id) (output id)) manager current ∧
      ∀ id stage, manager.stages.lookup id = some stage →
        stage.input ≤ input id ∧ stage.output ≤ output id) ?_ ?_
  · rintro current id moved hMoved ⟨input, output, hCurrent, hBounds⟩
    refine ⟨fun other => if other = id then max (input id) (current.computeInput moved) else
        input other, fun other => if other = id then
        max (output id) (current.computeOutput moved) else output other, ?_, ?_⟩
    · refine (hCurrent.trans (current.rewrites_modifyStage id _)).congr ?_
      intro other stage _
      by_cases hId : other = id
      · subst hId
        simp [StageState.withWatermarks]
      · simp [hId]
    · intro other stage hStage
      have hOld := hBounds other stage hStage
      by_cases hId : other = id
      · subst hId
        simp only [if_true]
        exact ⟨hOld.1.trans (le_max_left _ _), hOld.2.trans (le_max_left _ _)⟩
      · simpa [hId] using hOld
  · refine ⟨fun id => ((manager.stages.lookup id).map StageState.input).getD 0,
      fun id => ((manager.stages.lookup id).map StageState.output).getD 0, ?_, ?_⟩
    · refine (Rewrites.refl manager).congr ?_
      intro id stage hStage
      simp [hStage, StageState.withWatermarks]
    · intro id stage hStage
      simp [hStage]

/-- A stage is left alone, or it was unsettled and is advanced. -/
theorem refreshStage_changed (state : (WatermarkManager × List StageId) × Bool) (id : StageId) :
    refreshStage state id = state ∨
      (∃ stage, state.1.1.stages.lookup id = some stage ∧ ¬state.1.1.Settled stage ∧
        (refreshStage state id).1.1 = state.1.1.advanceStage id stage ∧
        (refreshStage state id).2 = true) := by
  unfold refreshStage
  split
  · exact Or.inl rfl
  next stage hLookup =>
    split
    next hMoved =>
      refine Or.inr ⟨stage, hLookup, ?_, rfl, rfl⟩
      rintro ⟨hInput, hOutput⟩
      exact hMoved.elim (not_lt.mpr hInput) (not_lt.mpr hOutput)
    · exact Or.inl rfl

/-- A pass that reports no change has changed nothing and found every stage settled. -/
theorem foldl_refreshStage_eq (ids : List StageId)
    (state : (WatermarkManager × List StageId) × Bool)
    (h : (ids.foldl refreshStage state).2 = false) :
    state.2 = false ∧ ids.foldl refreshStage state = state ∧
      ∀ id ∈ ids, ∀ stage, state.1.1.stages.lookup id = some stage → state.1.1.Settled stage := by
  induction ids generalizing state with
  | nil => exact ⟨h, rfl, by simp⟩
  | cons id rest ih =>
      rw [List.foldl_cons] at h ⊢
      obtain ⟨hFlag, hSame, hRest⟩ := ih _ h
      rcases refreshStage_changed state id with hEq | ⟨stage, _, _, _, hChanged⟩
      · rw [hEq] at hFlag hSame hRest ⊢
        refine ⟨hFlag, hSame, ?_⟩
        intro other hOther stage hStage
        rcases List.mem_cons.mp hOther with rfl | hOther
        · have hQuiet := hEq
          unfold refreshStage at hQuiet
          rw [hStage] at hQuiet
          by_contra hMoves
          have hMoved : stage.input < state.1.1.computeInput stage ∨
              stage.output < state.1.1.computeOutput stage := by
            rw [Settled, not_and_or, not_le, not_le] at hMoves
            exact hMoves
          simp only [hMoved, if_true] at hQuiet
          rw [← hQuiet] at hFlag
          cases hFlag
        · exact hRest other hOther stage hStage
      · rw [hChanged] at hFlag
        cases hFlag

/-- Advancing an unsettled stage takes room away. -/
theorem headroom_advanceStage_lt {manager : WatermarkManager} {id : StageId} {stage : StageState}
    (hStage : manager.stages.lookup id = some stage) (hMoves : ¬manager.Settled stage) :
    (manager.advanceStage id stage).headroom < manager.headroom := by
  have hMem : (⟨id, stage⟩ : Sigma fun _ : StageId => StageState) ∈ manager.stages.entries :=
    AList.mem_lookup_iff.mp hStage
  have hInput := manager.computeInput_le stage
  have hOutput := manager.computeOutput_le stage
  unfold headroom advanceStage modifyStage KeyedStore.modify mapKeyed
  rw [List.map_map]
  refine List.sum_lt_sum _ _ (fun entry _ => ?_) ⟨⟨id, stage⟩, hMem, ?_⟩
  · by_cases hKey : entry.1 = id
    · simp only [Function.comp_apply, hKey, if_true, StageState.withWatermarks]
      exact add_le_add (headroom_max_le _ _) (headroom_max_le _ _)
    · simp [hKey]
  · simp only [Function.comp_apply, if_true, StageState.withWatermarks]
    rw [Settled, not_and_or, not_le, not_le] at hMoves
    rcases hMoves with hMoved | hMoved
    · exact add_lt_add_of_lt_of_le (headroom_max_lt hMoved hInput) (headroom_max_le _ _)
    · exact add_lt_add_of_le_of_lt (headroom_max_le _ _) (headroom_max_lt hMoved hOutput)

/-- A pass that changes anything takes room away. -/
theorem headroom_foldl_lt (ids : List StageId) (state : (WatermarkManager × List StageId) × Bool) :
    ids.foldl refreshStage state = state ∨
      (ids.foldl refreshStage state).1.1.headroom < state.1.1.headroom := by
  induction ids generalizing state with
  | nil => exact Or.inl rfl
  | cons id rest ih =>
      rw [List.foldl_cons]
      rcases refreshStage_changed state id with hEq | ⟨stage, hStage, hMoves, hManager, _⟩
      · rw [hEq]
        exact ih state
      · have hFirst := headroom_advanceStage_lt hStage hMoves
        rw [← hManager] at hFirst
        rcases ih (refreshStage state id) with hRest | hRest
        · rw [hRest]
          exact Or.inr hFirst
        · exact Or.inr (hRest.trans hFirst)

/-- A refresh ends where no stage can move: it is a fixpoint of the
propagation. -/
theorem refresh_settled {manager : WatermarkManager} {id : StageId} {stage : StageState}
    (hStage : manager.refresh.stages.lookup id = some stage) :
    manager.refresh.Settled stage := by
  have hStable : (refreshPass (Stabilize.loop refreshPass (manager.headroom + 1)
      (manager, []))).2 = false := by
    refine Stabilize.pass_loop (fun state => state.1.headroom) ?_ ?_ (Nat.lt_succ_self _)
    · intro state hChanged
      rcases headroom_foldl_lt state.1.stageIds (state, false) with hSame | hLower
      · rw [refreshPass, hSame] at hChanged
        cases hChanged
      · exact hLower
    · intro state hQuiet
      exact congrArg Prod.fst (foldl_refreshStage_eq _ _ hQuiet).2.1
  exact (foldl_refreshStage_eq _ _ hStable).2.2 id (mem_stageIds _ hStage) stage hStage

/-- A refresh raises the output watermark of a stage no further than what bounds
it in every manager with a property that the refresh preserves. -/
theorem output_refresh_le_within {P : WatermarkManager → Prop}
    (hAdvance : ∀ current id stage, current.stages.lookup id = some stage →
      P current → P (current.advanceStage id stage))
    {manager : WatermarkManager} (hStart : P manager) {id : StageId} {stage : StageState}
    (hStage : manager.stages.lookup id = some stage) {bound : Timestamp}
    (hBound : ∀ current input output, P current →
      current.stages.lookup id = some (stage.withWatermarks input output) →
        current.computeOutput (stage.withWatermarks input output) ≤ bound) :
    ∃ input output, manager.refresh.stages.lookup id = some (stage.withWatermarks input output) ∧
      stage.output ≤ output ∧ output ≤ max stage.output bound := by
  refine (refresh_induction (P := fun current => P current ∧ ∃ input output,
    current.stages.lookup id = some (stage.withWatermarks input output) ∧
      stage.output ≤ output ∧ output ≤ max stage.output bound) ?_ ?_).2
  · rintro current other moved hMoved ⟨hHere, input, output, hCurrent, hRaised, hBelow⟩
    refine ⟨hAdvance current other moved hMoved hHere, ?_⟩
    have hAfter := (current.rewrites_modifyStage other fun stage =>
      stage.withWatermarks (max stage.input (current.computeInput moved))
        (max stage.output (current.computeOutput moved))).lookup_of_before hCurrent
    by_cases hId : id = other
    · subst hId
      rw [hCurrent] at hMoved
      cases hMoved
      rw [if_pos rfl] at hAfter
      exact ⟨_, _, hAfter, hRaised.trans (le_max_left _ _),
        max_le hBelow ((hBound _ _ _ hHere hCurrent).trans (le_max_right _ _))⟩
    · rw [if_neg hId] at hAfter
      exact ⟨input, output, hAfter, hRaised, hBelow⟩
  · exact ⟨hStart, stage.input, stage.output, hStage, le_refl _, le_max_left _ _⟩

/-- A refresh raises the output watermark of a stage no further than what bounds
it in every manager. -/
theorem output_refresh_le {manager : WatermarkManager} {id : StageId} {stage : StageState}
    (hStage : manager.stages.lookup id = some stage) {bound : Timestamp}
    (hBound : ∀ (current : WatermarkManager) input output,
      current.computeOutput (stage.withWatermarks input output) ≤ bound) :
    ∃ input output, manager.refresh.stages.lookup id = some (stage.withWatermarks input output) ∧
      stage.output ≤ output ∧ output ≤ max stage.output bound :=
  output_refresh_le_within (P := fun _ => True) (fun _ _ _ _ _ => trivial) trivial hStage
    fun current input output _ _ => hBound current input output

end Pass

end WatermarkManager

end FlareDB
