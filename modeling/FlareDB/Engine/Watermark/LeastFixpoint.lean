import FlareDB.Engine.Watermark.Refresh

/-! A refresh computes the least fixpoint of the propagation above the watermarks
it starts from. The stages may be visited in any order, a different one in every
pass, over any graph. -/
namespace FlareDB

open KeyedStore

namespace WatermarkManager

/-- One manager is another with its watermarks raised and nothing else changed. -/
def Raises (before after : WatermarkManager) : Prop :=
  ∃ input output : StageId → Timestamp,
    Rewrites (fun id stage => stage.withWatermarks (input id) (output id)) before after ∧
      ∀ id stage, before.stages.lookup id = some stage →
        stage.input ≤ input id ∧ stage.output ≤ output id

/-- No stage can move any more. -/
def Stable (manager : WatermarkManager) : Prop :=
  ∀ id stage, manager.stages.lookup id = some stage → manager.Settled stage

/-- A stage whose input or output watermark differs between two managers. -/
def Moved (before after : WatermarkManager) (id : StageId) : Prop :=
  ∃ old new, before.stages.lookup id = some old ∧ after.stages.lookup id = some new ∧
    (old.input ≠ new.input ∨ old.output ≠ new.output)

/-- One manager is the least fixpoint of the propagation above another. -/
structure LeastFixpoint (start result : WatermarkManager) : Prop where
  raises : Raises start result
  stable : result.Stable
  least : ∀ upper, Raises start upper → upper.Stable → Raises result upper

/-- A refresh pass over the stages in an order of its own. -/
def passInOrder (order : WatermarkManager → List StageId) (state : WatermarkManager × List StageId) :
    (WatermarkManager × List StageId) × Bool :=
  (order state.1).foldl refreshStage (state, false)

/-- At most `fuel` passes of a refresh. -/
def passes (order : WatermarkManager → List StageId) (fuel : Nat) (manager : WatermarkManager) :
    WatermarkManager × List StageId :=
  Stabilize.loop (passInOrder order) fuel (manager, [])

/-- A refresh whose passes visit the stages in an order of their own. -/
def refreshInOrder (order : WatermarkManager → List StageId) (manager : WatermarkManager) :
    WatermarkManager × List StageId :=
  let settled := passes order (manager.headroom + 1) manager
  (settled.1, settled.2.insertionSort (· ≤ ·))

section Raises

variable {before middle after : WatermarkManager}

theorem Raises.refl (manager : WatermarkManager) : Raises manager manager := by
  refine ⟨fun id => ((manager.stages.lookup id).map StageState.input).getD 0,
    fun id => ((manager.stages.lookup id).map StageState.output).getD 0, ?_, ?_⟩
  · refine (Rewrites.refl manager).congr ?_
    intro id stage hStage
    simp [hStage, StageState.withWatermarks]
  · intro id stage hStage
    simp [hStage]

/-- Raising watermarks composes. -/
theorem Raises.trans (first : Raises before middle) (second : Raises middle after) :
    Raises before after := by
  obtain ⟨input, output, hFirst, hOld⟩ := first
  obtain ⟨newInput, newOutput, hSecond, hNew⟩ := second
  refine ⟨newInput, newOutput, (hFirst.trans hSecond).congr fun _ _ _ => rfl, ?_⟩
  intro id stage hStage
  obtain ⟨hInput, hOutput⟩ := hOld id stage hStage
  obtain ⟨hRaisedInput, hRaisedOutput⟩ := hNew id _ (hFirst.lookup_of_before hStage)
  exact ⟨hInput.trans hRaisedInput, hOutput.trans hRaisedOutput⟩

/-- Every stage is there afterwards, with watermarks no lower. -/
theorem Raises.exists_after (h : Raises before after) {id : StageId} {stage : StageState}
    (hStage : before.stages.lookup id = some stage) :
    ∃ input output, after.stages.lookup id = some (stage.withWatermarks input output) ∧
      stage.input ≤ input ∧ stage.output ≤ output := by
  obtain ⟨input, output, hRewrites, hRaised⟩ := h
  exact ⟨input id, output id, hRewrites.lookup_of_before hStage, hRaised id stage hStage⟩

/-- Every stage was there before, with watermarks no higher. -/
theorem Raises.exists_before (h : Raises before after) {id : StageId} {stage : StageState}
    (hStage : after.stages.lookup id = some stage) :
    ∃ old, before.stages.lookup id = some old ∧ old.input ≤ stage.input ∧
      old.output ≤ stage.output := by
  obtain ⟨input, output, hRewrites, hRaised⟩ := h
  obtain ⟨old, hOld, rfl⟩ := hRewrites.exists_before hStage
  exact ⟨old, hOld, hRaised id old hOld⟩

/-- Two managers that raise each other are the same. -/
theorem Raises.antisymm (h : Raises before after) (hBack : Raises after before) :
    before = after := by
  obtain ⟨input, output, hRewrites, hRaised⟩ := h
  have hLookup : ∀ id, before.stages.lookup id = after.stages.lookup id := by
    intro id
    cases hStage : before.stages.lookup id with
    | none => rw [hRewrites.lookup, hStage]; rfl
    | some stage =>
        have hAfter := hRewrites.lookup_of_before hStage
        obtain ⟨hInput, hOutput⟩ := hRaised id stage hStage
        obtain ⟨backInput, backOutput, hBefore, hBackInput, hBackOutput⟩ :=
          hBack.exists_after hAfter
        rw [hStage] at hBefore
        have hSame := Option.some.inj hBefore
        have hSameInput : stage.input = backInput := congrArg StageState.input hSame
        have hSameOutput : stage.output = backOutput := congrArg StageState.output hSame
        rw [← hSameInput] at hBackInput
        rw [← hSameOutput] at hBackOutput
        have hEqInput : input id = stage.input := le_antisymm hBackInput hInput
        have hEqOutput : output id = stage.output := le_antisymm hBackOutput hOutput
        rw [hAfter, hEqInput, hEqOutput]
        rfl
  have hStages : before.stages = after.stages :=
    ext_of_lookup hRewrites.keys.symm hLookup
  obtain ⟨stages, producers, consumers, sideInputConsumers⟩ := before
  obtain ⟨_, _, _, _⟩ := after
  cases hStages
  cases hRewrites.producers
  cases hRewrites.consumers
  cases hRewrites.sideInputConsumers
  rfl

end Raises

section Monotone

variable {lower upper : WatermarkManager} (hRaises : Raises lower upper)
include hRaises

/-- Higher outputs give higher upstream watermarks. -/
theorem Raises.upstream_le (pcollection : PCollectionId) :
    lower.upstream pcollection ≤ upper.upstream pcollection := by
  obtain ⟨input, output, hRewrites, hRaised⟩ := hRaises
  unfold upstream producerOf
  rw [hRewrites.producers]
  cases lower.producers.lookup pcollection with
  | none => exact le_refl _
  | some id =>
      simp only [Option.bind_some]
      rw [hRewrites.lookup]
      cases hStage : lower.stages.lookup id with
      | none => exact le_refl _
      | some stage => exact (hRaised id stage hStage).2

/-- So does their minimum over some inputs. -/
theorem Raises.upstreamMin_le (inputs : List PCollectionId) :
    lower.upstreamMin inputs ≤ upper.upstreamMin inputs := by
  obtain ⟨hMax, hInputs⟩ := (lower.le_upstreamMin_iff inputs _).mp (le_refl _)
  refine (upper.le_upstreamMin_iff inputs _).mpr ⟨hMax, fun input hInput => ?_⟩
  exact (hInputs input hInput).trans (hRaises.upstream_le input)

/-- What a stage may rise to depends monotonically on the other watermarks and
not at all on its own. -/
theorem Raises.computeInput_le (stage : StageState) (input output : Timestamp) :
    lower.computeInput stage ≤ upper.computeInput (stage.withWatermarks input output) := by
  unfold computeInput
  rw [show (stage.withWatermarks input output).isSource = stage.isSource from rfl]
  split
  · exact le_refl _
  · exact hRaises.upstreamMin_le stage.inputs

/-- What a stage may publish rises with what is above it. -/
theorem Raises.computeOutput_le (stage : StageState) (input output : Timestamp) :
    lower.computeOutput stage ≤ upper.computeOutput (stage.withWatermarks input output) := by
  obtain ⟨hProduced, hBundle, hEmpty, hHold⟩ :=
    (lower.le_computeOutput_iff stage _).mp (le_refl _)
  refine (upper.le_computeOutput_iff _ _).mpr ⟨hProduced.trans ?_, hBundle, hEmpty, hHold⟩
  show lower.producedWatermark stage ≤ upper.producedWatermark stage
  unfold producedWatermark
  cases stage.source with
  | some source => exact le_refl _
  | none => exact min_le_min_right _ (hRaises.upstreamMin_le stage.mainInputs)

end Monotone

section Advance

variable {manager : WatermarkManager} {id : StageId} {stage : StageState}
  (hStage : manager.stages.lookup id = some stage)
include hStage

/-- Advancing a stage moves its own watermarks and no others. -/
theorem lookup_advanceStage (other : StageId) :
    (manager.advanceStage id stage).stages.lookup other =
      if other = id then
        some (stage.withWatermarks (max stage.input (manager.computeInput stage))
          (max stage.output (manager.computeOutput stage)))
      else manager.stages.lookup other := by
  have hAdvanced := (manager.rewrites_modifyStage id fun current =>
    current.withWatermarks (max current.input (manager.computeInput stage))
      (max current.output (manager.computeOutput stage))).lookup other
  refine hAdvanced.trans ?_
  by_cases hId : other = id
  · subst hId
    simp [hStage]
  · simp [hId]

omit hStage in
/-- They only rise. -/
theorem raises_advanceStage : Raises manager (manager.advanceStage id stage) := by
  refine ⟨fun other => ((manager.stages.lookup other).elim 0 fun current =>
      if other = id then max current.input (manager.computeInput stage) else current.input),
    fun other => ((manager.stages.lookup other).elim 0 fun current =>
      if other = id then max current.output (manager.computeOutput stage) else current.output),
    (manager.rewrites_modifyStage id _).congr ?_, ?_⟩
  · intro other current hCurrent
    by_cases hId : other = id <;> simp [hId, hCurrent, StageState.withWatermarks]
  · intro other current hCurrent
    by_cases hId : other = id <;> simp [hId, hCurrent]

/-- An advance stays below every fixpoint above it. -/
theorem Raises.advanceStage {upper : WatermarkManager} (hRaises : Raises manager upper)
    (hStable : upper.Stable) : Raises (manager.advanceStage id stage) upper := by
  have hRewritesBack := hRaises
  obtain ⟨input, output, hRewrites, hRaised⟩ := hRaises
  have hAdvanced := manager.rewrites_modifyStage id fun current =>
    current.withWatermarks (max current.input (manager.computeInput stage))
      (max current.output (manager.computeOutput stage))
  refine ⟨input, output, ⟨fun other => ?_, hRewrites.keys.trans hAdvanced.keys.symm,
    hRewrites.producers.trans hAdvanced.producers.symm,
    hRewrites.consumers.trans hAdvanced.consumers.symm,
    hRewrites.sideInputConsumers.trans hAdvanced.sideInputConsumers.symm⟩, ?_⟩
  · rw [hRewrites.lookup, lookup_advanceStage hStage]
    by_cases hId : other = id
    · subst hId
      simp [hStage, StageState.withWatermarks]
    · simp [hId]
  · intro other current hCurrent
    rw [lookup_advanceStage hStage] at hCurrent
    by_cases hId : other = id
    · subst hId
      rw [if_pos rfl] at hCurrent
      cases hCurrent
      obtain ⟨hInput, hOutput⟩ := hRaised other stage hStage
      obtain ⟨hStableInput, hStableOutput⟩ :=
        hStable other _ (hRewrites.lookup_of_before hStage)
      exact ⟨max_le hInput ((hRewritesBack.computeInput_le stage _ _).trans hStableInput),
        max_le hOutput ((hRewritesBack.computeOutput_le stage _ _).trans hStableOutput)⟩
    · rw [if_neg hId] at hCurrent
      exact hRaised other current hCurrent

end Advance

section Passes

variable {order : WatermarkManager → List StageId}

/-- What every advance of a stage that can move preserves, the passes preserve. -/
theorem passes_induction {P : WatermarkManager × List StageId → Prop}
    (hAdvance : ∀ manager moved id stage, manager.stages.lookup id = some stage →
      ¬manager.Settled stage → P (manager, moved) →
        P (manager.advanceStage id stage, moved.insert id))
    (fuel : Nat) {manager : WatermarkManager} (h : P (manager, [])) :
    P (passes order fuel manager) := by
  have hFold : ∀ (ids : List StageId) (state : (WatermarkManager × List StageId) × Bool),
      P state.1 → P (ids.foldl refreshStage state).1 := by
    intro ids
    induction ids with
    | nil => exact fun _ hState => hState
    | cons id rest ih =>
        intro state hState
        refine ih _ ?_
        unfold refreshStage
        split
        · exact hState
        next stage hLookup =>
          split
          next hMoves =>
            refine hAdvance _ _ id stage hLookup (fun hSettled => ?_) hState
            exact hMoves.elim hSettled.1.not_gt hSettled.2.not_gt
          · exact hState
  exact Stabilize.loop_induction (fun state hState => hFold _ (state, false) hState) fuel h

/-- The passes only raise watermarks, and they note exactly the stages that
moved. -/
theorem raises_passes (order : WatermarkManager → List StageId) (manager : WatermarkManager)
    (fuel : Nat) :
    Raises manager (passes order fuel manager).1 ∧ (passes order fuel manager).2.Nodup ∧
      ∀ id, id ∈ (passes order fuel manager).2 ↔
        Moved manager (passes order fuel manager).1 id := by
  have hStart : ∀ id, id ∈ ([] : List StageId) ↔ Moved manager manager id := by
    refine fun id => ⟨fun hNone => absurd hNone List.not_mem_nil, ?_⟩
    rintro ⟨old, new, hOld, hNew, hDiffer⟩
    rw [hOld] at hNew
    cases hNew
    simp at hDiffer
  refine passes_induction (P := fun state => Raises manager state.1 ∧ state.2.Nodup ∧
    ∀ id, id ∈ state.2 ↔ Moved manager state.1 id) ?_ fuel
    ⟨Raises.refl manager, List.nodup_nil, hStart⟩
  rintro current moved id stage hStage hMoves ⟨hRaises, hNodup, hMoved⟩
  refine ⟨hRaises.trans raises_advanceStage, hNodup.insert, fun other => ?_⟩
  rw [List.mem_insert_iff, hMoved other]
  by_cases hId : other = id
  · subst hId
    obtain ⟨old, hOld, hInput, hOutput⟩ := hRaises.exists_before hStage
    refine iff_of_true (Or.inl rfl) ⟨old, _, hOld, by rw [lookup_advanceStage hStage, if_pos rfl], ?_⟩
    rw [Settled, not_and_or, not_le, not_le] at hMoves
    refine hMoves.imp (fun hMove => ne_of_lt ?_) fun hMove => ne_of_lt ?_
    · exact lt_of_le_of_lt hInput (lt_max_of_lt_right hMove)
    · exact lt_of_le_of_lt hOutput (lt_max_of_lt_right hMove)
  · unfold Moved
    rw [lookup_advanceStage hStage, if_neg hId]
    simp [hId]

/-- The passes stay below every fixpoint above their start. -/
theorem passes_le {manager upper : WatermarkManager} (hRaises : Raises manager upper)
    (hStable : upper.Stable) (fuel : Nat) : Raises (passes order fuel manager).1 upper :=
  passes_induction (P := fun state => Raises state.1 upper)
    (fun _ _ _ _ hStage _ hBelow => hBelow.advanceStage hStage hStable) fuel hRaises

section Order

variable (hOrder : ∀ manager, (order manager).Perm manager.stages.keys)

/-- A pass that moves a stage lowers the headroom. -/
theorem headroom_passInOrder {state : WatermarkManager × List StageId}
    (hChanged : (passInOrder order state).2 = true) :
    (passInOrder order state).1.1.headroom < state.1.headroom := by
  rcases headroom_foldl_lt (order state.1) (state, false) with hSame | hLower
  · rw [passInOrder, hSame] at hChanged
    cases hChanged
  · exact hLower

/-- A pass that reports no change has changed nothing. -/
theorem passInOrder_quiet {state : WatermarkManager × List StageId}
    (hQuiet : (passInOrder order state).2 = false) : (passInOrder order state).1 = state :=
  congrArg Prod.fst (foldl_refreshStage_eq _ _ hQuiet).2.1

/-- Passes allowed beyond the headroom are not taken: the loop ends by itself. -/
theorem passes_eq {manager : WatermarkManager} {fuel : Nat} (hFuel : manager.headroom < fuel) :
    passes order fuel manager = passes order (manager.headroom + 1) manager :=
  Stabilize.loop_eq (fun state => state.1.headroom) (fun _ => headroom_passInOrder)
    (Nat.lt_succ_self _) hFuel

include hOrder

/-- A refresh ends where nothing moves any more. -/
theorem stable_refreshInOrder (manager : WatermarkManager) :
    (manager.refreshInOrder order).1.Stable := by
  have hQuiet : (passInOrder order (passes order (manager.headroom + 1) manager)).2 = false :=
    Stabilize.pass_loop (fun state => state.1.headroom) (fun _ => headroom_passInOrder)
      (fun _ => passInOrder_quiet) (Nat.lt_succ_self _)
  intro id stage hStage
  have hVisited : id ∈ order (manager.refreshInOrder order).1 :=
    (hOrder _).mem_iff.mpr (mem_keys_iff.mpr ⟨stage, hStage⟩)
  exact (foldl_refreshStage_eq _ _ hQuiet).2.2 id hVisited stage hStage

/-- Whatever the order, it ends at the least such point. -/
theorem leastFixpoint_refreshInOrder (manager : WatermarkManager) :
    LeastFixpoint manager (manager.refreshInOrder order).1 where
  raises := (raises_passes order manager _).1
  stable := stable_refreshInOrder hOrder manager
  least _ hRaises hStable := passes_le hRaises hStable _

end Order

end Passes

/-- There is one least fixpoint above a start. -/
theorem LeastFixpoint.unique {start first second : WatermarkManager}
    (hFirst : LeastFixpoint start first) (hSecond : LeastFixpoint start second) : first = second :=
  (hFirst.least second hSecond.raises hSecond.stable).antisymm
    (hSecond.least first hFirst.raises hFirst.stable)

theorem perm_stageIds (manager : WatermarkManager) :
    manager.stageIds.Perm manager.stages.keys :=
  List.perm_insertionSort _ _

/-- The order in which the stages are visited changes neither the watermarks nor
the list of stages that moved. -/
theorem refreshInOrder_eq {order : WatermarkManager → List StageId}
    (hOrder : ∀ manager, (order manager).Perm manager.stages.keys) (manager : WatermarkManager) :
    manager.refreshInOrder order = manager.refreshAdvanced := by
  have hManager : (manager.refreshInOrder order).1 = (manager.refreshInOrder stageIds).1 :=
    (leastFixpoint_refreshInOrder hOrder manager).unique
      (leastFixpoint_refreshInOrder perm_stageIds manager)
  obtain ⟨_, hNodup, hMoved⟩ := raises_passes order manager (manager.headroom + 1)
  obtain ⟨_, hSortedNodup, hSortedMoved⟩ :=
    raises_passes stageIds manager (manager.headroom + 1)
  have hPerm : (passes order (manager.headroom + 1) manager).2.Perm
      (passes stageIds (manager.headroom + 1) manager).2 := by
    refine (List.perm_ext_iff_of_nodup hNodup hSortedNodup).mpr fun id => ?_
    rw [hMoved, hSortedMoved]
    exact iff_of_eq (congrArg (Moved manager · id) hManager)
  refine Prod.ext hManager (List.Perm.eq_of_sortedLE ?_ ?_ ?_)
  · exact List.sortedLE_insertionSort
  · exact List.sortedLE_insertionSort
  · exact (List.perm_insertionSort _ _).trans (hPerm.trans (List.perm_insertionSort _ _).symm)

/-- A refresh of a fixpoint moves nothing. -/
theorem refreshAdvanced_of_stable {manager : WatermarkManager} (hStable : manager.Stable) :
    manager.refreshAdvanced = (manager, []) := by
  have hSame : manager.refresh = manager :=
    (leastFixpoint_refreshInOrder perm_stageIds manager).unique
      ⟨Raises.refl manager, hStable, fun _ hRaises _ => hRaises⟩
  obtain ⟨_, _, hMoved⟩ := raises_passes stageIds manager (manager.headroom + 1)
  have hNone : (passes stageIds (manager.headroom + 1) manager).2 = [] := by
    refine List.eq_nil_iff_forall_not_mem.mpr fun id hId => ?_
    obtain ⟨old, new, hOld, hNew, hDiffer⟩ := (hMoved id).mp hId
    rw [show (passes stageIds (manager.headroom + 1) manager).1 = manager from hSame, hOld] at hNew
    cases hNew
    simp at hDiffer
  refine Prod.ext hSame ?_
  show (passes stageIds (manager.headroom + 1) manager).2.insertionSort _ = []
  rw [hNone]
  rfl

/-- A refresh over the stages in any order ends, in the least fixpoint above the
watermarks it starts from. It reports exactly the stages that moved, sorted, and
refreshing again moves nothing. -/
theorem refreshInOrder_least (manager : WatermarkManager)
    (order : WatermarkManager → List StageId)
    (hOrder : ∀ current, (order current).Perm current.stages.keys) :
    (∀ fuel, manager.headroom < fuel →
      passes order fuel manager = passes order (manager.headroom + 1) manager) ∧
    LeastFixpoint manager (manager.refreshInOrder order).1 ∧
    manager.refreshInOrder order = manager.refreshAdvanced ∧
    (∀ id, id ∈ (manager.refreshInOrder order).2 ↔
      Moved manager (manager.refreshInOrder order).1 id) ∧
    (manager.refreshInOrder order).2.Pairwise (· < ·) ∧
    (manager.refreshInOrder order).1.refreshAdvanced = ((manager.refreshInOrder order).1, []) := by
  obtain ⟨_, hNodup, hMoved⟩ := raises_passes order manager (manager.headroom + 1)
  refine ⟨fun fuel hFuel => passes_eq hFuel, leastFixpoint_refreshInOrder hOrder manager,
    refreshInOrder_eq hOrder manager, fun id => ?_, ?_,
    refreshAdvanced_of_stable (stable_refreshInOrder hOrder manager)⟩
  · exact (List.mem_insertionSort _).trans (hMoved id)
  · have hSorted : (manager.refreshInOrder order).2.SortedLE := List.sortedLE_insertionSort
    have hDistinct : (manager.refreshInOrder order).2.Nodup :=
      (List.perm_insertionSort _ _).nodup_iff.mpr hNodup
    exact (hSorted.pairwise.and hDistinct).imp fun h => lt_of_le_of_ne h.1 h.2

/-- A finished source, and a stage that reads it and its own output. -/
def feedbackLoop : WatermarkManager :=
  ((new.addStage "read" [] [] ["lines"]).addStage "loop" ["lines", "back"] [] ["back"]).mapStages
    fun _ stage => { stage with
      source := stage.source.map fun source => { source with finished := true } }

/-- Over a cyclic graph, visited backwards, the stage in the loop stays where it
is and only the source moves. -/
theorem refreshInOrder_least_feedbackLoop :
    LeastFixpoint feedbackLoop
        (feedbackLoop.refreshInOrder fun current => current.stages.keys.reverse).1 ∧
      (feedbackLoop.refreshInOrder fun current => current.stages.keys.reverse).2.Pairwise (· < ·) ∧
      Moved feedbackLoop
        (feedbackLoop.refreshInOrder fun current => current.stages.keys.reverse).1 "read" := by
  obtain ⟨_, hLeast, _, hMoved, hSorted, _⟩ := refreshInOrder_least feedbackLoop
    (fun current => current.stages.keys.reverse) fun _ => List.reverse_perm _
  exact ⟨hLeast, hSorted, (hMoved "read").mp (by decide +kernel)⟩

end WatermarkManager

end FlareDB
