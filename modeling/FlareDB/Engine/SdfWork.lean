import FlareDB.Engine.Dispatcher

/-! The deferred work of a splittable stage: the items a bundle response or a
split hands back, and the output watermarks each of them holds. -/
namespace FlareDB

open KeyedStore

/-- A protobuf timestamp. -/
structure BeamTimestamp where
  seconds : Int
  nanos : Int

/-- An integer kept within the 64-bit range. -/
def saturate (value : Int) : Int :=
  max (-2 ^ 63) (min (2 ^ 63 - 1) value)

def BeamTimestamp.toMillis (timestamp : BeamTimestamp) : Timestamp :=
  saturate (saturate (timestamp.seconds * 1000) + timestamp.nanos.tdiv 1000000)

/-- A residual root: the element to feed again and the output watermarks reported
for it, by local output name. -/
structure BundleApplication where
  transformId : String
  element : List UInt8
  outputWatermarks : Store String BeamTimestamp

/-- What the split logic reads of a splittable stage: its boundary outputs, and
the outputs of each transform of its process stage by local name. -/
structure SplittableStage where
  outputPcols : List PCollectionId
  outputsByTransform : Store String (Store String PCollectionId)

/-- The set of outputs that leave the stage. -/
def SplittableStage.boundary (stage : SplittableStage) : List PCollectionId :=
  stage.outputPcols.dedup

/-- One reported watermark folded into the minimum of its boundary output. -/
def reportWatermark (outputs : Store String PCollectionId) (boundary : List PCollectionId)
    (reported : Store PCollectionId Timestamp) (localName : String) (watermark : BeamTimestamp) :
    Store PCollectionId Timestamp :=
  match outputs.lookup localName with
  | none => reported
  | some pcollection =>
      if pcollection ∈ boundary then
        let hold := watermark.toMillis
        reported.insert pcollection
          ((reported.lookup pcollection).elim hold fun current => min current hold)
      else reported

/-- The holds of a residual root: one for each boundary output, at the watermark
reported for it or at the minimum. A root of an unknown transform holds nothing. -/
def residualItemHolds (stage : SplittableStage) (application : BundleApplication) :
    List Timestamp :=
  match stage.outputsByTransform.lookup application.transformId with
  | none => []
  | some outputs =>
      let reported := application.outputWatermarks.entries.foldl
        (fun reported entry => reportWatermark outputs stage.boundary reported entry.1 entry.2) ∅
      stage.boundary.map fun pcollection => (reported.lookup pcollection).getD minTimestamp

/-- The items of the residual roots of a response. A root without an application
or with an empty element is dropped. -/
def residualItems (stage : SplittableStage) (residuals : List (Option BundleApplication)) :
    List SdfWorkItem :=
  ((residuals.filterMap id).filter fun application => !application.element.isEmpty).map
    fun application =>
      { seed := application.element, holds := residualItemHolds stage application }

/-- The bytes of one input element and its event time. -/
structure SdfInputSpan where
  start : Nat
  stop : Nat
  timestampMillis : Timestamp

/-- A signed index read as an unsigned one. -/
def asUsize (value : Int) : Nat :=
  (value % 2 ^ 64).toNat

/-- The end of the elements a channel split can still hand back. -/
def handBackLimit (spans : List SdfInputSpan) (handedBackFrom : Option Int) : Nat :=
  (handedBackFrom.map asUsize).getD spans.length

/-- The holds of whole elements handed back: one for each boundary output at the
earliest event time. A hold at or below the minimum is omitted, so that work in
the global window is not stalled. -/
def channelItemHolds (stage : SplittableStage) (timestamps : List Timestamp) : List Timestamp :=
  if stage.boundary.isEmpty then []
  else match timestamps.min? with
    | none => []
    | some earliest =>
        if earliest ≤ minTimestamp then [] else stage.boundary.map fun _ => earliest

/-- Where a work item comes from. -/
inductive SdfOrigin where
  | residualRoot (application : BundleApplication)
  | channelSplit (timestamps : List Timestamp)

def SdfOrigin.holds (stage : SplittableStage) : SdfOrigin → List Timestamp
  | .residualRoot application => residualItemHolds stage application
  | .channelSplit timestamps => channelItemHolds stage timestamps

/-- A lower bound on what a work item will still output. For a root of a known
transform: what is reported for a boundary output, or the minimum when nothing
is. For whole elements: their earliest event time. -/
def SdfOrigin.LowerBound (stage : SplittableStage) (bound : Timestamp) : SdfOrigin → Prop
  | .residualRoot application => ∃ outputs,
      stage.outputsByTransform.lookup application.transformId = some outputs ∧
      ∃ pcollection ∈ stage.outputPcols,
        (∃ entry ∈ application.outputWatermarks.entries,
          outputs.lookup entry.1 = some pcollection ∧ bound = entry.2.toMillis) ∨
        ((∀ entry ∈ application.outputWatermarks.entries,
          outputs.lookup entry.1 ≠ some pcollection) ∧ bound = minTimestamp)
  | .channelSplit timestamps => timestamps.min? = some bound

/-- Whole elements hold nothing at the minimum, nor in a stage without boundary
outputs. -/
def SdfOrigin.HeldBound (stage : SplittableStage) (bound : Timestamp) (origin : SdfOrigin) :
    Prop :=
  origin.LowerBound stage bound ∧ match origin with
    | .residualRoot _ => True
    | .channelSplit _ => stage.outputPcols ≠ [] ∧ minTimestamp < bound

section Holds

variable {stage : SplittableStage} {outputs : Store String PCollectionId}
  {boundary : List PCollectionId} {pcollection : PCollectionId}

theorem lookup_reportWatermark (hBoundary : pcollection ∈ boundary)
    (reported : Store PCollectionId Timestamp) (localName : String) (watermark : BeamTimestamp) :
    (reportWatermark outputs boundary reported localName watermark).lookup pcollection =
      if outputs.lookup localName = some pcollection then
        some ((reported.lookup pcollection).elim watermark.toMillis fun current =>
          min current watermark.toMillis)
      else reported.lookup pcollection := by
  unfold reportWatermark
  cases hOutput : outputs.lookup localName with
  | none => simp
  | some other =>
      by_cases hSame : other = pcollection
      · subst hSame
        simp [hBoundary]
      · have hNe : pcollection ≠ other := fun h => hSame h.symm
        simp only [Option.some.injEq, hSame, if_false]
        split
        · rw [AList.lookup_insert_ne hNe]
        · rfl

/-- A boundary output nothing is reported for keeps no entry. -/
theorem lookup_foldl_unreported (hBoundary : pcollection ∈ boundary)
    {entries : List (Sigma fun _ : String => BeamTimestamp)}
    (hUnreported : ∀ entry ∈ entries, outputs.lookup entry.1 ≠ some pcollection)
    (reported : Store PCollectionId Timestamp) :
    (entries.foldl (fun reported entry =>
      reportWatermark outputs boundary reported entry.1 entry.2) reported).lookup pcollection =
        reported.lookup pcollection := by
  induction entries generalizing reported with
  | nil => rfl
  | cons entry rest ih =>
      obtain ⟨hFirst, hRest⟩ := List.forall_mem_cons.mp hUnreported
      rw [List.foldl_cons, ih hRest, lookup_reportWatermark hBoundary, if_neg hFirst]

/-- What is folded in stays below every watermark it was below, and below every
watermark reported. -/
theorem lookup_foldl_le (hBoundary : pcollection ∈ boundary) {bound : Timestamp}
    (entries : List (Sigma fun _ : String => BeamTimestamp))
    (reported : Store PCollectionId Timestamp)
    (h : (∃ hold, reported.lookup pcollection = some hold ∧ hold ≤ bound) ∨
      ∃ entry ∈ entries, outputs.lookup entry.1 = some pcollection ∧
        bound = entry.2.toMillis) :
    ∃ hold, (entries.foldl (fun reported entry =>
      reportWatermark outputs boundary reported entry.1 entry.2) reported).lookup pcollection =
        some hold ∧ hold ≤ bound := by
  induction entries generalizing reported with
  | nil =>
      rcases h with h | ⟨_, hNone, _⟩
      · exact h
      · cases hNone
  | cons entry rest ih =>
      rw [List.foldl_cons]
      apply ih
      rw [lookup_reportWatermark hBoundary]
      rcases h with ⟨hold, hHold, hLe⟩ | ⟨found, hFound, hOutput, rfl⟩
      · left
        rw [hHold]
        split
        · exact ⟨_, rfl, (min_le_left _ _).trans hLe⟩
        · exact ⟨hold, rfl, hLe⟩
      · rcases List.mem_cons.mp hFound with rfl | hLater
        · left
          rw [if_pos hOutput]
          refine ⟨_, rfl, ?_⟩
          cases reported.lookup pcollection with
          | none => exact le_refl _
          | some current => exact min_le_right _ _
        · exact .inr ⟨found, hLater, hOutput, rfl⟩

/-- Every bound a work item is held at has a hold at or below it. -/
theorem exists_hold_le {origin : SdfOrigin} {bound : Timestamp}
    (h : origin.HeldBound stage bound) : ∃ hold ∈ origin.holds stage, hold ≤ bound := by
  obtain ⟨hBound, hHeld⟩ := h
  cases origin with
  | residualRoot application =>
      obtain ⟨outputs, hOutputs, pcollection, hPcollection, hReported⟩ := hBound
      have hBoundary : pcollection ∈ stage.boundary := List.mem_dedup.mpr hPcollection
      simp only [SdfOrigin.holds, residualItemHolds, hOutputs]
      refine ⟨_, List.mem_map_of_mem hBoundary, ?_⟩
      rcases hReported with hReported | ⟨hUnreported, rfl⟩
      · obtain ⟨hold, hLookup, hLe⟩ := lookup_foldl_le hBoundary
          application.outputWatermarks.entries ∅ (.inr hReported)
        rwa [hLookup]
      · rw [lookup_foldl_unreported hBoundary hUnreported, AList.lookup_empty]
        exact le_refl _
  | channelSplit timestamps =>
      have hEarliest : timestamps.min? = some bound := hBound
      obtain ⟨pcollection, hPcollection⟩ := List.exists_mem_of_ne_nil _ hHeld.1
      have hBoundary : pcollection ∈ stage.boundary := List.mem_dedup.mpr hPcollection
      have hNonempty : stage.boundary.isEmpty = false :=
        List.isEmpty_eq_false_iff.mpr (List.ne_nil_of_mem hBoundary)
      have hAbove : ¬bound ≤ minTimestamp := not_le.mpr hHeld.2
      refine ⟨bound, ?_, le_refl _⟩
      simp only [SdfOrigin.holds, channelItemHolds, hNonempty, hEarliest, hAbove]
      exact List.mem_map.mpr ⟨pcollection, hBoundary, rfl⟩

/-- Every item of a response comes from one of its residual roots. -/
theorem residualItems_origin {residuals : List (Option BundleApplication)} {item : SdfWorkItem}
    (h : item ∈ residualItems stage residuals) :
    ∃ application, some application ∈ residuals ∧
      item.holds = (SdfOrigin.residualRoot application).holds stage := by
  obtain ⟨application, hKept, rfl⟩ := List.mem_map.mp h
  obtain ⟨root, hRoot, hSome⟩ := List.mem_filterMap.mp (List.mem_filter.mp hKept).1
  exact ⟨application, hSome ▸ hRoot, rfl⟩

end Holds

end FlareDB
