import FlareDB.Store.ElementStore
import FlareDB.Transforms.Gbk

/-! Lateness pruning of a grouping's input. A row is left out of the incremental
read by its latest window end; a group is dropped by its own window. The two
boundaries are one millisecond apart. -/
namespace FlareDB

open FlareElementStore

/-- Signed subtraction that stops at the bounds of the type. -/
def saturatingSub (a b : Int64) : Int64 :=
  Int64.ofInt (max (-2 ^ 63) (min (2 ^ 63 - 1) (a.toInt - b.toInt)))

def windowPruneCutoff (previousWatermark : Option Int64) (allowedLateness : Int64)
    (needsMerge isGlobalWindow inputIsBounded : Bool) : Option Int64 :=
  if needsMerge || isGlobalWindow || inputIsBounded then none
  else previousWatermark.map fun watermark => saturatingSub watermark allowedLateness

/-- A window the runner cannot interpret. -/
def BeamWindow.isOpaque : BeamWindow → Bool
  | .opaqueWindow _ _ => true
  | _ => false

def BeamWindow.isInterval : BeamWindow → Bool
  | .interval _ _ => true
  | _ => false

/-- None of the row's windows is opaque, and the last instant of the latest one
is `edge`. -/
def LatestWindowEndsAt (row : WindowedValue) (edge : Int64) : Prop :=
  (∀ window ∈ row.windows, window.isOpaque = false ∧ window.maxTimestampMillis ≤ edge) ∧
    ∃ window ∈ row.windows, window.maxTimestampMillis = edge

section Boundary

theorem toInt_saturatingSub (a b : Int64) :
    (saturatingSub a b).toInt = max (-2 ^ 63) (min (2 ^ 63 - 1) (a.toInt - b.toInt)) :=
  Int64.toInt_ofInt_of_le (by omega) (by omega)

theorem toInt_saturatingAdd (a b : Int64) :
    (saturatingAdd a b).toInt = max (-2 ^ 63) (min (2 ^ 63 - 1) (a.toInt + b.toInt)) :=
  Int64.toInt_ofInt_of_le (by omega) (by omega)

theorem toInt_max (a b : Int64) : (max a b).toInt = max a.toInt b.toInt := by
  show (if a ≤ b then b else a).toInt = _
  split
  next h => rw [Int64.le_iff_toInt_le] at h; omega
  next h => rw [Int64.le_iff_toInt_le] at h; omega

/-- A non-negative lateness moves the expiry of a window, and never past the
last watermark there is. -/
theorem windowExpired_iff {spec : TriggerSpec} (hLateness : 0 ≤ spec.allowedLateness)
    (window : BeamWindow) (watermark : Int64) :
    windowExpired spec window watermark = true ↔
      window.maxTimestampMillis.toInt + spec.allowedLateness.toInt < watermark.toInt := by
  have hLow := window.maxTimestampMillis.le_toInt
  have hHigh := watermark.toInt_lt
  have hNonneg : 0 ≤ spec.allowedLateness.toInt := Int64.le_iff_toInt_le.mp hLateness
  rw [windowExpired, decide_eq_true_iff, Int64.lt_iff_toInt_lt, TriggerSpec.earliestCompletion,
    toInt_saturatingAdd]
  omega

/-- Below the cutoff is what expiry means; at the cutoff a window is open. -/
theorem windowExpired_iff_lt_cutoff {spec : TriggerSpec} (hLateness : 0 ≤ spec.allowedLateness)
    (window : BeamWindow) (watermark : Int64) :
    windowExpired spec window watermark = true ↔
      window.maxTimestampMillis < saturatingSub watermark spec.allowedLateness := by
  have hLow := window.maxTimestampMillis.le_toInt
  have hHigh := watermark.toInt_lt
  have hNonneg : 0 ≤ spec.allowedLateness.toInt := Int64.le_iff_toInt_le.mp hLateness
  rw [windowExpired_iff hLateness, Int64.lt_iff_toInt_lt, toInt_saturatingSub]
  omega

end Boundary

section LatestEnd

theorem laterFiniteEnd_eq (latest : Int64) (window : BeamWindow) :
    laterFiniteEnd latest window =
      if window.isOpaque then none else some (max latest window.maxTimestampMillis) := by
  cases window <;> rfl

/-- The fold behind the stored column, from any earlier boundary. -/
theorem foldlM_laterFiniteEnd_iff (windows : List BeamWindow) (earlier latest : Int64) :
    windows.foldlM laterFiniteEnd earlier = some latest ↔
      (∀ window ∈ windows, window.isOpaque = false ∧ window.maxTimestampMillis ≤ latest) ∧
        earlier ≤ latest ∧
        (earlier = latest ∨ ∃ window ∈ windows, window.maxTimestampMillis = latest) := by
  induction windows generalizing earlier with
  | nil =>
      simp only [List.foldlM_nil, List.not_mem_nil, false_implies, implies_true, false_and,
        exists_false, or_false, true_and]
      constructor
      · intro h
        cases h
        exact ⟨Int64.le_refl _, rfl⟩
      · rintro ⟨-, rfl⟩
        rfl
  | cons window windows ih =>
      rw [List.foldlM_cons, laterFiniteEnd_eq]
      cases hOpaque : window.isOpaque with
      | true => simp [hOpaque]
      | false =>
          refine (ih _).trans ?_
          simp only [List.forall_mem_cons, List.exists_mem_cons_iff, hOpaque, true_and,
            Int64.le_iff_toInt_le, ← Int64.toInt_inj, toInt_max]
          grind

/-- The stored column is the last instant of the row's latest window. -/
theorem windowMaxEnd_eq_some_iff (row : WindowedValue) (edge : Int64) :
    windowMaxEnd row = some edge ↔ LatestWindowEndsAt row edge := by
  by_cases hEmpty : row.windows = []
  · simp [windowMaxEnd, WindowMetadata.maxFiniteWindowEndMillis, WindowMetadata.ofValue,
      LatestWindowEndsAt, hEmpty]
  · have hColumn : windowMaxEnd row = row.windows.foldlM laterFiniteEnd Int64.minValue := by
      simp [windowMaxEnd, WindowMetadata.maxFiniteWindowEndMillis, WindowMetadata.ofValue, hEmpty]
    rw [hColumn, foldlM_laterFiniteEnd_iff]
    refine and_congr_right fun hBelow => ?_
    obtain ⟨window, hWindow⟩ := List.exists_mem_of_ne_nil row.windows hEmpty
    have hLeast : ∀ value : Int64, Int64.minValue ≤ value := fun value =>
      Int64.le_iff_toInt_le.mpr (Int64.le_toInt value)
    constructor
    · rintro ⟨-, rfl | hEdge⟩
      · exact ⟨window, hWindow, Int64.le_antisymm (hBelow window hWindow).2 (hLeast _)⟩
      · exact hEdge
    · exact fun hEdge => ⟨hLeast edge, .inr hEdge⟩

/-- Only an opaque window or having no window at all leaves the column null. -/
theorem windowMaxEnd_isSome {row : WindowedValue} (hWindows : row.windows ≠ [])
    (hFinite : ∀ window ∈ row.windows, window.isOpaque = false) :
    ∃ edge, windowMaxEnd row = some edge := by
  have hFold : ∀ (windows : List BeamWindow) (earlier : Int64),
      (∀ window ∈ windows, window.isOpaque = false) →
        ∃ edge, windows.foldlM laterFiniteEnd earlier = some edge := by
    intro windows
    induction windows with
    | nil => exact fun earlier _ => ⟨earlier, rfl⟩
    | cons window windows ih =>
        intro earlier hAll
        obtain ⟨hWindow, hRest⟩ := List.forall_mem_cons.mp hAll
        rw [List.foldlM_cons, laterFiniteEnd_eq, hWindow]
        exact ih _ hRest
  obtain ⟨edge, hEdge⟩ := hFold row.windows Int64.minValue hFinite
  refine ⟨edge, ?_⟩
  rw [windowMaxEnd, WindowMetadata.maxFiniteWindowEndMillis]
  simpa [WindowMetadata.ofValue, hWindows] using hEdge

end LatestEnd

section Pruning

variable (store : FlareElementStore) (counting pruning : PaimonRead) (pcollectionId : String)
  (cursor : Option Int64)

/-- The rows of the snapshot range a read at `cursor` covers. -/
def rowsInRange : List WindowedValue :=
  store.plannedRows pcollectionId (store.planIncremental pcollectionId cursor).1

/-- The rows the pruned read hands to the grouping. -/
def rowsReadPruned (windowPruneBefore : Option Int64) : List WindowedValue :=
  ((store.openIncrementalArrowPlanned pruning pcollectionId cursor windowPruneBefore).1.getD
    []).flatten

theorem rowsReadPruned_perm (windowPruneBefore : Option Int64) :
    (rowsReadPruned store pruning pcollectionId cursor windowPruneBefore).Perm
      ((rowsInRange store pcollectionId cursor).filter (keptAfter windowPruneBefore)) := by
  unfold rowsReadPruned rowsInRange openIncrementalArrowPlanned
  cases hPlan : (store.planIncremental pcollectionId cursor).1 with
  | none => simp [hPlan, plannedRows]
  | some range => simpa [hPlan] using pruning.exact _ _

theorem mem_rowsReadPruned_iff (cutoff : Int64) (row : WindowedValue) :
    row ∈ rowsReadPruned store pruning pcollectionId cursor (some cutoff) ↔
      row ∈ rowsInRange store pcollectionId cursor ∧
        ∀ edge, LatestWindowEndsAt row edge → cutoff < edge := by
  rw [(rowsReadPruned_perm store pruning pcollectionId cursor (some cutoff)).mem_iff,
    List.mem_filter]
  refine and_congr_right fun _ => ?_
  simp [keptAfter, Option.all_eq_true, windowMaxEnd_eq_some_iff]

theorem length_pruned_batch (cutoff : Int64) (rows : List WindowedValue) :
    ((rows.filterMap windowMaxEnd).filter fun latest => decide (latest ≤ cutoff)).length =
      rows.countP fun row => !keptAfter (some cutoff) row := by
  rw [← List.countP_eq_length_filter, List.countP_filterMap]
  congr 1
  funext row
  cases hEnd : windowMaxEnd row with
  | none => simp [keptAfter, hEnd]
  | some latest => simp [keptAfter, hEnd, ← decide_not]

/-- What is counted and what is read make up the range. -/
theorem countIncrementalArrowPrunedBefore_add (cutoff : Int64) :
    store.countIncrementalArrowPrunedBefore counting pcollectionId cursor cutoff +
        (rowsReadPruned store pruning pcollectionId cursor (some cutoff)).length =
      (rowsInRange store pcollectionId cursor).length := by
  have hCounted : store.countIncrementalArrowPrunedBefore counting pcollectionId cursor cutoff =
      (rowsReadPruned store counting pcollectionId cursor none).countP
        fun row => !keptAfter (some cutoff) row := by
    rw [countIncrementalArrowPrunedBefore, rowsReadPruned, List.countP_flatten]
    simp only [length_pruned_batch]
    rfl
  have hRange : (rowsReadPruned store counting pcollectionId cursor none).Perm
      (rowsInRange store pcollectionId cursor) := by
    have hAll := rowsReadPruned_perm store counting pcollectionId cursor none
    have hEvery : (rowsInRange store pcollectionId cursor).filter (keptAfter none) =
        rowsInRange store pcollectionId cursor := List.filter_eq_self.mpr fun _ _ => rfl
    rwa [hEvery] at hAll
  have hRead := (rowsReadPruned_perm store pruning pcollectionId cursor (some cutoff)).length_eq
  rw [hCounted, hRange.countP_eq, hRead, ← List.countP_eq_length_filter,
    List.length_eq_countP_add_countP (keptAfter (some cutoff)), Nat.add_comm]
  simp

/-- Pruning at the cutoff of an evaluated watermark drops a row with finite
windows exactly when all of them had expired, keeps every row with an open or
an opaque window, and counts what it drops. -/
structure PrunesOnlyExpired (spec : TriggerSpec) (watermark : Int64) : Prop where
  dropped_iff : ∀ row ∈ rowsInRange store pcollectionId cursor, row.windows ≠ [] →
    (∀ window ∈ row.windows, window.isInterval = true) →
      (row ∉ rowsReadPruned store pruning pcollectionId cursor
          (windowPruneCutoff (some watermark) spec.allowedLateness false false false) ↔
        ∀ window ∈ row.windows, windowExpired spec window watermark = true)
  kept : ∀ row ∈ rowsInRange store pcollectionId cursor,
    (∃ window ∈ row.windows, windowExpired spec window watermark = false ∨
      window.isOpaque = true) →
      row ∈ rowsReadPruned store pruning pcollectionId cursor
        (windowPruneCutoff (some watermark) spec.allowedLateness false false false)
  counted : ∀ cutoff, windowPruneCutoff (some watermark) spec.allowedLateness false false false =
      some cutoff →
    store.countIncrementalArrowPrunedBefore counting pcollectionId cursor cutoff +
        (rowsReadPruned store pruning pcollectionId cursor (some cutoff)).length =
      (rowsInRange store pcollectionId cursor).length

variable {spec : TriggerSpec}

/-- A row whose latest window ends below the cutoff has no open window. -/
theorem expired_of_latest_lt (hLateness : 0 ≤ spec.allowedLateness) {row : WindowedValue}
    {edge watermark : Int64} (hLatest : LatestWindowEndsAt row edge)
    (hBelow : edge < saturatingSub watermark spec.allowedLateness) :
    ∀ window ∈ row.windows, windowExpired spec window watermark = true := fun window hWindow =>
  (windowExpired_iff_lt_cutoff hLateness window watermark).mpr
    (Int64.lt_of_le_of_lt (hLatest.1 window hWindow).2 hBelow)

theorem prunesOnlyExpired_iff (hLateness : 0 ≤ spec.allowedLateness) (watermark : Int64) :
    PrunesOnlyExpired store counting pruning pcollectionId cursor spec watermark ↔
      ∀ row ∈ rowsInRange store pcollectionId cursor,
        ¬LatestWindowEndsAt row (saturatingSub watermark spec.allowedLateness) := by
  constructor
  · intro hPrunes row hRow hEdge
    obtain ⟨window, hWindow, hEnds⟩ := hEdge.2
    have hOpen : windowExpired spec window watermark = false := by
      rw [← Bool.not_eq_true, windowExpired_iff_lt_cutoff hLateness, hEnds]
      exact fun h => Int64.lt_irrefl h
    have hKept := hPrunes.kept row hRow ⟨window, hWindow, .inl hOpen⟩
    exact Int64.lt_irrefl
      (((mem_rowsReadPruned_iff store pruning pcollectionId cursor _ row).mp hKept).2 _ hEdge)
  · intro hAway
    -- Off the boundary, what is dropped ends below the cutoff.
    have hDropped : ∀ row ∈ rowsInRange store pcollectionId cursor,
        row ∉ rowsReadPruned store pruning pcollectionId cursor
          (some (saturatingSub watermark spec.allowedLateness)) →
        ∃ edge, LatestWindowEndsAt row edge ∧
          edge < saturatingSub watermark spec.allowedLateness := by
      intro row hRow hOut
      rw [mem_rowsReadPruned_iff] at hOut
      push Not at hOut
      obtain ⟨edge, hEdge, hLe⟩ := hOut hRow
      refine ⟨edge, hEdge, ?_⟩
      have hNe : edge ≠ saturatingSub watermark spec.allowedLateness :=
        fun hSame => hAway row hRow (hSame ▸ hEdge)
      exact Int64.lt_of_le_of_ne (Int64.not_lt.mp hLe) hNe
    refine ⟨fun row hRow hWindows hIntervals => ⟨fun hOut => ?_, fun hExpired hIn => ?_⟩,
      fun row hRow hOpen => ?_, fun cutoff _ => ?_⟩
    · obtain ⟨edge, hEdge, hBelow⟩ := hDropped row hRow hOut
      exact expired_of_latest_lt hLateness hEdge hBelow
    · have hFinite : ∀ window ∈ row.windows, window.isOpaque = false := by
        intro window hWindow
        have hInterval := hIntervals window hWindow
        cases window <;> first | rfl | cases hInterval
      obtain ⟨edge, hEdge⟩ := windowMaxEnd_isSome hWindows hFinite
      rw [windowMaxEnd_eq_some_iff] at hEdge
      obtain ⟨window, hWindow, hEnds⟩ := hEdge.2
      have hBelow := (windowExpired_iff_lt_cutoff hLateness window watermark).mp
        (hExpired window hWindow)
      have hAbove := ((mem_rowsReadPruned_iff store pruning pcollectionId cursor _ row).mp hIn).2
        edge hEdge
      rw [hEnds] at hBelow
      exact Int64.lt_irrefl (Int64.lt_trans hBelow hAbove)
    · by_contra hOut
      obtain ⟨edge, hEdge, hBelow⟩ := hDropped row hRow hOut
      obtain ⟨window, hWindow, hOpen | hOpaque⟩ := hOpen
      · rw [expired_of_latest_lt hLateness hEdge hBelow window hWindow] at hOpen
        cases hOpen
      · rw [(hEdge.1 window hWindow).1] at hOpaque
        cases hOpaque
    · exact countIncrementalArrowPrunedBefore_add store counting pruning pcollectionId cursor cutoff

end Pruning

/-- One row in the window `[0, 100)`, whose last instant is 99. -/
def boundaryStore : FlareElementStore :=
  FlareElementStore.empty.writeWindowedValueBatch "input"
    [{ value := .kv (.string "k") (.primitive (.int64 1)), timestampMillis := 0
       windows := [.interval 0 100], pane := .noFiring }]

def defaultSpec : TriggerSpec where
  trigger := .default
  accumulation := .discarding
  outputTime := .endOfWindow
  allowedLateness := 0

theorem rowsInRange_boundaryStore : ∃ row, rowsInRange boundaryStore "input" none = [row] ∧
    row.windows = [.interval 0 100] := by
  have hWindows : (rowsInRange boundaryStore "input" none).map WindowedValue.windows =
      [[.interval 0 100]] := by decide +kernel
  exact List.map_eq_singleton_iff.mp hWindows

/-- After a run at watermark 99 the row is dropped although its window has not
ended: the run that would fire it, at 100, never sees it. -/
theorem boundaryRow_dropped :
    rowsReadPruned boundaryStore PaimonRead.inOrder "input" none
        (windowPruneCutoff (some 99) defaultSpec.allowedLateness false false false) = [] ∧
      (rowsInRange boundaryStore "input" none).length = 1 ∧
      windowExpired defaultSpec (.interval 0 100) 99 = false ∧
      ¬PrunesOnlyExpired boundaryStore PaimonRead.inOrder PaimonRead.inOrder "input" none
        defaultSpec 99 := by
  have hDropped : rowsReadPruned boundaryStore PaimonRead.inOrder "input" none
      (windowPruneCutoff (some 99) defaultSpec.allowedLateness false false false) = [] :=
    List.isEmpty_iff.mp (by decide +kernel)
  refine ⟨hDropped, by decide +kernel, by decide +kernel, fun hPrunes => ?_⟩
  obtain ⟨row, hRows, hWindows⟩ := rowsInRange_boundaryStore
  have hKept := hPrunes.kept row (by rw [hRows]; exact List.mem_singleton_self row)
    ⟨.interval 0 100, by rw [hWindows]; exact List.mem_singleton_self _, .inl (by decide +kernel)⟩
  rw [hDropped] at hKept
  cases hKept

/-- At watermark 150 the same row is dropped for a good reason. -/
theorem prunesOnlyExpired_boundaryStore :
    PrunesOnlyExpired boundaryStore PaimonRead.inOrder PaimonRead.inOrder "input" none
      defaultSpec 150 := by
  refine (prunesOnlyExpired_iff boundaryStore PaimonRead.inOrder PaimonRead.inOrder "input" none
    (by decide +kernel) 150).mpr fun row hRow hEdge => ?_
  obtain ⟨stored, hRows, hWindows⟩ := rowsInRange_boundaryStore
  rw [hRows, List.mem_singleton] at hRow
  subst hRow
  obtain ⟨window, hWindow, hEnds⟩ := hEdge.2
  rw [hWindows, List.mem_singleton] at hWindow
  subst hWindow
  revert hEnds
  decide +kernel

end FlareDB
