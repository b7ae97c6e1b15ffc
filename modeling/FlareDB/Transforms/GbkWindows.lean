import FlareDB.Store.BatchBuilds
import FlareDB.Store.SoundColumns
import FlareDB.Transforms.GbkBatches

/-! Rows of a GroupByKey input carry all their windows; before they are sorted
each becomes one row for each of its windows. The first window stands in a column
of its own, the others in a list, so the rows are gathered in two passes. -/
namespace FlareDB

open Arrow Results

/-- Why a batch is refused. -/
inductive WindowBatchError where
  | message (text : String)
  | arrow (reason : ArrowError)
  | record (reason : RecordError)
deriving DecidableEq, Repr

/-! The group key. -/

def schemaWithGroupKey (schema : List Field) : List Field :=
  schema ++ [⟨groupKeyColumn, .binary, false⟩]

def encodedKeyCell (keys : ArrayRef) (row : Nat) : Except RecordError (Option (List UInt8)) := do
  let key ← primitiveValueFromArrayRow keys keys.dataType row
  pure (some (encodedPrimitiveSortKey key))

def addEncodedKeyColumn (batch : RecordBatch) : Except WindowBatchError RecordBatch :=
  match batch.columnByName keyColumn with
  | none => .error (.message s!"GroupByKey input is missing the '{keyColumn}' column")
  | some keys => do
      let cells ← ((List.range batch.numRows).mapM (encodedKeyCell keys)).mapError .record
      let groupKeys ← (ArrayRef.ofCells .binary cells).mapError .arrow
      (RecordBatch.tryNew (schemaWithGroupKey batch.schema) (batch.columns ++ [groupKeys])).mapError
        .arrow

/-! The columns of the windows. -/

/-- Offsets into the child of a list are never negative here. -/
structure WindowListColumns where
  counts : List (Option Int16)
  firstWindows : List (Option (List UInt8))
  offsets : OffsetBuffer
  extraWindowValues : List (Option (List UInt8))

def windowColumn (batch : RecordBatch) (name : String) : Except WindowBatchError ArrayRef :=
  match batch.columnByName name with
  | some column => .ok column
  | none => .error (.message s!"GBK input is missing '{name}'")

def windowCells (batch : RecordBatch) (name : String) (type : LeafType) (typeName : String) :
    Except WindowBatchError (List (Option type.Cell)) := do
  let column ← windowColumn batch name
  match column.downcast type with
  | some cells => .ok cells
  | none => .error (.message s!"'{name}' must be {typeName}")

def extraWindowLists (batch : RecordBatch) :
    Except WindowBatchError (OffsetBuffer × List (Option (List UInt8))) := do
  let column ← windowColumn batch windowExtraKeysColumn
  match column with
  | .list _ offsets values _ => match values.downcast .binary with
      | some cells => .ok (offsets, cells)
      | none => .error (.message s!"'{windowExtraKeysColumn}' must contain Binary keys")
  | _ => .error (.message s!"'{windowExtraKeysColumn}' must be a List")

def windowListColumns (batch : RecordBatch) : Except WindowBatchError WindowListColumns := do
  let counts ← windowCells batch windowCountColumn .int16 "Int16"
  let firstWindows ← windowCells batch windowKeyColumn .binary "Binary"
  let (offsets, extraWindowValues) ← extraWindowLists batch
  pure { counts, firstWindows, offsets, extraWindowValues }

/-! The loop over the rows. -/

def u32Index (what : String) (index : Nat) : Except WindowBatchError Nat :=
  if index < 2 ^ 32 then .ok index else .error (.message s!"GBK {what} index exceeds u32")

/-- The count of a row, read without looking at the mask. -/
def declaredCount (counts : List (Option Int16)) (row : Nat) : Except WindowBatchError Nat :=
  match counts[row]? with
  | none => .error (.arrow .panic)
  | some cell =>
      if (cell.getD 0).toInt < 0 then
        .error (.message s!"negative window count at GBK input row {row}")
      else .ok (cell.getD 0).toInt.toNat

def extraOffset (offsets : OffsetBuffer) (row : Nat) : Except WindowBatchError Nat :=
  match offsets.offsets[row]? with
  | some offset => .ok offset
  | none => .error (.arrow .panic)

def firstPresent (firstWindows : List (Option (List UInt8))) (row : Nat) : Bool :=
  firstWindows[row]?.join.isSome

/-- An extra window of a row: the row and where its key stands. -/
def extraWindowIndex (extraWindowValues : List (Option (List UInt8))) (row index : Nat) :
    Except WindowBatchError (Nat × Nat) :=
  match extraWindowValues[index]? with
  | none => .error (.arrow .panic)
  | some none => .error (.message s!"null extra window key at GBK input row {row}")
  | some (some _) => do
      let rowIndex ← u32Index "row" row
      let windowIndex ← u32Index "window" index
      pure (rowIndex, windowIndex)

/-- What a row adds to `scalar_rows`, and to `extra_rows` and
`extra_window_indices`. -/
structure RowWindows where
  scalar : List Nat
  extra : List (Nat × Nat)

def scalarWindow (present : Bool) (row : Nat) : Except WindowBatchError (List Nat) :=
  if present then do
    let rowIndex ← u32Index "row" row
    pure [rowIndex]
  else .ok []

def expandRow (columns : WindowListColumns) (row : Nat) : Except WindowBatchError RowWindows := do
  let declared ← declaredCount columns.counts row
  let start ← extraOffset columns.offsets row
  let finish ← extraOffset columns.offsets (row + 1)
  let present := firstPresent columns.firstWindows row
  if declared ≠ (finish - start) + (if present then 1 else 0) then
    .error (.message
      s!"window count does not match scalar and extra keys at GBK input row {row}")
  else do
    let scalar ← scalarWindow present row
    let extra ← (List.range' start (finish - start)).mapM
      (extraWindowIndex columns.extraWindowValues row)
    pure { scalar, extra }

/-! Gathering. -/

def takeColumn (column : ArrayRef) (indices : List Nat) : Except WindowBatchError ArrayRef :=
  (column.take indices).mapError .arrow

def columnField (batch : RecordBatch) (name : String) : Except WindowBatchError Field :=
  (fieldWithName batch.schema name).mapError .record

def takeFlattenedWindowBatch (batch : RecordBatch) (rowIndices : List Nat)
    (windowValues : List (Option (List UInt8))) (windowIndices : List Nat) :
    Except WindowBatchError RecordBatch := do
  let key ← windowColumn batch keyColumn
  let value ← windowColumn batch valueColumn
  let timestamp ← windowColumn batch windowTimestampColumn
  let groupKey ← windowColumn batch groupKeyColumn
  let keys ← takeColumn key rowIndices
  let values ← takeColumn value rowIndices
  let timestamps ← takeColumn timestamp rowIndices
  let windows ← takeColumn (.leaf .binary windowValues) windowIndices
  let groupKeys ← takeColumn groupKey rowIndices
  let keyField ← columnField batch keyColumn
  let valueField ← columnField batch valueColumn
  let timestampField ← columnField batch windowTimestampColumn
  let groupKeyField ← columnField batch groupKeyColumn
  (RecordBatch.tryNew
    [keyField, valueField, timestampField, ⟨windowKeyColumn, .binary, true⟩, groupKeyField]
    [keys, values, timestamps, windows, groupKeys]).mapError .arrow

/-- A pass over no rows makes no batch. -/
def takeRows (batch : RecordBatch) (rowIndices : List Nat)
    (windowValues : List (Option (List UInt8))) (windowIndices : List Nat) :
    Except WindowBatchError (List RecordBatch) :=
  if rowIndices.isEmpty then .ok []
  else do
    let taken ← takeFlattenedWindowBatch batch rowIndices windowValues windowIndices
    pure [taken]

/-- One row for every window of every row. -/
def flattenWindowBatch (batch : RecordBatch) : Except WindowBatchError (List RecordBatch) := do
  let columns ← windowListColumns batch
  let rows ← (List.range batch.numRows).mapM (expandRow columns)
  let scalarRows := rows.flatMap RowWindows.scalar
  let extra := rows.flatMap RowWindows.extra
  let scalar ← takeRows batch scalarRows columns.firstWindows scalarRows
  let others ← takeRows batch (extra.map Prod.fst) columns.extraWindowValues (extra.map Prod.snd)
  pure (scalar ++ others)

/-! What the loop checks. -/

namespace WindowListColumns

variable (columns : WindowListColumns)

def declared (row : Nat) : Int :=
  (columns.counts[row]?.join.getD 0).toInt

/-- The windows that a row's columns hold. -/
def stored (row : Nat) : Nat :=
  (ArrayRef.rowItems columns.offsets row).length +
    (if firstPresent columns.firstWindows row then 1 else 0)

/-- The windows of a row are as many as it declares, and all of them are there. -/
structure Agrees (row : Nat) : Prop where
  count : columns.declared row = columns.stored row
  keys : ∀ index ∈ ArrayRef.rowItems columns.offsets row,
    ∃ key, columns.extraWindowValues[index]? = some (some key)

/-- Columns of `rows` rows whose list column stays inside its child. -/
structure Spans (rows : Nat) : Prop where
  counts : columns.counts.length = rows
  lists : columns.offsets.rows = rows
  inside : ∀ offset ∈ columns.offsets.offsets, offset ≤ columns.extraWindowValues.length

/-- What a row that agrees adds. -/
def expanded (row : Nat) : RowWindows where
  scalar := if firstPresent columns.firstWindows row then [row] else []
  extra := (ArrayRef.rowItems columns.offsets row).map fun index => (row, index)

end WindowListColumns

/-- A result that, if there is one, has a property; where there is none, the
batch was found to be malformed. -/
def Checked {α : Type} (P : α → Prop) : Except WindowBatchError α → Prop
  | .ok value => P value
  | .error (.message _) => True
  | .error _ => False

section Checks

variable {α β : Type}

/-- A sequence is checked when its parts are, the second on what the first ensures. -/
theorem Checked.bind {P : α → Prop} {Q : β → Prop} {result : Except WindowBatchError α}
    {f : α → Except WindowBatchError β} (h : Checked P result)
    (hNext : ∀ value, P value → Checked Q (f value)) : Checked Q (result >>= f) := by
  cases result with
  | ok value => exact hNext value h
  | error reason => cases reason <;> exact h

/-- A map over a list is checked when its calls are. -/
theorem Checked.mapM {P : α → β → Prop} {f : α → Except WindowBatchError β} {xs : List α}
    (h : ∀ x ∈ xs, Checked (P x) (f x)) : Checked (List.Forall₂ P xs) (xs.mapM f) := by
  induction xs with
  | nil => exact List.Forall₂.nil
  | cons x xs ih =>
      obtain ⟨hFirst, hRest⟩ := List.forall_mem_cons.mp h
      rw [List.mapM_cons]
      apply hFirst.bind
      intro first hHead
      apply (ih hRest).bind
      intro rest hTail
      exact List.Forall₂.cons hHead hTail

theorem checked_u32Index (what : String) (index : Nat) :
    Checked (fun _ => True) (u32Index what index) := by
  rw [u32Index]
  split <;> exact trivial

theorem checked_extraWindowIndex {extraWindowValues : List (Option (List UInt8))} {row index : Nat}
    (h : index < extraWindowValues.length) :
    Checked (fun _ => ∃ key, extraWindowValues[index]? = some (some key))
      (extraWindowIndex extraWindowValues row index) := by
  rw [extraWindowIndex]
  cases hCell : extraWindowValues[index]? with
  | none => exact absurd (List.getElem?_eq_none_iff.mp hCell) (by omega)
  | some cell =>
      cases cell with
      | none => exact trivial
      | some key =>
          apply (checked_u32Index "row" row).bind
          intro rowIndex _
          apply (checked_u32Index "window" index).bind
          intro windowIndex _
          exact ⟨key, rfl⟩

end Checks

section Rows

variable {columns : WindowListColumns} {rows row : Nat}

/-- The declared count of a row, and the refusal of a negative one. -/
theorem declaredCount_eq (h : row < columns.counts.length) :
    declaredCount columns.counts row =
      if columns.declared row < 0 then
        .error (.message s!"negative window count at GBK input row {row}")
      else .ok (columns.declared row).toNat := by
  rw [declaredCount, WindowListColumns.declared, List.getElem?_eq_getElem h]
  rfl

/-- The windows of a row, with the offsets it was read by. -/
theorem expandRow_eq (hSpans : columns.Spans rows) (hRow : row < rows) :
    expandRow columns row = (do
      let declared ← declaredCount columns.counts row
      if declared ≠ columns.stored row then
        .error (.message
          s!"window count does not match scalar and extra keys at GBK input row {row}")
      else do
        let scalar ← scalarWindow (firstPresent columns.firstWindows row) row
        let extra ← (ArrayRef.rowItems columns.offsets row).mapM
          (extraWindowIndex columns.extraWindowValues row)
        pure { scalar, extra }) := by
  have hLists : row < columns.offsets.rows := by
    rw [hSpans.lists]
    exact hRow
  obtain ⟨start, hStart, hEnd, hItems⟩ :=
    ArrayRef.childRows_eq_ok (ArrayRef.childRows_eq_rowItems hLists)
  have hStartAt : extraOffset columns.offsets row = .ok start := by
    rw [extraOffset, hStart]
  have hEndAt : extraOffset columns.offsets (row + 1) =
      .ok (start + (ArrayRef.rowItems columns.offsets row).length) := by
    rw [extraOffset, hEnd]
  simp only [expandRow, hStartAt, hEndAt, bind, Except.bind, Nat.add_sub_cancel_left, ← hItems,
    WindowListColumns.stored]
  rfl

/-- A row expands only where its two window columns agree. -/
theorem checked_expandRow (hSpans : columns.Spans rows) (hRow : row < rows) :
    Checked (fun _ => columns.Agrees row) (expandRow columns row) := by
  rw [expandRow_eq hSpans hRow, declaredCount_eq (by rw [hSpans.counts]; exact hRow)]
  by_cases hSign : columns.declared row < 0
  · rw [if_pos hSign]
    exact trivial
  rw [if_neg hSign]
  by_cases hCount : (columns.declared row).toNat = columns.stored row
  · have hKeys : Checked (List.Forall₂ (fun index _ =>
          ∃ key, columns.extraWindowValues[index]? = some (some key))
        (ArrayRef.rowItems columns.offsets row))
        ((ArrayRef.rowItems columns.offsets row).mapM
          (extraWindowIndex columns.extraWindowValues row)) := by
      apply Checked.mapM
      intro index hMem
      exact checked_extraWindowIndex (ArrayRef.lt_of_mem_rowItems hSpans.inside hMem)
    have hScalar : Checked (fun _ => True)
        (scalarWindow (firstPresent columns.firstWindows row) row) := by
      rw [scalarWindow]
      split
      · apply (checked_u32Index "row" row).bind
        exact fun _ _ => trivial
      · exact trivial
    simp only [bind, Except.bind, ne_eq, hCount, not_true_eq_false, if_false]
    apply hScalar.bind
    intro scalar _
    apply hKeys.bind
    intro extra hExtra
    refine ⟨by omega, fun index hMem => ?_⟩
    obtain ⟨_, -, hKey⟩ := forall₂_left hExtra hMem
    exact hKey
  · simp only [bind, Except.bind, ne_eq, hCount, not_false_eq_true, if_true]
    exact trivial

/-- An index below 2^32 is addressed. -/
theorem u32Index_eq_ok (what : String) {index : Nat} (h : index < 2 ^ 32) :
    u32Index what index = .ok index :=
  if_pos h

/-- A row that agrees is expanded, as long as its indices fit. -/
theorem expandRow_eq_ok (hSpans : columns.Spans rows) (hRow : row < rows)
    (hAgrees : columns.Agrees row) (hRowFits : row < 2 ^ 32)
    (hFits : ∀ offset ∈ columns.offsets.offsets, offset ≤ 2 ^ 32) :
    expandRow columns row = .ok (columns.expanded row) := by
  have hCount := hAgrees.count
  have hKeys : (ArrayRef.rowItems columns.offsets row).mapM
      (extraWindowIndex columns.extraWindowValues row) =
      .ok ((ArrayRef.rowItems columns.offsets row).map fun index => (row, index)) := by
    refine mapM_eq_ok_iff.mpr ?_
    rw [List.forall₂_map_right_iff, List.forall₂_same]
    intro index hMem
    obtain ⟨key, hKey⟩ := hAgrees.keys index hMem
    have hIndex := ArrayRef.lt_of_mem_rowItems hFits hMem
    simp only [extraWindowIndex, hKey, u32Index_eq_ok _ hRowFits, u32Index_eq_ok _ hIndex, bind,
      Except.bind]
    rfl
  have hScalar : scalarWindow (firstPresent columns.firstWindows row) row =
      .ok (if firstPresent columns.firstWindows row then [row] else []) := by
    rw [scalarWindow]
    split
    · rw [u32Index_eq_ok _ hRowFits]
      rfl
    · rfl
  rw [expandRow_eq hSpans hRow, declaredCount_eq (by rw [hSpans.counts]; exact hRow),
    if_neg (by omega)]
  have hSame : (columns.declared row).toNat = columns.stored row := by omega
  simp only [bind, Except.bind, ne_eq, hSame, not_true_eq_false, if_false, hScalar, hKeys]
  rfl

end Rows

section Columns

variable {batch : RecordBatch}

theorem windowColumn_eq_ok {name : String} {column : ArrayRef}
    (h : windowColumn batch name = .ok column) : batch.columnByName name = some column := by
  rw [windowColumn] at h
  split at h
  · next hColumn =>
      cases h
      exact hColumn
  · cases h

theorem windowColumn_of_columnByName {name : String} {column : ArrayRef}
    (h : batch.columnByName name = some column) : windowColumn batch name = .ok column := by
  rw [windowColumn, h]

theorem downcast_eq_some {array : ArrayRef} {type : LeafType} {cells : List (Option type.Cell)}
    (h : array.downcast type = some cells) : array = .leaf type cells := by
  cases array with
  | leaf other found =>
      rw [ArrayRef.downcast] at h
      split at h
      · next hType =>
          subst hType
          cases h
          rfl
      · cases h
  | list => cases h
  | struct => cases h

/-- The cells of a window column are those of the named leaf column. -/
theorem windowCells_eq_ok {name typeName : String} {type : LeafType}
    {cells : List (Option type.Cell)} (h : windowCells batch name type typeName = .ok cells) :
    batch.columnByName name = some (.leaf type cells) := by
  obtain ⟨column, hColumn, hRest⟩ := bind_eq_ok h
  split at hRest
  · next hCells =>
      cases hRest
      rw [windowColumn_eq_ok hColumn, downcast_eq_some hCells]
  · cases hRest

/-- The lists of further windows are those of the named list column. -/
theorem extraWindowLists_eq_ok {offsets : OffsetBuffer} {cells : List (Option (List UInt8))}
    (h : extraWindowLists batch = .ok (offsets, cells)) : ∃ item nulls,
      batch.columnByName windowExtraKeysColumn =
        some (.list item offsets (.leaf .binary cells) nulls) := by
  obtain ⟨column, hColumn, hRest⟩ := bind_eq_ok h
  split at hRest
  · next item offsets values nulls =>
      split at hRest
      · next hCells =>
          cases hRest
          rw [windowColumn_eq_ok hColumn, downcast_eq_some hCells]
          exact ⟨item, nulls, rfl⟩
      · cases hRest
  · cases hRest

/-- The columns that the loop reads. -/
structure HasWindowColumns (batch : RecordBatch) (columns : WindowListColumns) : Prop where
  counts : batch.columnByName windowCountColumn = some (.leaf .int16 columns.counts)
  first : batch.columnByName windowKeyColumn = some (.leaf .binary columns.firstWindows)
  extra : ∃ item nulls, batch.columnByName windowExtraKeysColumn =
    some (.list item columns.offsets (.leaf .binary columns.extraWindowValues) nulls)

variable {columns : WindowListColumns}

/-- The window columns are read exactly when the batch has them. -/
theorem windowListColumns_eq_ok_iff :
    windowListColumns batch = .ok columns ↔ HasWindowColumns batch columns := by
  constructor
  · intro h
    obtain ⟨counts, hCounts, hRest⟩ := bind_eq_ok h
    obtain ⟨firstWindows, hFirst, hRest⟩ := bind_eq_ok hRest
    obtain ⟨⟨offsets, cells⟩, hExtra, hPure⟩ := bind_eq_ok hRest
    cases hPure
    exact ⟨windowCells_eq_ok hCounts, windowCells_eq_ok hFirst, extraWindowLists_eq_ok hExtra⟩
  · rintro ⟨hCounts, hFirst, item, nulls, hExtra⟩
    simp only [windowListColumns, windowCells, extraWindowLists,
      windowColumn_of_columnByName hCounts, windowColumn_of_columnByName hFirst,
      windowColumn_of_columnByName hExtra, bind, Except.bind]
    rfl

/-- The window columns of a sound batch span its rows. -/
theorem HasWindowColumns.spans (h : HasWindowColumns batch columns) (hSound : batch.Sound) :
    columns.Spans batch.numRows := by
  obtain ⟨item, nulls, hExtra⟩ := h.extra
  obtain ⟨_, -, hCounts⟩ := hSound.columnByName h.counts
  obtain ⟨_, -, hLists⟩ := hSound.columnByName hExtra
  exact ⟨hCounts.length, hLists.length, fun offset hMem => (hLists.sound.1 offset hMem).1⟩

/-- A batch with a row whose columns do not agree is refused with a message. -/
theorem flattenWindowBatch_refuses (hSound : batch.Sound) (hColumns : HasWindowColumns batch columns)
    {row : Nat} (hRow : row < batch.numRows) (hNot : ¬ columns.Agrees row) :
    ∃ text, flattenWindowBatch batch = .error (.message text) := by
  have hRows : Checked (List.Forall₂ (fun row (_ : RowWindows) => columns.Agrees row)
      (List.range batch.numRows)) ((List.range batch.numRows).mapM (expandRow columns)) := by
    apply Checked.mapM
    intro other hMem
    exact checked_expandRow (hColumns.spans hSound) (List.mem_range.mp hMem)
  rw [flattenWindowBatch, windowListColumns_eq_ok_iff.mpr hColumns]
  show ∃ text, ((List.range batch.numRows).mapM (expandRow columns) >>= _) = _
  cases hLoop : (List.range batch.numRows).mapM (expandRow columns) with
  | ok rows =>
      rw [hLoop] at hRows
      obtain ⟨_, -, hAgrees⟩ := forall₂_left hRows (List.mem_range.mpr hRow)
      exact absurd hAgrees hNot
  | error reason =>
      rw [hLoop] at hRows
      cases reason with
      | message text => exact ⟨text, rfl⟩
      | arrow reason => exact hRows.elim
      | record reason => exact hRows.elim

/-- Where every row agrees, the loop expands each. -/
theorem expandRows_eq_ok (hSound : batch.Sound) (hColumns : HasWindowColumns batch columns)
    (hAgrees : ∀ row < batch.numRows, columns.Agrees row) (hFits : batch.numRows ≤ 2 ^ 32) :
    (List.range batch.numRows).mapM (expandRow columns) =
      .ok ((List.range batch.numRows).map columns.expanded) := by
  obtain ⟨item, nulls, hExtra⟩ := hColumns.extra
  obtain ⟨_, -, hLists⟩ := hSound.columnByName hExtra
  have hOffsets : ∀ offset ∈ columns.offsets.offsets, offset ≤ 2 ^ 32 := by
    intro offset hMem
    have hBound := (hLists.sound.1 offset hMem).2
    rw [offsetMax] at hBound
    omega
  refine mapM_eq_ok_iff.mpr ?_
  rw [List.forall₂_map_right_iff, List.forall₂_same]
  intro row hMem
  have hRow := List.mem_range.mp hMem
  exact expandRow_eq_ok (hColumns.spans hSound) hRow (hAgrees row hRow) (by omega) hOffsets

end Columns

end FlareDB
