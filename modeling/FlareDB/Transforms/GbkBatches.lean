import FlareDB.Store.BatchRoundTrip
import FlareDB.Transforms.GbkExecute

/-! The sorted rows of a GroupByKey arrive in Arrow batches. The decoder reads a
batch row by row and keeps the key group it is collecting for the next batch, so
where the batches were cut leaves no trace in the groups. -/
namespace FlareDB

open Arrow

def groupKeyColumn : String := "flare_gbk_group_key"

/-- Why a batch is refused. -/
inductive GroupDecodeError where
  | missingColumn (name : String)
  | wrongColumnType (name : String) (expected : LeafType)
  | record (reason : RecordError)
  | expectedKv (found : TableType)
  | malformedWindowKey
  | panic
deriving DecidableEq, Repr

def groupColumn (batch : RecordBatch) (name : String) (type : LeafType) :
    Except GroupDecodeError (List (Option type.Cell)) :=
  match batch.columnByName name with
  | none => .error (.missingColumn name)
  | some column => match column.downcast type with
      | none => .error (.wrongColumnType name type)
      | some cells => .ok cells

/-- A value read without looking at the mask. Under a null the builders leave
the blank value. -/
def valueAt {α : Type} (blank : α) (cells : List (Option α)) (row : Nat) :
    Except GroupDecodeError α :=
  match cells[row]? with
  | some cell => .ok (cell.getD blank)
  | none => .error .panic

/-- The columns of a batch that the decoder reads beside the records. -/
structure GroupColumns where
  windowKeys : List (Option (List UInt8))
  encodedKeys : List (Option (List UInt8))
  timestamps : List (Option Int64)

def groupColumns (batch : RecordBatch) : Except GroupDecodeError GroupColumns := do
  let windowKeys ← groupColumn batch windowKeyColumn .binary
  let encodedKeys ← groupColumn batch groupKeyColumn .binary
  let timestamps ← groupColumn batch windowTimestampColumn .int64
  pure { windowKeys, encodedKeys, timestamps }

namespace SortedGroupDecoder

/-- Add a row under the key bytes that stand beside it. -/
def pushEncoded (decoder : SortedGroupDecoder) (encodedKey : List UInt8) (row : GbkRow) :
    SortedGroupDecoder :=
  let opened : InProgressKeyGroup :=
    ⟨encodedKey, row.key, pushElement [] row.window row.element⟩
  match decoder.current with
  | none => ⟨some opened, decoder.completed⟩
  | some current =>
      if current.encodedKey ≠ encodedKey then
        ⟨some opened, decoder.completed ++ [current.finished]⟩
      else
        ⟨some { current with windows := pushElement current.windows row.window row.element },
          decoder.completed⟩

def pushRecord (columns : GroupColumns) (decoder : SortedGroupDecoder) (entry : BeamRecord × Nat) :
    Except GroupDecodeError SortedGroupDecoder :=
  match entry.1 with
  | .kv key value => do
      let encodedKey ← valueAt [] columns.encodedKeys entry.2
      let windowKey ← valueAt [] columns.windowKeys entry.2
      match BeamWindow.fromBinaryKey windowKey with
      | none => .error .malformedWindowKey
      | some window => do
          let timestampMillis ← valueAt 0 columns.timestamps entry.2
          pure (decoder.pushEncoded encodedKey ⟨key, window, value, timestampMillis⟩)
  | other => .error (.expectedKv (tableTypeOf other))

/-- Read a batch. The groups it completes are handed out; the one being
collected stays. -/
def pushArrowBatch (tableSchema : RecordTableSchema) (current : Option InProgressKeyGroup)
    (batch : RecordBatch) :
    Except GroupDecodeError (Option InProgressKeyGroup × List DecodedKeyGroup) := do
  let columns ← groupColumns batch
  let records ← (recordBatchToBeamrecords batch tableSchema).mapError .record
  let decoder ← records.zipIdx.foldlM (pushRecord columns) ⟨current, []⟩
  pure (decoder.current, decoder.completed)

/-- The loop over a stream of batches, with the last group at its end. -/
def pushArrowBatches (tableSchema : RecordTableSchema) :
    Option InProgressKeyGroup → List RecordBatch → Except GroupDecodeError (List DecodedKeyGroup)
  | current, [] => .ok (current.toList.map InProgressKeyGroup.finished)
  | current, batch :: batches => do
      let (current, groups) ← pushArrowBatch tableSchema current batch
      let later ← pushArrowBatches tableSchema current batches
      pure (groups ++ later)

end SortedGroupDecoder

/-- The bytes of the keys and windows of some rows, and their timestamps. -/
def rowColumns (rows : List GbkRow) : GroupColumns where
  windowKeys := rows.map fun row => some row.window.toBinaryKey
  encodedKeys := rows.map fun row => some (encodedPrimitiveSortKey row.key)
  timestamps := rows.map fun row => some row.element.timestampMillis

/-- A batch that stores some rows. -/
structure HoldsRows (tableSchema : RecordTableSchema) (batch : RecordBatch) (rows : List GbkRow) :
    Prop where
  columns : groupColumns batch = .ok (rowColumns rows)
  records : recordBatchToBeamrecords batch tableSchema =
    .ok (rows.map fun row => .kv row.key row.element.value)

/-- Batches that cut a list of rows into consecutive pieces, some maybe empty. -/
def CutFrom (tableSchema : RecordTableSchema) (rows : List GbkRow) (batches : List RecordBatch) :
    Prop :=
  ∃ chunks : List (List GbkRow), chunks.flatten = rows ∧
    List.Forall₂ (HoldsRows tableSchema) batches chunks

namespace SortedGroupDecoder

variable {tableSchema : RecordTableSchema}

/-- Under the bytes of its own key a row is added as before. -/
theorem pushEncoded_eq_pushRow (decoder : SortedGroupDecoder) (row : GbkRow) :
    decoder.pushEncoded (encodedPrimitiveSortKey row.key) row = decoder.pushRow row := rfl

/-- What was completed before a row stays completed in front. -/
theorem pushRow_completed (current : Option InProgressKeyGroup)
    (groups completed : List DecodedKeyGroup) (row : GbkRow) :
    pushRow ⟨current, groups ++ completed⟩ row =
      ⟨(pushRow ⟨current, completed⟩ row).current,
        groups ++ (pushRow ⟨current, completed⟩ row).completed⟩ := by
  cases current with
  | none => rfl
  | some current =>
      simp only [pushRow]
      split
      · rw [List.append_assoc]
      · rfl

theorem foldl_completed (rows : List GbkRow) (current : Option InProgressKeyGroup)
    (groups completed : List DecodedKeyGroup) :
    rows.foldl pushRow ⟨current, groups ++ completed⟩ =
      ⟨(rows.foldl pushRow ⟨current, completed⟩).current,
        groups ++ (rows.foldl pushRow ⟨current, completed⟩).completed⟩ := by
  induction rows generalizing current completed with
  | nil => rfl
  | cons row rows ih =>
      rw [List.foldl_cons, pushRow_completed, ih]
      rfl

/-- The columns hold what the decoder needs for each row. -/
theorem pushRecord_eq_ok {rows : List GbkRow} {position : Nat} {row : GbkRow}
    (decoder : SortedGroupDecoder) (hRow : rows[position]? = some row)
    (hFits : row.window.CoderIdFits) :
    pushRecord (rowColumns rows) decoder (.kv row.key row.element.value, position) =
      .ok (decoder.pushRow row) := by
  have hWindow : valueAt [] (rowColumns rows).windowKeys position = .ok row.window.toBinaryKey := by
    simp [valueAt, rowColumns, hRow]
  have hKey : valueAt [] (rowColumns rows).encodedKeys position =
      .ok (encodedPrimitiveSortKey row.key) := by
    simp [valueAt, rowColumns, hRow]
  have hTimestamp : valueAt 0 (rowColumns rows).timestamps position =
      .ok row.element.timestampMillis := by
    simp [valueAt, rowColumns, hRow]
  simp only [pushRecord, hWindow, hKey, hTimestamp, bind, Except.bind,
    BeamWindow.fromBinaryKey_toBinaryKey hFits]
  rfl

/-- The row loop over the rest of a batch. -/
theorem foldlM_pushRecord {rows : List GbkRow} (done rest : List GbkRow)
    (hFits : ∀ row ∈ rows, row.window.CoderIdFits) (hRows : rows = done ++ rest)
    (decoder : SortedGroupDecoder) :
    ((rest.map fun row => BeamRecord.kv row.key row.element.value).zipIdx done.length).foldlM
      (pushRecord (rowColumns rows)) decoder = .ok (rest.foldl pushRow decoder) := by
  induction rest generalizing done decoder with
  | nil => rfl
  | cons row rest ih =>
      have hRow : rows[done.length]? = some row := by
        rw [hRows, List.getElem?_append_right (Nat.le_refl _), Nat.sub_self]
        rfl
      have hStep := pushRecord_eq_ok decoder hRow (hFits row (List.mem_of_getElem? hRow))
      have hNext : rows = (done ++ [row]) ++ rest := by
        rw [hRows, List.append_assoc, List.singleton_append]
      have hRest := ih (done ++ [row]) hNext (decoder.pushRow row)
      rw [List.length_append, List.length_singleton] at hRest
      rw [List.map_cons, List.zipIdx_cons, List.foldlM_cons, hStep, List.foldl_cons]
      exact hRest

/-- Reading a batch adds its rows one by one. -/
theorem pushArrowBatch_eq_ok {batch : RecordBatch} {rows : List GbkRow}
    (h : HoldsRows tableSchema batch rows) (hFits : ∀ row ∈ rows, row.window.CoderIdFits)
    (current : Option InProgressKeyGroup) :
    pushArrowBatch tableSchema current batch =
      .ok (pushBatch current rows) := by
  have hLoop := foldlM_pushRecord [] rows hFits rfl ⟨current, []⟩
  rw [List.length_nil] at hLoop
  rw [pushArrowBatch, h.columns, h.records]
  simp only [bind, Except.bind, Except.mapError, hLoop]
  rfl

/-- Reading batches hands out the groups of all their rows. -/
theorem pushArrowBatches_eq_ok {batches : List RecordBatch} {chunks : List (List GbkRow)}
    (h : List.Forall₂ (HoldsRows tableSchema) batches chunks)
    (hFits : ∀ row ∈ chunks.flatten, row.window.CoderIdFits) (current : Option InProgressKeyGroup) :
    pushArrowBatches tableSchema current batches =
      .ok (chunks.flatten.foldl pushRow ⟨current, []⟩).finish := by
  induction h generalizing current with
  | nil => rfl
  | @cons batch chunk batches chunks hBatch hBatches ih =>
      rw [List.flatten_cons] at hFits
      have hRead := pushArrowBatch_eq_ok hBatch
        (fun row hRow => hFits row (List.mem_append_left _ hRow)) current
      rw [pushBatch] at hRead
      have hLater := ih (fun row hRow => hFits row (List.mem_append_right _ hRow))
        (chunk.foldl pushRow ⟨current, []⟩).current
      have hJoin := foldl_completed chunks.flatten (chunk.foldl pushRow ⟨current, []⟩).current
        (chunk.foldl pushRow ⟨current, []⟩).completed []
      rw [List.append_nil] at hJoin
      simp only [pushArrowBatches, hRead, hLater, bind, Except.bind]
      rw [List.flatten_cons, List.foldl_append, hJoin, finish, finish, List.append_assoc]
      rfl

end SortedGroupDecoder

/-- The batches of the sorted input decode to the groups of a run. -/
theorem pushArrowBatches_decodeSorted {tableSchema : RecordTableSchema} {rows : List GbkRow}
    {batches : List RecordBatch} (hFits : ∀ row ∈ rows, row.window.CoderIdFits)
    (hCut : CutFrom tableSchema (rows.mergeSort GbkRow.atMost) batches) :
    SortedGroupDecoder.pushArrowBatches tableSchema none batches = .ok (decodeSorted rows) := by
  obtain ⟨chunks, hRows, hHold⟩ := hCut
  rw [decodeSorted, ← hRows]
  refine SortedGroupDecoder.pushArrowBatches_eq_ok hHold (fun row hRow => hFits row ?_) none
  rw [hRows] at hRow
  exact (List.mergeSort_perm rows GbkRow.atMost).mem_iff.mp hRow

/-- However a sorted list of rows is cut into batches, the decoder hands out the
same key groups: every key once, every window of a key once, none of them empty,
and their elements are the rows in order. -/
theorem pushArrowBatches_groups (tableSchema : RecordTableSchema) {rows : List GbkRow}
    (hFits : ∀ row ∈ rows, row.window.CoderIdFits)
    (hSorted : rows.Pairwise fun a b => a.atMost b = true) :
    ∃ keyGroups : List DecodedKeyGroup,
      (∀ batches, CutFrom tableSchema rows batches →
        SortedGroupDecoder.pushArrowBatches tableSchema none batches = .ok keyGroups) ∧
      Distinct keyGroups ∧ keyGroups.flatMap DecodedKeyGroup.rows = rows := by
  have hDecoded := Decoding.start.foldl rows hFits hSorted
  refine ⟨_, ?_, hDecoded.distinct, hDecoded.rows⟩
  rintro batches ⟨chunks, rfl, hHold⟩
  exact SortedGroupDecoder.pushArrowBatches_eq_ok hHold hFits none

/-! A key with two windows, cut inside the first of them, with an empty batch
between the pieces. -/

private def cutRow (window : BeamWindow) (number : Int64) : GbkRow :=
  ⟨.bool true, window, .primitive (.int64 number), 10 * number⟩

private def cutBatch (rows : List (BeamWindow × Int64)) : RecordBatch where
  schema :=
    [⟨keyColumn, .boolean, true⟩, ⟨valueColumn, .int64, false⟩,
      ⟨windowTimestampColumn, .int64, false⟩, ⟨windowKeyColumn, .binary, true⟩,
      ⟨groupKeyColumn, .binary, false⟩]
  columns :=
    [.leaf .boolean (rows.map fun _ => some true), .leaf .int64 (rows.map fun row => some row.2),
      .leaf .int64 (rows.map fun row => some (10 * row.2)),
      .leaf .binary (rows.map fun row => some row.1.toBinaryKey),
      .leaf .binary (rows.map fun _ => some (encodedPrimitiveSortKey (.bool true)))]
  numRows := rows.length
  typed := rfl
  aligned := by simp

theorem pushArrowBatches_groups_emptyBetween :
    (∀ row ∈ [cutRow .global 1, cutRow .global 2, cutRow (.interval 0 60) 3],
      row.window.CoderIdFits) ∧
    [cutRow .global 1, cutRow .global 2, cutRow (.interval 0 60) 3].Pairwise
      (fun a b => a.atMost b = true) ∧
    CutFrom ⟨.kv, (cutBatch []).schema, true⟩
      [cutRow .global 1, cutRow .global 2, cutRow (.interval 0 60) 3]
      [cutBatch [(.global, 1)], cutBatch [], cutBatch [(.global, 2), (.interval 0 60, 3)]] ∧
    ∃ keyGroups : List DecodedKeyGroup,
      SortedGroupDecoder.pushArrowBatches ⟨.kv, (cutBatch []).schema, true⟩ none
        [cutBatch [(.global, 1)], cutBatch [], cutBatch [(.global, 2), (.interval 0 60, 3)]] =
        .ok keyGroups ∧
      Distinct keyGroups := by
  have hFits : ∀ row ∈ [cutRow .global 1, cutRow .global 2, cutRow (.interval 0 60) 3],
      row.window.CoderIdFits := by decide
  have hSorted : [cutRow .global 1, cutRow .global 2, cutRow (.interval 0 60) 3].Pairwise
      (fun a b => a.atMost b = true) := by decide +kernel
  have hCut : CutFrom ⟨.kv, (cutBatch []).schema, true⟩
      [cutRow .global 1, cutRow .global 2, cutRow (.interval 0 60) 3]
      [cutBatch [(.global, 1)], cutBatch [], cutBatch [(.global, 2), (.interval 0 60, 3)]] :=
    ⟨[[cutRow .global 1], [], [cutRow .global 2, cutRow (.interval 0 60) 3]], rfl,
      .cons ⟨rfl, rfl⟩ (.cons ⟨rfl, rfl⟩ (.cons ⟨rfl, rfl⟩ .nil))⟩
  obtain ⟨keyGroups, hGroups, hDistinct, -⟩ :=
    pushArrowBatches_groups ⟨.kv, (cutBatch []).schema, true⟩ hFits hSorted
  exact ⟨hFits, hSorted, hCut, keyGroups, hGroups _ hCut, hDistinct⟩

end FlareDB
