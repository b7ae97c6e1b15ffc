import FlareDB.Store.ElementStore
import FlareDB.Store.RecordBatch
import FlareDB.Transforms.GbkConservation

/-! Batches of windowed values: the payload columns of the records with typed
columns for timestamp, windows and pane appended to them. An element's first
window is a scalar; the others are a list in the same row. -/
namespace FlareDB

open Arrow

def windowTimestampColumn : String := "flare_timestamp_millis"
def windowMaxEndColumn : String := "flare_max_window_end_millis"
def windowPaneTimingColumn : String := "flare_pane_timing"
def windowPaneIndexColumn : String := "flare_pane_index"
def windowPaneNonSpeculativeIndexColumn : String := "flare_pane_non_speculative_index"
def windowPaneIsFirstColumn : String := "flare_pane_is_first"
def windowPaneIsLastColumn : String := "flare_pane_is_last"
def windowKeyColumn : String := "flare_window_key"
def windowExtraKeysColumn : String := "flare_extra_window_keys"
def windowCountColumn : String := "flare_window_count"

/-- Largest window count a row can record. -/
def i16Max : Nat := 2 ^ 15 - 1

/-! Window identities. -/

def orderedI64FromBytes (bytes : List UInt8) : Option Int64 :=
  if bytes.length = 8 then some (UInt64.ofNat (BigEndian.toNat bytes) ^^^ signBit).toInt64 else none

/-- Decode a binary window identity; a malformed one is rejected. -/
def BeamWindow.fromBinaryKey : List UInt8 → Option BeamWindow
  | [0] => some .global
  | 1 :: bounds =>
      if bounds.length = 16 then do
        let startMillis ← orderedI64FromBytes (bounds.take 8)
        let endMillis ← orderedI64FromBytes (bounds.drop 8)
        pure (.interval startMillis endMillis)
      else none
  | 2 :: body =>
      let coderEnd := 4 + BigEndian.toNat (body.take 4)
      if 4 ≤ body.length ∧ coderEnd ≤ body.length then do
        let coderId ← String.fromUTF8? ⟨((body.drop 4).take (coderEnd - 4)).toArray⟩
        pure (.opaqueWindow coderId (body.drop coderEnd))
      else none
  | _ => none

instance (window : BeamWindow) : Decidable window.CoderIdFits :=
  match window with
  | .global => .isTrue trivial
  | .interval _ _ => .isTrue trivial
  | .opaqueWindow coderId _ => inferInstanceAs (Decidable ((utf8Bytes coderId).length < 2 ^ 32))

/-- The identity of a window, with the assertion on its coder id. -/
def binaryKey (window : BeamWindow) : Except RecordError (List UInt8) :=
  if window.CoderIdFits then .ok window.toBinaryKey else .error .windowCoderIdExceedsU32

/-- The window keys of a row: the first, the others, and their number. -/
structure WindowKeys where
  first : Option (List UInt8)
  extra : List (List UInt8)
  count : Int16

def windowKeys (windows : List BeamWindow) : Except RecordError WindowKeys :=
  if i16Max < windows.length then .error .windowCountExceedsI16
  else do
    let keys ← windows.mapM binaryKey
    pure ⟨keys.head?, keys.tail, Int16.ofNat windows.length⟩

/-! Appending metadata. -/

def windowFields : List Field :=
  [⟨windowTimestampColumn, .int64, false⟩, ⟨windowMaxEndColumn, .int64, true⟩,
    ⟨windowPaneTimingColumn, .int8, false⟩, ⟨windowPaneIndexColumn, .int64, false⟩,
    ⟨windowPaneNonSpeculativeIndexColumn, .int64, false⟩,
    ⟨windowPaneIsFirstColumn, .boolean, false⟩, ⟨windowPaneIsLastColumn, .boolean, false⟩,
    ⟨windowKeyColumn, .binary, true⟩,
    ⟨windowExtraKeysColumn, .list ⟨"item", .binary, true⟩, false⟩,
    ⟨windowCountColumn, .int16, false⟩]

/-- A builder of lists of keys. Its offsets panic where they pass `i32`. -/
def extraKeysArray (extra : List (List (List UInt8))) : Except RecordError ArrayRef := do
  let offsets ← (buildOffsets (extra.map List.length)).mapError fun _ => .arrow .panic
  let child ← (ArrayRef.ofCells .binary (extra.flatten.map some)).mapError .arrow
  (ArrayRef.newList ⟨"item", .binary, true⟩ offsets child none).mapError .arrow

def windowColumns (metadata : List WindowMetadata) : Except RecordError (List ArrayRef) := do
  let keys ← metadata.mapM fun entry => windowKeys entry.windows
  let first ← (ArrayRef.ofCells .binary (keys.map WindowKeys.first)).mapError .arrow
  let extra ← extraKeysArray (keys.map WindowKeys.extra)
  pure [.leaf .int64 (metadata.map fun entry => some entry.timestampMillis),
    .leaf .int64 (metadata.map WindowMetadata.maxFiniteWindowEndMillis),
    .leaf .int8 (metadata.map fun entry => some entry.pane.timing.bits.toInt8),
    .leaf .int64 (metadata.map fun entry => some entry.pane.index),
    .leaf .int64 (metadata.map fun entry => some entry.pane.nonSpeculativeIndex),
    .leaf .boolean (metadata.map fun entry => some entry.pane.isFirst),
    .leaf .boolean (metadata.map fun entry => some entry.pane.isLast),
    first, extra, .leaf .int16 (keys.map fun entry => some entry.count)]

def appendWindowMetadata (batch : RecordBatch) (metadata : List WindowMetadata) :
    Except RecordError RecordBatch :=
  if batch.numRows ≠ metadata.length then
    .error (.metadataCount metadata.length batch.numRows)
  else do
    let columns ← windowColumns metadata
    (RecordBatch.tryNew (batch.schema ++ windowFields) (batch.columns ++ columns)).mapError .arrow

/-- The batch of a list of windowed values and its schema, which the store
registers for the PCollection unless it has one. -/
def buildWindowedBatch (pcollectionId : String) (values : List WindowedValue) :
    Except RecordError (RecordBatch × RecordTableSchema) := do
  let records := values.map WindowedValue.value
  let baseSchema ← deriveTableSchema pcollectionId records
  let baseBatch ← beamrecordsToRecordBatch records baseSchema
  let appended ← appendWindowMetadata baseBatch (values.map WindowMetadata.ofValue)
  let batch ← materializeVoidColumns appended
  pure (batch, ⟨baseSchema.tableType, batch.schema, true⟩)

/-! Reading. -/

/-- A value in the global window with Beam's minimum timestamp. -/
def WindowedValue.global (value : BeamRecord) : WindowedValue where
  value := value
  timestampMillis := beamMinTimestampMillis
  windows := [.global]
  pane := PaneInfo.noFiring

/-- The metadata columns of a batch. -/
structure WindowColumns where
  timestamps : List (Option Int64)
  paneTimings : List (Option Int8)
  paneIndices : List (Option Int64)
  paneNonSpeculativeIndices : List (Option Int64)
  paneIsFirst : List (Option Bool)
  paneIsLast : List (Option Bool)
  firstWindowKeys : List (Option (List UInt8))
  extraOffsets : List Nat
  extraWindowKeys : List (Option (List UInt8))
  windowCounts : List (Option Int16)

def typedColumn (batch : RecordBatch) (name : String) (type : LeafType) :
    Except RecordError (List (Option type.Cell)) := do
  let column ← columnNamed batch name
  match column.downcast type with
  | some cells => .ok cells
  | none => .error (.expectedArray (.leaf type))

/-- The offsets and the child of a list column of keys. -/
def keyListColumn (batch : RecordBatch) (name : String) :
    Except RecordError (List Nat × List (Option (List UInt8))) := do
  let column ← columnNamed batch name
  match column with
  | .list _ offsets values _ => match values.downcast .binary with
      | some cells => .ok (offsets.offsets, cells)
      | none => .error (.expectedArray .binary)
  | other => .error (.expectedListColumn other.dataType)

def windowColumnsOf (batch : RecordBatch) : Except RecordError WindowColumns := do
  let timestamps ← typedColumn batch windowTimestampColumn .int64
  let paneTimings ← typedColumn batch windowPaneTimingColumn .int8
  let paneIndices ← typedColumn batch windowPaneIndexColumn .int64
  let paneNonSpeculativeIndices ← typedColumn batch windowPaneNonSpeculativeIndexColumn .int64
  let paneIsFirst ← typedColumn batch windowPaneIsFirstColumn .boolean
  let paneIsLast ← typedColumn batch windowPaneIsLastColumn .boolean
  let firstWindowKeys ← typedColumn batch windowKeyColumn .binary
  let (extraOffsets, extraWindowKeys) ← keyListColumn batch windowExtraKeysColumn
  let windowCounts ← typedColumn batch windowCountColumn .int16
  pure { timestamps, paneTimings, paneIndices, paneNonSpeculativeIndices, paneIsFirst, paneIsLast,
         firstWindowKeys, extraOffsets, extraWindowKeys, windowCounts }

/-- A cell of a column that is read without looking at its mask. -/
def cellAt {α : Type} (cells : List (Option α)) (row : Nat) : Except RecordError α :=
  match cells[row]? with
  | some (some value) => .ok value
  | _ => .error (.arrow .panic)

def offsetAt (offsets : List Nat) (row : Nat) : Except RecordError Nat :=
  match offsets[row]? with
  | some offset => .ok offset
  | none => .error (.arrow .panic)

def windowOfKey (column : String) (row : Nat) (key : List UInt8) : Except RecordError BeamWindow :=
  match BeamWindow.fromBinaryKey key with
  | some window => .ok window
  | none => .error (.malformedWindowKey column row)

def firstWindow (columns : WindowColumns) (row declaredCount : Nat) :
    Except RecordError (List BeamWindow) :=
  if 0 < declaredCount then
    match columns.firstWindowKeys[row]? with
    | some (some key) => do
        let window ← windowOfKey windowKeyColumn row key
        pure [window]
    | _ => .error (.nullWindowKey windowKeyColumn row)
  else .ok []

def extraWindow (columns : WindowColumns) (row index : Nat) : Except RecordError BeamWindow :=
  match columns.extraWindowKeys[index]? with
  | some (some key) => windowOfKey windowExtraKeysColumn row key
  | _ => .error (.nullWindowKey windowExtraKeysColumn row)

/-- The windows of a row, once the declared count matches the stored keys. -/
def rowWindows (columns : WindowColumns) (row : Nat) : Except RecordError (List BeamWindow) := do
  let start ← offsetAt columns.extraOffsets row
  let finish ← offsetAt columns.extraOffsets (row + 1)
  let count ← cellAt columns.windowCounts row
  let present := (columns.firstWindowKeys[row]?.join).isSome
  if count.toInt ≠ ((finish - start : Nat) : Int) + (if present then 1 else 0) then
    .error (.windowCountMismatch row)
  else do
    let first ← firstWindow columns row count.toInt.toNat
    let extra ← (List.range' start (finish - start)).mapM (extraWindow columns row)
    pure (first ++ extra)

def windowedRow (columns : WindowColumns) (entry : BeamRecord × Nat) :
    Except RecordError WindowedValue := do
  let windows ← rowWindows columns entry.2
  let timestampMillis ← cellAt columns.timestamps entry.2
  let isFirst ← cellAt columns.paneIsFirst entry.2
  let isLast ← cellAt columns.paneIsLast entry.2
  let timing ← cellAt columns.paneTimings entry.2
  let index ← cellAt columns.paneIndices entry.2
  let nonSpeculativeIndex ← cellAt columns.paneNonSpeculativeIndices entry.2
  pure { value := entry.1, timestampMillis, windows,
         pane := { isFirst, isLast, timing := PaneTiming.fromBits timing.toUInt8, index,
                   nonSpeculativeIndex } }

def windowedValuesFromBatch (batch : RecordBatch) (tableSchema : RecordTableSchema) :
    Except RecordError (List WindowedValue) := do
  let records ← recordBatchToBeamrecords batch tableSchema
  if tableSchema.hasWindowedMetadata then do
    let columns ← windowColumnsOf batch
    records.zipIdx.mapM (windowedRow columns)
  else .ok (records.map WindowedValue.global)

end FlareDB
