import FlareDB.Store.VoidSurrogate
import FlareDB.Store.WindowedBatch

/-! Reading a built batch of windowed values. Metadata comes back as it was; the
records come back as they were exactly when the tuples of a position have the
same number of components. -/
namespace FlareDB

open Arrow Results

/-! Window identities. -/

/-- The order-preserving bytes of a time are read back. -/
theorem orderedI64FromBytes_orderedI64Bytes (value : Int64) :
    orderedI64FromBytes (orderedI64Bytes value) = some value := by
  have hLength : (orderedI64Bytes value).length = 8 := BigEndian.toBytes_length 8 _
  have hNat : BigEndian.toNat (orderedI64Bytes value) = (value.toUInt64 ^^^ signBit).toNat :=
    BigEndian.toNat_toBytes_of_lt (UInt64.toNat_lt _)
  have hBack : value.toUInt64 ^^^ signBit ^^^ signBit = value.toUInt64 := by
    rw [UInt64.xor_assoc, UInt64.xor_self, UInt64.xor_zero]
  rw [orderedI64FromBytes, if_pos hLength, hNat, UInt64.ofNat_toNat, hBack, Int64.toInt64_toUInt64]

/-- A window is read back from its binary key. -/
theorem BeamWindow.fromBinaryKey_toBinaryKey {window : BeamWindow} (h : window.CoderIdFits) :
    BeamWindow.fromBinaryKey window.toBinaryKey = some window := by
  cases window with
  | global => rfl
  | interval startMillis endMillis =>
      have hStart : (orderedI64Bytes startMillis).length = 8 := BigEndian.toBytes_length 8 _
      have hEnd : (orderedI64Bytes endMillis).length = 8 := BigEndian.toBytes_length 8 _
      have hTake : (orderedI64Bytes startMillis ++ orderedI64Bytes endMillis).take 8 =
          orderedI64Bytes startMillis := by
        rw [← hStart, List.take_left]
      have hDrop : (orderedI64Bytes startMillis ++ orderedI64Bytes endMillis).drop 8 =
          orderedI64Bytes endMillis := by
        rw [← hStart, List.drop_left]
      rw [toBinaryKey, fromBinaryKey, if_pos (by simp [hStart, hEnd]), hTake, hDrop,
        orderedI64FromBytes_orderedI64Bytes, orderedI64FromBytes_orderedI64Bytes]
      rfl
  | opaqueWindow coderId bytes =>
      have hCount : (BigEndian.toBytes 4 (utf8Bytes coderId).length).length = 4 :=
        BigEndian.toBytes_length 4 _
      have hNat : BigEndian.toNat (BigEndian.toBytes 4 (utf8Bytes coderId).length) =
          (utf8Bytes coderId).length := BigEndian.toNat_toBytes_of_lt h
      rw [toBinaryKey]
      generalize hBody : BigEndian.toBytes 4 (utf8Bytes coderId).length ++ (utf8Bytes coderId ++ bytes)
        = body
      have hTake : body.take 4 = BigEndian.toBytes 4 (utf8Bytes coderId).length := by
        rw [← hBody, List.take_left' hCount]
      have hDrop : body.drop 4 = utf8Bytes coderId ++ bytes := by
        rw [← hBody, List.drop_left' hCount]
      have hLength : body.length = 4 + ((utf8Bytes coderId).length + bytes.length) := by
        rw [← hBody, List.length_append, hCount, List.length_append]
      have hRest : body.drop (4 + (utf8Bytes coderId).length) = bytes := by
        rw [← List.drop_drop, hDrop, List.drop_left]
      rw [fromBinaryKey, hTake, hNat]
      rw [if_pos (by omega), hDrop, Nat.add_sub_cancel_left, List.take_left, fromUTF8_utf8Bytes, hRest]
      rfl

/-- A window whose key is accepted can be read back from it. -/
theorem binaryKey_eq_ok {window : BeamWindow} {key : List UInt8}
    (h : binaryKey window = .ok key) : BeamWindow.fromBinaryKey key = some window := by
  rw [binaryKey] at h
  split at h
  · next hFits =>
      cases h
      exact BeamWindow.fromBinaryKey_toBinaryKey hFits
  · cases h

/-- What the keys of a row record about its windows. -/
theorem windowKeys_eq_ok {windows : List BeamWindow} {entry : WindowKeys}
    (h : windowKeys windows = .ok entry) :
    entry.count.toInt = windows.length ∧
      List.Forall₂ (fun window key => BeamWindow.fromBinaryKey key = some window) windows
        (entry.first.toList ++ entry.extra) ∧
      (entry.first = none → windows = []) := by
  rw [windowKeys] at h
  split at h
  · cases h
  · next hCount =>
      obtain ⟨keys, hKeys, hPure⟩ := bind_eq_ok h
      cases hPure
      have hKeys := mapM_eq_ok_iff.mp hKeys
      have hSmall : windows.length ≤ i16Max := Nat.le_of_not_lt hCount
      refine ⟨Int16.toInt_ofNat_of_lt (by simp only [i16Max] at hSmall; omega), ?_, ?_⟩
      · have hSplit : keys.head?.toList ++ keys.tail = keys := by cases keys <;> rfl
        rw [hSplit]
        exact hKeys.imp fun _ _ hKey => binaryKey_eq_ok hKey
      · intro hNone
        cases hKeys with
        | nil => rfl
        | cons _ _ => cases hNone

/-- The columns as they are written for rows with these keys. -/
structure WindowColumns.Hold (columns : WindowColumns) (keys : List WindowKeys) : Prop where
  first : columns.firstWindowKeys = keys.map WindowKeys.first
  offsets : columns.extraOffsets = ((keys.map WindowKeys.extra).map List.length).scanl (· + ·) 0
  extra : columns.extraWindowKeys = (keys.map WindowKeys.extra).flatten.map some
  counts : columns.windowCounts = keys.map fun entry => some entry.count

/-- The first window and the others, read from the keys of a row. -/
theorem firstWindow_eq_ok {columns : WindowColumns} {row : Nat} {first : Option (List UInt8)}
    {windows : List BeamWindow} (hCell : columns.firstWindowKeys[row]? = some first)
    (hKey : List.Forall₂ (fun window key => BeamWindow.fromBinaryKey key = some window) windows
      first.toList) {count : Nat} (hCount : 0 < count ↔ first.isSome) :
    firstWindow columns row count = .ok windows := by
  cases first with
  | none =>
      cases hKey
      have hZero : ¬ 0 < count := by simp [hCount]
      rw [firstWindow, if_neg hZero]
  | some key =>
      have hPositive : 0 < count := hCount.mpr rfl
      cases hKey with
      | cons hHead hTail =>
          cases hTail
          simp [firstWindow, hPositive, hCell, windowOfKey, hHead, bind, Except.bind, pure,
            Except.pure]

/-- An extra window is read back from its cell. -/
theorem extraWindow_eq_ok {columns : WindowColumns} {row index : Nat} {key : List UInt8}
    {window : BeamWindow} (hCell : columns.extraWindowKeys[index]? = some (some key))
    (hKey : BeamWindow.fromBinaryKey key = some window) :
    extraWindow columns row index = .ok window := by
  simp [extraWindow, hCell, windowOfKey, hKey]

/-- A row's windows are read back, the first from its own column and the others
from the list. -/
theorem rowWindows_eq_ok {columns : WindowColumns} {keys : List WindowKeys}
    (hHold : columns.Hold keys) {row : Nat} {entry : WindowKeys} {windows : List BeamWindow}
    (hRow : keys[row]? = some entry) (hKeys : windowKeys windows = .ok entry) :
    rowWindows columns row = .ok windows := by
  obtain ⟨hCount, hWindows, hNone⟩ := windowKeys_eq_ok hKeys
  have hList : (keys.map WindowKeys.extra)[row]? = some entry.extra := by simp [hRow]
  obtain ⟨start, hStart, hFinish, hExtra⟩ := OffsetBuffer.delimits _ 0 hList
  rw [Nat.zero_add, ← hHold.offsets] at hStart hFinish
  have hStartAt : offsetAt columns.extraOffsets row = .ok start := by
    simp [offsetAt, hStart]
  have hFinishAt : offsetAt columns.extraOffsets (row + 1) = .ok (start + entry.extra.length) := by
    simp [offsetAt, hFinish]
  have hCountAt : cellAt columns.windowCounts row = .ok entry.count := by
    simp [cellAt, hHold.counts, hRow]
  have hFirstCell : columns.firstWindowKeys[row]? = some entry.first := by
    simp [hHold.first, hRow]
  have hFirsts := List.forall₂_take_append _ _ _ hWindows
  have hOthers := List.forall₂_drop_append _ _ _ hWindows
  have hSplit := List.take_append_drop entry.first.toList.length windows
  generalize windows.take entry.first.toList.length = firsts at hFirsts hSplit
  generalize windows.drop entry.first.toList.length = others at hOthers hSplit
  subst hSplit
  have hLengths := hFirsts.length_eq
  have hOtherLengths := hOthers.length_eq
  rw [List.length_append] at hCount
  have hFirst : firstWindow columns row entry.count.toInt.toNat = .ok firsts := by
    refine firstWindow_eq_ok hFirstCell hFirsts ?_
    rw [hCount, Int.toNat_natCast]
    cases hEntry : entry.first with
    | none =>
        have hEmpty := congrArg List.length (hNone hEntry)
        rw [List.length_append, List.length_nil] at hEmpty
        simp [hEmpty]
    | some key =>
        rw [hEntry, Option.toList_some, List.length_singleton] at hLengths
        simp only [Option.isSome_some, iff_true]
        omega
  have hRest : (List.range' start entry.extra.length).mapM (extraWindow columns row) =
      .ok others := by
    rw [← hOtherLengths]
    refine mapM_range'_eq_ok (fun index window hWindow => ?_)
    obtain ⟨key, hKey, hDecoded⟩ := forall₂_row hOthers hWindow
    refine extraWindow_eq_ok ?_ hDecoded
    rw [hHold.extra, List.getElem?_map, hExtra index key hKey]
    rfl
  have hMatch : entry.count.toInt = ((start + entry.extra.length - start : Nat) : Int) +
      (if (columns.firstWindowKeys[row]?.join).isSome then 1 else 0) := by
    rw [hCount, hFirstCell, Nat.add_sub_cancel_left, ← hOtherLengths]
    cases hEntry : entry.first with
    | none => simp [hEntry] at hLengths; simp [hLengths]
    | some key => simp [hEntry] at hLengths; simp [hLengths]; omega
  simp only [rowWindows, hStartAt, hFinishAt, hCountAt, bind, Except.bind]
  rw [if_neg (not_not_intro hMatch), Nat.add_sub_cancel_left, hFirst, hRest]
  rfl

/-! Metadata columns. -/

@[simp] theorem PaneTiming.fromBits_bits (timing : PaneTiming) :
    PaneTiming.fromBits timing.bits = timing := by
  cases timing <;> decide

/-- What the list column of extra windows holds once it is built. -/
theorem extraKeysArray_eq_ok {extra : List (List (List UInt8))} {array : ArrayRef}
    (h : extraKeysArray extra = .ok array) :
    ∃ offsets : OffsetBuffer, offsets.offsets = (extra.map List.length).scanl (· + ·) 0 ∧
      array = .list ⟨"item", .binary, true⟩ offsets (.leaf .binary (extra.flatten.map some)) none := by
  obtain ⟨offsets, hOffsets, hRest⟩ := bind_eq_ok h
  obtain ⟨child, hChild, hNew⟩ := bind_eq_ok hRest
  obtain ⟨rfl, -, -⟩ := ArrayRef.newList_eq_ok (mapError_eq_ok hNew)
  rw [ArrayRef.ofCells_eq_ok (mapError_eq_ok hChild)]
  exact ⟨offsets, buildOffsets_eq_ok (mapError_eq_ok hOffsets), rfl⟩

/-- The metadata columns as reading finds them, for rows with these keys. -/
def writtenColumns (metadata : List WindowMetadata) (keys : List WindowKeys) : WindowColumns where
  timestamps := metadata.map fun entry => some entry.timestampMillis
  paneTimings := metadata.map fun entry => some entry.pane.timing.bits.toInt8
  paneIndices := metadata.map fun entry => some entry.pane.index
  paneNonSpeculativeIndices := metadata.map fun entry => some entry.pane.nonSpeculativeIndex
  paneIsFirst := metadata.map fun entry => some entry.pane.isFirst
  paneIsLast := metadata.map fun entry => some entry.pane.isLast
  firstWindowKeys := keys.map WindowKeys.first
  extraOffsets := ((keys.map WindowKeys.extra).map List.length).scanl (· + ·) 0
  extraWindowKeys := (keys.map WindowKeys.extra).flatten.map some
  windowCounts := keys.map fun entry => some entry.count

/-- The columns that are written hold the keys they were written from. -/
theorem writtenColumns_hold (metadata : List WindowMetadata) (keys : List WindowKeys) :
    (writtenColumns metadata keys).Hold keys :=
  ⟨rfl, rfl, rfl, rfl⟩

/-- A row of the metadata columns gives back the element's metadata. -/
theorem windowedRow_eq_ok {metadata : List WindowMetadata} {keys : List WindowKeys}
    (hKeys : List.Forall₂ (fun entry key => windowKeys entry.windows = .ok key) metadata keys)
    {row : Nat} {value : WindowedValue} (hRow : metadata[row]? = some (WindowMetadata.ofValue value))
    (record : BeamRecord) :
    windowedRow (writtenColumns metadata keys) (record, row) = .ok { value with value := record } := by
  obtain ⟨key, hKey, hEntry⟩ := forall₂_row hKeys hRow
  have hWindows := rowWindows_eq_ok (writtenColumns_hold metadata keys) hKey hEntry
  simp only [windowedRow, hWindows, bind, Except.bind]
  simp [cellAt, writtenColumns, hRow, WindowMetadata.ofValue, pure, Except.pure]

/-- Names of the payload columns. -/
def PayloadNames (fields : List Field) : Prop :=
  ∀ field ∈ fields, field.name = keyColumn ∨ field.name = valueColumn

/-- The metadata columns as they are appended, for rows with these keys. -/
def metadataArrays (metadata : List WindowMetadata) (keys : List WindowKeys)
    (offsets : OffsetBuffer) : List ArrayRef :=
  [.leaf .int64 (metadata.map fun entry => some entry.timestampMillis),
    .leaf .int64 (metadata.map WindowMetadata.maxFiniteWindowEndMillis),
    .leaf .int8 (metadata.map fun entry => some entry.pane.timing.bits.toInt8),
    .leaf .int64 (metadata.map fun entry => some entry.pane.index),
    .leaf .int64 (metadata.map fun entry => some entry.pane.nonSpeculativeIndex),
    .leaf .boolean (metadata.map fun entry => some entry.pane.isFirst),
    .leaf .boolean (metadata.map fun entry => some entry.pane.isLast),
    .leaf .binary (keys.map WindowKeys.first),
    .list ⟨"item", .binary, true⟩ offsets
      (.leaf .binary ((keys.map WindowKeys.extra).flatten.map some)) none,
    .leaf .int16 (keys.map fun entry => some entry.count)]

/-- What the window columns hold once they are built. -/
theorem windowColumns_eq_ok {metadata : List WindowMetadata} {columns : List ArrayRef}
    (h : windowColumns metadata = .ok columns) :
    ∃ keys offsets, List.Forall₂ (fun entry key => windowKeys entry.windows = .ok key) metadata keys ∧
      offsets.offsets = ((keys.map WindowKeys.extra).map List.length).scanl (· + ·) 0 ∧
      columns = metadataArrays metadata keys offsets := by
  obtain ⟨keys, hKeys, hRest⟩ := bind_eq_ok h
  obtain ⟨first, hFirst, hRest⟩ := bind_eq_ok hRest
  obtain ⟨extra, hExtra, hPure⟩ := bind_eq_ok hRest
  cases hPure
  obtain ⟨offsets, hOffsets, rfl⟩ := extraKeysArray_eq_ok hExtra
  rw [ArrayRef.ofCells_eq_ok (mapError_eq_ok hFirst)]
  exact ⟨keys, offsets, mapM_eq_ok_iff.mp hKeys, hOffsets, rfl⟩

/-- A column behind the payload is found by its name. -/
theorem columnNamed_append {batch : RecordBatch} {fields rest : List Field}
    {columns others : List ArrayRef} (hSchema : batch.schema = fields ++ rest)
    (hColumns : batch.columns = columns ++ others) (hLength : fields.length = columns.length)
    {name : String} (hName : ∀ field ∈ fields, field.name ≠ name) {column : ArrayRef}
    (hFind : ((rest.zip others).find? fun entry => entry.1.name == name).map (·.2) = some column) :
    columnNamed batch name = .ok column := by
  have hNone : (fields.zip columns).find? (fun entry => entry.1.name == name) = none := by
    rw [List.find?_eq_none]
    intro entry hMem
    simpa using hName entry.1 (List.of_mem_zip hMem).1
  rw [columnNamed, RecordBatch.columnByName, hSchema, hColumns, List.zip_append hLength,
    List.find?_append, hNone, Option.none_or, hFind]

theorem typedColumn_append {batch : RecordBatch} {name : String} {type : LeafType}
    {cells : List (Option type.Cell)} (h : columnNamed batch name = .ok (.leaf type cells)) :
    typedColumn batch name type = .ok cells := by
  simp [typedColumn, h, bind, Except.bind]

/-- A metadata column is found behind the payload. -/
theorem metadataColumn_eq_ok {batch : RecordBatch} {fields : List Field} {columns : List ArrayRef}
    {metadata : List WindowMetadata} {keys : List WindowKeys} {offsets : OffsetBuffer}
    (hSchema : batch.schema = fields ++ windowFields)
    (hColumns : batch.columns = columns ++ metadataArrays metadata keys offsets)
    (hLength : fields.length = columns.length) (hNames : PayloadNames fields) {name : String}
    {column : ArrayRef} (hKey : keyColumn ≠ name) (hValue : valueColumn ≠ name)
    (hFound : ((windowFields.zip (metadataArrays metadata keys offsets)).find?
      fun entry => entry.1.name == name).map (·.2) = some column) :
    columnNamed batch name = .ok column := by
  refine columnNamed_append hSchema hColumns hLength ?_ hFound
  intro field hMem hEq
  rcases hNames field hMem with hName | hName
  · exact hKey (hName.symm.trans hEq)
  · exact hValue (hName.symm.trans hEq)

/-- The window columns are found again behind the element columns. -/
theorem windowColumnsOf_eq_ok {batch : RecordBatch} {fields : List Field} {columns : List ArrayRef}
    {metadata : List WindowMetadata} {keys : List WindowKeys} {offsets : OffsetBuffer}
    (hSchema : batch.schema = fields ++ windowFields)
    (hColumns : batch.columns = columns ++ metadataArrays metadata keys offsets)
    (hLength : fields.length = columns.length) (hNames : PayloadNames fields)
    (hOffsets : offsets.offsets = ((keys.map WindowKeys.extra).map List.length).scanl (· + ·) 0) :
    windowColumnsOf batch = .ok (writtenColumns metadata keys) := by
  have hFind : ∀ name column, keyColumn ≠ name → valueColumn ≠ name →
      ((windowFields.zip (metadataArrays metadata keys offsets)).find?
        fun entry => entry.1.name == name).map (·.2) = some column →
      columnNamed batch name = .ok column := fun _ _ hKey hValue hFound =>
    metadataColumn_eq_ok hSchema hColumns hLength hNames hKey hValue hFound
  have hTimestamps := hFind windowTimestampColumn _ (by decide) (by decide) rfl
  have hTimings := hFind windowPaneTimingColumn _ (by decide) (by decide) rfl
  have hIndices := hFind windowPaneIndexColumn _ (by decide) (by decide) rfl
  have hOthers := hFind windowPaneNonSpeculativeIndexColumn _ (by decide) (by decide) rfl
  have hIsFirst := hFind windowPaneIsFirstColumn _ (by decide) (by decide) rfl
  have hIsLast := hFind windowPaneIsLastColumn _ (by decide) (by decide) rfl
  have hKeyCells := hFind windowKeyColumn _ (by decide) (by decide) rfl
  have hExtra := hFind windowExtraKeysColumn _ (by decide) (by decide) rfl
  have hCounts := hFind windowCountColumn _ (by decide) (by decide) rfl
  have hExtraCells : keyListColumn batch windowExtraKeysColumn =
      .ok (offsets.offsets, (keys.map WindowKeys.extra).flatten.map some) := by
    simp only [keyListColumn, hExtra, bind, Except.bind, ArrayRef.downcast_leaf]
    rfl
  simp only [windowColumnsOf, typedColumn_append hTimestamps, typedColumn_append hTimings,
    typedColumn_append hIndices, typedColumn_append hOthers, typedColumn_append hIsFirst,
    typedColumn_append hIsLast, typedColumn_append hKeyCells, hExtraCells,
    typedColumn_append hCounts, bind, Except.bind, hOffsets]
  rfl

/-! The surrogate pass. -/

/-- Surrogates are put in child by child. -/
theorem materializeVoidChildren_append {fields rest : List Field} {children others : List ArrayRef}
    (hLength : fields.length = children.length) {newChildren : List ArrayRef}
    (h : materializeVoidChildren (children ++ others) (fields ++ rest) = .ok newChildren) :
    ∃ first second, newChildren = first ++ second ∧
      materializeVoidChildren children fields = .ok first ∧
      materializeVoidChildren others rest = .ok second := by
  induction fields generalizing children newChildren with
  | nil =>
      cases children with
      | nil => exact ⟨[], newChildren, rfl, rfl, h⟩
      | cons _ _ => simp at hLength
  | cons field fields ih =>
      cases children with
      | nil => simp at hLength
      | cons child children =>
          obtain ⟨newChild, hChild, hRest⟩ := bind_eq_ok h
          obtain ⟨newRest, hNewRest, hPure⟩ := bind_eq_ok hRest
          cases hPure
          obtain ⟨first, second, rfl, hFirst, hSecond⟩ := ih (by simpa using hLength) hNewRest
          refine ⟨newChild :: first, second, rfl, ?_, hSecond⟩
          simp only [materializeVoidChildren, hChild, hFirst, bind, Except.bind]
          rfl

/-- Surrogates change the number of children not at all. -/
theorem materializeVoidChildren_length {fields : List Field} {children newChildren : List ArrayRef}
    (h : materializeVoidChildren children fields = .ok newChildren) :
    newChildren.length = fields.length := by
  induction fields generalizing children newChildren with
  | nil => cases h; rfl
  | cons field fields ih =>
      cases children with
      | nil => cases h
      | cons child children =>
          obtain ⟨newChild, hChild, hRest⟩ := bind_eq_ok h
          obtain ⟨newRest, hNewRest, hPure⟩ := bind_eq_ok hRest
          cases hPure
          rw [List.length_cons, List.length_cons, ih hNewRest]

/-- Children without Null are left as they are. -/
theorem materializeVoidChildren_unchanged {fields : List Field} {children newChildren : List ArrayRef}
    (hPlain : List.Forall₂ (fun (field : Field) child => ∀ newChild,
      materializeVoidArray child field.dataType = .ok newChild → newChild = child) fields children)
    (h : materializeVoidChildren children fields = .ok newChildren) : newChildren = children := by
  induction hPlain generalizing newChildren with
  | nil => cases h; rfl
  | cons hHead hTail ih =>
      obtain ⟨newChild, hChild, hRest⟩ := bind_eq_ok h
      obtain ⟨newRest, hNewRest, hPure⟩ := bind_eq_ok hRest
      cases hPure
      rw [hHead newChild hChild, ih hNewRest]

/-- Metadata columns hold no `Null` and pass unchanged. -/
theorem materializeVoidChildren_metadata {metadata : List WindowMetadata} {keys : List WindowKeys}
    {offsets : OffsetBuffer} {columns : List ArrayRef}
    (h : materializeVoidChildren (metadataArrays metadata keys offsets) windowFields = .ok columns) :
    columns = metadataArrays metadata keys offsets := by
  have hLeaf : ∀ (type : LeafType) cells, type ≠ .null → ∀ newChild,
      materializeVoidArray (.leaf type cells) (.leaf type) = .ok newChild →
        newChild = .leaf type cells := by
    intro type cells hNull newChild hNew
    cases type <;> first | exact absurd rfl hNull | exact (Except.ok.inj hNew).symm
  have hList : ∀ (item : Field) values newChild, materializeVoidField item = item →
      materializeVoidArray values item.dataType = .ok values →
      materializeVoidArray (.list item offsets values none) (.list item) = .ok newChild →
        newChild = .list item offsets values none := by
    intro item values newChild hItem hValues hNew
    rw [materializeVoidArray, hValues, hItem] at hNew
    exact (ArrayRef.newList_eq_ok (mapError_eq_ok hNew)).1
  refine materializeVoidChildren_unchanged ?_ h
  refine .cons (hLeaf _ _ (by decide)) (.cons (hLeaf _ _ (by decide)) (.cons (hLeaf _ _ (by decide))
    (.cons (hLeaf _ _ (by decide)) (.cons (hLeaf _ _ (by decide)) (.cons (hLeaf _ _ (by decide))
    (.cons (hLeaf _ _ (by decide)) (.cons (hLeaf _ _ (by decide)) (.cons ?_
    (.cons (hLeaf _ _ (by decide)) .nil)))))))))
  intro newChild hNew
  exact hList _ _ newChild rfl rfl hNew

/-- What the batch of windowed values holds: the payload columns with their
surrogates, and behind them the metadata columns. -/
structure BatchHolds (batch : RecordBatch) (fields : List Field) (baseColumns : List ArrayRef)
    (metadata : List WindowMetadata) (keys : List WindowKeys) (offsets : OffsetBuffer)
    (payload : List ArrayRef) : Prop where
  schema : batch.schema = materializeVoidSchema fields ++ windowFields
  columns : batch.columns = payload ++ metadataArrays metadata keys offsets
  length : payload.length = fields.length
  rows : batch.numRows = metadata.length
  keep : ChildrenKeep fields baseColumns payload
  written : List.Forall₂ (fun entry key => windowKeys entry.windows = .ok key) metadata keys
  delimited : offsets.offsets = ((keys.map WindowKeys.extra).map List.length).scanl (· + ·) 0

/-- No window column is of type Null. -/
theorem materializeVoidSchema_windowFields :
    materializeVoidSchema windowFields = windowFields := by decide

/-- A batch that was stored holds its elements and windows, surrogates and all. -/
theorem materializeVoidColumns_holds {base appended batch : RecordBatch}
    {metadata : List WindowMetadata} (hAppend : appendWindowMetadata base metadata = .ok appended)
    (hNew : materializeVoidColumns appended = .ok batch) :
    ∃ keys offsets payload,
      BatchHolds batch base.schema base.columns metadata keys offsets payload := by
  rw [appendWindowMetadata] at hAppend
  split at hAppend
  · cases hAppend
  · obtain ⟨columns, hColumns, hBatch⟩ := bind_eq_ok hAppend
    obtain ⟨hSchema, hAll⟩ := RecordBatch.tryNew_eq_ok (mapError_eq_ok hBatch)
    obtain ⟨keys, offsets, hKeys, hOffsets, rfl⟩ := windowColumns_eq_ok hColumns
    have hLength : base.schema.length = base.columns.length := by
      have hTyped := congrArg List.length base.typed
      simpa using hTyped.symm
    have hMat : materializeVoidSchema appended.schema =
        materializeVoidSchema base.schema ++ windowFields := by
      rw [hSchema, materializeVoidSchema, List.map_append]
      exact congrArg _ materializeVoidSchema_windowFields
    have hRows : ∀ new : RecordBatch, (∃ payload, new.columns =
        payload ++ metadataArrays metadata keys offsets) → new.numRows = metadata.length := by
      rintro new ⟨payload, hPayload⟩
      have hAligned := new.aligned (.leaf .int64 (metadata.map fun entry => some entry.timestampMillis))
        (by rw [hPayload]; simp [metadataArrays])
      rw [← hAligned, ArrayRef.len_leaf, List.length_map]
    simp only [materializeVoidColumns] at hNew
    split at hNew
    · next hSame =>
        cases hNew
        have hFields : ∀ field ∈ base.schema, materializeVoidField field = field := by
          rw [hMat, hSchema] at hSame
          have hEq := List.append_cancel_right hSame
          have hMap : base.schema.map materializeVoidField = base.schema.map id := by
            rw [List.map_id]
            exact hEq
          exact List.map_inj_left.mp hMap
        refine ⟨keys, offsets, base.columns, ⟨?_, hAll, hLength.symm, hRows _ ⟨_, hAll⟩, ?_, hKeys,
          hOffsets⟩⟩
        · rw [← hMat, hSame]
        · intro index field hField
          obtain ⟨child, hChild⟩ : ∃ child, base.columns[index]? = some child := by
            have hLt := (List.getElem?_eq_some_iff.mp hField).1
            exact ⟨_, List.getElem?_eq_getElem (by omega)⟩
          have hType := materializeVoidField_dataType field
          rw [hFields field (List.mem_of_getElem? hField)] at hType
          refine ⟨child, child, hChild, hChild, ?_⟩
          rw [← hType]
          exact Keeps.refl _ _
    · obtain ⟨newColumns, hNewColumns, hTry⟩ := bind_eq_ok hNew
      obtain ⟨hNewSchema, hNewAll⟩ := RecordBatch.tryNew_eq_ok (mapError_eq_ok hTry)
      rw [hSchema, hAll] at hNewColumns
      obtain ⟨payload, others, rfl, hPayload, hOthers⟩ :=
        materializeVoidChildren_append hLength hNewColumns
      cases materializeVoidChildren_metadata hOthers
      exact ⟨keys, offsets, payload, hNewSchema.trans hMat, hNewAll,
        materializeVoidChildren_length hPayload, hRows _ ⟨_, hNewAll⟩,
        materializeVoidChildren_keep _ hPayload, hKeys, hOffsets⟩

/-! Payload columns. -/

/-- A column has the type that the schema gives it. -/
theorem RecordBatch.typed_row {batch : RecordBatch} {index : Nat} {field : Field} {column : ArrayRef}
    (hField : batch.schema[index]? = some field) (hColumn : batch.columns[index]? = some column) :
    column.dataType = field.dataType := by
  have hTyped := congrArg (fun types => types[index]?) batch.typed
  simp only [List.getElem?_map, hField, hColumn, Option.map_some] at hTyped
  exact Option.some.inj hTyped

theorem columnNamed_first {batch : RecordBatch} {field : Field} {fields : List Field}
    {column : ArrayRef} {columns : List ArrayRef} (hSchema : batch.schema = field :: fields)
    (hColumns : batch.columns = column :: columns) :
    columnNamed batch field.name = .ok column ∧ column.dataType = field.dataType := by
  have hField : batch.schema[0]? = some field := by rw [hSchema]; rfl
  have hColumn : batch.columns[0]? = some column := by rw [hColumns]; rfl
  refine ⟨?_, RecordBatch.typed_row hField hColumn⟩
  simp [columnNamed, RecordBatch.columnByName, hSchema, hColumns]

theorem columnNamed_second {batch : RecordBatch} {field other : Field} {fields : List Field}
    {column second : ArrayRef} {columns : List ArrayRef}
    (hSchema : batch.schema = field :: other :: fields)
    (hColumns : batch.columns = column :: second :: columns) (hNames : field.name ≠ other.name) :
    columnNamed batch other.name = .ok second ∧ second.dataType = other.dataType := by
  have hField : batch.schema[1]? = some other := by rw [hSchema]; rfl
  have hColumn : batch.columns[1]? = some second := by rw [hColumns]; rfl
  refine ⟨?_, RecordBatch.typed_row hField hColumn⟩
  simp [columnNamed, RecordBatch.columnByName, hSchema, hColumns, hNames]

/-- A loop over the rows of a batch that reads one record a row. -/
theorem readRows_eq_ok {read : Nat → Except RecordError BeamRecord} {count : Nat}
    {records : List BeamRecord} {transform : BeamRecord → BeamRecord}
    (hCount : count = records.length)
    (h : ∀ (row : Nat) record, records[row]? = some record → read row = .ok (transform record)) :
    (List.range count).mapM read = .ok (records.map transform) := by
  rw [hCount, List.range_eq_range', ← List.length_map transform]
  refine mapM_range'_eq_ok (fun row value hRow => ?_)
  rw [List.getElem?_map] at hRow
  obtain ⟨record, hRecord, rfl⟩ := Option.map_eq_some_iff.mp hRow
  rw [Nat.zero_add]
  exact h row record hRecord

/-- A record with its value clipped to the type of the value column. -/
def clipRecord : DataType → BeamRecord → BeamRecord
  | dataType, .kv key value => .kv key (clip dataType value)
  | .list item, .gbk key list => .gbk key (list.map (clip item.dataType))
  | dataType, record => clip dataType record

section Payload

variable {batch : RecordBatch} {metadata : List WindowMetadata} {keys : List WindowKeys}
  {offsets : OffsetBuffer} {payload : List ArrayRef}

/-- The column of a one-column payload. -/
theorem BatchHolds.one {field : Field} {column : ArrayRef}
    (h : BatchHolds batch [field] [column] metadata keys offsets payload) :
    ∃ newColumn, columnNamed batch field.name = .ok newColumn ∧
      Keeps column field.dataType newColumn newColumn.dataType := by
  obtain ⟨child, newColumn, hChild, hNew, hKeeps⟩ := h.keep 0 field rfl
  cases hChild
  cases payload with
  | nil => cases hNew
  | cons first rest =>
      cases hNew
      obtain ⟨hNamed, hType⟩ := columnNamed_first h.schema h.columns
      rw [materializeVoidField_name] at hNamed
      rw [materializeVoidField_dataType] at hType
      rw [← hType] at hKeeps
      exact ⟨_, hNamed, hKeeps⟩

/-- The columns of a keyed payload. -/
theorem BatchHolds.two {first second : Field} {column other : ArrayRef}
    (hNames : first.name ≠ second.name)
    (h : BatchHolds batch [first, second] [column, other] metadata keys offsets payload) :
    ∃ newColumn newOther, columnNamed batch first.name = .ok newColumn ∧
      columnNamed batch second.name = .ok newOther ∧
      Keeps column first.dataType newColumn newColumn.dataType ∧
      Keeps other second.dataType newOther newOther.dataType := by
  obtain ⟨child, newColumn, hChild, hNew, hKeeps⟩ := h.keep 0 first rfl
  obtain ⟨otherChild, newOther, hOtherChild, hNewOther, hKeepsOther⟩ := h.keep 1 second rfl
  cases hChild
  cases hOtherChild
  match payload, hNew, hNewOther, h with
  | _ :: _ :: _, hNew, hNewOther, h =>
      cases hNew
      cases hNewOther
      have hDistinct : (materializeVoidField first).name ≠ (materializeVoidField second).name := by
        simpa using hNames
      obtain ⟨hNamed, hType⟩ := columnNamed_first h.schema h.columns
      obtain ⟨hOtherNamed, hOtherType⟩ := columnNamed_second h.schema h.columns hDistinct
      rw [materializeVoidField_name] at hNamed hOtherNamed
      rw [materializeVoidField_dataType] at hType hOtherType
      rw [← hType] at hKeeps
      rw [← hOtherType] at hKeepsOther
      exact ⟨_, _, hNamed, hOtherNamed, hKeeps, hKeepsOther⟩

end Payload

/-- The part of a record that the value column holds. -/
def valueOf : BeamRecord → BeamRecord
  | .kv _ value => value
  | .gbk _ list => .iterable list
  | record => record

/-- How the payload of a batch was written and what it reads back as. -/
structure PayloadReads (records : List BeamRecord) (batch : RecordBatch) (tableType : TableType)
    (dataType : DataType) : Prop where
  source : ∃ record ∈ records.map valueOf, nestedValueStorageType record = .ok dataType
  written : ∃ array, nestedValuesToArray (records.map valueOf) dataType = .ok array
  shapes : ∀ record ∈ records, tableTypeOf record = tableType
  reads : recordBatchToBeamrecords batch ⟨tableType, batch.schema, true⟩ =
    .ok (records.map (clipRecord dataType))

theorem fieldWithName_single (name : String) (dataType : DataType) (nullable : Bool) :
    fieldWithName [⟨name, dataType, nullable⟩] name = .ok ⟨name, dataType, nullable⟩ := by
  simp [fieldWithName]

/-- The item type of a batch is the one of some list in it. -/
theorem inferIterableItemDataType_source {iterables : List (List BeamRecord)} {dataType : DataType}
    (hNe : iterables ≠ []) (h : inferIterableItemDataType iterables = .ok dataType) :
    ∃ list ∈ iterables,
      nestedValueStorageType (.iterable list) = .ok (.list (itemField dataType)) := by
  induction iterables with
  | nil => exact absurd rfl hNe
  | cons list iterables ih =>
      cases list with
      | nil =>
          cases iterables with
          | nil =>
              cases h
              exact ⟨[], by simp, rfl⟩
          | cons other rest =>
              obtain ⟨found, hMem, hType⟩ := ih (by simp) h
              exact ⟨found, List.mem_cons_of_mem _ hMem, hType⟩
      | cons first rest =>
          refine ⟨first :: rest, by simp, ?_⟩
          rw [inferIterableItemDataType, iterableElementDataType] at h
          cases hFirst : nestedValueStorageType first with
          | error reason =>
              rw [hFirst] at h
              cases h
          | ok found =>
              rw [hFirst] at h
              cases h
              rw [nestedValueStorageType, hFirst]
              rfl

section Tables

variable {records : List BeamRecord} {batch : RecordBatch} {metadata : List WindowMetadata}
  {keys : List WindowKeys} {offsets : OffsetBuffer} {payload columns : List ArrayRef}
  {fields : List Field} {pcollectionId : String}

/-- A batch of primitives is read back row by row. -/
theorem primitiveTable_reads {value : PrimitiveValue} {rest : List BeamRecord}
    (hRecords : records = .primitive value :: rest)
    (hFields : primitiveFields pcollectionId value records = .ok fields)
    (hColumns : recordColumns records ⟨.primitive, fields, false⟩ = .ok columns)
    (hHolds : BatchHolds batch fields columns metadata keys offsets payload)
    (hCount : metadata.length = records.length) :
    ∃ dataType, PayloadReads records batch .primitive dataType := by
  obtain ⟨_, -, hPure⟩ := bind_eq_ok hFields
  cases hPure
  obtain ⟨field, hField, hRest⟩ := bind_eq_ok hColumns
  cases (fieldWithName_single _ _ _).symm.trans hField
  obtain ⟨values, hValues, hRest⟩ := bind_eq_ok hRest
  obtain ⟨column, hColumn, hPure⟩ := bind_eq_ok hRest
  cases hPure
  have hWritten : nestedValuesToArray records (primitiveDataType value) = .ok column := by
    cases value <;>
    · simp only [primitiveDataType] at hColumn ⊢
      rw [nestedValuesToArray, hValues]
      exact hColumn
  obtain ⟨newColumn, hNamed, hKeeps⟩ := hHolds.one
  have hStored := hKeeps.scalars (primitiveValuesToArray_stores hColumn)
  have hRows := mapM_eq_ok_iff.mp hValues
  have hShape : ∀ record ∈ records, ∃ scalar, record = .primitive scalar := by
    intro record hMem
    obtain ⟨row, hRow⟩ := List.mem_iff_getElem?.mp hMem
    obtain ⟨scalar, -, hScalar⟩ := forall₂_row hRows hRow
    exact ⟨scalar, primitiveRecord_eq_ok hScalar⟩
  have hValueOf : records.map valueOf = records := by
    refine (List.map_congr_left fun record hMem => ?_).trans (List.map_id _)
    obtain ⟨scalar, rfl⟩ := hShape record hMem
    rfl
  refine ⟨primitiveDataType value, ⟨?_, ?_, ?_, ?_⟩⟩
  · rw [hValueOf, hRecords]
    exact ⟨.primitive value, by simp, rfl⟩
  · rw [hValueOf]
    exact ⟨column, hWritten⟩
  · intro record hMem
    obtain ⟨scalar, rfl⟩ := hShape record hMem
    rfl
  · have hRead : (List.range batch.numRows).mapM (primitiveRow newColumn) =
        .ok (records.map (clipRecord (primitiveDataType value))) := by
      refine readRows_eq_ok (hHolds.rows.trans hCount) (fun row record hRow => ?_)
      obtain ⟨scalar, hScalar, hRecord⟩ := forall₂_row hRows hRow
      cases primitiveRecord_eq_ok hRecord
      rw [primitiveRow, hStored.reads row scalar hScalar]
      cases value <;> rfl
    simp only [recordBatchToBeamrecords, bind, Except.bind]
    rw [hNamed]
    exact hRead

theorem asIterable_eq_ok {record : BeamRecord} {list : List BeamRecord}
    (h : asIterable pcollectionId record = .ok list) : record = .iterable list := by
  cases record <;> cases h
  rfl

/-- Loops that take the same part of every record collect the same list. -/
theorem forall₂_unique {α β : Type} {R S : α → β → Prop} {xs : List α} {ys zs : List β}
    (hUnique : ∀ x y z, R x y → S x z → y = z) (hLeft : List.Forall₂ R xs ys)
    (hRight : List.Forall₂ S xs zs) : ys = zs := by
  induction hLeft generalizing zs with
  | nil => cases hRight; rfl
  | cons hHead hTail ih =>
      cases hRight with
      | cons hOther hRest => rw [hUnique _ _ _ hHead hOther, ih hRest]

/-- A batch of iterables is read back row by row. -/
theorem iterableTable_reads (hNe : records ≠ [])
    (hFields : iterableFields pcollectionId records = .ok fields)
    (hColumns : recordColumns records ⟨.iterable, fields, false⟩ = .ok columns)
    (hHolds : BatchHolds batch fields columns metadata keys offsets payload)
    (hCount : metadata.length = records.length) :
    ∃ dataType, PayloadReads records batch .iterable dataType := by
  obtain ⟨iterables, hIterables, hRest⟩ := bind_eq_ok hFields
  obtain ⟨itemDataType, hItem, hRest⟩ := bind_eq_ok hRest
  obtain ⟨_, -, hPure⟩ := bind_eq_ok hRest
  cases hPure
  obtain ⟨field, hField, hRest⟩ := bind_eq_ok hColumns
  cases (fieldWithName_single _ _ _).symm.trans hField
  obtain ⟨_, hType, hRest⟩ := bind_eq_ok hRest
  cases hType
  obtain ⟨lists, hLists, hRest⟩ := bind_eq_ok hRest
  obtain ⟨column, hColumn, hPure⟩ := bind_eq_ok hRest
  cases hPure
  have hRows := mapM_eq_ok_iff.mp hLists
  have hSame : iterables = lists := by
    refine forall₂_unique (fun record left right hLeft hRight => ?_) (mapM_eq_ok_iff.mp hIterables)
      hRows
    cases asIterable_eq_ok hLeft
    exact Except.ok.inj hRight
  have hWritten : nestedValuesToArray records (.list (itemField itemDataType)) = .ok column := by
    rw [nestedValuesToArray, hLists]
    exact hColumn
  obtain ⟨newColumn, hNamed, hKeeps⟩ := hHolds.one
  have hStored := hKeeps.lists (iterableValuesToArray_stores hColumn)
  have hShape : ∀ record ∈ records, ∃ list ∈ lists, record = .iterable list := by
    intro record hMem
    obtain ⟨row, hRow⟩ := List.mem_iff_getElem?.mp hMem
    obtain ⟨list, hList, hRecord⟩ := forall₂_row hRows hRow
    exact ⟨list, List.mem_of_getElem? hList, iterableRecord_eq_ok hRecord⟩
  have hValueOf : records.map valueOf = records := by
    refine (List.map_congr_left fun record hMem => ?_).trans (List.map_id _)
    obtain ⟨list, -, rfl⟩ := hShape record hMem
    rfl
  refine ⟨.list (itemField itemDataType), ⟨?_, ?_, ?_, ?_⟩⟩
  · have hSome : iterables ≠ [] := by
      rw [hSame]
      intro hNil
      rw [hNil] at hRows
      cases hRows
      exact hNe rfl
    obtain ⟨list, hMem, hSource⟩ := inferIterableItemDataType_source hSome hItem
    rw [hSame] at hMem
    obtain ⟨row, hRow⟩ := List.mem_iff_getElem?.mp hMem
    obtain ⟨record, hRecord, hIterable⟩ := forall₂_row hRows.flip hRow
    rw [← iterableRecord_eq_ok hIterable] at hSource
    rw [hValueOf]
    exact ⟨record, List.mem_of_getElem? hRecord, hSource⟩
  · rw [hValueOf]
    exact ⟨column, hWritten⟩
  · intro record hMem
    obtain ⟨list, -, rfl⟩ := hShape record hMem
    rfl
  · have hRead : (List.range batch.numRows).mapM (iterableRow newColumn) =
        .ok (records.map (clipRecord (.list (itemField itemDataType)))) := by
      refine readRows_eq_ok (hHolds.rows.trans hCount) (fun row record hRow => ?_)
      obtain ⟨list, hList, hRecord⟩ := forall₂_row hRows hRow
      cases iterableRecord_eq_ok hRecord
      rw [iterableRow, hStored.reads row (list.map (clip itemDataType)) (by simp [hList])]
      rfl
    simp only [recordBatchToBeamrecords, bind, Except.bind]
    rw [hNamed]
    exact hRead

/-- A batch of tuples is read back row by row. -/
theorem tupleTable_reads {first : List PrimitiveValue} {rest : List BeamRecord}
    (hRecords : records = .tuple first :: rest)
    (hFields : tupleFields pcollectionId first records = .ok fields)
    (hColumns : recordColumns records ⟨.tuple, fields, false⟩ = .ok columns)
    (hHolds : BatchHolds batch fields columns metadata keys offsets payload)
    (hCount : metadata.length = records.length) :
    ∃ dataType, PayloadReads records batch .tuple dataType := by
  obtain ⟨_, hChecks, hPure⟩ := bind_eq_ok hFields
  cases hPure
  obtain ⟨field, hField, hRest⟩ := bind_eq_ok hColumns
  cases (fieldWithName_single _ _ _).symm.trans hField
  obtain ⟨column, hWritten, hPure⟩ := bind_eq_ok hRest
  cases hPure
  obtain ⟨newColumn, hNamed, hKeeps⟩ := hHolds.one
  have hStored := hKeeps.records (nestedValuesToArray_stores _ hWritten)
  have hShape : ∀ record ∈ records, ∃ values, record = .tuple values := by
    intro record hMem
    have hCheck := forM_eq_ok_iff.mp hChecks record hMem
    cases record with
    | tuple values => exact ⟨values, rfl⟩
    | primitive _ => cases hCheck
    | iterable _ => cases hCheck
    | kv _ _ => cases hCheck
    | gbk _ _ => cases hCheck
  have hValueOf : records.map valueOf = records := by
    refine (List.map_congr_left fun record hMem => ?_).trans (List.map_id _)
    obtain ⟨values, rfl⟩ := hShape record hMem
    rfl
  refine ⟨tupleStorageType first, ⟨?_, ?_, ?_, ?_⟩⟩
  · rw [hValueOf, hRecords]
    exact ⟨.tuple first, by simp, rfl⟩
  · rw [hValueOf]
    exact ⟨column, hWritten⟩
  · intro record hMem
    obtain ⟨values, rfl⟩ := hShape record hMem
    rfl
  · have hRead : (List.range batch.numRows).mapM
        (fun row => nestedValueFromArrayRow newColumn newColumn.dataType row) =
        .ok (records.map (clipRecord (tupleStorageType first))) := by
      refine readRows_eq_ok (hHolds.rows.trans hCount) (fun row record hRow => ?_)
      obtain ⟨values, rfl⟩ := hShape record (List.mem_of_getElem? hRow)
      exact hStored.reads row _ (by rw [List.getElem?_map, hRow]; rfl)
    simp only [recordBatchToBeamrecords, bind, Except.bind]
    rw [hNamed]
    exact hRead

theorem fieldWithName_key (keyType valueType : DataType) (keyNullable valueNullable : Bool) :
    fieldWithName [⟨keyColumn, keyType, keyNullable⟩, ⟨valueColumn, valueType, valueNullable⟩]
      keyColumn = .ok ⟨keyColumn, keyType, keyNullable⟩ := by
  simp [fieldWithName]

theorem fieldWithName_value (keyType valueType : DataType) (keyNullable valueNullable : Bool) :
    fieldWithName [⟨keyColumn, keyType, keyNullable⟩, ⟨valueColumn, valueType, valueNullable⟩]
      valueColumn = .ok ⟨valueColumn, valueType, valueNullable⟩ := by
  simp [fieldWithName, keyColumn, valueColumn]

/-- A batch of pairs is read back row by row. -/
theorem kvTable_reads {key : PrimitiveValue} {value : BeamRecord} {rest : List BeamRecord}
    (hRecords : records = .kv key value :: rest)
    (hFields : kvFields pcollectionId key value records = .ok fields)
    (hColumns : recordColumns records ⟨.kv, fields, false⟩ = .ok columns)
    (hHolds : BatchHolds batch fields columns metadata keys offsets payload)
    (hCount : metadata.length = records.length) :
    ∃ dataType, PayloadReads records batch .kv dataType := by
  obtain ⟨valueType, hType, hRest⟩ := bind_eq_ok hFields
  obtain ⟨_, -, hPure⟩ := bind_eq_ok hRest
  cases hPure
  obtain ⟨field, hField, hRest⟩ := bind_eq_ok hColumns
  cases (fieldWithName_key _ _ _ _).symm.trans hField
  obtain ⟨field, hField, hRest⟩ := bind_eq_ok hRest
  cases (fieldWithName_value _ _ _ _).symm.trans hField
  obtain ⟨pairs, hPairs, hRest⟩ := bind_eq_ok hRest
  obtain ⟨keyArray, hKeyArray, hRest⟩ := bind_eq_ok hRest
  obtain ⟨valueArray, hValueArray, hPure⟩ := bind_eq_ok hRest
  cases hPure
  obtain ⟨newKeys, newValues, hKeyNamed, hValueNamed, hKeepKeys, hKeepValues⟩ :=
    hHolds.two (by show keyColumn ≠ valueColumn; decide)
  have hKeysStored := hKeepKeys.scalars (primitiveValuesToArray_stores hKeyArray)
  have hValuesStored := hKeepValues.records (nestedValuesToArray_stores _ hValueArray)
  have hRows := mapM_eq_ok_iff.mp hPairs
  have hShape : ∀ record ∈ records, ∃ key value, record = .kv key value := by
    intro record hMem
    obtain ⟨row, hRow⟩ := List.mem_iff_getElem?.mp hMem
    obtain ⟨pair, -, hRecord⟩ := forall₂_row hRows hRow
    exact ⟨pair.1, pair.2, kvRecord_eq_ok hRecord⟩
  have hValueOf : records.map valueOf = pairs.map (·.2) := by
    refine forall₂_map_eq (fun record pair hRecord => ?_) hRows
    rw [kvRecord_eq_ok hRecord]
    rfl
  refine ⟨valueType, ⟨?_, ?_, ?_, ?_⟩⟩
  · rw [hRecords]
    exact ⟨value, by simp [valueOf], hType⟩
  · rw [hValueOf]
    exact ⟨valueArray, hValueArray⟩
  · intro record hMem
    obtain ⟨key, value, rfl⟩ := hShape record hMem
    rfl
  · have hRead : (List.range batch.numRows).mapM (kvTableRow newKeys newValues) =
        .ok (records.map (clipRecord valueType)) := by
      refine readRows_eq_ok (hHolds.rows.trans hCount) (fun row record hRow => ?_)
      obtain ⟨pair, hPair, hRecord⟩ := forall₂_row hRows hRow
      cases kvRecord_eq_ok hRecord
      rw [kvTableRow, hKeysStored.reads row pair.1 (by simp [hPair])]
      show (nestedValueFromArrayRow newValues newValues.dataType row >>= fun value =>
        Except.ok (BeamRecord.kv pair.1 value)) = _
      rw [hValuesStored.reads row (clip valueType pair.2) (by simp [hPair])]
      cases valueType <;> rfl
    simp only [recordBatchToBeamrecords, bind, Except.bind]
    rw [hKeyNamed, hValueNamed]
    exact hRead

theorem gbkRecord_eq_ok {record : BeamRecord} {pair : PrimitiveValue × List BeamRecord}
    (h : gbkRecord record = .ok pair) : record = .gbk pair.1 pair.2 := by
  cases record <;> cases h
  rfl

theorem gbkValues_eq_ok {keyDataType : DataType} {record : BeamRecord} {list : List BeamRecord}
    (h : gbkValues pcollectionId keyDataType record = .ok list) : ∃ key, record = .gbk key list := by
  cases record with
  | gbk key other =>
      obtain ⟨_, -, hPure⟩ := bind_eq_ok h
      cases hPure
      exact ⟨key, rfl⟩
  | primitive _ => cases h
  | iterable _ => cases h
  | kv _ _ => cases h
  | tuple _ => cases h

/-- A batch of grouped values is read back row by row. -/
theorem gbkTable_reads {key : PrimitiveValue} {rest : List BeamRecord} {list : List BeamRecord}
    (hRecords : records = .gbk key list :: rest)
    (hFields : gbkFields pcollectionId key records = .ok fields)
    (hColumns : recordColumns records ⟨.gbk, fields, false⟩ = .ok columns)
    (hHolds : BatchHolds batch fields columns metadata keys offsets payload)
    (hCount : metadata.length = records.length) :
    ∃ dataType, PayloadReads records batch .gbk dataType := by
  obtain ⟨lists, hLists, hRest⟩ := bind_eq_ok hFields
  obtain ⟨itemDataType, hItem, hRest⟩ := bind_eq_ok hRest
  obtain ⟨_, -, hPure⟩ := bind_eq_ok hRest
  cases hPure
  obtain ⟨field, hField, hRest⟩ := bind_eq_ok hColumns
  cases (fieldWithName_key _ _ _ _).symm.trans hField
  obtain ⟨field, hField, hRest⟩ := bind_eq_ok hRest
  cases (fieldWithName_value _ _ _ _).symm.trans hField
  obtain ⟨_, hType, hRest⟩ := bind_eq_ok hRest
  cases hType
  obtain ⟨pairs, hPairs, hRest⟩ := bind_eq_ok hRest
  obtain ⟨keyArray, hKeyArray, hRest⟩ := bind_eq_ok hRest
  obtain ⟨valueArray, hValueArray, hPure⟩ := bind_eq_ok hRest
  cases hPure
  obtain ⟨newKeys, newValues, hKeyNamed, hValueNamed, hKeepKeys, hKeepValues⟩ :=
    hHolds.two (by show keyColumn ≠ valueColumn; decide)
  have hKeysStored := hKeepKeys.scalars (primitiveValuesToArray_stores hKeyArray)
  have hValuesStored := hKeepValues.lists (iterableValuesToArray_stores hValueArray)
  have hRows := mapM_eq_ok_iff.mp hPairs
  have hShape : ∀ record ∈ records, ∃ key list, record = .gbk key list := by
    intro record hMem
    obtain ⟨row, hRow⟩ := List.mem_iff_getElem?.mp hMem
    obtain ⟨pair, -, hRecord⟩ := forall₂_row hRows hRow
    exact ⟨pair.1, pair.2, gbkRecord_eq_ok hRecord⟩
  have hValueOf : records.map valueOf = (pairs.map (·.2)).map BeamRecord.iterable := by
    rw [List.map_map]
    refine forall₂_map_eq (fun record pair hRecord => ?_) hRows
    rw [gbkRecord_eq_ok hRecord]
    rfl
  have hLists : records.map valueOf = lists.map BeamRecord.iterable := by
    refine forall₂_map_eq (fun record list hRecord => ?_) (mapM_eq_ok_iff.mp hLists)
    obtain ⟨_, rfl⟩ := gbkValues_eq_ok hRecord
    rfl
  refine ⟨.list (itemField itemDataType), ⟨?_, ?_, ?_, ?_⟩⟩
  · have hSome : lists ≠ [] := by
      intro hNil
      rw [hNil, hRecords] at hLists
      cases hLists
    obtain ⟨list, hMem, hSource⟩ := inferIterableItemDataType_source hSome hItem
    rw [hLists]
    exact ⟨.iterable list, List.mem_map_of_mem hMem, hSource⟩
  · refine ⟨valueArray, ?_⟩
    have hIterables : (records.map valueOf).mapM iterableRecord = .ok (pairs.map (·.2)) := by
      rw [hValueOf, mapM_eq_ok_iff, List.forall₂_map_left_iff]
      exact List.forall₂_same.mpr fun list _ => rfl
    rw [nestedValuesToArray, hIterables]
    exact hValueArray
  · intro record hMem
    obtain ⟨key, list, rfl⟩ := hShape record hMem
    rfl
  · have hRead : (List.range batch.numRows).mapM (gbkRow newKeys newValues) =
        .ok (records.map (clipRecord (.list (itemField itemDataType)))) := by
      refine readRows_eq_ok (hHolds.rows.trans hCount) (fun row record hRow => ?_)
      obtain ⟨pair, hPair, hRecord⟩ := forall₂_row hRows hRow
      cases gbkRecord_eq_ok hRecord
      rw [gbkRow, hKeysStored.reads row pair.1 (by simp [hPair])]
      show (iterableValueFromArrayRow newValues newValues.dataType row >>= fun list =>
        Except.ok (BeamRecord.gbk pair.1 list)) = _
      rw [hValuesStored.reads row (pair.2.map (clip itemDataType)) (by simp [hPair])]
      rfl
    simp only [recordBatchToBeamrecords, bind, Except.bind]
    rw [hKeyNamed, hValueNamed]
    exact hRead

end Tables

/-- The schema of a batch is that of its first record, checked against the others. -/
theorem deriveTableSchema_eq_ok {pcollectionId : String} {records : List BeamRecord}
    {schema : RecordTableSchema} (h : deriveTableSchema pcollectionId records = .ok schema) :
    ∃ first rest fields, records = first :: rest ∧
      recordFields pcollectionId first records = .ok fields ∧
      schema = ⟨tableTypeOf first, fields, false⟩ := by
  cases records with
  | nil => cases h
  | cons first rest =>
      obtain ⟨fields, hFields, hPure⟩ := bind_eq_ok h
      cases hPure
      exact ⟨first, rest, fields, rfl, hFields, rfl⟩

/-- The element columns have names of their own. -/
theorem recordFields_names {pcollectionId : String} {first : BeamRecord} {records : List BeamRecord}
    {fields : List Field} (h : recordFields pcollectionId first records = .ok fields) :
    PayloadNames fields := by
  have hValue : ∀ dataType nullable, PayloadNames [⟨valueColumn, dataType, nullable⟩] := by
    intro dataType nullable field hMem
    cases List.mem_singleton.mp hMem
    exact .inr rfl
  have hKeyed : ∀ keyType keyNullable valueType valueNullable, PayloadNames
      [⟨keyColumn, keyType, keyNullable⟩, ⟨valueColumn, valueType, valueNullable⟩] := by
    intro keyType keyNullable valueType valueNullable field hMem
    rcases List.mem_cons.mp hMem with rfl | hMem
    · exact .inl rfl
    · exact hValue _ _ field hMem
  cases first with
  | primitive value =>
      obtain ⟨_, -, hPure⟩ := bind_eq_ok h
      cases hPure
      exact hValue _ _
  | iterable list =>
      obtain ⟨_, -, hRest⟩ := bind_eq_ok h
      obtain ⟨_, -, hRest⟩ := bind_eq_ok hRest
      obtain ⟨_, -, hPure⟩ := bind_eq_ok hRest
      cases hPure
      exact hValue _ _
  | kv key value =>
      obtain ⟨_, -, hRest⟩ := bind_eq_ok h
      obtain ⟨_, -, hPure⟩ := bind_eq_ok hRest
      cases hPure
      exact hKeyed _ _ _ _
  | gbk key list =>
      obtain ⟨_, -, hRest⟩ := bind_eq_ok h
      obtain ⟨_, -, hRest⟩ := bind_eq_ok hRest
      obtain ⟨_, -, hPure⟩ := bind_eq_ok hRest
      cases hPure
      exact hKeyed _ _ _ _
  | tuple values =>
      obtain ⟨_, -, hPure⟩ := bind_eq_ok h
      cases hPure
      exact hValue _ _

/-- What the payload of a built batch reads back as, by the shape of its first
record. -/
theorem payload_reads {pcollectionId : String} {records : List BeamRecord} {first : BeamRecord}
    {rest : List BeamRecord} {fields : List Field} {columns : List ArrayRef} {batch : RecordBatch}
    {metadata : List WindowMetadata} {keys : List WindowKeys} {offsets : OffsetBuffer}
    {payload : List ArrayRef} (hRecords : records = first :: rest)
    (hFields : recordFields pcollectionId first records = .ok fields)
    (hColumns : recordColumns records ⟨tableTypeOf first, fields, false⟩ = .ok columns)
    (hHolds : BatchHolds batch fields columns metadata keys offsets payload)
    (hCount : metadata.length = records.length) :
    ∃ dataType, PayloadReads records batch (tableTypeOf first) dataType := by
  cases first with
  | primitive value => exact primitiveTable_reads hRecords hFields hColumns hHolds hCount
  | iterable list =>
      exact iterableTable_reads (by rw [hRecords]; simp) hFields hColumns hHolds hCount
  | kv key value => exact kvTable_reads hRecords hFields hColumns hHolds hCount
  | gbk key list => exact gbkTable_reads hRecords hFields hColumns hHolds hCount
  | tuple values => exact tupleTable_reads hRecords hFields hColumns hHolds hCount

/-- What a batch was built from. -/
theorem buildWindowedBatch_holds {pcollectionId : String} {values : List WindowedValue}
    {batch : RecordBatch} {schema : RecordTableSchema}
    (h : buildWindowedBatch pcollectionId values = .ok (batch, schema)) :
    ∃ first rest fields columns keys offsets payload,
      values.map WindowedValue.value = first :: rest ∧
      recordFields pcollectionId first (values.map WindowedValue.value) = .ok fields ∧
      recordColumns (values.map WindowedValue.value) ⟨tableTypeOf first, fields, false⟩ =
        .ok columns ∧
      schema = ⟨tableTypeOf first, batch.schema, true⟩ ∧
      BatchHolds batch fields columns (values.map WindowMetadata.ofValue) keys offsets payload := by
  obtain ⟨baseSchema, hDerive, hRest⟩ := bind_eq_ok h
  obtain ⟨baseBatch, hBase, hRest⟩ := bind_eq_ok hRest
  obtain ⟨appended, hAppend, hRest⟩ := bind_eq_ok hRest
  obtain ⟨_, hNew, hPure⟩ := bind_eq_ok hRest
  cases hPure
  obtain ⟨first, rest, fields, hRecords, hFields, rfl⟩ := deriveTableSchema_eq_ok hDerive
  obtain ⟨keys, offsets, payload, hHolds⟩ := materializeVoidColumns_holds hAppend hNew
  rw [beamrecordsToRecordBatch] at hBase
  split at hBase
  · cases hBase
  · obtain ⟨columns, hColumns, hTry⟩ := bind_eq_ok hBase
    obtain ⟨hSchema, hAll⟩ := RecordBatch.tryNew_eq_ok (mapError_eq_ok hTry)
    rw [hSchema, hAll] at hHolds
    exact ⟨first, rest, fields, columns, keys, offsets, payload, hRecords, hFields, hColumns, rfl,
      hHolds⟩

/-- Surrogates rename no column. -/
theorem payloadNames_materializeVoid {fields : List Field} (h : PayloadNames fields) :
    PayloadNames (materializeVoidSchema fields) := by
  intro field hMem
  obtain ⟨old, hOld, rfl⟩ := List.mem_map.mp hMem
  rw [materializeVoidField_name]
  exact h old hOld

/-- A built batch reads back with every metadata field as it was and the records
clipped to the type of their value column. -/
theorem windowedValuesFromBatch_eq_ok {pcollectionId : String} {values : List WindowedValue}
    {batch : RecordBatch} {schema : RecordTableSchema}
    (h : buildWindowedBatch pcollectionId values = .ok (batch, schema)) :
    ∃ dataType, PayloadReads (values.map WindowedValue.value) batch schema.tableType dataType ∧
      windowedValuesFromBatch batch schema =
        .ok (values.map fun value => { value with value := clipRecord dataType value.value }) := by
  obtain ⟨first, rest, fields, columns, keys, offsets, payload, hRecords, hFields, hColumns, rfl,
    hHolds⟩ := buildWindowedBatch_holds h
  obtain ⟨dataType, hReads⟩ := payload_reads hRecords hFields hColumns hHolds (by simp)
  refine ⟨dataType, hReads, ?_⟩
  have hLength : (materializeVoidSchema fields).length = payload.length := by
    rw [materializeVoidSchema, List.length_map, hHolds.length]
  have hWindows := windowColumnsOf_eq_ok hHolds.schema hHolds.columns hLength
    (payloadNames_materializeVoid (recordFields_names hFields)) hHolds.delimited
  simp only [windowedValuesFromBatch, hReads.reads, hWindows, bind, Except.bind, if_true]
  refine mapM_eq_ok_iff.mpr (forall₂_of_rows (by simp) ?_)
  intro row entry result hEntry hResult
  rw [List.getElem?_map] at hResult
  obtain ⟨value, hValue, rfl⟩ := Option.map_eq_some_iff.mp hResult
  have hSplit : entry = (clipRecord dataType value.value, row) := by
    rw [List.getElem?_zipIdx, List.map_map, List.getElem?_map, hValue] at hEntry
    simpa using hEntry.symm
  rw [hSplit]
  exact windowedRow_eq_ok hHolds.written (by rw [List.getElem?_map, hValue]; rfl) _

end FlareDB
