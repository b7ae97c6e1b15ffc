import FlareDB.Transforms.GbkWindows

/-! A built batch of KV elements, with its group keys and cut anywhere, becomes one
row for each window of each element. Whether the gathered columns can be addressed
is the only thing that can still fail. -/
namespace FlareDB

open Arrow Results

/-- The rows of an element: one for each of its windows. -/
def WindowedValue.gbkRows (element : WindowedValue) : List GbkRow :=
  match element.value with
  | .kv key value => element.windows.map fun window =>
      ⟨key, window, value, element.timestampMillis⟩
  | _ => []

def WindowedValue.groupKey (element : WindowedValue) : List UInt8 :=
  match element.value with
  | .kv key _ => encodedPrimitiveSortKey key
  | _ => []

def WindowedValue.windowKey (element : WindowedValue) : Option (List UInt8) :=
  element.windows.head?.map BeamWindow.toBinaryKey

/-- Where the columns of a batch hold some elements. -/
structure ElementColumns where
  keys : ArrayRef
  values : ArrayRef
  offsets : OffsetBuffer
  extraWindowValues : List (Option (List UInt8))

def ElementColumns.slice (columns : ElementColumns) (offset length : Nat) : ElementColumns where
  keys := columns.keys.slice offset length
  values := columns.values.slice offset length
  offsets := columns.offsets.slice offset length
  extraWindowValues := columns.extraWindowValues

/-- The extra windows of a row. -/
structure ExtraWindows (columns : ElementColumns) (row : Nat) (windows : List BeamWindow) : Prop where
  count : (ArrayRef.rowItems columns.offsets row).length = windows.length
  keys : ∀ (index place : Nat) window, windows[index]? = some window →
    (ArrayRef.rowItems columns.offsets row)[index]? = some place →
      columns.extraWindowValues[place]? = some (some window.toBinaryKey)

/-- A batch whose rows are the elements of a list. -/
structure HoldsElements (batch : RecordBatch) (elements : List WindowedValue)
    (columns : ElementColumns) : Prop where
  sound : batch.Sound
  rows : batch.numRows = elements.length
  keys : batch.columnByName keyColumn = some columns.keys
  values : batch.columnByName valueColumn = some columns.values
  timestamps : batch.columnByName windowTimestampColumn =
    some (.leaf .int64 (elements.map fun element => some element.timestampMillis))
  first : batch.columnByName windowKeyColumn =
    some (.leaf .binary (elements.map WindowedValue.windowKey))
  extra : ∃ item nulls, batch.columnByName windowExtraKeysColumn =
    some (.list item columns.offsets (.leaf .binary columns.extraWindowValues) nulls)
  counts : batch.columnByName windowCountColumn =
    some (.leaf .int16 (elements.map fun element => some (Int16.ofNat element.windows.length)))
  small : ∀ element ∈ elements, element.windows.length ≤ i16Max
  reads : ∀ (row : Nat) element, elements[row]? = some element →
    kvTableRow columns.keys columns.values row = .ok element.value
  others : ∀ (row : Nat) element, elements[row]? = some element →
    ExtraWindows columns row element.windows.tail

/-- A batch of elements with the column of their group keys. -/
structure HoldsGroups (batch : RecordBatch) (elements : List WindowedValue)
    (columns : ElementColumns) : Prop extends HoldsElements batch elements columns where
  groupKeys : batch.columnByName groupKeyColumn =
    some (.leaf .binary (elements.map fun element => some element.groupKey))

section Slices

variable {batch : RecordBatch} {elements : List WindowedValue} {columns : ElementColumns}
  {offset length : Nat}

/-- The items of a row of a slice are those of the row it comes from. -/
theorem rowItems_slice (offsets : OffsetBuffer) {row : Nat} (h : row < length) :
    ArrayRef.rowItems (offsets.slice offset length) row =
      ArrayRef.rowItems offsets (offset + row) := by
  simp only [ArrayRef.rowItems, ArrayRef.childRows, OffsetBuffer.slice]
  rw [ArrayRef.getElem?_slice _ (by omega), ArrayRef.getElem?_slice _ (by omega), Nat.add_assoc]

/-- A column with one cell for each element, cut. -/
theorem slice_leaf (type : LeafType) (read : WindowedValue → Option type.Cell) :
    (ArrayRef.leaf type (elements.map read)).slice offset length =
      .leaf type (((elements.drop offset).take length).map read) := by
  rw [ArrayRef.slice, List.map_take, List.map_drop]

/-- A slice of a batch holds that part of the elements. -/
theorem HoldsElements.slice (h : HoldsElements batch elements columns)
    (hLength : offset + length ≤ batch.numRows) :
    HoldsElements (batch.slice offset length hLength) ((elements.drop offset).take length)
      (columns.slice offset length) := by
  have hCount : ((elements.drop offset).take length).length = length := by
    rw [List.length_take, List.length_drop, ← h.rows]
    omega
  have hRow : ∀ (row : Nat) element, ((elements.drop offset).take length)[row]? = some element →
      row < length ∧ elements[offset + row]? = some element := by
    intro row element hElement
    have hLt := (List.getElem?_eq_some_iff.mp hElement).1
    rw [hCount] at hLt
    exact ⟨hLt, by rwa [ArrayRef.getElem?_slice _ hLt] at hElement⟩
  obtain ⟨_, -, hKeys⟩ := h.sound.columnByName h.keys
  obtain ⟨_, -, hValues⟩ := h.sound.columnByName h.values
  obtain ⟨item, nulls, hExtra⟩ := h.extra
  refine ⟨RecordBatch.slice_sound hLength h.sound, hCount.symm,
    RecordBatch.slice_columnByName hLength h.keys,
    RecordBatch.slice_columnByName hLength h.values, ?_, ?_,
    ⟨item, _, RecordBatch.slice_columnByName hLength hExtra⟩, ?_, ?_, ?_, ?_⟩
  · exact (RecordBatch.slice_columnByName hLength h.timestamps).trans (congrArg some (slice_leaf _ _))
  · exact (RecordBatch.slice_columnByName hLength h.first).trans
      (congrArg some (slice_leaf .binary WindowedValue.windowKey))
  · exact (RecordBatch.slice_columnByName hLength h.counts).trans (congrArg some (slice_leaf _ _))
  · intro element hMem
    exact h.small element (List.mem_of_mem_drop (List.mem_of_mem_take hMem))
  · intro row element hElement
    obtain ⟨hLt, hWhole⟩ := hRow row element hElement
    have hSame := kvTableRow_sameRow
      (ArrayRef.slice_sameRow columns.keys hKeys.sound (by rw [hKeys.length]; exact hLength) hLt)
      (ArrayRef.slice_sameRow columns.values hValues.sound (by rw [hValues.length]; exact hLength) hLt)
    exact hSame.symm.trans (h.reads _ element hWhole)
  · intro row element hElement
    obtain ⟨hLt, hWhole⟩ := hRow row element hElement
    have hItems : ArrayRef.rowItems (columns.slice offset length).offsets row =
        ArrayRef.rowItems columns.offsets (offset + row) := rowItems_slice columns.offsets hLt
    have hOthers := h.others _ element hWhole
    refine ⟨by rw [hItems, hOthers.count], fun index place window hWindow hPlace => ?_⟩
    rw [hItems] at hPlace
    exact hOthers.keys index place window hWindow hPlace

/-- So it does with the group column. -/
theorem HoldsGroups.slice (h : HoldsGroups batch elements columns)
    (hLength : offset + length ≤ batch.numRows) :
    HoldsGroups (batch.slice offset length hLength) ((elements.drop offset).take length)
      (columns.slice offset length) where
  toHoldsElements := h.toHoldsElements.slice hLength
  groupKeys := (RecordBatch.slice_columnByName hLength h.groupKeys).trans
    (congrArg some (slice_leaf .binary fun element => some element.groupKey))

end Slices

/-! A built batch. -/

theorem columnNamed_eq_ok {batch : RecordBatch} {name : String} {column : ArrayRef}
    (h : columnNamed batch name = .ok column) : batch.columnByName name = some column := by
  rw [columnNamed] at h
  split at h
  · next hColumn =>
      cases h
      exact hColumn
  · cases h

/-- The rows of a keyed table are pairs of its two columns. -/
theorem kvTable_rows {batch : RecordBatch} {schema : List Field} {records : List BeamRecord}
    (h : recordBatchToBeamrecords batch ⟨.kv, schema, true⟩ = .ok records) :
    ∃ keys values, batch.columnByName keyColumn = some keys ∧
      batch.columnByName valueColumn = some values ∧
      ∀ (row : Nat) record, records[row]? = some record → kvTableRow keys values row = .ok record := by
  obtain ⟨keys, hKeys, hRest⟩ := bind_eq_ok h
  obtain ⟨values, hValues, hLoop⟩ := bind_eq_ok hRest
  have hRows := mapM_eq_ok_iff.mp hLoop
  refine ⟨keys, values, columnNamed_eq_ok hKeys, columnNamed_eq_ok hValues, fun row record hRow => ?_⟩
  obtain ⟨hIndex, -⟩ := List.getElem?_eq_some_iff.mp hRow
  rw [← hRows.length_eq, List.length_range] at hIndex
  obtain ⟨found, hFound, hRead⟩ := forall₂_row hRows (List.getElem?_range hIndex)
  cases hFound.symm.trans hRow
  exact hRead

/-- The keys of a row's other windows stand one after the other. -/
theorem extraWindows_of_written {metadata : List WindowMetadata} {keys : List WindowKeys}
    {columns : ElementColumns}
    (hWritten : List.Forall₂ (fun entry key => windowKeys entry.windows = .ok key) metadata keys)
    (hOffsets : columns.offsets.offsets =
      ((keys.map WindowKeys.extra).map List.length).scanl (· + ·) 0)
    (hValues : columns.extraWindowValues = (keys.map WindowKeys.extra).flatten.map some)
    {row : Nat} {entry : WindowMetadata} (hEntry : metadata[row]? = some entry) :
    ExtraWindows columns row entry.windows.tail := by
  obtain ⟨key, hKey, hWindows⟩ := forall₂_row hWritten hEntry
  have hExtra := (windowKeys_keys hWindows).2
  have hList : (keys.map WindowKeys.extra)[row]? = some key.extra := by
    rw [List.getElem?_map, hKey, Option.map_some]
  obtain ⟨start, hStart, hFinish, hFlat⟩ := OffsetBuffer.delimits _ 0 hList
  rw [Nat.zero_add, ← hOffsets] at hStart hFinish
  have hItems : ArrayRef.rowItems columns.offsets row = List.range' start key.extra.length := by
    rw [ArrayRef.rowItems, ArrayRef.childRows, hStart, hFinish]
    simp only [Nat.add_sub_cancel_left]
  have hTail : key.extra = entry.windows.tail.map BeamWindow.toBinaryKey := by
    rw [hExtra, keysOf, List.map_tail]
  refine ⟨by rw [hItems, List.length_range', hTail, List.length_map], ?_⟩
  intro index place window hWindow hPlace
  rw [hItems] at hPlace
  have hIndex := (List.getElem?_eq_some_iff.mp hPlace).1
  rw [List.length_range'] at hIndex
  rw [List.getElem?_range' hIndex, Nat.one_mul] at hPlace
  cases hPlace
  have hCell : key.extra[index]? = some window.toBinaryKey := by
    rw [hTail, List.getElem?_map, hWindow, Option.map_some]
  rw [hValues, List.getElem?_map, hFlat index _ hCell, Option.map_some]

/-- A built batch of KV elements holds what it reads back as, and has no column
of group keys yet. -/
theorem buildWindowedBatch_elements {pcollectionId : String} {values stored : List WindowedValue}
    {batch : RecordBatch} {schema : RecordTableSchema}
    (h : buildWindowedBatch pcollectionId values = .ok (batch, schema))
    (hKv : schema.tableType = .kv) (hStored : windowedValuesFromBatch batch schema = .ok stored) :
    (∃ columns, HoldsElements batch stored columns) ∧
      ∀ field ∈ batch.schema, field.name ≠ groupKeyColumn := by
  have hSound := buildWindowedBatch_sound h
  obtain ⟨dataType, hReads, hRead⟩ := windowedValuesFromBatch_eq_ok h
  obtain ⟨first, rest, fields, baseColumns, keys, offsets, payload, -, hFields, -, rfl, hHolds⟩ :=
    buildWindowedBatch_holds h
  cases hStored.symm.trans hRead
  have hTable := hReads.reads
  rw [hKv] at hTable
  obtain ⟨keyArray, valueArray, hKeyArray, hValueArray, hRows⟩ := kvTable_rows hTable
  have hNames := payloadNames_materializeVoid (recordFields_names hFields)
  have hLength : (materializeVoidSchema fields).length = payload.length := by
    rw [materializeVoidSchema, List.length_map, hHolds.length]
  have hFind : ∀ name column, keyColumn ≠ name → valueColumn ≠ name →
      ((windowFields.zip (metadataArrays (values.map WindowMetadata.ofValue) keys offsets)).find?
        fun entry => entry.1.name == name).map (·.2) = some column →
      batch.columnByName name = some column := fun _ _ hKey hValue hFound =>
    columnNamed_eq_ok (metadataColumn_eq_ok hHolds.schema hHolds.columns hLength hNames hKey hValue
      hFound)
  have hTimestamps := hFind windowTimestampColumn _ (by decide) (by decide) rfl
  have hFirst := hFind windowKeyColumn _ (by decide) (by decide) rfl
  have hExtra := hFind windowExtraKeysColumn _ (by decide) (by decide) rfl
  have hCounts := hFind windowCountColumn _ (by decide) (by decide) rfl
  refine ⟨⟨⟨keyArray, valueArray, offsets, (keys.map WindowKeys.extra).flatten.map some⟩, hSound,
    ?_, hKeyArray, hValueArray, ?_, ?_, ⟨_, _, hExtra⟩, ?_, ?_, ?_, ?_⟩, ?_⟩
  · rw [hHolds.rows, List.length_map, List.length_map]
  · rw [hTimestamps, List.map_map, List.map_map]
    rfl
  · have hKeys : (values.map WindowMetadata.ofValue).map (fun entry => (keysOf entry).head?) =
        keys.map WindowKeys.first :=
      forall₂_map_eq (fun _ _ hEntry => (windowKeys_keys hEntry).1.symm) hHolds.written
    have hCells : keys.map WindowKeys.first = (values.map fun value =>
        ({ value with value := clipRecord dataType value.value } : WindowedValue)).map
          WindowedValue.windowKey := by
      rw [← hKeys, List.map_map, List.map_map]
      refine List.map_congr_left fun value _ => ?_
      exact List.head?_map
    exact hFirst.trans (congrArg (fun cells => some (ArrayRef.leaf .binary cells)) hCells)
  · have hNumbers : (values.map WindowMetadata.ofValue).map
        (fun entry => some (Int16.ofNat entry.windows.length)) =
        keys.map fun entry => some entry.count := by
      refine forall₂_map_eq (fun entry key hEntry => ?_) hHolds.written
      rw [windowKeys] at hEntry
      split at hEntry
      · cases hEntry
      · obtain ⟨found, -, hPure⟩ := bind_eq_ok hEntry
        cases hPure
        rfl
    rw [List.map_map] at hNumbers
    have hCells : (keys.map fun entry => some entry.count) = (values.map fun value =>
        ({ value with value := clipRecord dataType value.value } : WindowedValue)).map
          fun element => some (Int16.ofNat element.windows.length) := by
      rw [← hNumbers, List.map_map]
      rfl
    exact hCounts.trans (congrArg (fun cells => some (ArrayRef.leaf .int16 cells)) hCells)
  · intro element hMem
    obtain ⟨value, hValue, rfl⟩ := List.mem_map.mp hMem
    obtain ⟨key, -, hEntry⟩ := forall₂_left hHolds.written (List.mem_map_of_mem hValue)
    exact (windowKeys_succeeds_iff.mp ⟨key, hEntry⟩).1
  · intro row element hElement
    refine hRows row element.value ?_
    rw [List.getElem?_map] at hElement ⊢
    obtain ⟨value, hValue, rfl⟩ := Option.map_eq_some_iff.mp hElement
    rw [List.getElem?_map, hValue]
    rfl
  · intro row element hElement
    rw [List.getElem?_map] at hElement
    obtain ⟨value, hValue, rfl⟩ := Option.map_eq_some_iff.mp hElement
    have hEntry : (values.map WindowMetadata.ofValue)[row]? = some (.ofValue value) := by
      rw [List.getElem?_map, hValue, Option.map_some]
    exact @extraWindows_of_written _ keys
      ⟨keyArray, valueArray, offsets, (keys.map WindowKeys.extra).flatten.map some⟩
      hHolds.written hHolds.delimited rfl _ _ hEntry
  · intro field hMem
    rw [hHolds.schema] at hMem
    rcases List.mem_append.mp hMem with hPayload | hWindow
    · rcases hNames field hPayload with hName | hName <;> rw [hName] <;> decide
    · have hAll : ∀ field ∈ windowFields, field.name ≠ groupKeyColumn := by decide
      exact hAll field hWindow

/-! The group keys. -/

section Groups

variable {batch extended : RecordBatch} {elements : List WindowedValue} {columns : ElementColumns}

/-- Columns that are added do not hide those of the batch. -/
theorem columnByName_append_left {fields : List Field} {others : List ArrayRef} {name : String}
    {column : ArrayRef} (hSchema : extended.schema = batch.schema ++ fields)
    (hColumns : extended.columns = batch.columns ++ others)
    (h : batch.columnByName name = some column) : extended.columnByName name = some column := by
  have hLength : batch.schema.length = batch.columns.length := by
    have hTyped := congrArg List.length batch.typed
    simpa using hTyped.symm
  rw [RecordBatch.columnByName] at h ⊢
  obtain ⟨entry, hEntry, rfl⟩ := Option.map_eq_some_iff.mp h
  rw [hSchema, hColumns, List.zip_append hLength, List.find?_append, hEntry, Option.some_or,
    Option.map_some]

theorem kvTableRow_eq_ok {keys values : ArrayRef} {row : Nat} {record : BeamRecord}
    (h : kvTableRow keys values row = .ok record) : ∃ key value, record = .kv key value ∧
      primitiveValueFromArrayRow keys keys.dataType row = .ok key := by
  obtain ⟨key, hKey, hRest⟩ := bind_eq_ok h
  obtain ⟨value, -, hPure⟩ := bind_eq_ok hRest
  cases hPure
  exact ⟨key, value, rfl, hKey⟩

/-- Every element a keyed batch holds is a pair. -/
theorem HoldsElements.shaped (h : HoldsElements batch elements columns) {element : WindowedValue}
    (hMem : element ∈ elements) : ∃ key value, element.value = .kv key value := by
  obtain ⟨row, hRow⟩ := List.mem_iff_getElem?.mp hMem
  obtain ⟨key, value, hValue, -⟩ := kvTableRow_eq_ok (h.reads row element hRow)
  exact ⟨key, value, hValue⟩

/-- The rows of a batch with the elements in them. -/
theorem range_elements {count : Nat} (h : count = elements.length) :
    List.Forall₂ (fun row element => elements[row]? = some element) (List.range count) elements := by
  refine forall₂_of_rows (by rw [List.length_range, h]) fun place row element hRow hElement => ?_
  obtain ⟨hPlace, hSame⟩ := List.getElem?_eq_some_iff.mp hRow
  rw [List.getElem_range] at hSame
  rw [← hSame, hElement]

/-- The encoded keys of a batch are the group keys of its elements. -/
theorem HoldsElements.encodedKeys (h : HoldsElements batch elements columns) :
    (List.range batch.numRows).mapM (encodedKeyCell columns.keys) =
      .ok (elements.map fun element => some element.groupKey) := by
  refine mapM_eq_ok_iff.mpr (List.forall₂_map_right_iff.mpr ?_)
  refine (range_elements h.rows).imp fun row element hElement => ?_
  obtain ⟨key, value, hValue, hKey⟩ := kvTableRow_eq_ok (h.reads row element hElement)
  rw [encodedKeyCell, hKey, WindowedValue.groupKey, hValue]
  rfl

/-- The batch with its group keys. -/
theorem HoldsElements.groups (h : HoldsElements batch elements columns)
    (hFresh : ∀ field ∈ batch.schema, field.name ≠ groupKeyColumn)
    (hAdd : addEncodedKeyColumn batch = .ok extended) : HoldsGroups extended elements columns := by
  rw [addEncodedKeyColumn, h.keys] at hAdd
  obtain ⟨cells, hCells, hRest⟩ := bind_eq_ok hAdd
  obtain ⟨groupKeys, hGroupKeys, hTry⟩ := bind_eq_ok hRest
  cases h.encodedKeys.symm.trans (mapError_eq_ok hCells)
  have hTry := mapError_eq_ok hTry
  have hGroupKeys := mapError_eq_ok hGroupKeys
  obtain ⟨hSchema, hColumns⟩ := RecordBatch.tryNew_eq_ok hTry
  have hSound : extended.Sound := by
    refine RecordBatch.tryNew_sound hTry fun column hMem => ?_
    rcases List.mem_append.mp hMem with hOld | hNew
    · obtain ⟨_, -, hColumn⟩ := forall₂_right h.sound hOld
      exact hColumn.sound
    · rw [List.mem_singleton.mp hNew]
      exact ofCells_sound hGroupKeys
  have hOld : ∀ {name column}, batch.columnByName name = some column →
      extended.columnByName name = some column := fun hColumn =>
    columnByName_append_left hSchema hColumns hColumn
  have hRows : extended.numRows = batch.numRows := by
    obtain ⟨_, -, hKeys⟩ := h.sound.columnByName h.keys
    obtain ⟨_, -, hNewKeys⟩ := hSound.columnByName (hOld h.keys)
    rw [← hKeys.length, ← hNewKeys.length]
  obtain ⟨item, nulls, hExtra⟩ := h.extra
  refine ⟨⟨hSound, hRows.trans h.rows, hOld h.keys, hOld h.values, hOld h.timestamps, hOld h.first,
    ⟨item, nulls, hOld hExtra⟩, hOld h.counts, h.small, h.reads, h.others⟩, ?_⟩
  have hLength : batch.schema.length = batch.columns.length := by
    have hTyped := congrArg List.length batch.typed
    simpa using hTyped.symm
  refine columnNamed_eq_ok (columnNamed_append hSchema hColumns hLength hFresh ?_)
  rw [ArrayRef.ofCells_eq_ok hGroupKeys]
  rfl

/-- The group column can be added where its bytes fit. -/
theorem HoldsElements.groups_added (h : HoldsElements batch elements columns)
    (hFits : (elements.map fun element => element.groupKey.length).sum ≤ offsetMax) :
    ∃ extended, addEncodedKeyColumn batch = .ok extended := by
  have hCells : ArrayRef.ofCells .binary (elements.map fun element => some element.groupKey) =
      .ok (.leaf .binary (elements.map fun element => some element.groupKey)) := by
    refine if_pos ?_
    rw [List.map_map]
    exact hFits
  have hColumns : List.Forall₂ (fun (field : Field) (column : ArrayRef) =>
      column.dataType = field.dataType ∧ column.len = batch.numRows ∧
        (field.nullable = true ∨ column.hasNull = false)) (schemaWithGroupKey batch.schema)
      (batch.columns ++ [.leaf .binary (elements.map fun element => some element.groupKey)]) := by
    refine List.rel_append (h.sound.imp fun _ _ hColumn =>
      ⟨hColumn.type, hColumn.length, hColumn.nulls⟩) (.cons ⟨rfl, ?_, .inr ?_⟩ .nil)
    · rw [h.rows]
      exact List.length_map ..
    · refine ArrayRef.hasNull_eq_false_iff.mpr fun row _ => ?_
      rw [ArrayRef.isNull, List.getElem?_map]
      cases elements[row]? <;> rfl
  obtain ⟨extended, hNew, -⟩ := RecordBatch.tryNew_columns (by simp [schemaWithGroupKey]) hColumns
  have hAppend : ∀ result : Except ArrowError ArrayRef,
      result = .ok (.leaf .binary (elements.map fun element => some element.groupKey)) →
      (result.mapError WindowBatchError.arrow >>= fun groupKeys =>
        (RecordBatch.tryNew (schemaWithGroupKey batch.schema)
          (batch.columns ++ [groupKeys])).mapError .arrow) = .ok extended := by
    rintro _ rfl
    exact congrArg (Except.mapError WindowBatchError.arrow) hNew
  refine ⟨extended, ?_⟩
  simp only [addEncodedKeyColumn, h.keys, h.encodedKeys, Except.mapError]
  exact hAppend _ hCells

end Groups

/-! The loop over such a batch. -/

section Loop

variable {batch : RecordBatch} {elements : List WindowedValue} {columns : ElementColumns}

/-- What the loop reads. -/
def ElementColumns.lists (columns : ElementColumns) (elements : List WindowedValue) :
    WindowListColumns where
  counts := elements.map fun element => some (Int16.ofNat element.windows.length)
  firstWindows := elements.map WindowedValue.windowKey
  offsets := columns.offsets
  extraWindowValues := columns.extraWindowValues

theorem HoldsElements.lists (h : HoldsElements batch elements columns) :
    HasWindowColumns batch (columns.lists elements) :=
  ⟨h.counts, h.first, h.extra⟩

/-- The first window is present exactly when the element has one. -/
theorem firstPresent_lists {row : Nat} {element : WindowedValue}
    (hElement : elements[row]? = some element) :
    firstPresent (columns.lists elements).firstWindows row = !element.windows.isEmpty := by
  rw [firstPresent, ElementColumns.lists, List.getElem?_map, hElement, Option.map_some]
  cases hWindows : element.windows with
  | nil => simp [WindowedValue.windowKey, hWindows]
  | cons window windows => simp [WindowedValue.windowKey, hWindows]

/-- The two window columns agree in every row. -/
theorem HoldsElements.agrees (h : HoldsElements batch elements columns) {row : Nat}
    (hRow : row < batch.numRows) : (columns.lists elements).Agrees row := by
  rw [h.rows] at hRow
  have hElement := List.getElem?_eq_getElem hRow
  generalize elements[row] = element at hElement
  have hOthers := h.others row element hElement
  have hSmall := h.small element (List.mem_of_getElem? hElement)
  refine ⟨?_, fun index hMem => ?_⟩
  · have hDeclared : (columns.lists elements).declared row = element.windows.length := by
      rw [i16Max] at hSmall
      rw [WindowListColumns.declared, ElementColumns.lists, List.getElem?_map, hElement]
      exact Int16.toInt_ofNat_of_lt (by omega)
    rw [hDeclared, WindowListColumns.stored, firstPresent_lists hElement]
    show ((element.windows.length : Nat) : Int) =
      (((ArrayRef.rowItems columns.offsets row).length + _ : Nat) : Int)
    rw [hOthers.count]
    cases element.windows <;> simp
  · obtain ⟨place, hPlace⟩ := List.mem_iff_getElem?.mp hMem
    have hIndex := (List.getElem?_eq_some_iff.mp hPlace).1
    have hTail : place < element.windows.tail.length := by
      rw [← hOthers.count]
      exact hIndex
    exact ⟨_, hOthers.keys place index _ (List.getElem?_eq_getElem hTail) hPlace⟩

/-- A batch has fewer rows than its indices can count. -/
theorem HoldsGroups.rows_le (h : HoldsGroups batch elements columns) : batch.numRows ≤ 2 ^ 32 := by
  obtain ⟨_, -, hGroups⟩ := h.sound.columnByName h.groupKeys
  have hSum := hGroups.sound
  rw [ArrayRef.Sound, List.map_map] at hSum
  have hEach : ∀ size ∈ elements.map (ArrayRef.cellSize .binary ∘ fun element =>
      some element.groupKey), 1 ≤ size := by
    intro size hMem
    obtain ⟨element, hElement, rfl⟩ := List.mem_map.mp hMem
    obtain ⟨key, value, hValue⟩ := h.shaped hElement
    show 1 ≤ element.groupKey.length
    rw [WindowedValue.groupKey, hValue]
    cases key <;> exact Nat.succ_pos _
  have hCount := List.length_le_sum_of_one_le _ hEach
  rw [List.length_map, ← h.rows] at hCount
  rw [offsetMax] at hSum
  omega

/-- A row of the output: the element and the window it was gathered from. -/
def Gathered (elements : List WindowedValue) (windowValues : List (Option (List UInt8)))
    (rowIndex windowIndex : Nat) (row : GbkRow) : Prop :=
  ∃ element, elements[rowIndex]? = some element ∧
    element.value = .kv row.key row.element.value ∧
    element.timestampMillis = row.element.timestampMillis ∧
    windowValues[windowIndex]? = some (some row.window.toBinaryKey)

/-- The rows of elements in their first windows. -/
theorem HoldsElements.scalar_gathered (h : HoldsElements batch elements columns) :
    List.Forall₂ (fun index row => Gathered elements (elements.map WindowedValue.windowKey)
        index index row)
      ((List.range batch.numRows).flatMap fun row => ((columns.lists elements).expanded row).scalar)
      (elements.flatMap fun element => element.gbkRows.take 1) := by
  refine List.rel_flatMap (range_elements h.rows) fun row element hElement => ?_
  obtain ⟨key, value, hValue⟩ := h.shaped (List.mem_of_getElem? hElement)
  rw [WindowListColumns.expanded, firstPresent_lists hElement, WindowedValue.gbkRows, hValue]
  cases hWindows : element.windows with
  | nil => exact .nil
  | cons window windows =>
      refine .cons ⟨element, hElement, hValue, rfl, ?_⟩ .nil
      rw [List.getElem?_map, hElement, Option.map_some, WindowedValue.windowKey, hWindows]
      rfl

/-- The rows of elements in their other windows. -/
theorem HoldsElements.extra_gathered (h : HoldsElements batch elements columns) :
    List.Forall₂ (fun entry row => Gathered elements columns.extraWindowValues entry.1 entry.2 row)
      ((List.range batch.numRows).flatMap fun row => ((columns.lists elements).expanded row).extra)
      (elements.flatMap fun element => element.gbkRows.drop 1) := by
  refine List.rel_flatMap (range_elements h.rows) fun row element hElement => ?_
  obtain ⟨key, value, hValue⟩ := h.shaped (List.mem_of_getElem? hElement)
  have hOthers := h.others row element hElement
  have hRows : element.gbkRows.drop 1 = element.windows.tail.map fun window =>
      ⟨key, window, value, element.timestampMillis⟩ := by
    rw [WindowedValue.gbkRows, hValue, List.drop_one, List.map_tail]
  rw [hRows]
  refine List.forall₂_map_left_iff.mpr (List.forall₂_map_right_iff.mpr ?_)
  refine forall₂_of_rows hOthers.count fun index place window hPlace hWindow => ?_
  exact ⟨element, hElement, hValue, rfl, hOthers.keys index place window hWindow hPlace⟩

end Loop

/-! Gathering. -/

section Gathering

variable {batch taken : RecordBatch} {elements : List WindowedValue} {columns : ElementColumns}
  {windowValues : List (Option (List UInt8))} {entries : List (Nat × Nat)} {rows : List GbkRow}

theorem takeColumn_eq_ok {column result : ArrayRef} {indices : List Nat}
    (h : column.take indices = .ok result) : takeColumn column indices = .ok result := by
  rw [takeColumn, h]
  rfl

/-- A column that the gathering uses, with its field. -/
theorem columnField_eq_ok (hSound : batch.Sound) {name : String} {column : ArrayRef}
    (h : batch.columnByName name = some column) : ∃ field, columnField batch name = .ok field ∧
      field.name = name ∧ ColumnOf batch.numRows field column := by
  obtain ⟨field, hField, hColumn⟩ := hSound.columnByName h
  refine ⟨field, ?_, by simpa using List.find?_some hField, hColumn⟩
  rw [columnField, fieldWithName, hField]
  rfl

theorem groupColumn_eq_ok {name : String} {type : LeafType} {cells : List (Option type.Cell)}
    (h : taken.columnByName name = some (.leaf type cells)) :
    groupColumn taken name type = .ok cells := by
  rw [groupColumn, h]
  simp

/-- The columns of an output batch, gathered from those of the input. -/
structure GatheredColumns (taken : RecordBatch) (columns : ElementColumns)
    (elements : List WindowedValue) (windowValues : List (Option (List UInt8)))
    (entries : List (Nat × Nat)) : Prop where
  rows : taken.numRows = entries.length
  keys : ∃ keys, taken.columnByName keyColumn = some keys ∧
    columns.keys.take (entries.map Prod.fst) = .ok keys
  values : ∃ values, taken.columnByName valueColumn = some values ∧
    columns.values.take (entries.map Prod.fst) = .ok values
  timestamps : taken.columnByName windowTimestampColumn = some (.leaf .int64
    (entries.map fun entry =>
      (elements.map fun element => some element.timestampMillis)[entry.1]?.join))
  windows : taken.columnByName windowKeyColumn = some (.leaf .binary
    (entries.map fun entry => windowValues[entry.2]?.join))
  groupKeys : taken.columnByName groupKeyColumn = some (.leaf .binary
    (entries.map fun entry => (elements.map fun element => some element.groupKey)[entry.1]?.join))

/-- The gathered batch, as long as its columns can be addressed. -/
theorem takeFlattenedWindowBatch_eq_ok (h : HoldsGroups batch elements columns)
    (hRows : ∀ entry ∈ entries, entry.1 < batch.numRows)
    (hWindows : ∀ entry ∈ entries, entry.2 < windowValues.length)
    (hWindowsSound : (ArrayRef.leaf .binary windowValues).Sound)
    (hKeysFit : columns.keys.Fits (entries.map Prod.fst))
    (hValuesFit : columns.values.Fits (entries.map Prod.fst))
    (hGroupsFit : (ArrayRef.leaf .binary (elements.map fun element =>
      some element.groupKey)).Fits (entries.map Prod.fst))
    (hWindowsFit : (ArrayRef.leaf .binary windowValues).Fits (entries.map Prod.snd)) :
    ∃ taken, takeFlattenedWindowBatch batch (entries.map Prod.fst) windowValues
        (entries.map Prod.snd) = .ok taken ∧
      GatheredColumns taken columns elements windowValues entries := by
  have hIn : ∀ index ∈ entries.map Prod.fst, index < batch.numRows := by
    intro index hMem
    obtain ⟨entry, hEntry, rfl⟩ := List.mem_map.mp hMem
    exact hRows entry hEntry
  have hWindowIn : ∀ index ∈ entries.map Prod.snd,
      index < (ArrayRef.leaf .binary windowValues).len := by
    intro index hMem
    obtain ⟨entry, hEntry, rfl⟩ := List.mem_map.mp hMem
    exact hWindows entry hEntry
  obtain ⟨keyField, hKeyField, hKeyName, hKeyColumn⟩ := columnField_eq_ok h.sound h.keys
  obtain ⟨valueField, hValueField, hValueName, hValueColumn⟩ := columnField_eq_ok h.sound h.values
  obtain ⟨timeField, hTimeField, hTimeName, hTimeColumn⟩ := columnField_eq_ok h.sound h.timestamps
  obtain ⟨groupField, hGroupField, hGroupName, hGroupColumn⟩ :=
    columnField_eq_ok h.sound h.groupKeys
  have hTimeFit := @fits_leaf .int64 (elements.map fun element => some element.timestampMillis)
    (fun _ => rfl) (entries.map Prod.fst)
  obtain ⟨keys, hKeys, hKeysFits⟩ := hKeyColumn.take hIn hKeysFit
  obtain ⟨values, hValues, hValuesFits⟩ := hValueColumn.take hIn hValuesFit
  obtain ⟨timestamps, hTimestamps, hTimesFits⟩ := hTimeColumn.take hIn hTimeFit
  obtain ⟨groups, hGroups, hGroupsFits⟩ := hGroupColumn.take hIn hGroupsFit
  obtain ⟨windows, hWindowsTaken, hWindowsLen⟩ :=
    ArrayRef.take_eq_ok _ hWindowsSound hWindowIn hWindowsFit
  rw [List.length_map] at hKeysFits hValuesFits hTimesFits hGroupsFits hWindowsLen
  obtain ⟨taken, hTaken, hCount⟩ := @RecordBatch.tryNew_columns entries.length
    [keyField, valueField, timeField, ⟨windowKeyColumn, .binary, true⟩, groupField]
    [keys, values, timestamps, windows, groups] (List.cons_ne_nil _ _)
    (.cons hKeysFits (.cons hValuesFits (.cons hTimesFits
      (.cons ⟨ArrayRef.take_dataType hWindowsTaken, hWindowsLen, .inl rfl⟩
        (.cons hGroupsFits .nil)))))
  obtain ⟨hSchema, hColumns⟩ := RecordBatch.tryNew_eq_ok hTaken
  have hTimesNamed : taken.columnByName windowTimestampColumn = some timestamps := by
    rw [RecordBatch.columnByName, hSchema, hColumns]
    simp [hKeyName, hValueName, hTimeName, keyColumn, valueColumn, windowTimestampColumn]
  have hWindowsNamed : taken.columnByName windowKeyColumn = some windows := by
    rw [RecordBatch.columnByName, hSchema, hColumns]
    simp [hKeyName, hValueName, hTimeName, keyColumn, valueColumn, windowTimestampColumn,
      windowKeyColumn]
  have hGroupsNamed : taken.columnByName groupKeyColumn = some groups := by
    rw [RecordBatch.columnByName, hSchema, hColumns]
    simp [hKeyName, hValueName, hTimeName, hGroupName, keyColumn, valueColumn,
      windowTimestampColumn, windowKeyColumn, groupKeyColumn]
  refine ⟨taken, ?_, hCount, ⟨keys, ?_, hKeys⟩, ⟨values, ?_, hValues⟩, ?_, ?_, ?_⟩
  · simp only [takeFlattenedWindowBatch, windowColumn_of_columnByName h.keys,
      windowColumn_of_columnByName h.values, windowColumn_of_columnByName h.timestamps,
      windowColumn_of_columnByName h.groupKeys, takeColumn_eq_ok hKeys, takeColumn_eq_ok hValues,
      takeColumn_eq_ok hTimestamps, takeColumn_eq_ok hGroups, takeColumn_eq_ok hWindowsTaken,
      hKeyField, hValueField, hTimeField, hGroupField, hTaken, bind, Except.bind]
    rfl
  · rw [RecordBatch.columnByName, hSchema, hColumns]
    simp [hKeyName]
  · rw [RecordBatch.columnByName, hSchema, hColumns]
    simp [hKeyName, hValueName, keyColumn, valueColumn]
  · rw [hTimesNamed, ArrayRef.take_leaf hTimestamps, List.map_map]
    rfl
  · rw [hWindowsNamed, ArrayRef.take_leaf hWindowsTaken, List.map_map]
    rfl
  · rw [hGroupsNamed, ArrayRef.take_leaf hGroups, List.map_map]
    rfl

theorem columnNamed_of_columnByName {name : String} {column : ArrayRef}
    (h : taken.columnByName name = some column) : columnNamed taken name = .ok column := by
  rw [columnNamed, h]

/-- The gathered batch holds the rows it was gathered for. -/
theorem GatheredColumns.holds {tableSchema : RecordTableSchema}
    (hColumns : GatheredColumns taken columns elements windowValues entries)
    (h : HoldsElements batch elements columns) (hKv : tableSchema.tableType = .kv)
    (hRows : List.Forall₂ (fun entry row => Gathered elements windowValues entry.1 entry.2 row)
      entries rows) : HoldsRows tableSchema taken rows := by
  obtain ⟨keys, hKeys, hKeysTaken⟩ := hColumns.keys
  obtain ⟨values, hValues, hValuesTaken⟩ := hColumns.values
  have hWindowCells : (entries.map fun entry => windowValues[entry.2]?.join) =
      rows.map fun row => some row.window.toBinaryKey := by
    refine forall₂_map_eq (fun entry row hRow => ?_) hRows
    obtain ⟨_, -, -, -, hWindow⟩ := hRow
    rw [hWindow, Option.join_some]
  have hGroupCells : (entries.map fun entry =>
      (elements.map fun element => some element.groupKey)[entry.1]?.join) =
      rows.map fun row => some (encodedPrimitiveSortKey row.key) := by
    refine forall₂_map_eq (fun entry row hRow => ?_) hRows
    obtain ⟨element, hElement, hValue, -, -⟩ := hRow
    rw [List.getElem?_map, hElement, Option.map_some, Option.join_some, WindowedValue.groupKey,
      hValue]
  have hTimeCells : (entries.map fun entry =>
      (elements.map fun element => some element.timestampMillis)[entry.1]?.join) =
      rows.map fun row => some row.element.timestampMillis := by
    refine forall₂_map_eq (fun entry row hRow => ?_) hRows
    obtain ⟨element, hElement, -, hTime, -⟩ := hRow
    rw [List.getElem?_map, hElement, Option.map_some, Option.join_some, hTime]
  constructor
  · simp only [groupColumns, groupColumn_eq_ok hColumns.windows,
      groupColumn_eq_ok hColumns.groupKeys, groupColumn_eq_ok hColumns.timestamps, bind, Except.bind]
    rw [rowColumns, ← hWindowCells, ← hGroupCells, ← hTimeCells]
    rfl
  · have hLoop : (List.range taken.numRows).mapM (kvTableRow keys values) =
        .ok (rows.map fun row => .kv row.key row.element.value) := by
      refine mapM_eq_ok_iff.mpr (List.forall₂_map_right_iff.mpr ?_)
      have hLength : (List.range taken.numRows).length = rows.length := by
        rw [List.length_range, hColumns.rows, hRows.length_eq]
      refine forall₂_of_rows hLength fun place index row hIndex hRow => ?_
      obtain ⟨hPlace, hSame⟩ := List.getElem?_eq_some_iff.mp hIndex
      rw [List.getElem_range] at hSame
      rw [List.length_range, hColumns.rows] at hPlace
      have hEntry := List.getElem?_eq_getElem hPlace
      obtain ⟨found, hFound, element, hElement, hValue, -, -⟩ := forall₂_row hRows hEntry
      cases hFound.symm.trans hRow
      have hTaken : (entries.map Prod.fst)[place]? = some entries[place].1 := by
        rw [List.getElem?_map, hEntry, Option.map_some]
      rw [← hSame, ← hValue, ← h.reads _ element hElement]
      exact (kvTableRow_sameRow (ArrayRef.take_sameRow _ hKeysTaken hTaken)
        (ArrayRef.take_sameRow _ hValuesTaken hTaken)).symm
    rw [recordBatchToBeamrecords, hKv]
    simp only [columnNamed_of_columnByName hKeys, columnNamed_of_columnByName hValues, bind,
      Except.bind]
    exact hLoop

end Gathering

/-! The whole batch. -/

/-- The rows of the elements, once for every window but the first. -/
def extraRows (elements : List WindowedValue) : List Nat :=
  elements.zipIdx.flatMap fun entry => List.replicate (entry.1.windows.length - 1) entry.2

/-- The payload of the extra rows can be addressed by 32-bit offsets. -/
def ExtraRowsFit (batch : RecordBatch) (elements : List WindowedValue) : Prop :=
  ∀ name ∈ [keyColumn, valueColumn, groupKeyColumn], ∀ column,
    batch.columnByName name = some column → column.Fits (extraRows elements)

section Explosion

variable {batch : RecordBatch} {elements : List WindowedValue} {columns : ElementColumns}

/-- The rows that `scalar_rows` collects, and what `extra_rows` and
`extra_window_indices` collect. -/
def ElementColumns.scalarRows (columns : ElementColumns) (elements : List WindowedValue)
    (count : Nat) : List Nat :=
  (List.range count).flatMap fun row => ((columns.lists elements).expanded row).scalar

def ElementColumns.extraEntries (columns : ElementColumns) (elements : List WindowedValue)
    (count : Nat) : List (Nat × Nat) :=
  (List.range count).flatMap fun row => ((columns.lists elements).expanded row).extra

/-- Rows with a first window are taken in order. -/
theorem scalarRows_sublist (columns : ElementColumns) (elements : List WindowedValue)
    (count : Nat) : (columns.scalarRows elements count).Sublist (List.range count) := by
  have hEach : ∀ row ∈ List.range count,
      ((columns.lists elements).expanded row).scalar.Sublist [row] := by
    intro row _
    rw [WindowListColumns.expanded]
    split
    · exact List.Sublist.refl _
    · exact List.nil_sublist _
  have hAll := List.Sublist.flatMap_right (List.range count) hEach
  rwa [List.flatMap_singleton'] at hAll

/-- The further windows are taken row by row. -/
theorem extraEntries_snd (columns : ElementColumns) (elements : List WindowedValue) (count : Nat) :
    (columns.extraEntries elements count).map Prod.snd =
      (List.range count).flatMap (ArrayRef.rowItems columns.offsets) := by
  rw [ElementColumns.extraEntries, List.map_flatMap]
  congr 1
  funext row
  rw [WindowListColumns.expanded, List.map_map]
  exact List.map_id _

/-- Each of them is paired with the row it stands in. -/
theorem extraEntries_fst (h : HoldsElements batch elements columns) :
    (columns.extraEntries elements batch.numRows).map Prod.fst = extraRows elements := by
  have hZip : List.Forall₂ (fun row (entry : WindowedValue × Nat) =>
      elements[row]? = some entry.1 ∧ row = entry.2) (List.range batch.numRows) elements.zipIdx := by
    refine forall₂_of_rows (by simp [h.rows]) fun place row entry hRow hEntry => ?_
    obtain ⟨hPlace, hSame⟩ := List.getElem?_eq_some_iff.mp hRow
    rw [List.getElem_range] at hSame
    rw [List.getElem?_zipIdx] at hEntry
    obtain ⟨element, hElement, rfl⟩ := Option.map_eq_some_iff.mp hEntry
    rw [← hSame]
    exact ⟨hElement, by simp⟩
  rw [ElementColumns.extraEntries, List.map_flatMap, extraRows]
  refine List.forall₂_eq_eq_eq ▸ List.rel_flatMap hZip fun row entry hEntry => ?_
  obtain ⟨hElement, hRow⟩ := hEntry
  have hCount := (h.others row entry.1 hElement).count
  rw [List.length_tail] at hCount
  have hConst : ((columns.lists elements).expanded row).extra.map Prod.fst =
      List.replicate (entry.1.windows.length - 1) entry.2 := by
    rw [WindowListColumns.expanded, List.map_map, ← hCount, ← hRow]
    exact List.map_const' ..
  rw [hConst]
  exact List.forall₂_refl _

/-- What the rows of an exploded batch are, where the gather succeeds. -/
theorem takeRows_eq_ok {tableSchema : RecordTableSchema} {windowValues : List (Option (List UInt8))}
    {entries : List (Nat × Nat)} {rows : List GbkRow} (h : HoldsGroups batch elements columns)
    (hKv : tableSchema.tableType = .kv)
    (hRows : List.Forall₂ (fun entry row => Gathered elements windowValues entry.1 entry.2 row)
      entries rows)
    (hWindowsSound : (ArrayRef.leaf .binary windowValues).Sound)
    (hKeysFit : columns.keys.Fits (entries.map Prod.fst))
    (hValuesFit : columns.values.Fits (entries.map Prod.fst))
    (hGroupsFit : (ArrayRef.leaf .binary (elements.map fun element =>
      some element.groupKey)).Fits (entries.map Prod.fst))
    (hWindowsFit : (ArrayRef.leaf .binary windowValues).Fits (entries.map Prod.snd)) :
    ∃ outs chunks, takeRows batch (entries.map Prod.fst) windowValues (entries.map Prod.snd) =
        .ok outs ∧ List.Forall₂ (HoldsRows tableSchema) outs chunks ∧ chunks.flatten = rows := by
  cases hRows with
  | nil => exact ⟨[], [], rfl, .nil, rfl⟩
  | @cons entry row entries rows hFirst hRest =>
      have hAll : List.Forall₂ (fun found row =>
          Gathered elements windowValues found.1 found.2 row) (entry :: entries) (row :: rows) :=
        .cons hFirst hRest
      have hIn : ∀ found ∈ entry :: entries, found.1 < batch.numRows := by
        intro found hMem
        obtain ⟨_, -, element, hElement, -⟩ := forall₂_left hAll hMem
        rw [h.rows]
        exact (List.getElem?_eq_some_iff.mp hElement).1
      have hWindowIn : ∀ found ∈ entry :: entries, found.2 < windowValues.length := by
        intro found hMem
        obtain ⟨_, -, _, -, -, -, hWindow⟩ := forall₂_left hAll hMem
        exact (List.getElem?_eq_some_iff.mp hWindow).1
      obtain ⟨taken, hTaken, hColumns⟩ := takeFlattenedWindowBatch_eq_ok h hIn hWindowIn hWindowsSound
        hKeysFit hValuesFit hGroupsFit hWindowsFit
      refine ⟨[taken], [row :: rows], ?_, .cons (hColumns.holds h.toHoldsElements hKv hAll) .nil,
        by simp⟩
      rw [takeRows, List.map_cons, List.isEmpty_cons, if_neg Bool.false_ne_true, ← List.map_cons,
        hTaken]
      rfl

/-- The loop of such a batch. -/
theorem flattenWindowBatch_eq (h : HoldsGroups batch elements columns) :
    flattenWindowBatch batch = (do
      let scalar ← takeRows batch (columns.scalarRows elements batch.numRows)
        (elements.map WindowedValue.windowKey) (columns.scalarRows elements batch.numRows)
      let others ← takeRows batch (extraRows elements) columns.extraWindowValues
        ((columns.extraEntries elements batch.numRows).map Prod.snd)
      pure (scalar ++ others)) := by
  have hLists := windowListColumns_eq_ok_iff.mpr h.lists
  have hLoop := expandRows_eq_ok h.sound h.lists (fun row hRow => h.agrees hRow) h.rows_le
  rw [flattenWindowBatch, hLists]
  simp only [bind, Except.bind, hLoop, List.flatMap_map]
  rw [← extraEntries_fst h.toHoldsElements]
  rfl

/-- Such a batch is exploded into its rows. -/
theorem HoldsGroups.exploded {tableSchema : RecordTableSchema}
    (h : HoldsGroups batch elements columns) (hKv : tableSchema.tableType = .kv)
    (hFit : ExtraRowsFit batch elements) :
    ∃ outs chunks, flattenWindowBatch batch = .ok outs ∧
      List.Forall₂ (HoldsRows tableSchema) outs chunks ∧
      chunks.flatten.Perm (elements.flatMap WindowedValue.gbkRows) := by
  obtain ⟨_, -, hKeys⟩ := h.sound.columnByName h.keys
  obtain ⟨_, -, hValues⟩ := h.sound.columnByName h.values
  obtain ⟨_, -, hGroups⟩ := h.sound.columnByName h.groupKeys
  obtain ⟨_, -, hFirst⟩ := h.sound.columnByName h.first
  obtain ⟨item, nulls, hExtra⟩ := h.extra
  obtain ⟨_, -, hLists⟩ := h.sound.columnByName hExtra
  have hScalarRows := scalarRows_sublist columns elements batch.numRows
  have hScalarFits : ∀ {field column}, ColumnOf batch.numRows field column →
      column.Fits (columns.scalarRows elements batch.numRows) := fun hColumn =>
    ArrayRef.fits_of_sublist _ hColumn.sound (by rw [hColumn.length]; exact hScalarRows)
  have hSame : ∀ indices : List Nat, (indices.map fun index => (index, index)).map Prod.fst =
      indices ∧ (indices.map fun index => (index, index)).map Prod.snd = indices := by
    intro indices
    rw [List.map_map, List.map_map]
    exact ⟨List.map_id _, List.map_id _⟩
  have hPairs : List.Forall₂ (fun entry row => Gathered elements
      (elements.map WindowedValue.windowKey) entry.1 entry.2 row)
      ((columns.scalarRows elements batch.numRows).map fun index => (index, index))
      (elements.flatMap fun element => element.gbkRows.take 1) :=
    List.forall₂_map_left_iff.mpr h.scalar_gathered
  obtain ⟨hFst, hSnd⟩ := hSame (columns.scalarRows elements batch.numRows)
  obtain ⟨scalar, scalarChunks, hScalar, hScalarHolds, hScalarRows⟩ := takeRows_eq_ok h hKv hPairs
    hFirst.sound (by rw [hFst]; exact hScalarFits hKeys) (by rw [hFst]; exact hScalarFits hValues)
    (by rw [hFst]; exact hScalarFits hGroups) (by rw [hSnd]; exact hScalarFits hFirst)
  rw [hFst, hSnd] at hScalar
  have hFstExtra := extraEntries_fst h.toHoldsElements
  have hWindowsFit : (ArrayRef.leaf .binary columns.extraWindowValues).Fits
      ((columns.extraEntries elements batch.numRows).map Prod.snd) := by
    refine ArrayRef.fits_of_sublist _ hLists.sound.2 ?_
    rw [extraEntries_snd, ← hLists.length]
    exact ArrayRef.flatMap_rowItems_range fun offset hMem => (hLists.sound.1 offset hMem).1
  obtain ⟨others, otherChunks, hOthers, hOthersHold, hOtherRows⟩ := takeRows_eq_ok h hKv
    h.extra_gathered hLists.sound.2
    (by rw [← ElementColumns.extraEntries, hFstExtra]
        exact hFit keyColumn (by simp) _ h.keys)
    (by rw [← ElementColumns.extraEntries, hFstExtra]
        exact hFit valueColumn (by simp) _ h.values)
    (by rw [← ElementColumns.extraEntries, hFstExtra]
        exact hFit groupKeyColumn (by simp) _ h.groupKeys)
    hWindowsFit
  rw [← ElementColumns.extraEntries, hFstExtra] at hOthers
  refine ⟨scalar ++ others, scalarChunks ++ otherChunks, ?_,
    List.rel_append hScalarHolds hOthersHold, ?_⟩
  · rw [flattenWindowBatch_eq h]
    simp only [bind, Except.bind, hScalar, hOthers]
    rfl
  · rw [List.flatten_append, hScalarRows, hOtherRows]
    refine (List.flatMap_append_perm elements _ _).trans ?_
    simp only [List.take_append_drop]
    exact List.Perm.refl _

/-- A column can be gathered only where its cells fit. -/
theorem takeColumn_fits {column result : ArrayRef} {indices : List Nat}
    (h : takeColumn column indices = .ok result) : column.Fits indices :=
  ArrayRef.fits_of_take column (mapError_eq_ok h)

/-- The extra rows of a batch that was exploded could be addressed. -/
theorem HoldsGroups.fits (h : HoldsGroups batch elements columns) {outs : List RecordBatch}
    (hOk : flattenWindowBatch batch = .ok outs) : ExtraRowsFit batch elements := by
  rw [flattenWindowBatch_eq h] at hOk
  obtain ⟨scalar, -, hRest⟩ := bind_eq_ok hOk
  obtain ⟨others, hOthers, -⟩ := bind_eq_ok hRest
  rw [takeRows] at hOthers
  split at hOthers
  · next hNone =>
      intro name _ column hColumn
      obtain ⟨_, -, hHeld⟩ := h.sound.columnByName hColumn
      rw [List.isEmpty_iff.mp hNone]
      exact ArrayRef.fits_of_sublist column hHeld.sound (List.nil_sublist _)
  · obtain ⟨taken, hTaken, -⟩ := bind_eq_ok hOthers
    obtain ⟨key, hKey, hTaken⟩ := bind_eq_ok hTaken
    obtain ⟨value, hValue, hTaken⟩ := bind_eq_ok hTaken
    obtain ⟨timestamp, -, hTaken⟩ := bind_eq_ok hTaken
    obtain ⟨groupKey, hGroupKey, hTaken⟩ := bind_eq_ok hTaken
    obtain ⟨keys, hKeys, hTaken⟩ := bind_eq_ok hTaken
    obtain ⟨values, hValues, hTaken⟩ := bind_eq_ok hTaken
    obtain ⟨timestamps, -, hTaken⟩ := bind_eq_ok hTaken
    obtain ⟨windows, -, hTaken⟩ := bind_eq_ok hTaken
    obtain ⟨groupKeys, hGroupKeys, -⟩ := bind_eq_ok hTaken
    have hSame : ∀ {name found column}, windowColumn batch name = .ok found →
        batch.columnByName name = some column → column = found := fun hFound hColumn =>
      Option.some.inj (hColumn.symm.trans (windowColumn_eq_ok hFound))
    intro name hMem column hColumn
    simp only [List.mem_cons, List.not_mem_nil, or_false] at hMem
    rcases hMem with rfl | rfl | rfl
    · rw [hSame hKey hColumn]
      exact takeColumn_fits hKeys
    · rw [hSame hValue hColumn]
      exact takeColumn_fits hValues
    · rw [hSame hGroupKey hColumn]
      exact takeColumn_fits hGroupKeys

end Explosion

end FlareDB
