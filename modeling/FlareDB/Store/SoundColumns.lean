import FlareDB.Lib.ArrowRows
import FlareDB.Store.BatchRoundTrip

/-! The columns of a built batch as other operations meet them: what is read from
a row depends on that row only, and every column is left as its constructor
leaves it. -/
namespace FlareDB

open Arrow Results

/-! Reading a row that was copied. -/

section SameRow

variable {array other : ArrayRef} {row place : Nat}

/-- Equal rows of two leaf columns hold the same value. -/
theorem leafValue_sameRow (h : ArrayRef.SameRow array row other place) (type : LeafType)
    (toPrimitive : type.Cell → PrimitiveValue) :
    leafValue type toPrimitive array row = leafValue type toPrimitive other place := by
  cases h with
  | @leaf found cells others _ _ hCell =>
      by_cases hType : found = type
      · subst hType
        rw [leafValue, leafValue, ArrayRef.downcast_leaf, ArrayRef.downcast_leaf]
        simp only [hCell]
      · simp [leafValue, ArrayRef.downcast, hType]
  | list => rfl
  | struct => rfl

/-- Equal rows are read as the same primitive. -/
theorem primitiveValueFromArrayRow_sameRow (h : ArrayRef.SameRow array row other place)
    (dataType : DataType) :
    primitiveValueFromArrayRow array dataType row =
      primitiveValueFromArrayRow other dataType place := by
  simp only [primitiveValueFromArrayRow, h.isNull, leafValue_sameRow h]

/-- Two runs over as many indices agree if they agree index by index. -/
theorem mapM_range'_eq {f g : Nat → Except RecordError BeamRecord} {start finish count : Nat}
    (h : ∀ index < count, f (start + index) = g (finish + index)) :
    (List.range' start count).mapM f = (List.range' finish count).mapM g := by
  induction count generalizing start finish with
  | zero => rfl
  | succ count ih =>
      have hRest : (List.range' (start + 1) count).mapM f =
          (List.range' (finish + 1) count).mapM g := by
        refine ih fun index hIndex => ?_
        have hNext := h (index + 1) (by omega)
        rwa [Nat.add_comm index 1, ← Nat.add_assoc, ← Nat.add_assoc] at hNext
      have hFirst := h 0 (Nat.succ_pos _)
      rw [Nat.add_zero, Nat.add_zero] at hFirst
      rw [List.range'_succ, List.range'_succ, List.mapM_cons, List.mapM_cons, hFirst, hRest]

/-- Equal rows of two list columns are read as the same list, wherever their items
start. -/
theorem listRow_sameRow {read : ArrayRef → Nat → Except RecordError BeamRecord}
    (hRead : ∀ {array other : ArrayRef} {row place : Nat}, ArrayRef.SameRow array row other place →
      read array row = read other place) (h : ArrayRef.SameRow array row other place) :
    listRow read array row = listRow read other place := by
  unfold listRow
  rw [h.isNull]
  split
  · rfl
  · cases h with
    | leaf => rfl
    | struct => rfl
    | list hNull hStart hEnd hCopy hCopyEnd hItems =>
        simp only [hStart, hEnd, hCopy, hCopyEnd, Nat.add_sub_cancel_left]
        exact mapM_range'_eq fun index hIndex => hRead (hItems index hIndex)

/-- A child that is read at a row. -/
theorem childAt_sameRow {α : Type} {children others : List ArrayRef}
    (hLength : children.length = others.length)
    (hChildren : ∀ (index : Nat) child other, children[index]? = some child →
      others[index]? = some other → ArrayRef.SameRow child row other place)
    {read : ArrayRef → Nat → Except RecordError α}
    (hRead : ∀ {array other : ArrayRef}, ArrayRef.SameRow array row other place →
      read array row = read other place) (index : Nat) :
    (childAt children index >>= fun child => read child row) =
      (childAt others index >>= fun child => read child place) := by
  rw [childAt, childAt]
  cases hChild : children[index]? with
  | none =>
      rw [List.getElem?_eq_none_iff, hLength, ← List.getElem?_eq_none_iff] at hChild
      rw [hChild]
      rfl
  | some child =>
      obtain ⟨hIndex, -⟩ := List.getElem?_eq_some_iff.mp hChild
      have hOther := List.getElem?_eq_getElem (hLength ▸ hIndex)
      rw [hOther]
      exact hRead (hChildren index child _ hChild hOther)

/-- Equal rows of two struct columns are read as the same tuple. -/
theorem tupleRow_sameRow (h : ArrayRef.SameRow array row other place) (fields : List Field) :
    tupleRow array fields row = tupleRow other fields place := by
  cases h with
  | leaf => rfl
  | list => rfl
  | @struct _ children others _ _ _ _ hNull hLength hChildren =>
      have hCells : tupleCell children row = tupleCell others place := by
        funext child
        exact childAt_sameRow hLength hChildren
          (fun hSame => primitiveValueFromArrayRow_sameRow hSame child.1.dataType) child.2
      simp only [tupleRow, structChildren, hCells, bind, Except.bind]

/-- Equal rows of two pair columns are read as the same pair. -/
theorem kvRow_sameRow {read : ArrayRef → Nat → Except RecordError BeamRecord}
    (hRead : ∀ {array other : ArrayRef} {row place : Nat}, ArrayRef.SameRow array row other place →
      read array row = read other place) (h : ArrayRef.SameRow array row other place) (keyField : Field) :
    kvRow read array keyField row = kvRow read other keyField place := by
  cases h with
  | leaf => rfl
  | list => rfl
  | @struct fields children others nulls mask row place hNull hLength hChildren =>
      have hKey := childAt_sameRow hLength hChildren
        (fun hSame => primitiveValueFromArrayRow_sameRow hSame keyField.dataType) 0
      have hValue := childAt_sameRow hLength hChildren hRead 1
      have hSplit : ∀ (list : List ArrayRef) index,
          kvRow read (.struct fields list nulls) keyField index =
            ((childAt list 0 >>= fun keys =>
              primitiveValueFromArrayRow keys keyField.dataType index) >>= fun key =>
            (childAt list 1 >>= fun values => read values index) >>= fun value =>
              pure (.kv key value)) := by
        intro list index
        simp only [kvRow, structChildren, bind_assoc]
        rfl
      have hOther : kvRow read (.struct fields others mask) keyField place =
          kvRow read (.struct fields others nulls) keyField place := rfl
      rw [hOther, hSplit, hSplit, hKey, hValue]

/-- What is read from a row depends on the row only, at every storage type. -/
theorem nestedValueFromArrayRow_sameRow : ∀ (dataType : DataType) {array other : ArrayRef}
    {row place : Nat}, ArrayRef.SameRow array row other place →
    nestedValueFromArrayRow array dataType row = nestedValueFromArrayRow other dataType place
  | .leaf type, _, _, _, _, h => by
      simp only [nestedValueFromArrayRow, primitiveValueFromArrayRow_sameRow h]
  | .list item, _, _, _, _, h => by
      simp only [nestedValueFromArrayRow]
      rw [listRow_sameRow (nestedValueFromArrayRow_sameRow item.dataType) h]
  | .struct [first, second], _, _, _, _, h => by
      simp only [nestedValueFromArrayRow]
      split
      · exact kvRow_sameRow (nestedValueFromArrayRow_sameRow second.dataType) h first
      · exact tupleRow_sameRow h _
  | .struct [], _, _, _, _, h => tupleRow_sameRow h _
  | .struct [_], _, _, _, _, h => tupleRow_sameRow h _
  | .struct (_ :: _ :: _ :: _), _, _, _, _, h => tupleRow_sameRow h _

/-- A row of a KV table is read from its key and value rows alone. -/
theorem kvTableRow_sameRow {values copies : ArrayRef} (hKeys : ArrayRef.SameRow array row other place)
    (hValues : ArrayRef.SameRow values row copies place) :
    kvTableRow array values row = kvTableRow other copies place := by
  rw [kvTableRow, kvTableRow, hKeys.dataType, hValues.dataType,
    primitiveValueFromArrayRow_sameRow hKeys, nestedValueFromArrayRow_sameRow _ hValues]

end SameRow

/-! What the builders leave. -/

/-- A column made of cells is sound. -/
theorem ofCells_sound {type : LeafType} {cells : List (Option type.Cell)} {array : ArrayRef}
    (h : ArrayRef.ofCells type cells = .ok array) : array.Sound := by
  rw [ArrayRef.ofCells] at h
  split at h
  · next hFits =>
      cases h
      exact hFits
  · cases h

/-- Offsets that are accepted fit into 32 bits. -/
theorem offsetsFrom_bound {lengths : List Nat} {running : Nat} {rest : List Nat}
    (h : offsetsFrom running lengths = .ok rest) : ∀ offset ∈ rest, offset ≤ offsetMax := by
  induction lengths generalizing running rest with
  | nil =>
      cases h
      exact fun _ hMem => absurd hMem List.not_mem_nil
  | cons len lengths ih =>
      rw [offsetsFrom] at h
      split at h
      · cases h
      · split at h
        · cases h
        · next hRunning =>
            obtain ⟨others, hOthers, hPure⟩ := bind_eq_ok h
            cases hPure
            exact List.forall_mem_cons.mpr ⟨Nat.le_of_not_lt hRunning, ih hOthers⟩

/-- All offsets of a buffer that was built fit into 32 bits. -/
theorem buildOffsets_bound {lengths : List Nat} {buffer : OffsetBuffer}
    (h : buildOffsets lengths = .ok buffer) : ∀ offset ∈ buffer.offsets, offset ≤ offsetMax := by
  obtain ⟨rest, hRest, hNew⟩ := bind_eq_ok h
  have hNew := mapError_eq_ok hNew
  rw [OffsetBuffer.new] at hNew
  split at hNew
  · rw [← Except.ok.inj hNew]
    exact List.forall_mem_cons.mpr ⟨Nat.zero_le _, offsetsFrom_bound hRest⟩
  · cases hNew

/-- A list column over sound items, with offsets of 32 bits, is sound. -/
theorem newList_sound {item : Field} {offsets : OffsetBuffer} {values array : ArrayRef}
    {nulls : Option (List Bool)} (h : ArrayRef.newList item offsets values nulls = .ok array)
    (hValues : values.Sound) (hBound : ∀ offset ∈ offsets.offsets, offset ≤ offsetMax) :
    array.Sound := by
  obtain ⟨rfl, -, hInside⟩ := ArrayRef.newList_eq_ok h
  exact ⟨fun offset hMem => ⟨hInside offset hMem, hBound offset hMem⟩, hValues⟩

/-- A struct column over sound children is sound. -/
theorem tryNewStruct_sound {fields : List Field} {children : List ArrayRef}
    {nulls : Option (List Bool)} {array : ArrayRef}
    (h : ArrayRef.tryNewStruct fields children nulls = .ok array)
    (hChildren : ∀ child ∈ children, child.Sound) : array.Sound := by
  obtain ⟨rfl, hFields⟩ := ArrayRef.tryNewStruct_eq_ok h
  refine ArrayRef.soundAll_iff.mpr fun child hMem => ⟨?_, hChildren child hMem⟩
  obtain ⟨field, -, -, hLength⟩ := forall₂_right hFields hMem
  exact hLength

/-- A column built of primitives is sound. -/
theorem primitiveValuesToArray_sound {values : List PrimitiveValue} {dataType : DataType}
    {array : ArrayRef} (h : primitiveValuesToArray values dataType = .ok array) : array.Sound := by
  cases dataType with
  | leaf type =>
      rw [primitiveValuesToArray] at h
      split at h
      · obtain ⟨cells, -, hArray⟩ := bind_eq_ok h
        exact ofCells_sound (mapError_eq_ok hArray)
      · cases h
  | list item => cases h
  | struct fields => cases h

/-- A column built of lists is sound if its items are built so. -/
theorem listArray_sound {build : List BeamRecord → Except RecordError ArrayRef}
    (hBuild : ∀ {records array}, build records = .ok array → array.Sound)
    {iterables : List (List BeamRecord)} {itemDataType : DataType} {array : ArrayRef}
    (h : listArray build iterables itemDataType = .ok array) : array.Sound := by
  obtain ⟨offsets, hOffsets, hRest⟩ := bind_eq_ok h
  obtain ⟨child, hChild, hNew⟩ := bind_eq_ok hRest
  exact newList_sound (mapError_eq_ok hNew) (hBuild hChild) (buildOffsets_bound hOffsets)

/-- A column built of tuples is sound. -/
theorem tupleArray_sound {records : List BeamRecord} {fields : List Field} {array : ArrayRef}
    (h : tupleArray records fields = .ok array) : array.Sound := by
  obtain ⟨children, hChildren, hNew⟩ := bind_eq_ok h
  refine tryNewStruct_sound (mapError_eq_ok hNew) fun child hMem => ?_
  obtain ⟨field, -, hChild⟩ := forall₂_right (mapM_eq_ok_iff.mp hChildren) hMem
  obtain ⟨values, -, hArray⟩ := bind_eq_ok hChild
  exact primitiveValuesToArray_sound hArray

/-- A column built of pairs is sound if its values are built so. -/
theorem kvArray_sound {build : List BeamRecord → Except RecordError ArrayRef}
    (hBuild : ∀ {records array}, build records = .ok array → array.Sound)
    {records : List BeamRecord} {keyField valueField : Field} {array : ArrayRef}
    (h : kvArray build records keyField valueField = .ok array) : array.Sound := by
  obtain ⟨pairs, -, hRest⟩ := bind_eq_ok h
  obtain ⟨keys, hKeys, hRest⟩ := bind_eq_ok hRest
  obtain ⟨values, hValues, hNew⟩ := bind_eq_ok hRest
  refine tryNewStruct_sound (mapError_eq_ok hNew) ?_
  simpa using ⟨primitiveValuesToArray_sound hKeys, hBuild hValues⟩

/-- Every column that is built of records is sound. -/
theorem nestedValuesToArray_sound : ∀ (dataType : DataType) {records : List BeamRecord}
    {array : ArrayRef}, nestedValuesToArray records dataType = .ok array → array.Sound
  | .leaf type, records, array, h => by
      obtain ⟨values, -, hArray⟩ := bind_eq_ok h
      exact primitiveValuesToArray_sound hArray
  | .list item, records, array, h => by
      obtain ⟨iterables, -, hArray⟩ := bind_eq_ok h
      exact listArray_sound (nestedValuesToArray_sound item.dataType) hArray
  | .struct [first, second], records, array, h => by
      rw [nestedValuesToArray] at h
      split at h
      · exact kvArray_sound (nestedValuesToArray_sound second.dataType) h
      · exact tupleArray_sound h
  | .struct [], _, _, h => tupleArray_sound h
  | .struct [_], _, _, h => tupleArray_sound h
  | .struct (_ :: _ :: _ :: _), _, _, h => tupleArray_sound h

mutual

/-- The Boolean surrogates that stand for Null leave a column sound. -/
theorem materializeVoidArray_sound : ∀ (dataType : DataType) {array newArray : ArrayRef},
    materializeVoidArray array dataType = .ok newArray → array.Sound → newArray.Sound
  | .leaf type, array, newArray, h, hSound => by
      by_cases hNull : type = .null
      · subst hNull
        cases h
        have hNone : ((List.replicate array.len none).map (ArrayRef.cellSize .boolean)).sum = 0 := by
          simp [ArrayRef.cellSize]
        rw [ArrayRef.Sound, hNone]
        exact Nat.zero_le _
      · have hSame : newArray = array := by
          cases type <;> first | exact absurd rfl hNull | exact (Except.ok.inj h).symm
        rwa [hSame]
  | .list item, array, newArray, h, hSound => by
      cases array with
      | leaf type cells => cases h
      | struct fields children nulls => cases h
      | list otherItem offsets values nulls =>
          obtain ⟨newValues, hValues, hNew⟩ := bind_eq_ok h
          exact newList_sound (mapError_eq_ok hNew)
            (materializeVoidArray_sound item.dataType hValues hSound.2)
            fun offset hMem => (hSound.1 offset hMem).2
  | .struct fields, array, newArray, h, hSound => by
      cases array with
      | leaf type cells => cases h
      | list item offsets values nulls => cases h
      | struct otherFields children nulls =>
          obtain ⟨newChildren, hChildren, hNew⟩ := bind_eq_ok h
          exact tryNewStruct_sound (mapError_eq_ok hNew) (materializeVoidChildren_sound fields hChildren
            fun child hMem => (ArrayRef.soundAll_iff.mp hSound child hMem).2)

/-- The surrogates leave the children of a struct sound. -/
theorem materializeVoidChildren_sound : ∀ (fields : List Field) {children newChildren : List ArrayRef},
    materializeVoidChildren children fields = .ok newChildren → (∀ child ∈ children, child.Sound) →
    ∀ child ∈ newChildren, child.Sound
  | [], _, _, h, _ => by
      cases h
      exact fun _ hMem => absurd hMem List.not_mem_nil
  | _ :: _, [], _, h, _ => by cases h
  | field :: fields, child :: children, newChildren, h, hSound => by
      obtain ⟨first, hFirst, hRest⟩ := bind_eq_ok h
      obtain ⟨others, hOthers, hPure⟩ := bind_eq_ok hRest
      cases hPure
      obtain ⟨hChild, hChildren⟩ := List.forall_mem_cons.mp hSound
      exact List.forall_mem_cons.mpr ⟨materializeVoidArray_sound field.dataType hFirst hChild,
        materializeVoidChildren_sound fields hOthers hChildren⟩

end

/-- The element columns of a batch are sound. -/
theorem recordColumns_sound {records : List BeamRecord} {tableSchema : RecordTableSchema}
    {columns : List ArrayRef} (h : recordColumns records tableSchema = .ok columns) :
    ∀ column ∈ columns, column.Sound := by
  have hIterable : ∀ {iterables itemDataType array},
      iterableValuesToArray iterables itemDataType = .ok array → array.Sound := fun hArray =>
    listArray_sound (nestedValuesToArray_sound _) hArray
  rw [recordColumns] at h
  split at h
  · obtain ⟨field, -, hRest⟩ := bind_eq_ok h
    obtain ⟨values, -, hRest⟩ := bind_eq_ok hRest
    obtain ⟨column, hColumn, hPure⟩ := bind_eq_ok hRest
    cases hPure
    simpa using primitiveValuesToArray_sound hColumn
  · obtain ⟨field, -, hRest⟩ := bind_eq_ok h
    obtain ⟨itemDataType, -, hRest⟩ := bind_eq_ok hRest
    obtain ⟨iterables, -, hRest⟩ := bind_eq_ok hRest
    obtain ⟨column, hColumn, hPure⟩ := bind_eq_ok hRest
    cases hPure
    simpa using hIterable hColumn
  · obtain ⟨keyField, -, hRest⟩ := bind_eq_ok h
    obtain ⟨valueField, -, hRest⟩ := bind_eq_ok hRest
    obtain ⟨pairs, -, hRest⟩ := bind_eq_ok hRest
    obtain ⟨keys, hKeys, hRest⟩ := bind_eq_ok hRest
    obtain ⟨values, hValues, hPure⟩ := bind_eq_ok hRest
    cases hPure
    simpa using ⟨primitiveValuesToArray_sound hKeys, nestedValuesToArray_sound _ hValues⟩
  · obtain ⟨keyField, -, hRest⟩ := bind_eq_ok h
    obtain ⟨valueField, -, hRest⟩ := bind_eq_ok hRest
    obtain ⟨itemDataType, -, hRest⟩ := bind_eq_ok hRest
    obtain ⟨pairs, -, hRest⟩ := bind_eq_ok hRest
    obtain ⟨keys, hKeys, hRest⟩ := bind_eq_ok hRest
    obtain ⟨values, hValues, hPure⟩ := bind_eq_ok hRest
    cases hPure
    simpa using ⟨primitiveValuesToArray_sound hKeys, hIterable hValues⟩
  · obtain ⟨field, -, hRest⟩ := bind_eq_ok h
    obtain ⟨column, hColumn, hPure⟩ := bind_eq_ok hRest
    cases hPure
    simpa using nestedValuesToArray_sound _ hColumn
  · cases h

/-- A type without variable bytes adds nothing to a buffer. -/
theorem cellSize_eq_zero {type : LeafType} (h : ∀ cell : type.Cell, type.cellBytes cell = 0)
    (cell : Option type.Cell) : ArrayRef.cellSize type cell = 0 := by
  cases cell with
  | none => rfl
  | some value => exact h value

/-- A leaf column whose cells are not addressed by offsets. -/
theorem sound_leaf {type : LeafType} {cells : List (Option type.Cell)}
    (h : ∀ cell : type.Cell, type.cellBytes cell = 0) : (ArrayRef.leaf type cells).Sound := by
  have hZero : (cells.map (ArrayRef.cellSize type)).sum = 0 := by
    refine List.sum_eq_zero fun size hMem => ?_
    obtain ⟨cell, -, rfl⟩ := List.mem_map.mp hMem
    exact cellSize_eq_zero h cell
  rw [ArrayRef.Sound, hZero]
  exact Nat.zero_le _

/-- A column of such a type can be gathered at any indices. -/
theorem fits_leaf {type : LeafType} {cells : List (Option type.Cell)}
    (h : ∀ cell : type.Cell, type.cellBytes cell = 0) (indices : List Nat) :
    (ArrayRef.leaf type cells).Fits indices := by
  have hZero : (indices.map fun index => ArrayRef.cellSize type cells[index]?.join).sum = 0 := by
    refine List.sum_eq_zero fun size hMem => ?_
    obtain ⟨index, -, rfl⟩ := List.mem_map.mp hMem
    exact cellSize_eq_zero h _
  rw [ArrayRef.Fits, hZero]
  exact Nat.zero_le _

/-- The window columns of a batch are sound. -/
theorem windowColumns_sound {metadata : List WindowMetadata} {columns : List ArrayRef}
    (h : windowColumns metadata = .ok columns) : ∀ column ∈ columns, column.Sound := by
  obtain ⟨keys, -, hRest⟩ := bind_eq_ok h
  obtain ⟨first, hFirst, hRest⟩ := bind_eq_ok hRest
  obtain ⟨extra, hExtra, hPure⟩ := bind_eq_ok hRest
  cases hPure
  obtain ⟨offsets, hOffsets, hRest⟩ := bind_eq_ok hExtra
  obtain ⟨child, hChild, hNew⟩ := bind_eq_ok hRest
  have hExtraSound := newList_sound (mapError_eq_ok hNew) (ofCells_sound (mapError_eq_ok hChild))
    (buildOffsets_bound (mapError_eq_ok hOffsets))
  simp only [List.forall_mem_cons, List.not_mem_nil, false_implies, implies_true, and_true]
  exact ⟨sound_leaf fun _ => rfl, sound_leaf fun _ => rfl, sound_leaf fun _ => rfl,
    sound_leaf fun _ => rfl, sound_leaf fun _ => rfl, sound_leaf fun _ => rfl,
    sound_leaf fun _ => rfl, ofCells_sound (mapError_eq_ok hFirst), hExtraSound,
    sound_leaf fun _ => rfl⟩

/-- A built batch is sound. -/
theorem buildWindowedBatch_sound {pcollectionId : String} {values : List WindowedValue}
    {batch : RecordBatch} {schema : RecordTableSchema}
    (h : buildWindowedBatch pcollectionId values = .ok (batch, schema)) : batch.Sound := by
  obtain ⟨baseSchema, hDerive, hRest⟩ := bind_eq_ok h
  obtain ⟨baseBatch, hBase, hRest⟩ := bind_eq_ok hRest
  obtain ⟨appended, hAppend, hRest⟩ := bind_eq_ok hRest
  obtain ⟨newBatch, hNew, hPure⟩ := bind_eq_ok hRest
  cases hPure
  have hAppended : appended.Sound := by
    rw [beamrecordsToRecordBatch] at hBase
    split at hBase
    · cases hBase
    · obtain ⟨columns, hColumns, hTry⟩ := bind_eq_ok hBase
      obtain ⟨-, hAll⟩ := RecordBatch.tryNew_eq_ok (mapError_eq_ok hTry)
      rw [appendWindowMetadata] at hAppend
      split at hAppend
      · cases hAppend
      · obtain ⟨windows, hWindows, hTryAll⟩ := bind_eq_ok hAppend
        refine RecordBatch.tryNew_sound (mapError_eq_ok hTryAll) fun column hMem => ?_
        rw [hAll] at hMem
        rcases List.mem_append.mp hMem with hPayload | hWindow
        · exact recordColumns_sound hColumns column hPayload
        · exact windowColumns_sound hWindows column hWindow
  simp only [materializeVoidColumns] at hNew
  split at hNew
  · cases hNew
    exact hAppended
  · obtain ⟨newColumns, hColumns, hTry⟩ := bind_eq_ok hNew
    refine RecordBatch.tryNew_sound (mapError_eq_ok hTry) ?_
    refine materializeVoidChildren_sound _ hColumns fun column hMem => ?_
    obtain ⟨field, -, hColumn⟩ := forall₂_right hAppended hMem
    exact hColumn.sound

end FlareDB
