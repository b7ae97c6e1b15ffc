import FlareDB.Store.RecordBatch

/-! What a column built from records reads back as. The writer looks only at the
components of a tuple that its struct type has room for, so reading gives the
records clipped to their storage type. -/
namespace FlareDB

open Arrow Results

/-- The array holds `rows` under a type: reading a row there gives it back. -/
structure Stores {α : Type} (read : ArrayRef → DataType → Nat → Except RecordError α)
    (array : ArrayRef) (dataType : DataType) (rows : List α) : Prop where
  length : array.len = rows.length
  reads : ∀ row value, rows[row]? = some value → read array dataType row = .ok value

/-! Scalars. -/

/-- A cell is read as the value it was made from. -/
theorem primitiveCell_reads {type : LeafType} {value : PrimitiveValue} {cell : Option type.Cell}
    (h : primitiveCell type value = .ok cell) :
    (cell = none ∧ value = .void) ∨ (type = .null ∧ value = .void) ∨
      ∃ toPrimitive found, cellPrimitive type = some toPrimitive ∧ cell = some found ∧
        toPrimitive found = value := by
  cases type <;> cases value <;> first
    | (cases h; done)
    | exact .inl ⟨(Except.ok.inj h).symm, rfl⟩
    | exact .inr (.inl ⟨rfl, rfl⟩)
    | exact .inr (.inr ⟨_, _, rfl, (Except.ok.inj h).symm, rfl⟩)

theorem primitiveValuesToArray_eq_ok {values : List PrimitiveValue} {dataType : DataType}
    {array : ArrayRef} (h : primitiveValuesToArray values dataType = .ok array) :
    ∃ type cells, dataType = .leaf type ∧ array = .leaf type cells ∧
      List.Forall₂ (fun value cell => primitiveCell type value = .ok cell) values cells := by
  cases dataType with
  | leaf type =>
      rw [primitiveValuesToArray] at h
      split at h
      · obtain ⟨cells, hCells, hArray⟩ := bind_eq_ok h
        exact ⟨type, cells, rfl, ArrayRef.ofCells_eq_ok (mapError_eq_ok hArray),
          mapM_eq_ok_iff.mp hCells⟩
      · cases h
  | list item => cases h
  | struct fields => cases h

theorem primitiveValueFromArrayRow_null (array : ArrayRef) (row : Nat) :
    primitiveValueFromArrayRow array .null row = .ok .void := by
  unfold primitiveValueFromArrayRow
  split <;> rfl

/-- A masked cell is read as the void. -/
theorem primitiveValueFromArrayRow_of_isNull {array : ArrayRef} {row : Nat}
    (h : array.isNull row = true) (dataType : DataType) :
    primitiveValueFromArrayRow array dataType row = .ok .void := by
  unfold primitiveValueFromArrayRow
  rw [if_pos h]

theorem primitiveValueFromArrayRow_leaf {type : LeafType} {toPrimitive : type.Cell → PrimitiveValue}
    (hTo : cellPrimitive type = some toPrimitive) {cells : List (Option type.Cell)} {row : Nat}
    {cell : type.Cell} (hCell : cells[row]? = some (some cell)) :
    primitiveValueFromArrayRow (.leaf type cells) (.leaf type) row = .ok (toPrimitive cell) := by
  have hMask : (ArrayRef.leaf type cells).isNull row = false := by
    simp [ArrayRef.isNull, hCell]
  have hValue : leafValue type toPrimitive (.leaf type cells) row = .ok (toPrimitive cell) := by
    simp [leafValue, hCell]
  unfold primitiveValueFromArrayRow
  rw [hMask, if_neg Bool.false_ne_true]
  cases type <;> cases hTo <;> first | rfl | exact hValue

/-- A column of scalars stores its values. -/
theorem primitiveValuesToArray_stores {values : List PrimitiveValue} {dataType : DataType}
    {array : ArrayRef} (h : primitiveValuesToArray values dataType = .ok array) :
    Stores primitiveValueFromArrayRow array dataType values := by
  obtain ⟨type, cells, rfl, rfl, hCells⟩ := primitiveValuesToArray_eq_ok h
  refine ⟨hCells.length_eq.symm, ?_⟩
  intro row value hRow
  obtain ⟨cell, hCell, hWrite⟩ := forall₂_row hCells hRow
  rcases primitiveCell_reads hWrite with ⟨rfl, rfl⟩ | ⟨rfl, rfl⟩ | ⟨toPrimitive, found, hTo, rfl, rfl⟩
  · exact primitiveValueFromArrayRow_of_isNull (by simp [ArrayRef.isNull, hCell]) _
  · exact primitiveValueFromArrayRow_null _ _
  · exact primitiveValueFromArrayRow_leaf hTo hCell

/-! Lists. -/

/-- The offsets are the running sums. -/
theorem offsetsFrom_eq_ok {lengths : List Nat} {running : Nat} {rest : List Nat}
    (h : offsetsFrom running lengths = .ok rest) :
    running :: rest = lengths.scanl (· + ·) running := by
  induction lengths generalizing running rest with
  | nil =>
      cases h
      rfl
  | cons len lengths ih =>
      rw [offsetsFrom] at h
      split at h
      · cases h
      · split at h
        · cases h
        · obtain ⟨others, hOthers, hPure⟩ := bind_eq_ok h
          cases hPure
          rw [List.scanl_cons, ih hOthers]

theorem buildOffsets_eq_ok {lengths : List Nat} {buffer : OffsetBuffer}
    (h : buildOffsets lengths = .ok buffer) :
    buffer.offsets = lengths.scanl (· + ·) 0 := by
  obtain ⟨rest, hRest, hNew⟩ := bind_eq_ok h
  have hNew := mapError_eq_ok hNew
  rw [OffsetBuffer.new] at hNew
  split at hNew
  · rw [← Except.ok.inj hNew]
    exact offsetsFrom_eq_ok hRest
  · cases hNew

/-- Reading a row of a list column reads the flattened child between two
offsets. -/
theorem listRow_eq_ok {read : ArrayRef → Nat → Except RecordError BeamRecord} {item : Field}
    {buffer : OffsetBuffer} {values : ArrayRef} (lists : List (List BeamRecord))
    (hOffsets : buffer.offsets = (lists.map List.length).scanl (· + ·) 0)
    (hRead : ∀ (row : Nat) value, lists.flatten[row]? = some value → read values row = .ok value)
    {row : Nat} {list : List BeamRecord} (hRow : lists[row]? = some list) :
    listRow read (.list item buffer values none) row = .ok list := by
  obtain ⟨start, hStart, hEnd, hValues⟩ := OffsetBuffer.delimits lists 0 hRow
  rw [← hOffsets] at hStart hEnd
  have hLength : 0 + start + list.length - (0 + start) = list.length := by omega
  simp only [listRow, ArrayRef.isNull, ArrayRef.maskedOut, hStart, hEnd, hLength]
  refine mapM_range'_eq_ok (fun index value hValue => ?_)
  rw [Nat.zero_add]
  exact hRead _ _ (hValues index value hValue)

/-- A record with the components that its storage type has no field for left
out. -/
def clip : DataType → BeamRecord → BeamRecord
  | .list item, .iterable list => .iterable (list.map (clip item.dataType))
  | .struct [_, second], .kv key value => .kv key (clip second.dataType value)
  | .struct fields, .tuple values => .tuple (values.take fields.length)
  | _, record => record
termination_by structural dataType => dataType

/-- A column of lists stores them when its items are stored. -/
theorem listArray_stores {build : List BeamRecord → Except RecordError ArrayRef}
    {iterables : List (List BeamRecord)} {item : Field} {array : ArrayRef}
    (hBuild : ∀ child, build iterables.flatten = .ok child →
      Stores nestedValueFromArrayRow child item.dataType
        (iterables.flatten.map (clip item.dataType)))
    (h : listArray build iterables item.dataType = .ok array) :
    Stores iterableValueFromArrayRow array (.list item)
      (iterables.map fun list => list.map (clip item.dataType)) := by
  obtain ⟨buffer, hBuffer, hRest⟩ := bind_eq_ok h
  obtain ⟨child, hChild, hNew⟩ := bind_eq_ok hRest
  obtain ⟨rfl, -, -⟩ := ArrayRef.newList_eq_ok (mapError_eq_ok hNew)
  have hOffsets := buildOffsets_eq_ok hBuffer
  have hStores := hBuild child hChild
  refine ⟨?_, ?_⟩
  · show buffer.offsets.length - 1 = _
    rw [hOffsets, List.length_scanl]
    simp
  · intro row list hRow
    rw [iterableValueFromArrayRow]
    refine listRow_eq_ok _ ?_ ?_ hRow
    · rw [hOffsets]
      simp [Function.comp_def]
    · intro index value hValue
      refine hStores.reads index value ?_
      rw [List.map_flatten]
      exact hValue

/-! Structs. -/

theorem kvRecord_eq_ok {record : BeamRecord} {pair : PrimitiveValue × BeamRecord}
    (h : kvRecord record = .ok pair) : record = .kv pair.1 pair.2 := by
  cases record <;> cases h
  rfl

/-- A struct of keys and values reads row by row. -/
theorem kvRow_eq_ok {read : ArrayRef → Nat → Except RecordError BeamRecord} {first second : Field}
    {keys values : ArrayRef} {nulls : Option (List Bool)} {row : Nat} {key : PrimitiveValue}
    {value : BeamRecord} (hKey : primitiveValueFromArrayRow keys first.dataType row = .ok key)
    (hValue : read values row = .ok value) :
    kvRow read (.struct [first, second] [keys, values] nulls) first row = .ok (.kv key value) := by
  simp [kvRow, structChildren, childAt, hKey, hValue, bind, Except.bind, pure, Except.pure]

/-- A column of pairs stores them when its values are stored. -/
theorem kvArray_stores {build : List BeamRecord → Except RecordError ArrayRef}
    {read : ArrayRef → DataType → Nat → Except RecordError BeamRecord} {transform : BeamRecord → BeamRecord}
    {records : List BeamRecord} {first second : Field} {array : ArrayRef}
    (hBuild : ∀ values child, build values = .ok child →
      Stores read child second.dataType (values.map transform))
    (h : kvArray build records first second = .ok array) :
    array.len = records.length ∧
      ∀ (row : Nat) record, records[row]? = some record → ∃ key value, record = .kv key value ∧
        kvRow (fun values index => read values second.dataType index) array first row =
          .ok (.kv key (transform value)) := by
  obtain ⟨pairs, hPairs, hRest⟩ := bind_eq_ok h
  obtain ⟨keys, hKeys, hRest⟩ := bind_eq_ok hRest
  obtain ⟨values, hValues, hNew⟩ := bind_eq_ok hRest
  obtain ⟨rfl, -⟩ := ArrayRef.tryNewStruct_eq_ok (mapError_eq_ok hNew)
  have hKeysStored := primitiveValuesToArray_stores hKeys
  have hValuesStored := hBuild _ _ hValues
  have hPairs := mapM_eq_ok_iff.mp hPairs
  refine ⟨?_, ?_⟩
  · show keys.len = _
    rw [hKeysStored.length, List.length_map, hPairs.length_eq]
  · intro row record hRow
    obtain ⟨pair, hPair, hRecord⟩ := forall₂_row hPairs hRow
    refine ⟨pair.1, pair.2, kvRecord_eq_ok hRecord, kvRow_eq_ok ?_ ?_⟩
    · exact hKeysStored.reads row pair.1 (by simp [hPair])
    · exact hValuesStored.reads row (transform pair.2) (by simp [hPair])

theorem tupleComponent_eq_ok {arity index : Nat} {record : BeamRecord} {value : PrimitiveValue}
    (h : tupleComponent arity index record = .ok value) :
    ∃ values, record = .tuple values ∧ values[index]? = some value := by
  cases record with
  | tuple values =>
      rw [tupleComponent] at h
      split at h
      · next found hFound =>
          cases h
          exact ⟨values, rfl, hFound⟩
      · cases h
  | primitive _ => cases h
  | iterable _ => cases h
  | kv _ _ => cases h
  | gbk _ _ => cases h

/-- The columns of a tuple struct hold the components of every row. -/
theorem tupleChild_reads {records : List BeamRecord} {arity : Nat} {child : Field × Nat}
    {array : ArrayRef} (h : tupleChild arity records child = .ok array) :
    array.len = records.length ∧
      ∀ (row : Nat) record, records[row]? = some record → ∃ values value,
        record = .tuple values ∧ values[child.2]? = some value ∧
          primitiveValueFromArrayRow array child.1.dataType row = .ok value := by
  obtain ⟨components, hComponents, hArray⟩ := bind_eq_ok h
  have hStored := primitiveValuesToArray_stores hArray
  have hComponents := mapM_eq_ok_iff.mp hComponents
  refine ⟨by rw [hStored.length, hComponents.length_eq], ?_⟩
  intro row record hRow
  obtain ⟨value, hValue, hComponent⟩ := forall₂_row hComponents hRow
  obtain ⟨values, hRecord, hIndex⟩ := tupleComponent_eq_ok hComponent
  exact ⟨values, value, hRecord, hIndex, hStored.reads row value hValue⟩

private theorem zipIdx_position {α : Type} {xs : List α} {position : Nat} {entry : α × Nat}
    (h : xs.zipIdx[position]? = some entry) : entry.2 = position := by
  rw [List.getElem?_zipIdx] at h
  obtain ⟨_, -, rfl⟩ := Option.map_eq_some_iff.mp h
  exact Nat.zero_add position

/-- A row of a tuple column, when every child reads its component there. -/
theorem tupleRow_eq_ok {fields : List Field} {children : List ArrayRef} {nulls : Option (List Bool)}
    {row : Nat} {values : List PrimitiveValue}
    (h : ∀ child ∈ fields.zipIdx, ∃ column value, children[child.2]? = some column ∧
      values[child.2]? = some value ∧
        primitiveValueFromArrayRow column child.1.dataType row = .ok value) :
    tupleRow (.struct fields children nulls) fields row =
      .ok (.tuple (values.take fields.length)) := by
  have hArity : fields.length ≤ values.length := by
    by_contra hShort
    have hMem : (fields[values.length], values.length) ∈ fields.zipIdx := by
      exact List.mk_mem_zipIdx_iff_getElem?.mpr (List.getElem?_eq_getElem (by omega))
    obtain ⟨_, value, -, hValue, -⟩ := h _ hMem
    simp at hValue
  have hCells : fields.zipIdx.mapM (tupleCell children row) = .ok (values.take fields.length) := by
    refine mapM_eq_ok_iff.mpr (forall₂_of_rows (by simp [hArity]) ?_)
    intro index child value hChild hValue
    obtain ⟨column, found, hColumn, hFound, hRead⟩ := h child (List.mem_of_getElem? hChild)
    have hIndex := zipIdx_position hChild
    have hSame : found = value := by
      rw [List.getElem?_take] at hValue
      split at hValue
      · rw [hIndex, hValue] at hFound
        exact (Option.some.inj hFound).symm
      · cases hValue
    rw [tupleCell, childAt, hColumn, ← hSame]
    exact hRead
  simp [tupleRow, structChildren, hCells, bind, Except.bind, pure, Except.pure]

/-- A column of tuples stores every component. -/
theorem tupleArray_stores {records : List BeamRecord} {fields : List Field} {array : ArrayRef}
    (h : tupleArray records fields = .ok array) :
    array.len = records.length ∧
      ∀ (row : Nat) record, records[row]? = some record → ∃ values, record = .tuple values ∧
        tupleRow array fields row = .ok (.tuple (values.take fields.length)) := by
  obtain ⟨children, hChildren, hNew⟩ := bind_eq_ok h
  obtain ⟨rfl, hFits⟩ := ArrayRef.tryNewStruct_eq_ok (mapError_eq_ok hNew)
  have hChildren := mapM_eq_ok_iff.mp hChildren
  -- a struct without children is refused, so there is a first child to take the length from
  cases fields with
  | nil =>
      cases hFits
      cases hNew
  | cons field fields =>
      have hAll := hChildren
      cases hChildren with
      | @cons _ first _ rest hFirst hRest =>
          have hFirstReads := tupleChild_reads hFirst
          refine ⟨hFirstReads.1, ?_⟩
          intro row record hRow
          obtain ⟨values, _, rfl, -, -⟩ := hFirstReads.2 row record hRow
          refine ⟨values, rfl, tupleRow_eq_ok ?_⟩
          intro child hMem
          obtain ⟨position, hPosition⟩ := List.mem_iff_getElem?.mp hMem
          obtain ⟨column, hColumn, hChild⟩ := forall₂_row hAll hPosition
          obtain ⟨others, value, hOthers, hValue, hRead⟩ := (tupleChild_reads hChild).2 row _ hRow
          cases hOthers
          rw [← zipIdx_position hPosition] at hColumn
          exact ⟨column, value, hColumn, hValue, hRead⟩

/-! Nested values. -/

theorem iterableRecord_eq_ok {record : BeamRecord} {list : List BeamRecord}
    (h : iterableRecord record = .ok list) : record = .iterable list := by
  cases record <;> cases h
  rfl

theorem primitiveRecord_eq_ok {record : BeamRecord} {value : PrimitiveValue}
    (h : primitiveRecord record = .ok value) : record = .primitive value := by
  cases record <;> cases h
  rfl

/-- Rows that are read from records one by one. -/
theorem Stores.of_rows {read : ArrayRef → DataType → Nat → Except RecordError BeamRecord}
    {array : ArrayRef} {dataType : DataType} {records : List BeamRecord}
    {transform : BeamRecord → BeamRecord} (hLength : array.len = records.length)
    (h : ∀ (row : Nat) record, records[row]? = some record →
      read array dataType row = .ok (transform record)) :
    Stores read array dataType (records.map transform) := by
  refine ⟨by rw [hLength, List.length_map], ?_⟩
  intro row value hRow
  rw [List.getElem?_map] at hRow
  obtain ⟨record, hRecord, rfl⟩ := Option.map_eq_some_iff.mp hRow
  exact h row record hRecord

/-- Its rows are read back as tuples. -/
theorem tupleRows_store {records : List BeamRecord} {fields : List Field} {array : ArrayRef}
    (hRead : ∀ row, nestedValueFromArrayRow array (.struct fields) row = tupleRow array fields row)
    (hClip : ∀ values, clip (.struct fields) (.tuple values) = .tuple (values.take fields.length))
    (h : tupleArray records fields = .ok array) :
    Stores nestedValueFromArrayRow array (.struct fields) (records.map (clip (.struct fields))) := by
  obtain ⟨hLen, hRows⟩ := tupleArray_stores h
  refine .of_rows hLen (fun row record hRow => ?_)
  obtain ⟨values, rfl, hTuple⟩ := hRows row record hRow
  rw [hRead, hClip]
  exact hTuple

/-- A column of nested values reads back as the records clipped to its type. -/
theorem nestedValuesToArray_stores : ∀ (dataType : DataType) {records : List BeamRecord}
    {array : ArrayRef}, nestedValuesToArray records dataType = .ok array →
      Stores nestedValueFromArrayRow array dataType (records.map (clip dataType))
  | .leaf type, records, array, h => by
      obtain ⟨values, hValues, hArray⟩ := bind_eq_ok h
      have hStored := primitiveValuesToArray_stores hArray
      have hValues := mapM_eq_ok_iff.mp hValues
      refine .of_rows (by rw [hStored.length, hValues.length_eq]) (fun row record hRow => ?_)
      obtain ⟨scalar, hScalar, hPrimitive⟩ := forall₂_row hValues hRow
      cases primitiveRecord_eq_ok hPrimitive
      rw [nestedValueFromArrayRow, hStored.reads row scalar hScalar]
      rfl
  | .list item, records, array, h => by
      obtain ⟨iterables, hIterables, hArray⟩ := bind_eq_ok h
      have hIterables := mapM_eq_ok_iff.mp hIterables
      have hStored := listArray_stores
        (fun child hChild => nestedValuesToArray_stores item.dataType hChild) hArray
      refine .of_rows (by rw [hStored.length, List.length_map, hIterables.length_eq])
        (fun row record hRow => ?_)
      obtain ⟨list, hList, hIterable⟩ := forall₂_row hIterables hRow
      cases iterableRecord_eq_ok hIterable
      have hRead := hStored.reads row (list.map (clip item.dataType)) (by simp [hList])
      rw [iterableValueFromArrayRow] at hRead
      rw [nestedValueFromArrayRow, hRead]
      rfl
  | .struct [], _, _, h => tupleRows_store (fun _ => rfl) (fun _ => rfl) h
  | .struct [_], _, _, h => tupleRows_store (fun _ => rfl) (fun _ => rfl) h
  | .struct (_ :: _ :: _ :: _), _, _, h => tupleRows_store (fun _ => rfl) (fun _ => rfl) h
  | .struct [first, second], records, array, h => by
      rw [nestedValuesToArray] at h
      split at h
      · next hKv =>
          obtain ⟨hLen, hRows⟩ := kvArray_stores
            (fun values child hChild => nestedValuesToArray_stores second.dataType hChild) h
          refine .of_rows hLen (fun row record hRow => ?_)
          obtain ⟨key, value, rfl, hRead⟩ := hRows row record hRow
          rw [nestedValueFromArrayRow, if_pos hKv]
          exact hRead
      · next hTuple =>
          refine tupleRows_store (fun _ => ?_) (fun _ => rfl) h
          rw [nestedValueFromArrayRow, if_neg hTuple]

/-- The item column of grouped values stores their lists. -/
theorem iterableValuesToArray_stores {iterables : List (List BeamRecord)} {itemDataType : DataType}
    {array : ArrayRef} (h : iterableValuesToArray iterables itemDataType = .ok array) :
    Stores iterableValueFromArrayRow array (.list (itemField itemDataType))
      (iterables.map fun list => list.map (clip itemDataType)) :=
  listArray_stores (fun _ hChild => nestedValuesToArray_stores itemDataType hChild) h

end FlareDB
