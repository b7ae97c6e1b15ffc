import FlareDB.Store.TuplePositions

/-! When a column of nested values can be built. Values that conform to a
storage type are always written, unless a buffer outgrows its 32-bit offsets or
a tuple has no component. -/
namespace FlareDB

open Arrow Results

/-! Buffers. -/

/-- Bytes a scalar adds to the buffer of its column. -/
def scalarBytes : PrimitiveValue → Nat
  | .string value => value.utf8ByteSize
  | .bytes value => value.length
  | _ => 0

def scalarsFit (values : List PrimitiveValue) : Prop :=
  (values.map scalarBytes).sum ≤ offsetMax

def listsFit {α : Type} (lists : List (List α)) : Prop :=
  (lists.map List.length).sum ≤ offsetMax

/-- A cell takes as many bytes as its value. -/
theorem cellBytes_of_primitiveCell {type : LeafType} {value : PrimitiveValue}
    {cell : Option type.Cell} (h : primitiveCell type value = .ok cell) :
    (cell.map type.cellBytes).getD 0 = scalarBytes value := by
  cases type <;> cases value <;> cases h <;> rfl

/-- A column of scalars is built exactly when their bytes fit. -/
theorem primitiveValuesToArray_succeeds_iff {type : LeafType} {values : List PrimitiveValue}
    (hType : storesPrimitives type = true) (h : ∀ value ∈ values, ScalarFits (.leaf type) value) :
    Succeeds (primitiveValuesToArray values (.leaf type)) ↔ scalarsFit values := by
  have hCells : Succeeds (values.mapM (primitiveCell type)) := by
    refine succeeds_mapM_iff.mpr (fun value hMem => ?_)
    obtain ⟨_, cell, hLeaf, -, hCell⟩ := h value hMem
    cases hLeaf
    exact ⟨cell, hCell⟩
  obtain ⟨cells, hCells⟩ := hCells
  have hSum : (cells.map fun cell => (cell.map type.cellBytes).getD 0) =
      values.map scalarBytes := by
    refine (forall₂_map_eq (fun value cell hCell => ?_) (mapM_eq_ok_iff.mp hCells)).symm
    exact (cellBytes_of_primitiveCell hCell).symm
  rw [primitiveValuesToArray, if_pos hType, hCells]
  show Succeeds ((ArrayRef.ofCells type cells).mapError RecordError.arrow) ↔ _
  rw [succeeds_mapError_iff, ArrayRef.ofCells, hSum]
  exact succeeds_ite_iff

/-- Offsets are built exactly when their sum fits 32 bits. -/
theorem offsetsFrom_succeeds_iff {lengths : List Nat} {running : Nat} (h : running ≤ offsetMax) :
    Succeeds (offsetsFrom running lengths) ↔ running + lengths.sum ≤ offsetMax := by
  induction lengths generalizing running with
  | nil => exact iff_of_true (succeeds_ok []) (by simpa using h)
  | cons len lengths ih =>
      rw [offsetsFrom, List.sum_cons]
      split
      · exact iff_of_false (not_succeeds_error _) (by omega)
      · split
        · exact iff_of_false (not_succeeds_error _) (by omega)
        · next hEnd =>
            have hRest := ih (Nat.le_of_not_lt hEnd)
            rw [Nat.add_assoc] at hRest
            rw [← hRest, succeeds_bind_iff]
            constructor
            · rintro ⟨rest, hOk, -⟩
              exact ⟨rest, hOk⟩
            · rintro ⟨rest, hOk⟩
              exact ⟨rest, hOk, succeeds_ok _⟩

theorem buildOffsets_succeeds_iff {lengths : List Nat} :
    Succeeds (buildOffsets lengths) ↔ lengths.sum ≤ offsetMax := by
  have hIff : Succeeds (offsetsFrom 0 lengths) ↔ 0 + lengths.sum ≤ offsetMax :=
    offsetsFrom_succeeds_iff (Nat.zero_le offsetMax)
  rw [Nat.zero_add] at hIff
  rw [← hIff, buildOffsets, succeeds_bind_iff]
  constructor
  · rintro ⟨rest, hOk, -⟩
    exact ⟨rest, hOk⟩
  · rintro ⟨rest, hOk⟩
    have hOrdered := (OffsetBuffer.ordered_scanl lengths 0).1
    rw [← offsetsFrom_eq_ok hOk] at hOrdered
    refine ⟨rest, hOk, succeeds_mapError_iff.mpr ?_⟩
    rw [OffsetBuffer.new, dif_pos hOrdered]
    exact succeeds_ok _

/-! Types. -/

/-- A struct field that holds scalars. -/
structure ScalarField (field : Field) : Prop where
  nullable : field.nullable = true
  scalar : ∃ type, field.dataType = .leaf type ∧ storesPrimitives type = true ∧ type ≠ .null

/-- The types that nested values are stored in. No `Null` stands inside one. -/
inductive NestedType : DataType → Prop where
  | leaf {type : LeafType} : storesPrimitives type = true → NestedType (.leaf type)
  | list {dataType : DataType} : NestedType dataType → dataType ≠ .null →
      NestedType (.list (itemField dataType))
  | kv {first second : Field} : isNestedKvStruct [first, second] = true → ScalarField first →
      second.nullable = true → NestedType second.dataType → second.dataType ≠ .null →
      NestedType (.struct [first, second])
  | tuple {fields : List Field} : isNestedKvStruct fields = false →
      (∀ field ∈ fields, ScalarField field) → NestedType (.struct fields)

theorem nestedValuesToArray_tuple {fields : List Field} (h : isNestedKvStruct fields = false)
    (records : List BeamRecord) :
    nestedValuesToArray records (.struct fields) = tupleArray records fields := by
  match fields, h with
  | [], _ => rfl
  | [_], _ => rfl
  | _ :: _ :: _ :: _, _ => rfl
  | [first, second], h => rw [nestedValuesToArray, h, if_neg Bool.false_ne_true]

/-! What an array that was built looks like. -/

theorem isLogicalNull_of_unmasked {array : ArrayRef}
    (h : ∀ row, array.isNull row = false) (hType : array.dataType ≠ .null) (row : Nat) :
    array.isLogicalNull row = false := by
  cases array with
  | leaf type cells =>
      cases type <;> first
        | exact h row
        | exact absurd rfl hType
  | list _ _ _ _ => exact h row
  | struct _ _ _ => exact h row

/-- A column has the type it was asked for. -/
theorem primitiveValuesToArray_dataType {values : List PrimitiveValue} {dataType : DataType}
    {array : ArrayRef} (h : primitiveValuesToArray values dataType = .ok array) :
    array.dataType = dataType := by
  obtain ⟨type, cells, rfl, rfl, -⟩ := primitiveValuesToArray_eq_ok h
  rfl

/-- A column of nested values is one of scalars, or it has the type and no mask. -/
theorem nestedValuesToArray_cases {dataType : DataType} (hType : NestedType dataType)
    {records : List BeamRecord} {array : ArrayRef}
    (h : nestedValuesToArray records dataType = .ok array) :
    (∃ values, records.mapM primitiveRecord = .ok values ∧
      primitiveValuesToArray values dataType = .ok array) ∨
      (array.dataType = dataType ∧ ∀ row, array.isNull row = false) := by
  cases hType with
  | leaf _ =>
      obtain ⟨values, hValues, hArray⟩ := bind_eq_ok h
      exact .inl ⟨values, hValues, hArray⟩
  | list _ _ =>
      obtain ⟨iterables, -, hArray⟩ := bind_eq_ok h
      obtain ⟨buffer, -, hRest⟩ := bind_eq_ok hArray
      obtain ⟨child, -, hNew⟩ := bind_eq_ok hRest
      rw [(ArrayRef.newList_eq_ok (mapError_eq_ok hNew)).1]
      exact .inr ⟨rfl, fun _ => rfl⟩
  | kv hKv _ _ _ _ =>
      rw [nestedValuesToArray, if_pos hKv] at h
      obtain ⟨pairs, -, hRest⟩ := bind_eq_ok h
      obtain ⟨keys, -, hRest⟩ := bind_eq_ok hRest
      obtain ⟨values, -, hNew⟩ := bind_eq_ok hRest
      rw [(ArrayRef.tryNewStruct_eq_ok (mapError_eq_ok hNew)).1]
      exact .inr ⟨rfl, fun _ => rfl⟩
  | tuple hTuple _ =>
      rw [nestedValuesToArray_tuple hTuple] at h
      obtain ⟨children, -, hNew⟩ := bind_eq_ok h
      rw [(ArrayRef.tryNewStruct_eq_ok (mapError_eq_ok hNew)).1]
      exact .inr ⟨rfl, fun _ => rfl⟩

/-- So has a column of nested values. -/
theorem nestedValuesToArray_dataType {dataType : DataType} (hType : NestedType dataType)
    {records : List BeamRecord} {array : ArrayRef}
    (h : nestedValuesToArray records dataType = .ok array) : array.dataType = dataType := by
  rcases nestedValuesToArray_cases hType h with ⟨values, -, hArray⟩ | ⟨hSame, -⟩
  · exact primitiveValuesToArray_dataType hArray
  · exact hSame

theorem primitiveValuesToArray_unmasked {values : List PrimitiveValue} {dataType : DataType}
    {array : ArrayRef} (h : primitiveValuesToArray values dataType = .ok array)
    (hType : dataType ≠ .boolean ∨ ∀ value ∈ values, value ≠ .void) (row : Nat) :
    array.isNull row = false := by
  obtain ⟨type, cells, rfl, rfl, hCells⟩ := primitiveValuesToArray_eq_ok h
  simp only [ArrayRef.isNull]
  cases hCell : cells[row]? with
  | none => rfl
  | some cell =>
      obtain ⟨value, hValue, hWrite⟩ := forall₂_row hCells.flip hCell
      cases cell with
      | some found => rfl
      | none =>
          -- only a `void` in a boolean column has an empty cell
          exfalso
          cases type <;> cases value <;> cases hWrite
          rcases hType with hBoolean | hVoid
          · exact hBoolean rfl
          · exact hVoid _ (List.mem_of_getElem? hValue) rfl

theorem nestedValuesToArray_unmasked {dataType : DataType} (hType : NestedType dataType)
    {records : List BeamRecord} {array : ArrayRef}
    (h : nestedValuesToArray records dataType = .ok array)
    (hNull : dataType ≠ .boolean ∨ .primitive .void ∉ records) (row : Nat) :
    array.isNull row = false := by
  rcases nestedValuesToArray_cases hType h with ⟨values, hValues, hArray⟩ | ⟨-, hMask⟩
  · refine primitiveValuesToArray_unmasked hArray (hNull.imp_right fun hVoid value hMem => ?_) row
    obtain ⟨record, hRecord, hPrimitive⟩ := forall₂_right (mapM_eq_ok_iff.mp hValues) hMem
    rintro rfl
    rw [primitiveRecord_eq_ok hPrimitive] at hRecord
    exact hVoid hRecord
  · exact hMask row

/-! Constructors that accept. -/

/-- A list over lists of these lengths, from the offsets of the lengths. -/
theorem newList_succeeds {item : Field} {lengths : List Nat} {offsets : OffsetBuffer}
    {child : ArrayRef} (hOffsets : offsets.offsets = lengths.scanl (· + ·) 0)
    (hLen : child.len = lengths.sum) (hType : child.dataType = item.dataType)
    (hNull : item.nullable = true ∨ ∀ row, child.isLogicalNull row = false) :
    Succeeds (ArrayRef.newList item offsets child none) := by
  rw [ArrayRef.newList, succeeds_ite_iff]
  refine ⟨?_, rfl, hNull.imp_right fun hRows => ?_, hType.symm⟩
  · rw [hOffsets, hLen]
    exact Nat.le_of_eq (by simp [List.getLastD_eq_getLast?, List.getLast?_scanl, List.sum_eq_foldl])
  · simp [ArrayRef.hasLogicalNull, hRows]

/-- Columns of one length make a struct. -/
theorem tryNewStruct_succeeds {fields : List Field} {children : List ArrayRef} (rows : Nat)
    (hFields : fields ≠ []) (h : List.Forall₂ (fun field child => field.nullable = true ∧
      child.dataType = field.dataType ∧ child.len = rows) fields children) :
    Succeeds (ArrayRef.tryNewStruct fields children none) := by
  have hAll := h
  cases h with
  | nil => exact absurd rfl hFields
  | @cons field first fields children hHead hTail =>
      rw [ArrayRef.tryNewStruct, succeeds_ite_iff]
      refine ⟨hAll.length_eq, rfl, ?_⟩
      rw [← List.map_uncurry_zip_eq_zipWith, List.all_map, List.all_eq_true]
      rintro ⟨other, child⟩ hMem
      obtain ⟨hNullable, hType, hLen⟩ := (List.forall₂_iff_zip.mp hAll).2 hMem
      simp [ArrayRef.childFits, hNullable, hType, hLen, hHead.2.2]

/-! When a column is built. -/

def BeamRecord.getIterable : BeamRecord → Option (List BeamRecord)
  | .iterable list => some list
  | _ => none

def BeamRecord.getKv : BeamRecord → Option (PrimitiveValue × BeamRecord)
  | .kv key value => some (key, value)
  | _ => none

def BeamRecord.getComponent (index : Nat) : BeamRecord → Option PrimitiveValue
  | .tuple values => values[index]?
  | _ => none

/-- A struct of components has one column at least, and each fits. -/
def tupleFits (arity : Nat) (records : List BeamRecord) : Prop :=
  0 < arity ∧ ∀ index < arity, scalarsFit (records.filterMap (BeamRecord.getComponent index))

/-- No buffer of the column outgrows its offsets. -/
def columnFits : DataType → List BeamRecord → Prop
  | .leaf _, records => scalarsFit (records.filterMap BeamRecord.getPrimitive)
  | .list item, records =>
      listsFit (records.filterMap BeamRecord.getIterable) ∧
        columnFits item.dataType (records.filterMap BeamRecord.getIterable).flatten
  | .struct [first, second], records =>
      if isNestedKvStruct [first, second] then
        scalarsFit ((records.filterMap BeamRecord.getKv).map (·.1)) ∧
          columnFits second.dataType ((records.filterMap BeamRecord.getKv).map (·.2))
      else tupleFits 2 records
  | .struct fields, records => tupleFits fields.length records
termination_by structural dataType => dataType

theorem columnFits_tuple {fields : List Field} (h : isNestedKvStruct fields = false)
    (records : List BeamRecord) :
    columnFits (.struct fields) records ↔ tupleFits fields.length records := by
  match fields, h with
  | [], _ => rfl
  | [_], _ => rfl
  | _ :: _ :: _ :: _, _ => rfl
  | [first, second], h => simp [columnFits, h]

/-- A column of lists is built exactly when its offsets fit and its items are built. -/
theorem listArray_succeeds_iff {build : List BeamRecord → Except RecordError ArrayRef}
    {iterables : List (List BeamRecord)} {dataType : DataType}
    (h : ∀ child, build iterables.flatten = .ok child →
      child.len = iterables.flatten.length ∧ child.dataType = dataType ∧
        (dataType = .boolean ∨ ∀ row, child.isLogicalNull row = false)) :
    Succeeds (listArray build iterables dataType) ↔
      listsFit iterables ∧ Succeeds (build iterables.flatten) := by
  rw [listArray, succeeds_bind_iff, listsFit, ← buildOffsets_succeeds_iff]
  constructor
  · rintro ⟨offsets, hOffsets, hRest⟩
    obtain ⟨child, hChild, -⟩ := succeeds_bind_iff.mp hRest
    exact ⟨⟨offsets, hOffsets⟩, child, hChild⟩
  · rintro ⟨⟨offsets, hOffsets⟩, child, hChild⟩
    obtain ⟨hLen, hType, hNull⟩ := h child hChild
    refine ⟨offsets, hOffsets, succeeds_bind_iff.mpr ⟨child, hChild, ?_⟩⟩
    refine succeeds_mapError_iff.mpr (newList_succeeds (buildOffsets_eq_ok hOffsets) ?_ hType ?_)
    · rw [hLen, List.length_flatten]
    · exact hNull.imp_left fun hBoolean => by rw [hBoolean]; rfl

theorem Conforms.primitive_of_leaf {type : LeafType} {record : BeamRecord}
    (h : Conforms (.leaf type) record) :
    ∃ value, record = .primitive value ∧ ScalarFits (.leaf type) value := by
  cases record with
  | primitive value => exact ⟨value, rfl, h⟩
  | iterable _ => exact h.elim
  | kv _ _ => exact h.elim
  | gbk _ _ => exact h.elim
  | tuple _ => exact h.elim

/-- What conforms to a list type is an iterable of conforming elements. -/
theorem Conforms.iterable_of_list {item : Field} {record : BeamRecord}
    (h : Conforms (.list item) record) :
    ∃ list, record = .iterable list ∧ ∀ element ∈ list, Conforms item.dataType element := by
  cases record with
  | iterable list => exact ⟨list, rfl, h⟩
  | primitive _ => exact h.elim
  | kv _ _ => exact h.elim
  | gbk _ _ => exact h.elim
  | tuple _ => exact h.elim

/-- What conforms to the struct of a pair is a pair. -/
theorem Conforms.kv_of_struct {first second : Field} {record : BeamRecord}
    (hKv : isNestedKvStruct [first, second] = true) (h : Conforms (.struct [first, second]) record) :
    ∃ key value, record = .kv key value ∧ ScalarFits first.dataType key ∧
      Conforms second.dataType value := by
  cases record with
  | kv key value => exact ⟨key, value, rfl, h.2⟩
  | tuple values =>
      have hTuple := h.1
      rw [hKv] at hTuple
      cases hTuple
  | primitive _ => exact h.elim
  | iterable _ => exact h.elim
  | gbk _ _ => exact h.elim

/-- What conforms to another struct is a tuple. -/
theorem Conforms.tuple_of_struct {fields : List Field} {record : BeamRecord}
    (hTuple : isNestedKvStruct fields = false) (h : Conforms (.struct fields) record) :
    ∃ values, record = .tuple values ∧ ComponentsFit fields values := by
  cases record with
  | tuple values =>
      obtain ⟨_, hType, -, hFits⟩ := h.tuple_type
      cases hType
      exact ⟨values, rfl, hFits⟩
  | kv key value =>
      match fields, h with
      | [first, second], h =>
          have hKv := h.1
          rw [hTuple] at hKv
          cases hKv
      | [], h | [_], h | _ :: _ :: _ :: _, h => exact h.elim
  | primitive _ => exact absurd h (not_conforms_scalar _ _)
  | iterable _ =>
      obtain ⟨_, hType, -⟩ := h.list_type
      cases hType
  | gbk _ _ => exact absurd h (not_conforms_gbk _ _ _)

/-- A child of a tuple struct is built when its column of components fits. -/
theorem tupleChild_succeeds_iff {fields : List Field} {records : List BeamRecord}
    (h : ∀ record ∈ records, ∃ values, record = .tuple values ∧ ComponentsFit fields values)
    {index : Nat} {field : Field} (hField : fields[index]? = some field)
    (hScalar : ScalarField field) (arity : Nat) :
    Succeeds (tupleChild arity records (field, index)) ↔
      scalarsFit (records.filterMap (BeamRecord.getComponent index)) := by
  obtain ⟨type, hType, hStores, -⟩ := hScalar.scalar
  have hComponents : ∀ record ∈ records, ∃ value, tupleComponent arity index record = .ok value ∧
      record.getComponent index = some value := by
    intro record hMem
    obtain ⟨values, rfl, hFits⟩ := h record hMem
    obtain ⟨value, hValue, -⟩ := hFits index field hField
    exact ⟨value, by rw [tupleComponent, hValue], hValue⟩
  rw [tupleChild, mapM_eq_filterMap hComponents]
  show Succeeds (primitiveValuesToArray _ field.dataType) ↔ _
  rw [hType]
  refine primitiveValuesToArray_succeeds_iff hStores (fun value hMem => ?_)
  obtain ⟨record, hRecord, hValue⟩ := List.mem_filterMap.mp hMem
  obtain ⟨values, rfl, hFits⟩ := h record hRecord
  obtain ⟨found, hFound, hFit⟩ := hFits index field hField
  cases hFound.symm.trans hValue
  rw [← hType]
  exact hFit

/-- A column of tuples is built exactly when each component's is. -/
theorem tupleArray_succeeds_iff {fields : List Field} {records : List BeamRecord}
    (hFields : ∀ field ∈ fields, ScalarField field)
    (h : ∀ record ∈ records, ∃ values, record = .tuple values ∧ ComponentsFit fields values) :
    Succeeds (tupleArray records fields) ↔ tupleFits fields.length records := by
  have hChild : ∀ index field, fields[index]? = some field →
      (Succeeds (tupleChild fields.length records (field, index)) ↔
        scalarsFit (records.filterMap (BeamRecord.getComponent index))) := fun index field hField =>
    tupleChild_succeeds_iff h hField (hFields field (List.mem_of_getElem? hField)) _
  rw [tupleArray, succeeds_bind_iff]
  constructor
  · rintro ⟨children, hChildren, array, hNew⟩
    refine ⟨?_, fun index hIndex => ?_⟩
    · cases fields with
      | nil =>
          cases hChildren
          cases hNew
      | cons field fields => exact Nat.succ_pos _
    · have hField := List.getElem?_eq_getElem hIndex
      refine (hChild index _ hField).mp (succeeds_mapM_iff.mp ⟨children, hChildren⟩ _ ?_)
      exact List.mk_mem_zipIdx_iff_getElem?.mpr hField
  · rintro ⟨hArity, hFit⟩
    have hBuilt : Succeeds (fields.zipIdx.mapM (tupleChild fields.length records)) := by
      refine succeeds_mapM_iff.mpr ?_
      rintro ⟨field, index⟩ hMem
      have hField := List.mk_mem_zipIdx_iff_getElem?.mp hMem
      exact (hChild index field hField).mpr (hFit index (List.getElem?_eq_some_iff.mp hField).1)
    obtain ⟨children, hChildren⟩ := hBuilt
    refine ⟨children, hChildren, succeeds_mapError_iff.mpr ?_⟩
    refine tryNewStruct_succeeds records.length (List.length_pos_iff.mp hArity) ?_
    have hAll := mapM_eq_ok_iff.mp hChildren
    refine forall₂_of_rows (by rw [← hAll.length_eq, List.length_zipIdx]) ?_
    intro index field child hField hChild
    have hEntry : fields.zipIdx[index]? = some (field, index) := by
      rw [List.getElem?_zipIdx, hField]
      simp
    obtain ⟨_, hSame, hBuild⟩ := forall₂_row hAll hEntry
    cases hSame.symm.trans hChild
    obtain ⟨components, -, hArray⟩ := bind_eq_ok hBuild
    exact ⟨(hFields field (List.mem_of_getElem? hField)).nullable,
      primitiveValuesToArray_dataType hArray, (tupleChild_reads hBuild).1⟩

/-- A column of pairs is built exactly when both of its columns are. -/
theorem kvArray_succeeds_iff {build : List BeamRecord → Except RecordError ArrayRef}
    {records : List BeamRecord} {first second : Field} (hFirst : ScalarField first)
    (hNullable : second.nullable = true)
    (h : ∀ record ∈ records, ∃ key value, record = .kv key value ∧ ScalarFits first.dataType key)
    (hBuild : ∀ values child, build values = .ok child →
      child.len = values.length ∧ child.dataType = second.dataType) :
    Succeeds (kvArray build records first second) ↔
      scalarsFit ((records.filterMap BeamRecord.getKv).map (·.1)) ∧
        Succeeds (build ((records.filterMap BeamRecord.getKv).map (·.2))) := by
  obtain ⟨type, hType, hStores, -⟩ := hFirst.scalar
  have hPairs : records.mapM kvRecord = .ok (records.filterMap BeamRecord.getKv) := by
    refine mapM_eq_filterMap (fun record hMem => ?_)
    obtain ⟨key, value, rfl, -⟩ := h record hMem
    exact ⟨(key, value), rfl, rfl⟩
  have hKeys : Succeeds (primitiveValuesToArray ((records.filterMap BeamRecord.getKv).map (·.1))
      first.dataType) ↔ scalarsFit ((records.filterMap BeamRecord.getKv).map (·.1)) := by
    rw [hType]
    refine primitiveValuesToArray_succeeds_iff hStores (fun key hMem => ?_)
    obtain ⟨pair, hPair, rfl⟩ := List.mem_map.mp hMem
    obtain ⟨record, hRecord, hSome⟩ := List.mem_filterMap.mp hPair
    obtain ⟨found, value, rfl, hFits⟩ := h record hRecord
    cases hSome
    rw [← hType]
    exact hFits
  rw [kvArray, hPairs, ← hKeys]
  constructor
  · intro hAll
    obtain ⟨pairs, hOk, hRest⟩ := succeeds_bind_iff.mp hAll
    cases hOk
    obtain ⟨keys, hKeysOk, hRest⟩ := succeeds_bind_iff.mp hRest
    obtain ⟨values, hValuesOk, -⟩ := succeeds_bind_iff.mp hRest
    exact ⟨⟨keys, hKeysOk⟩, values, hValuesOk⟩
  · rintro ⟨⟨keys, hKeysOk⟩, values, hValuesOk⟩
    refine succeeds_bind_iff.mpr ⟨_, rfl, succeeds_bind_iff.mpr ⟨keys, hKeysOk, ?_⟩⟩
    refine succeeds_bind_iff.mpr ⟨values, hValuesOk, ?_⟩
    obtain ⟨hLen, hSame⟩ := hBuild _ _ hValuesOk
    rw [List.length_map] at hLen
    refine succeeds_mapError_iff.mpr (tryNewStruct_succeeds
      (records.filterMap BeamRecord.getKv).length (List.cons_ne_nil _ _) ?_)
    refine .cons ⟨hFirst.nullable, primitiveValuesToArray_dataType hKeysOk, ?_⟩
      (.cons ⟨hNullable, hSame, hLen⟩ .nil)
    rw [(primitiveValuesToArray_stores hKeysOk).length, List.length_map]

/-- A column has one row for each record. -/
theorem nestedValuesToArray_length {dataType : DataType} {records : List BeamRecord}
    {array : ArrayRef} (h : nestedValuesToArray records dataType = .ok array) :
    array.len = records.length := by
  rw [(nestedValuesToArray_stores dataType h).length, List.length_map]

/-- Values that conform to a type are written exactly when their column fits. -/
theorem nestedValuesToArray_succeeds_iff {dataType : DataType} (hType : NestedType dataType)
    {records : List BeamRecord} (h : ∀ record ∈ records, Conforms dataType record) :
    Succeeds (nestedValuesToArray records dataType) ↔ columnFits dataType records := by
  induction hType generalizing records with
  | @leaf type hStores =>
      have hValues : records.mapM primitiveRecord = .ok (records.filterMap BeamRecord.getPrimitive) := by
        refine mapM_eq_filterMap (fun record hMem => ?_)
        obtain ⟨value, rfl, -⟩ := (h record hMem).primitive_of_leaf
        exact ⟨value, rfl, rfl⟩
      rw [nestedValuesToArray, hValues]
      refine primitiveValuesToArray_succeeds_iff hStores (fun value hMem => ?_)
      obtain ⟨record, hRecord, hValue⟩ := List.mem_filterMap.mp hMem
      obtain ⟨found, rfl, hFits⟩ := (h record hRecord).primitive_of_leaf
      cases hValue
      exact hFits
  | @list dataType hItem hNull ih =>
      have hIterables : records.mapM iterableRecord =
          .ok (records.filterMap BeamRecord.getIterable) := by
        refine mapM_eq_filterMap (fun record hMem => ?_)
        obtain ⟨list, rfl, -⟩ := (h record hMem).iterable_of_list
        exact ⟨list, rfl, rfl⟩
      have hElements : ∀ element ∈ (records.filterMap BeamRecord.getIterable).flatten,
          Conforms dataType element := by
        intro element hMem
        obtain ⟨list, hList, hElement⟩ := List.mem_flatten.mp hMem
        obtain ⟨record, hRecord, hSome⟩ := List.mem_filterMap.mp hList
        obtain ⟨found, rfl, hAll⟩ := (h record hRecord).iterable_of_list
        cases hSome
        exact hAll element hElement
      have hList : Succeeds (listArray (fun values => nestedValuesToArray values dataType)
          (records.filterMap BeamRecord.getIterable) dataType) ↔ _ :=
        listArray_succeeds_iff fun child hChild => ?_
      · rw [nestedValuesToArray, hIterables]
        exact hList.trans (and_congr_right' (ih hElements))
      have hSame := nestedValuesToArray_dataType hItem hChild
      refine ⟨nestedValuesToArray_length hChild, hSame, ?_⟩
      by_cases hBoolean : dataType = .boolean
      · exact .inl hBoolean
      · exact .inr (isLogicalNull_of_unmasked
          (nestedValuesToArray_unmasked hItem hChild (.inl hBoolean)) (by rwa [hSame]))
  | @kv first second hKv hFirst hNullable hSecond _ ih =>
      have hValues : ∀ value ∈ (records.filterMap BeamRecord.getKv).map (·.2),
          Conforms second.dataType value := by
        intro value hMem
        obtain ⟨pair, hPair, rfl⟩ := List.mem_map.mp hMem
        obtain ⟨record, hRecord, hSome⟩ := List.mem_filterMap.mp hPair
        obtain ⟨key, found, rfl, -, hFits⟩ := (h record hRecord).kv_of_struct hKv
        cases hSome
        exact hFits
      rw [nestedValuesToArray, if_pos hKv, columnFits, if_pos hKv]
      refine (kvArray_succeeds_iff hFirst hNullable ?_ ?_).trans (and_congr_right' (ih hValues))
      · intro record hMem
        obtain ⟨key, value, rfl, hKey, -⟩ := (h record hMem).kv_of_struct hKv
        exact ⟨key, value, rfl, hKey⟩
      · intro values child hChild
        exact ⟨nestedValuesToArray_length hChild, nestedValuesToArray_dataType hSecond hChild⟩
  | @tuple fields hTuple hFields =>
      rw [nestedValuesToArray_tuple hTuple, columnFits_tuple hTuple]
      exact tupleArray_succeeds_iff hFields fun record hMem => (h record hMem).tuple_of_struct hTuple

end FlareDB
