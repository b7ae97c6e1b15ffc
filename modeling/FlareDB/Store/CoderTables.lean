import FlareDB.Store.BatchBuilds
import FlareDB.Store.StorageTypes

/-! Tables of a coder whose records all have one storage type. The batches of
such a coder have one schema, and nothing but a size limit keeps them from
being built. -/
namespace FlareDB

open Arrow Results

/-! Storage types of records. -/

theorem storesPrimitives_primitiveDataType (value : PrimitiveValue) :
    ∃ type, primitiveDataType value = .leaf type ∧ storesPrimitives type = true := by
  cases value <;> exact ⟨_, rfl, rfl⟩

theorem componentType_ne_null (dataType : DataType) : componentType dataType ≠ .null := by
  cases dataType with
  | leaf type => cases type <;> simp [componentType]
  | list item => simp [componentType]
  | struct fields => simp [componentType]

theorem componentType_of_ne_null {dataType : DataType} (h : dataType ≠ .null) :
    componentType dataType = dataType := by
  cases dataType with
  | leaf type => cases type <;> first
    | rfl
    | exact absurd rfl h
  | list item => rfl
  | struct fields => rfl

theorem NestedType.component {dataType : DataType} (h : NestedType dataType) :
    NestedType (componentType dataType) := by
  by_cases hNull : dataType = .null
  · rw [hNull]
    exact .leaf rfl
  · rwa [componentType_of_ne_null hNull]

theorem scalarField_component (name : String) (value : PrimitiveValue) :
    ScalarField ⟨name, tupleComponentDataType value, true⟩ where
  nullable := rfl
  scalar := by cases value <;> exact ⟨_, rfl, rfl, by decide⟩

/-- The type a record is stored under is one that nested values can have. -/
theorem nestedType_of_storage : ∀ {record : BeamRecord} {dataType : DataType},
    nestedValueStorageType record = .ok dataType → NestedType dataType
  | .primitive value, dataType, h => by
      cases h
      obtain ⟨type, hType, hStores⟩ := storesPrimitives_primitiveDataType value
      rw [hType]
      exact .leaf hStores
  | .tuple values, dataType, h => by
      cases h
      refine .tuple (isNestedKvStruct_tuple values) (fun field hMem => ?_)
      obtain ⟨index, hIndex, rfl⟩ := List.mem_mapIdx.mp hMem
      exact scalarField_component _ _
  | .iterable [], dataType, h => by
      cases h
      exact .list (.leaf rfl) (by decide)
  | .iterable (first :: rest), dataType, h => by
      obtain ⟨found, hFound, hPure⟩ := bind_eq_ok h
      cases hPure
      exact .list (nestedType_of_storage hFound).component (componentType_ne_null _)
  | .kv key value, dataType, h => by
      obtain ⟨found, hFound, hPure⟩ := bind_eq_ok h
      cases hPure
      exact .kv rfl (scalarField_component _ _) rfl (nestedType_of_storage hFound).component
        (componentType_ne_null _)
  | .gbk _ _, _, h => by cases h

/-! Records conform to the type their coder gives them. -/

/-- A tuple conforms to the struct of its components. -/
theorem conforms_tuple {fields : List Field} {values : List PrimitiveValue}
    (hTuple : isNestedKvStruct fields = false) (h : ComponentsFit fields values) :
    Conforms (.struct fields) (.tuple values) := by
  match fields, hTuple, h with
  | [], hTuple, h => exact ⟨hTuple, h⟩
  | [_], hTuple, h => exact ⟨hTuple, h⟩
  | [_, _], hTuple, h => exact ⟨hTuple, h⟩
  | _ :: _ :: _ :: _, hTuple, h => exact ⟨hTuple, h⟩

theorem scalarFits_primitiveDataType (value : PrimitiveValue) :
    ScalarFits (primitiveDataType value) value := by
  cases value <;> exact ⟨_, _, rfl, rfl, rfl⟩

theorem scalarFits_component (value : PrimitiveValue) :
    ScalarFits (tupleComponentDataType value) value := by
  cases value <;> exact ⟨_, _, rfl, rfl, rfl⟩

/-- A scalar conforms to a type it fits. -/
theorem conforms_scalar {dataType : DataType} {value : PrimitiveValue}
    (h : ScalarFits dataType value) : Conforms dataType (.primitive value) := by
  have hFits := h
  obtain ⟨type, cell, rfl, -⟩ := h
  exact hFits

/-- A tuple conforms to its own storage type. -/
theorem conforms_tupleStorageType (values : List PrimitiveValue) :
    Conforms (tupleStorageType values) (.tuple values) := by
  refine conforms_tuple (isNestedKvStruct_tuple values) ?_
  intro index field hField
  rw [List.getElem?_mapIdx] at hField
  obtain ⟨value, hValue, rfl⟩ := Option.map_eq_some_iff.mp hField
  exact ⟨value, hValue, scalarFits_component value⟩

namespace StandardBeamCoders

private theorem conforms_component_scalar {coder : StandardBeamCoders} {dataType : DataType}
    (hPrimitive : coder.isPrimitive = true)
    (hTypes : ∀ found ∈ coder.scalarTypes, componentType found = dataType) {record : BeamRecord}
    (h : coder.Yields record) : Conforms dataType record := by
  obtain ⟨value, rfl⟩ := yields_primitive coder hPrimitive h
  refine conforms_scalar ?_
  rw [← hTypes _ (mem_scalarTypes coder h)]
  exact scalarFits_component value

/-- Records conform to the one type that the coder has in a list or a struct. -/
theorem conforms_component : ∀ (coder : StandardBeamCoders) {dataType : DataType}
    {record : BeamRecord},
    (∀ found ∈ coder.storageTypes, found.map componentType = some dataType) →
      coder.Yields record → Conforms dataType record
  | .stringUtf8, _, _, hTypes, h | .bytes, _, _, hTypes, h | .javaOpaque, _, _, hTypes, h
  | .pickle, _, _, hTypes, h | .lengthPrefix, _, _, hTypes, h | .varInt, _, _, hTypes, h
  | .varInt32, _, _, hTypes, h | .bool, _, _, hTypes, h | .double, _, _, hTypes, h
  | .void, _, _, hTypes, h =>
      conforms_component_scalar rfl
        (fun _ hMem => Option.some.inj (hTypes _ (List.mem_map_of_mem hMem))) h
  | .nullable valueCoder, dataType, record, hTypes, h => by
      rcases yields_nullable h with rfl | hValue
      · have hVoid : some (componentType .null) = some dataType := hTypes _ List.mem_cons_self
        cases hVoid
        exact conforms_scalar (scalarFits_component .void)
      · exact conforms_component valueCoder
          (fun _ hMem => hTypes _ (List.mem_cons_of_mem _ hMem)) hValue
  | .iterable elementCoder, dataType, record, hTypes, h => by
      have hEmpty : some (.list (itemField .binary)) = some dataType := hTypes _ List.mem_cons_self
      cases hEmpty
      obtain ⟨list, rfl, hElements⟩ := yields_iterable h
      intro element hMem
      refine conforms_component elementCoder (fun found hFound => ?_) (hElements element hMem)
      have hItem := hTypes _ (List.mem_cons_of_mem _ (List.mem_map_of_mem hFound))
      cases found with
      | none => cases hItem
      | some found =>
          have hList := Option.some.inj hItem
          have hField := DataType.list.inj hList
          exact congrArg some (congrArg FieldOf.dataType hField)
  | .tuple componentCoders, dataType, record, hTypes, h => by
      have hMem := mem_storageTypes _ h
      obtain ⟨values, rfl, -⟩ := yields_tuple h
      have hType := hTypes _ hMem
      cases hType
      exact conforms_tupleStorageType values
  | .kv keyCoder valueCoder, dataType, record, hTypes, h => by
      obtain ⟨key, value, rfl, hKey, hValue⟩ := yields_kv h
      have hEach : ∀ found ∈ valueCoder.storageTypes, (found.map fun valueType =>
          kvStructType (tupleComponentDataType key) (componentType valueType)) = some dataType := by
        intro found hFound
        have hType := hTypes _ (List.mem_flatMap.mpr
          ⟨primitiveDataType key, mem_keyTypes hKey, List.mem_map_of_mem hFound⟩)
        cases found with
        | none => exact hType
        | some found => exact hType
      have hOwn := hEach _ (mem_storageTypes valueCoder hValue)
      cases hStorage : nestedValueStorageType value with
      | error message =>
          rw [hStorage] at hOwn
          cases hOwn
      | ok valueType =>
          rw [hStorage] at hOwn
          cases hOwn
          refine ⟨rfl, scalarFits_component key, ?_⟩
          refine conforms_component valueCoder (fun found hFound => ?_) hValue
          have hType := hEach found hFound
          cases found with
          | none => cases hType
          | some found =>
              simp only [Option.map_some, Option.some.injEq, kvStructType, DataType.struct.injEq,
                List.cons.injEq, FieldOf.mk.injEq, true_and, and_true] at hType
              exact congrArg some hType
  | .gbk keyCoder elementCoder, dataType, record, hTypes, h => by
      obtain ⟨key, list, rfl, -, -⟩ := yields_gbk h
      cases hTypes _ (mem_storageTypes _ h)

/-- Only the void is stored under the null type. -/
theorem primitive_of_null {record : BeamRecord} (h : nestedValueStorageType record = .ok .null) :
    record = .primitive .void := by
  cases record with
  | primitive value => cases value <;> first
    | rfl
    | cases h
  | tuple values => cases h
  | iterable list =>
      cases list with
      | nil => cases h
      | cons first rest =>
          obtain ⟨_, -, hPure⟩ := bind_eq_ok h
          cases hPure
  | kv key value =>
      obtain ⟨_, -, hPure⟩ := bind_eq_ok h
      cases hPure
  | gbk key list => cases h

/-- Records conform to the one type that the coder has. -/
theorem conforms_of_types {coder : StandardBeamCoders} {dataType : DataType} {record : BeamRecord}
    (hTypes : ∀ found ∈ coder.storageTypes, found = some dataType) (h : coder.Yields record) :
    nestedValueStorageType record = .ok dataType ∧ Conforms dataType record := by
  have hStorage : nestedValueStorageType record = .ok dataType := by
    have hMem := hTypes _ (mem_storageTypes coder h)
    cases hFound : nestedValueStorageType record with
    | error message =>
        rw [hFound] at hMem
        cases hMem
    | ok found =>
        rw [hFound] at hMem
        cases hMem
        rfl
  refine ⟨hStorage, ?_⟩
  by_cases hNull : dataType = .null
  · rw [hNull] at hStorage ⊢
    rw [primitive_of_null hStorage]
    exact conforms_scalar (scalarFits_primitiveDataType .void)
  · refine conforms_component coder (fun found hFound => ?_) h
    rw [hTypes found hFound, Option.map_some, componentType_of_ne_null hNull]

end StandardBeamCoders
/-! Tables whose records all have one layout. -/

def BeamRecord.getKey : BeamRecord → Option PrimitiveValue
  | .kv key _ => some key
  | .gbk key _ => some key
  | _ => none

def BeamRecord.getGbk : BeamRecord → Option (PrimitiveValue × List BeamRecord)
  | .gbk key list => some (key, list)
  | _ => none

/-- The columns of a table, by its type and the types of its keys and values. -/
def tableFields (keyType valueType : DataType) : TableType → List Field
  | .primitive => [⟨valueColumn, valueType, valueType == .null⟩]
  | .iterable => [⟨valueColumn, valueType, true⟩]
  | .kv => [⟨keyColumn, keyType, keyType == .null⟩,
      ⟨valueColumn, valueType, kvValueNullable valueType⟩]
  | .gbk => [⟨keyColumn, keyType, false⟩, ⟨valueColumn, valueType, true⟩]
  | .tuple => [⟨valueColumn, valueType, true⟩]
  | .row => []

/-- No buffer of the key or the value column outgrows its offsets. -/
def tableFits (valueType : DataType) (records : List BeamRecord) : Prop :=
  scalarsFit (records.filterMap BeamRecord.getKey) ∧ columnFits valueType (records.map valueOf)

/-- The records have one shape, and their keys and values one storage type. -/
structure UniformTable (tableType : TableType) (keyType valueType : DataType)
    (records : List BeamRecord) : Prop where
  nonempty : records ≠ []
  shapes : ∀ record ∈ records, tableTypeOf record = tableType
  keys : ∀ record ∈ records, ∀ key ∈ record.getKey, primitiveDataType key = keyType
  stored : ∀ record ∈ records, nestedValueStorageType (valueOf record) = .ok valueType
  conforms : ∀ record ∈ records, Conforms valueType (valueOf record)
  items : tableType = .iterable ∨ tableType = .gbk → valueType = .list (itemField .binary)

/-- A record stored as binary gives an iterable the default item type. -/
theorem elementType_of_conforms {record : BeamRecord} (h : Conforms .binary record) :
    iterableElementDataType record = .ok .binary := by
  obtain ⟨value, rfl, type, cell, hType, -, hCell⟩ := h.primitive_of_leaf
  cases hType
  cases value <;> first
    | rfl
    | cases hCell

/-- Lists of byte strings, and empty lists, are taken to hold bytes. -/
theorem itemTypes_of_binary (pcollectionId : String) {iterables : List (List BeamRecord)}
    (h : ∀ list ∈ iterables, ∀ element ∈ list, Conforms .binary element) :
    inferIterableItemDataType iterables = .ok .binary ∧
      validateIterableItemTypes pcollectionId iterables .binary = .ok () := by
  constructor
  · induction iterables with
    | nil => rfl
    | cons list iterables ih =>
        cases list with
        | nil => exact ih fun other hMem => h other (List.mem_cons_of_mem _ hMem)
        | cons first rest =>
            exact elementType_of_conforms (h _ List.mem_cons_self first List.mem_cons_self)
  · refine forM_eq_ok_iff.mpr fun list hList => forM_eq_ok_iff.mpr fun element hElement => ?_
    rw [checkItem, elementType_of_conforms (h list hList element hElement)]
    rfl

namespace UniformTable

variable {tableType : TableType} {keyType valueType : DataType} {records : List BeamRecord}

theorem lists (h : UniformTable tableType keyType valueType records)
    (hItems : valueType = .list (itemField .binary)) {record : BeamRecord} (hMem : record ∈ records)
    {list : List BeamRecord} (hValue : valueOf record = .iterable list) :
    ∀ element ∈ list, Conforms .binary element := by
  have hConforms := h.conforms record hMem
  rw [hValue, hItems] at hConforms
  exact hConforms

/-- Every record of a uniform table gives the same fields. -/
theorem recordFields_eq (h : UniformTable tableType keyType valueType records)
    (pcollectionId : String) {first : BeamRecord} (hFirst : first ∈ records) :
    recordFields pcollectionId first records = .ok (tableFields keyType valueType tableType) := by
  have hShape := h.shapes first hFirst
  have hStored := h.stored first hFirst
  cases first with
  | primitive value =>
      cases hShape
      cases hStored
      have hAll : records.forM (checkPrimitive pcollectionId (primitiveDataType value)) = .ok () := by
        refine forM_eq_ok_iff.mpr fun record hMem => ?_
        have hRecord := h.stored record hMem
        have hSame := h.shapes record hMem
        cases record <;> cases hSame
        exact if_pos (Except.ok.inj hRecord)
      rw [recordFields, primitiveFields, hAll]
      rfl
  | iterable list =>
      cases hShape
      have hItems := h.items (.inl rfl)
      have hLists : records.mapM (asIterable pcollectionId) =
          .ok (records.filterMap BeamRecord.getIterable) := by
        refine mapM_eq_filterMap fun record hMem => ?_
        have hSame := h.shapes record hMem
        cases record <;> cases hSame
        exact ⟨_, rfl, rfl⟩
      obtain ⟨hInfer, hValid⟩ := @itemTypes_of_binary pcollectionId
        (records.filterMap BeamRecord.getIterable) (fun found hFound => by
          obtain ⟨record, hMem, hSome⟩ := List.mem_filterMap.mp hFound
          cases record <;> cases hSome
          exact h.lists hItems hMem rfl)
      rw [recordFields, iterableFields, hLists]
      show (inferIterableItemDataType _ >>= _) = _
      rw [hInfer]
      show (validateIterableItemTypes pcollectionId _ .binary >>= _) = _
      rw [hValid, hItems]
      rfl
  | kv key value =>
      cases hShape
      have hKey : primitiveDataType key = keyType := h.keys _ hFirst key rfl
      have hValue : nestedValueStorageType value = .ok valueType := hStored
      have hAll : records.forM (checkKv pcollectionId keyType valueType) = .ok () := by
        refine forM_eq_ok_iff.mpr fun record hMem => ?_
        have hSame := h.shapes record hMem
        cases record with
        | kv otherKey otherValue =>
            have hOther : nestedValueStorageType otherValue = .ok valueType := h.stored _ hMem
            rw [checkKv, h.keys _ hMem otherKey rfl, hOther]
            simp [checkType, bind, Except.bind]
        | primitive _ => cases hSame
        | iterable _ => cases hSame
        | gbk _ _ => cases hSame
        | tuple _ => cases hSame
      rw [recordFields, kvFields, hValue, hKey]
      show (records.forM (checkKv pcollectionId keyType valueType) >>= _) = _
      rw [hAll]
      rfl
  | gbk key list =>
      cases hShape
      have hItems := h.items (.inr rfl)
      have hKey : primitiveDataType key = keyType := h.keys _ hFirst key rfl
      have hLists : records.mapM (gbkValues pcollectionId keyType) =
          .ok ((records.map valueOf).filterMap BeamRecord.getIterable) := by
        rw [List.filterMap_map]
        refine mapM_eq_filterMap fun record hMem => ?_
        have hSame := h.shapes record hMem
        cases record with
        | gbk otherKey otherList =>
            refine ⟨otherList, ?_, rfl⟩
            rw [gbkValues, h.keys _ hMem otherKey rfl]
            simp [checkType, bind, Except.bind, pure, Except.pure]
        | primitive _ => cases hSame
        | iterable _ => cases hSame
        | kv _ _ => cases hSame
        | tuple _ => cases hSame
      obtain ⟨hInfer, hValid⟩ := @itemTypes_of_binary pcollectionId
        ((records.map valueOf).filterMap BeamRecord.getIterable) (fun found hFound => by
          obtain ⟨value, hValue, hSome⟩ := List.mem_filterMap.mp hFound
          obtain ⟨record, hMem, rfl⟩ := List.mem_map.mp hValue
          refine h.lists hItems hMem ?_
          cases hRecord : valueOf record <;> rw [hRecord] at hSome <;> cases hSome
          rfl)
      rw [recordFields, gbkFields, hKey, hLists]
      show (inferIterableItemDataType _ >>= _) = _
      rw [hInfer]
      show (validateIterableItemTypes pcollectionId _ .binary >>= _) = _
      rw [hValid, hItems]
      rfl
  | tuple values =>
      cases hShape
      cases hStored
      have hAll : records.forM (checkTuple pcollectionId (tupleStorageType values)) = .ok () := by
        refine forM_eq_ok_iff.mpr fun record hMem => ?_
        have hRecord := h.stored record hMem
        have hSame := h.shapes record hMem
        cases record <;> cases hSame
        exact if_pos (Except.ok.inj hRecord)
      rw [recordFields, tupleFields, hAll]
      rfl

/-- So the schema derived from any of its records is the table's. -/
theorem deriveTableSchema_eq (h : UniformTable tableType keyType valueType records)
    (pcollectionId : String) : deriveTableSchema pcollectionId records =
      .ok ⟨tableType, tableFields keyType valueType tableType, false⟩ := by
  cases records with
  | nil => exact absurd rfl h.nonempty
  | cons first rest =>
      rw [deriveTableSchema, h.recordFields_eq pcollectionId List.mem_cons_self,
        h.shapes first List.mem_cons_self]
      rfl

/-! The columns of such a table. -/

theorem recordColumns_single (h : UniformTable tableType keyType valueType records)
    (hKeyed : tableType ≠ .kv ∧ tableType ≠ .gbk) :
    recordColumns records ⟨tableType, tableFields keyType valueType tableType, false⟩ = (do
      let column ← nestedValuesToArray (records.map valueOf) valueType
      pure [column]) := by
  have hSelf : records.map valueOf = records := by
    refine (List.map_congr_left fun record hMem => ?_).trans (List.map_id records)
    have hShape := h.shapes record hMem
    cases record with
    | kv _ _ => exact absurd hShape.symm hKeyed.1
    | gbk _ _ => exact absurd hShape.symm hKeyed.2
    | primitive _ => rfl
    | iterable _ => rfl
    | tuple _ => rfl
  obtain ⟨first, hFirst⟩ := List.exists_mem_of_ne_nil records h.nonempty
  have hShape := h.shapes first hFirst
  have hStored := h.stored first hFirst
  rw [hSelf]
  cases first with
  | kv _ _ => exact absurd hShape.symm hKeyed.1
  | gbk _ _ => exact absurd hShape.symm hKeyed.2
  | primitive value =>
      cases hShape
      obtain ⟨type, hType, -⟩ := storesPrimitives_primitiveDataType value
      have hSame : valueType = .leaf type := (Except.ok.inj hStored).symm.trans hType
      rw [hSame, nestedValuesToArray, bind_assoc]
      rfl
  | iterable list =>
      cases hShape
      rw [h.items (.inl rfl), nestedValuesToArray, bind_assoc]
      rfl
  | tuple values =>
      cases hShape
      rfl

theorem recordColumns_keyed (h : UniformTable tableType keyType valueType records)
    (hKeyed : tableType = .kv ∨ tableType = .gbk) :
    recordColumns records ⟨tableType, tableFields keyType valueType tableType, false⟩ = (do
      let keys ← primitiveValuesToArray (records.filterMap BeamRecord.getKey) keyType
      let values ← nestedValuesToArray (records.map valueOf) valueType
      pure [keys, values]) := by
  rcases hKeyed with rfl | rfl
  · have hPairs : records.mapM kvRecord = .ok (records.filterMap BeamRecord.getKv) := by
      refine mapM_eq_filterMap fun record hMem => ?_
      have hShape := h.shapes record hMem
      cases record <;> cases hShape
      exact ⟨_, rfl, rfl⟩
    have hKeys : (records.filterMap BeamRecord.getKv).map (·.1) =
        records.filterMap BeamRecord.getKey := by
      rw [List.map_filterMap]
      refine List.filterMap_congr fun record hMem => ?_
      have hShape := h.shapes record hMem
      cases record <;> cases hShape
      rfl
    have hValues : (records.filterMap BeamRecord.getKv).map (·.2) = records.map valueOf := by
      rw [List.map_filterMap, ← List.filterMap_eq_map]
      refine List.filterMap_congr fun record hMem => ?_
      have hShape := h.shapes record hMem
      cases record <;> cases hShape
      rfl
    rw [← hKeys, ← hValues]
    show (records.mapM kvRecord >>= _) = _
    rw [hPairs]
    rfl
  · have hPairs : records.mapM gbkRecord = .ok (records.filterMap BeamRecord.getGbk) := by
      refine mapM_eq_filterMap fun record hMem => ?_
      have hShape := h.shapes record hMem
      cases record <;> cases hShape
      exact ⟨_, rfl, rfl⟩
    have hKeys : (records.filterMap BeamRecord.getGbk).map (·.1) =
        records.filterMap BeamRecord.getKey := by
      rw [List.map_filterMap]
      refine List.filterMap_congr fun record hMem => ?_
      have hShape := h.shapes record hMem
      cases record <;> cases hShape
      rfl
    have hLists : (records.map valueOf).mapM iterableRecord =
        .ok ((records.filterMap BeamRecord.getGbk).map (·.2)) := by
      rw [List.map_filterMap]
      refine (mapM_eq_filterMap (g := BeamRecord.getIterable) fun value hMem => ?_).trans ?_
      · obtain ⟨record, hRecord, rfl⟩ := List.mem_map.mp hMem
        have hShape := h.shapes record hRecord
        cases record <;> cases hShape
        exact ⟨_, rfl, rfl⟩
      · rw [List.filterMap_map]
        refine congrArg _ (List.filterMap_congr fun record hMem => ?_)
        have hShape := h.shapes record hMem
        cases record <;> cases hShape
        rfl
    rw [← hKeys, h.items (.inr rfl), nestedValuesToArray, hLists]
    show (records.mapM gbkRecord >>= _) = _
    rw [hPairs]
    rfl

theorem nestedType (h : UniformTable tableType keyType valueType records) :
    NestedType valueType := by
  obtain ⟨first, hFirst⟩ := List.exists_mem_of_ne_nil records h.nonempty
  exact nestedType_of_storage (h.stored first hFirst)

/-- The value column of a uniform table is built exactly when its cells fit. -/
theorem values_succeed_iff (h : UniformTable tableType keyType valueType records) :
    Succeeds (nestedValuesToArray (records.map valueOf) valueType) ↔
      columnFits valueType (records.map valueOf) := by
  refine nestedValuesToArray_succeeds_iff h.nestedType (fun value hMem => ?_)
  obtain ⟨record, hRecord, rfl⟩ := List.mem_map.mp hMem
  exact h.conforms record hRecord

/-- The value column stands under the value field. -/
theorem values_placed (h : UniformTable tableType keyType valueType records) {column : ArrayRef}
    (hColumn : nestedValuesToArray (records.map valueOf) valueType = .ok column) (name : String)
    (nullable : Bool) : Placed records.length ⟨name, valueType, nullable⟩ column where
  type := nestedValuesToArray_dataType h.nestedType hColumn
  length := by rw [nestedValuesToArray_length hColumn, List.length_map]
  nulls := by
    refine .inr (hasNull_of_unmasked (nestedValuesToArray_unmasked h.nestedType hColumn ?_))
    by_cases hBoolean : valueType = .boolean
    · refine .inr fun hVoid => ?_
      obtain ⟨record, hMem, hValue⟩ := List.mem_map.mp hVoid
      have hStored := h.stored record hMem
      rw [hValue, hBoolean] at hStored
      cases hStored
    · exact .inl hBoolean
  surrogate := by
    by_cases hNull : valueType = .null
    · exact .inl hNull
    · exact .inr ⟨h.nestedType.plain hNull, nestedValuesToArray_plain h.nestedType hNull hColumn⟩

/-- All keys of a uniform table have one type. -/
theorem keys_types (h : UniformTable tableType keyType valueType records) {key : PrimitiveValue}
    (hMem : key ∈ records.filterMap BeamRecord.getKey) : primitiveDataType key = keyType := by
  obtain ⟨record, hRecord, hKey⟩ := List.mem_filterMap.mp hMem
  exact h.keys record hRecord key hKey

/-- A keyed table has a key in every row. -/
theorem keys_length (h : UniformTable tableType keyType valueType records)
    (hKeyed : tableType = .kv ∨ tableType = .gbk) :
    (records.filterMap BeamRecord.getKey).length = records.length := by
  refine List.filterMap_length_eq_length.mpr fun record hMem => ?_
  have hShape := h.shapes record hMem
  rcases hKeyed with rfl | rfl <;> cases record <;> cases hShape <;> rfl

theorem keys_placed (h : UniformTable tableType keyType valueType records)
    (hKeyed : tableType = .kv ∨ tableType = .gbk) {column : ArrayRef}
    (hColumn : primitiveValuesToArray (records.filterMap BeamRecord.getKey) keyType = .ok column)
    (name : String) (nullable : Bool) :
    Placed records.length ⟨name, keyType, nullable⟩ column where
  type := primitiveValuesToArray_dataType hColumn
  length := by rw [(primitiveValuesToArray_stores hColumn).length, h.keys_length hKeyed]
  nulls := by
    refine .inr (hasNull_of_unmasked (primitiveValuesToArray_unmasked hColumn ?_))
    by_cases hBoolean : keyType = .boolean
    · refine .inr fun key hMem hVoid => ?_
      have hType := h.keys_types hMem
      rw [hVoid, hBoolean] at hType
      cases hType
    · exact .inl hBoolean
  surrogate := by
    obtain ⟨type, cells, hType, -⟩ := primitiveValuesToArray_eq_ok hColumn
    by_cases hNull : type = .null
    · exact .inl (by rw [hType, hNull])
    · refine .inr ?_
      rw [hType]
      exact ⟨materializeVoidType_leaf hNull, materializeVoidArray_leaf hNull column⟩

/-- The key column is built exactly when its cells fit. -/
theorem keys_succeed_iff (h : UniformTable tableType keyType valueType records)
    (hKeyed : tableType = .kv ∨ tableType = .gbk) :
    Succeeds (primitiveValuesToArray (records.filterMap BeamRecord.getKey) keyType) ↔
      scalarsFit (records.filterMap BeamRecord.getKey) := by
  have hKey : ∃ key, key ∈ records.filterMap BeamRecord.getKey := by
    refine List.exists_mem_of_ne_nil _ fun hNil => h.nonempty ?_
    have hLength := h.keys_length hKeyed
    rw [hNil] at hLength
    exact List.eq_nil_of_length_eq_zero hLength.symm
  obtain ⟨key, hMem⟩ := hKey
  obtain ⟨type, hType, hStores⟩ := storesPrimitives_primitiveDataType key
  have hSame : keyType = .leaf type := (h.keys_types hMem).symm.trans hType
  rw [hSame]
  refine primitiveValuesToArray_succeeds_iff hStores fun other hOther => ?_
  rw [← hSame, ← h.keys_types hOther]
  exact scalarFits_primitiveDataType other

/-- The columns of a uniform table are built exactly when their cells fit. -/
theorem recordColumns_succeeds_iff (h : UniformTable tableType keyType valueType records) :
    Succeeds (recordColumns records ⟨tableType, tableFields keyType valueType tableType, false⟩) ↔
      tableFits valueType records := by
  by_cases hKeyed : tableType = .kv ∨ tableType = .gbk
  · rw [h.recordColumns_keyed hKeyed, tableFits, ← h.keys_succeed_iff hKeyed, ← h.values_succeed_iff]
    constructor
    · intro hAll
      obtain ⟨keys, hKeys, hRest⟩ := succeeds_bind_iff.mp hAll
      obtain ⟨values, hValues, -⟩ := succeeds_bind_iff.mp hRest
      exact ⟨⟨keys, hKeys⟩, values, hValues⟩
    · rintro ⟨⟨keys, hKeys⟩, values, hValues⟩
      exact succeeds_bind_iff.mpr ⟨keys, hKeys, succeeds_bind_iff.mpr ⟨values, hValues, succeeds_ok _⟩⟩
  · rw [not_or] at hKeyed
    have hNoKeys : records.filterMap BeamRecord.getKey = [] := by
      refine List.filterMap_eq_nil_iff.mpr fun record hMem => ?_
      have hShape := h.shapes record hMem
      cases record with
      | kv _ _ => exact absurd hShape.symm hKeyed.1
      | gbk _ _ => exact absurd hShape.symm hKeyed.2
      | primitive _ => rfl
      | iterable _ => rfl
      | tuple _ => rfl
    rw [h.recordColumns_single hKeyed, tableFits, hNoKeys, ← h.values_succeed_iff]
    constructor
    · intro hAll
      obtain ⟨column, hColumn, -⟩ := succeeds_bind_iff.mp hAll
      exact ⟨Nat.zero_le _, column, hColumn⟩
    · rintro ⟨-, column, hColumn⟩
      exact succeeds_bind_iff.mpr ⟨column, hColumn, succeeds_ok _⟩

/-- The columns stand under the fields of the schema. -/
theorem recordColumns_placed (h : UniformTable tableType keyType valueType records)
    {columns : List ArrayRef} (hColumns : recordColumns records
      ⟨tableType, tableFields keyType valueType tableType, false⟩ = .ok columns) :
    List.Forall₂ (Placed records.length) (tableFields keyType valueType tableType) columns := by
  by_cases hKeyed : tableType = .kv ∨ tableType = .gbk
  · rw [h.recordColumns_keyed hKeyed] at hColumns
    obtain ⟨keys, hKeys, hRest⟩ := bind_eq_ok hColumns
    obtain ⟨values, hValues, hPure⟩ := bind_eq_ok hRest
    cases hPure
    have hKeyPlaced := h.keys_placed hKeyed hKeys
    have hValuePlaced := h.values_placed hValues
    rcases hKeyed with rfl | rfl
    · exact .cons (hKeyPlaced _ _) (.cons (hValuePlaced _ _) .nil)
    · exact .cons (hKeyPlaced _ _) (.cons (hValuePlaced _ _) .nil)
  · rw [not_or] at hKeyed
    rw [h.recordColumns_single hKeyed] at hColumns
    obtain ⟨column, hColumn, hPure⟩ := bind_eq_ok hColumns
    cases hPure
    have hPlaced := h.values_placed hColumn
    obtain ⟨first, hFirst⟩ := List.exists_mem_of_ne_nil records h.nonempty
    have hShape := h.shapes first hFirst
    cases first with
    | kv _ _ => exact absurd hShape.symm hKeyed.1
    | gbk _ _ => exact absurd hShape.symm hKeyed.2
    | primitive _ => cases hShape; exact .cons (hPlaced _ _) .nil
    | iterable _ => cases hShape; exact .cons (hPlaced _ _) .nil
    | tuple _ => cases hShape; exact .cons (hPlaced _ _) .nil

/-- A batch of such records is built exactly when it fits, with the schema of
its table. -/
theorem buildWindowedBatch_iff {values : List WindowedValue}
    (h : UniformTable tableType keyType valueType (values.map WindowedValue.value))
    (pcollectionId : String) :
    Succeeds (buildWindowedBatch pcollectionId values) ↔
      tableFits valueType (values.map WindowedValue.value) ∧
        WindowsFit (values.map WindowMetadata.ofValue) := by
  have hDerive := h.deriveTableSchema_eq pcollectionId
  rw [← h.recordColumns_succeeds_iff]
  refine buildWindowedBatch_succeeds_iff hDerive ?_ fun columns hColumns => ?_
  · obtain ⟨first, hFirst⟩ := List.exists_mem_of_ne_nil _ h.nonempty
    have hShape := h.shapes first hFirst
    cases first <;> cases hShape <;> exact List.cons_ne_nil _ _
  · have hPlaced := h.recordColumns_placed hColumns
    rw [List.length_map] at hPlaced
    exact hPlaced

end UniformTable
end FlareDB
