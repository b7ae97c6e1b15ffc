import FlareDB.Store.BatchRoundTrip

/-! Where tuples stand in the records of a batch. All tuples of one position are
written to one struct, whose arity is that of the first of them; a longer one
loses the components it has beyond that. -/
namespace FlareDB

open Arrow Results

/-- A step from a record into a part of it. -/
inductive PathStep where
  | value
  | item
deriving DecidableEq, Repr

/-- The tuples of a record at a position. -/
def tuplesAt : List PathStep → BeamRecord → List (List PrimitiveValue)
  | [], .tuple values => [values]
  | .value :: path, .kv _ value => tuplesAt path value
  | .item :: path, .iterable list => list.flatMap (tuplesAt path)
  | .item :: path, .gbk _ list => list.flatMap (tuplesAt path)
  | _, _ => []

/-- Tuples that share a position have the same number of components. -/
def EvenTuples (records : List BeamRecord) : Prop :=
  ∀ path, ∀ left ∈ records.flatMap (tuplesAt path), ∀ right ∈ records.flatMap (tuplesAt path),
    left.length = right.length

/-- The number of fields of the tuple struct at a position of a type. -/
def arityAt : List PathStep → DataType → Option Nat
  | [], .struct fields => if isNestedKvStruct fields then none else some fields.length
  | .value :: path, .struct [_, second] => arityAt path second.dataType
  | .item :: path, .list item => arityAt path item.dataType
  | _, _ => none

@[simp] theorem arityAt_leaf (path : List PathStep) (type : LeafType) :
    arityAt path (.leaf type) = none := by
  cases path with
  | nil => rfl
  | cons step path => cases step <;> rfl

@[simp] theorem arityAt_componentType (path : List PathStep) (dataType : DataType) :
    arityAt path (componentType dataType) = arityAt path dataType := by
  cases dataType with
  | leaf type => cases type <;> simp [componentType]
  | list item => rfl
  | struct fields => rfl

/-! What a record must look like to be written under a type. -/

/-- A leaf type takes the scalar. -/
def ScalarFits (dataType : DataType) (value : PrimitiveValue) : Prop :=
  ∃ type cell, dataType = .leaf type ∧ storesPrimitives type = true ∧
    primitiveCell type value = .ok cell

def ComponentsFit (fields : List Field) (values : List PrimitiveValue) : Prop :=
  ∀ (index : Nat) field, fields[index]? = some field →
    ∃ value, values[index]? = some value ∧ ScalarFits field.dataType value

/-- The record has the shape of the type. Tuples may be longer than it. -/
def Conforms : DataType → BeamRecord → Prop
  | .leaf type, .primitive value => ScalarFits (.leaf type) value
  | .list item, .iterable list => ∀ record ∈ list, Conforms item.dataType record
  | .struct [first, second], .kv key value =>
      isNestedKvStruct [first, second] = true ∧ ScalarFits first.dataType key ∧
        Conforms second.dataType value
  | .struct fields, .tuple values => isNestedKvStruct fields = false ∧ ComponentsFit fields values
  | _, _ => False
termination_by structural dataType => dataType

/-- A column of scalars is built only from values of its type. -/
theorem primitiveValuesToArray_fits {values : List PrimitiveValue} {dataType : DataType}
    {array : ArrayRef} (h : primitiveValuesToArray values dataType = .ok array) :
    ∀ value ∈ values, ScalarFits dataType value := by
  intro value hMem
  cases dataType with
  | list item => cases h
  | struct fields => cases h
  | leaf type =>
      rw [primitiveValuesToArray] at h
      split at h
      · next hStores =>
          obtain ⟨cells, hCells, -⟩ := bind_eq_ok h
          obtain ⟨row, hRow⟩ := List.mem_iff_getElem?.mp hMem
          obtain ⟨cell, -, hCell⟩ := forall₂_row (mapM_eq_ok_iff.mp hCells) hRow
          exact ⟨type, cell, rfl, hStores, hCell⟩
      · cases h

/-- A column of tuples is built only from tuples that fit its fields. -/
theorem tupleArray_conforms {records : List BeamRecord} {fields : List Field} {array : ArrayRef}
    (h : tupleArray records fields = .ok array) {record : BeamRecord} (hMem : record ∈ records) :
    ∃ values, record = .tuple values ∧ ComponentsFit fields values := by
  obtain ⟨row, hRow⟩ := List.mem_iff_getElem?.mp hMem
  obtain ⟨-, hRows⟩ := tupleArray_stores h
  obtain ⟨values, rfl, -⟩ := hRows row record hRow
  refine ⟨values, rfl, ?_⟩
  intro index field hField
  obtain ⟨children, hChildren, -⟩ := bind_eq_ok h
  have hEntry : fields.zipIdx[index]? = some (field, index) := by
    rw [List.getElem?_zipIdx, hField]
    simp
  obtain ⟨child, -, hChild⟩ := forall₂_row (mapM_eq_ok_iff.mp hChildren) hEntry
  obtain ⟨components, hComponents, hArray⟩ := bind_eq_ok hChild
  obtain ⟨value, hValue, hComponent⟩ := forall₂_row (mapM_eq_ok_iff.mp hComponents) hRow
  obtain ⟨others, hOthers, hIndex⟩ := tupleComponent_eq_ok hComponent
  cases hOthers
  exact ⟨value, hIndex, primitiveValuesToArray_fits hArray value (List.mem_of_getElem? hValue)⟩

/-- A column is built only from records that conform to its type. -/
theorem nestedValuesToArray_conforms : ∀ (dataType : DataType) {records : List BeamRecord}
    {array : ArrayRef}, nestedValuesToArray records dataType = .ok array →
      ∀ record ∈ records, Conforms dataType record
  | .leaf type, records, array, h, record, hMem => by
      obtain ⟨values, hValues, hArray⟩ := bind_eq_ok h
      obtain ⟨row, hRow⟩ := List.mem_iff_getElem?.mp hMem
      obtain ⟨value, hValue, hPrimitive⟩ := forall₂_row (mapM_eq_ok_iff.mp hValues) hRow
      rw [primitiveRecord_eq_ok hPrimitive]
      exact primitiveValuesToArray_fits hArray value (List.mem_of_getElem? hValue)
  | .list item, records, array, h, record, hMem => by
      obtain ⟨iterables, hIterables, hArray⟩ := bind_eq_ok h
      obtain ⟨_, -, hRest⟩ := bind_eq_ok hArray
      obtain ⟨child, hChild, -⟩ := bind_eq_ok hRest
      obtain ⟨row, hRow⟩ := List.mem_iff_getElem?.mp hMem
      obtain ⟨list, hList, hIterable⟩ := forall₂_row (mapM_eq_ok_iff.mp hIterables) hRow
      rw [iterableRecord_eq_ok hIterable]
      intro value hValue
      refine nestedValuesToArray_conforms item.dataType hChild value ?_
      exact List.mem_flatten.mpr ⟨list, List.mem_of_getElem? hList, hValue⟩
  | .struct [], _, _, h, _, hMem => by
      obtain ⟨values, rfl, hFits⟩ := tupleArray_conforms h hMem
      exact ⟨rfl, hFits⟩
  | .struct [_], _, _, h, _, hMem => by
      obtain ⟨values, rfl, hFits⟩ := tupleArray_conforms h hMem
      exact ⟨rfl, hFits⟩
  | .struct (_ :: _ :: _ :: _), _, _, h, _, hMem => by
      obtain ⟨values, rfl, hFits⟩ := tupleArray_conforms h hMem
      exact ⟨rfl, hFits⟩
  | .struct [first, second], records, array, h, record, hMem => by
      rw [nestedValuesToArray] at h
      split at h
      · next hKv =>
          obtain ⟨pairs, hPairs, hRest⟩ := bind_eq_ok h
          obtain ⟨keys, hKeys, hRest⟩ := bind_eq_ok hRest
          obtain ⟨values, hValues, -⟩ := bind_eq_ok hRest
          obtain ⟨row, hRow⟩ := List.mem_iff_getElem?.mp hMem
          obtain ⟨pair, hPair, hRecord⟩ := forall₂_row (mapM_eq_ok_iff.mp hPairs) hRow
          have hPairMem := List.mem_of_getElem? hPair
          rw [kvRecord_eq_ok hRecord]
          exact ⟨hKv, primitiveValuesToArray_fits hKeys _ (List.mem_map_of_mem hPairMem),
            nestedValuesToArray_conforms second.dataType hValues _ (List.mem_map_of_mem hPairMem)⟩
      · next hTuple =>
          obtain ⟨values, rfl, hFits⟩ := tupleArray_conforms h hMem
          exact ⟨by simpa using hTuple, hFits⟩

/-! Clipping and arities. -/

/-- A tuple conforms to the struct of its components only. -/
theorem Conforms.tuple_type {dataType : DataType} {values : List PrimitiveValue}
    (h : Conforms dataType (.tuple values)) :
    ∃ fields, dataType = .struct fields ∧ isNestedKvStruct fields = false ∧
      ComponentsFit fields values := by
  match dataType, h with
  | .leaf _, h | .list _, h => exact h.elim
  | .struct [], h => exact ⟨[], rfl, h⟩
  | .struct [first], h => exact ⟨[first], rfl, h⟩
  | .struct [first, second], h => exact ⟨[first, second], rfl, h⟩
  | .struct (first :: second :: third :: rest), h => exact ⟨_, rfl, h⟩

/-- A pair conforms to the struct of a pair only. -/
theorem Conforms.kv_type {dataType : DataType} {key : PrimitiveValue} {value : BeamRecord}
    (h : Conforms dataType (.kv key value)) :
    ∃ first second, dataType = .struct [first, second] ∧ Conforms second.dataType value := by
  match dataType, h with
  | .struct [first, second], h => exact ⟨first, second, rfl, h.2.2⟩
  | .leaf _, h | .list _, h | .struct [], h | .struct [_], h | .struct (_ :: _ :: _ :: _), h =>
      exact h.elim

/-- An iterable conforms to a list type only. -/
theorem Conforms.list_type {dataType : DataType} {list : List BeamRecord}
    (h : Conforms dataType (.iterable list)) :
    ∃ item, dataType = .list item ∧ ∀ record ∈ list, Conforms item.dataType record := by
  match dataType, h with
  | .list item, h => exact ⟨item, rfl, h⟩
  | .leaf _, h | .struct [], h | .struct [_], h | .struct [_, _], h
  | .struct (_ :: _ :: _ :: _), h => exact h.elim

theorem not_conforms_scalar (fields : List Field) (value : PrimitiveValue) :
    ¬ Conforms (.struct fields) (.primitive value) := by
  match fields with
  | [] | [_] | [_, _] | _ :: _ :: _ :: _ => exact id

/-- A grouped value is nested nowhere. -/
theorem not_conforms_gbk (dataType : DataType) (key : PrimitiveValue) (list : List BeamRecord) :
    ¬ Conforms dataType (.gbk key list) := by
  match dataType with
  | .leaf _ | .list _ | .struct [] | .struct [_] | .struct [_, _] | .struct (_ :: _ :: _ :: _) =>
      exact id

/-- A tuple that fits has no fewer components than there are fields. -/
theorem componentsFit_length {fields : List Field} {values : List PrimitiveValue}
    (h : ComponentsFit fields values) : fields.length ≤ values.length := by
  by_contra hShort
  have hLt : values.length < fields.length := by omega
  obtain ⟨value, hValue, -⟩ := h values.length _ (List.getElem?_eq_getElem hLt)
  simp at hValue

/-- No tuple of a conforming record is shorter than its struct. -/
theorem Conforms.arityAt_le : ∀ (path : List PathStep) {dataType : DataType} {record : BeamRecord},
    Conforms dataType record → ∀ values ∈ tuplesAt path record,
      ∃ arity, arityAt path dataType = some arity ∧ arity ≤ values.length
  | [], dataType, record, h, values, hMem => by
      cases record with
      | primitive _ => simp [tuplesAt] at hMem
      | iterable _ => simp [tuplesAt] at hMem
      | kv _ _ => simp [tuplesAt] at hMem
      | gbk _ _ => simp [tuplesAt] at hMem
      | tuple found =>
          cases List.mem_singleton.mp hMem
          obtain ⟨fields, rfl, hTuple, hFits⟩ := h.tuple_type
          exact ⟨fields.length, by simp [arityAt, hTuple], componentsFit_length hFits⟩
  | .value :: path, dataType, record, h, values, hMem => by
      cases record with
      | primitive _ => simp [tuplesAt] at hMem
      | iterable _ => simp [tuplesAt] at hMem
      | tuple _ => simp [tuplesAt] at hMem
      | gbk _ _ => simp [tuplesAt] at hMem
      | kv key value =>
          obtain ⟨first, second, rfl, hValue⟩ := h.kv_type
          exact arityAt_le path hValue values hMem
  | .item :: path, dataType, record, h, values, hMem => by
      cases record with
      | primitive _ => simp [tuplesAt] at hMem
      | kv _ _ => simp [tuplesAt] at hMem
      | tuple _ => simp [tuplesAt] at hMem
      | gbk key list => exact absurd h (not_conforms_gbk _ _ _)
      | iterable list =>
          obtain ⟨item, rfl, hItems⟩ := h.list_type
          obtain ⟨found, hFound, hValues⟩ := List.mem_flatMap.mp hMem
          exact arityAt_le path (hItems found hFound) values hValues

/-- A tuple is read back to the length of its struct. -/
theorem clip_tuple (fields : List Field) (values : List PrimitiveValue) :
    clip (.struct fields) (.tuple values) = .tuple (values.take fields.length) := by
  match fields with
  | [] | [_] | [_, _] | _ :: _ :: _ :: _ => rfl

@[simp] theorem tuplesAt_primitive (path : List PathStep) (value : PrimitiveValue) :
    tuplesAt path (.primitive value) = [] := by
  match path with
  | [] | .value :: _ | .item :: _ => rfl

/-- A record is left as it is exactly when none of its tuples is longer than the
struct at its position. -/
theorem clip_eq_self_iff : ∀ (dataType : DataType) {record : BeamRecord},
    Conforms dataType record → (clip dataType record = record ↔
      ∀ path, ∀ values ∈ tuplesAt path record, ∀ arity, arityAt path dataType = some arity →
        values.length ≤ arity)
  | .leaf type, record, h => by
      cases record with
      | primitive value => simp [clip]
      | iterable _ => exact h.elim
      | kv _ _ => exact h.elim
      | gbk _ _ => exact h.elim
      | tuple _ => exact h.elim
  | .list item, record, h => by
      cases record with
      | primitive _ => exact h.elim
      | kv _ _ => exact h.elim
      | gbk _ _ => exact h.elim
      | tuple _ => exact h.elim
      | iterable list =>
          have hItems : ∀ other ∈ list, Conforms item.dataType other := h
          constructor
          · intro hEq path values hMem arity hArity
            match path, hMem, hArity with
            | .item :: path, hMem, hArity =>
                obtain ⟨other, hOther, hValues⟩ := List.mem_flatMap.mp hMem
                have hList : list.map (clip item.dataType) = list.map id := by
                  rw [List.map_id]
                  exact BeamRecord.iterable.inj hEq
                have hSelf := List.map_inj_left.mp hList other hOther
                exact (clip_eq_self_iff item.dataType (hItems other hOther)).mp hSelf path values
                  hValues arity hArity
          · intro hAll
            show BeamRecord.iterable (list.map (clip item.dataType)) = .iterable list
            have hList : list.map (clip item.dataType) = list.map id := by
              refine List.map_congr_left fun other hOther => ?_
              refine (clip_eq_self_iff item.dataType (hItems other hOther)).mpr ?_
              intro path values hValues arity hArity
              exact hAll (.item :: path) values (List.mem_flatMap.mpr ⟨other, hOther, hValues⟩) arity
                hArity
            rw [hList, List.map_id]
  | .struct fields, record, h => by
      cases record with
      | primitive _ => exact absurd h (not_conforms_scalar fields _)
      | iterable _ =>
          obtain ⟨item, hType, -⟩ := h.list_type
          cases hType
      | gbk _ _ => exact absurd h (not_conforms_gbk _ _ _)
      | tuple values =>
          obtain ⟨_, hType, hTuple, -⟩ := h.tuple_type
          cases hType
          rw [clip_tuple, BeamRecord.tuple.injEq, List.take_eq_self_iff]
          constructor
          · intro hLe path found hMem arity hArity
            match path, hMem, hArity with
            | [], hMem, hArity =>
                cases List.mem_singleton.mp hMem
                rw [arityAt, hTuple] at hArity
                cases hArity
                exact hLe
          · intro hAll
            exact hAll [] values (by simp [tuplesAt]) fields.length (by simp [arityAt, hTuple])
      | kv key value =>
          match fields, h with
          | [first, second], h =>
              have hValue : Conforms second.dataType value := h.2.2
              have hIff := clip_eq_self_iff second.dataType hValue
              show BeamRecord.kv key (clip second.dataType value) = .kv key value ↔ _
              rw [BeamRecord.kv.injEq, and_iff_right rfl, hIff]
              constructor
              · intro hAll path values hMem arity hArity
                match path, hMem, hArity with
                | .value :: path, hMem, hArity => exact hAll path values hMem arity hArity
              · intro hAll path values hMem arity hArity
                exact hAll (.value :: path) values hMem arity hArity
          | [], h | [_], h | _ :: _ :: _ :: _, h => exact h.elim

theorem isNestedKvStruct_tuple (values : List PrimitiveValue) :
    isNestedKvStruct (values.mapIdx tupleField) = false := by
  match values with
  | [] | [_] => rfl
  | [_, _] => rfl
  | _ :: _ :: _ :: _ => simp [isNestedKvStruct]

theorem arityAt_tuple_value (path : List PathStep) (values : List PrimitiveValue) :
    arityAt (.value :: path) (tupleStorageType values) = none := by
  match values with
  | [] | [_] => rfl
  | [_, second] =>
      show arityAt path (tupleComponentDataType second) = none
      cases second <;> simp [tupleComponentDataType, primitiveDataType, componentType]
  | _ :: _ :: _ :: _ => simp [tupleStorageType, arityAt]

/-- Every arity of a storage type is that of a tuple in the record it was taken
from. -/
theorem nestedValueStorageType_arity : ∀ {record : BeamRecord} {dataType : DataType},
    nestedValueStorageType record = .ok dataType → ∀ path arity,
      arityAt path dataType = some arity → ∃ values ∈ tuplesAt path record, values.length = arity
  | .primitive value, dataType, h, path, arity, hArity => by
      cases h
      cases value <;> simp [primitiveDataType] at hArity
  | .tuple values, dataType, h, path, arity, hArity => by
      cases h
      cases path with
      | nil =>
          rw [tupleStorageType, arityAt, isNestedKvStruct_tuple] at hArity
          cases hArity
          exact ⟨values, by simp [tuplesAt], by simp⟩
      | cons step path =>
          cases step with
          | value => simp [arityAt_tuple_value] at hArity
          | item => cases hArity
  | .iterable [], dataType, h, path, arity, hArity => by
      cases h
      cases path with
      | nil => cases hArity
      | cons step path =>
          cases step with
          | value => cases hArity
          | item => simp [arityAt, itemField] at hArity
  | .iterable (first :: rest), dataType, h, path, arity, hArity => by
      obtain ⟨found, hFound, hPure⟩ := bind_eq_ok h
      cases hPure
      cases path with
      | nil => cases hArity
      | cons step path =>
          cases step with
          | value => cases hArity
          | item =>
              rw [arityAt, itemField, arityAt_componentType] at hArity
              obtain ⟨values, hMem, hLength⟩ := nestedValueStorageType_arity hFound path arity hArity
              exact ⟨values, List.mem_flatMap.mpr ⟨first, by simp, hMem⟩, hLength⟩
  | .kv key value, dataType, h, path, arity, hArity => by
      obtain ⟨found, hFound, hPure⟩ := bind_eq_ok h
      cases hPure
      cases path with
      | nil => simp [arityAt, kvStructType, isNestedKvStruct] at hArity
      | cons step path =>
          cases step with
          | item => cases hArity
          | value =>
              rw [kvStructType, arityAt, arityAt_componentType] at hArity
              exact nestedValueStorageType_arity hFound path arity hArity
  | .gbk _ _, _, h, _, _, _ => by cases h

/-- The column of nested values is left as it is exactly when its tuples are
even. -/
theorem clip_column_iff {dataType : DataType} {records : List BeamRecord}
    (hConforms : ∀ record ∈ records, Conforms dataType record)
    (hSource : ∃ record ∈ records, nestedValueStorageType record = .ok dataType) :
    (∀ record ∈ records, clip dataType record = record) ↔ EvenTuples records := by
  have hArity : ∀ path, ∀ values ∈ records.flatMap (tuplesAt path),
      ∃ arity, arityAt path dataType = some arity ∧ arity ≤ values.length := by
    intro path values hMem
    obtain ⟨record, hRecord, hValues⟩ := List.mem_flatMap.mp hMem
    exact (hConforms record hRecord).arityAt_le path values hValues
  constructor
  · intro hSelf path left hLeft right hRight
    have hExact : ∀ values ∈ records.flatMap (tuplesAt path), ∀ arity,
        arityAt path dataType = some arity → values.length = arity := by
      intro values hMem arity hSome
      obtain ⟨other, hOther, hLe⟩ := hArity path values hMem
      obtain ⟨record, hRecord, hValues⟩ := List.mem_flatMap.mp hMem
      have hGe := (clip_eq_self_iff dataType (hConforms record hRecord)).mp (hSelf record hRecord)
        path values hValues arity hSome
      cases hOther.symm.trans hSome
      omega
    obtain ⟨arity, hSome, -⟩ := hArity path left hLeft
    rw [hExact left hLeft arity hSome, hExact right hRight arity hSome]
  · intro hEven record hRecord
    obtain ⟨source, hMem, hType⟩ := hSource
    refine (clip_eq_self_iff dataType (hConforms record hRecord)).mpr ?_
    intro path values hValues arity hSome
    obtain ⟨found, hFound, hLength⟩ := nestedValueStorageType_arity hType path arity hSome
    have hEq := hEven path values (List.mem_flatMap.mpr ⟨record, hRecord, hValues⟩) found
      (List.mem_flatMap.mpr ⟨source, hMem, hFound⟩)
    omega

/-- The value column has the tuples of its records, one step further in for a
KV. -/
theorem evenTuples_valueOf {records : List BeamRecord} {tableType : TableType}
    (hShapes : ∀ record ∈ records, tableTypeOf record = tableType) :
    EvenTuples (records.map valueOf) ↔ EvenTuples records := by
  by_cases hKv : tableType = .kv
  · have hValue : ∀ path, (records.map valueOf).flatMap (tuplesAt path) =
        records.flatMap (tuplesAt (.value :: path)) := by
      intro path
      rw [List.flatMap_map]
      refine List.flatMap_congr fun record hMem => ?_
      have hShape := (hShapes record hMem).trans hKv
      cases record <;> first | rfl | cases hShape
    have hNone : ∀ path, (∀ rest, path ≠ .value :: rest) → records.flatMap (tuplesAt path) = [] := by
      intro path hPath
      rw [List.flatMap_eq_nil_iff]
      intro record hMem
      have hShape := (hShapes record hMem).trans hKv
      cases record with
      | kv key value =>
          match path with
          | [] => rfl
          | .value :: rest => exact absurd rfl (hPath rest)
          | .item :: rest => rfl
      | primitive _ => cases hShape
      | iterable _ => cases hShape
      | gbk _ _ => cases hShape
      | tuple _ => cases hShape
    constructor
    · intro hEven path left hLeft right hRight
      by_cases hPath : ∃ rest, path = .value :: rest
      · obtain ⟨rest, rfl⟩ := hPath
        rw [← hValue] at hLeft hRight
        exact hEven rest left hLeft right hRight
      · rw [hNone path (fun rest hEq => hPath ⟨rest, hEq⟩)] at hLeft
        cases hLeft
    · intro hEven path left hLeft right hRight
      rw [hValue] at hLeft hRight
      exact hEven (.value :: path) left hLeft right hRight
  · have hSame : ∀ path, (records.map valueOf).flatMap (tuplesAt path) =
        records.flatMap (tuplesAt path) := by
      intro path
      rw [List.flatMap_map]
      refine List.flatMap_congr fun record hMem => ?_
      have hShape := hShapes record hMem
      cases record with
      | kv key value => exact absurd hShape.symm hKv
      | gbk key list =>
          match path with
          | [] | .value :: _ | .item :: _ => rfl
      | primitive _ => rfl
      | iterable _ => rfl
      | tuple _ => rfl
    simp only [EvenTuples, hSame]

/-- A record is read back whole exactly when its value is. -/
theorem clipRecord_eq_self_iff (dataType : DataType) (record : BeamRecord)
    (hConforms : Conforms dataType (valueOf record)) :
    clipRecord dataType record = record ↔ clip dataType (valueOf record) = valueOf record := by
  cases record with
  | kv key value =>
      cases dataType <;> simp [clipRecord, valueOf]
  | gbk key list =>
      obtain ⟨item, rfl, -⟩ := Conforms.list_type hConforms
      simp [clipRecord, valueOf, clip]
  | primitive value => cases dataType <;> rfl
  | iterable list => cases dataType <;> rfl
  | tuple values => cases dataType <;> rfl

/-- Storing a batch and reading it back returns the same values exactly when the
tuples that share a position in the records have the same length. -/
theorem windowedValuesFromBatch_eq_iff {pcollectionId : String} {values : List WindowedValue}
    {batch : RecordBatch} {schema : RecordTableSchema}
    (h : buildWindowedBatch pcollectionId values = .ok (batch, schema)) :
    windowedValuesFromBatch batch schema = .ok values ↔
      EvenTuples (values.map WindowedValue.value) := by
  obtain ⟨dataType, hReads, hRead⟩ := windowedValuesFromBatch_eq_ok h
  obtain ⟨array, hWritten⟩ := hReads.written
  have hConforms := nestedValuesToArray_conforms dataType hWritten
  rw [hRead, ← evenTuples_valueOf hReads.shapes, ← clip_column_iff hConforms hReads.source]
  rw [Except.ok.injEq]
  constructor
  · intro hEq other hMem
    obtain ⟨record, hRecord, rfl⟩ := List.mem_map.mp hMem
    obtain ⟨value, hValue, rfl⟩ := List.mem_map.mp hRecord
    have hSelf := List.map_inj_left.mp (hEq.trans (List.map_id values).symm) value hValue
    exact (clipRecord_eq_self_iff dataType value.value (hConforms _ hMem)).mp
      (congrArg WindowedValue.value hSelf)
  · intro hAll
    refine (List.map_congr_left fun value hValue => ?_).trans (List.map_id values)
    have hMem : valueOf value.value ∈ (values.map WindowedValue.value).map valueOf :=
      List.mem_map_of_mem (List.mem_map_of_mem hValue)
    rw [(clipRecord_eq_self_iff dataType value.value (hConforms _ hMem)).mpr (hAll _ hMem)]
    rfl

/-- A keyed list of two tuples. -/
def pairedTuples (first second : List PrimitiveValue) : WindowedValue where
  value := .kv (.string "k") (.iterable [.tuple first, .tuple second])
  timestampMillis := 0
  windows := [.global, .interval 0 10]
  pane := PaneInfo.noFiring

/-- Two tuples of one length are even. -/
theorem evenTuples_pairedTuples {first second : List PrimitiveValue}
    (h : first.length = second.length) :
    EvenTuples ([pairedTuples first second].map WindowedValue.value) := by
  intro path left hLeft right hRight
  match path, hLeft, hRight with
  | [.value, .item], hLeft, hRight =>
      simp only [pairedTuples, List.map_cons, List.map_nil, tuplesAt, List.flatMap_cons,
        List.flatMap_nil, List.append_nil, List.cons_append, List.nil_append, List.mem_cons,
        List.not_mem_nil, or_false] at hLeft hRight
      rcases hLeft with rfl | rfl <;> rcases hRight with rfl | rfl <;> simp [h]
  | .value :: .item :: .value :: _, hLeft, _ | .value :: .item :: .item :: _, hLeft, _ =>
      simp [pairedTuples, tuplesAt] at hLeft

theorem windowedValuesFromBatch_eq_pairedTuples :
    ∃ built, buildWindowedBatch "pc" [pairedTuples [.bool true, .int64 1] [.void, .int64 2]] =
        .ok built ∧
      windowedValuesFromBatch built.1 built.2 =
        .ok [pairedTuples [.bool true, .int64 1] [.void, .int64 2]] := by
  obtain ⟨⟨batch, schema⟩, hBuilt⟩ : ∃ built,
      buildWindowedBatch "pc" [pairedTuples [.bool true, .int64 1] [.void, .int64 2]] =
        .ok built := ⟨_, rfl⟩
  exact ⟨(batch, schema), hBuilt,
    (windowedValuesFromBatch_eq_iff hBuilt).mpr (evenTuples_pairedTuples rfl)⟩

/-- The second tuple is read back without its second component. -/
theorem not_windowedValuesFromBatch_eq :
    ¬ ∀ pcollectionId values batch schema,
      buildWindowedBatch pcollectionId values = .ok (batch, schema) →
        windowedValuesFromBatch batch schema = .ok values := by
  intro h
  obtain ⟨⟨batch, schema⟩, hBuilt, hRead⟩ : ∃ built,
      buildWindowedBatch "pc" [pairedTuples [.int64 1] [.int64 1, .int64 2]] = .ok built ∧
        windowedValuesFromBatch built.1 built.2 = .ok [pairedTuples [.int64 1] [.int64 1]] :=
    ⟨_, rfl, rfl⟩
  have hBack := (h _ _ _ _ hBuilt).symm.trans hRead
  simp [pairedTuples] at hBack

end FlareDB
