import FlareDB.Store.RecordRoundTrip

/-! Replacing `Null` columns by null booleans changes no value that is read. -/
namespace FlareDB

open Arrow Results

/-- Whatever a row of one array reads as under its type, the same row of another
array reads as under the other type. -/
structure Keeps (array : ArrayRef) (dataType : DataType) (newArray : ArrayRef)
    (newType : DataType) : Prop where
  length : newArray.len = array.len
  scalar : ∀ row value, row < array.len →
    primitiveValueFromArrayRow array dataType row = .ok value →
      primitiveValueFromArrayRow newArray newType row = .ok value
  nested : ∀ row record, row < array.len →
    nestedValueFromArrayRow array dataType row = .ok record →
      nestedValueFromArrayRow newArray newType row = .ok record
  iterable : ∀ row list, row < array.len →
    iterableValueFromArrayRow array dataType row = .ok list →
      iterableValueFromArrayRow newArray newType row = .ok list

theorem Keeps.refl (array : ArrayRef) (dataType : DataType) : Keeps array dataType array dataType where
  length := rfl
  scalar _ _ _ h := h
  nested _ _ _ h := h
  iterable _ _ _ h := h

/-- Rows are stored wherever each row reads as before. -/
theorem Stores.transport {α : Type} {read : ArrayRef → DataType → Nat → Except RecordError α}
    {array newArray : ArrayRef} {dataType newType : DataType} {rows : List α}
    (h : Stores read array dataType rows) (hLength : newArray.len = array.len)
    (hRead : ∀ row value, row < array.len → read array dataType row = .ok value →
      read newArray newType row = .ok value) :
    Stores read newArray newType rows where
  length := by rw [hLength, h.length]
  reads row value hRow := by
    have hLt : row < array.len := by
      rw [h.length]
      exact (List.getElem?_eq_some_iff.mp hRow).1
    exact hRead row value hLt (h.reads row value hRow)

section Transport

variable {array newArray : ArrayRef} {dataType newType : DataType}
  (hKeeps : Keeps array dataType newArray newType)

include hKeeps

/-- A surrogate that keeps every row keeps scalars stored. -/
theorem Keeps.scalars {rows : List PrimitiveValue}
    (h : Stores primitiveValueFromArrayRow array dataType rows) :
    Stores primitiveValueFromArrayRow newArray newType rows :=
  h.transport hKeeps.length hKeeps.scalar

/-- It keeps records stored. -/
theorem Keeps.records {rows : List BeamRecord}
    (h : Stores nestedValueFromArrayRow array dataType rows) :
    Stores nestedValueFromArrayRow newArray newType rows :=
  h.transport hKeeps.length hKeeps.nested

/-- It keeps lists stored. -/
theorem Keeps.lists {rows : List (List BeamRecord)}
    (h : Stores iterableValueFromArrayRow array dataType rows) :
    Stores iterableValueFromArrayRow newArray newType rows :=
  h.transport hKeeps.length hKeeps.iterable

end Transport

theorem listRow_mono {read newRead : ArrayRef → Nat → Except RecordError BeamRecord}
    {item newItem : Field} {offsets : OffsetBuffer} {values newValues : ArrayRef}
    {nulls : Option (List Bool)} {row : Nat} {list : List BeamRecord}
    (hRead : ∀ index record, index < values.len → read values index = .ok record →
      newRead newValues index = .ok record)
    (hBound : ∀ offset ∈ offsets.offsets, offset ≤ values.len)
    (h : listRow read (.list item offsets values nulls) row = .ok list) :
    listRow newRead (.list newItem offsets newValues nulls) row = .ok list := by
  have hMask : (ArrayRef.list newItem offsets newValues nulls).isNull row =
      (ArrayRef.list item offsets values nulls).isNull row := rfl
  rw [listRow] at h ⊢
  rw [hMask]
  by_cases hNull : (ArrayRef.list item offsets values nulls).isNull row = true
  · rw [if_pos hNull] at h ⊢
    exact h
  · rw [if_neg hNull] at h ⊢
    cases hStart : offsets.offsets[row]? with
    | none => simp [hStart] at h
    | some start =>
        cases hFinish : offsets.offsets[row + 1]? with
        | none => simp [hStart, hFinish] at h
        | some finish =>
            have hLe := hBound finish (List.mem_of_getElem? hFinish)
            simp only [hStart, hFinish, mapM_eq_ok_iff] at h ⊢
            refine forall₂_imp_mem (fun index hIndex record hRecord => ?_) h
            obtain ⟨hFrom, hTo⟩ := List.mem_range'_1.mp hIndex
            exact hRead index record (by omega) hRecord

/-- Booleans that are all masked read as the voids they stand for. -/
theorem leafNull_keeps (array : ArrayRef) :
    Keeps array .null (.leaf .boolean (List.replicate array.len none)) .boolean where
  length := by simp
  scalar row value hRow h := by
    rw [primitiveValueFromArrayRow_null] at h
    cases h
    exact primitiveValueFromArrayRow_of_isNull (by simp [ArrayRef.isNull, hRow]) _
  nested row record hRow h := by
    rw [nestedValueFromArrayRow, primitiveValueFromArrayRow_null] at h
    cases h
    rw [nestedValueFromArrayRow,
      primitiveValueFromArrayRow_of_isNull (by simp [ArrayRef.isNull, hRow])]
    rfl
  iterable row list hRow h := by cases h

/-- A masked row reads as `void` under any type, and no other row of a list or a
struct is a scalar. -/
theorem scalar_of_mask {array newArray : ArrayRef} {dataType newType : DataType} {row : Nat}
    {value : PrimitiveValue} (hMask : newArray.isNull row = array.isNull row)
    (hLeaf : ∀ type, dataType ≠ .leaf type)
    (h : primitiveValueFromArrayRow array dataType row = .ok value) :
    primitiveValueFromArrayRow newArray newType row = .ok value := by
  by_cases hNull : array.isNull row = true
  · rw [primitiveValueFromArrayRow_of_isNull hNull] at h
    cases h
    exact primitiveValueFromArrayRow_of_isNull (hMask.trans hNull) _
  · unfold primitiveValueFromArrayRow at h
    rw [if_neg hNull] at h
    cases dataType with
    | leaf type => exact absurd rfl (hLeaf type)
    | list item => cases h
    | struct fields => cases h

/-- A list column reads as before when its items do. -/
theorem list_keeps {item newItem : Field} {offsets : OffsetBuffer} {values newValues : ArrayRef}
    {nulls : Option (List Bool)} {otherItem : Field}
    (hBound : ∀ offset ∈ offsets.offsets, offset ≤ values.len)
    (hKeeps : Keeps values item.dataType newValues newItem.dataType) :
    Keeps (.list otherItem offsets values nulls) (.list item)
      (.list newItem offsets newValues nulls) (.list newItem) where
  length := rfl
  scalar row value _ h := by
    have hMask : (ArrayRef.list newItem offsets newValues nulls).isNull row =
        (ArrayRef.list otherItem offsets values nulls).isNull row := rfl
    exact scalar_of_mask hMask (by simp) h
  nested row record _ h := by
    rw [nestedValueFromArrayRow] at h ⊢
    obtain ⟨list, hList, hRecord⟩ := bind_eq_ok h
    rw [listRow_mono (fun index record hIndex hRead => hKeeps.nested index record hIndex hRead)
      hBound hList]
    exact hRecord
  iterable row list _ h := by
    rw [iterableValueFromArrayRow] at h ⊢
    exact listRow_mono (fun index record hIndex hRead => hKeeps.nested index record hIndex hRead)
      hBound h

@[simp] theorem materializeVoidField_name (field : Field) :
    (materializeVoidField field).name = field.name := by
  cases field; rfl

@[simp] theorem materializeVoidField_dataType (field : Field) :
    (materializeVoidField field).dataType = materializeVoidType field.dataType := by
  cases field; rfl

theorem materializeVoidFields_eq_map (fields : List Field) :
    materializeVoidFields fields = fields.map materializeVoidField := by
  induction fields with
  | nil => rfl
  | cons field fields ih => rw [materializeVoidFields, List.map_cons, ih]

/-- The struct of a pair is one still under its surrogate. -/
theorem isNestedKvStruct_map (fields : List Field) :
    isNestedKvStruct (fields.map materializeVoidField) = isNestedKvStruct fields := by
  match fields with
  | [] => rfl
  | [_] => rfl
  | [first, second] => simp [isNestedKvStruct]
  | _ :: _ :: _ :: _ => rfl

theorem nestedValueFromArrayRow_tuple {fields : List Field} (h : isNestedKvStruct fields = false)
    (array : ArrayRef) (row : Nat) :
    nestedValueFromArrayRow array (.struct fields) row = tupleRow array fields row := by
  match fields with
  | [] => rfl
  | [_] => rfl
  | [first, second] => rw [nestedValueFromArrayRow, h]; rfl
  | _ :: _ :: _ :: _ => rfl

/-- The children of a struct before and after, field by field. -/
def ChildrenKeep (fields : List Field) (children newChildren : List ArrayRef) : Prop :=
  ∀ (index : Nat) field, fields[index]? = some field → ∃ child newChild,
    children[index]? = some child ∧ newChildren[index]? = some newChild ∧
      Keeps child field.dataType newChild (materializeVoidType field.dataType)

section Struct

variable {fields otherFields : List Field} {children newChildren : List ArrayRef}
  {nulls : Option (List Bool)}

/-- A tuple reads as before when its components do. -/
theorem tupleRow_keeps (hKeep : ChildrenKeep fields children newChildren) {row : Nat}
    (hRow : ∀ newChild ∈ newChildren, row < newChild.len) {record : BeamRecord}
    (h : tupleRow (.struct otherFields children nulls) fields row = .ok record) :
    tupleRow (.struct (fields.map materializeVoidField) newChildren nulls)
      (fields.map materializeVoidField) row = .ok record := by
  obtain ⟨_, hChildren, hRest⟩ := bind_eq_ok h
  cases hChildren
  obtain ⟨values, hValues, hRecord⟩ := bind_eq_ok hRest
  have hCells : ((fields.map materializeVoidField).zipIdx).mapM (tupleCell newChildren row) =
      .ok values := by
    rw [List.zipIdx_map, mapM_eq_ok_iff, List.forall₂_map_left_iff]
    refine forall₂_imp_mem (fun child hChild value hOld => ?_) (mapM_eq_ok_iff.mp hValues)
    obtain ⟨oldChild, newChild, hOldChild, hNewChild, hKeeps⟩ :=
      hKeep child.2 child.1 (List.mk_mem_zipIdx_iff_getElem?.mp hChild)
    have hLt := hRow newChild (List.mem_of_getElem? hNewChild)
    rw [hKeeps.length] at hLt
    rw [tupleCell, childAt, hOldChild] at hOld
    rw [tupleCell, childAt, Prod.map_snd, id_eq, hNewChild]
    show primitiveValueFromArrayRow newChild (materializeVoidField child.1).dataType row = .ok value
    rw [materializeVoidField_dataType]
    exact hKeeps.scalar row value hLt hOld
  simp only [tupleRow, structChildren, hCells, bind, Except.bind]
  exact hRecord

/-- A pair reads as before when its value does. -/
theorem kvRow_keeps {first second : Field} (hKeep : ChildrenKeep [first, second] children newChildren)
    {row : Nat} (hRow : ∀ newChild ∈ newChildren, row < newChild.len) {record : BeamRecord}
    (h : kvRow (fun values index => nestedValueFromArrayRow values second.dataType index)
      (.struct otherFields children nulls) first row = .ok record) :
    kvRow (fun values index =>
        nestedValueFromArrayRow values (materializeVoidType second.dataType) index)
      (.struct fields newChildren nulls) (materializeVoidField first) row = .ok record := by
  obtain ⟨keys, newKeys, hKeys, hNewKeys, hKeepKeys⟩ := hKeep 0 first rfl
  obtain ⟨values, newValues, hValues, hNewValues, hKeepValues⟩ := hKeep 1 second rfl
  have hKeyRow := hRow newKeys (List.mem_of_getElem? hNewKeys)
  have hValueRow := hRow newValues (List.mem_of_getElem? hNewValues)
  rw [hKeepKeys.length] at hKeyRow
  rw [hKeepValues.length] at hValueRow
  simp only [kvRow, structChildren, childAt, hKeys, hValues, bind, Except.bind] at h
  obtain ⟨key, hKey, hRest⟩ := bind_eq_ok h
  obtain ⟨value, hValue, hRecord⟩ := bind_eq_ok hRest
  have hNewKey := hKeepKeys.scalar row key hKeyRow hKey
  have hNewValue := hKeepValues.nested row value hValueRow hValue
  simp only [kvRow, structChildren, childAt, hNewKeys, hNewValues, materializeVoidField_dataType,
    hNewKey, hNewValue, bind, Except.bind]
  exact hRecord

/-- So a struct column reads as before when its children do. -/
theorem struct_keeps (hKeep : ChildrenKeep fields children newChildren)
    {newArray : ArrayRef}
    (hNew : ArrayRef.tryNewStruct (materializeVoidFields fields) newChildren nulls = .ok newArray) :
    Keeps (.struct otherFields children nulls) (.struct fields) newArray
      (.struct (materializeVoidFields fields)) := by
  obtain ⟨rfl, hFits⟩ := ArrayRef.tryNewStruct_eq_ok hNew
  rw [materializeVoidFields_eq_map] at hFits hNew ⊢
  have hLength : (ArrayRef.struct (fields.map materializeVoidField) newChildren nulls).len =
      (ArrayRef.struct otherFields children nulls).len := by
    cases fields with
    | nil =>
        cases hFits
        cases hNew
    | cons field fields =>
        obtain ⟨child, newChild, hChild, hNewChild, hKeeps⟩ := hKeep 0 field rfl
        cases children with
        | nil => cases hChild
        | cons first rest =>
            cases newChildren with
            | nil => cases hNewChild
            | cons newFirst newRest =>
                cases hChild
                cases hNewChild
                exact hKeeps.length
  have hRows : ∀ row, row < (ArrayRef.struct otherFields children nulls).len →
      ∀ newChild ∈ newChildren, row < newChild.len := by
    intro row hRow newChild hMem
    obtain ⟨index, hIndex⟩ := List.mem_iff_getElem?.mp hMem
    obtain ⟨_, -, -, hLen⟩ := forall₂_row hFits.flip hIndex
    rw [hLen, hLength]
    exact hRow
  refine ⟨hLength, ?_, ?_, ?_⟩
  · intro row value _ h
    have hMask : (ArrayRef.struct (fields.map materializeVoidField) newChildren nulls).isNull row =
        (ArrayRef.struct otherFields children nulls).isNull row := rfl
    exact scalar_of_mask hMask (by simp) h
  · intro row record hRow h
    by_cases hKv : isNestedKvStruct fields = true
    · match fields, hKv with
      | [first, second], hKv =>
          rw [nestedValueFromArrayRow, if_pos hKv] at h
          have hNewKv := isNestedKvStruct_map [first, second]
          rw [hKv] at hNewKv
          rw [List.map_cons, List.map_cons, List.map_nil] at hNewKv ⊢
          rw [nestedValueFromArrayRow, if_pos hNewKv, materializeVoidField_dataType]
          exact kvRow_keeps hKeep (hRows row hRow) h
    · rw [Bool.not_eq_true] at hKv
      rw [nestedValueFromArrayRow_tuple hKv] at h
      rw [nestedValueFromArrayRow_tuple (by rw [isNestedKvStruct_map, hKv])]
      exact tupleRow_keeps hKeep (hRows row hRow) h
  · intro row list _ h
    cases h

end Struct

mutual

/-- The surrogate column reads as the column it replaces. -/
theorem materializeVoidArray_keeps : ∀ (dataType : DataType) {array newArray : ArrayRef},
    materializeVoidArray array dataType = .ok newArray →
      Keeps array dataType newArray (materializeVoidType dataType)
  | .leaf .null, array, _, h => by
      cases h
      exact leafNull_keeps array
  | .leaf .boolean, _, _, h | .leaf .int8, _, _, h | .leaf .int16, _, _, h | .leaf .int64, _, _, h
  | .leaf .float64, _, _, h | .leaf .utf8, _, _, h | .leaf .largeUtf8, _, _, h
  | .leaf .utf8View, _, _, h | .leaf .binary, _, _, h | .leaf .largeBinary, _, _, h
  | .leaf .binaryView, _, _, h => by
      cases h
      exact Keeps.refl _ _
  | .list item, array, newArray, h => by
      cases array with
      | leaf type cells => cases h
      | struct fields children nulls => cases h
      | list otherItem offsets values nulls =>
          obtain ⟨newValues, hValues, hNew⟩ := bind_eq_ok h
          have hKeeps := materializeVoidArray_keeps item.dataType hValues
          obtain ⟨rfl, -, hBound⟩ := ArrayRef.newList_eq_ok (mapError_eq_ok hNew)
          rw [hKeeps.length] at hBound
          rw [← materializeVoidField_dataType] at hKeeps
          rw [materializeVoidType]
          exact list_keeps hBound hKeeps
  | .struct fields, array, newArray, h => by
      cases array with
      | leaf type cells => cases h
      | list item offsets values nulls => cases h
      | struct otherFields children nulls =>
          obtain ⟨newChildren, hChildren, hNew⟩ := bind_eq_ok h
          rw [materializeVoidType]
          exact struct_keeps (materializeVoidChildren_keep fields hChildren) (mapError_eq_ok hNew)

theorem materializeVoidChildren_keep : ∀ (fields : List Field) {children newChildren : List ArrayRef},
    materializeVoidChildren children fields = .ok newChildren →
      ChildrenKeep fields children newChildren
  | [], _, _, _ => fun index field hField => by simp at hField
  | field :: fields, [], _, h => by cases h
  | field :: fields, child :: children, newChildren, h => by
      obtain ⟨first, hFirst, hRest⟩ := bind_eq_ok h
      obtain ⟨others, hOthers, hPure⟩ := bind_eq_ok hRest
      cases hPure
      have hKeeps := materializeVoidArray_keeps field.dataType hFirst
      have hRest := materializeVoidChildren_keep fields hOthers
      intro index other hOther
      cases index with
      | zero =>
          cases hOther
          exact ⟨child, first, rfl, rfl, hKeeps⟩
      | succ index => exact hRest index other hOther

end

end FlareDB
