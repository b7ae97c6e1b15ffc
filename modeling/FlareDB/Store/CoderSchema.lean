import FlareDB.Store.CoderTables

/-! When the stored schema depends on the coder alone. It does for the coders
that give all their records one storage type; every other coder has two batches
whose schemas differ, or a batch without a schema. -/
namespace FlareDB

open Arrow Results

/-! What a schema that was derived says about the records. -/

section Derived

variable {pcollectionId : String} {rest : List BeamRecord} {schema : RecordTableSchema}

/-- The check of mixed types passes only on equal types. -/
theorem checkType_eq_ok {part : MixedPart} {expected found : DataType}
    (h : checkType part pcollectionId expected found = .ok ()) : found = expected := by
  rw [checkType] at h
  split at h
  · next hSame => exact hSame
  · cases h

/-- A table of scalars is derived from scalars of one type. -/
theorem derived_primitive {value : PrimitiveValue}
    (h : deriveTableSchema pcollectionId (.primitive value :: rest) = .ok schema)
    {record : BeamRecord} (hMem : record ∈ rest) :
    nestedValueStorageType record = .ok (primitiveDataType value) := by
  obtain ⟨fields, hFields, -⟩ := bind_eq_ok h
  obtain ⟨_, hAll, -⟩ := bind_eq_ok hFields
  have hCheck := forM_eq_ok_iff.mp hAll record (List.mem_cons_of_mem _ hMem)
  cases record with
  | primitive found =>
      rw [nestedValueStorageType, checkType_eq_ok hCheck]
  | iterable _ => cases hCheck
  | kv _ _ => cases hCheck
  | gbk _ _ => cases hCheck
  | tuple _ => cases hCheck

/-- A table of tuples is derived from tuples of one type. -/
theorem derived_tuple {values : List PrimitiveValue}
    (h : deriveTableSchema pcollectionId (.tuple values :: rest) = .ok schema)
    {record : BeamRecord} (hMem : record ∈ rest) :
    nestedValueStorageType record = .ok (tupleStorageType values) := by
  obtain ⟨fields, hFields, -⟩ := bind_eq_ok h
  obtain ⟨_, hAll, -⟩ := bind_eq_ok hFields
  have hCheck := forM_eq_ok_iff.mp hAll record (List.mem_cons_of_mem _ hMem)
  cases record with
  | tuple found => rw [nestedValueStorageType, checkType_eq_ok hCheck]
  | primitive _ => cases hCheck
  | iterable _ => cases hCheck
  | kv _ _ => cases hCheck
  | gbk _ _ => cases hCheck

/-- A keyed table takes its value type from its first record. -/
theorem derived_kv {key : PrimitiveValue} {value : BeamRecord}
    (h : deriveTableSchema pcollectionId (.kv key value :: rest) = .ok schema) :
    ∃ valueType, nestedValueStorageType value = .ok valueType ∧
      ∀ other found, .kv other found ∈ rest → primitiveDataType other = primitiveDataType key ∧
        nestedValueStorageType found = .ok valueType := by
  obtain ⟨fields, hFields, -⟩ := bind_eq_ok h
  obtain ⟨valueType, hValue, hRest⟩ := bind_eq_ok hFields
  obtain ⟨_, hAll, -⟩ := bind_eq_ok hRest
  refine ⟨valueType, hValue, fun other found hMem => ?_⟩
  have hCheck := forM_eq_ok_iff.mp hAll _ (List.mem_cons_of_mem _ hMem)
  obtain ⟨_, hKey, hCheck⟩ := bind_eq_ok hCheck
  obtain ⟨actual, hActual, hCheck⟩ := bind_eq_ok hCheck
  rw [checkType_eq_ok hCheck] at hActual
  exact ⟨checkType_eq_ok hKey, hActual⟩

/-- A grouped table has keys of one type. -/
theorem derived_gbk {key : PrimitiveValue} {list : List BeamRecord}
    (h : deriveTableSchema pcollectionId (.gbk key list :: rest) = .ok schema)
    {other : PrimitiveValue} {found : List BeamRecord} (hMem : .gbk other found ∈ rest) :
    primitiveDataType other = primitiveDataType key := by
  obtain ⟨fields, hFields, -⟩ := bind_eq_ok h
  obtain ⟨values, hValues, -⟩ := bind_eq_ok hFields
  obtain ⟨_, -, hCheck⟩ := forall₂_left (mapM_eq_ok_iff.mp hValues) (List.mem_cons_of_mem _ hMem)
  obtain ⟨_, hKey, -⟩ := bind_eq_ok hCheck
  exact checkType_eq_ok hKey

/-- The item type of one list that is a batch. -/
theorem derived_iterable {list : List BeamRecord}
    (h : deriveTableSchema pcollectionId [.iterable list] = .ok schema) :
    ∃ itemType, inferIterableItemDataType [list] = .ok itemType ∧
      schema.arrowSchema = [⟨valueColumn, .list (itemField itemType), true⟩] := by
  obtain ⟨fields, hFields, hPure⟩ := bind_eq_ok h
  cases hPure
  obtain ⟨iterables, hLists, hRest⟩ := bind_eq_ok hFields
  cases hLists
  obtain ⟨itemType, hInfer, hRest⟩ := bind_eq_ok hRest
  obtain ⟨_, -, hPure⟩ := bind_eq_ok hRest
  cases hPure
  exact ⟨itemType, hInfer, rfl⟩

/-- It takes its item type from the first item there is. -/
theorem derived_gbk_list {key : PrimitiveValue} {list : List BeamRecord}
    (h : deriveTableSchema pcollectionId [.gbk key list] = .ok schema) :
    ∃ itemType, inferIterableItemDataType [list] = .ok itemType ∧
      schema.arrowSchema = [⟨keyColumn, primitiveDataType key, false⟩,
        ⟨valueColumn, .list (itemField itemType), true⟩] := by
  obtain ⟨fields, hFields, hPure⟩ := bind_eq_ok h
  cases hPure
  obtain ⟨values, hValues, hRest⟩ := bind_eq_ok hFields
  have hSame : values = [list] := by
    cases mapM_eq_ok_iff.mp hValues with
    | cons hHead hTail =>
        cases hTail
        obtain ⟨_, -, hPure⟩ := bind_eq_ok hHead
        cases hPure
        rfl
  obtain ⟨itemType, hInfer, hRest⟩ := bind_eq_ok hRest
  obtain ⟨_, -, hPure⟩ := bind_eq_ok hRest
  cases hPure
  rw [hSame] at hInfer
  exact ⟨itemType, hInfer, rfl⟩

theorem materializeVoidType_eq_binary {dataType : DataType}
    (h : materializeVoidType dataType = .binary) : dataType = .binary := by
  cases dataType with
  | leaf type => cases type <;> first
    | rfl
    | cases h
  | list item => cases h
  | struct fields => cases h

end Derived

namespace StandardBeamCoders

/-- The types of the key column. -/
def keyColumnTypes : StandardBeamCoders → List DataType
  | .kv keyCoder _ | .gbk keyCoder _ => keyCoder.keyTypes
  | _ => []

/-- The types of the value column. -/
def valueColumnTypes : StandardBeamCoders → List (Option DataType)
  | .kv _ valueCoder => valueCoder.storageTypes
  | .gbk _ elementCoder => (iterable elementCoder).storageTypes
  | coder => coder.storageTypes

/-- Nothing but one type, which can be stored. -/
def sameTypes : List (Option DataType) → Bool
  | [] => true
  | first :: rest => first.isSome && rest.all (· == first)

/-- Every record that decodes from the coder has the same column types. -/
def uniformSchema (coder : StandardBeamCoders) : Bool :=
  coder.storageTypes.isEmpty ||
    (sameTypes (coder.keyColumnTypes.map some) && sameTypes coder.valueColumnTypes)

theorem sameTypes_spec {types : List (Option DataType)} (h : sameTypes types = true)
    {found : Option DataType} (hMem : found ∈ types) :
    ∃ dataType, ∀ other ∈ types, other = some dataType := by
  cases types with
  | nil => cases hMem
  | cons first rest =>
      rw [sameTypes, Bool.and_eq_true, List.all_eq_true] at h
      obtain ⟨dataType, rfl⟩ := Option.isSome_iff_exists.mp h.1
      refine ⟨dataType, fun other hOther => ?_⟩
      rcases List.mem_cons.mp hOther with rfl | hRest
      · rfl
      · exact beq_iff_eq.mp (h.2 other hRest)

/-- Types that are not all the same have a witness: one missing, or two that differ. -/
theorem not_sameTypes {types : List (Option DataType)} (h : sameTypes types = false) :
    none ∈ types ∨ ∃ first second, some first ∈ types ∧ some second ∈ types ∧ first ≠ second := by
  cases types with
  | nil => cases h
  | cons first rest =>
      cases first with
      | none => exact .inl List.mem_cons_self
      | some first =>
          rw [sameTypes, Option.isSome_some, Bool.true_and, List.all_eq_false] at h
          obtain ⟨other, hOther, hNe⟩ := h
          cases other with
          | none => exact .inl (List.mem_cons_of_mem _ hOther)
          | some other =>
              refine .inr ⟨first, other, List.mem_cons_self, List.mem_cons_of_mem _ hOther, ?_⟩
              rintro rfl
              exact hNe (by simp)

/-! Coders with one type. -/

/-- Every batch of the coder has the table, with these column types. -/
structure OneTable (coder : StandardBeamCoders) (tableType : TableType)
    (keyType valueType : DataType) : Prop where
  column : some valueType ∈ coder.valueColumnTypes
  only : ∀ found ∈ coder.valueColumnTypes, found = some valueType
  tables : ∀ records, records ≠ [] → (∀ record ∈ records, coder.Yields record) →
    UniformTable tableType keyType valueType records

/-- A coder of unkeyed records whose storage types agree writes one table. -/
theorem oneTable_unkeyed {coder : StandardBeamCoders} {tableType : TableType}
    (hColumn : coder.valueColumnTypes = coder.storageTypes)
    (hSame : sameTypes coder.storageTypes = true) {record : BeamRecord}
    (hYields : coder.Yields record)
    (hShapes : ∀ valueType, (∀ found ∈ coder.storageTypes, found = some valueType) →
      (∀ other, coder.Yields other → tableTypeOf other = tableType) ∧
        (tableType = .iterable → valueType = .list (itemField .binary)))
    (hKeyed : tableType ≠ .kv ∧ tableType ≠ .gbk) :
    ∃ keyType valueType, coder.OneTable tableType keyType valueType := by
  have hMem := mem_storageTypes coder hYields
  obtain ⟨valueType, hAll⟩ := sameTypes_spec hSame hMem
  obtain ⟨hShape, hItems⟩ := hShapes valueType hAll
  have hPlain : ∀ other, coder.Yields other → valueOf other = other ∧ other.getKey = none := by
    intro other hOther
    have hType := hShape other hOther
    cases other with
    | kv _ _ => exact absurd hType.symm hKeyed.1
    | gbk _ _ => exact absurd hType.symm hKeyed.2
    | primitive _ => exact ⟨rfl, rfl⟩
    | iterable _ => exact ⟨rfl, rfl⟩
    | tuple _ => exact ⟨rfl, rfl⟩
  refine ⟨.null, valueType, ?_, ?_, fun records hNonempty hDecode => ?_⟩
  · rw [hColumn, ← hAll _ hMem]
    exact hMem
  · rwa [hColumn]
  · refine ⟨hNonempty, fun other hOther => hShape other (hDecode other hOther), ?_, ?_, ?_, ?_⟩
    · intro other hOther key hKey
      rw [(hPlain other (hDecode other hOther)).2] at hKey
      cases hKey
    · intro other hOther
      rw [(hPlain other (hDecode other hOther)).1]
      exact (conforms_of_types hAll (hDecode other hOther)).1
    · intro other hOther
      rw [(hPlain other (hDecode other hOther)).1]
      exact (conforms_of_types hAll (hDecode other hOther)).2
    · exact fun hLists => hItems (hLists.resolve_right hKeyed.2)

/-- The key types of a keyed coder, all one. -/
theorem keyType_of_same {coder : StandardBeamCoders}
    (hSame : sameTypes (coder.keyTypes.map some) = true) {key other : PrimitiveValue}
    (hKey : coder.YieldsKey key) (hOther : coder.YieldsKey other) :
    primitiveDataType other = primitiveDataType key := by
  obtain ⟨keyType, hAll⟩ := sameTypes_spec hSame (List.mem_map_of_mem (mem_keyTypes hKey))
  have hFirst := hAll _ (List.mem_map_of_mem (mem_keyTypes hKey))
  have hSecond := hAll _ (List.mem_map_of_mem (mem_keyTypes hOther))
  exact Option.some.inj (hSecond.trans hFirst.symm)

/-- So does a coder of pairs whose keys and values agree. -/
theorem oneTable_kv {keyCoder valueCoder : StandardBeamCoders}
    (hKeys : sameTypes (keyCoder.keyTypes.map some) = true)
    (hValues : sameTypes valueCoder.storageTypes = true) {record : BeamRecord}
    (hYields : (kv keyCoder valueCoder).Yields record) :
    ∃ keyType valueType, (kv keyCoder valueCoder).OneTable .kv keyType valueType := by
  obtain ⟨key, value, rfl, hKey, hValue⟩ := yields_kv hYields
  have hMem := mem_storageTypes valueCoder hValue
  obtain ⟨valueType, hAll⟩ := sameTypes_spec hValues hMem
  refine ⟨primitiveDataType key, valueType, ?_, hAll, fun records hNonempty hDecode => ?_⟩
  · have hFirst := hAll _ hMem
    rw [hFirst] at hMem
    exact hMem
  refine ⟨hNonempty, ?_, ?_, ?_, ?_, by rintro (h | h) <;> cases h⟩
  · intro other hOther
    obtain ⟨_, _, rfl, -, -⟩ := yields_kv (hDecode other hOther)
    rfl
  · intro other hOther found hFound
    obtain ⟨otherKey, _, rfl, hOtherKey, -⟩ := yields_kv (hDecode other hOther)
    cases hFound
    exact keyType_of_same hKeys hKey hOtherKey
  · intro other hOther
    obtain ⟨_, _, rfl, -, hOtherValue⟩ := yields_kv (hDecode other hOther)
    exact (conforms_of_types hAll hOtherValue).1
  · intro other hOther
    obtain ⟨_, _, rfl, -, hOtherValue⟩ := yields_kv (hDecode other hOther)
    exact (conforms_of_types hAll hOtherValue).2

/-- So does a coder of groups. -/
theorem oneTable_gbk {keyCoder elementCoder : StandardBeamCoders}
    (hKeys : sameTypes (keyCoder.keyTypes.map some) = true)
    (hValues : sameTypes (iterable elementCoder).storageTypes = true) {record : BeamRecord}
    (hYields : (gbk keyCoder elementCoder).Yields record) :
    ∃ keyType valueType, (gbk keyCoder elementCoder).OneTable .gbk keyType valueType := by
  obtain ⟨key, list, rfl, hKey, -⟩ := yields_gbk hYields
  have hMem : some (.list (itemField .binary)) ∈ (iterable elementCoder).storageTypes :=
    List.mem_cons_self
  obtain ⟨valueType, hAll⟩ := sameTypes_spec hValues hMem
  cases hAll _ hMem
  refine ⟨primitiveDataType key, _, hMem, hAll, fun records hNonempty hDecode => ?_⟩
  refine ⟨hNonempty, ?_, ?_, ?_, ?_, fun _ => rfl⟩
  · intro other hOther
    obtain ⟨_, _, rfl, -, -⟩ := yields_gbk (hDecode other hOther)
    rfl
  · intro other hOther found hFound
    obtain ⟨otherKey, _, rfl, hOtherKey, -⟩ := yields_gbk (hDecode other hOther)
    cases hFound
    exact keyType_of_same hKeys hKey hOtherKey
  · intro other hOther
    obtain ⟨_, _, rfl, -, hList⟩ := yields_gbk (hDecode other hOther)
    exact (conforms_of_types hAll hList).1
  · intro other hOther
    obtain ⟨_, _, rfl, -, hList⟩ := yields_gbk (hDecode other hOther)
    exact (conforms_of_types hAll hList).2

/-- A coder with one type for each column has one table. -/
theorem exists_oneTable : ∀ {coder : StandardBeamCoders} {record : BeamRecord},
    coder.uniformSchema = true → coder.Yields record →
      ∃ tableType keyType valueType, coder.OneTable tableType keyType valueType := by
  intro coder record h hYields
  have hMem := mem_storageTypes coder hYields
  have hNe : coder.storageTypes.isEmpty = false :=
    List.isEmpty_eq_false_iff.mpr (List.ne_nil_of_mem hMem)
  rw [uniformSchema, hNe, Bool.false_or, Bool.and_eq_true] at h
  have hPrimitive : coder.isPrimitive = true → coder.valueColumnTypes = coder.storageTypes →
      ∃ tableType keyType valueType, coder.OneTable tableType keyType valueType := by
    intro hScalar hColumn
    rw [hColumn] at h
    refine ⟨.primitive, oneTable_unkeyed hColumn h.2 hYields (fun _ _ => ⟨?_, ?_⟩)
      ⟨by decide, by decide⟩⟩
    · intro other hOther
      obtain ⟨value, rfl⟩ := yields_primitive coder hScalar hOther
      rfl
    · rintro ⟨⟩
  cases coder with
  | stringUtf8 => exact hPrimitive rfl rfl
  | bytes => exact hPrimitive rfl rfl
  | javaOpaque => exact hPrimitive rfl rfl
  | varInt => exact hPrimitive rfl rfl
  | varInt32 => exact hPrimitive rfl rfl
  | bool => exact hPrimitive rfl rfl
  | double => exact hPrimitive rfl rfl
  | void => exact hPrimitive rfl rfl
  | lengthPrefix => exact hPrimitive rfl rfl
  | pickle => exact hPrimitive rfl rfl
  | nullable valueCoder =>
      refine ⟨.primitive, oneTable_unkeyed rfl h.2 hYields (fun valueType hAll => ⟨?_, ?_⟩)
        ⟨by decide, by decide⟩⟩
      · intro other hOther
        have hNull : some DataType.null = some valueType := hAll _ List.mem_cons_self
        cases hNull
        rw [primitive_of_null (conforms_of_types hAll hOther).1]
        rfl
      · rintro ⟨⟩
  | iterable elementCoder =>
      refine ⟨.iterable, oneTable_unkeyed rfl h.2 hYields (fun valueType hAll => ⟨?_, ?_⟩)
        ⟨by decide, by decide⟩⟩
      · intro other hOther
        obtain ⟨list, rfl, -⟩ := yields_iterable hOther
        rfl
      · intro _
        have hEmpty : some (DataType.list (itemField .binary)) = some valueType :=
          hAll _ List.mem_cons_self
        exact (Option.some.inj hEmpty).symm
  | tuple componentCoders =>
      refine ⟨.tuple, oneTable_unkeyed rfl h.2 hYields (fun _ _ => ⟨?_, ?_⟩)
        ⟨by decide, by decide⟩⟩
      · intro other hOther
        obtain ⟨values, rfl, -⟩ := yields_tuple hOther
        rfl
      · rintro ⟨⟩
  | kv keyCoder valueCoder => exact ⟨.kv, oneTable_kv h.1 h.2 hYields⟩
  | gbk keyCoder elementCoder => exact ⟨.gbk, oneTable_gbk h.1 h.2 hYields⟩

end StandardBeamCoders

/-- Both batches have a schema, and it is the same with the surrogates in. -/
def SameDerived (pcollectionId : String) (first second : List BeamRecord) : Prop :=
  ∃ derived other, deriveTableSchema pcollectionId first = .ok derived ∧
    deriveTableSchema pcollectionId second = .ok other ∧
    materializeVoidSchema derived.arrowSchema = materializeVoidSchema other.arrowSchema

namespace StandardBeamCoders

/-! Coders with several types. -/

/-- Two batches of the coder have no schema in common, under any name. -/
def Disagrees (coder : StandardBeamCoders) : Prop :=
  ∃ first second, first ≠ [] ∧ second ≠ [] ∧ (∀ record ∈ first, coder.Yields record) ∧
    (∀ record ∈ second, coder.Yields record) ∧
    ∀ pcollectionId, ¬ SameDerived pcollectionId first second

/-- Bundles without a common schema disagree. -/
theorem disagrees_of_underivable {coder : StandardBeamCoders} {first : BeamRecord}
    (rest : List BeamRecord) (hFirst : coder.Frames first)
    (hRest : ∀ record ∈ rest, coder.Frames record)
    (h : ∀ pcollectionId schema, deriveTableSchema pcollectionId (first :: rest) ≠ .ok schema) :
    coder.Disagrees := by
  have hYields : ∀ record ∈ first :: rest, coder.Yields record := by
    intro record hMem
    rcases List.mem_cons.mp hMem with rfl | hMem
    · exact hFirst.yields
    · exact (hRest record hMem).yields
  refine ⟨first :: rest, first :: rest, List.cons_ne_nil _ _, List.cons_ne_nil _ _, hYields, hYields,
    ?_⟩
  rintro pcollectionId ⟨derived, -, hDerived, -⟩
  exact h pcollectionId derived hDerived

theorem toOption_of_ok {record : BeamRecord} {dataType : DataType}
    (h : nestedValueStorageType record = .ok dataType) :
    (nestedValueStorageType record).toOption = some dataType := by
  rw [h]
  rfl

theorem ok_of_toOption {record : BeamRecord} {dataType : DataType}
    (h : (nestedValueStorageType record).toOption = some dataType) :
    nestedValueStorageType record = .ok dataType := by
  cases hType : nestedValueStorageType record with
  | error message =>
      rw [hType] at h
      cases h
  | ok found =>
      rw [hType] at h
      cases h
      rfl

/-- Some type of the list is another one than this. -/
theorem exists_other {types : List (Option DataType)} (h : sameTypes types = false)
    (dataType : DataType) : ∃ found ∈ types, found ≠ some dataType := by
  rcases not_sameTypes h with hNone | ⟨first, second, hFirst, hSecond, hNe⟩
  · exact ⟨none, hNone, nofun⟩
  · by_cases hSame : first = dataType
    · refine ⟨some second, hSecond, fun hEq => hNe ?_⟩
      rw [hSame, Option.some.inj hEq]
    · exact ⟨some first, hFirst, fun hEq => hSame (Option.some.inj hEq)⟩

/-- A nullable coder with two storage types has two bundles without a common schema. -/
theorem disagrees_nullable {valueCoder : StandardBeamCoders}
    (hOpaque : (nullable valueCoder).noJavaOpaque = true)
    (h : sameTypes (nullable valueCoder).storageTypes = false) :
    (nullable valueCoder).Disagrees := by
  obtain ⟨found, hFound, hNe⟩ := exists_other h .null
  obtain ⟨record, hRecord, rfl⟩ := exists_of_mem_storageTypes _ hOpaque hFound
  refine disagrees_of_underivable [record] (frames_void valueCoder) (fun other hMem => ?_)
    fun pcollectionId schema hDerived => ?_
  · rw [List.mem_singleton.mp hMem]
    exact hRecord
  · exact hNe (toOption_of_ok (derived_primitive hDerived List.mem_cons_self))

/-- So has a tuple coder. -/
theorem disagrees_tuple {componentCoders : List StandardBeamCoders}
    (hOpaque : (tuple componentCoders).noJavaOpaque = true)
    (h : sameTypes (tuple componentCoders).storageTypes = false) :
    (tuple componentCoders).Disagrees := by
  have hSome : ∀ found ∈ (tuple componentCoders).storageTypes, found ≠ none := by
    intro found hFound
    obtain ⟨_, -, rfl⟩ := List.mem_map.mp hFound
    exact Option.some_ne_none _
  rcases not_sameTypes h with hNone | ⟨first, second, hFirst, hSecond, hNe⟩
  · exact absurd rfl (hSome none hNone)
  · obtain ⟨record, hRecord, hType⟩ := exists_of_mem_storageTypes _ hOpaque hFirst
    obtain ⟨other, hOther, hOtherType⟩ := exists_of_mem_storageTypes _ hOpaque hSecond
    obtain ⟨values, rfl, -⟩ := yields_tuple hRecord.yields
    refine disagrees_of_underivable [other] hRecord (fun found hMem => ?_)
      fun pcollectionId schema hDerived => ?_
    · rw [List.mem_singleton.mp hMem]
      exact hOther
    · have hSame := derived_tuple hDerived List.mem_cons_self
      have hOwn : nestedValueStorageType (.tuple values) = .ok (tupleStorageType values) := rfl
      rw [ok_of_toOption hOtherType] at hSame
      rw [ok_of_toOption hType] at hOwn
      exact hNe (Except.ok.inj (hOwn.trans hSame.symm))

/-- The item type that a list of at most one element is given. -/
theorem itemType_of_element {record : BeamRecord} {itemType : DataType}
    (h : inferIterableItemDataType [[record]] = .ok itemType) :
    (nestedValueStorageType record).toOption.map
      (fun dataType => .list (itemField (componentType dataType))) =
        some (DataType.list (itemField itemType)) := by
  rw [inferIterableItemDataType, iterableElementDataType] at h
  cases hType : nestedValueStorageType record with
  | error message =>
      rw [hType] at h
      cases h
  | ok dataType =>
      rw [hType] at h
      cases h
      rfl

/-- Lists of other things than bytes: an element whose list is not one of bytes. -/
theorem exists_element {elementCoder : StandardBeamCoders}
    (hOpaque : elementCoder.noJavaOpaque = true)
    (h : sameTypes (iterable elementCoder).storageTypes = false) :
    ∃ record, elementCoder.Frames record ∧
      inferIterableItemDataType [[record]] ≠ .ok .binary := by
  obtain ⟨found, hFound, hNe⟩ := exists_other h (.list (itemField .binary))
  rcases List.mem_cons.mp hFound with rfl | hElement
  · exact absurd rfl hNe
  · obtain ⟨elementType, hType, rfl⟩ := List.mem_map.mp hElement
    obtain ⟨record, hRecord, rfl⟩ := exists_of_mem_storageTypes elementCoder hOpaque hType
    exact ⟨record, hRecord, fun hInfer => hNe (itemType_of_element hInfer)⟩

theorem binary_of_materialized {itemType : DataType} {name : String}
    (h : materializeVoidField ⟨name, .list (itemField .binary), true⟩ =
      materializeVoidField ⟨name, .list (itemField itemType), true⟩) : itemType = .binary := by
  have hList : DataType.list (materializeVoidField (itemField .binary)) =
      .list (materializeVoidField (itemField itemType)) := congrArg FieldOf.dataType h
  have hItem := congrArg FieldOf.dataType (DataType.list.inj hList)
  rw [materializeVoidField_dataType, materializeVoidField_dataType] at hItem
  exact materializeVoidType_eq_binary hItem.symm

/-- So has an iterable coder. -/
theorem disagrees_iterable {elementCoder : StandardBeamCoders}
    (hOpaque : elementCoder.noJavaOpaque = true)
    (h : sameTypes (iterable elementCoder).storageTypes = false) :
    (iterable elementCoder).Disagrees := by
  obtain ⟨record, hRecord, hInfer⟩ := exists_element hOpaque h
  have hEmpty := @frames_iterable elementCoder none (fun _ hMem => by cases hMem)
  have hOne := @frames_iterable elementCoder (some record) (fun other hMem => by
    cases hMem
    exact hRecord)
  refine ⟨[.iterable []], [.iterable [record]], List.cons_ne_nil _ _, List.cons_ne_nil _ _,
    fun other hMem => ?_, fun other hMem => ?_, ?_⟩
  · rw [List.mem_singleton.mp hMem]
    exact hEmpty.yields
  · rw [List.mem_singleton.mp hMem]
    exact hOne.yields
  · rintro pcollectionId ⟨derived, other, hDerived, hOther, hSame⟩
    obtain ⟨emptyType, hEmptyType, hEmptySchema⟩ := derived_iterable hDerived
    obtain ⟨itemType, hItemType, hSchema⟩ := derived_iterable hOther
    cases hEmptyType
    rw [hEmptySchema, hSchema] at hSame
    have hField := (List.cons.inj hSame).1
    rw [binary_of_materialized hField] at hItemType
    exact hInfer hItemType

/-- Two keys of different types. -/
theorem exists_keys {keyCoder : StandardBeamCoders} (hOpaque : keyCoder.noJavaOpaque = true)
    (h : sameTypes (keyCoder.keyTypes.map some) = false) :
    ∃ key other, keyCoder.FramesKey key ∧ keyCoder.FramesKey other ∧
      primitiveDataType other ≠ primitiveDataType key := by
  rcases not_sameTypes h with hNone | ⟨first, second, hFirst, hSecond, hNe⟩
  · obtain ⟨_, -, hSome⟩ := List.mem_map.mp hNone
    cases hSome
  · rw [List.mem_map_of_injective (Option.some_injective _)] at hFirst hSecond
    obtain ⟨key, hKey, rfl⟩ := exists_of_mem_keyTypes hOpaque hFirst
    obtain ⟨other, hOther, rfl⟩ := exists_of_mem_keyTypes hOpaque hSecond
    exact ⟨key, other, hKey, hOther, hNe.symm⟩

/-- So has a coder of pairs whose keys or values do not agree. -/
theorem disagrees_kv {keyCoder valueCoder : StandardBeamCoders}
    (hKeyOpaque : keyCoder.noJavaOpaque = true) (hValueOpaque : valueCoder.noJavaOpaque = true)
    {key : PrimitiveValue} (hKey : keyCoder.FramesKey key) {value : BeamRecord}
    (hValue : valueCoder.Frames value)
    (h : sameTypes (keyCoder.keyTypes.map some) = false ∨
      sameTypes valueCoder.storageTypes = false) : (kv keyCoder valueCoder).Disagrees := by
  rcases h with hKeys | hValues
  · obtain ⟨first, second, hFirst, hSecond, hNe⟩ := exists_keys hKeyOpaque hKeys
    refine disagrees_of_underivable [.kv second value] (frames_kv hFirst hValue)
      (fun other hMem => ?_) fun pcollectionId schema hDerived => ?_
    · rw [List.mem_singleton.mp hMem]
      exact frames_kv hSecond hValue
    · obtain ⟨valueType, -, hRest⟩ := derived_kv hDerived
      exact hNe (hRest second value List.mem_cons_self).1
  · cases hType : nestedValueStorageType value with
    | error message =>
        refine disagrees_of_underivable [] (frames_kv hKey hValue) (fun _ hMem => by cases hMem)
          fun pcollectionId schema hDerived => ?_
        obtain ⟨valueType, hOk, -⟩ := derived_kv hDerived
        rw [hType] at hOk
        cases hOk
    | ok dataType =>
        obtain ⟨found, hFound, hNe⟩ := exists_other hValues dataType
        obtain ⟨second, hSecond, rfl⟩ := exists_of_mem_storageTypes valueCoder hValueOpaque hFound
        refine disagrees_of_underivable [.kv key second] (frames_kv hKey hValue)
          (fun other hMem => ?_) fun pcollectionId schema hDerived => ?_
        · rw [List.mem_singleton.mp hMem]
          exact frames_kv hKey hSecond
        · obtain ⟨valueType, hOk, hRest⟩ := derived_kv hDerived
          cases hType.symm.trans hOk
          exact hNe (toOption_of_ok (hRest key second List.mem_cons_self).2)

/-- So has a coder of groups. -/
theorem disagrees_gbk {keyCoder elementCoder : StandardBeamCoders}
    (hKeyOpaque : keyCoder.noJavaOpaque = true) (hElementOpaque : elementCoder.noJavaOpaque = true)
    {key : PrimitiveValue} (hKey : keyCoder.FramesKey key)
    (h : sameTypes (keyCoder.keyTypes.map some) = false ∨
      sameTypes (iterable elementCoder).storageTypes = false) :
    (gbk keyCoder elementCoder).Disagrees := by
  have hEmpty : ∀ {found : PrimitiveValue}, keyCoder.FramesKey found →
      (gbk keyCoder elementCoder).Frames (.gbk found []) := fun hFound =>
    @frames_gbk keyCoder elementCoder _ none hFound (fun _ hMem => by cases hMem)
  rcases h with hKeys | hValues
  · obtain ⟨first, second, hFirst, hSecond, hNe⟩ := exists_keys hKeyOpaque hKeys
    refine disagrees_of_underivable [.gbk second []] (hEmpty hFirst) (fun other hMem => ?_)
      fun pcollectionId schema hDerived => hNe (derived_gbk hDerived List.mem_cons_self)
    rw [List.mem_singleton.mp hMem]
    exact hEmpty hSecond
  · obtain ⟨record, hRecord, hInfer⟩ := exists_element hElementOpaque hValues
    have hOne := @frames_gbk keyCoder elementCoder key (some record) hKey (fun other hMem => by
      cases hMem
      exact hRecord)
    refine ⟨[.gbk key []], [.gbk key [record]], List.cons_ne_nil _ _, List.cons_ne_nil _ _,
      fun other hMem => ?_, fun other hMem => ?_, ?_⟩
    · rw [List.mem_singleton.mp hMem]
      exact (hEmpty hKey).yields
    · rw [List.mem_singleton.mp hMem]
      exact hOne.yields
    · rintro pcollectionId ⟨derived, other, hDerived, hOther, hSame⟩
      obtain ⟨emptyType, hEmptyType, hEmptySchema⟩ := derived_gbk_list hDerived
      obtain ⟨itemType, hItemType, hSchema⟩ := derived_gbk_list hOther
      cases hEmptyType
      rw [hEmptySchema, hSchema] at hSame
      have hField := (List.cons.inj (List.cons.inj hSame).2).1
      rw [binary_of_materialized hField] at hItemType
      exact hInfer hItemType

/-- A coder whose column types vary has two batches without a common schema. -/
theorem disagrees_of_not_uniform {coder : StandardBeamCoders} (hOpaque : coder.noJavaOpaque = true)
    (h : coder.uniformSchema = false) : coder.Disagrees := by
  rw [uniformSchema, Bool.or_eq_false_iff, Bool.and_eq_false_iff] at h
  obtain ⟨hNe, hTypes⟩ := h
  cases coder with
  | nullable valueCoder => exact disagrees_nullable hOpaque (hTypes.resolve_left (Ne.symm Bool.false_ne_true))
  | tuple componentCoders => exact disagrees_tuple hOpaque (hTypes.resolve_left (Ne.symm Bool.false_ne_true))
  | iterable elementCoder =>
      rw [noJavaOpaque] at hOpaque
      exact disagrees_iterable hOpaque (hTypes.resolve_left (Ne.symm Bool.false_ne_true))
  | kv keyCoder valueCoder =>
      rw [noJavaOpaque, Bool.and_eq_true] at hOpaque
      obtain ⟨found, hFound⟩ := List.exists_mem_of_ne_nil _ (List.isEmpty_eq_false_iff.mp hNe)
      obtain ⟨keyType, hKeyType, hValues⟩ := List.mem_flatMap.mp hFound
      obtain ⟨valueType, hValueType, -⟩ := List.mem_map.mp hValues
      obtain ⟨key, hKey, -⟩ := exists_of_mem_keyTypes hOpaque.1 hKeyType
      obtain ⟨value, hValue, -⟩ := exists_of_mem_storageTypes valueCoder hOpaque.2 hValueType
      exact disagrees_kv hOpaque.1 hOpaque.2 hKey hValue hTypes
  | gbk keyCoder elementCoder =>
      rw [noJavaOpaque, Bool.and_eq_true] at hOpaque
      obtain ⟨found, hFound⟩ := List.exists_mem_of_ne_nil _ (List.isEmpty_eq_false_iff.mp hNe)
      obtain ⟨keyType, hKeyType, -⟩ := List.mem_map.mp hFound
      obtain ⟨key, hKey, -⟩ := exists_of_mem_keyTypes hOpaque.1 hKeyType
      exact disagrees_gbk hOpaque.1 hOpaque.2 hKey hTypes
  | javaOpaque => cases hOpaque
  | stringUtf8 => rcases hTypes with h | h <;> cases h
  | bytes => rcases hTypes with h | h <;> cases h
  | varInt => rcases hTypes with h | h <;> cases h
  | varInt32 => rcases hTypes with h | h <;> cases h
  | bool => rcases hTypes with h | h <;> cases h
  | double => rcases hTypes with h | h <;> cases h
  | void => rcases hTypes with h | h <;> cases h
  | lengthPrefix => rcases hTypes with h | h <;> cases h
  | pickle => rcases hTypes with h | h <;> cases h

end StandardBeamCoders

/-- Both batches are built, and with the same schema. -/
def SameBuilt (pcollectionId : String) (first second : List WindowedValue) : Prop :=
  ∃ built other, buildWindowedBatch pcollectionId first = .ok built ∧
    buildWindowedBatch pcollectionId second = .ok other ∧
    built.2.arrowSchema = other.2.arrowSchema

namespace StandardBeamCoders

/-- The records of the batch decode from the coder. -/
def DecodesTo (coder : StandardBeamCoders) (values : List WindowedValue) : Prop :=
  ∀ value ∈ values, coder.Yields value.value

/-- The batch keeps to the size limits of its columns. -/
def Fits (coder : StandardBeamCoders) (values : List WindowedValue) : Prop :=
  (∀ valueType, some valueType ∈ coder.valueColumnTypes →
    tableFits valueType (values.map WindowedValue.value)) ∧
    WindowsFit (values.map WindowMetadata.ofValue)

theorem DecodesTo.records {coder : StandardBeamCoders} {values : List WindowedValue}
    (h : coder.DecodesTo values) :
    ∀ record ∈ values.map WindowedValue.value, coder.Yields record := by
  intro record hMem
  obtain ⟨value, hValue, rfl⟩ := List.mem_map.mp hMem
  exact h value hValue

/-- A bundle of one table is stored exactly when its cells fit. -/
theorem OneTable.fits_iff {coder : StandardBeamCoders} {tableType : TableType}
    {keyType valueType : DataType} (h : coder.OneTable tableType keyType valueType)
    {values : List WindowedValue} (hNe : values ≠ []) (hDecodes : coder.DecodesTo values)
    (pcollectionId : String) :
    Succeeds (buildWindowedBatch pcollectionId values) ↔ coder.Fits values := by
  have hTable := h.tables _ (by simpa using hNe) hDecodes.records
  rw [hTable.buildWindowedBatch_iff, Fits]
  refine and_congr_left' ⟨fun hFits found hFound => ?_, fun hFits => hFits valueType h.column⟩
  cases h.only _ hFound
  exact hFits

/-- Any two batches of the coder have one schema, and they are both built with it
exactly when they keep to the size limits. -/
def OneSchema (coder : StandardBeamCoders) : Prop :=
  ∀ pcollectionId first second, first ≠ [] → second ≠ [] → coder.DecodesTo first →
    coder.DecodesTo second →
      SameDerived pcollectionId (first.map WindowedValue.value)
        (second.map WindowedValue.value) ∧
      (SameBuilt pcollectionId first second ↔ coder.Fits first ∧ coder.Fits second)

/-- The schema depends on the coder alone exactly when the coder has one type for
each column. -/
theorem oneSchema_iff (coder : StandardBeamCoders) (hOpaque : coder.noJavaOpaque = true) :
    coder.OneSchema ↔ coder.uniformSchema = true := by
  constructor
  · intro hAll
    by_contra hVaries
    rw [Bool.not_eq_true] at hVaries
    obtain ⟨first, second, hFirst, hSecond, hFirstYields, hSecondYields, hDisagree⟩ :=
      disagrees_of_not_uniform hOpaque hVaries
    have hValues : ∀ records : List BeamRecord,
        (records.map WindowedValue.global).map WindowedValue.value = records := fun records => by
      rw [List.map_map]
      exact List.map_id records
    have hDecodes : ∀ records : List BeamRecord, (∀ record ∈ records, coder.Yields record) →
        coder.DecodesTo (records.map WindowedValue.global) := by
      intro records hRecords value hMem
      obtain ⟨record, hRecord, rfl⟩ := List.mem_map.mp hMem
      exact hRecords record hRecord
    have hSame := (hAll "" (first.map WindowedValue.global) (second.map WindowedValue.global)
      (by simpa using hFirst) (by simpa using hSecond) (hDecodes first hFirstYields)
      (hDecodes second hSecondYields)).1
    rw [hValues, hValues] at hSame
    exact hDisagree "" hSame
  · intro hUniform pcollectionId first second hFirst hSecond hFirstDecodes hSecondDecodes
    obtain ⟨value, hValue⟩ := List.exists_mem_of_ne_nil first hFirst
    obtain ⟨tableType, keyType, valueType, hTable⟩ :=
      exists_oneTable hUniform (hFirstDecodes value hValue)
    have hDerive := (hTable.tables _ (by simpa using hFirst)
      hFirstDecodes.records).deriveTableSchema_eq pcollectionId
    have hOther := (hTable.tables _ (by simpa using hSecond)
      hSecondDecodes.records).deriveTableSchema_eq pcollectionId
    refine ⟨⟨_, _, hDerive, hOther, rfl⟩, ?_⟩
    rw [← hTable.fits_iff hFirst hFirstDecodes pcollectionId,
      ← hTable.fits_iff hSecond hSecondDecodes pcollectionId]
    constructor
    · rintro ⟨built, other, hBuilt, hOtherBuilt, -⟩
      exact ⟨⟨built, hBuilt⟩, other, hOtherBuilt⟩
    · rintro ⟨⟨built, hBuilt⟩, other, hOtherBuilt⟩
      refine ⟨built, other, hBuilt, hOtherBuilt, ?_⟩
      rw [buildWindowedBatch_schema hBuilt hDerive, buildWindowedBatch_schema hOtherBuilt hOther]

theorem oneSchema_keyedTuples : OneSchema (kv stringUtf8 (tuple [varInt, nullable bool])) :=
  (oneSchema_iff (kv stringUtf8 (tuple [varInt, nullable bool])) rfl).mpr rfl

/-- A batch of empty lists is taken to hold bytes, one of integers is not. -/
theorem not_oneSchema :
    ¬ ∀ (coder : StandardBeamCoders) pcollectionId first second, coder.noJavaOpaque = true →
      first ≠ [] → second ≠ [] → coder.DecodesTo first → coder.DecodesTo second →
        SameDerived pcollectionId (first.map WindowedValue.value)
          (second.map WindowedValue.value) ∧ SameBuilt pcollectionId first second := by
  intro h
  have hFirst : (iterable varInt).DecodesTo [WindowedValue.global (.iterable [])] := by
    intro value hMem
    rw [List.mem_singleton.mp hMem]
    exact (@frames_iterable varInt none (fun _ hNone => by cases hNone)).yields
  have hSecond : (iterable varInt).DecodesTo
      [WindowedValue.global (.iterable [.primitive (.int64 1)])] := by
    intro value hMem
    rw [List.mem_singleton.mp hMem]
    refine (@frames_iterable varInt (some (.primitive (.int64 1))) (fun record hSome => ?_)).yields
    cases hSome
    exact frames_scalar rfl trivial
  obtain ⟨⟨derived, other, hDerived, hOther, hSame⟩, -⟩ := h (iterable varInt) "pc" _ _ rfl
    (List.cons_ne_nil _ _) (List.cons_ne_nil _ _) hFirst hSecond
  cases hDerived
  cases hOther
  exact absurd hSame (by decide)

end StandardBeamCoders
end FlareDB
