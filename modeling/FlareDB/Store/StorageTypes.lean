import FlareDB.Coders.Yields
import FlareDB.Store.RecordSchema
import Mathlib.Data.List.Sections

/-! The storage types that the records of a coder can have, computed from the
coder alone. Every record has one of them, and each of them is taken by some
record. -/
namespace FlareDB

open Arrow ByteDecoder Decoder

/-- The struct of a tuple whose components have these types. -/
def structOf (dataTypes : List DataType) : DataType :=
  .struct (dataTypes.mapIdx fun index dataType => ⟨s!"f{index}", componentType dataType, true⟩)

theorem tupleStorageType_eq (values : List PrimitiveValue) :
    tupleStorageType values = structOf (values.map primitiveDataType) := by
  rw [tupleStorageType, structOf]
  congr 1
  refine List.ext_getElem? (fun index => ?_)
  simp only [List.getElem?_mapIdx, List.getElem?_map, Option.map_map]
  rfl

namespace StandardBeamCoders

/-- The types of the scalars a coder yields. -/
def scalarTypes : StandardBeamCoders → List DataType
  | .nullable valueCoder => .null :: scalarTypes valueCoder
  | .stringUtf8 => [.utf8]
  | .bytes | .javaOpaque | .pickle | .lengthPrefix => [.binary]
  | .varInt | .varInt32 => [.int64]
  | .bool => [.boolean]
  | .double => [.float64]
  | .void => [.null]
  | .iterable _ | .tuple _ | .kv _ _ | .gbk _ _ => []

/-- The types of the keys a coder yields, from the types of its records. -/
def keyTypesWith (coder : StandardBeamCoders) (recordTypes : List (Option DataType)) :
    List DataType :=
  if coder.isPrimitive then coder.scalarTypes
  else if recordTypes.isEmpty then [] else [.binary]

/-- The types that the records of a coder have as nested values. `none` is that
of the records that cannot be nested. -/
def storageTypes : StandardBeamCoders → List (Option DataType)
  | .iterable elementCoder =>
      some (.list (itemField .binary)) :: (storageTypes elementCoder).map
        (Option.map fun dataType => .list (itemField (componentType dataType)))
  | .nullable valueCoder => some .null :: storageTypes valueCoder
  | .tuple componentCoders =>
      (componentCoders.map scalarTypes).sections.map fun dataTypes => some (structOf dataTypes)
  | .kv keyCoder valueCoder =>
      (keyTypesWith keyCoder (storageTypes keyCoder)).flatMap fun keyType =>
        (storageTypes valueCoder).map
          (Option.map fun dataType => kvStructType (componentType keyType) (componentType dataType))
  | .gbk keyCoder _ => (keyTypesWith keyCoder (storageTypes keyCoder)).map fun _ => none
  | coder => coder.scalarTypes.map some
termination_by structural coder => coder

def keyTypes (coder : StandardBeamCoders) : List DataType :=
  keyTypesWith coder coder.storageTypes

/-! Every record has one of the types. -/

/-- A scalar that a coder yields has one of the coder's scalar types. -/
theorem mem_scalarTypes : ∀ (coder : StandardBeamCoders) {value : PrimitiveValue},
    coder.Yields (.primitive value) → primitiveDataType value ∈ coder.scalarTypes
  | .nullable valueCoder, value, h => by
      rcases yields_nullable h with hVoid | hValue
      · cases hVoid
        exact List.mem_cons_self
      · exact List.mem_cons_of_mem _ (mem_scalarTypes valueCoder hValue)
  | .stringUtf8, _, ⟨_, _, h⟩ | .bytes, _, ⟨_, _, h⟩ | .javaOpaque, _, ⟨_, _, h⟩
  | .pickle, _, ⟨_, _, h⟩ | .lengthPrefix, _, ⟨_, _, h⟩ | .varInt, _, ⟨_, _, h⟩
  | .varInt32, _, ⟨_, _, h⟩ | .bool, _, ⟨_, _, h⟩ | .double, _, ⟨_, _, h⟩ => by
      obtain ⟨found, middle, -, hPure⟩ := bind_eq_ok h
      cases hPure
      exact List.mem_singleton.mpr rfl
  | .void, _, ⟨_, _, h⟩ => by
      cases h
      exact List.mem_singleton.mpr rfl
  | .iterable _, _, h => by
      obtain ⟨_, hRecord, -⟩ := yields_iterable h
      cases hRecord
  | .tuple _, _, h => by
      obtain ⟨_, hRecord, -⟩ := yields_tuple h
      cases hRecord
  | .kv _ _, _, h => by
      obtain ⟨_, _, hRecord, -⟩ := yields_kv h
      cases hRecord
  | .gbk _ _, _, h => by
      obtain ⟨_, _, hRecord, -⟩ := yields_gbk h
      cases hRecord

/-- The record of a coder whose decoding always yields a primitive one. -/
theorem yields_primitive : ∀ (coder : StandardBeamCoders) {record : BeamRecord},
    coder.isPrimitive = true → coder.Yields record → ∃ value, record = .primitive value
  | .nullable valueCoder, record, hPrimitive, h => by
      rcases yields_nullable h with hVoid | hValue
      · exact ⟨.void, hVoid⟩
      · exact yields_primitive valueCoder hPrimitive hValue
  | .stringUtf8, _, _, ⟨_, _, h⟩ | .bytes, _, _, ⟨_, _, h⟩ | .javaOpaque, _, _, ⟨_, _, h⟩
  | .pickle, _, _, ⟨_, _, h⟩ | .lengthPrefix, _, _, ⟨_, _, h⟩ | .varInt, _, _, ⟨_, _, h⟩
  | .varInt32, _, _, ⟨_, _, h⟩ | .bool, _, _, ⟨_, _, h⟩ | .double, _, _, ⟨_, _, h⟩ => by
      obtain ⟨found, middle, -, hPure⟩ := bind_eq_ok h
      cases hPure
      exact ⟨_, rfl⟩
  | .void, _, _, ⟨_, _, h⟩ => by
      cases h
      exact ⟨.void, rfl⟩

/-- A key has one of the key types. -/
theorem mem_keyTypesWith {coder : StandardBeamCoders} {recordTypes : List (Option DataType)}
    (hTypes : ∀ record, coder.Yields record → recordTypes ≠ []) {key : PrimitiveValue}
    (h : coder.YieldsKey key) : primitiveDataType key ∈ keyTypesWith coder recordTypes := by
  have hCases := yieldsKey_cases h
  rw [keyTypesWith]
  by_cases hPrimitive : coder.isPrimitive = true
  · rw [if_pos hPrimitive] at hCases ⊢
    exact mem_scalarTypes coder hCases
  · rw [if_neg hPrimitive] at hCases ⊢
    obtain ⟨record, raw, rfl, hRecord, -⟩ := hCases
    have hNe := hTypes record hRecord
    rw [if_neg (by rwa [List.isEmpty_iff])]
    exact List.mem_singleton.mpr rfl

private theorem mem_scalars {coder : StandardBeamCoders} (hPrimitive : coder.isPrimitive = true)
    {record : BeamRecord} (h : coder.Yields record) :
    (nestedValueStorageType record).toOption ∈ coder.scalarTypes.map some := by
  obtain ⟨value, rfl⟩ := yields_primitive coder hPrimitive h
  exact List.mem_map_of_mem (mem_scalarTypes coder h)

/-- A record that a coder yields is stored under one of the coder's types. -/
theorem mem_storageTypes : ∀ (coder : StandardBeamCoders) {record : BeamRecord},
    coder.Yields record → (nestedValueStorageType record).toOption ∈ coder.storageTypes
  | .stringUtf8, _, h | .bytes, _, h | .javaOpaque, _, h | .pickle, _, h | .lengthPrefix, _, h
  | .varInt, _, h | .varInt32, _, h | .bool, _, h | .double, _, h | .void, _, h =>
      mem_scalars rfl h
  | .nullable valueCoder, record, h => by
      rcases yields_nullable h with rfl | hValue
      · exact List.mem_cons_self
      · exact List.mem_cons_of_mem _ (mem_storageTypes valueCoder hValue)
  | .iterable elementCoder, record, h => by
      obtain ⟨list, rfl, hElements⟩ := yields_iterable h
      cases list with
      | nil => exact List.mem_cons_self
      | cons first rest =>
          have hFirst := mem_storageTypes elementCoder (hElements first List.mem_cons_self)
          refine List.mem_cons_of_mem _ (List.mem_map.mpr ⟨_, hFirst, ?_⟩)
          rw [nestedValueStorageType]
          cases nestedValueStorageType first <;> rfl
  | .tuple componentCoders, record, h => by
      obtain ⟨values, rfl, hValues⟩ := yields_tuple h
      refine List.mem_map.mpr ⟨values.map primitiveDataType, List.mem_sections.mpr ?_, ?_⟩
      · rw [List.forall₂_map_left_iff, List.forall₂_map_right_iff]
        exact (hValues.imp fun coder value hValue => mem_scalarTypes coder hValue).flip
      · rw [nestedValueStorageType, tupleStorageType_eq]
        rfl
  | .kv keyCoder valueCoder, record, h => by
      obtain ⟨key, value, rfl, hKey, hValue⟩ := yields_kv h
      refine List.mem_flatMap.mpr ⟨primitiveDataType key, mem_keyTypesWith ?_ hKey, ?_⟩
      · exact fun _ hRecord => List.ne_nil_of_mem (mem_storageTypes keyCoder hRecord)
      · refine List.mem_map.mpr ⟨_, mem_storageTypes valueCoder hValue, ?_⟩
        rw [nestedValueStorageType]
        cases nestedValueStorageType value <;> rfl
  | .gbk keyCoder elementCoder, record, h => by
      obtain ⟨key, list, rfl, hKey, -⟩ := yields_gbk h
      refine List.mem_map.mpr ⟨primitiveDataType key, mem_keyTypesWith ?_ hKey, rfl⟩
      exact fun _ hRecord => List.ne_nil_of_mem (mem_storageTypes keyCoder hRecord)

theorem mem_keyTypes {coder : StandardBeamCoders} {key : PrimitiveValue}
    (h : coder.YieldsKey key) : primitiveDataType key ∈ coder.keyTypes :=
  mem_keyTypesWith (fun _ hRecord => List.ne_nil_of_mem (mem_storageTypes coder hRecord)) h

/-! Each of the types is taken by some record. -/

/-- Every scalar type of a coder is that of a value. -/
theorem exists_of_mem_scalarTypes : ∀ (coder : StandardBeamCoders) {dataType : DataType},
    coder.noJavaOpaque = true → dataType ∈ coder.scalarTypes →
      ∃ value, coder.WellTypedPrimitive value ∧ primitiveDataType value = dataType
  | .nullable valueCoder, dataType, hOpaque, h => by
      rcases List.mem_cons.mp h with rfl | hValue
      · exact ⟨.void, .inl rfl, rfl⟩
      · rw [noJavaOpaque] at hOpaque
        obtain ⟨value, hTyped, hType⟩ := exists_of_mem_scalarTypes valueCoder hOpaque hValue
        exact ⟨value, .inr hTyped, hType⟩
  | .stringUtf8, _, _, h => ⟨.string "", Nat.two_pow_pos 64, (List.mem_singleton.mp h).symm⟩
  | .bytes, _, _, h | .pickle, _, _, h | .lengthPrefix, _, _, h =>
      ⟨.bytes [], Nat.two_pow_pos 64, (List.mem_singleton.mp h).symm⟩
  | .varInt, _, _, h => ⟨.int64 0, trivial, (List.mem_singleton.mp h).symm⟩
  | .varInt32, _, _, h => ⟨.int64 0, ⟨by decide, by decide⟩, (List.mem_singleton.mp h).symm⟩
  | .bool, _, _, h => ⟨.bool false, trivial, (List.mem_singleton.mp h).symm⟩
  | .double, _, _, h => ⟨.float64 0, trivial, (List.mem_singleton.mp h).symm⟩
  | .void, _, _, h => ⟨.void, trivial, (List.mem_singleton.mp h).symm⟩
  | .javaOpaque, _, hOpaque, _ => by
      rw [noJavaOpaque] at hOpaque
      cases hOpaque

/-- Every key type is that of a key. -/
theorem exists_of_mem_keyTypesWith {coder : StandardBeamCoders}
    {recordTypes : List (Option DataType)} {dataType : DataType}
    (hOpaque : coder.noJavaOpaque = true)
    (hRecords : ∀ recordType ∈ recordTypes, ∃ record, coder.Frames record)
    (h : dataType ∈ keyTypesWith coder recordTypes) :
    ∃ key, coder.FramesKey key ∧ primitiveDataType key = dataType := by
  rw [keyTypesWith] at h
  by_cases hPrimitive : coder.isPrimitive = true
  · rw [if_pos hPrimitive] at h
    obtain ⟨key, hTyped, hType⟩ := exists_of_mem_scalarTypes coder hOpaque h
    exact ⟨key, framesKey_scalar hPrimitive hOpaque hTyped, hType⟩
  · rw [if_neg hPrimitive] at h
    cases recordTypes with
    | nil => cases h
    | cons recordType recordTypes =>
        obtain ⟨record, hRecord⟩ := hRecords recordType List.mem_cons_self
        obtain ⟨raw, hRaw⟩ := framesKey_encoded hPrimitive hRecord
        exact ⟨.bytes raw, hRaw, (List.mem_singleton.mp h).symm⟩

private theorem exists_of_mem_scalars {coder : StandardBeamCoders} {dataType : Option DataType}
    (hOpaque : coder.noJavaOpaque = true) (h : dataType ∈ coder.scalarTypes.map some) :
    ∃ record, coder.Frames record ∧ (nestedValueStorageType record).toOption = dataType := by
  obtain ⟨found, hFound, rfl⟩ := List.mem_map.mp h
  obtain ⟨value, hTyped, rfl⟩ := exists_of_mem_scalarTypes coder hOpaque hFound
  exact ⟨.primitive value, frames_scalar hOpaque hTyped, rfl⟩

/-- Component types belong to a tuple of values. -/
private theorem exists_components {componentCoders : List StandardBeamCoders}
    {dataTypes : List DataType} (hOpaque : noJavaOpaqueAll componentCoders = true)
    (h : List.Forall₂ (fun dataType coder => dataType ∈ coder.scalarTypes) dataTypes
      componentCoders) :
    ∃ values, List.Forall₂ WellTypedPrimitive componentCoders values ∧
      values.map primitiveDataType = dataTypes := by
  induction h with
  | nil => exact ⟨[], .nil, rfl⟩
  | cons hHead _ ih =>
      rw [noJavaOpaqueAll, Bool.and_eq_true] at hOpaque
      obtain ⟨value, hTyped, rfl⟩ := exists_of_mem_scalarTypes _ hOpaque.1 hHead
      obtain ⟨values, hValues, rfl⟩ := ih hOpaque.2
      exact ⟨value :: values, .cons hTyped hValues, rfl⟩

/-- Every storage type of a coder is that of a record. -/
theorem exists_of_mem_storageTypes : ∀ (coder : StandardBeamCoders) {dataType : Option DataType},
    coder.noJavaOpaque = true → dataType ∈ coder.storageTypes →
      ∃ record, coder.Frames record ∧ (nestedValueStorageType record).toOption = dataType
  | .stringUtf8, _, hOpaque, h | .bytes, _, hOpaque, h | .javaOpaque, _, hOpaque, h
  | .pickle, _, hOpaque, h | .lengthPrefix, _, hOpaque, h | .varInt, _, hOpaque, h
  | .varInt32, _, hOpaque, h | .bool, _, hOpaque, h | .double, _, hOpaque, h
  | .void, _, hOpaque, h => exists_of_mem_scalars hOpaque h
  | .nullable valueCoder, dataType, hOpaque, h => by
      rcases List.mem_cons.mp h with rfl | hValue
      · exact ⟨.primitive .void, frames_void valueCoder, rfl⟩
      · rw [noJavaOpaque] at hOpaque
        obtain ⟨record, hRecord, hType⟩ := exists_of_mem_storageTypes valueCoder hOpaque hValue
        exact ⟨record, frames_nullable hRecord, hType⟩
  | .iterable elementCoder, dataType, hOpaque, h => by
      rw [noJavaOpaque] at hOpaque
      rcases List.mem_cons.mp h with rfl | hElement
      · exact ⟨_, @frames_iterable elementCoder none (fun _ hMem => by cases hMem), rfl⟩
      · obtain ⟨elementType, hFound, rfl⟩ := List.mem_map.mp hElement
        obtain ⟨record, hRecord, rfl⟩ := exists_of_mem_storageTypes elementCoder hOpaque hFound
        refine ⟨.iterable [record], @frames_iterable elementCoder (some record) ?_, ?_⟩
        · intro other hMem
          cases hMem
          exact hRecord
        · rw [nestedValueStorageType]
          cases nestedValueStorageType record <;> rfl
  | .tuple componentCoders, dataType, hOpaque, h => by
      rw [noJavaOpaque] at hOpaque
      obtain ⟨dataTypes, hSection, rfl⟩ := List.mem_map.mp h
      rw [List.mem_sections, List.forall₂_map_right_iff] at hSection
      obtain ⟨values, hValues, rfl⟩ := exists_components hOpaque hSection
      refine ⟨.tuple values, frames_tuple hOpaque hValues, ?_⟩
      rw [nestedValueStorageType, tupleStorageType_eq]
      rfl
  | .kv keyCoder valueCoder, dataType, hOpaque, h => by
      rw [noJavaOpaque, Bool.and_eq_true] at hOpaque
      obtain ⟨keyType, hKeyType, hValues⟩ := List.mem_flatMap.mp h
      obtain ⟨valueType, hValueType, rfl⟩ := List.mem_map.mp hValues
      obtain ⟨value, hValue, rfl⟩ := exists_of_mem_storageTypes valueCoder hOpaque.2 hValueType
      obtain ⟨key, hKey, rfl⟩ := exists_of_mem_keyTypesWith hOpaque.1 (fun _ hMem => by
        obtain ⟨record, hRecord, -⟩ := exists_of_mem_storageTypes keyCoder hOpaque.1 hMem
        exact ⟨record, hRecord⟩) hKeyType
      refine ⟨.kv key value, frames_kv hKey hValue, ?_⟩
      rw [nestedValueStorageType]
      cases nestedValueStorageType value <;> rfl
  | .gbk keyCoder elementCoder, dataType, hOpaque, h => by
      rw [noJavaOpaque, Bool.and_eq_true] at hOpaque
      obtain ⟨keyType, hKeyType, rfl⟩ := List.mem_map.mp h
      obtain ⟨key, hKey, -⟩ := exists_of_mem_keyTypesWith hOpaque.1 (fun _ hMem => by
        obtain ⟨record, hRecord, -⟩ := exists_of_mem_storageTypes keyCoder hOpaque.1 hMem
        exact ⟨record, hRecord⟩) hKeyType
      exact ⟨.gbk key [], @frames_gbk keyCoder elementCoder key none hKey (fun _ hMem => by cases hMem), rfl⟩

/-- Every key type of a coder is that of a key it frames. -/
theorem exists_of_mem_keyTypes {coder : StandardBeamCoders} {dataType : DataType}
    (hOpaque : coder.noJavaOpaque = true) (h : dataType ∈ coder.keyTypes) :
    ∃ key, coder.FramesKey key ∧ primitiveDataType key = dataType :=
  exists_of_mem_keyTypesWith hOpaque (fun _ hMem => by
    obtain ⟨record, hRecord, -⟩ := exists_of_mem_storageTypes coder hOpaque hMem
    exact ⟨record, hRecord⟩) h

end StandardBeamCoders
end FlareDB
