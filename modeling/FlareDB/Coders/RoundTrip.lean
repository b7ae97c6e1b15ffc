import FlareDB.Coders.Standard
import Mathlib.Data.List.Forall2

/-! Exact framing of every coder tree without an opaque Java leaf: the nested
encoding of a well-typed record decodes to that record whatever follows it.
The same induction records how the decoder signals a cursor that ends inside
the encoding, because callers treat the two signals differently. -/
namespace FlareDB

open ByteDecoder

namespace StandardBeamCoders

mutual

/-- No leaf owns the rest of the buffer. -/
def noJavaOpaque : StandardBeamCoders → Bool
  | .javaOpaque => false
  | .iterable elementCoder => noJavaOpaque elementCoder
  | .nullable valueCoder => noJavaOpaque valueCoder
  | .tuple componentCoders => noJavaOpaqueAll componentCoders
  | .kv keyCoder valueCoder => noJavaOpaque keyCoder && noJavaOpaque valueCoder
  | .gbk keyCoder elementCoder => noJavaOpaque keyCoder && noJavaOpaque elementCoder
  | _ => true

def noJavaOpaqueAll : List StandardBeamCoders → Bool
  | [] => true
  | coder :: coders => noJavaOpaque coder && noJavaOpaqueAll coders

end

/-- Scalars a coder accepts. Byte strings fit the address space, as every
vector of the source does, and a null is the `void` of a nullable coder. -/
def WellTypedPrimitive : StandardBeamCoders → PrimitiveValue → Prop
  | .nullable valueCoder, value => value = .void ∨ WellTypedPrimitive valueCoder value
  | .stringUtf8, .string s => (utf8Bytes s).length < 2 ^ 64
  | .bytes, .bytes raw => raw.length < 2 ^ 64
  | .javaOpaque, .bytes raw => raw.length < 2 ^ 64
  | .pickle, .bytes raw => raw.length < 2 ^ 64
  | .lengthPrefix, .bytes raw => raw.length < 2 ^ 64
  | .varInt, .int64 _ => True
  | .varInt32, .int64 value => -2 ^ 31 ≤ value.toInt ∧ value.toInt < 2 ^ 31
  | .bool, .bool _ => True
  | .double, .float64 _ => True
  | .void, .void => True
  | _, _ => False

/-- Keys a coder accepts, given the records it accepts: a composite key holds
the bytes of a canonical encoding. -/
def WellTypedKeyWith (coder : StandardBeamCoders) (typed : BeamRecord → Prop)
    (key : PrimitiveValue) : Prop :=
  if coder.isPrimitive then WellTypedPrimitive coder key
  else ∃ record raw, key = .bytes raw ∧ typed record ∧ coder.encode record = some raw

/-- Records a coder accepts. Tuples have primitive components only. -/
def WellTyped : StandardBeamCoders → BeamRecord → Prop
  | .iterable elementCoder, .iterable list => ∀ record ∈ list, WellTyped elementCoder record
  | .tuple componentCoders, .tuple values =>
      List.Forall₂ (fun coder value => coder.isPrimitive = true ∧ WellTypedPrimitive coder value)
        componentCoders values
  | .nullable valueCoder, record => record = .primitive .void ∨ WellTyped valueCoder record
  | .kv keyCoder valueCoder, .kv key value =>
      WellTypedKeyWith keyCoder (WellTyped keyCoder) key ∧ WellTyped valueCoder value
  | .gbk keyCoder elementCoder, .gbk key list =>
      WellTypedKeyWith keyCoder (WellTyped keyCoder) key ∧
        ∀ record ∈ list, WellTyped elementCoder record
  | coder, .primitive value => WellTypedPrimitive coder value
  | _, _ => False

/-- Every iterable of the record can declare its length on the wire. -/
def LengthsFit : StandardBeamCoders → BeamRecord → Prop
  | .iterable elementCoder, .iterable list =>
      list.length ≤ i32Max ∧ ∀ record ∈ list, LengthsFit elementCoder record
  | .nullable valueCoder, record => LengthsFit valueCoder record
  | .kv _ valueCoder, .kv _ value => LengthsFit valueCoder value
  | .gbk _ elementCoder, .gbk _ list =>
      list.length ≤ i32Max ∧ ∀ record ∈ list, LengthsFit elementCoder record
  | _, _ => True

/-- How a buffer that ends inside a scalar's encoding is signalled, offset by
offset: only the body of a length-delimited value and the eight bytes of a
double are reported as errors. -/
def primitiveProfile : StandardBeamCoders → PrimitiveValue → List Bool
  | .nullable valueCoder, value => match value with
      | .void => [false]
      | present => false :: primitiveProfile valueCoder present
  | .stringUtf8, .string s => lengthDelimitedProfile (utf8Bytes s)
  | .bytes, .bytes raw => lengthDelimitedProfile raw
  | .pickle, .bytes raw => lengthDelimitedProfile raw
  | .lengthPrefix, .bytes raw => lengthDelimitedProfile raw
  | .varInt, .int64 value => List.replicate (encodeSignedVarint value).length false
  | .varInt32, .int64 value => List.replicate (VarInt32Coder.encode value).length false
  | .bool, .bool _ => [false]
  | .double, .float64 _ => List.replicate 8 true
  | _, _ => []
where
  lengthDelimitedProfile (raw : List UInt8) : List Bool :=
    List.replicate (encodeVarint (UInt64.ofNat raw.length)).length false ++
      List.replicate raw.length true

/-- The profile of a key, given the profile of its coder's records. -/
def keyProfileWith (coder : StandardBeamCoders) (profile : BeamRecord → List Bool)
    (key : PrimitiveValue) : List Bool :=
  if coder.isPrimitive then primitiveProfile coder key
  else match key with
    | .bytes raw => match coder.decodeNested raw with
        | .ok record _ => profile record
        | _ => []
    | _ => []

/-- How a buffer that ends inside a record's encoding is signalled. -/
def underflowProfile : StandardBeamCoders → BeamRecord → List Bool
  | .iterable elementCoder, .iterable list =>
      List.replicate 4 false ++ list.flatMap (underflowProfile elementCoder)
  | .tuple componentCoders, .tuple values =>
      (List.zipWith primitiveProfile componentCoders values).flatten
  | .nullable valueCoder, record => match record with
      | .primitive .void => [false]
      | present => false :: underflowProfile valueCoder present
  | .kv keyCoder valueCoder, .kv key value =>
      keyProfileWith keyCoder (underflowProfile keyCoder) key ++ underflowProfile valueCoder value
  | .gbk keyCoder elementCoder, .gbk key list =>
      keyProfileWith keyCoder (underflowProfile keyCoder) key ++
        (List.replicate 4 false ++ list.flatMap (underflowProfile elementCoder))
  | coder, .primitive value => primitiveProfile coder value
  | _, _ => []

/-- On a primitive record the general encoder is the scalar encoder. -/
theorem encode_primitive : ∀ (coder : StandardBeamCoders) (value : PrimitiveValue),
    coder.encode (.primitive value) = coder.encodePrimitive value
  | .nullable valueCoder, value => by
      have ih := encode_primitive valueCoder value
      cases value <;> simp [encode, NullableCoder.encode, encodePrimitive, ih]
  | .stringUtf8, _ | .bytes, _ | .javaOpaque, _ | .varInt, _ | .varInt32, _ | .bool, _
  | .double, _ | .void, _ | .iterable _, _ | .lengthPrefix, _ | .pickle, _ | .tuple _, _
  | .kv _ _, _ | .gbk _ _, _ => by simp [encode]

end StandardBeamCoders

/-! Leaf coders. -/

theorem getU8_segment (byte : UInt8) : Segment getU8 [byte] [false] byte :=
  Segment.cons rfl (fun _ => rfl) (Segment.pure byte)

theorem putI32_segment {count : Nat} (h : count ≤ i32Max) :
    Segment getI32 (putI32 count) (List.replicate 4 false) (count : Int) := by
  have hBytes : (putI32 count).length = 4 := BigEndian.toBytes_length 4 count
  have hValue : BigEndian.toNat (putI32 count) = count :=
    BigEndian.toNat_toBytes_of_lt (by simp only [i32Max] at h; omega)
  have hTake := Segment.take (ε := CodersError) (putI32 count)
  rw [hBytes] at hTake
  refine hTake.bind_pure ?_
  have hSmall : count < 2 ^ 31 := by simp only [i32Max] at h; omega
  simp only [hValue, if_pos hSmall]

/-- A string is read back from its UTF-8 bytes. -/
theorem fromUTF8_utf8Bytes (value : String) :
    String.fromUTF8? ⟨(utf8Bytes value).toArray⟩ = some value := by
  have hBytes : (⟨(utf8Bytes value).toArray⟩ : ByteArray) = value.toByteArray := by
    simp [utf8Bytes]
  rw [hBytes, String.fromUTF8?, dif_pos value.isValidUTF8]
  rfl

theorem utf8Bytes_injective {a b : String} (h : utf8Bytes a = utf8Bytes b) : a = b := by
  have hA := fromUTF8_utf8Bytes a
  rw [h, fromUTF8_utf8Bytes b] at hA
  exact (Option.some.inj hA).symm

/-- And the bytes of a string that was read are those it was read from. -/
theorem utf8Bytes_of_fromUTF8 {bytes : List UInt8} {text : String}
    (h : String.fromUTF8? ⟨bytes.toArray⟩ = some text) : utf8Bytes text = bytes := by
  rw [String.fromUTF8?] at h
  split at h
  · cases h
    rfl
  · cases h

/-- A string is read back from under its length; cuts unwind within the length and
are reported within the body. -/
theorem stringUtf8Coder_segment (value : String) (h : (utf8Bytes value).length < 2 ^ 64) :
    Segment StringUtf8Coder.decode (StringUtf8Coder.encode value)
      (StandardBeamCoders.primitiveProfile.lengthDelimitedProfile (utf8Bytes value)) value := by
  refine (encodeLengthDelimited_segment _ _ h).bind_pure ?_
  rw [fromUTF8_utf8Bytes]

/-- A varint of 32 bits is read back, and every cut of it unwinds. -/
theorem varInt32Coder_segment (value : Int64)
    (h : -2 ^ 31 ≤ value.toInt ∧ value.toInt < 2 ^ 31) :
    Segment VarInt32Coder.decode (VarInt32Coder.encode value)
      (List.replicate (VarInt32Coder.encode value).length false) value := by
  refine (encodeVarint_segment _).bind_pure ?_
  have hSmall : ¬ value.toInt32.toUInt32.toUInt64 ≥ (1 : UInt64) <<< 32 := by
    have hLt := value.toInt32.toUInt32.toNat_lt
    rw [ge_iff_le, UInt64.le_iff_toNat_le, UInt32.toNat_toUInt64]
    have hOne : ((1 : UInt64) <<< 32).toNat = 2 ^ 32 := by decide
    omega
  rw [if_neg hSmall, UInt32.toUInt32_toUInt64, Int32.toInt32_toUInt32]
  have hBack : value.toInt32.toInt64 = value := by
    apply Int64.toInt_inj.mp
    rw [Int32.toInt_toInt64, Int64.toInt_toInt32, Int.bmod_eq_of_le (by omega) (by omega)]
  rw [hBack]

/-- So is a bool. -/
theorem boolCoder_segment (value : Bool) :
    Segment BoolCoder.decode (BoolCoder.encode value) [false] value := by
  cases value with
  | false => exact (getU8_segment 0).bind_pure rfl
  | true => exact (getU8_segment 1).bind_pure rfl

/-- A double is checked for length before it is read, so every cut reports. -/
theorem doubleCoder_segment (bits : UInt64) :
    Segment DoubleCoder.decode (DoubleCoder.encode bits) (List.replicate 8 true) bits := by
  have hLength : (DoubleCoder.encode bits).length = 8 := BigEndian.toBytes_length 8 _
  have hValue : BigEndian.toNat (DoubleCoder.encode bits) = bits.toNat :=
    BigEndian.toNat_toBytes_of_lt bits.toNat_lt
  constructor
  · intro rest
    have hEnough : ¬ (DoubleCoder.encode bits ++ rest).length < 8 := by simp [hLength]
    have hTake := (Segment.take (ε := CodersError) (DoubleCoder.encode bits)).frames rest
    rw [hLength] at hTake
    rw [DoubleCoder.decode, Decoder.bind_apply, Decoder.remaining]
    simp only [if_neg hEnough, Decoder.bind_apply, hTake, hValue, UInt64.ofNat_toNat]
    rfl
  · simp [hLength]
  · intro k flag hFlag
    obtain ⟨hk, hEq⟩ := List.getElem?_eq_some_iff.mp hFlag
    rw [List.length_replicate] at hk
    rw [List.getElem_replicate] at hEq
    subst hEq
    have hShort : ((DoubleCoder.encode bits).take k).length < 8 := by
      rw [List.length_take]
      omega
    rw [DoubleCoder.decode, Decoder.bind_apply, Decoder.remaining]
    simp only [if_pos hShort]
    exact ⟨_, rfl⟩

/-! Composite coders, from the segments of their components. -/

/-- So is an iterable whose elements are, with the cuts of its elements. -/
theorem iterableCoder_segment {d : CoderDecoder BeamRecord} {profile : BeamRecord → List Bool}
    {element : BeamRecord → Option (List UInt8)} (list : List BeamRecord)
    (h : ∀ record ∈ list, ∀ bytes, element record = some bytes →
      Segment d bytes (profile record) record)
    {bytes : List UInt8} (hBytes : IterableCoder.encode element list = some bytes) :
    Segment (IterableCoder.decode d) bytes
      (List.replicate 4 false ++ list.flatMap profile) list := by
  unfold IterableCoder.encode at hBytes
  split at hBytes
  · next hCount =>
      obtain ⟨parts, hParts, rfl⟩ := Option.map_eq_some_iff.mp hBytes
      refine (putI32_segment hCount).bind ?_
      rw [if_pos (Int.natCast_nonneg _), Int.toNat_natCast]
      exact Segment.times list h hParts
  · cases hBytes

/-- So is a null. -/
theorem nullableCoder_segment_void (d : CoderDecoder BeamRecord) :
    Segment (NullableCoder.decode d) [0] [false] (.primitive .void) :=
  (getU8_segment 0).bind_pure rfl

/-- So is a value behind its null indicator. -/
theorem nullableCoder_segment_present {d : CoderDecoder BeamRecord} {bytes : List UInt8}
    {profile : List Bool} {record : BeamRecord} (h : Segment d bytes profile record) :
    Segment (NullableCoder.decode d) (1 :: bytes) (false :: profile) record :=
  (getU8_segment 1).bind h

namespace StandardBeamCoders

/-- A null is written as its indicator byte alone; anything else is a byte and
the component's encoding. -/
private theorem encodePrimitive_nullable {valueCoder : StandardBeamCoders} {value : PrimitiveValue}
    (h : value ≠ .void) : (nullable valueCoder).encodePrimitive value =
      (valueCoder.encodePrimitive value).map (1 :: ·) := by
  cases value <;> simp_all [encodePrimitive]

private theorem primitiveProfile_nullable {valueCoder : StandardBeamCoders}
    {value : PrimitiveValue} (h : value ≠ .void) :
    (nullable valueCoder).primitiveProfile value = false :: valueCoder.primitiveProfile value := by
  cases value <;> simp_all [primitiveProfile]

/-- Every scalar a coder accepts is written, and read back with the coder's
underflow profile. -/
theorem encodePrimitive_segment : ∀ (coder : StandardBeamCoders) (value : PrimitiveValue),
    coder.noJavaOpaque = true → coder.WellTypedPrimitive value →
    ∃ bytes, coder.encodePrimitive value = some bytes ∧
      Segment coder.decodeNested bytes (coder.primitiveProfile value) (.primitive value)
  | .nullable valueCoder, value, hOpaque, hTyped => by
      rw [noJavaOpaque] at hOpaque
      by_cases hVoid : value = .void
      · subst hVoid
        exact ⟨[0], by simp [encodePrimitive], by
          simpa [decodeNested, primitiveProfile] using nullableCoder_segment_void _⟩
      · rw [WellTypedPrimitive] at hTyped
        obtain ⟨bytes, hBytes, hSegment⟩ :=
          encodePrimitive_segment valueCoder value hOpaque (hTyped.resolve_left hVoid)
        refine ⟨1 :: bytes, ?_, ?_⟩
        · rw [encodePrimitive_nullable hVoid, hBytes]
          rfl
        · rw [primitiveProfile_nullable hVoid, decodeNested]
          exact nullableCoder_segment_present hSegment
  | .stringUtf8, .string s, _, hTyped =>
      ⟨_, rfl, (stringUtf8Coder_segment s hTyped).bind_pure rfl⟩
  | .bytes, .bytes raw, _, hTyped =>
      ⟨_, rfl, (encodeLengthDelimited_segment _ raw hTyped).bind_pure rfl⟩
  | .pickle, .bytes raw, _, hTyped =>
      ⟨_, rfl, (encodeLengthDelimited_segment _ raw hTyped).bind_pure rfl⟩
  | .lengthPrefix, .bytes raw, _, hTyped =>
      ⟨_, rfl, (encodeLengthDelimited_segment _ raw hTyped).bind_pure rfl⟩
  | .varInt, .int64 value, _, _ => ⟨_, rfl, (encodeSignedVarint_segment value).bind_pure rfl⟩
  | .varInt32, .int64 value, _, hTyped =>
      ⟨_, rfl, (varInt32Coder_segment value hTyped).bind_pure rfl⟩
  | .bool, .bool value, _, _ => ⟨_, rfl, (boolCoder_segment value).bind_pure rfl⟩
  | .double, .float64 bits, _, _ => ⟨_, rfl, (doubleCoder_segment bits).bind_pure rfl⟩
  | .void, .void, _, _ => ⟨_, rfl, Segment.pure _⟩
  | .javaOpaque, _, hOpaque, _ => by simp [noJavaOpaque] at hOpaque

/-- The tuple coder's components, read back one after another. -/
theorem encodeComponents_segment {coders : List StandardBeamCoders} {values : List PrimitiveValue}
    (hOpaque : noJavaOpaqueAll coders = true)
    (hTyped : List.Forall₂ WellTypedPrimitive coders values) :
    ∃ bytes, encodeComponents coders values = some bytes ∧
      Segment (decodeComponents coders) bytes
        (List.zipWith primitiveProfile coders values).flatten values := by
  induction hTyped with
  | nil => exact ⟨[], by simp [encodeComponents], by simpa [decodeComponents] using Segment.pure _⟩
  | @cons coder value coders values hHead _ ih =>
      rw [noJavaOpaqueAll, Bool.and_eq_true] at hOpaque
      obtain ⟨first, hFirst, hFirstSegment⟩ :=
        encodePrimitive_segment coder value hOpaque.1 hHead
      obtain ⟨rest, hRest, hRestSegment⟩ := ih hOpaque.2
      refine ⟨first ++ rest, ?_, ?_⟩
      · simp [encodeComponents, encode_primitive, hFirst, hRest]
      · rw [decodeComponents, List.zipWith_cons_cons, List.flatten_cons]
        have hFirstValue : Segment (decodePrimitiveWith coder.decodeNested) first
            (coder.primitiveProfile value) value := hFirstSegment.bind_pure rfl
        exact hFirstValue.bind (hRestSegment.bind_pure rfl)

/-- A key is read back exactly, given that its coder's records are. -/
theorem encodeKey_segment {coder : StandardBeamCoders} (hOpaque : coder.noJavaOpaque = true)
    (hRecords : ∀ record raw, coder.WellTyped record → coder.encode record = some raw →
      Segment coder.decodeNested raw (coder.underflowProfile record) record)
    {key : PrimitiveValue} (hKey : WellTypedKeyWith coder coder.WellTyped key) :
    ∃ bytes, coder.encodeKey key = some bytes ∧
      Segment (decodeKeyWith coder coder.decodeNested) bytes
        (keyProfileWith coder coder.underflowProfile key) key := by
  unfold WellTypedKeyWith at hKey
  unfold encodeKey decodeKeyWith keyProfileWith
  split at hKey
  · next hPrimitive =>
      obtain ⟨bytes, hBytes, hSegment⟩ := encodePrimitive_segment coder key hOpaque hKey
      simp only [if_pos hPrimitive]
      exact ⟨bytes, hBytes, hSegment.bind_pure rfl⟩
  · next hPrimitive =>
      obtain ⟨record, raw, rfl, hTyped, hRaw⟩ := hKey
      have hSegment := hRecords record raw hTyped hRaw
      have hDecoded := hSegment.frames []
      rw [List.append_nil] at hDecoded
      simp only [if_neg hPrimitive, hDecoded]
      exact ⟨raw, rfl, hSegment.bind_pure (by rw [hRaw])⟩

/-- A present value is written behind an indicator. -/
theorem encode_nullable {valueCoder : StandardBeamCoders} {record : BeamRecord}
    (h : record ≠ .primitive .void) : (nullable valueCoder).encode record =
      (valueCoder.encode record).map (1 :: ·) := by
  rw [encode, NullableCoder.encode]
  exact h

private theorem underflowProfile_nullable {valueCoder : StandardBeamCoders} {record : BeamRecord}
    (h : record ≠ .primitive .void) : (nullable valueCoder).underflowProfile record =
      false :: valueCoder.underflowProfile record := by
  rw [underflowProfile]
  exact h

/-- The framing law: whatever a coder writes for a record it accepts is read
back as that record, and every cut inside it raises the profile's signal. -/
theorem encode_segment : ∀ (coder : StandardBeamCoders) (record : BeamRecord)
    (encoded : List UInt8), coder.noJavaOpaque = true → coder.WellTyped record →
    coder.encode record = some encoded →
    Segment coder.decodeNested encoded (coder.underflowProfile record) record
  | .nullable valueCoder, record, encoded, hOpaque, hTyped, hEncoded => by
      rw [noJavaOpaque] at hOpaque
      by_cases hVoid : record = .primitive .void
      · subst hVoid
        have hNull : encoded = [0] := by simpa [encode, NullableCoder.encode] using hEncoded.symm
        rw [hNull]
        simpa [decodeNested, underflowProfile] using nullableCoder_segment_void _
      · rw [WellTyped] at hTyped
        rw [encode_nullable hVoid] at hEncoded
        obtain ⟨raw, hRaw, rfl⟩ := Option.map_eq_some_iff.mp hEncoded
        rw [underflowProfile_nullable hVoid, decodeNested]
        exact nullableCoder_segment_present
          (encode_segment valueCoder record raw hOpaque (hTyped.resolve_left hVoid) hRaw)
  | .iterable elementCoder, .iterable list, encoded, hOpaque, hTyped, hEncoded => by
      rw [noJavaOpaque] at hOpaque
      rw [WellTyped] at hTyped
      rw [encode] at hEncoded
      rw [decodeNested, underflowProfile]
      refine (iterableCoder_segment list (fun record hMem raw hRaw => ?_) hEncoded).bind_pure rfl
      exact encode_segment elementCoder record raw hOpaque (hTyped record hMem) hRaw
  | .tuple componentCoders, .tuple values, encoded, hOpaque, hTyped, hEncoded => by
      rw [noJavaOpaque] at hOpaque
      rw [WellTyped] at hTyped
      obtain ⟨raw, hRaw, hSegment⟩ :=
        encodeComponents_segment hOpaque (hTyped.imp fun _ _ hComponent => hComponent.2)
      rw [encode, hRaw] at hEncoded
      cases hEncoded
      rw [decodeNested, underflowProfile]
      exact hSegment.bind_pure rfl
  | .kv keyCoder valueCoder, .kv key value, encoded, hOpaque, hTyped, hEncoded => by
      rw [noJavaOpaque, Bool.and_eq_true] at hOpaque
      rw [WellTyped] at hTyped
      obtain ⟨keyBytes, hKeyBytes, hKey⟩ := encodeKey_segment hOpaque.1
        (fun record raw => encode_segment keyCoder record raw hOpaque.1) hTyped.1
      rw [encode, hKeyBytes, Option.bind_eq_bind, Option.bind_some] at hEncoded
      obtain ⟨valueBytes, hValueBytes, hAppend⟩ := Option.bind_eq_some_iff.mp hEncoded
      cases hAppend
      have hValue := encode_segment valueCoder value valueBytes hOpaque.2 hTyped.2 hValueBytes
      rw [decodeNested, underflowProfile]
      exact hKey.bind (hValue.bind_pure rfl)
  | .gbk keyCoder elementCoder, .gbk key list, encoded, hOpaque, hTyped, hEncoded => by
      rw [noJavaOpaque, Bool.and_eq_true] at hOpaque
      rw [WellTyped] at hTyped
      obtain ⟨keyBytes, hKeyBytes, hKey⟩ := encodeKey_segment hOpaque.1
        (fun record raw => encode_segment keyCoder record raw hOpaque.1) hTyped.1
      rw [encode, hKeyBytes, Option.bind_eq_bind, Option.bind_some] at hEncoded
      obtain ⟨listBytes, hListBytes, hAppend⟩ := Option.bind_eq_some_iff.mp hEncoded
      cases hAppend
      rw [decodeNested, underflowProfile]
      refine hKey.bind (Segment.bind_pure (iterableCoder_segment list ?_ hListBytes) rfl)
      intro record hMem raw hRaw
      exact encode_segment elementCoder record raw hOpaque.2 (hTyped.2 record hMem) hRaw
  | .stringUtf8, .primitive value, _, hOpaque, hTyped, hEncoded
  | .bytes, .primitive value, _, hOpaque, hTyped, hEncoded
  | .varInt, .primitive value, _, hOpaque, hTyped, hEncoded
  | .varInt32, .primitive value, _, hOpaque, hTyped, hEncoded
  | .bool, .primitive value, _, hOpaque, hTyped, hEncoded
  | .double, .primitive value, _, hOpaque, hTyped, hEncoded
  | .void, .primitive value, _, hOpaque, hTyped, hEncoded
  | .lengthPrefix, .primitive value, _, hOpaque, hTyped, hEncoded
  | .pickle, .primitive value, _, hOpaque, hTyped, hEncoded => by
      rw [encode_primitive] at hEncoded
      obtain ⟨raw, hRaw, hSegment⟩ := encodePrimitive_segment _ value hOpaque hTyped
      cases hRaw.symm.trans hEncoded
      exact hSegment

/-- An iterable that can be counted is written when its elements are. -/
theorem iterableCoder_encode_isSome {element : BeamRecord → Option (List UInt8)}
    {list : List BeamRecord} (hLength : list.length ≤ i32Max)
    (h : ∀ record ∈ list, ∃ raw, element record = some raw) :
    ∃ raw, IterableCoder.encode element list = some raw := by
  have hAll : ∀ tail : List BeamRecord, (∀ record ∈ tail, ∃ raw, element record = some raw) →
      ∃ parts, tail.mapM element = some parts := by
    intro tail hTail
    induction tail with
    | nil => exact ⟨[], by simp⟩
    | cons record rest ih =>
        obtain ⟨raw, hRaw⟩ := hTail record (by simp)
        obtain ⟨parts, hParts⟩ := ih (fun other hOther => hTail other (by simp [hOther]))
        exact ⟨raw :: parts, by simp [hRaw, hParts]⟩
  obtain ⟨parts, hParts⟩ := hAll list h
  exact ⟨_, by rw [IterableCoder.encode, if_pos hLength, hParts]; rfl⟩

/-- Encoding panics on no record its coder accepts, as long as every list can
declare its length. -/
theorem encode_isSome : ∀ (coder : StandardBeamCoders) (record : BeamRecord),
    coder.noJavaOpaque = true → coder.WellTyped record → coder.LengthsFit record →
    ∃ raw, coder.encode record = some raw
  | .nullable valueCoder, record, hOpaque, hTyped, hFit => by
      rw [noJavaOpaque] at hOpaque
      by_cases hVoid : record = .primitive .void
      · exact ⟨[0], by rw [hVoid, encode, NullableCoder.encode]⟩
      · rw [WellTyped] at hTyped
        rw [LengthsFit] at hFit
        obtain ⟨raw, hRaw⟩ :=
          encode_isSome valueCoder record hOpaque (hTyped.resolve_left hVoid) hFit
        exact ⟨1 :: raw, by rw [encode_nullable hVoid, hRaw]; rfl⟩
  | .iterable elementCoder, .iterable list, hOpaque, hTyped, hFit => by
      rw [noJavaOpaque] at hOpaque
      rw [WellTyped] at hTyped
      rw [LengthsFit] at hFit
      rw [encode]
      exact iterableCoder_encode_isSome hFit.1 fun record hMem =>
        encode_isSome elementCoder record hOpaque (hTyped record hMem) (hFit.2 record hMem)
  | .tuple componentCoders, .tuple values, hOpaque, hTyped, _ => by
      rw [noJavaOpaque] at hOpaque
      rw [WellTyped] at hTyped
      obtain ⟨raw, hRaw, _⟩ :=
        encodeComponents_segment hOpaque (hTyped.imp fun _ _ hComponent => hComponent.2)
      exact ⟨raw, by rw [encode, hRaw]⟩
  | .kv keyCoder valueCoder, .kv key value, hOpaque, hTyped, hFit => by
      rw [noJavaOpaque, Bool.and_eq_true] at hOpaque
      rw [WellTyped] at hTyped
      rw [LengthsFit] at hFit
      obtain ⟨keyBytes, hKeyBytes, _⟩ := encodeKey_segment hOpaque.1
        (fun record raw => encode_segment keyCoder record raw hOpaque.1) hTyped.1
      obtain ⟨valueBytes, hValueBytes⟩ :=
        encode_isSome valueCoder value hOpaque.2 hTyped.2 hFit
      exact ⟨keyBytes ++ valueBytes, by rw [encode, hKeyBytes, hValueBytes]; rfl⟩
  | .gbk keyCoder elementCoder, .gbk key list, hOpaque, hTyped, hFit => by
      rw [noJavaOpaque, Bool.and_eq_true] at hOpaque
      rw [WellTyped] at hTyped
      rw [LengthsFit] at hFit
      obtain ⟨keyBytes, hKeyBytes, _⟩ := encodeKey_segment hOpaque.1
        (fun record raw => encode_segment keyCoder record raw hOpaque.1) hTyped.1
      obtain ⟨listBytes, hListBytes⟩ := iterableCoder_encode_isSome hFit.1 fun record hMem =>
        encode_isSome elementCoder record hOpaque.2 (hTyped.2 record hMem) (hFit.2 record hMem)
      exact ⟨keyBytes ++ listBytes, by rw [encode, hKeyBytes, hListBytes]; rfl⟩
  | .stringUtf8, .primitive value, hOpaque, hTyped, _
  | .bytes, .primitive value, hOpaque, hTyped, _
  | .varInt, .primitive value, hOpaque, hTyped, _
  | .varInt32, .primitive value, hOpaque, hTyped, _
  | .bool, .primitive value, hOpaque, hTyped, _
  | .double, .primitive value, hOpaque, hTyped, _
  | .void, .primitive value, hOpaque, hTyped, _
  | .lengthPrefix, .primitive value, hOpaque, hTyped, _
  | .pickle, .primitive value, hOpaque, hTyped, _ => by
      rw [encode_primitive]
      obtain ⟨raw, hRaw, _⟩ := encodePrimitive_segment _ value hOpaque hTyped
      exact ⟨raw, hRaw⟩

/-- A record read back from its own nested encoding, with the bytes that follow
it left untouched. -/
theorem decode_encode (coder : StandardBeamCoders) (record : BeamRecord)
    (hOpaque : coder.noJavaOpaque = true) (hTyped : coder.WellTyped record)
    (hFit : coder.LengthsFit record) :
    ∃ raw, coder.encode record = some raw ∧
      ∀ rest, coder.decode (raw ++ rest) = .ok record rest := by
  obtain ⟨raw, hRaw⟩ := encode_isSome coder record hOpaque hTyped hFit
  exact ⟨raw, hRaw, (encode_segment coder record raw hOpaque hTyped hRaw).frames⟩

/-- A keyed iterable of optional doubles, under a composite key that is stored
as the bytes of its own encoding. -/
theorem decode_encode_nested_kv :
    ∃ raw, (kv (kv varInt bool) (iterable (nullable double))).encode
        (.kv (.bytes [5, 1]) (.iterable [.primitive .void, .primitive (.float64 7)])) = some raw ∧
      ∀ rest, (kv (kv varInt bool) (iterable (nullable double))).decode (raw ++ rest) =
        .ok (.kv (.bytes [5, 1]) (.iterable [.primitive .void, .primitive (.float64 7)])) rest := by
  refine decode_encode _ _ rfl ?_ ?_
  · refine ⟨⟨.kv (.int64 5) (.primitive (.bool true)), [5, 1], rfl, ?_, by decide⟩, ?_⟩
    · exact ⟨trivial, trivial⟩
    · intro record hMem
      simp only [List.mem_cons, List.not_mem_nil, or_false] at hMem
      rcases hMem with rfl | rfl
      · exact Or.inl rfl
      · exact Or.inr trivial
  · refine ⟨by decide, ?_⟩
    intro record hMem
    simp only [List.mem_cons, List.not_mem_nil, or_false] at hMem
    rcases hMem with rfl | rfl <;> trivial

/-- An iterable declares its length as a positive 32-bit count, and the encoder
refuses any list that does not fit. -/
theorem not_decode_encode_long_iterable :
    ¬ ∀ (coder : StandardBeamCoders) (record : BeamRecord), coder.noJavaOpaque = true →
      coder.WellTyped record → ∃ raw, coder.encode record = some raw ∧
        ∀ rest, coder.decode (raw ++ rest) = .ok record rest := by
  intro h
  obtain ⟨raw, hRaw, _⟩ := h (iterable void)
    (.iterable (List.replicate (2 ^ 31) (.primitive .void))) rfl (by
      rw [WellTyped]
      intro record hMem
      rw [List.eq_of_mem_replicate hMem]
      trivial)
  rw [encode, IterableCoder.encode, if_neg] at hRaw
  · cases hRaw
  · rw [List.length_replicate, i32Max]
    omega

end StandardBeamCoders
end FlareDB
