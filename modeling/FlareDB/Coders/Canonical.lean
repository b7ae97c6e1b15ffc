import FlareDB.Coders.Yields
import FlareDB.Lib.Results

/-! Encoding what was decoded: when it succeeds, and when it gives the bytes that
were read. -/
namespace FlareDB

open ByteDecoder Decoder

namespace StandardBeamCoders

/-! Scalars. -/

/-- A scalar that was read can be written. -/
theorem exists_encode_scalar : ∀ (coder : StandardBeamCoders) (value : PrimitiveValue),
    coder.Yields (.primitive value) → ∃ bytes, coder.encode (.primitive value) = some bytes
  | .nullable valueCoder, value, h => by
      by_cases hVoid : value = .void
      · exact ⟨[0], by rw [hVoid, encode, NullableCoder.encode]⟩
      · have hPresent : BeamRecord.primitive value ≠ .primitive .void := fun hSame =>
          hVoid (BeamRecord.primitive.inj hSame)
        obtain ⟨bytes, hBytes⟩ :=
          exists_encode_scalar valueCoder value ((yields_nullable h).resolve_left hPresent)
        exact ⟨1 :: bytes, by rw [encode_nullable hPresent, hBytes]; rfl⟩
  | .stringUtf8, _, h | .bytes, _, h | .javaOpaque, _, h | .varInt, _, h | .varInt32, _, h
  | .bool, _, h | .double, _, h | .pickle, _, h | .lengthPrefix, _, h => by
      obtain ⟨bytes, rest, hDecode⟩ := h
      rw [decode, decodeNested] at hDecode
      obtain ⟨found, middle, -, hPure⟩ := bind_eq_ok hDecode
      cases hPure
      exact ⟨_, by rw [encode_primitive]; rfl⟩
  | .void, _, h => by
      obtain ⟨bytes, rest, hDecode⟩ := h
      rw [decode, decodeNested] at hDecode
      cases hDecode
      exact ⟨[], by rw [encode_primitive]; rfl⟩
  | .iterable _, _, h => by
      obtain ⟨list, hSame, -⟩ := yields_iterable h
      cases hSame
  | .tuple _, _, h => by
      obtain ⟨values, hSame, -⟩ := yields_tuple h
      cases hSame
  | .kv _ _, _, h => by
      obtain ⟨key, value, hSame, -⟩ := yields_kv h
      cases hSame
  | .gbk _ _, _, h => by
      obtain ⟨key, list, hSame, -⟩ := yields_gbk h
      cases hSame

theorem exists_encodeKey {coder : StandardBeamCoders} {key : PrimitiveValue}
    (h : coder.YieldsKey key) : ∃ bytes, coder.encodeKey key = some bytes := by
  have hCases := yieldsKey_cases h
  unfold encodeKey
  split at hCases
  · next hPrimitive =>
      obtain ⟨bytes, hBytes⟩ := exists_encode_scalar coder key hCases
      exact ⟨bytes, by rw [if_pos hPrimitive, ← encode_primitive, hBytes]⟩
  · next hComposite =>
      obtain ⟨record, raw, rfl, -⟩ := hCases
      exact ⟨raw, if_neg hComposite⟩

theorem exists_encodeComponents {coders : List StandardBeamCoders} {values : List PrimitiveValue}
    (h : List.Forall₂ (fun coder value => coder.Yields (.primitive value)) coders values) :
    ∃ bytes, encodeComponents coders values = some bytes := by
  induction h with
  | nil => exact ⟨[], by rw [encodeComponents]⟩
  | @cons coder value coders values hHead _ ih =>
      obtain ⟨first, hFirst⟩ := exists_encode_scalar coder value hHead
      obtain ⟨rest, hRest⟩ := ih
      exact ⟨first ++ rest, by rw [encodeComponents, hFirst, hRest]; rfl⟩

theorem lengthsFit_primitive : ∀ (coder : StandardBeamCoders) (value : PrimitiveValue),
    coder.LengthsFit (.primitive value)
  | .nullable valueCoder, value => by
      rw [LengthsFit]
      exact lengthsFit_primitive valueCoder value
  | .stringUtf8, _ | .bytes, _ | .javaOpaque, _ | .varInt, _ | .varInt32, _ | .bool, _
  | .double, _ | .void, _ | .iterable _, _ | .lengthPrefix, _ | .pickle, _ | .tuple _, _
  | .kv _ _, _ | .gbk _ _, _ => trivial

/-! All coders. -/

/-- Some bytes are written for the record. -/
def Encodes (encode : BeamRecord → Option (List UInt8)) (record : BeamRecord) : Prop :=
  ∃ bytes, encode record = some bytes

theorem encodes_iterable_iff {element : BeamRecord → Option (List UInt8)} {list : List BeamRecord} :
    (∃ bytes, IterableCoder.encode element list = some bytes) ↔
      list.length ≤ i32Max ∧ ∀ record ∈ list, Encodes element record := by
  constructor
  · rintro ⟨bytes, hBytes⟩
    unfold IterableCoder.encode at hBytes
    split at hBytes
    · next hLength =>
        obtain ⟨parts, hParts, -⟩ := Option.map_eq_some_iff.mp hBytes
        refine ⟨hLength, fun record hMem => ?_⟩
        obtain ⟨row, hRow⟩ := List.mem_iff_getElem?.mp hMem
        obtain ⟨part, -, hPart⟩ := Results.forall₂_row (forall₂_parts hParts) hRow
        exact ⟨part, hPart⟩
    · cases hBytes
  · rintro ⟨hLength, hAll⟩
    exact iterableCoder_encode_isSome hLength hAll

/-- A record that was read can be written as long as every list in it can declare
its length. -/
theorem encodes_iff_lengthsFit : ∀ (coder : StandardBeamCoders) (record : BeamRecord),
    coder.Yields record → (Encodes coder.encode record ↔ coder.LengthsFit record)
  | .nullable valueCoder, record, h => by
      by_cases hVoid : record = .primitive .void
      · rw [hVoid]
        exact iff_of_true ⟨[0], by rw [encode, NullableCoder.encode]⟩ (lengthsFit_primitive _ _)
      · rw [LengthsFit, ← encodes_iff_lengthsFit valueCoder record
          ((yields_nullable h).resolve_left hVoid)]
        simp only [Encodes, encode_nullable hVoid, Option.map_eq_some_iff]
        constructor
        · rintro ⟨written, raw, hRaw, -⟩
          exact ⟨raw, hRaw⟩
        · rintro ⟨raw, hRaw⟩
          exact ⟨1 :: raw, raw, hRaw, rfl⟩
  | .iterable elementCoder, record, h => by
      obtain ⟨list, rfl, hAll⟩ := yields_iterable h
      rw [LengthsFit, Encodes, encode, encodes_iterable_iff]
      exact and_congr_right' (forall₂_congr fun element hMem =>
        encodes_iff_lengthsFit elementCoder element (hAll element hMem))
  | .tuple componentCoders, record, h => by
      obtain ⟨values, rfl, hAll⟩ := yields_tuple h
      obtain ⟨bytes, hBytes⟩ := exists_encodeComponents hAll
      exact iff_of_true ⟨bytes, by rw [encode, hBytes]⟩ trivial
  | .kv keyCoder valueCoder, record, h => by
      obtain ⟨key, value, rfl, hKey, hValue⟩ := yields_kv h
      obtain ⟨keyBytes, hKeyBytes⟩ := exists_encodeKey hKey
      rw [LengthsFit, ← encodes_iff_lengthsFit valueCoder value hValue, Encodes, Encodes, encode,
        hKeyBytes]
      simp [Option.bind_eq_some_iff]
  | .gbk keyCoder elementCoder, record, h => by
      obtain ⟨key, list, rfl, hKey, hList⟩ := yields_gbk h
      obtain ⟨keyBytes, hKeyBytes⟩ := exists_encodeKey hKey
      obtain ⟨found, hSame, hAll⟩ := yields_iterable hList
      cases hSame
      have hElements : (∃ bytes, IterableCoder.encode elementCoder.encode list = some bytes) ↔
          list.length ≤ i32Max ∧ ∀ record ∈ list, elementCoder.LengthsFit record :=
        encodes_iterable_iff.trans (and_congr_right' (forall₂_congr fun element hMem =>
          encodes_iff_lengthsFit elementCoder element (hAll element hMem)))
      rw [LengthsFit, ← hElements, Encodes, encode, hKeyBytes]
      simp [Option.bind_eq_some_iff]
  | .stringUtf8, record, h | .bytes, record, h | .javaOpaque, record, h | .varInt, record, h
  | .varInt32, record, h | .bool, record, h | .double, record, h | .pickle, record, h
  | .lengthPrefix, record, h => by
      obtain ⟨bytes, rest, hDecode⟩ := id h
      rw [decode, decodeNested] at hDecode
      obtain ⟨found, middle, -, hPure⟩ := bind_eq_ok hDecode
      cases hPure
      exact iff_of_true (exists_encode_scalar _ _ h) (lengthsFit_primitive _ _)
  | .void, record, h => by
      obtain ⟨bytes, rest, hDecode⟩ := id h
      rw [decode, decodeNested] at hDecode
      cases hDecode
      exact iff_of_true (exists_encode_scalar _ _ h) (lengthsFit_primitive _ _)

/-! The bytes of a scalar. -/

/-- The coder writes a null as these bytes. -/
def NullWire : StandardBeamCoders → List UInt8 → Prop
  | .void, _ => True
  | .nullable _, wire => wire = [0]
  | _, _ => False

/-- The bytes a coder of scalars writes for some value. A nullable coder marks what
its component does not write as a null already. -/
def Canonical : StandardBeamCoders → List UInt8 → Prop
  | .stringUtf8, wire | .bytes, wire | .pickle, wire | .lengthPrefix, wire =>
      ∃ raw, wire = encodeLengthDelimited raw
  | .varInt, wire => ∃ value, wire = encodeVarint value
  | .varInt32, wire => ∃ value : UInt32, wire = encodeVarint value.toUInt64
  | .bool, wire => wire = [0] ∨ wire = [1]
  | .void, wire => wire = []
  | .javaOpaque, _ | .double, _ => True
  | .nullable valueCoder, wire => wire = [0] ∨
      ∃ present, wire = 1 :: present ∧ Canonical valueCoder present ∧ ¬ NullWire valueCoder present
  | .iterable _, _ | .tuple _, _ | .kv _ _, _ | .gbk _ _, _ => False

theorem nullWire_of_encode {coder : StandardBeamCoders} {wire : List UInt8}
    (h : coder.encode (.primitive .void) = some wire) : NullWire coder wire := by
  rw [encode_primitive] at h
  cases coder with
  | void => trivial
  | nullable valueCoder =>
      rw [encodePrimitive] at h
      exact (Option.some.inj h).symm
  | _ => cases h

/-- What is written for a scalar is canonical. -/
theorem canonical_of_encode : ∀ (coder : StandardBeamCoders) (value : PrimitiveValue)
    (wire : List UInt8), coder.encode (.primitive value) = some wire → Canonical coder wire
  | .nullable valueCoder, value, wire, h => by
      by_cases hVoid : value = .void
      · rw [hVoid, encode, NullableCoder.encode] at h
        exact .inl (Option.some.inj h).symm
      · have hPresent : BeamRecord.primitive value ≠ .primitive .void := fun hSame =>
          hVoid (BeamRecord.primitive.inj hSame)
        rw [encode_nullable hPresent] at h
        obtain ⟨present, hRaw, rfl⟩ := Option.map_eq_some_iff.mp h
        refine .inr ⟨present, rfl, canonical_of_encode valueCoder value present hRaw, ?_⟩
        intro hNull
        cases valueCoder with
        | void =>
            rw [encode_primitive] at hRaw
            cases value with
            | void => exact hVoid rfl
            | _ => cases hRaw
        | nullable inner =>
            rw [encode_nullable hPresent] at hRaw
            obtain ⟨raw, -, rfl⟩ := Option.map_eq_some_iff.mp hRaw
            exact absurd (List.cons.inj hNull).1 (by decide)
        | _ => exact hNull
  | .stringUtf8, value, _, h | .bytes, value, _, h | .pickle, value, _, h
  | .lengthPrefix, value, _, h | .varInt, value, _, h | .varInt32, value, _, h => by
      rw [encode_primitive] at h
      cases value <;> cases h
      exact ⟨_, rfl⟩
  | .bool, value, _, h => by
      rw [encode_primitive] at h
      cases value <;> cases h
      next value =>
        cases value with
        | false => exact .inl rfl
        | true => exact .inr rfl
  | .void, value, _, h => by
      rw [encode_primitive] at h
      cases value <;> cases h
      rfl
  | .javaOpaque, _, _, _ | .double, _, _, _ => trivial
  | .iterable _, _, _, h | .tuple _, _, _, h | .kv _ _, _, _, h | .gbk _ _, _, _, h => by
      rw [encode_primitive] at h
      cases h

theorem encodeVarint_ne_nil (value : UInt64) : encodeVarint value ≠ [] := by
  intro h
  have hFrames := (encodeVarint_segment value).frames []
  rw [h] at hFrames
  cases hFrames

/-- A coder whose bytes may be none has nothing to write, or owns all that is left. -/
theorem of_canonical_nil {coder : StandardBeamCoders} (h : Canonical coder []) :
    coder = .void ∨ coder = .javaOpaque ∨ coder = .double := by
  cases coder with
  | void => exact .inl rfl
  | javaOpaque => exact .inr (.inl rfl)
  | double => exact .inr (.inr rfl)
  | stringUtf8 | bytes | pickle | lengthPrefix =>
      obtain ⟨raw, hRaw⟩ := h
      exact absurd (List.append_eq_nil_iff.mp hRaw.symm).1 (encodeVarint_ne_nil _)
  | varInt | varInt32 =>
      obtain ⟨value, hValue⟩ := h
      exact absurd hValue.symm (encodeVarint_ne_nil _)
  | bool => rcases h with h | h <;> cases h
  | nullable valueCoder =>
      rcases h with h | ⟨present, h, -⟩ <;> cases h
  | iterable _ | tuple _ | kv _ _ | gbk _ _ => exact h.elim

/-- A body that ends where its reader stops is what is read. -/
theorem decodeLengthDelimited_framed {coderName : String} {raw value after : List UInt8}
    (h : decodeLengthDelimited coderName (encodeLengthDelimited raw ++ after) = .ok value after) :
    value = raw := by
  rw [encodeLengthDelimited, List.append_assoc, decodeLengthDelimited, bind_apply,
    (encodeVarint_segment _).frames] at h
  change (if (UInt64.ofNat raw.length).toNat > (raw ++ after).length then fail _
    else take (UInt64.ofNat raw.length).toNat) (raw ++ after) = .ok value after at h
  generalize (UInt64.ofNat raw.length).toNat = len at h
  split at h
  · cases h
  next hEnough =>
    rw [take, if_neg (by omega)] at h
    obtain ⟨hValue, hAfter⟩ := Outcome.ok.inj h
    have hLength := congrArg List.length hAfter
    rw [List.length_drop, List.length_append] at hLength
    rw [List.length_append] at hEnough
    have hLen : len = raw.length := by omega
    rw [← hValue, hLen, List.take_left]

theorem doubleCoder_decode {bytes rest : List UInt8} {bits : UInt64}
    (h : DoubleCoder.decode bytes = .ok bits rest) : bytes = DoubleCoder.encode bits ++ rest := by
  change (if bytes.length < 8 then fail _ else _) bytes = .ok bits rest at h
  split at h
  · cases h
  next hLong =>
    obtain ⟨raw, middle, hTake, hPure⟩ := bind_eq_ok h
    rw [take, if_neg hLong] at hTake
    cases hTake
    cases hPure
    have hLength : (bytes.take 8).length = 8 := by
      rw [List.length_take]
      omega
    have hSmall : BigEndian.toNat (bytes.take 8) < 2 ^ 64 := by
      have hLt := BigEndian.toNat_lt (bytes.take 8)
      rw [hLength] at hLt
      exact hLt
    have hBack := BigEndian.toBytes_toNat (bytes.take 8)
    rw [hLength] at hBack
    rw [DoubleCoder.encode, UInt64.toNat_ofNat', Nat.mod_eq_of_lt hSmall, hBack, List.take_append_drop]

/-- A scalar that is read from its canonical bytes is written as the same bytes. -/
theorem encode_of_canonical : ∀ (coder : StandardBeamCoders) (value : PrimitiveValue)
    (wire after : List UInt8), Canonical coder wire →
    coder.decodeNested (wire ++ after) = .ok (.primitive value) after →
    coder.encode (.primitive value) = some wire
  | .nullable valueCoder, value, wire, after, hWire, h => by
      rw [decodeNested] at h
      rcases hWire with rfl | ⟨present, rfl, hPresent, hNotNull⟩
      · cases h
        rw [encode, NullableCoder.encode]
      · have hInner : valueCoder.decodeNested (present ++ after) = .ok (.primitive value) after := h
        have hRaw := encode_of_canonical valueCoder value present after hPresent hInner
        have hSome : BeamRecord.primitive value ≠ .primitive .void := by
          intro hVoid
          rw [hVoid] at hRaw
          exact hNotNull (nullWire_of_encode hRaw)
        rw [encode_nullable hSome, hRaw]
        rfl
  | .stringUtf8, value, _, after, hWire, h => by
      obtain ⟨raw, rfl⟩ := hWire
      rw [decodeNested] at h
      obtain ⟨text, middle, hText, hPure⟩ := bind_eq_ok h
      cases hPure
      obtain ⟨found, last, hFound, hUtf8⟩ := bind_eq_ok hText
      cases hValid : String.fromUTF8? ⟨found.toArray⟩ with
      | none =>
          rw [hValid] at hUtf8
          cases hUtf8
      | some valid =>
          rw [hValid] at hUtf8
          cases hUtf8
          rw [encode_primitive, encodePrimitive, StringUtf8Coder.encode, utf8Bytes_of_fromUTF8 hValid,
            decodeLengthDelimited_framed hFound]
  | .bytes, value, _, after, hWire, h | .pickle, value, _, after, hWire, h
  | .lengthPrefix, value, _, after, hWire, h => by
      obtain ⟨raw, rfl⟩ := hWire
      rw [decodeNested] at h
      obtain ⟨found, middle, hFound, hPure⟩ := bind_eq_ok h
      cases hPure
      rw [encode_primitive, decodeLengthDelimited_framed hFound]
      rfl
  | .javaOpaque, value, wire, after, _, h => by
      cases h
      rw [encode_primitive, List.append_nil]
      rfl
  | .varInt, value, _, after, hWire, h => by
      obtain ⟨word, rfl⟩ := hWire
      rw [decodeNested] at h
      obtain ⟨found, middle, hFound, hPure⟩ := bind_eq_ok h
      cases hPure
      rw [decodeSignedVarint, bind_apply, (encodeVarint_segment word).frames] at hFound
      cases hFound
      rw [encode_primitive, encodePrimitive, encodeSignedVarint, UInt64.toUInt64_toInt64]
  | .varInt32, value, _, after, hWire, h => by
      obtain ⟨word, rfl⟩ := hWire
      rw [decodeNested] at h
      obtain ⟨found, middle, hFound, hPure⟩ := bind_eq_ok h
      cases hPure
      rw [VarInt32Coder.decode, bind_apply, (encodeVarint_segment word.toUInt64).frames] at hFound
      dsimp only at hFound
      split at hFound
      · cases hFound
      · cases hFound
        rw [encode_primitive, encodePrimitive, VarInt32Coder.encode]
        simp
  | .bool, value, _, after, hWire, h => by
      rw [encode_primitive]
      rcases hWire with rfl | rfl <;> cases h <;> rfl
  | .double, value, wire, after, _, h => by
      rw [decodeNested] at h
      obtain ⟨bits, middle, hBits, hPure⟩ := bind_eq_ok h
      cases hPure
      rw [encode_primitive, encodePrimitive, List.append_cancel_right (doubleCoder_decode hBits)]
  | .void, value, wire, after, hWire, h => by
      have hNothing : wire = [] := hWire
      subst hNothing
      cases h
      rw [encode_primitive]
      rfl
  | .iterable _, _, _, _, hWire, _ | .tuple _, _, _, _, hWire, _ | .kv _ _, _, _, _, hWire, _
  | .gbk _ _, _, _, _, hWire, _ => hWire.elim

end StandardBeamCoders
end FlareDB
