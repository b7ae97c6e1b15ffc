import FlareDB.Coders.Yields

/-! Every coder tree, opaque Java leaves included: what a coder wrote ends where
it stands, or its decoder takes everything that is left and returns what is
written as all of it. -/
namespace FlareDB

open ByteDecoder Decoder

/-! The slots of composite coders. -/

section Slots

variable {decode : CoderDecoder BeamRecord} {encode : BeamRecord → Option (List UInt8)}

theorem idle_primitive (h : Idle decode encode) :
    Idle (StandardBeamCoders.decodePrimitiveWith decode) fun value => encode (.primitive value) :=
  fun value left hValue => h (.primitive value) left (StandardBeamCoders.decodePrimitiveWith_eq_ok hValue)

/-- A bounded coder of records stays bounded when it is asked for primitives only. -/
theorem bounded_primitive {bytes : List UInt8} {value : PrimitiveValue}
    (h : Bounded decode encode bytes (.primitive value)) :
    Bounded (StandardBeamCoders.decodePrimitiveWith decode) (fun value => encode (.primitive value))
      bytes value := by
  rcases h with hDelimited | hSwallows
  · exact .inl (hDelimited.bind_pure rfl)
  · exact .inr fun rest found left hFound =>
      hSwallows rest (.primitive found) left (StandardBeamCoders.decodePrimitiveWith_eq_ok hFound)

theorem idle_iterable (encode : BeamRecord → Option (List UInt8)) :
    Idle (IterableCoder.decode decode) (IterableCoder.encode encode) := by
  intro list left h
  cases h

/-- An iterable is bounded if its elements are: each of them ends where it stands,
or takes what is left and is followed by elements that are written as nothing. -/
theorem bounded_iterable {list : List BeamRecord}
    (h : ∀ record ∈ list, ∀ bytes, encode record = some bytes → Bounded decode encode bytes record)
    (hIdle : list ≠ [] → Idle decode encode) {bytes : List UInt8}
    (hBytes : IterableCoder.encode encode list = some bytes) :
    Bounded (IterableCoder.decode decode) (IterableCoder.encode encode) bytes list := by
  unfold IterableCoder.encode at hBytes
  split at hBytes
  next hCount =>
    obtain ⟨parts, hParts, rfl⟩ := Option.map_eq_some_iff.mp hBytes
    have hRead : ∀ rest, IterableCoder.decode decode (putI32 list.length ++ rest) =
        decode.times list.length rest := by
      intro rest
      rw [IterableCoder.decode, bind_apply, (putI32_segment hCount).frames]
      dsimp only
      rw [if_pos (Int.natCast_nonneg _), Int.toNat_natCast]
    rcases bounded_times list h hIdle hParts with hDelimited | hSwallows
    · refine .inl fun rest => ?_
      rw [List.append_assoc, hRead]
      exact hDelimited rest
    · refine .inr fun rest found left hFound => ?_
      rw [List.append_assoc, hRead] at hFound
      obtain ⟨hLeft, hRun⟩ := hSwallows rest found left hFound
      refine ⟨hLeft, ?_⟩
      unfold encodeRun at hRun
      split at hRun
      next hLength =>
        obtain ⟨others, hOthers, hFlatten⟩ := Option.map_eq_some_iff.mp hRun
        rw [IterableCoder.encode, hLength, if_pos hCount, hOthers, Option.map_some, hFlatten,
          List.append_assoc]
      · cases hRun
  · cases hBytes

end Slots

namespace StandardBeamCoders

/-! A value that is written as present is not read back as a null. -/

/-- What is written for a record other than Void is not read back as Void. -/
theorem decodeNested_ne_void : ∀ (coder : StandardBeamCoders) (record : BeamRecord)
    (encoded : List UInt8), coder.WellTyped record → record ≠ .primitive .void →
    coder.encode record = some encoded → ∀ rest found left,
    coder.decodeNested (encoded ++ rest) = .ok found left → found ≠ .primitive .void
  | .nullable valueCoder, record, _, hTyped, hVoid, hEncoded, rest, found, left, h => by
      rw [encode_nullable hVoid] at hEncoded
      obtain ⟨raw, hRaw, rfl⟩ := Option.map_eq_some_iff.mp hEncoded
      rw [WellTyped] at hTyped
      exact decodeNested_ne_void valueCoder record raw (hTyped.resolve_left hVoid) hVoid hRaw rest
        found left h
  | .void, record, _, hTyped, hVoid, _, _, _, _, _ => by
      cases record with
      | primitive value =>
          cases value with
          | void => exact absurd rfl hVoid
          | string _ | bytes _ | int64 _ | float64 _ | bool _ => exact hTyped.elim
      | iterable _ | kv _ _ | gbk _ _ | tuple _ => exact hTyped.elim
  | .stringUtf8, _, _, _, _, _, _, _, _, h | .bytes, _, _, _, _, _, _, _, _, h
  | .javaOpaque, _, _, _, _, _, _, _, _, h | .varInt, _, _, _, _, _, _, _, _, h
  | .varInt32, _, _, _, _, _, _, _, _, h | .bool, _, _, _, _, _, _, _, _, h
  | .double, _, _, _, _, _, _, _, _, h | .pickle, _, _, _, _, _, _, _, _, h
  | .lengthPrefix, _, _, _, _, _, _, _, _, h | .iterable _, _, _, _, _, _, _, _, _, h
  | .tuple _, _, _, _, _, _, _, _, _, h => by
      rw [decodeNested] at h
      obtain ⟨value, middle, -, hPure⟩ := bind_eq_ok h
      cases hPure
      exact fun hSame => by cases hSame
  | .kv _ _, _, _, _, _, _, _, _, _, h | .gbk _ _, _, _, _, _, _, _, _, _, h => by
      rw [decodeNested] at h
      obtain ⟨key, middle, -, h⟩ := bind_eq_ok h
      obtain ⟨value, last, -, hPure⟩ := bind_eq_ok h
      cases hPure
      exact fun hSame => by cases hSame

/-! Scalars. -/

/-- At the end of the cursor there is no indicator, so a nullable value is not
read there. -/
theorem idle_nullable (valueCoder : StandardBeamCoders) :
    Idle (nullable valueCoder).decodeNested (nullable valueCoder).encode := by
  intro record left h
  cases h

/-- What a scalar's decoder returns at the end of the cursor is written as nothing. -/
theorem idle_scalar {coder : StandardBeamCoders} {value : PrimitiveValue}
    (h : coder.WellTypedPrimitive value) : Idle coder.decodeNested coder.encode := by
  cases coder with
  | nullable valueCoder => exact idle_nullable valueCoder
  | javaOpaque | void =>
      intro record left hEnd
      cases hEnd
      exact ⟨rfl, rfl⟩
  | stringUtf8 | bytes | pickle | lengthPrefix | varInt | varInt32 | bool | double =>
      intro record left hEnd
      cases hEnd
  | iterable _ | tuple _ | kv _ _ | gbk _ _ => exact h.elim

theorem wellTyped_primitive : ∀ (coder : StandardBeamCoders) (value : PrimitiveValue),
    coder.WellTypedPrimitive value → coder.WellTyped (.primitive value)
  | .nullable valueCoder, value, h => by
      rw [WellTypedPrimitive] at h
      rw [WellTyped]
      exact h.imp (congrArg BeamRecord.primitive) (wellTyped_primitive valueCoder value)
  | .stringUtf8, _, h | .bytes, _, h | .javaOpaque, _, h | .varInt, _, h | .varInt32, _, h
  | .bool, _, h | .double, _, h | .void, _, h | .lengthPrefix, _, h | .pickle, _, h => h
  | .iterable _, _, h | .tuple _, _, h | .kv _ _, _, h | .gbk _ _, _, h => h.elim

/-- The indicator of an absent value ends where it stands. -/
theorem bounded_null (valueCoder : StandardBeamCoders) {encoded : List UInt8}
    (h : (nullable valueCoder).encode (.primitive .void) = some encoded) :
    Bounded (nullable valueCoder).decodeNested (nullable valueCoder).encode encoded
      (.primitive .void) := by
  have hNull : encoded = [0] := by simpa [encode, NullableCoder.encode] using h.symm
  rw [hNull]
  exact .inl fun rest => rfl

/-- A present value is as bounded as the coder of the value. -/
theorem bounded_present {valueCoder : StandardBeamCoders} {record : BeamRecord}
    {encoded : List UInt8} (hTyped : valueCoder.WellTyped record)
    (hVoid : record ≠ .primitive .void)
    (h : ∀ raw, valueCoder.encode record = some raw →
      Bounded valueCoder.decodeNested valueCoder.encode raw record)
    (hEncoded : (nullable valueCoder).encode record = some encoded) :
    Bounded (nullable valueCoder).decodeNested (nullable valueCoder).encode encoded record := by
  rw [encode_nullable hVoid] at hEncoded
  obtain ⟨raw, hRaw, rfl⟩ := Option.map_eq_some_iff.mp hEncoded
  rcases h raw hRaw with hDelimited | hSwallows
  · exact .inl fun rest => hDelimited rest
  · refine .inr fun rest found left hFound => ?_
    have hPresent := decodeNested_ne_void valueCoder record raw hTyped hVoid hRaw rest found left
      hFound
    obtain ⟨hLeft, hAll⟩ := hSwallows rest found left hFound
    refine ⟨hLeft, ?_⟩
    rw [encode_nullable hPresent, hAll]
    rfl

/-- The opaque leaf is the only scalar coder that reads on. -/
theorem bounded_scalar : ∀ (coder : StandardBeamCoders) (value : PrimitiveValue)
    (encoded : List UInt8), coder.WellTypedPrimitive value →
    coder.encode (.primitive value) = some encoded →
    Bounded coder.decodeNested coder.encode encoded (.primitive value)
  | .nullable valueCoder, value, encoded, hTyped, hEncoded => by
      by_cases hVoid : value = .void
      · subst hVoid
        exact bounded_null valueCoder hEncoded
      · rw [WellTypedPrimitive] at hTyped
        have hValue := hTyped.resolve_left hVoid
        exact bounded_present (wellTyped_primitive valueCoder value hValue)
          (fun hSame => hVoid (BeamRecord.primitive.inj hSame))
          (fun raw hRaw => bounded_scalar valueCoder value raw hValue hRaw) hEncoded
  | .javaOpaque, value, encoded, hTyped, hEncoded => by
      refine .inr fun rest found left h => ?_
      cases h
      exact ⟨rfl, rfl⟩
  | .stringUtf8, value, encoded, hTyped, hEncoded
  | .bytes, value, encoded, hTyped, hEncoded
  | .varInt, value, encoded, hTyped, hEncoded
  | .varInt32, value, encoded, hTyped, hEncoded
  | .bool, value, encoded, hTyped, hEncoded
  | .double, value, encoded, hTyped, hEncoded
  | .void, value, encoded, hTyped, hEncoded
  | .lengthPrefix, value, encoded, hTyped, hEncoded
  | .pickle, value, encoded, hTyped, hEncoded => by
      rw [encode_primitive] at hEncoded
      obtain ⟨raw, hRaw, hSegment⟩ := encodePrimitive_segment _ value rfl hTyped
      cases hRaw.symm.trans hEncoded
      exact .inl hSegment.delimited

/-! Tuples and keys. -/

/-- A tuple is written component by component. -/
theorem encodeComponents_cons {coder : StandardBeamCoders} {coders : List StandardBeamCoders}
    {value : PrimitiveValue} {values : List PrimitiveValue} {x y : List UInt8}
    (hX : coder.encode (.primitive value) = some x)
    (hY : encodeComponents coders values = some y) :
    encodeComponents (coder :: coders) (value :: values) = some (x ++ y) := by
  rw [encodeComponents, hX, hY]
  rfl

/-- A tuple that is read at the end of the cursor is written as nothing. -/
theorem idle_components {coders : List StandardBeamCoders} {values : List PrimitiveValue}
    (h : List.Forall₂ WellTypedPrimitive coders values) :
    Idle (decodeComponents coders) (encodeComponents coders) := by
  induction h with
  | nil =>
      intro found left hNil
      cases hNil
      exact ⟨rfl, rfl⟩
  | cons hHead _ ih =>
      exact (idle_primitive (idle_scalar hHead)).pair ih fun _ _ _ _ hX hY =>
        encodeComponents_cons hX hY

/-- A tuple is bounded component by component. -/
theorem bounded_components {coders : List StandardBeamCoders} {values : List PrimitiveValue}
    (h : List.Forall₂ WellTypedPrimitive coders values) {encoded : List UInt8}
    (hEncoded : encodeComponents coders values = some encoded) :
    Bounded (decodeComponents coders) (encodeComponents coders) encoded values := by
  induction h generalizing encoded with
  | nil =>
      cases hEncoded
      exact .inl fun rest => rfl
  | cons hHead hTail ih =>
      rw [encodeComponents] at hEncoded
      obtain ⟨first, hFirst, hEncoded⟩ := Option.bind_eq_some_iff.mp hEncoded
      obtain ⟨others, hOthers, hPure⟩ := Option.bind_eq_some_iff.mp hEncoded
      cases hPure
      have hHere : Bounded (decodePrimitiveWith _) (fun value => encode _ (.primitive value))
          first _ := bounded_primitive (bounded_scalar _ _ first hHead hFirst)
      exact hHere.pair hFirst (ih hOthers) (idle_components hTail) fun _ _ _ _ hX hY =>
        encodeComponents_cons hX hY

theorem encodeKey_primitive {coder : StandardBeamCoders} (h : coder.isPrimitive = true) :
    coder.encodeKey = fun key => coder.encode (.primitive key) := by
  funext key
  unfold encodeKey
  rw [if_pos h, encode_primitive]

theorem encodeKey_composite {coder : StandardBeamCoders} (h : ¬ coder.isPrimitive = true)
    (raw : List UInt8) : coder.encodeKey (.bytes raw) = some raw := by
  unfold encodeKey
  rw [if_neg h]

theorem decodeKeyWith_primitive {coder : StandardBeamCoders} (h : coder.isPrimitive = true)
    (decode : CoderDecoder BeamRecord) :
    decodeKeyWith coder decode = decodePrimitiveWith decode :=
  if_pos h

/-- A composite key is the encoding of a record. -/
theorem decodeKeyWith_eq_ok {coder : StandardBeamCoders} (h : ¬ coder.isPrimitive = true)
    {decode : CoderDecoder BeamRecord} {bytes left : List UInt8} {key : PrimitiveValue}
    (hKey : decodeKeyWith coder decode bytes = .ok key left) :
    ∃ record raw, key = .bytes raw ∧ decode bytes = .ok record left ∧
      coder.encode record = some raw := by
  unfold decodeKeyWith at hKey
  rw [if_neg h] at hKey
  obtain ⟨record, middle, hRecord, hKey⟩ := bind_eq_ok hKey
  cases hRaw : coder.encode record with
  | none =>
      rw [hRaw] at hKey
      cases hKey
  | some raw =>
      rw [hRaw] at hKey
      cases hKey
      exact ⟨record, raw, rfl, hRecord, hRaw⟩

/-- A key that is read at the end of the cursor is written as nothing. -/
theorem idle_key {coder : StandardBeamCoders} (h : Idle coder.decodeNested coder.encode) :
    Idle (decodeKeyWith coder coder.decodeNested) coder.encodeKey := by
  by_cases hPrimitive : coder.isPrimitive = true
  · rw [decodeKeyWith_primitive hPrimitive, encodeKey_primitive hPrimitive]
    exact idle_primitive h
  · intro key left hKey
    obtain ⟨record, raw, rfl, hRecord, hRaw⟩ := decodeKeyWith_eq_ok hPrimitive hKey
    obtain ⟨hLeft, hNothing⟩ := h record left hRecord
    rw [hRaw] at hNothing
    exact ⟨hLeft, by rw [encodeKey_composite hPrimitive, hNothing]⟩

/-- A key is bounded if its coder is; a composite key is the bytes it was read from. -/
theorem bounded_key {coder : StandardBeamCoders}
    (h : ∀ record raw, coder.WellTyped record → coder.encode record = some raw →
      Bounded coder.decodeNested coder.encode raw record)
    {key : PrimitiveValue} (hKey : WellTypedKeyWith coder coder.WellTyped key)
    {encoded : List UInt8} (hEncoded : coder.encodeKey key = some encoded) :
    Bounded (decodeKeyWith coder coder.decodeNested) coder.encodeKey encoded key := by
  by_cases hPrimitive : coder.isPrimitive = true
  · rw [encodeKey_primitive hPrimitive] at hEncoded ⊢
    unfold WellTypedKeyWith at hKey
    rw [if_pos hPrimitive] at hKey
    rw [decodeKeyWith_primitive hPrimitive]
    exact bounded_primitive (bounded_scalar coder key encoded hKey hEncoded)
  · unfold WellTypedKeyWith at hKey
    rw [if_neg hPrimitive] at hKey
    obtain ⟨record, raw, rfl, hTyped, hRaw⟩ := hKey
    rw [encodeKey_composite hPrimitive] at hEncoded
    cases hEncoded
    rcases h record encoded hTyped hRaw with hDelimited | hSwallows
    · refine .inl fun rest => ?_
      unfold decodeKeyWith
      rw [if_neg hPrimitive, bind_apply, hDelimited rest]
      dsimp only
      rw [hRaw]
      rfl
    · refine .inr fun rest found left hFound => ?_
      obtain ⟨other, bytes, rfl, hOther, hBytes⟩ := decodeKeyWith_eq_ok hPrimitive hFound
      obtain ⟨hLeft, hAll⟩ := hSwallows rest other left hOther
      rw [hBytes] at hAll
      exact ⟨hLeft, by rw [encodeKey_composite hPrimitive, hAll]⟩

/-! All coders. -/

theorem encode_kv {keyCoder valueCoder : StandardBeamCoders} (key : PrimitiveValue)
    (value : BeamRecord) (x y : List UInt8) (hX : keyCoder.encodeKey key = some x)
    (hY : valueCoder.encode value = some y) :
    (kv keyCoder valueCoder).encode (.kv key value) = some (x ++ y) := by
  rw [encode, hX, hY]
  rfl

theorem encode_gbk {keyCoder elementCoder : StandardBeamCoders} (key : PrimitiveValue)
    (list : List BeamRecord) (x y : List UInt8) (hX : keyCoder.encodeKey key = some x)
    (hY : IterableCoder.encode elementCoder.encode list = some y) :
    (gbk keyCoder elementCoder).encode (.gbk key list) = some (x ++ y) := by
  rw [encode, hX, hY]
  rfl

/-- Whatever the coder: a record that is read at the end of the cursor is written
as nothing. -/
theorem idle_typed : ∀ (coder : StandardBeamCoders) (record : BeamRecord),
    coder.WellTyped record → Idle coder.decodeNested coder.encode
  | .nullable valueCoder, _, _ => idle_nullable valueCoder
  | .iterable elementCoder, .iterable list, _ => by
      intro record left h
      rw [decodeNested] at h
      obtain ⟨found, middle, hFound, hPure⟩ := bind_eq_ok h
      cases hPure
      rw [encode]
      exact idle_iterable _ found left hFound
  | .tuple componentCoders, .tuple values, hTyped => by
      intro record left h
      rw [decodeNested] at h
      obtain ⟨found, middle, hFound, hPure⟩ := bind_eq_ok h
      cases hPure
      rw [WellTyped] at hTyped
      rw [encode]
      exact idle_components (hTyped.imp fun _ _ hComponent => hComponent.2) found left hFound
  | .kv keyCoder valueCoder, .kv key value, hTyped => by
      rw [WellTyped, WellTypedKeyWith] at hTyped
      have hKey : Idle keyCoder.decodeNested keyCoder.encode := by
        by_cases hPrimitive : keyCoder.isPrimitive = true
        · rw [if_pos hPrimitive] at hTyped
          exact idle_scalar hTyped.1
        · rw [if_neg hPrimitive] at hTyped
          obtain ⟨record, -, -, hRecord, -⟩ := hTyped.1
          exact idle_typed keyCoder record hRecord
      rw [decodeNested]
      exact (idle_key hKey).pair (idle_typed valueCoder value hTyped.2) encode_kv
  | .gbk keyCoder elementCoder, .gbk key list, hTyped => by
      rw [WellTyped, WellTypedKeyWith] at hTyped
      have hKey : Idle keyCoder.decodeNested keyCoder.encode := by
        by_cases hPrimitive : keyCoder.isPrimitive = true
        · rw [if_pos hPrimitive] at hTyped
          exact idle_scalar hTyped.1
        · rw [if_neg hPrimitive] at hTyped
          obtain ⟨record, -, -, hRecord, -⟩ := hTyped.1
          exact idle_typed keyCoder record hRecord
      rw [decodeNested]
      exact (idle_key hKey).pair (idle_iterable elementCoder.encode) encode_gbk
  | .javaOpaque, .primitive value, hTyped | .void, .primitive value, hTyped
  | .stringUtf8, .primitive value, hTyped | .bytes, .primitive value, hTyped
  | .pickle, .primitive value, hTyped | .lengthPrefix, .primitive value, hTyped
  | .varInt, .primitive value, hTyped | .varInt32, .primitive value, hTyped
  | .bool, .primitive value, hTyped | .double, .primitive value, hTyped => idle_scalar hTyped

/-- What a coder writes for a record it accepts ends where it stands, or its
decoder takes everything from there. -/
theorem bounded_encode : ∀ (coder : StandardBeamCoders) (record : BeamRecord)
    (encoded : List UInt8), coder.WellTyped record → coder.encode record = some encoded →
    Bounded coder.decodeNested coder.encode encoded record
  | .nullable valueCoder, record, encoded, hTyped, hEncoded => by
      by_cases hVoid : record = .primitive .void
      · subst hVoid
        exact bounded_null valueCoder hEncoded
      · rw [WellTyped] at hTyped
        have hRecord := hTyped.resolve_left hVoid
        exact bounded_present hRecord hVoid
          (fun raw hRaw => bounded_encode valueCoder record raw hRecord hRaw) hEncoded
  | .iterable elementCoder, .iterable list, encoded, hTyped, hEncoded => by
      rw [WellTyped] at hTyped
      rw [encode] at hEncoded
      have hIdle : list ≠ [] → Idle elementCoder.decodeNested elementCoder.encode := fun hSome => by
        obtain ⟨record, hMem⟩ := List.exists_mem_of_ne_nil list hSome
        exact idle_typed elementCoder record (hTyped record hMem)
      have hList := bounded_iterable (fun record hMem raw hRaw =>
        bounded_encode elementCoder record raw (hTyped record hMem) hRaw) hIdle hEncoded
      rw [decodeNested]
      rcases hList with hDelimited | hSwallows
      · exact .inl (hDelimited.bind_pure rfl)
      · refine .inr fun rest found left hFound => ?_
        obtain ⟨others, middle, hOthers, hPure⟩ := bind_eq_ok hFound
        cases hPure
        rw [encode]
        exact hSwallows rest others left hOthers
  | .tuple componentCoders, .tuple values, encoded, hTyped, hEncoded => by
      rw [WellTyped] at hTyped
      rw [encode] at hEncoded
      rw [decodeNested]
      rcases bounded_components (hTyped.imp fun _ _ hComponent => hComponent.2) hEncoded with
        hDelimited | hSwallows
      · exact .inl (hDelimited.bind_pure rfl)
      · refine .inr fun rest found left hFound => ?_
        obtain ⟨others, middle, hOthers, hPure⟩ := bind_eq_ok hFound
        cases hPure
        rw [encode]
        exact hSwallows rest others left hOthers
  | .kv keyCoder valueCoder, .kv key value, encoded, hTyped, hEncoded => by
      rw [WellTyped] at hTyped
      rw [encode] at hEncoded
      obtain ⟨keyBytes, hKeyBytes, hEncoded⟩ := Option.bind_eq_some_iff.mp hEncoded
      obtain ⟨valueBytes, hValueBytes, hPure⟩ := Option.bind_eq_some_iff.mp hEncoded
      cases hPure
      have hKey := bounded_key (fun record raw => bounded_encode keyCoder record raw) hTyped.1
        hKeyBytes
      have hValue := bounded_encode valueCoder value valueBytes hTyped.2 hValueBytes
      rw [decodeNested]
      exact hKey.pair hKeyBytes hValue (idle_typed valueCoder value hTyped.2) encode_kv
  | .gbk keyCoder elementCoder, .gbk key list, encoded, hTyped, hEncoded => by
      rw [WellTyped] at hTyped
      rw [encode] at hEncoded
      obtain ⟨keyBytes, hKeyBytes, hEncoded⟩ := Option.bind_eq_some_iff.mp hEncoded
      obtain ⟨listBytes, hListBytes, hPure⟩ := Option.bind_eq_some_iff.mp hEncoded
      cases hPure
      have hKey := bounded_key (fun record raw => bounded_encode keyCoder record raw) hTyped.1
        hKeyBytes
      have hIdle : list ≠ [] → Idle elementCoder.decodeNested elementCoder.encode := fun hSome => by
        obtain ⟨record, hMem⟩ := List.exists_mem_of_ne_nil list hSome
        exact idle_typed elementCoder record (hTyped.2 record hMem)
      have hList := bounded_iterable (fun record hMem raw hRaw =>
        bounded_encode elementCoder record raw (hTyped.2 record hMem) hRaw) hIdle hListBytes
      rw [decodeNested]
      exact hKey.pair hKeyBytes hList (idle_iterable elementCoder.encode) encode_gbk
  | .javaOpaque, .primitive value, encoded, hTyped, hEncoded
  | .void, .primitive value, encoded, hTyped, hEncoded
  | .stringUtf8, .primitive value, encoded, hTyped, hEncoded
  | .bytes, .primitive value, encoded, hTyped, hEncoded
  | .pickle, .primitive value, encoded, hTyped, hEncoded
  | .lengthPrefix, .primitive value, encoded, hTyped, hEncoded
  | .varInt, .primitive value, encoded, hTyped, hEncoded
  | .varInt32, .primitive value, encoded, hTyped, hEncoded
  | .bool, .primitive value, encoded, hTyped, hEncoded
  | .double, .primitive value, encoded, hTyped, hEncoded =>
      bounded_scalar _ value encoded hTyped hEncoded

end StandardBeamCoders

end FlareDB
