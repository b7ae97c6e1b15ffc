import FlareDB.Coders.RoundTrip

/-! The records a coder can yield from some input, coder by coder. -/
namespace FlareDB

open ByteDecoder Decoder

namespace StandardBeamCoders

/-- Some input decodes to the record. -/
def Yields (coder : StandardBeamCoders) (record : BeamRecord) : Prop :=
  ∃ bytes rest, coder.decode bytes = .ok record rest

/-- Some input decodes to the key. -/
def YieldsKey (coder : StandardBeamCoders) (key : PrimitiveValue) : Prop :=
  ∃ bytes rest, coder.decodeKey bytes = .ok key rest

/-- A value found in chunks was read from some bytes. -/
theorem mem_of_decodeChunks {element : CoderDecoder BeamRecord} {fuel : Nat}
    {bytes rest : List UInt8} {list : List BeamRecord}
    (h : IterableCoder.decodeChunks element fuel bytes = .ok list rest) {record : BeamRecord}
    (hMem : record ∈ list) : ∃ start finish, element start = .ok record finish := by
  induction fuel generalizing bytes list with
  | zero => cases h
  | succ fuel ih =>
      obtain ⟨count, middle, -, hRest⟩ := bind_eq_ok h
      split at hRest
      · cases hRest
        cases hMem
      · obtain ⟨values, after, hValues, hRest⟩ := bind_eq_ok hRest
        obtain ⟨others, last, hOthers, hPure⟩ := bind_eq_ok hRest
        cases hPure
        rcases List.mem_append.mp hMem with hValue | hOther
        · exact mem_of_times hValues hValue
        · exact ih hOthers hOther

/-- So was every value of a decoded iterable. -/
theorem mem_of_iterableDecode {element : CoderDecoder BeamRecord} {bytes rest : List UInt8}
    {list : List BeamRecord} (h : IterableCoder.decode element bytes = .ok list rest)
    {record : BeamRecord} (hMem : record ∈ list) :
    ∃ start finish, element start = .ok record finish := by
  obtain ⟨count, middle, -, hRest⟩ := bind_eq_ok h
  split at hRest
  · exact mem_of_times hRest hMem
  · split at hRest
    · obtain ⟨remaining, after, -, hChunks⟩ := bind_eq_ok hRest
      exact mem_of_decodeChunks hChunks hMem
    · cases hRest

/-- A scalar is read where the record is one. -/
theorem decodePrimitiveWith_eq_ok {decode : CoderDecoder BeamRecord} {bytes rest : List UInt8}
    {value : PrimitiveValue} (h : decodePrimitiveWith decode bytes = .ok value rest) :
    decode bytes = .ok (.primitive value) rest := by
  obtain ⟨record, middle, hRecord, hValue⟩ := bind_eq_ok h
  cases record with
  | primitive found =>
      cases hValue
      exact hRecord
  | iterable _ => cases hValue
  | kv _ _ => cases hValue
  | gbk _ _ => cases hValue
  | tuple _ => cases hValue

theorem yields_of_decodePrimitiveWith {coder : StandardBeamCoders} {bytes rest : List UInt8}
    {value : PrimitiveValue} (h : decodePrimitiveWith coder.decodeNested bytes = .ok value rest) :
    coder.Yields (.primitive value) :=
  ⟨bytes, rest, decodePrimitiveWith_eq_ok h⟩

/-- A key is a scalar the coder yields, or the bytes of a record. -/
theorem yieldsKey_cases {coder : StandardBeamCoders} {key : PrimitiveValue}
    (h : coder.YieldsKey key) :
    if coder.isPrimitive then coder.Yields (.primitive key)
    else ∃ record raw, key = .bytes raw ∧ coder.Yields record ∧ coder.encode record = some raw := by
  obtain ⟨bytes, rest, hKey⟩ := h
  rw [decodeKey, decodeKeyWith] at hKey
  split at hKey
  · next hPrimitive =>
      rw [if_pos hPrimitive]
      exact yields_of_decodePrimitiveWith hKey
  · next hComposite =>
      rw [if_neg hComposite]
      obtain ⟨record, middle, hRecord, hEncoded⟩ := bind_eq_ok hKey
      cases hRaw : coder.encode record with
      | none =>
          rw [hRaw] at hEncoded
          cases hEncoded
      | some raw =>
          rw [hRaw] at hEncoded
          cases hEncoded
          exact ⟨record, raw, rfl, ⟨bytes, rest, hRecord⟩, hRaw⟩

theorem yields_components {coders : List StandardBeamCoders} {bytes rest : List UInt8}
    {values : List PrimitiveValue} (h : decodeComponents coders bytes = .ok values rest) :
    List.Forall₂ (fun coder value => coder.Yields (.primitive value)) coders values := by
  induction coders generalizing bytes values with
  | nil =>
      cases h
      exact .nil
  | cons coder coders ih =>
      obtain ⟨value, middle, hValue, hRest⟩ := bind_eq_ok h
      obtain ⟨others, last, hOthers, hPure⟩ := bind_eq_ok hRest
      cases hPure
      exact .cons (yields_of_decodePrimitiveWith hValue) (ih hOthers)

/-- What an iterable coder yields: a list of what its element yields. -/
theorem yields_iterable {elementCoder : StandardBeamCoders} {record : BeamRecord}
    (h : (iterable elementCoder).Yields record) :
    ∃ list, record = .iterable list ∧ ∀ element ∈ list, elementCoder.Yields element := by
  obtain ⟨bytes, rest, hDecode⟩ := h
  obtain ⟨list, middle, hList, hPure⟩ := bind_eq_ok hDecode
  cases hPure
  exact ⟨list, rfl, fun _ hMem => mem_of_iterableDecode hList hMem⟩

/-- What a nullable coder yields: the void, or what its value does. -/
theorem yields_nullable {valueCoder : StandardBeamCoders} {record : BeamRecord}
    (h : (nullable valueCoder).Yields record) :
    record = .primitive .void ∨ valueCoder.Yields record := by
  obtain ⟨bytes, rest, hDecode⟩ := h
  obtain ⟨indicator, middle, -, hRest⟩ := bind_eq_ok hDecode
  split at hRest
  · cases hRest
    exact .inl rfl
  · split at hRest
    · exact .inr ⟨middle, rest, hRest⟩
    · cases hRest

/-- What a tuple coder yields: one value of each component. -/
theorem yields_tuple {componentCoders : List StandardBeamCoders} {record : BeamRecord}
    (h : (tuple componentCoders).Yields record) :
    ∃ values, record = .tuple values ∧
      List.Forall₂ (fun coder value => coder.Yields (.primitive value)) componentCoders values := by
  obtain ⟨bytes, rest, hDecode⟩ := h
  obtain ⟨values, middle, hValues, hPure⟩ := bind_eq_ok hDecode
  cases hPure
  exact ⟨values, rfl, yields_components hValues⟩

/-- What a coder of pairs yields: a key and a value. -/
theorem yields_kv {keyCoder valueCoder : StandardBeamCoders} {record : BeamRecord}
    (h : (kv keyCoder valueCoder).Yields record) :
    ∃ key value, record = .kv key value ∧ keyCoder.YieldsKey key ∧ valueCoder.Yields value := by
  obtain ⟨bytes, rest, hDecode⟩ := h
  obtain ⟨key, middle, hKey, hRest⟩ := bind_eq_ok hDecode
  obtain ⟨value, last, hValue, hPure⟩ := bind_eq_ok hRest
  cases hPure
  exact ⟨key, value, rfl, ⟨bytes, middle, hKey⟩, ⟨middle, rest, hValue⟩⟩

/-- What a coder of groups yields: a key and a list. -/
theorem yields_gbk {keyCoder elementCoder : StandardBeamCoders} {record : BeamRecord}
    (h : (gbk keyCoder elementCoder).Yields record) :
    ∃ key list, record = .gbk key list ∧ keyCoder.YieldsKey key ∧
      (iterable elementCoder).Yields (.iterable list) := by
  obtain ⟨bytes, rest, hDecode⟩ := h
  obtain ⟨key, middle, hKey, hRest⟩ := bind_eq_ok hDecode
  obtain ⟨list, last, hList, hPure⟩ := bind_eq_ok hRest
  cases hPure
  refine ⟨key, list, rfl, ⟨bytes, middle, hKey⟩, middle, rest, ?_⟩
  rw [decode, decodeNested, bind_apply, hList]
  rfl

/-! Records that are yielded wherever their encoding stands. -/

/-- The coder writes the record and reads it back, whatever follows. -/
def Frames (coder : StandardBeamCoders) (record : BeamRecord) : Prop :=
  ∃ bytes profile, coder.encode record = some bytes ∧
    Segment coder.decodeNested bytes profile record

/-- The coder writes the key and reads it back, whatever follows. -/
def FramesKey (coder : StandardBeamCoders) (key : PrimitiveValue) : Prop :=
  ∃ bytes profile, coder.encodeKey key = some bytes ∧
    Segment (decodeKeyWith coder coder.decodeNested) bytes profile key

/-- What a coder frames it yields. -/
theorem Frames.yields {coder : StandardBeamCoders} {record : BeamRecord}
    (h : coder.Frames record) : coder.Yields record := by
  obtain ⟨bytes, profile, -, hSegment⟩ := h
  exact ⟨bytes ++ [], [], hSegment.frames []⟩

/-- Every well-typed scalar is framed. -/
theorem frames_scalar {coder : StandardBeamCoders} {value : PrimitiveValue}
    (hOpaque : coder.noJavaOpaque = true) (h : coder.WellTypedPrimitive value) :
    coder.Frames (.primitive value) := by
  obtain ⟨bytes, hBytes, hSegment⟩ := encodePrimitive_segment coder value hOpaque h
  exact ⟨bytes, _, by rw [encode_primitive, hBytes], hSegment⟩

theorem frames_void (valueCoder : StandardBeamCoders) :
    (nullable valueCoder).Frames (.primitive .void) :=
  ⟨[0], _, by rw [encode, NullableCoder.encode], by
    rw [decodeNested]
    exact nullableCoder_segment_void _⟩

/-- A nullable coder frames what its value does. -/
theorem frames_nullable {valueCoder : StandardBeamCoders} {record : BeamRecord}
    (h : valueCoder.Frames record) : (nullable valueCoder).Frames record := by
  by_cases hVoid : record = .primitive .void
  · rw [hVoid]
    exact frames_void valueCoder
  · obtain ⟨bytes, profile, hBytes, hSegment⟩ := h
    exact ⟨1 :: bytes, _, by rw [encode_nullable hVoid, hBytes]; rfl, by
      rw [decodeNested]
      exact nullableCoder_segment_present hSegment⟩

/-- A list of at most one element is counted and read back. -/
theorem iterableCoder_frames {elementCoder : StandardBeamCoders} {element : Option BeamRecord}
    (h : ∀ record ∈ element, elementCoder.Frames record) :
    ∃ bytes profile, IterableCoder.encode elementCoder.encode element.toList = some bytes ∧
      Segment (IterableCoder.decode elementCoder.decodeNested) bytes profile element.toList := by
  cases element with
  | none =>
      have hEncode : ∃ bytes, IterableCoder.encode elementCoder.encode [] = some bytes :=
        iterableCoder_encode_isSome (Nat.zero_le _) (fun _ hMem => by cases hMem)
      obtain ⟨bytes, hBytes⟩ := hEncode
      have hSegment := @iterableCoder_segment elementCoder.decodeNested (fun _ => []) _ []
        (fun _ hMem => by cases hMem) bytes hBytes
      exact ⟨bytes, _, hBytes, hSegment⟩
  | some record =>
      obtain ⟨raw, profile, hRaw, hRecord⟩ := h record rfl
      have hEncode : ∃ bytes, IterableCoder.encode elementCoder.encode [record] = some bytes :=
        iterableCoder_encode_isSome (by simp [i32Max]) (by simpa using ⟨raw, hRaw⟩)
      obtain ⟨bytes, hBytes⟩ := hEncode
      have hElement : ∀ other ∈ [record], ∀ found, elementCoder.encode other = some found →
          Segment elementCoder.decodeNested found profile other := by
        intro other hMem found hFound
        rw [List.mem_singleton.mp hMem] at hFound ⊢
        cases hRaw.symm.trans hFound
        exact hRecord
      have hSegment := @iterableCoder_segment _ (fun _ => profile) _ [record] hElement bytes hBytes
      exact ⟨bytes, _, hBytes, hSegment⟩

/-- Lists of framed elements are framed. -/
theorem frames_iterable {elementCoder : StandardBeamCoders} {element : Option BeamRecord}
    (h : ∀ record ∈ element, elementCoder.Frames record) :
    (iterable elementCoder).Frames (.iterable element.toList) := by
  obtain ⟨bytes, profile, hBytes, hSegment⟩ := iterableCoder_frames h
  exact ⟨bytes, _, by rw [encode, hBytes], by
    rw [decodeNested]
    exact hSegment.bind_pure rfl⟩

/-- Tuples of well-typed components are framed. -/
theorem frames_tuple {componentCoders : List StandardBeamCoders} {values : List PrimitiveValue}
    (hOpaque : noJavaOpaqueAll componentCoders = true)
    (h : List.Forall₂ WellTypedPrimitive componentCoders values) :
    (tuple componentCoders).Frames (.tuple values) := by
  obtain ⟨bytes, hBytes, hSegment⟩ := encodeComponents_segment hOpaque h
  exact ⟨bytes, _, by rw [encode, hBytes], by
    rw [decodeNested]
    exact hSegment.bind_pure rfl⟩

theorem framesKey_scalar {coder : StandardBeamCoders} {key : PrimitiveValue}
    (hPrimitive : coder.isPrimitive = true) (hOpaque : coder.noJavaOpaque = true)
    (h : coder.WellTypedPrimitive key) : coder.FramesKey key := by
  obtain ⟨bytes, hBytes, hSegment⟩ := encodePrimitive_segment coder key hOpaque h
  exact ⟨bytes, _, by unfold encodeKey; rw [if_pos hPrimitive, hBytes], by
    unfold decodeKeyWith
    rw [if_pos hPrimitive]
    exact hSegment.bind_pure rfl⟩

/-- A record that is no scalar is a key by its bytes. -/
theorem framesKey_encoded {coder : StandardBeamCoders} {record : BeamRecord}
    (hPrimitive : ¬ coder.isPrimitive = true) (h : coder.Frames record) :
    ∃ raw, coder.FramesKey (.bytes raw) := by
  obtain ⟨raw, profile, hRaw, hSegment⟩ := h
  exact ⟨raw, raw, profile, by unfold encodeKey; rw [if_neg hPrimitive], by
    unfold decodeKeyWith
    rw [if_neg hPrimitive]
    exact hSegment.bind_pure (by rw [hRaw])⟩

/-- Pairs of a framed key and a framed value are framed. -/
theorem frames_kv {keyCoder valueCoder : StandardBeamCoders} {key : PrimitiveValue}
    {value : BeamRecord} (hKey : keyCoder.FramesKey key) (hValue : valueCoder.Frames value) :
    (kv keyCoder valueCoder).Frames (.kv key value) := by
  obtain ⟨keyBytes, _, hKeyBytes, hKeySegment⟩ := hKey
  obtain ⟨valueBytes, _, hValueBytes, hValueSegment⟩ := hValue
  exact ⟨keyBytes ++ valueBytes, _, by rw [encode, hKeyBytes, hValueBytes]; rfl, by
    rw [decodeNested]
    exact hKeySegment.bind (hValueSegment.bind_pure rfl)⟩

/-- Groups under a framed key are framed. -/
theorem frames_gbk {keyCoder elementCoder : StandardBeamCoders} {key : PrimitiveValue}
    {element : Option BeamRecord} (hKey : keyCoder.FramesKey key)
    (h : ∀ record ∈ element, elementCoder.Frames record) :
    (gbk keyCoder elementCoder).Frames (.gbk key element.toList) := by
  obtain ⟨keyBytes, _, hKeyBytes, hKeySegment⟩ := hKey
  obtain ⟨listBytes, _, hListBytes, hListSegment⟩ := iterableCoder_frames h
  exact ⟨keyBytes ++ listBytes, _, by rw [encode, hKeyBytes, hListBytes]; rfl, by
    rw [decodeNested]
    exact hKeySegment.bind (hListSegment.bind_pure rfl)⟩

end StandardBeamCoders
end FlareDB
