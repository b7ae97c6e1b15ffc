import FlareDB.Engine.SideInputViews
import FlareDB.Lib.Results

/-! The views of a multimap side input agree with its elements exactly where the
cached encodings can be told apart again. -/
namespace FlareDB

open ByteDecoder KeyedStore

/-! Encodings in a row. -/

/-- The record is not encoded as nothing, and the coder, started at its encoding
with the bytes after it, stops at its end. -/
def ReadTo (coder : StandardBeamCoders) (rest : List UInt8) (value : BeamRecord) : Prop :=
  ∃ bytes found, coder.encode value = some bytes ∧ bytes ≠ [] ∧
    coder.decode (bytes ++ rest) = .ok found rest

/-- Each record is read to its end: the last one on its own, the others with a
byte after them. -/
def Separate (coder : StandardBeamCoders) : List BeamRecord → Prop
  | [] => True
  | value :: values =>
      Separate coder values ∧ ReadTo coder (if values.isEmpty then [] else [0]) value

section Rows

variable {coder : StandardBeamCoders}

theorem ReadTo.encode {rest : List UInt8} {value : BeamRecord} (h : ReadTo coder rest value) :
    coder.encode value = some (paddedElement coder value) := by
  obtain ⟨bytes, found, hBytes, hSome, -⟩ := h
  rw [paddedElement_of_encode hBytes hSome, hBytes]

theorem Separate.encode {values : List BeamRecord} (h : Separate coder values)
    {value : BeamRecord} (hMem : value ∈ values) :
    coder.encode value = some (paddedElement coder value) := by
  induction values with
  | nil => cases hMem
  | cons first values ih =>
      obtain ⟨hRest, hFirst⟩ := h
      rcases List.mem_cons.mp hMem with rfl | hOther
      · exact hFirst.encode
      · exact ih hRest hOther

/-- What is read to its end before another byte is read so before any bytes. -/
theorem ReadTo.delimited {value : BeamRecord} (h : ReadTo coder [0] value)
    (hTyped : coder.WellTyped value) :
    Delimited coder.decodeNested (paddedElement coder value) value := by
  have hEncode := h.encode
  obtain ⟨bytes, found, hBytes, -, hFound⟩ := h
  cases hBytes.symm.trans hEncode
  refine (StandardBeamCoders.bounded_encode coder value _ hTyped hEncode).resolve_right
    fun hSwallows => ?_
  exact List.cons_ne_nil 0 [] (hSwallows _ found _ hFound).1

/-- Nothing but the element is read at its bytes, or the coder reads no byte, or
it reads everything that is left. -/
theorem paddedElement_cases {value : BeamRecord} (hTyped : coder.WellTyped value)
    (hWrites : Writes coder value) :
    (coder.encode value = some (paddedElement coder value) ∧
      Delimited coder.decodeNested (paddedElement coder value) value) ∨
    (∀ bytes, coder.decode bytes = .ok value bytes) ∨
    Swallows coder.decodeNested coder.encode (paddedElement coder value) := by
  obtain ⟨bytes, hBytes⟩ := hWrites
  have hBounded := StandardBeamCoders.bounded_encode coder value bytes hTyped hBytes
  by_cases hNothing : bytes = []
  · subst hNothing
    rcases hBounded with hDelimited | hSwallows
    · exact .inr (.inl hDelimited)
    · refine .inr (.inr fun rest found left hFound => ?_)
      exact hSwallows (paddedElement coder value ++ rest) found left hFound
  · rw [paddedElement_of_encode hBytes hNothing]
    rcases hBounded with hDelimited | hSwallows
    · exact .inl ⟨hBytes, hDelimited⟩
    · exact .inr (.inr hSwallows)

/-- A record is separate from the records after it when its decoder reaches them. -/
theorem Separate.cons {value : BeamRecord} {values : List BeamRecord}
    (hRest : Separate coder values) (hTyped : coder.WellTyped value)
    (hEncode : coder.encode value = some (paddedElement coder value)) {found : BeamRecord}
    (hDecode : coder.decode (paddedElement coder value ++ values.flatMap (paddedElement coder)) =
      .ok found (values.flatMap (paddedElement coder))) :
    Separate coder (value :: values) := by
  refine ⟨hRest, ?_⟩
  cases values with
  | nil => exact ⟨_, found, hEncode, paddedElement_ne_nil coder value, hDecode⟩
  | cons other values =>
      have hDelimited := (StandardBeamCoders.bounded_encode coder value _ hTyped hEncode).resolve_right
        fun hSwallows => by
          have hNothing := (hSwallows _ found _ hDecode).1
          rw [List.flatMap_cons] at hNothing
          exact paddedElement_ne_nil coder other (List.append_eq_nil_iff.mp hNothing).1
      exact ⟨_, value, hEncode, paddedElement_ne_nil coder value, hDelimited [0]⟩

/-- What the coder finds at a separate record is written like the record. -/
theorem Separate.head {value : BeamRecord} {values : List BeamRecord}
    (h : Separate coder (value :: values)) (hTyped : coder.WellTyped value) :
    ∃ found, coder.decode (paddedElement coder value ++ values.flatMap (paddedElement coder)) =
        .ok found (values.flatMap (paddedElement coder)) ∧
      coder.encode found = some (paddedElement coder value) := by
  have hEncode := h.encode List.mem_cons_self
  obtain ⟨-, hHere⟩ := h
  cases values with
  | cons other values => exact ⟨value, hHere.delimited hTyped _, hEncode⟩
  | nil =>
      obtain ⟨bytes, found, hBytes, -, hFound⟩ : ReadTo coder [] value := hHere
      cases hBytes.symm.trans hEncode
      refine ⟨found, hFound, ?_⟩
      rcases StandardBeamCoders.bounded_encode coder value _ hTyped hEncode with
        hDelimited | hSwallows
      · have hSame := (hDelimited []).symm.trans hFound
        cases hSame
        exact hEncode
      · have hAll := (hSwallows _ found _ hFound).2
        rw [List.append_nil] at hAll
        exact hAll

/-- Coders without an opaque leaf stop at the end of everything they write. -/
theorem separate_iff_of_noJavaOpaque (hOpaque : coder.noJavaOpaque = true)
    {values : List BeamRecord} (hTyped : ∀ value ∈ values, coder.WellTyped value) :
    Separate coder values ↔
      ∀ value ∈ values, ∃ bytes, coder.encode value = some bytes ∧ bytes ≠ [] := by
  constructor
  · exact fun h value hMem => ⟨_, h.encode hMem, paddedElement_ne_nil coder value⟩
  · intro hSome
    induction values with
    | nil => trivial
    | cons value values ih =>
        refine ⟨ih (fun other hMem => hTyped other (List.mem_cons_of_mem _ hMem))
          fun other hMem => hSome other (List.mem_cons_of_mem _ hMem), ?_⟩
        obtain ⟨bytes, hBytes, hByte⟩ := hSome value List.mem_cons_self
        have hSegment := StandardBeamCoders.encode_segment coder value bytes hOpaque
          (hTyped value List.mem_cons_self) hBytes
        exact ⟨bytes, value, hBytes, hByte, hSegment.frames _⟩

/-- Separate records that differ are written differently. -/
theorem Separate.nodup {values : List BeamRecord} (h : Separate coder values)
    (hTyped : ∀ value ∈ values, coder.WellTyped value) (hNodup : values.Nodup) :
    (values.map (paddedElement coder)).Nodup := by
  induction values with
  | nil => exact List.nodup_nil
  | cons value values ih =>
      obtain ⟨hFresh, hRest⟩ := List.nodup_cons.mp hNodup
      have hTypedHere := hTyped value List.mem_cons_self
      rw [List.map_cons]
      refine List.nodup_cons.mpr
        ⟨?_, ih h.1 (fun other hMem => hTyped other (List.mem_cons_of_mem _ hMem)) hRest⟩
      intro hAgain
      obtain ⟨other, hOther, hSame⟩ := List.mem_map.mp hAgain
      -- The record is not the last one, so its decoder stops at its end.
      have hMore : ¬ values.isEmpty = true := by
        rw [List.isEmpty_iff]
        exact List.ne_nil_of_mem hOther
      have hHere := h.2
      rw [if_neg hMore] at hHere
      have hDelimited := hHere.delimited hTypedHere
      have hOtherEncode := h.encode (List.mem_cons_of_mem _ hOther)
      rcases StandardBeamCoders.bounded_encode coder other _
        (hTyped other (List.mem_cons_of_mem _ hOther)) hOtherEncode with hStops | hSwallows
      · have hRead := hStops []
        rw [hSame, hDelimited []] at hRead
        cases hRead
        exact hFresh hOther
      · have hRead := hDelimited [0]
        rw [← hSame] at hRead
        exact absurd (hSwallows [0] value [0] hRead).1 (List.cons_ne_nil 0 [])

/-! The values of one key. -/

/-- One value read off the front of the cached bytes. -/
theorem decodeCachedValues_step {fuel : Nat} {bytes rest : List UInt8} {value : BeamRecord}
    (hSome : bytes ≠ []) (hDecode : coder.decode bytes = .ok value rest) :
    decodeCachedValues coder (fuel + 1) bytes =
      (decodeCachedValues coder fuel rest).map fun decoded => decoded.map (value :: ·) := by
  rw [decodeCachedValues, if_neg (by simpa using hSome), hDecode]

/-- A coder that reads no byte never gets to the end. -/
theorem decodeCachedValues_stuck {bytes : List UInt8} {value : BeamRecord} (hSome : bytes ≠ [])
    (hDecode : coder.decode bytes = .ok value bytes) (fuel : Nat) :
    decodeCachedValues coder fuel bytes = none := by
  induction fuel with
  | zero => rfl
  | succ fuel ih =>
      rw [decodeCachedValues_step hSome hDecode, ih]
      rfl

/-- Values that are read back one by one are read back from their concatenation. -/
theorem decodeCachedValues_of_separate {values : List BeamRecord}
    (hTyped : ∀ value ∈ values, coder.WellTyped value) (h : Separate coder values) {fuel : Nat}
    (hFuel : values.length < fuel) :
    ∃ found, decodeCachedValues coder fuel (values.flatMap (paddedElement coder)) =
        some (.ok found) ∧
      found.length = values.length ∧
      found.mapM coder.encode = some (values.map (paddedElement coder)) := by
  obtain ⟨fuel, rfl⟩ := Nat.exists_eq_add_one_of_ne_zero (Nat.ne_of_gt (Nat.zero_lt_of_lt hFuel))
  induction values generalizing fuel with
  | nil => exact ⟨[], rfl, rfl, rfl⟩
  | cons value values ih =>
      obtain ⟨first, hFirst, hEncode⟩ := h.head (hTyped value List.mem_cons_self)
      rw [List.length_cons] at hFuel
      obtain ⟨fuel, rfl⟩ := Nat.exists_eq_add_one_of_ne_zero (show fuel ≠ 0 by omega)
      obtain ⟨found, hFound, hLength, hParts⟩ := ih
        (fun other hMem => hTyped other (List.mem_cons_of_mem _ hMem)) h.1 fuel (by omega)
      refine ⟨first :: found, ?_, by rw [List.length_cons, List.length_cons, hLength], ?_⟩
      · rw [List.flatMap_cons, decodeCachedValues_step (by simp [paddedElement_ne_nil]) hFirst,
          hFound]
        rfl
      · rw [List.mapM_cons, hEncode, hParts]
        rfl

/-- Values that were decoded are written as the cached bytes. There are as many
as were cached only if the coder told them apart. -/
theorem decodeCachedValues_ok {values : List BeamRecord}
    (hTyped : ∀ value ∈ values, coder.WellTyped value)
    (hWrites : ∀ value ∈ values, Writes coder value) {fuel : Nat} {found : List BeamRecord}
    (h : decodeCachedValues coder fuel (values.flatMap (paddedElement coder)) =
      some (.ok found)) :
    found.length ≤ values.length ∧
      (∃ parts, found.mapM coder.encode = some parts ∧
        parts.flatten = values.flatMap (paddedElement coder)) ∧
      (found.length = values.length →
        (∀ value ∈ values, coder.encode value = some (paddedElement coder value)) →
        Separate coder values) := by
  induction values generalizing fuel found with
  | nil =>
      cases fuel with
      | zero => cases h
      | succ fuel =>
          cases h
          exact ⟨Nat.le_refl _, ⟨[], rfl, rfl⟩, fun _ _ => trivial⟩
  | cons value values ih =>
      have hSome : (value :: values).flatMap (paddedElement coder) ≠ [] := by
        simp [paddedElement_ne_nil]
      rcases paddedElement_cases (hTyped value List.mem_cons_self)
        (hWrites value List.mem_cons_self) with ⟨hEncode, hDelimited⟩ | hStuck | hSwallows
      · cases fuel with
        | zero => cases h
        | succ fuel =>
            have hDecode := hDelimited (values.flatMap (paddedElement coder))
            rw [List.flatMap_cons] at h hSome
            rw [decodeCachedValues_step hSome hDecode] at h
            obtain ⟨decoded, hRest, hDecoded⟩ := Option.map_eq_some_iff.mp h
            cases decoded with
            | error failure => cases hDecoded
            | ok others =>
                cases hDecoded
                obtain ⟨hLength, ⟨parts, hParts, hFlatten⟩, hSeparate⟩ := ih
                  (fun other hMem => hTyped other (List.mem_cons_of_mem _ hMem))
                  (fun other hMem => hWrites other (List.mem_cons_of_mem _ hMem)) hRest
                refine ⟨by simpa using hLength, ⟨paddedElement coder value :: parts, ?_, ?_⟩, ?_⟩
                · rw [List.mapM_cons, hEncode, hParts]
                  rfl
                · rw [List.flatten_cons, List.flatMap_cons, hFlatten]
                · intro hCount hAll
                  exact (hSeparate (by simpa using hCount) fun other hMem =>
                    hAll other (List.mem_cons_of_mem _ hMem)).cons
                      (hTyped value List.mem_cons_self) hEncode hDecode
      · rw [decodeCachedValues_stuck hSome (hStuck _)] at h
        cases h
      · cases fuel with
        | zero => cases h
        | succ fuel =>
            rw [List.flatMap_cons] at h hSome
            rw [decodeCachedValues, if_neg (by simpa using hSome)] at h
            cases hDecode : coder.decode
                (paddedElement coder value ++ values.flatMap (paddedElement coder)) with
            | error reason =>
                rw [hDecode] at h
                cases h
            | panic =>
                rw [hDecode] at h
                cases h
            | ok first left =>
                obtain ⟨rfl, hAll⟩ := hSwallows _ first left hDecode
                rw [hDecode] at h
                cases fuel with
                | zero => cases h
                | succ fuel =>
                    cases h
                    refine ⟨by simp, ⟨[_], by rw [List.mapM_cons, hAll]; rfl, by simp⟩, ?_⟩
                    intro hCount hEncodes
                    obtain rfl : values = [] := List.eq_nil_of_length_eq_zero (by simpa using hCount)
                    exact Separate.cons trivial (hTyped value List.mem_cons_self)
                      (hEncodes value List.mem_cons_self) hDecode

end Rows

/-! The keys with their values. -/

/-- The store holds the encoded values of each key, and nothing else. -/
structure Cached (keyCoder valueCoder : StandardBeamCoders) (keys : List PrimitiveValue)
    (valuesOf : PrimitiveValue → List BeamRecord) (values : Store (List UInt8) (List UInt8)) :
    Prop where
  stored : ∀ key ∈ keys, values.lookup (paddedElement keyCoder (.primitive key)) =
    some ((valuesOf key).flatMap (paddedElement valueCoder))
  known : ∀ bytes stored, values.lookup bytes = some stored →
    ∃ key ∈ keys, paddedElement keyCoder (.primitive key) = bytes

section Views

variable {keyCoder valueCoder : StandardBeamCoders} {values : Store (List UInt8) (List UInt8)}

/-- An appended element adds its padded bytes at the end. -/
theorem appendEncodedElement_eq_ok {coder : StandardBeamCoders} {value : BeamRecord}
    {encoded bytes : List UInt8} (h : appendEncodedElement coder value encoded = .ok bytes) :
    Writes coder value ∧ bytes = encoded ++ paddedElement coder value := by
  cases hEncode : coder.encode value with
  | none =>
      rw [appendEncodedElement, hEncode] at h
      cases h
  | some raw =>
      rw [appendEncodedElement_of_encode hEncode] at h
      cases h
      exact ⟨⟨raw, hEncode⟩, rfl⟩

/-- An iterable is encoded exactly when its count fits and each element is. -/
theorem encode_iterable_eq_some {elementCoder : StandardBeamCoders} {list : List BeamRecord}
    {bytes : List UInt8} :
    (StandardBeamCoders.iterable elementCoder).encode (.iterable list) = some bytes ↔
      list.length ≤ i32Max ∧ ∃ parts, list.mapM elementCoder.encode = some parts ∧
        bytes = putI32 list.length ++ parts.flatten := by
  rw [StandardBeamCoders.encode, IterableCoder.encode]
  split
  next hCount =>
    rw [Option.map_eq_some_iff]
    constructor
    · rintro ⟨parts, hParts, hBytes⟩
      exact ⟨hCount, parts, hParts, hBytes.symm⟩
    · rintro ⟨-, parts, hParts, hBytes⟩
      exact ⟨parts, hParts, hBytes.symm⟩
  next hLong => simp [hLong]

theorem putI32_ne_nil (count : Nat) (bytes : List UInt8) : putI32 count ++ bytes ≠ [] := by
  intro hNil
  have hLength := congrArg List.length hNil
  rw [List.length_append, putI32, BigEndian.toBytes_length, List.length_nil] at hLength
  omega

/-- A key of the view with its values, as the loop appends them. -/
theorem encodeKeyValues_of_cached {fuel : Nat} {key : BeamRecord} {raw : List UInt8}
    (hKey : keyCoder.encode key = some raw) (hRaw : raw ≠ []) {stored : List UInt8}
    (hStored : values.lookup raw = some stored) {found : List BeamRecord}
    (hFound : decodeCachedValues valueCoder fuel stored = some (.ok found))
    {parts : List (List UInt8)} (hParts : found.mapM valueCoder.encode = some parts)
    (hCount : found.length ≤ i32Max) :
    encodeKeyValues keyCoder valueCoder values fuel key =
      some (.ok (raw ++ (putI32 found.length ++ parts.flatten))) := by
  have hList : (StandardBeamCoders.iterable valueCoder).encode (.iterable found) =
      some (putI32 found.length ++ parts.flatten) :=
    encode_iterable_eq_some.mpr ⟨hCount, parts, hParts, rfl⟩
  have hHere : ∀ encoded, appendEncodedElement keyCoder key encoded = .ok (encoded ++ raw) := by
    intro encoded
    rw [appendEncodedElement_of_encode hKey, paddedElement_of_encode hKey hRaw]
  rw [encodeKeyValues, hHere, List.nil_append]
  dsimp only
  rw [hStored]
  dsimp only
  rw [hFound]
  dsimp only [Option.map_some, bind, Except.bind]
  rw [appendEncodedElement_of_encode hList, paddedElement_of_encode hList (putI32_ne_nil _ _)]

/-- What a key's values are encoded from: the stored bytes under the key's own. -/
theorem encodeKeyValues_eq_ok {fuel : Nat} {key : BeamRecord} {encoded : List UInt8}
    (h : encodeKeyValues keyCoder valueCoder values fuel key = some (.ok encoded)) :
    ∃ stored found parts, values.lookup (paddedElement keyCoder key) = some stored ∧
      decodeCachedValues valueCoder fuel stored = some (.ok found) ∧
      found.mapM valueCoder.encode = some parts ∧ found.length ≤ i32Max ∧
      encoded = paddedElement keyCoder key ++ (putI32 found.length ++ parts.flatten) := by
  rw [encodeKeyValues] at h
  cases hKey : appendEncodedElement keyCoder key [] with
  | error failure =>
      rw [hKey] at h
      cases h
  | ok encodedKey =>
      obtain ⟨-, rfl⟩ := appendEncodedElement_eq_ok hKey
      rw [hKey, List.nil_append] at h
      dsimp only at h
      cases hStored : values.lookup (paddedElement keyCoder key) with
      | none =>
          rw [hStored] at h
          cases h
      | some stored =>
          rw [hStored] at h
          obtain ⟨decoded, hDecoded, hGroup⟩ := Option.map_eq_some_iff.mp h
          obtain ⟨found, rfl, hAppended⟩ := Results.bind_eq_ok hGroup
          obtain ⟨start, hStart, hList⟩ := Results.bind_eq_ok hAppended
          cases hStart
          obtain ⟨⟨bytes, hBytes⟩, rfl⟩ := appendEncodedElement_eq_ok hList
          obtain ⟨hCount, parts, hParts, rfl⟩ := encode_iterable_eq_some.mp hBytes
          rw [paddedElement_of_encode hBytes (putI32_ne_nil _ _)]
          exact ⟨stored, found, parts, rfl, hDecoded, hParts, hCount, rfl⟩

/-- The loop reads one key, appends it with its values and goes on. -/
theorem encodeMultimapKeyValues_step {fuel : Nat} {bytes rest : List UInt8} {key : BeamRecord}
    (hSome : bytes ≠ []) (hDecode : keyCoder.decode bytes = .ok key rest) {encoded : List UInt8} :
    encodeMultimapKeyValues keyCoder valueCoder values (fuel + 1) bytes = some (.ok encoded) ↔
      ∃ first others, encodeKeyValues keyCoder valueCoder values fuel key = some (.ok first) ∧
        encodeMultimapKeyValues keyCoder valueCoder values fuel rest = some (.ok others) ∧
        encoded = first ++ others := by
  rw [encodeMultimapKeyValues, if_neg (by simpa using hSome), hDecode]
  dsimp only
  cases hFirst : encodeKeyValues keyCoder valueCoder values fuel key with
  | none => simp
  | some result =>
      cases result with
      | error failure => simp
      | ok first =>
          dsimp only
          rw [Option.map_eq_some_iff]
          constructor
          · rintro ⟨result, hRest, hAppend⟩
            cases result with
            | error failure => cases hAppend
            | ok others =>
                cases hAppend
                exact ⟨first, others, rfl, hRest, rfl⟩
          · rintro ⟨_, others, hSame, hRest, rfl⟩
            cases hSame
            exact ⟨_, hRest, rfl⟩

/-- A key coder that reads no byte never gets to the end. -/
theorem encodeMultimapKeyValues_stuck {bytes : List UInt8} {key : BeamRecord} (hSome : bytes ≠ [])
    (hDecode : keyCoder.decode bytes = .ok key bytes) (fuel : Nat) (encoded : List UInt8) :
    encodeMultimapKeyValues keyCoder valueCoder values fuel bytes ≠ some (.ok encoded) := by
  induction fuel generalizing encoded with
  | zero => exact fun h => by cases h
  | succ fuel ih =>
      intro h
      obtain ⟨first, others, -, hRest, -⟩ := (encodeMultimapKeyValues_step hSome hDecode).mp h
      exact ih others hRest

/-- A loop over the values of a key that never ends. -/
theorem encodeKeyValues_none {fuel : Nat} {key : BeamRecord} {raw stored : List UInt8}
    (hKey : keyCoder.encode key = some raw) (hRaw : raw ≠ [])
    (hStored : values.lookup raw = some stored)
    (hStuck : decodeCachedValues valueCoder fuel stored = none) :
    encodeKeyValues keyCoder valueCoder values fuel key = none := by
  rw [encodeKeyValues, appendEncodedElement_of_encode hKey, paddedElement_of_encode hKey hRaw,
    List.nil_append]
  dsimp only
  rw [hStored]
  dsimp only
  rw [hStuck]
  rfl

/-- The whole map runs out of fuel where the values of its first key do. -/
theorem encodeMultimapKeyValues_none {fuel : Nat} {bytes rest : List UInt8} {key : BeamRecord}
    (hSome : bytes ≠ []) (hDecode : keyCoder.decode bytes = .ok key rest)
    (hStuck : encodeKeyValues keyCoder valueCoder values fuel key = none) :
    encodeMultimapKeyValues keyCoder valueCoder values (fuel + 1) bytes = none := by
  rw [encodeMultimapKeyValues, if_neg (by simpa using hSome), hDecode]
  dsimp only
  rw [hStuck]

/-- The part of the view that belongs to one key. -/
def keyView (keyCoder valueCoder : StandardBeamCoders)
    (valuesOf : PrimitiveValue → List BeamRecord) (count : Nat) (key : PrimitiveValue) :
    List UInt8 :=
  paddedElement keyCoder (.primitive key) ++
    (putI32 count ++ (valuesOf key).flatMap (paddedElement valueCoder))

variable {valuesOf : PrimitiveValue → List BeamRecord}

/-- Separate keys with separate values: the loop ends with every key and its
values. -/
theorem encodeMultimapKeyValues_of_separate {all keys : List PrimitiveValue}
    (hCached : Cached keyCoder valueCoder all valuesOf values) (hAll : ∀ key ∈ keys, key ∈ all)
    (hKeyTyped : ∀ key ∈ keys, keyCoder.WellTyped (.primitive key))
    (hTyped : ∀ key ∈ keys, ∀ value ∈ valuesOf key, valueCoder.WellTyped value)
    (hKeys : Separate keyCoder (keys.map .primitive))
    (hValues : ∀ key ∈ keys, (valuesOf key).length ≤ i32Max ∧ Separate valueCoder (valuesOf key))
    {bound fuel : Nat} (hBound : ∀ key ∈ keys, (valuesOf key).length ≤ bound)
    (hFuel : keys.length + bound < fuel) :
    encodeMultimapKeyValues keyCoder valueCoder values fuel
        (keys.flatMap fun key => paddedElement keyCoder (.primitive key)) =
      some (.ok (keys.flatMap fun key =>
        keyView keyCoder valueCoder valuesOf (valuesOf key).length key)) := by
  obtain ⟨fuel, rfl⟩ := Nat.exists_eq_add_one_of_ne_zero (Nat.ne_of_gt (Nat.zero_lt_of_lt hFuel))
  induction keys generalizing fuel with
  | nil => rfl
  | cons key keys ih =>
      rw [List.length_cons] at hFuel
      obtain ⟨fuel, rfl⟩ := Nat.exists_eq_add_one_of_ne_zero (show fuel ≠ 0 by omega)
      obtain ⟨first, hFirst, hEncode⟩ := hKeys.head (hKeyTyped key List.mem_cons_self)
      have hRest := ih (fun other hMem => hAll other (List.mem_cons_of_mem _ hMem))
        (fun other hMem => hKeyTyped other (List.mem_cons_of_mem _ hMem))
        (fun other hMem => hTyped other (List.mem_cons_of_mem _ hMem)) hKeys.1
        (fun other hMem => hValues other (List.mem_cons_of_mem _ hMem))
        (fun other hMem => hBound other (List.mem_cons_of_mem _ hMem)) fuel (by omega)
      obtain ⟨hCount, hSeparate⟩ := hValues key List.mem_cons_self
      have hLength := hBound key List.mem_cons_self
      obtain ⟨found, hFound, hSame, hParts⟩ := decodeCachedValues_of_separate
        (hTyped key List.mem_cons_self) hSeparate (show (valuesOf key).length < fuel + 1 by omega)
      have hView := encodeKeyValues_of_cached hEncode (paddedElement_ne_nil _ _)
        (hCached.stored key (hAll key List.mem_cons_self)) hFound hParts (hSame ▸ hCount)
      rw [List.flatMap_map] at hFirst
      rw [List.flatMap_cons, List.flatMap_cons]
      refine (encodeMultimapKeyValues_step (by simp [paddedElement_ne_nil]) hFirst).mpr
        ⟨_, _, hView, hRest, ?_⟩
      rw [hSame, ← List.flatMap_def]
      rfl

/-- The part of a finished view that belongs to one key. Its count is the number
of values that were decoded, which is all of them only if they are separate. -/
def ViewPart (keyCoder valueCoder : StandardBeamCoders)
    (valuesOf : PrimitiveValue → List BeamRecord) (key : PrimitiveValue) (part : List UInt8) :
    Prop :=
  ∃ count, count ≤ i32Max ∧ part = keyView keyCoder valueCoder valuesOf count key ∧
    (count = (valuesOf key).length →
      (∀ value ∈ valuesOf key,
        valueCoder.encode value = some (paddedElement valueCoder value)) →
      Separate valueCoder (valuesOf key))

/-- A key that was found under its own bytes. -/
theorem viewPart_of_found {all : List PrimitiveValue}
    (hCached : Cached keyCoder valueCoder all valuesOf values) {key : PrimitiveValue}
    (hKey : key ∈ all) (hTyped : ∀ value ∈ valuesOf key, valueCoder.WellTyped value)
    (hWrites : ∀ value ∈ valuesOf key, Writes valueCoder value) {fuel : Nat} {found : BeamRecord}
    (hFound : paddedElement keyCoder found = paddedElement keyCoder (.primitive key))
    {part : List UInt8}
    (h : encodeKeyValues keyCoder valueCoder values fuel found = some (.ok part)) :
    ViewPart keyCoder valueCoder valuesOf key part := by
  obtain ⟨stored, decoded, parts, hStored, hDecoded, hParts, hCount, rfl⟩ :=
    encodeKeyValues_eq_ok h
  rw [hFound, hCached.stored key hKey] at hStored
  cases hStored
  obtain ⟨-, ⟨others, hOthers, hFlatten⟩, hSeparate⟩ := decodeCachedValues_ok hTyped hWrites hDecoded
  rw [hOthers] at hParts
  cases hParts
  exact ⟨decoded.length, hCount, by rw [keyView, hFound, hFlatten], hSeparate⟩

/-- A key that takes in the keys after it is not found. -/
theorem not_known_of_swallows {done keys : List PrimitiveValue} {key : PrimitiveValue}
    (hCached : Cached keyCoder valueCoder (done ++ key :: keys) valuesOf values)
    (hDone : ∀ other ∈ done, Delimited keyCoder.decodeNested
      (paddedElement keyCoder (.primitive other)) (.primitive other))
    (hSwallows : Swallows keyCoder.decodeNested keyCoder.encode
      (paddedElement keyCoder (.primitive key)))
    (hMore : keys ≠ []) {stored : List UInt8} :
    values.lookup ((key :: keys).flatMap fun key => paddedElement keyCoder (.primitive key)) ≠
      some stored := by
  intro hStored
  obtain ⟨other, hOther, hSame⟩ := hCached.known _ _ hStored
  rw [List.flatMap_cons] at hSame
  have hHere := List.length_pos_iff.mpr (paddedElement_ne_nil keyCoder (.primitive key))
  rcases List.mem_append.mp hOther with hBefore | hAfter
  · have hRead := hDone other hBefore [0]
    rw [hSame, List.append_assoc] at hRead
    exact absurd (hSwallows _ _ _ hRead).1 (List.cons_ne_nil 0 [])
  rcases List.mem_cons.mp hAfter with rfl | hLater
  · obtain ⟨next, rest, rfl⟩ := List.exists_cons_of_ne_nil hMore
    have hNext := List.length_pos_iff.mpr (paddedElement_ne_nil keyCoder (.primitive next))
    have hLength := congrArg List.length hSame
    rw [List.flatMap_cons, List.length_append, List.length_append] at hLength
    omega
  · have hPart := (List.sublist_flatten_of_mem (List.mem_map_of_mem
      (f := fun key => paddedElement keyCoder (.primitive key)) hLater)).length_le
    have hLength := congrArg List.length hSame
    rw [List.flatMap_def, List.length_append] at hLength
    omega

/-- A loop that ends has made a part for every key, and its keys are separate
unless one is encoded as nothing. -/
theorem encodeMultimapKeyValues_ok {done keys : List PrimitiveValue}
    (hCached : Cached keyCoder valueCoder (done ++ keys) valuesOf values)
    (hDone : ∀ other ∈ done, Delimited keyCoder.decodeNested
      (paddedElement keyCoder (.primitive other)) (.primitive other))
    (hKeyTyped : ∀ key ∈ keys, keyCoder.WellTyped (.primitive key))
    (hKeyWrites : ∀ key ∈ keys, Writes keyCoder (.primitive key))
    (hTyped : ∀ key ∈ keys, ∀ value ∈ valuesOf key, valueCoder.WellTyped value)
    (hWrites : ∀ key ∈ keys, ∀ value ∈ valuesOf key, Writes valueCoder value) {fuel : Nat}
    {encoded : List UInt8}
    (h : encodeMultimapKeyValues keyCoder valueCoder values fuel
      (keys.flatMap fun key => paddedElement keyCoder (.primitive key)) = some (.ok encoded)) :
    (∃ parts, encoded = parts.flatten ∧
      List.Forall₂ (ViewPart keyCoder valueCoder valuesOf) keys parts) ∧
    ((∀ key ∈ keys, keyCoder.encode (.primitive key) =
        some (paddedElement keyCoder (.primitive key))) →
      Separate keyCoder (keys.map .primitive)) := by
  induction keys generalizing done fuel encoded with
  | nil =>
      cases fuel with
      | zero => cases h
      | succ fuel =>
          cases h
          exact ⟨⟨[], rfl, .nil⟩, fun _ => trivial⟩
  | cons key keys ih =>
      have hMem : key ∈ done ++ key :: keys := List.mem_append_right _ List.mem_cons_self
      have hSome : (key :: keys).flatMap (fun key => paddedElement keyCoder (.primitive key)) ≠ [] := by
        simp [paddedElement_ne_nil]
      cases fuel with
      | zero => cases h
      | succ fuel =>
          rcases paddedElement_cases (hKeyTyped key List.mem_cons_self)
            (hKeyWrites key List.mem_cons_self) with ⟨hEncode, hDelimited⟩ | hStuck | hSwallows
          · have hDecode := hDelimited
              (keys.flatMap fun key => paddedElement keyCoder (.primitive key))
            rw [List.flatMap_cons] at h hSome
            obtain ⟨part, others, hPart, hRest, rfl⟩ :=
              (encodeMultimapKeyValues_step hSome hDecode).mp h
            have hNext : ∀ other ∈ done ++ [key], Delimited keyCoder.decodeNested
                (paddedElement keyCoder (.primitive other)) (.primitive other) := by
              intro other hOther
              rcases List.mem_append.mp hOther with hBefore | hHere
              · exact hDone other hBefore
              · rw [List.mem_singleton.mp hHere]
                exact hDelimited
            rw [List.append_cons] at hCached
            obtain ⟨⟨parts, hParts, hAll⟩, hSeparate⟩ := ih hCached hNext
              (fun other hOther => hKeyTyped other (List.mem_cons_of_mem _ hOther))
              (fun other hOther => hKeyWrites other (List.mem_cons_of_mem _ hOther))
              (fun other hOther => hTyped other (List.mem_cons_of_mem _ hOther))
              (fun other hOther => hWrites other (List.mem_cons_of_mem _ hOther)) hRest
            refine ⟨⟨part :: parts, by rw [hParts, List.flatten_cons], .cons ?_ hAll⟩, fun hEncodes => ?_⟩
            · exact viewPart_of_found hCached (by simp) (hTyped key List.mem_cons_self)
                (hWrites key List.mem_cons_self) rfl hPart
            · have hHere : keyCoder.decode (paddedElement keyCoder (.primitive key) ++
                  (keys.map BeamRecord.primitive).flatMap (paddedElement keyCoder)) =
                  .ok (.primitive key)
                    ((keys.map BeamRecord.primitive).flatMap (paddedElement keyCoder)) := by
                rw [List.flatMap_map]
                exact hDecode
              exact (hSeparate fun other hOther => hEncodes other
                (List.mem_cons_of_mem _ hOther)).cons (hKeyTyped key List.mem_cons_self) hEncode hHere
          · exact absurd h (encodeMultimapKeyValues_stuck hSome (hStuck _) _ _)
          · rw [List.flatMap_cons] at h hSome
            cases hDecode : keyCoder.decode (paddedElement keyCoder (.primitive key) ++
                keys.flatMap fun key => paddedElement keyCoder (.primitive key)) with
            | error reason =>
                rw [encodeMultimapKeyValues, if_neg (by simpa using hSome), hDecode] at h
                cases h
            | panic =>
                rw [encodeMultimapKeyValues, if_neg (by simpa using hSome), hDecode] at h
                cases h
            | ok found left =>
                obtain ⟨part, others, hPart, hRest, rfl⟩ :=
                  (encodeMultimapKeyValues_step hSome hDecode).mp h
                obtain ⟨rfl, hAll⟩ := hSwallows _ found left hDecode
                have hFound := paddedElement_of_encode hAll hSome
                by_cases hMore : keys = []
                · subst hMore
                  rw [List.flatMap_nil, List.append_nil] at hFound hDecode
                  cases fuel with
                  | zero => cases hRest
                  | succ fuel =>
                      cases hRest
                      refine ⟨⟨[part], by simp, .cons ?_ .nil⟩, fun hEncodes => ?_⟩
                      · exact viewPart_of_found hCached hMem (hTyped key List.mem_cons_self)
                          (hWrites key List.mem_cons_self) hFound hPart
                      · have hHere : keyCoder.decode (paddedElement keyCoder (.primitive key) ++
                            ([] : List BeamRecord).flatMap (paddedElement keyCoder)) =
                            .ok found (([] : List BeamRecord).flatMap (paddedElement keyCoder)) := by
                          rw [List.flatMap_nil, List.append_nil]
                          exact hDecode
                        exact Separate.cons trivial (hKeyTyped key List.mem_cons_self)
                          (hEncodes key List.mem_cons_self) hHere
                · obtain ⟨stored, -, -, hStored, -⟩ := encodeKeyValues_eq_ok hPart
                  rw [hFound] at hStored
                  exact absurd (by rw [List.flatMap_cons]; exact hStored)
                    (not_known_of_swallows hCached hDone hSwallows hMore)

end Views

/-! One window. -/

section Window

variable {keyCoder valueCoder : StandardBeamCoders} {elements : List (PrimitiveValue × BeamRecord)}

theorem mem_distinctKeys {key : PrimitiveValue} :
    key ∈ distinctKeys elements ↔ key ∈ elements.map Prod.fst := by
  have hKeys := @IndexSet.mem_keys_extend _ _ _ id [] (elements.map Prod.fst) key
  rw [List.map_id, List.map_id, List.map_id] at hKeys
  rw [distinctKeys, hKeys]
  exact or_iff_right List.not_mem_nil

theorem mem_valuesFor {key : PrimitiveValue} {value : BeamRecord} :
    value ∈ valuesFor elements key ↔ (key, value) ∈ elements := by
  rw [valuesFor, List.mem_map]
  constructor
  · rintro ⟨⟨other, found⟩, hMem, rfl⟩
    obtain ⟨hElement, hKey⟩ := List.mem_filter.mp hMem
    obtain rfl : other = key := of_decide_eq_true hKey
    exact hElement
  · intro hMem
    exact ⟨(key, value), List.mem_filter.mpr ⟨hMem, decide_eq_true rfl⟩, rfl⟩

theorem nodup_distinctKeys (elements : List (PrimitiveValue × BeamRecord)) :
    (distinctKeys elements).Nodup := by
  have hKeys := @IndexSet.nodup_keys_extend _ _ _ id (elements.map Prod.fst)
  rw [List.map_id] at hKeys
  exact hKeys

theorem length_valuesFor_le (key : PrimitiveValue) :
    (valuesFor elements key).length ≤ elements.length := by
  rw [valuesFor, List.length_map]
  exact List.length_filter_le _ _

variable (valueCoder) in
/-- Keys that are written differently keep their values apart. -/
theorem cached_groupElements
    (h : ((distinctKeys elements).map fun key => paddedElement keyCoder (.primitive key)).Nodup) :
    Cached keyCoder valueCoder (distinctKeys elements) (valuesFor elements)
      (groupElements keyCoder valueCoder elements).2 where
  stored key hKey := by
    have hMem : paddedElement keyCoder (.primitive key) ∈
        elements.map fun element => paddedElement keyCoder (.primitive element.1) := by
      obtain ⟨element, hElement, rfl⟩ := List.mem_map.mp (mem_distinctKeys.mp hKey)
      exact List.mem_map.mpr ⟨element, hElement, rfl⟩
    have hFilter : (elements.filter fun element =>
        paddedElement keyCoder (.primitive element.1) = paddedElement keyCoder (.primitive key)) =
        elements.filter fun element => element.1 = key := by
      refine List.filter_congr fun element hElement => decide_eq_decide.mpr ⟨fun hSame => ?_, ?_⟩
      · exact List.inj_on_of_nodup_map h
          (mem_distinctKeys.mpr (List.mem_map_of_mem hElement)) hKey hSame
      · rintro rfl
        rfl
    rw [lookup_groupElements, if_pos hMem, hFilter, valuesFor, List.flatMap_map]
  known bytes stored hStored := by
    rw [lookup_groupElements] at hStored
    split at hStored
    next hMem =>
      obtain ⟨element, hElement, hSame⟩ := List.mem_map.mp hMem
      exact ⟨element.1, mem_distinctKeys.mpr (List.mem_map_of_mem hElement), hSame⟩
    · cases hStored

variable (valueCoder) in
/-- The cached keys are the distinct keys exactly when these are written
differently. -/
theorem keys_groupElements_eq_iff :
    (groupElements keyCoder valueCoder elements).1 =
        (distinctKeys elements).flatMap (fun key => paddedElement keyCoder (.primitive key)) ↔
      ((distinctKeys elements).map fun key => paddedElement keyCoder (.primitive key)).Nodup := by
  rw [keys_groupElements, distinctKeys, ← IndexSet.extend_eq_extend_id_iff]
  constructor
  · exact IndexSet.eq_of_sublist_of_flatMap_eq (fun key => paddedElement_ne_nil _ _)
      (IndexSet.extend_sublist_extend_id _ _)
  · intro hSame
    rw [hSame]

end Window

/-! What the views ought to be. -/

/-- A key and the iterable of its values, encoded one after the other. -/
def encodeGroup (keyCoder valueCoder : StandardBeamCoders)
    (elements : List (PrimitiveValue × BeamRecord)) (key : PrimitiveValue) :
    Option (List UInt8) := do
  let keyBytes ← keyCoder.encode (.primitive key)
  let list ← (StandardBeamCoders.iterable valueCoder).encode (.iterable (valuesFor elements key))
  pure (keyBytes ++ list)

/-- The three views of one window list its distinct keys by first occurrence,
with the values of each in order. -/
structure ViewsOf (keyCoder valueCoder : StandardBeamCoders) (windows : EncodedSideInputWindows)
    (window : BeamWindow) (elements : List (PrimitiveValue × BeamRecord)) : Prop where
  keysWritten : ∀ key ∈ distinctKeys elements, Writes keyCoder (.primitive key)
  keys : ∀ fuel, readMultimap keyCoder valueCoder windows window .keys fuel =
    some (.ok ((distinctKeys elements).flatMap fun key => paddedElement keyCoder (.primitive key)))
  valuesWritten : ∀ key ∈ distinctKeys elements, ∀ value ∈ valuesFor elements key,
    Writes valueCoder value
  values : ∀ key ∈ distinctKeys elements, ∀ fuel,
    readMultimap keyCoder valueCoder windows window
        (.values (paddedElement keyCoder (.primitive key))) fuel =
      some (.ok ((valuesFor elements key).flatMap (paddedElement valueCoder)))
  keysValues : ∃ parts fuel,
    (distinctKeys elements).mapM (encodeGroup keyCoder valueCoder elements) = some parts ∧
      readMultimap keyCoder valueCoder windows window .keysValues fuel = some (.ok parts.flatten)

/-- Encoding the windows ends without an error, and every read of every window
ends with what it ought to be. -/
def MultimapViews (keyCoder valueCoder : StandardBeamCoders) (values : List WindowedValue) :
    Prop :=
  ∃ windows, encodeMultimapWindows keyCoder valueCoder values = .ok windows ∧
    ∀ window, ViewsOf keyCoder valueCoder windows window (elementsAt window values)

/-- Keyed elements that the coders accept. -/
def TypedElements (keyCoder valueCoder : StandardBeamCoders) (values : List WindowedValue) :
    Prop :=
  ∀ element ∈ values, ∃ key value, element.value = .kv key value ∧
    keyCoder.WellTyped (.primitive key) ∧ valueCoder.WellTyped value

/-- The keys of a window are separate, and so are the values of each key, which
an iterable can count. -/
structure SeparateElements (keyCoder valueCoder : StandardBeamCoders)
    (elements : List (PrimitiveValue × BeamRecord)) : Prop where
  keys : Separate keyCoder ((distinctKeys elements).map .primitive)
  values : ∀ key ∈ distinctKeys elements,
    (valuesFor elements key).length ≤ i32Max ∧ Separate valueCoder (valuesFor elements key)

def SeparateWindows (keyCoder valueCoder : StandardBeamCoders) (values : List WindowedValue) :
    Prop :=
  ∀ window, SeparateElements keyCoder valueCoder (elementsAt window values)

/-! A window whose views are what they ought to be. -/

section Window

variable {keyCoder valueCoder : StandardBeamCoders} {elements : List (PrimitiveValue × BeamRecord)}

/-- A key's part of the map is its bytes, the count and its values in order. -/
theorem encodeGroup_eq_some {key : PrimitiveValue} {part : List UInt8} :
    encodeGroup keyCoder valueCoder elements key = some part ↔
      ∃ keyBytes parts, keyCoder.encode (.primitive key) = some keyBytes ∧
        (valuesFor elements key).length ≤ i32Max ∧
        (valuesFor elements key).mapM valueCoder.encode = some parts ∧
        part = keyBytes ++ (putI32 (valuesFor elements key).length ++ parts.flatten) := by
  unfold encodeGroup
  constructor
  · intro h
    obtain ⟨keyBytes, hKey, h⟩ := Option.bind_eq_some_iff.mp h
    obtain ⟨list, hList, hPure⟩ := Option.bind_eq_some_iff.mp h
    obtain ⟨hCount, parts, hParts, rfl⟩ := encode_iterable_eq_some.mp hList
    cases hPure
    exact ⟨keyBytes, parts, hKey, hCount, hParts, rfl⟩
  · rintro ⟨keyBytes, parts, hKey, hCount, hParts, rfl⟩
    rw [hKey, encode_iterable_eq_some.mpr ⟨hCount, parts, hParts, rfl⟩]
    rfl

/-- Padding only adds bytes. -/
theorem length_encode_le {coder : StandardBeamCoders} {value : BeamRecord} {bytes : List UInt8}
    (h : coder.encode value = some bytes) : bytes.length ≤ (paddedElement coder value).length := by
  cases bytes with
  | nil => exact Nat.zero_le _
  | cons byte bytes => rw [paddedElement_of_encode h (List.cons_ne_nil _ _)]

/-- Encodings that are as long as with their padding need none. -/
theorem encode_of_flatten_eq {coder : StandardBeamCoders} {values : List BeamRecord}
    {parts : List (List UInt8)} (hParts : values.mapM coder.encode = some parts)
    (h : values.flatMap (paddedElement coder) = parts.flatten) :
    ∀ value ∈ values, coder.encode value = some (paddedElement coder value) := by
  have hRows := ByteDecoder.forall₂_parts hParts
  have hShorter : List.Forall₂ (fun part other => other.length ≤ part.length)
      (values.map (paddedElement coder)) parts := by
    rw [List.forall₂_map_left_iff]
    exact hRows.imp fun _ _ hEncode => length_encode_le hEncode
  rw [List.flatMap_def] at h
  obtain rfl := ByteDecoder.eq_of_flatten_eq hShorter h
  rw [List.forall₂_map_right_iff, List.forall₂_same] at hRows
  exact hRows

/-- Counts below the limit are told apart by their bytes. -/
theorem putI32_injective {count other : Nat} (hCount : count ≤ i32Max) (hOther : other ≤ i32Max)
    (h : putI32 count = putI32 other) : count = other := by
  have hRead := (putI32_segment hCount).frames []
  rw [h, (putI32_segment hOther).frames []] at hRead
  exact Int.ofNat_inj.mp (Outcome.ok.inj hRead).1.symm

theorem length_flatten_le {coder : StandardBeamCoders} {values : List BeamRecord}
    {parts : List (List UInt8)} (h : values.mapM coder.encode = some parts) :
    parts.flatten.length ≤ (values.flatMap (paddedElement coder)).length := by
  have hRows := ByteDecoder.forall₂_parts h
  clear h
  induction hRows with
  | nil => exact Nat.le_refl _
  | cons hEncode _ ih =>
      have hHead := length_encode_le hEncode
      rw [List.flatten_cons, List.flatMap_cons, List.length_append, List.length_append]
      omega

theorem length_putI32 (count : Nat) : (putI32 count).length = 4 :=
  BigEndian.toBytes_length 4 count

/-- What ought to be written for a key is no longer than what the loop wrote. -/
theorem length_encodeGroup_le {key : PrimitiveValue} {part : List UInt8}
    (h : encodeGroup keyCoder valueCoder elements key = some part) (count : Nat) :
    part.length ≤ (keyView keyCoder valueCoder (valuesFor elements) count key).length := by
  obtain ⟨keyBytes, parts, hKey, -, hParts, rfl⟩ := encodeGroup_eq_some.mp h
  have hKeyLength := length_encode_le hKey
  have hPartsLength := length_flatten_le hParts
  rw [keyView]
  simp only [List.length_append, length_putI32]
  omega

/-- What the loop wrote for a key is what ought to be written only if nothing was
padded and all values were told apart. -/
theorem of_encodeGroup_eq_keyView {key : PrimitiveValue} {count : Nat} (hCount : count ≤ i32Max)
    (h : encodeGroup keyCoder valueCoder elements key =
      some (keyView keyCoder valueCoder (valuesFor elements) count key)) :
    keyCoder.encode (.primitive key) = some (paddedElement keyCoder (.primitive key)) ∧
      count = (valuesFor elements key).length ∧
      ∀ value ∈ valuesFor elements key,
        valueCoder.encode value = some (paddedElement valueCoder value) := by
  obtain ⟨keyBytes, parts, hKey, hLength, hParts, hSame⟩ := encodeGroup_eq_some.mp h
  have hKeyLength := length_encode_le hKey
  have hPartsLength := length_flatten_le hParts
  have hTotal := congrArg List.length hSame
  rw [keyView] at hSame hTotal
  simp only [List.length_append, length_putI32] at hTotal
  obtain ⟨hKeySame, hRest⟩ := List.append_inj hSame (by omega)
  obtain ⟨hCounts, hValues⟩ := List.append_inj hRest (by rw [length_putI32, length_putI32])
  exact ⟨by rw [hKey, hKeySame], putI32_injective hCount hLength hCounts,
    encode_of_flatten_eq hParts hValues⟩

/-- Values that are read back one by one give the part of their key. -/
theorem encodeGroup_of_separate {key : PrimitiveValue}
    (hKey : keyCoder.encode (.primitive key) = some (paddedElement keyCoder (.primitive key)))
    (hCount : (valuesFor elements key).length ≤ i32Max)
    (hValues : Separate valueCoder (valuesFor elements key)) :
    encodeGroup keyCoder valueCoder elements key =
      some (keyView keyCoder valueCoder (valuesFor elements) (valuesFor elements key).length key) := by
  refine encodeGroup_eq_some.mpr ⟨_, _, hKey, hCount,
    Results.mapM_eq_some_map fun value hMem => hValues.encode hMem, ?_⟩
  rw [keyView, List.flatMap_def]

/-- The elements of one window, as the coders accept and write them. -/
structure Accepted (keyCoder valueCoder : StandardBeamCoders)
    (elements : List (PrimitiveValue × BeamRecord)) : Prop where
  keyTyped : ∀ key ∈ distinctKeys elements, keyCoder.WellTyped (.primitive key)
  keyWrites : ∀ key ∈ distinctKeys elements, Writes keyCoder (.primitive key)
  typed : ∀ key ∈ distinctKeys elements, ∀ value ∈ valuesFor elements key, valueCoder.WellTyped value
  writes : ∀ key ∈ distinctKeys elements, ∀ value ∈ valuesFor elements key, Writes valueCoder value

variable {windows : EncodedSideInputWindows} {window : BeamWindow}

theorem SeparateElements.encode (h : SeparateElements keyCoder valueCoder elements)
    {key : PrimitiveValue} (hKey : key ∈ distinctKeys elements) :
    keyCoder.encode (.primitive key) = some (paddedElement keyCoder (.primitive key)) :=
  h.keys.encode (List.mem_map_of_mem hKey)

theorem SeparateElements.nodup (h : SeparateElements keyCoder valueCoder elements)
    (hTyped : ∀ key ∈ distinctKeys elements, keyCoder.WellTyped (.primitive key)) :
    ((distinctKeys elements).map fun key => paddedElement keyCoder (.primitive key)).Nodup := by
  have hRecords : ∀ record ∈ (distinctKeys elements).map BeamRecord.primitive,
      keyCoder.WellTyped record := by
    intro record hMem
    obtain ⟨key, hKey, rfl⟩ := List.mem_map.mp hMem
    exact hTyped key hKey
  have hInjective : Function.Injective BeamRecord.primitive := fun _ _ => BeamRecord.primitive.inj
  have hNodup := h.keys.nodup hRecords ((nodup_distinctKeys elements).map hInjective)
  rw [List.map_map] at hNodup
  exact hNodup

/-- Elements whose bytes are read back give all three views. -/
theorem viewsOf_of_separate (hAccepted : Accepted keyCoder valueCoder elements)
    (hGroup : windowGroup windows window = groupElements keyCoder valueCoder elements)
    (h : SeparateElements keyCoder valueCoder elements) :
    ViewsOf keyCoder valueCoder windows window elements := by
  have hNodup := h.nodup hAccepted.keyTyped
  have hCached := cached_groupElements valueCoder hNodup
  have hKeys := (keys_groupElements_eq_iff valueCoder).mpr hNodup
  have hParts : (distinctKeys elements).mapM (encodeGroup keyCoder valueCoder elements) =
      some ((distinctKeys elements).map fun key =>
        keyView keyCoder valueCoder (valuesFor elements) (valuesFor elements key).length key) :=
    Results.mapM_eq_some_map fun key hKey =>
      encodeGroup_of_separate (h.encode hKey) (h.values key hKey).1 (h.values key hKey).2
  have hLoop := encodeMultimapKeyValues_of_separate hCached (fun key hKey => hKey)
    hAccepted.keyTyped hAccepted.typed h.keys h.values
    (fun key _ => length_valuesFor_le key) (Nat.lt_succ_self _)
  refine ⟨hAccepted.keyWrites, fun fuel => ?_, hAccepted.writes, fun key hKey fuel => ?_, ?_⟩
  · rw [readMultimap_keys, hGroup, hKeys]
  · rw [readMultimap_values, hGroup, hCached.stored key hKey]
    rfl
  · rw [← hKeys, ← hGroup] at hLoop
    obtain ⟨fuel, hRead⟩ := readMultimap_keysValues.mpr ⟨_, hLoop⟩
    exact ⟨_, fuel, hParts, by rw [hRead, List.flatMap_def]⟩

/-- And all three views are given only when the bytes are read back. -/
theorem separate_of_viewsOf (hAccepted : Accepted keyCoder valueCoder elements)
    (hGroup : windowGroup windows window = groupElements keyCoder valueCoder elements)
    (h : ViewsOf keyCoder valueCoder windows window elements) :
    SeparateElements keyCoder valueCoder elements := by
  have hKeys := h.keys 0
  rw [readMultimap_keys, hGroup] at hKeys
  have hKeysSame := Except.ok.inj (Option.some.inj hKeys)
  have hCached : Cached keyCoder valueCoder ([] ++ distinctKeys elements) (valuesFor elements)
      (groupElements keyCoder valueCoder elements).2 :=
    cached_groupElements valueCoder ((keys_groupElements_eq_iff valueCoder).mp hKeysSame)
  obtain ⟨parts, fuel, hParts, hRead⟩ := h.keysValues
  obtain ⟨steps, hLoop⟩ := readMultimap_keysValues.mp ⟨fuel, hRead⟩
  rw [hGroup, hKeysSame] at hLoop
  obtain ⟨⟨written, hWritten, hViews⟩, hSeparate⟩ := encodeMultimapKeyValues_ok hCached
    (fun _ hMem => absurd hMem List.not_mem_nil) hAccepted.keyTyped hAccepted.keyWrites
    hAccepted.typed hAccepted.writes hLoop
  have hRows := ByteDecoder.forall₂_parts hParts
  have hShorter : List.Forall₂ (fun part other => other.length ≤ part.length) written parts :=
    Results.forall₂_compose hViews hRows fun key part other hView hGroup => by
      obtain ⟨count, -, rfl, -⟩ := hView
      exact length_encodeGroup_le hGroup count
  obtain rfl := ByteDecoder.eq_of_flatten_eq hShorter hWritten.symm
  have hAll : ∀ key ∈ distinctKeys elements,
      keyCoder.encode (.primitive key) = some (paddedElement keyCoder (.primitive key)) ∧
        (valuesFor elements key).length ≤ i32Max ∧ Separate valueCoder (valuesFor elements key) := by
    intro key hKey
    obtain ⟨part, -, ⟨count, hCount, rfl, hValues⟩, hGroup⟩ :=
      Results.forall₂_left (Results.forall₂_both hViews hRows) hKey
    obtain ⟨hEncode, rfl, hEncodes⟩ := of_encodeGroup_eq_keyView hCount hGroup
    exact ⟨hEncode, hCount, hValues rfl hEncodes⟩
  exact ⟨hSeparate fun key hKey => (hAll key hKey).1, fun key hKey => (hAll key hKey).2⟩

end Window

/-! All windows. -/

section Windows

variable {keyCoder valueCoder : StandardBeamCoders} {values : List WindowedValue}

theorem exists_of_mem_distinctKeys {window : BeamWindow} {key : PrimitiveValue}
    (h : key ∈ distinctKeys (elementsAt window values)) :
    ∃ value, (key, value) ∈ elementsAt window values := by
  obtain ⟨⟨found, value⟩, hMem, rfl⟩ := List.mem_map.mp (mem_distinctKeys.mp h)
  exact ⟨value, hMem⟩

theorem TypedElements.at (h : TypedElements keyCoder valueCoder values) {window : BeamWindow}
    {key : PrimitiveValue} {value : BeamRecord} (hMem : (key, value) ∈ elementsAt window values) :
    keyCoder.WellTyped (.primitive key) ∧ valueCoder.WellTyped value := by
  obtain ⟨element, hElement, hKv, -⟩ := mem_elementsAt.mp hMem
  obtain ⟨found, other, hSame, hTyped⟩ := h element hElement
  cases hKv.symm.trans hSame
  exact hTyped

/-- Well-typed elements that can be grouped are accepted in every window. -/
theorem TypedElements.accepted (h : TypedElements keyCoder valueCoder values)
    (hGroupable : Groupable keyCoder valueCoder values) (window : BeamWindow) :
    Accepted keyCoder valueCoder (elementsAt window values) where
  keyTyped key hKey := by
    obtain ⟨value, hMem⟩ := exists_of_mem_distinctKeys hKey
    exact (h.at hMem).1
  keyWrites key hKey := by
    obtain ⟨value, hMem⟩ := exists_of_mem_distinctKeys hKey
    exact (hGroupable.at hMem).1
  typed key hKey value hValue := (h.at (mem_valuesFor.mp hValue)).2
  writes key hKey value hValue := (hGroupable.at (mem_valuesFor.mp hValue)).2

/-- What is written in every window can be grouped. -/
theorem TypedElements.groupable (h : TypedElements keyCoder valueCoder values)
    (hWrites : ∀ window, ∀ key ∈ distinctKeys (elementsAt window values),
      Writes keyCoder (.primitive key) ∧
        ∀ value ∈ valuesFor (elementsAt window values) key, Writes valueCoder value) :
    Groupable keyCoder valueCoder values := by
  intro element hElement
  obtain ⟨key, value, hKv, -⟩ := h element hElement
  refine ⟨key, value, hKv, fun window hIn => ?_⟩
  have hMem : (key, value) ∈ elementsAt window values :=
    mem_elementsAt.mpr ⟨element, hElement, hKv, hIn⟩
  have hKey : key ∈ distinctKeys (elementsAt window values) :=
    mem_distinctKeys.mpr (List.mem_map_of_mem hMem)
  exact ⟨(hWrites window key hKey).1, (hWrites window key hKey).2 value (mem_valuesFor.mpr hMem)⟩

theorem views_of_separate (hTyped : TypedElements keyCoder valueCoder values)
    (h : SeparateWindows keyCoder valueCoder values) : MultimapViews keyCoder valueCoder values := by
  have hGroupable := hTyped.groupable fun window key hKey =>
    ⟨⟨_, (h window).encode hKey⟩, fun value hValue =>
      ⟨_, ((h window).values key hKey).2.encode hValue⟩⟩
  obtain ⟨windows, hWindows, -, hGroups⟩ := encodeMultimapWindows_ok hGroupable
  exact ⟨windows, hWindows, fun window =>
    viewsOf_of_separate (hTyped.accepted hGroupable window) (hGroups window) (h window)⟩

theorem separate_of_views (hTyped : TypedElements keyCoder valueCoder values)
    (h : MultimapViews keyCoder valueCoder values) : SeparateWindows keyCoder valueCoder values := by
  obtain ⟨found, hFound, hViews⟩ := h
  have hGroupable := hTyped.groupable fun window key hKey =>
    ⟨(hViews window).keysWritten key hKey, (hViews window).valuesWritten key hKey⟩
  obtain ⟨windows, hWindows, -, hGroups⟩ := encodeMultimapWindows_ok hGroupable
  cases hFound.symm.trans hWindows
  exact fun window =>
    separate_of_viewsOf (hTyped.accepted hGroupable window) (hGroups window) (hViews window)

/-- The views of all windows are what they ought to be exactly when the cached
keys and values can be told apart again. -/
theorem multimapViews_iff (h : TypedElements keyCoder valueCoder values) :
    MultimapViews keyCoder valueCoder values ↔ SeparateWindows keyCoder valueCoder values :=
  ⟨separate_of_views h, views_of_separate h⟩

/-- Two keys in the global window, which the first element lists twice. -/
theorem multimapViews_repeated_window :
    MultimapViews .varInt .bool
      [⟨.kv (.int64 1) (.primitive (.bool true)), 0, [.global, .global], .noFiring⟩,
        ⟨.kv (.int64 2) (.primitive (.bool false)), 0, [.global], .noFiring⟩,
        ⟨.kv (.int64 1) (.primitive (.bool false)), 0, [.global], .noFiring⟩] := by
  have hTyped : TypedElements .varInt .bool
      [⟨.kv (.int64 1) (.primitive (.bool true)), 0, [.global, .global], .noFiring⟩,
        ⟨.kv (.int64 2) (.primitive (.bool false)), 0, [.global], .noFiring⟩,
        ⟨.kv (.int64 1) (.primitive (.bool false)), 0, [.global], .noFiring⟩] := by
    simp [TypedElements, StandardBeamCoders.WellTyped, StandardBeamCoders.WellTypedPrimitive]
  refine (multimapViews_iff hTyped).mpr fun window => ?_
  by_cases hGlobal : window = .global
  · subst hGlobal
    refine ⟨?_, fun key hKey => ?_⟩
    · exact ⟨⟨trivial, [2], .primitive (.int64 2), by decide, by decide, rfl⟩,
        [1], .primitive (.int64 1), by decide, by decide, rfl⟩
    · rcases List.mem_cons.mp hKey with rfl | hKey
      · exact ⟨by decide, ⟨trivial, [0], .primitive (.bool false), rfl, by decide, rfl⟩,
          [1], .primitive (.bool true), rfl, by decide, rfl⟩
      · rw [List.mem_singleton.mp hKey]
        exact ⟨by decide, trivial, [0], .primitive (.bool false), rfl, by decide, rfl⟩
  · have hNone : elementsAt window
        [⟨.kv (.int64 1) (.primitive (.bool true)), 0, [.global, .global], .noFiring⟩,
          ⟨.kv (.int64 2) (.primitive (.bool false)), 0, [.global], .noFiring⟩,
          ⟨.kv (.int64 1) (.primitive (.bool false)), 0, [.global], .noFiring⟩] = [] := by
      simp [elementsAt, hGlobal]
    rw [hNone]
    exact ⟨trivial, fun key hKey => absurd hKey List.not_mem_nil⟩

/-- A null value leaves a padding byte that its coder never reads: the keys with
their values are never returned. -/
theorem not_multimapViews_void :
    TypedElements .bool .void [⟨.kv (.bool true) (.primitive .void), 0, [.global], .noFiring⟩] ∧
      ¬ MultimapViews .bool .void
        [⟨.kv (.bool true) (.primitive .void), 0, [.global], .noFiring⟩] ∧
      ∃ windows, encodeMultimapWindows .bool .void
          [⟨.kv (.bool true) (.primitive .void), 0, [.global], .noFiring⟩] = .ok windows ∧
        ∀ fuel, readMultimap .bool .void windows .global .keysValues fuel = none := by
  have hTyped : TypedElements .bool .void
      [⟨.kv (.bool true) (.primitive .void), 0, [.global], .noFiring⟩] := by
    simp [TypedElements, StandardBeamCoders.WellTyped, StandardBeamCoders.WellTypedPrimitive]
  refine ⟨hTyped, fun hViews => ?_, ⟨_, rfl, fun fuel => ?_⟩⟩
  · obtain ⟨-, -, bytes, -, hBytes, hSome, -⟩ :=
      (separate_of_views hTyped hViews .global).values (.bool true) List.mem_cons_self
    cases hBytes
    exact hSome rfl
  · cases fuel with
    | zero => rfl
    | succ fuel =>
        have hStuck : decodeCachedValues .void fuel [0] = none :=
          decodeCachedValues_stuck (List.cons_ne_nil 0 []) rfl fuel
        rw [readMultimap, AList.lookup_insert]
        dsimp only
        rw [if_neg (AList.notMem_empty _)]
        refine encodeMultimapKeyValues_none (List.cons_ne_nil 1 []) rfl ?_
        exact encodeKeyValues_none rfl (List.cons_ne_nil 1 []) (AList.lookup_insert _) hStuck

end Windows

end FlareDB
