import FlareDB.Coders.Row
import FlareDB.Coders.RoundTrip
import FlareDB.Lib.Positions

/-! A row of the types of its schema is written and read back, whatever follows
it. -/
namespace FlareDB.RowCoding

open ByteDecoder Decoder Results Positions

/-! Rows of a schema. -/

/-- A null is allowed by the flag of its type. -/
def TypedOption (nullable : Bool) (typed : FieldValue → Prop) : Option FieldValue → Prop
  | some value => typed value
  | none => nullable = true

mutual

def WellTyped : BeamFieldType → FieldValue → Prop
  | .mk _ kind, value => WellTypedKind kind value

/-- Strings and rows fit the address space, as every vector does. -/
def WellTypedKind : BeamTypeKind → FieldValue → Prop
  | .byte, .byte _ => True
  | .int16, .int16 _ => True
  | .int32, .int32 _ => True
  | .int64, .int64 _ => True
  | .float, .float _ => True
  | .double, .double _ => True
  | .string, .string value => (utf8Bytes value).length < 2 ^ 64
  | .boolean, .boolean _ => True
  | .bytes, .bytes value => value.length < 2 ^ 64
  | .array element, .array items =>
      items.length < 2 ^ 31 ∧ ∀ item ∈ items, TypedOption element.nullable (WellTyped element) item
  | .iterable element, .iterable items =>
      items.length < 2 ^ 31 ∧ ∀ item ∈ items, TypedOption element.nullable (WellTyped element) item
  | .map key value, .map entries =>
      entries.length < 2 ^ 31 ∧ ∀ entry ∈ entries,
        TypedOption key.nullable (WellTyped key) entry.1 ∧
          TypedOption value.nullable (WellTyped value) entry.2
  | .row schema, .row row => WellTypedRow schema row
  | .logical _ repr, .logical inner => WellTyped repr inner
  | _, _ => False

def WellTypedFields : List BeamField → List (Option FieldValue) → Prop
  | [], [] => True
  | .mk _ fieldType _ :: fields, value :: values =>
      TypedOption fieldType.nullable (WellTyped fieldType) value ∧ WellTypedFields fields values
  | _, _ => False

def WellTypedRow : BeamSchema → BeamRow → Prop
  | .mk _ fields _, .mk values => fields.length < 2 ^ 64 ∧ WellTypedFields fields values

end

/-- A row is well typed when each value is, position by position. -/
theorem wellTypedFields_iff {fields : List BeamField} {values : List (Option FieldValue)} :
    WellTypedFields fields values ↔ List.Forall₂ (fun field value =>
      TypedOption field.fieldType.nullable (WellTyped field.fieldType) value) fields values := by
  induction fields generalizing values with
  | nil => cases values <;> simp [WellTypedFields]
  | cons field fields ih =>
      cases field
      cases values <;> simp [WellTypedFields, BeamField.fieldType, ih]

/-! Values that are written and read back. -/

/-- Every typed value is encoded, and decoded whatever follows it. -/
def Coded {α : Type} (encode : α → RowResult (List UInt8)) (decode : CoderDecoder α)
    (typed : α → Prop) : Prop :=
  ∀ value, typed value → ∃ bytes, encode value = .ok bytes ∧ Delimited decode bytes value

namespace Coded

variable {α : Type} {encode : α → RowResult (List UInt8)} {decode : CoderDecoder α}
  {typed : α → Prop}

/-- A run of coded values is coded by the concatenation. -/
theorem times (h : Coded encode decode typed) {values : List α}
    (hTyped : ∀ value ∈ values, typed value) :
    ∃ parts, values.mapM encode = .ok parts ∧
      Delimited (decode.times values.length) parts.flatten values := by
  induction values with
  | nil => exact ⟨[], rfl, Delimited.pure []⟩
  | cons value values ih =>
      obtain ⟨first, hFirst, hHead⟩ := h value (hTyped value List.mem_cons_self)
      obtain ⟨parts, hParts, hTail⟩ :=
        ih fun other hOther => hTyped other (List.mem_cons_of_mem _ hOther)
      refine ⟨first :: parts, ?_, hHead.bind (hTail.bind_pure rfl)⟩
      rw [List.mapM_cons, hFirst, hParts]
      rfl

end Coded

section Elements

variable {encode : ValueEncoder} {decode : CoderDecoder FieldValue} {typed : FieldValue → Prop}

theorem takeChecked_delimited (reason : CodersError) (bytes : List UInt8) :
    Delimited (takeChecked reason bytes.length) bytes bytes :=
  (Reported.takeChecked reason bytes).delimited

/-- A number of fixed width is read back from its own bytes. -/
theorem decodeFixed_delimited (what : String) {width value : Nat} (h : value < 256 ^ width) :
    Delimited (decodeFixed what width) (BigEndian.toBytes width value) value := by
  have hTake := takeChecked_delimited (insufficient what) (BigEndian.toBytes width value)
  rw [BigEndian.toBytes_length] at hTake
  exact hTake.bind_pure (by rw [BigEndian.toNat_toBytes_of_lt h])

/-- So are bytes under their length. -/
theorem decodeDelimited_delimited (what : String) {raw : List UInt8} (h : raw.length < 2 ^ 64) :
    Delimited (decodeDelimited what) (encodeLengthDelimited raw) raw := by
  refine (encodeVarint_segment (UInt64.ofNat raw.length)).delimited.bind ?_
  rw [UInt64.toNat_ofNat', Nat.mod_eq_of_lt h]
  exact takeChecked_delimited _ raw

/-- So is a count. -/
theorem decodeCount_delimited (what : String) {count : Nat} (h : count < 2 ^ 31) :
    Delimited (decodeCount what) (putI32 count) (count : Int) :=
  (putI32_segment (Nat.le_sub_one_of_lt h)).delimited.guarded
    (Nat.le_of_eq (BigEndian.toBytes_length 4 count).symm) _

/-- An element is marked where its type has nulls. -/
theorem Coded.element (h : Coded encode decode typed) (nullable : Bool) :
    Coded (encodeElementValue nullable encode) (decodeElementValue nullable decode)
      (TypedOption nullable typed) := by
  intro item hItem
  cases item with
  | none =>
      have hNullable : nullable = true := hItem
      subst hNullable
      have hFlag : Delimited (decodeFixed "nullable element flag" 1) [0] 0 :=
        decodeFixed_delimited _ (show 0 < 256 ^ 1 by decide)
      exact ⟨[0], rfl, hFlag.bind_pure rfl⟩
  | some value =>
      obtain ⟨bytes, hBytes, hDelimited⟩ := h value hItem
      cases nullable with
      | false => exact ⟨bytes, hBytes, hDelimited.bind_pure rfl⟩
      | true =>
          have hFlag : Delimited (decodeFixed "nullable element flag" 1) [1] 1 :=
            decodeFixed_delimited _ (show 1 < 256 ^ 1 by decide)
          refine ⟨1 :: bytes, ?_, hFlag.bind (hDelimited.bind_pure rfl)⟩
          rw [encodeElementValue, if_pos rfl, hBytes]
          rfl

variable {element : Option FieldValue → RowResult (List UInt8)}
  {decodeElement : CoderDecoder (Option FieldValue)} {typedElement : Option FieldValue → Prop}

/-- Arrays of coded elements are coded. -/
theorem Coded.array (h : Coded element decodeElement typedElement) :
    Coded (encodeItems element) (decodeArray decodeElement)
      fun items => items.length < 2 ^ 31 ∧ ∀ item ∈ items, typedElement item := by
  rintro items ⟨hCount, hItems⟩
  obtain ⟨parts, hParts, hTimes⟩ := h.times hItems
  refine ⟨putI32 items.length ++ parts.flatten, ?_, (decodeCount_delimited _ hCount).bind ?_⟩
  · rw [encodeItems, hParts]
    rfl
  · rw [if_neg (by omega), Int.toNat_natCast]
    exact hTimes

/-- So are iterables. -/
theorem Coded.iterable (h : Coded element decodeElement typedElement) :
    Coded (encodeItems element) (decodeIterable decodeElement)
      fun items => items.length < 2 ^ 31 ∧ ∀ item ∈ items, typedElement item := by
  rintro items ⟨hCount, hItems⟩
  obtain ⟨parts, hParts, hTimes⟩ := h.times hItems
  refine ⟨putI32 items.length ++ parts.flatten, ?_, (decodeCount_delimited _ hCount).bind ?_⟩
  · rw [encodeItems, hParts]
    rfl
  · rw [if_pos (by omega), Int.toNat_natCast]
    exact hTimes

variable {value : Option FieldValue → RowResult (List UInt8)}
  {decodeValue : CoderDecoder (Option FieldValue)} {typedValue : Option FieldValue → Prop}

/-- So are the entries of a map. -/
theorem Coded.entry (hKey : Coded element decodeElement typedElement)
    (hValue : Coded value decodeValue typedValue) :
    Coded (encodeEntry element value) (decodeEntry decodeElement decodeValue)
      fun entry => typedElement entry.1 ∧ typedValue entry.2 := by
  rintro ⟨key, item⟩ ⟨hKeyTyped, hItemTyped⟩
  obtain ⟨keyBytes, hKeyBytes, hKeyRead⟩ := hKey key hKeyTyped
  obtain ⟨valueBytes, hValueBytes, hValueRead⟩ := hValue item hItemTyped
  refine ⟨keyBytes ++ valueBytes, ?_, hKeyRead.bind (hValueRead.bind_pure rfl)⟩
  rw [encodeEntry, hKeyBytes, hValueBytes]
  rfl

/-- And so are maps. -/
theorem Coded.map (hKey : Coded element decodeElement typedElement)
    (hValue : Coded value decodeValue typedValue) :
    Coded (encodeEntries element value) (decodeMap decodeElement decodeValue)
      fun entries => entries.length < 2 ^ 31 ∧
        ∀ entry ∈ entries, typedElement entry.1 ∧ typedValue entry.2 := by
  rintro entries ⟨hCount, hEntries⟩
  obtain ⟨parts, hParts, hTimes⟩ := (hKey.entry hValue).times hEntries
  refine ⟨putI32 entries.length ++ parts.flatten, ?_, (decodeCount_delimited _ hCount).bind ?_⟩
  · rw [encodeEntries, hParts]
    rfl
  · rw [if_neg (by omega), Int.toNat_natCast]
    exact hTimes

end Elements

/-! The bitmap of the nulls. -/

/-- A null bit is one bit of the byte that covers its position. -/
theorem nullBit_iff {bitmap : List UInt8} {pos : Nat} :
    nullBit bitmap pos = true ↔
      ∃ byte, bitmap[pos / 8]? = some byte ∧ byte &&& 1 <<< UInt8.ofNat (pos % 8) ≠ 0 := by
  rw [nullBit]
  cases bitmap[pos / 8]? with
  | none => simp
  | some byte => simp

/-- Marking a position sets the bit of that position alone. -/
theorem markNull_ok {bitmap : List UInt8} {entry : Bool × Nat} (h : entry.2 < 8 * bitmap.length) :
    ∃ marked, markNull bitmap entry = .ok marked ∧ marked.length = bitmap.length ∧
      ∀ pos, nullBit marked pos = true ↔ nullBit bitmap pos = true ∨ (true, pos) = entry := by
  obtain ⟨isNull, place⟩ := entry
  cases isNull with
  | false => exact ⟨bitmap, rfl, rfl, fun pos => by simp⟩
  | true =>
      have hByte : place / 8 < bitmap.length := Nat.div_lt_of_lt_mul h
      refine ⟨bitmap.set (place / 8) (bitmap[place / 8] ||| 1 <<< UInt8.ofNat (place % 8)), ?_,
        List.length_set, ?_⟩
      · rw [markNull, if_pos rfl, List.getElem?_eq_getElem hByte]
      · intro pos
        rw [nullBit_iff, nullBit_iff]
        have hPlace : place % 8 < 8 := Nat.mod_lt _ (by decide)
        have hPos : pos % 8 < 8 := Nat.mod_lt _ (by decide)
        by_cases hSame : place / 8 = pos / 8
        · have hEntry : (true, pos) = (true, place) ↔ place % 8 = pos % 8 := by
            simp only [Prod.mk.injEq, true_and]
            omega
          rw [← hSame, List.getElem?_set_self hByte, hEntry, List.getElem?_eq_getElem hByte]
          simpa using or_shifted_and_shifted bitmap[place / 8] hPlace hPos
        · have hEntry : (true, pos) ≠ (true, place) := by
            rintro ⟨⟩
            exact hSame rfl
          rw [List.getElem?_set_ne hSame]
          simp [hEntry]

/-- Marks that lie within the bitmap succeed. -/
theorem markNulls_ok (bitmap : List UInt8) (entries : List (Bool × Nat))
    (h : ∀ entry ∈ entries, entry.2 < 8 * bitmap.length) :
    ∃ marked, entries.foldlM markNull bitmap = .ok marked ∧ marked.length = bitmap.length ∧
      ∀ pos, nullBit marked pos = true ↔ nullBit bitmap pos = true ∨ (true, pos) ∈ entries := by
  induction entries generalizing bitmap with
  | nil => exact ⟨bitmap, rfl, rfl, fun pos => by simp⟩
  | cons entry entries ih =>
      obtain ⟨next, hNext, hLength, hBits⟩ := markNull_ok (h entry List.mem_cons_self)
      obtain ⟨marked, hMarked, hSame, hRest⟩ := ih next fun other hOther => by
        rw [hLength]
        exact h other (List.mem_cons_of_mem _ hOther)
      refine ⟨marked, ?_, hSame.trans hLength, fun pos => ?_⟩
      · rw [List.foldlM_cons, hNext]
        exact hMarked
      · rw [hRest, hBits, List.mem_cons, or_assoc]

/-- A fresh bitmap marks nothing. -/
theorem nullBit_replicate (count pos : Nat) : nullBit (List.replicate count 0) pos = false := by
  rw [nullBit, List.getElem?_replicate]
  split
  · next byte hByte =>
      split at hByte
      · cases hByte
        simp
      · cases hByte
  · rfl

/-- The bitmap says of every position on the wire whether it is null. -/
theorem encodeNulls_ok (nulls : List Bool) :
    ∃ bitmap, encodeNulls nulls.length nulls =
        .ok (encodeVarint (UInt64.ofNat bitmap.length) ++ bitmap) ∧
      bitmap.length ≤ nulls.length ∧ (List.range nulls.length).map (nullBit bitmap) = nulls := by
  have hCovered : ∀ bitmap : List UInt8, (∀ pos, nullBit bitmap pos = true ↔
      nulls[pos]? = some true) → (List.range nulls.length).map (nullBit bitmap) = nulls := by
    intro bitmap hBits
    refine List.ext_getElem (by simp) fun pos hPos hIn => ?_
    rw [List.getElem_map, List.getElem_range, Bool.eq_iff_iff, hBits, List.getElem?_eq_getElem hIn,
      Option.some.injEq]
  by_cases hAny : nulls.any id = true
  · obtain ⟨bitmap, hMarked, hLength, hBits⟩ :=
      markNulls_ok (List.replicate ((nulls.length + 7) / 8) 0) nulls.zipIdx (by
        rintro ⟨isNull, pos⟩ hEntry
        have hPos : pos < nulls.length :=
          (List.getElem?_eq_some_iff.mp (List.mk_mem_zipIdx_iff_getElem?.mp hEntry)).1
        rw [List.length_replicate]
        dsimp only
        omega)
    rw [List.length_replicate] at hLength
    refine ⟨bitmap, ?_, ?_, hCovered bitmap fun pos => ?_⟩
    · rw [encodeNulls, if_pos hAny]
      dsimp only
      rw [hMarked, hLength]
      rfl
    · obtain ⟨isNull, hMem, -⟩ := List.any_eq_true.mp hAny
      have hPos := List.length_pos_of_mem hMem
      omega
    · rw [hBits, nullBit_replicate, List.mk_mem_zipIdx_iff_getElem?]
      simp
  · refine ⟨[], ?_, Nat.zero_le _, hCovered [] fun pos => ?_⟩
    · rw [encodeNulls, if_neg hAny]
      rfl
    · have hNone : nulls[pos]? ≠ some true := by
        intro hPos
        exact hAny (List.any_eq_true.mpr ⟨true, List.mem_of_getElem? hPos, rfl⟩)
      simp [nullBit, hNone]

/-! The fields in the order of the wire. -/

def BeamField.encoder (field : BeamField) : FieldEncoder where
  name := field.name
  nullable := field.fieldType.nullable
  encode := encodeFieldValue field.fieldType

def BeamField.decoder (field : BeamField) : FieldDecoder where
  name := field.name
  nullable := field.fieldType.nullable
  decode := decodeFieldValue field.fieldType

theorem fieldEncoders_eq (fields : List BeamField) :
    fieldEncoders fields = fields.map BeamField.encoder := by
  induction fields with
  | nil => rfl
  | cons field fields ih =>
      cases field
      rw [fieldEncoders, ih]
      rfl

theorem fieldDecoders_eq (fields : List BeamField) :
    fieldDecoders fields = fields.map BeamField.decoder := by
  induction fields with
  | nil => rfl
  | cons field fields ih =>
      cases field
      rw [fieldDecoders, ih]
      rfl

def RoundTrips (fieldType : BeamFieldType) : Prop :=
  Coded (encodeFieldValue fieldType) (decodeFieldValue fieldType) (WellTyped fieldType)

/-- The value at an index, a null past the end. -/
def valueAt (values : List (Option FieldValue)) (index : Nat) : Option FieldValue :=
  values[index]?.join

section Fields

variable {fields : List BeamField} {values : List (Option FieldValue)}

/-- The nulls of a row are read in encoding order. -/
theorem nulls_ok {encodeOrder : List Nat} (h : ∀ index ∈ encodeOrder, index < values.length) :
    encodeOrder.mapM (isNullAt values) =
      .ok (encodeOrder.map fun index => (valueAt values index).isNone) := by
  induction encodeOrder with
  | nil => rfl
  | cons index order ih =>
      have hHere : isNullAt values index = .ok (valueAt values index).isNone := by
        rw [isNullAt, valueAt, List.getElem?_eq_getElem (h index List.mem_cons_self)]
        rfl
      rw [List.mapM_cons, hHere, ih fun other hOther => h other (List.mem_cons_of_mem _ hOther)]
      rfl

/-- A field is read back to the index it was taken from. -/
theorem fieldAt_ok (hFields : ∀ field ∈ fields, RoundTrips field.fieldType)
    (hTyped : WellTypedFields fields values) {isNull : List Bool} {index pos : Nat}
    (hIndex : index < fields.length)
    (hNull : isNull[pos]? = some (valueAt values index).isNone) :
    ∃ part, encodeFieldAt (fields.map BeamField.encoder) values index = .ok part ∧
      ∀ read, Delimited (decodeFieldAt (fields.map BeamField.decoder) isNull read (index, pos)) part
        (read.set index (valueAt values index)) := by
  have hField : fields[index]? = some fields[index] := List.getElem?_eq_getElem hIndex
  obtain ⟨value, hValue, hTypedValue⟩ := forall₂_row (wellTypedFields_iff.mp hTyped) hField
  have hAt : valueAt values index = value := by
    rw [valueAt, hValue]
    rfl
  have hEncoder : (fields.map BeamField.encoder)[index]? = some fields[index].encoder := by
    rw [List.getElem?_map, hField]
    rfl
  have hDecoder : (fields.map BeamField.decoder)[index]? = some fields[index].decoder := by
    rw [List.getElem?_map, hField]
    rfl
  rw [hAt] at hNull ⊢
  cases value with
  | none =>
      have hNullable : fields[index].fieldType.nullable = true := hTypedValue
      refine ⟨[], ?_, fun read => ?_⟩
      · rw [encodeFieldAt, hEncoder, hValue]
        exact if_pos hNullable
      · have hRead : decodeFieldAt (fields.map BeamField.decoder) isNull read (index, pos) =
            pure (read.set index none) := by
          rw [decodeFieldAt, hDecoder, hNull]
          exact if_pos hNullable
        rw [hRead]
        exact Delimited.pure _
  | some found =>
      obtain ⟨part, hPart, hDelimited⟩ :=
        hFields fields[index] (List.getElem_mem hIndex) found hTypedValue
      refine ⟨part, ?_, fun read => ?_⟩
      · rw [encodeFieldAt, hEncoder, hValue]
        exact hPart
      · rw [decodeFieldAt, hDecoder, hNull]
        exact hDelimited.bind_pure rfl

/-- The loop over the fields, from any position of the wire on. -/
theorem fieldsLoop_ok (hFields : ∀ field ∈ fields, RoundTrips field.fieldType)
    (hTyped : WellTypedFields fields values) {isNull : List Bool} (encodeOrder : List Nat)
    (start : Nat) (hOrder : ∀ index ∈ encodeOrder, index < fields.length)
    (hNulls : ∀ entry ∈ encodeOrder.zipIdx start,
      isNull[entry.2]? = some (valueAt values entry.1).isNone) :
    ∃ parts, encodeOrder.mapM (encodeFieldAt (fields.map BeamField.encoder) values) = .ok parts ∧
      ∀ read, Delimited
        ((encodeOrder.zipIdx start).foldlM
          (decodeFieldAt (fields.map BeamField.decoder) isNull) read) parts.flatten
        (encodeOrder.foldl (fun read index => read.set index (valueAt values index)) read) := by
  induction encodeOrder generalizing start with
  | nil => exact ⟨[], rfl, fun read => Delimited.pure read⟩
  | cons index order ih =>
      obtain ⟨part, hPart, hHere⟩ := fieldAt_ok hFields hTyped (hOrder index List.mem_cons_self)
        (hNulls (index, start) List.mem_cons_self)
      obtain ⟨parts, hParts, hRest⟩ := ih (start + 1)
        (fun other hOther => hOrder other (List.mem_cons_of_mem _ hOther))
        fun entry hEntry => hNulls entry (List.mem_cons_of_mem _ hEntry)
      refine ⟨part :: parts, ?_, fun read => ?_⟩
      · rw [List.mapM_cons, hPart, hParts]
        rfl
      · rw [List.zipIdx_cons, List.foldlM_cons]
        exact (hHere read).bind (hRest _)

/-- A row is read back whatever the order of its fields on the wire. -/
theorem fields_ok (hFields : ∀ field ∈ fields, RoundTrips field.fieldType)
    (hTyped : WellTypedFields fields values) (hCount : fields.length < 2 ^ 64)
    {encodeOrder : List Nat} (hOrder : encodeOrder.Perm (List.range fields.length)) :
    ∃ bytes, encodeFields (fieldEncoders fields) encodeOrder values = .ok bytes ∧
      Delimited (decodeFields (fieldDecoders fields) encodeOrder) bytes (.mk values) := by
  rw [fieldEncoders_eq, fieldDecoders_eq]
  have hLength : values.length = fields.length :=
    (wellTypedFields_iff.mp hTyped).length_eq.symm
  have hIndex : ∀ index ∈ encodeOrder, index < fields.length := fun index hMem =>
    List.mem_range.mp (hOrder.mem_iff.mp hMem)
  let nulls := encodeOrder.map fun index => (valueAt values index).isNone
  have hNulls : encodeOrder.mapM (isNullAt values) = .ok nulls :=
    nulls_ok fun index hMem => hLength.symm ▸ hIndex index hMem
  have hOrderLength : nulls.length = fields.length := by
    rw [List.length_map, hOrder.length_eq, List.length_range]
  have hRead : ∀ entry ∈ encodeOrder.zipIdx,
      nulls[entry.2]? = some (valueAt values entry.1).isNone := by
    rintro ⟨index, pos⟩ hEntry
    rw [List.getElem?_map, List.mk_mem_zipIdx_iff_getElem?.mp hEntry]
    rfl
  obtain ⟨bitmap, hBitmap, hShort, hBits⟩ := encodeNulls_ok nulls
  rw [hOrderLength] at hBitmap hShort hBits
  obtain ⟨parts, hParts, hLoop⟩ := fieldsLoop_ok hFields hTyped encodeOrder 0 hIndex hRead
  refine ⟨encodeVarint (UInt64.ofNat fields.length) ++
    ((encodeVarint (UInt64.ofNat bitmap.length) ++ bitmap) ++ parts.flatten), ?_, ?_⟩
  · rw [encodeFields, List.length_map, if_neg (not_not.mpr hLength), hNulls, hParts]
    dsimp only [bind, Except.bind]
    rw [hBitmap]
    rfl
  · refine (encodeVarint_segment _).delimited.bind ?_
    rw [UInt64.toNat_ofNat', Nat.mod_eq_of_lt hCount]
    rw [if_neg (by simp), List.append_assoc]
    refine (encodeVarint_segment _).delimited.bind ?_
    rw [UInt64.toNat_ofNat', Nat.mod_eq_of_lt (by omega)]
    refine (takeChecked_delimited _ bitmap).bind ?_
    rw [List.length_map, hBits]
    refine (hLoop _).bind_pure ?_
    rw [foldl_set_eq]
    · rw [List.length_replicate, hLength]
    · intro index hIn
      exact hOrder.mem_iff.mpr (List.mem_range.mpr (by omega))
    · intro index found hFound
      rw [valueAt, hFound]
      rfl

end Fields

/-! Every resolved type. -/

def KindRoundTrips (kind : BeamTypeKind) : Prop :=
  Coded (encodeKind kind) (decodeKind kind) (WellTypedKind kind)

def RowRoundTrips (schema : BeamSchema) : Prop :=
  Coded (encodeRow schema) (decodeRow schema) (WellTypedRow schema)

theorem byte_roundTrips : KindRoundTrips .byte := by
  intro value hTyped
  cases value with
  | byte value =>
      exact ⟨_, rfl, (decodeFixed_delimited _ value.toUInt8.toNat_lt).bind_pure
        (by rw [UInt8.ofNat_toNat, Int8.toInt8_toUInt8])⟩
  | _ => exact hTyped.elim

theorem int16_roundTrips : KindRoundTrips .int16 := by
  intro value hTyped
  cases value with
  | int16 value =>
      exact ⟨_, rfl, (decodeFixed_delimited _ value.toUInt16.toNat_lt).bind_pure
        (by rw [UInt16.ofNat_toNat, Int16.toInt16_toUInt16])⟩
  | _ => exact hTyped.elim

theorem int32_roundTrips : KindRoundTrips .int32 := by
  intro value hTyped
  cases value with
  | int32 value =>
      exact ⟨_, rfl, (encodeSignedVarint_segment value.toInt64).delimited.bind_pure
        (by rw [Int32.toInt32_toInt64])⟩
  | _ => exact hTyped.elim

theorem int64_roundTrips : KindRoundTrips .int64 := by
  intro value hTyped
  cases value with
  | int64 value => exact ⟨_, rfl, (encodeSignedVarint_segment value).delimited.bind_pure rfl⟩
  | _ => exact hTyped.elim

theorem float_roundTrips : KindRoundTrips .float := by
  intro value hTyped
  cases value with
  | float bits =>
      exact ⟨_, rfl, (decodeFixed_delimited _ bits.toNat_lt).bind_pure (by rw [UInt32.ofNat_toNat])⟩
  | _ => exact hTyped.elim

theorem double_roundTrips : KindRoundTrips .double := by
  intro value hTyped
  cases value with
  | double bits =>
      exact ⟨_, rfl, (decodeFixed_delimited _ bits.toNat_lt).bind_pure (by rw [UInt64.ofNat_toNat])⟩
  | _ => exact hTyped.elim

theorem string_roundTrips : KindRoundTrips .string := by
  intro value hTyped
  cases value with
  | string value =>
      have hText : decodeText (utf8Bytes value) = pure value := by
        rw [decodeText, fromUTF8_utf8Bytes]
      refine ⟨_, rfl, (decodeDelimited_delimited _ hTyped).bind_pure ?_⟩
      rw [hText]
      rfl
  | _ => exact hTyped.elim

theorem boolean_roundTrips : KindRoundTrips .boolean := by
  intro value hTyped
  cases value with
  | boolean value =>
      have hFlag : Delimited (decodeFixed "Boolean" 1) [if value then 1 else 0]
          (if value then 1 else 0) := by
        cases value with
        | false => exact decodeFixed_delimited _ (show 0 < 256 ^ 1 by decide)
        | true => exact decodeFixed_delimited _ (show 1 < 256 ^ 1 by decide)
      exact ⟨_, rfl, hFlag.bind_pure (by cases value <;> rfl)⟩
  | _ => exact hTyped.elim

theorem bytes_roundTrips : KindRoundTrips .bytes := by
  intro value hTyped
  cases value with
  | bytes raw => exact ⟨_, rfl, (decodeDelimited_delimited _ hTyped).bind_pure rfl⟩
  | _ => exact hTyped.elim

/-- One case for each constructor of a type; a row is the case of its fields. -/
theorem roundTrips_closed : Closed RoundTrips KindRoundTrips RowRoundTrips where
  fieldType _ _ hKind := hKind
  atomic := by
    simp only [List.forall_mem_cons]
    exact ⟨byte_roundTrips, int16_roundTrips, int32_roundTrips, int64_roundTrips, float_roundTrips,
      double_roundTrips, string_roundTrips, boolean_roundTrips, bytes_roundTrips,
      List.forall_mem_nil _⟩
  array element hElement := by
    intro value hTyped
    cases value with
    | array items =>
        obtain ⟨bytes, hBytes, hItems⟩ := (hElement.element element.nullable).array items hTyped
        exact ⟨bytes, hBytes, hItems.bind_pure rfl⟩
    | _ => exact hTyped.elim
  iterable element hElement := by
    intro value hTyped
    cases value with
    | iterable items =>
        obtain ⟨bytes, hBytes, hItems⟩ := (hElement.element element.nullable).iterable items hTyped
        exact ⟨bytes, hBytes, hItems.bind_pure rfl⟩
    | _ => exact hTyped.elim
  map key value hKey hValue := by
    intro found hTyped
    cases found with
    | map entries =>
        obtain ⟨bytes, hBytes, hEntries⟩ :=
          (hKey.element key.nullable).map (hValue.element value.nullable) entries hTyped
        exact ⟨bytes, hBytes, hEntries.bind_pure rfl⟩
    | _ => exact hTyped.elim
  row schema hSchema := by
    intro value hTyped
    cases value with
    | row row =>
        obtain ⟨bytes, hBytes, hRow⟩ := hSchema row hTyped
        exact ⟨bytes, hBytes, hRow.bind_pure rfl⟩
    | _ => exact hTyped.elim
  logical urn repr hRepr := by
    intro value hTyped
    cases value with
    | logical inner =>
        obtain ⟨bytes, hBytes, hInner⟩ := hRepr inner hTyped
        exact ⟨bytes, hBytes, hInner.bind_pure rfl⟩
    | _ => exact hTyped.elim
  schema id fields encodeOrder hOrder hFields := by
    rintro ⟨values⟩ ⟨hCount, hTyped⟩
    exact fields_ok hFields hTyped hCount hOrder

end FlareDB.RowCoding
