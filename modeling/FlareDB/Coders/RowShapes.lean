import FlareDB.Coders.RowRoundTrip

/-! Rows of another shape than their schema, which are not written, and the row
coder on the rows of both kinds. -/
namespace FlareDB.RowCoding

open ByteDecoder Results

/-! Shapes. -/

/-- A null that the flag of its type does not allow, or a value of another shape. -/
def MisshapenOption (nullable : Bool) (misshapen : FieldValue → Prop) : Option FieldValue → Prop
  | some value => misshapen value
  | none => nullable = false

mutual

def Misshapen : BeamFieldType → FieldValue → Prop
  | .mk _ kind, value => MisshapenKind kind value

def MisshapenKind : BeamTypeKind → FieldValue → Prop
  | .array element, .array items =>
      ∃ item ∈ items, MisshapenOption element.nullable (Misshapen element) item
  | .iterable element, .iterable items =>
      ∃ item ∈ items, MisshapenOption element.nullable (Misshapen element) item
  | .map key value, .map entries =>
      ∃ entry ∈ entries, MisshapenOption key.nullable (Misshapen key) entry.1 ∨
        MisshapenOption value.nullable (Misshapen value) entry.2
  | .row schema, .row row => MisshapenRow schema row
  | .logical _ repr, .logical inner => Misshapen repr inner
  | .logical _ repr, value => Misshapen repr value
  | _, _ => False

def MisshapenFields : List BeamField → List (Option FieldValue) → Prop
  | .mk _ fieldType _ :: fields, value :: values =>
      MisshapenOption fieldType.nullable (Misshapen fieldType) value ∨ MisshapenFields fields values
  | _, _ => False

/-- A wrong number of fields, or a misplaced null at some depth. -/
def MisshapenRow : BeamSchema → BeamRow → Prop
  | .mk _ fields _, .mk values => values.length ≠ fields.length ∨ MisshapenFields fields values

end

/-- A misshapen row has a misshapen field. -/
theorem exists_of_misshapenFields {fields : List BeamField} {values : List (Option FieldValue)}
    (h : MisshapenFields fields values) : ∃ (index : Nat) (field : BeamField)
      (value : Option FieldValue), fields[index]? = some field ∧ values[index]? = some value ∧
        MisshapenOption field.fieldType.nullable (Misshapen field.fieldType) value := by
  induction fields generalizing values with
  | nil => cases values <;> exact h.elim
  | cons field fields ih =>
      obtain ⟨name, fieldType, position⟩ := field
      cases values with
      | nil => exact h.elim
      | cons value values =>
          rcases h with hHere | hRest
          · exact ⟨0, _, value, rfl, rfl, hHere⟩
          · obtain ⟨index, found, other, hField, hValue, hShape⟩ := ih hRest
            exact ⟨index + 1, found, other, hField, hValue, hShape⟩

/-! Encoders that return an error. -/

/-- The computation ends with a value or with an error of the coder. -/
def Returns {α : Type} (result : RowResult α) : Prop :=
  result ≠ .error .panic

theorem returns_ok {α : Type} (value : α) : Returns (.ok value) := by
  intro h
  cases h

theorem returns_encodingError {α : Type} (message : String) :
    Returns (encodingError message : RowResult α) := by
  intro h
  cases h

/-- A sequence returns when its parts do. -/
theorem Returns.bind {α β : Type} {result : RowResult α} {f : α → RowResult β} (h : Returns result)
    (hNext : ∀ value, result = .ok value → Returns (f value)) : Returns (result >>= f) := by
  cases result with
  | ok value => exact hNext value rfl
  | error failure =>
      intro hPanic
      cases hPanic
      exact h rfl

/-- So does a map over a list. -/
theorem Returns.mapM {α β : Type} {f : α → RowResult β} {xs : List α}
    (h : ∀ x ∈ xs, Returns (f x)) : Returns (xs.mapM f) := by
  induction xs with
  | nil => exact returns_ok []
  | cons x xs ih =>
      have hRest := ih fun other hOther => h other (List.mem_cons_of_mem _ hOther)
      rw [List.mapM_cons]
      exact (h x List.mem_cons_self).bind fun _ _ => hRest.bind fun _ _ => returns_ok _

/-- Nothing unwinds, and what is of another shape is an error. -/
def Rejects {α : Type} (encode : α → RowResult (List UInt8)) (misshapen : α → Prop) : Prop :=
  ∀ value, Returns (encode value) ∧ (misshapen value → ¬ Succeeds (encode value))

namespace Rejects

theorem error {α : Type} {encode : α → RowResult (List UInt8)} {misshapen : α → Prop}
    (h : Rejects encode misshapen) {value : α} (hShape : misshapen value) :
    ∃ reason, encode value = .error (.error reason) := by
  obtain ⟨hReturns, hFails⟩ := h value
  cases hEncode : encode value with
  | ok bytes => exact absurd ⟨bytes, hEncode⟩ (hFails hShape)
  | error failure =>
      cases failure with
      | error reason => exact ⟨reason, rfl⟩
      | panic => exact absurd hEncode hReturns

/-- An element behind a null indicator is rejected as it is without. -/
theorem element {encode : ValueEncoder} {misshapen : FieldValue → Prop}
    (h : Rejects encode misshapen) (nullable : Bool) :
    Rejects (encodeElementValue nullable encode) (MisshapenOption nullable misshapen) := by
  intro item
  cases item with
  | none =>
      cases nullable with
      | false => exact ⟨returns_encodingError _, fun _ => not_succeeds_error _⟩
      | true =>
          refine ⟨returns_ok _, fun hShape => ?_⟩
          cases hShape
  | some value =>
      obtain ⟨hReturns, hFails⟩ := h value
      cases nullable with
      | false => exact ⟨hReturns, hFails⟩
      | true =>
          refine ⟨hReturns.bind fun bytes _ => returns_ok _, fun hShape hOk => ?_⟩
          obtain ⟨bytes, hBytes, -⟩ := succeeds_bind_iff.mp hOk
          exact hFails hShape ⟨bytes, hBytes⟩

variable {element value : Option FieldValue → RowResult (List UInt8)}
  {misshapen misshapenValue : Option FieldValue → Prop}

/-- A list with a misshapen item is rejected. -/
theorem items (h : Rejects element misshapen) :
    Rejects (encodeItems element) fun items => ∃ item ∈ items, misshapen item := by
  intro items
  constructor
  · exact (Returns.mapM fun item _ => (h item).1).bind fun _ _ => returns_ok _
  · rintro ⟨item, hMem, hShape⟩ hOk
    obtain ⟨parts, hParts, -⟩ := succeeds_bind_iff.mp hOk
    exact (h item).2 hShape (succeeds_mapM_iff.mp ⟨parts, hParts⟩ item hMem)

/-- So is an entry with a misshapen key or value. -/
theorem entry (hKey : Rejects element misshapen) (hValue : Rejects value misshapenValue) :
    Rejects (encodeEntry element value) fun entry => misshapen entry.1 ∨ misshapenValue entry.2 := by
  intro entry
  constructor
  · exact (hKey entry.1).1.bind fun _ _ => (hValue entry.2).1.bind fun _ _ => returns_ok _
  · intro hShape hOk
    obtain ⟨keyBytes, hKeyBytes, hRest⟩ := succeeds_bind_iff.mp hOk
    obtain ⟨valueBytes, hValueBytes, -⟩ := succeeds_bind_iff.mp hRest
    rcases hShape with hKeyShape | hValueShape
    · exact (hKey entry.1).2 hKeyShape ⟨keyBytes, hKeyBytes⟩
    · exact (hValue entry.2).2 hValueShape ⟨valueBytes, hValueBytes⟩

/-- So is a map with such an entry. -/
theorem entries (hKey : Rejects element misshapen) (hValue : Rejects value misshapenValue) :
    Rejects (encodeEntries element value) fun entries =>
      ∃ entry ∈ entries, misshapen entry.1 ∨ misshapenValue entry.2 := by
  have hEntry := hKey.entry hValue
  intro entries
  constructor
  · exact (Returns.mapM fun entry _ => (hEntry entry).1).bind fun _ _ => returns_ok _
  · rintro ⟨entry, hMem, hShape⟩ hOk
    obtain ⟨parts, hParts, -⟩ := succeeds_bind_iff.mp hOk
    exact (hEntry entry).2 hShape (succeeds_mapM_iff.mp ⟨parts, hParts⟩ entry hMem)

end Rejects

/-! The fields of a row. -/

section Fields

variable {fields : List BeamField} {values : List (Option FieldValue)}

theorem fieldAt_rejects (hFields : ∀ field ∈ fields,
      Rejects (encodeFieldValue field.fieldType) (Misshapen field.fieldType))
    {index : Nat} {field : BeamField} {value : Option FieldValue}
    (hField : fields[index]? = some field) (hValue : values[index]? = some value) :
    Returns (encodeFieldAt (fields.map BeamField.encoder) values index) ∧
      (MisshapenOption field.fieldType.nullable (Misshapen field.fieldType) value →
        ¬ Succeeds (encodeFieldAt (fields.map BeamField.encoder) values index)) := by
  have hEncoder : (fields.map BeamField.encoder)[index]? = some field.encoder := by
    rw [List.getElem?_map, hField]
    rfl
  rw [encodeFieldAt, hEncoder, hValue]
  cases value with
  | some value => exact hFields field (List.mem_of_getElem? hField) value
  | none =>
      dsimp only
      split
      · next hNullable =>
          refine ⟨returns_ok _, fun hShape => ?_⟩
          cases hNullable.symm.trans hShape
      · exact ⟨returns_encodingError _, fun _ => not_succeeds_error _⟩

/-- So is a row with a misshapen field, or of the wrong length, in any encoding
order. -/
theorem fields_rejects (hFields : ∀ field ∈ fields,
      Rejects (encodeFieldValue field.fieldType) (Misshapen field.fieldType))
    {encodeOrder : List Nat} (hOrder : encodeOrder.Perm (List.range fields.length)) :
    Returns (encodeFields (fieldEncoders fields) encodeOrder values) ∧
      (values.length ≠ fields.length ∨ MisshapenFields fields values →
        ¬ Succeeds (encodeFields (fieldEncoders fields) encodeOrder values)) := by
  rw [fieldEncoders_eq, encodeFields, List.length_map]
  by_cases hLength : values.length = fields.length
  · rw [if_neg (not_not.mpr hLength)]
    have hIndex : ∀ index ∈ encodeOrder, index < fields.length := fun index hMem =>
      List.mem_range.mp (hOrder.mem_iff.mp hMem)
    have hNulls := nulls_ok fun index hMem => hLength.symm ▸ hIndex index hMem
    obtain ⟨bitmap, hBitmap, -⟩ :=
      encodeNulls_ok (encodeOrder.map fun index => (valueAt values index).isNone)
    rw [List.length_map, hOrder.length_eq, List.length_range] at hBitmap
    rw [hNulls]
    dsimp only [bind, Except.bind]
    rw [hBitmap]
    constructor
    · refine Returns.bind (Returns.mapM fun index hMem => ?_) fun _ _ => returns_ok _
      have hIn := hIndex index hMem
      exact (fieldAt_rejects hFields (List.getElem?_eq_getElem hIn)
        (List.getElem?_eq_getElem (hLength.symm ▸ hIn))).1
    · intro hShape hOk
      obtain ⟨parts, hParts, -⟩ := succeeds_bind_iff.mp hOk
      obtain ⟨index, field, value, hField, hValue, hMisshapen⟩ :=
        exists_of_misshapenFields (hShape.resolve_left (not_not.mpr hLength))
      have hMem : index ∈ encodeOrder :=
        hOrder.mem_iff.mpr (List.mem_range.mpr (List.getElem?_eq_some_iff.mp hField).1)
      exact (fieldAt_rejects hFields hField hValue).2 hMisshapen
        (succeeds_mapM_iff.mp ⟨parts, hParts⟩ index hMem)
  · rw [if_pos hLength]
    exact ⟨returns_encodingError _, fun _ => not_succeeds_error _⟩

end Fields

/-! Every resolved type. -/

/-- A value of a kind that has no shape of its own is written or is an error. -/
theorem rejects_of_shapeless {kind : BeamTypeKind}
    (hReturns : ∀ value, Returns (encodeKind kind value))
    (hShape : ∀ value, ¬ MisshapenKind kind value) :
    Rejects (encodeKind kind) (MisshapenKind kind) :=
  fun value => ⟨hReturns value, fun hMisshapen => absurd hMisshapen (hShape value)⟩

/-- Each kind of field rejects what is misshapen for it when its parts do. -/
theorem rejects_closed : Closed
    (fun fieldType => Rejects (encodeFieldValue fieldType) (Misshapen fieldType))
    (fun kind => Rejects (encodeKind kind) (MisshapenKind kind))
    (fun schema => Rejects (encodeRow schema) (MisshapenRow schema)) where
  fieldType _ _ hKind := hKind
  atomic := by
    simp only [List.forall_mem_cons]
    refine ⟨?_, ?_, ?_, ?_, ?_, ?_, ?_, ?_, ?_, List.forall_mem_nil _⟩ <;>
      refine rejects_of_shapeless (fun value => ?_) fun value => ?_ <;>
      cases value <;>
      first
        | exact id
        | exact returns_ok _
        | exact returns_encodingError _
  array element hElement := by
    intro value
    cases value with
    | array items => exact (hElement.element element.nullable).items items
    | _ => exact ⟨returns_encodingError _, fun hShape => hShape.elim⟩
  iterable element hElement := by
    intro value
    cases value with
    | iterable items => exact (hElement.element element.nullable).items items
    | _ => exact ⟨returns_encodingError _, fun hShape => hShape.elim⟩
  map key value hKey hValue := by
    intro found
    cases found with
    | map entries =>
        exact (hKey.element key.nullable).entries (hValue.element value.nullable) entries
    | _ => exact ⟨returns_encodingError _, fun hShape => hShape.elim⟩
  row schema hSchema := by
    intro value
    cases value with
    | row row => exact hSchema row
    | _ => exact ⟨returns_encodingError _, fun hShape => hShape.elim⟩
  logical urn repr hRepr := by
    intro value
    cases value with
    | logical inner => exact hRepr inner
    | _ => exact hRepr _
  schema id fields encodeOrder hOrder hFields := by
    rintro ⟨values⟩
    exact fields_rejects hFields hOrder

/-- A schema that is accepted writes each of its fields once, reads back every row
of its types whatever follows, and refuses every row of another shape. -/
theorem rows_coded (proto : Schema) (schema : BeamSchema) (h : fromProto proto = .ok schema) :
    schema.encodeOrder.Perm (List.range schema.fields.length) ∧
      (∀ row, WellTypedRow schema row → ∃ bytes, encodeRow schema row = .ok bytes ∧
        ∀ rest, decodeRow schema (bytes ++ rest) = .ok row rest) ∧
      ∀ row, MisshapenRow schema row → ∃ reason, encodeRow schema row = .error (.error reason) :=
  ⟨encodeOrder_perm h, roundTrips_closed.fromProto proto schema h,
    fun _ hShape => (rejects_closed.fromProto proto schema h).error hShape⟩

/-- A nullable number that is written before the text it follows in the schema. -/
theorem rows_coded_reordered :
    let schema := BeamSchema.mk "id" [.mk "text" (.mk false .string) 1,
      .mk "number" (.mk true (.logical "urn" (.mk false .int32))) 0] [1, 0]
    (∃ bytes, encodeRow schema (.mk [some (.string "a"), none]) = .ok bytes ∧
      ∀ rest, decodeRow schema (bytes ++ rest) = .ok (.mk [some (.string "a"), none]) rest) ∧
    ∃ reason, encodeRow schema (.mk [none, some (.logical (.int32 1))]) =
      .error (.error reason) := by
  intro schema
  have hProto : fromProto (.mk "id" [.mk "text" (some (.mk false (some (.atomicType 7)))) 1,
      .mk "number" (some (.mk true (some (.logicalType "urn"
        (some (.mk false (some (.atomicType 3)))))))) 0] true) = .ok schema := by
    have hOrder : encodeOrderOf schema.fields true = [1, 0] := by
      simp [schema, BeamSchema.fields, encodeOrderOf, BeamField.encodingPosition, List.mergeSort]
    show Except.ok (BeamSchema.mk "id" schema.fields (encodeOrderOf schema.fields true)) = _
    rw [hOrder]
    rfl
  obtain ⟨-, hCoded, hRefused⟩ := rows_coded _ schema hProto
  constructor
  · exact hCoded _ ⟨by decide, show _ < 2 ^ 64 by decide, rfl, trivial⟩
  · exact hRefused _ (.inr (.inl rfl))

end FlareDB.RowCoding
