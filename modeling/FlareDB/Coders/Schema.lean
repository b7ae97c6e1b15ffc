import FlareDB.Coders.Varint
import FlareDB.Lib.Results

/-! Schemas of rows, as a pipeline describes them and as the row coder reads
them. -/
namespace FlareDB.RowCoding

/-! The messages of the pipeline. -/

mutual

inductive FieldType where
  | mk (nullable : Bool) (typeInfo : Option TypeInfo)

/-- An atomic type is a number. -/
inductive TypeInfo where
  | atomicType (number : Int)
  | arrayType (elementType : Option FieldType)
  | iterableType (elementType : Option FieldType)
  | mapType (keyType valueType : Option FieldType)
  | rowType (schema : Option Schema)
  | logicalType (urn : String) (representation : Option FieldType)

inductive Field where
  | mk (name : String) (fieldType : Option FieldType) (encodingPosition : Int)

inductive Schema where
  | mk (id : String) (fields : List Field) (encodingPositionsSet : Bool)

end

/-! Resolved schemas. -/

mutual

inductive BeamFieldType where
  | mk (nullable : Bool) (kind : BeamTypeKind)

inductive BeamTypeKind where
  | byte
  | int16
  | int32
  | int64
  | float
  | double
  | string
  | boolean
  | bytes
  | array (element : BeamFieldType)
  | iterable (element : BeamFieldType)
  | map (key value : BeamFieldType)
  | row (schema : BeamSchema)
  | logical (urn : String) (repr : BeamFieldType)

inductive BeamField where
  | mk (name : String) (fieldType : BeamFieldType) (encodingPosition : Int)

/-- The fields in their order, and their indices in the order of the wire. -/
inductive BeamSchema where
  | mk (id : String) (fields : List BeamField) (encodeOrder : List Nat)

end

def BeamFieldType.nullable : BeamFieldType → Bool
  | .mk nullable _ => nullable

def BeamField.name : BeamField → String
  | .mk name _ _ => name

def BeamField.fieldType : BeamField → BeamFieldType
  | .mk _ fieldType _ => fieldType

def BeamField.encodingPosition : BeamField → Int
  | .mk _ _ encodingPosition => encodingPosition

def BeamSchema.fields : BeamSchema → List BeamField
  | .mk _ fields _ => fields

def BeamSchema.encodeOrder : BeamSchema → List Nat
  | .mk _ _ encodeOrder => encodeOrder

/-- The atomic types by their numbers; any other number is unspecified. -/
def atomicKind (number : Int) : Except CodersError BeamTypeKind :=
  if number = 1 then .ok .byte
  else if number = 2 then .ok .int16
  else if number = 3 then .ok .int32
  else if number = 4 then .ok .int64
  else if number = 5 then .ok .float
  else if number = 6 then .ok .double
  else if number = 7 then .ok .string
  else if number = 8 then .ok .boolean
  else if number = 9 then .ok .bytes
  else .error (.whileDecoding "AtomicType is Unspecified")

/-- A stable sort by the encoding positions, if they are set. -/
def encodeOrderOf (fields : List BeamField) (encodingPositionsSet : Bool) : List Nat :=
  if encodingPositionsSet then
    ((fields.zipIdx.map fun entry => (entry.1.encodingPosition, entry.2)).mergeSort
      fun a b => a.1 ≤ b.1).map fun entry => entry.2
  else List.range fields.length

mutual

def resolveFieldType : FieldType → Except CodersError BeamFieldType
  | .mk _ none => .error (.whileDecoding "FieldType is missing type_info oneof")
  | .mk nullable (some typeInfo) => do
      let kind ← resolveTypeInfo typeInfo
      pure (.mk nullable kind)

def resolveTypeInfo : TypeInfo → Except CodersError BeamTypeKind
  | .atomicType number => atomicKind number
  | .arrayType none => .error (.whileDecoding "ArrayType is missing element_type")
  | .arrayType (some elementType) => do
      let element ← resolveFieldType elementType
      pure (.array element)
  | .iterableType none => .error (.whileDecoding "IterableType is missing element_type")
  | .iterableType (some elementType) => do
      let element ← resolveFieldType elementType
      pure (.iterable element)
  | .mapType none _ => .error (.whileDecoding "MapType is missing key_type")
  | .mapType (some _) none => .error (.whileDecoding "MapType is missing value_type")
  | .mapType (some keyType) (some valueType) => do
      let key ← resolveFieldType keyType
      let value ← resolveFieldType valueType
      pure (.map key value)
  | .rowType none => .error (.whileDecoding "RowType is missing schema")
  | .rowType (some schema) => do
      let schema ← fromProto schema
      pure (.row schema)
  | .logicalType urn none =>
      .error (.whileDecoding s!"LogicalType '{urn}' is missing its representation type")
  | .logicalType urn (some representation) => do
      let repr ← resolveFieldType representation
      pure (.logical urn repr)

def fieldsFromProto : List Field → Except CodersError (List BeamField)
  | [] => pure []
  | .mk name none _ :: _ =>
      .error (.whileDecoding s!"schema field '{name}' is missing its type")
  | .mk name (some fieldType) encodingPosition :: fields => do
      let beamType ← resolveFieldType fieldType
      let rest ← fieldsFromProto fields
      pure (.mk name beamType encodingPosition :: rest)

def fromProto : Schema → Except CodersError BeamSchema
  | .mk id fields encodingPositionsSet => do
      let fields ← fieldsFromProto fields
      pure (.mk id fields (encodeOrderOf fields encodingPositionsSet))

end

theorem encodeOrderOf_perm (fields : List BeamField) (encodingPositionsSet : Bool) :
    (encodeOrderOf fields encodingPositionsSet).Perm (List.range fields.length) := by
  rw [encodeOrderOf]
  split
  · have hIndices : (fields.zipIdx.map fun entry => (entry.1.encodingPosition, entry.2)).map
        (fun entry => entry.2) = List.range fields.length := by
      rw [List.map_map, List.range_eq_range', ← List.zipIdx_map_snd 0 fields]
      rfl
    rw [← hIndices]
    exact (List.mergeSort_perm _ _).map _
  · exact List.Perm.refl _

theorem encodeOrder_perm {proto : Schema} {schema : BeamSchema} (h : fromProto proto = .ok schema) :
    schema.encodeOrder.Perm (List.range schema.fields.length) := by
  obtain ⟨id, protos, encodingPositionsSet⟩ := proto
  rw [fromProto] at h
  obtain ⟨fields, -, hPure⟩ := Results.bind_eq_ok h
  cases hPure
  exact encodeOrderOf_perm fields encodingPositionsSet

theorem atomicKind_eq_ok {number : Int} {kind : BeamTypeKind} (h : atomicKind number = .ok kind) :
    kind ∈ [.byte, .int16, .int32, .int64, .float, .double, .string, .boolean, .bytes] := by
  rw [atomicKind] at h
  repeat' split at h
  all_goals cases h
  all_goals simp

/-- What every constructor of a resolved type keeps, where the fields of a row are
written in some order. -/
structure Closed (OfType : BeamFieldType → Prop) (OfKind : BeamTypeKind → Prop)
    (OfSchema : BeamSchema → Prop) : Prop where
  fieldType : ∀ nullable kind, OfKind kind → OfType (.mk nullable kind)
  atomic : ∀ kind ∈ [.byte, .int16, .int32, .int64, .float, .double, .string, .boolean, .bytes],
    OfKind kind
  array : ∀ element, OfType element → OfKind (.array element)
  iterable : ∀ element, OfType element → OfKind (.iterable element)
  map : ∀ key value, OfType key → OfType value → OfKind (.map key value)
  row : ∀ schema, OfSchema schema → OfKind (.row schema)
  logical : ∀ urn repr, OfType repr → OfKind (.logical urn repr)
  schema : ∀ id fields encodeOrder, encodeOrder.Perm (List.range fields.length) →
    (∀ field ∈ fields, OfType field.fieldType) → OfSchema (.mk id fields encodeOrder)

namespace Closed

open Results

variable {OfType : BeamFieldType → Prop} {OfKind : BeamTypeKind → Prop}
  {OfSchema : BeamSchema → Prop}

mutual

theorem resolveFieldType (h : Closed OfType OfKind OfSchema) : ∀ (fieldType : FieldType) beamType,
    resolveFieldType fieldType = .ok beamType → OfType beamType
  | .mk _ none, _, hOk => by
      rw [RowCoding.resolveFieldType] at hOk
      cases hOk
  | .mk nullable (some typeInfo), _, hOk => by
      rw [RowCoding.resolveFieldType] at hOk
      obtain ⟨kind, hKind, hPure⟩ := bind_eq_ok hOk
      cases hPure
      exact h.fieldType nullable kind (h.resolveTypeInfo typeInfo kind hKind)

theorem resolveTypeInfo (h : Closed OfType OfKind OfSchema) : ∀ (typeInfo : TypeInfo) kind,
    resolveTypeInfo typeInfo = .ok kind → OfKind kind
  | .atomicType number, kind, hOk => by
      rw [RowCoding.resolveTypeInfo] at hOk
      exact h.atomic kind (atomicKind_eq_ok hOk)
  | .arrayType none, _, hOk | .iterableType none, _, hOk | .mapType none _, _, hOk
  | .mapType (some _) none, _, hOk | .rowType none, _, hOk | .logicalType _ none, _, hOk => by
      rw [RowCoding.resolveTypeInfo] at hOk
      cases hOk
  | .arrayType (some elementType), _, hOk => by
      rw [RowCoding.resolveTypeInfo] at hOk
      obtain ⟨element, hElement, hPure⟩ := bind_eq_ok hOk
      cases hPure
      exact h.array element (h.resolveFieldType elementType element hElement)
  | .iterableType (some elementType), _, hOk => by
      rw [RowCoding.resolveTypeInfo] at hOk
      obtain ⟨element, hElement, hPure⟩ := bind_eq_ok hOk
      cases hPure
      exact h.iterable element (h.resolveFieldType elementType element hElement)
  | .mapType (some keyType) (some valueType), _, hOk => by
      rw [RowCoding.resolveTypeInfo] at hOk
      obtain ⟨key, hKey, hRest⟩ := bind_eq_ok hOk
      obtain ⟨value, hValue, hPure⟩ := bind_eq_ok hRest
      cases hPure
      exact h.map key value (h.resolveFieldType keyType key hKey)
        (h.resolveFieldType valueType value hValue)
  | .rowType (some proto), _, hOk => by
      rw [RowCoding.resolveTypeInfo] at hOk
      obtain ⟨schema, hSchema, hPure⟩ := bind_eq_ok hOk
      cases hPure
      exact h.row schema (h.fromProto proto schema hSchema)
  | .logicalType urn (some representation), _, hOk => by
      rw [RowCoding.resolveTypeInfo] at hOk
      obtain ⟨repr, hRepr, hPure⟩ := bind_eq_ok hOk
      cases hPure
      exact h.logical urn repr (h.resolveFieldType representation repr hRepr)

theorem fieldsFromProto (h : Closed OfType OfKind OfSchema) : ∀ (protos : List Field) fields,
    fieldsFromProto protos = .ok fields → ∀ field ∈ fields, OfType field.fieldType
  | [], _, hOk => by
      rw [RowCoding.fieldsFromProto] at hOk
      cases hOk
      exact List.forall_mem_nil _
  | .mk _ none _ :: _, _, hOk => by
      rw [RowCoding.fieldsFromProto] at hOk
      cases hOk
  | .mk _ (some fieldType) _ :: protos, _, hOk => by
      rw [RowCoding.fieldsFromProto] at hOk
      obtain ⟨beamType, hType, hRest⟩ := bind_eq_ok hOk
      obtain ⟨rest, hOthers, hPure⟩ := bind_eq_ok hRest
      cases hPure
      exact List.forall_mem_cons.mpr
        ⟨h.resolveFieldType fieldType beamType hType, h.fieldsFromProto protos rest hOthers⟩

/-- What every constructor keeps holds of every schema that is accepted. -/
theorem fromProto (h : Closed OfType OfKind OfSchema) : ∀ (proto : Schema) schema,
    fromProto proto = .ok schema → OfSchema schema
  | .mk id protos encodingPositionsSet, _, hOk => by
      rw [RowCoding.fromProto] at hOk
      obtain ⟨fields, hFields, hPure⟩ := bind_eq_ok hOk
      cases hPure
      exact h.schema id fields _ (encodeOrderOf_perm fields encodingPositionsSet)
        (h.fieldsFromProto protos fields hFields)

end

end Closed
end FlareDB.RowCoding
