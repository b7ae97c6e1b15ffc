import FlareDB.Coders.Schema
import FlareDB.Coders.Standard

/-! The row coder. Fields are written in the order of the wire, behind a bitmap
of their nulls; elements of collections have a marker byte each. -/
namespace FlareDB.RowCoding

open ByteDecoder Decoder

mutual

/-- A value of a field. Floats are bit patterns, and a null is `none`. -/
inductive FieldValue where
  | byte (value : Int8)
  | int16 (value : Int16)
  | int32 (value : Int32)
  | int64 (value : Int64)
  | float (bits : UInt32)
  | double (bits : UInt64)
  | string (value : String)
  | boolean (value : Bool)
  | bytes (value : List UInt8)
  | array (items : List (Option FieldValue))
  | iterable (items : List (Option FieldValue))
  | map (entries : List (Option FieldValue × Option FieldValue))
  | row (row : BeamRow)
  | logical (inner : FieldValue)

/-- The values in the order of the schema. -/
inductive BeamRow where
  | mk (fields : List (Option FieldValue))

end

/-- How a row is refused: with an error or by unwinding. -/
inductive RowFailure where
  | error (reason : CodersError)
  | panic
deriving DecidableEq, Repr

abbrev RowResult (α : Type) := Except RowFailure α

def encodingError {α : Type} (message : String) : RowResult α :=
  .error (.error (.whileEncoding message))

/-! Encoding. -/

abbrev ValueEncoder := FieldValue → RowResult (List UInt8)

/-- An element of a collection, under the flag of its type. -/
def encodeElementValue (nullable : Bool) (encode : ValueEncoder) :
    Option FieldValue → RowResult (List UInt8)
  | some value =>
      if nullable then do
        let bytes ← encode value
        pure (1 :: bytes)
      else encode value
  | none =>
      if nullable then .ok [0]
      else encodingError "null element for non-nullable element type"

/-- The count is cut to 32 bits. -/
def encodeItems (element : Option FieldValue → RowResult (List UInt8))
    (items : List (Option FieldValue)) : RowResult (List UInt8) := do
  let parts ← items.mapM element
  pure (putI32 items.length ++ parts.flatten)

def encodeEntry (key value : Option FieldValue → RowResult (List UInt8))
    (entry : Option FieldValue × Option FieldValue) : RowResult (List UInt8) := do
  let keyBytes ← key entry.1
  let valueBytes ← value entry.2
  pure (keyBytes ++ valueBytes)

def encodeEntries (key value : Option FieldValue → RowResult (List UInt8))
    (entries : List (Option FieldValue × Option FieldValue)) : RowResult (List UInt8) := do
  let parts ← entries.mapM (encodeEntry key value)
  pure (putI32 entries.length ++ parts.flatten)

/-- A field as a row writes it. -/
structure FieldEncoder where
  name : String
  nullable : Bool
  encode : ValueEncoder

def isNullAt (values : List (Option FieldValue)) (index : Nat) : RowResult Bool :=
  match values[index]? with
  | some value => .ok value.isNone
  | none => .error .panic

/-- The bit of a null, by its position on the wire. -/
def markNull (bitmap : List UInt8) (entry : Bool × Nat) : RowResult (List UInt8) :=
  if entry.1 then
    match bitmap[entry.2 / 8]? with
    | some byte => .ok (bitmap.set (entry.2 / 8) (byte ||| 1 <<< UInt8.ofNat (entry.2 % 8)))
    | none => .error .panic
  else .ok bitmap

/-- The header of the bitmap and its bytes; a row without nulls has none. -/
def encodeNulls (numFields : Nat) (nulls : List Bool) : RowResult (List UInt8) :=
  if nulls.any id then do
    let nullByteCount := (numFields + 7) / 8
    let bitmap ← nulls.zipIdx.foldlM markNull (List.replicate nullByteCount 0)
    pure (encodeVarint (UInt64.ofNat nullByteCount) ++ bitmap)
  else .ok (encodeVarint 0)

def encodeFieldAt (fields : List FieldEncoder) (values : List (Option FieldValue)) (index : Nat) :
    RowResult (List UInt8) :=
  match fields[index]?, values[index]? with
  | some field, some (some value) => field.encode value
  | some field, some none =>
      if field.nullable then .ok []
      else encodingError s!"field '{field.name}' is not nullable but row value is null"
  | _, _ => .error .panic

def encodeFields (fields : List FieldEncoder) (encodeOrder : List Nat)
    (values : List (Option FieldValue)) : RowResult (List UInt8) :=
  let numFields := fields.length
  if values.length ≠ numFields then
    encodingError
      s!"row field count mismatch: schema expects {numFields}, row has {values.length}"
  else do
    let nulls ← encodeOrder.mapM (isNullAt values)
    let bitmap ← encodeNulls numFields nulls
    let parts ← encodeOrder.mapM (encodeFieldAt fields values)
    pure (encodeVarint (UInt64.ofNat numFields) ++ (bitmap ++ parts.flatten))

mutual

def encodeFieldValue : BeamFieldType → ValueEncoder
  | .mk _ kind => encodeKind kind

/-- A logical value is written as its representation, wrapped or not. -/
def encodeKind : BeamTypeKind → FieldValue → RowResult (List UInt8)
  | .byte, .byte value => .ok (BigEndian.toBytes 1 value.toUInt8.toNat)
  | .int16, .int16 value => .ok (BigEndian.toBytes 2 value.toUInt16.toNat)
  | .int32, .int32 value => .ok (encodeSignedVarint value.toInt64)
  | .int64, .int64 value => .ok (encodeSignedVarint value)
  | .float, .float bits => .ok (BigEndian.toBytes 4 bits.toNat)
  | .double, .double bits => .ok (BigEndian.toBytes 8 bits.toNat)
  | .string, .string value => .ok (encodeLengthDelimited (utf8Bytes value))
  | .boolean, .boolean value => .ok [if value then 1 else 0]
  | .bytes, .bytes value => .ok (encodeLengthDelimited value)
  | .array element, .array items =>
      encodeItems (encodeElementValue element.nullable (encodeFieldValue element)) items
  | .iterable element, .iterable items =>
      encodeItems (encodeElementValue element.nullable (encodeFieldValue element)) items
  | .map key value, .map entries =>
      encodeEntries (encodeElementValue key.nullable (encodeFieldValue key))
        (encodeElementValue value.nullable (encodeFieldValue value)) entries
  | .row schema, .row row => encodeRow schema row
  | .logical _ repr, .logical inner => encodeFieldValue repr inner
  | .logical _ repr, value => encodeFieldValue repr value
  | _, _ => encodingError "type mismatch"

def fieldEncoders : List BeamField → List FieldEncoder
  | [] => []
  | .mk name fieldType _ :: fields =>
      ⟨name, fieldType.nullable, encodeFieldValue fieldType⟩ :: fieldEncoders fields

def encodeRow : BeamSchema → BeamRow → RowResult (List UInt8)
  | .mk _ fields encodeOrder, .mk values => encodeFields (fieldEncoders fields) encodeOrder values

end

/-! Decoding. -/

def insufficient (what : String) : CodersError :=
  .whileDecoding ("insufficient bytes for " ++ what)

/-- A number of a fixed width, as its bits. -/
def decodeFixed (what : String) (width : Nat) : CoderDecoder Nat := do
  let raw ← takeChecked (insufficient what) width
  pure (BigEndian.toNat raw)

def decodeDelimited (what : String) : CoderDecoder (List UInt8) := do
  let len ← decodeVarint
  takeChecked (insufficient what) len.toNat

def decodeText (raw : List UInt8) : CoderDecoder String :=
  match String.fromUTF8? ⟨raw.toArray⟩ with
  | some value => pure value
  | none => fail (.whileDecoding "invalid UTF-8 string in Row")

def decodeCount (what : String) : CoderDecoder Int := do
  let left ← remaining
  if left < 4 then fail (insufficient what) else getI32

def decodeElementValue (nullable : Bool) (decode : CoderDecoder FieldValue) :
    CoderDecoder (Option FieldValue) :=
  if nullable then do
    let flag ← decodeFixed "nullable element flag" 1
    if flag ≠ 0 then do
      let value ← decode
      pure (some value)
    else pure none
  else do
    let value ← decode
    pure (some value)

/-- Every chunk reads its count, so the bytes that are left bound the chunks. -/
def decodeChunks (element : CoderDecoder (Option FieldValue)) :
    Nat → CoderDecoder (List (Option FieldValue))
  | 0 => abort
  | fuel + 1 => do
      let chunkCount ← decodeVarint
      if chunkCount = 0 then pure []
      else do
        let items ← element.times chunkCount.toNat
        let rest ← decodeChunks element fuel
        pure (items ++ rest)

def decodeArray (element : CoderDecoder (Option FieldValue)) :
    CoderDecoder (List (Option FieldValue)) := do
  let count ← decodeCount "Array length"
  if count < 0 then fail (.whileDecoding "negative Array length")
  else element.times count.toNat

def decodeIterable (element : CoderDecoder (Option FieldValue)) :
    CoderDecoder (List (Option FieldValue)) := do
  let count ← decodeCount "Iterable length"
  if 0 ≤ count then element.times count.toNat
  else do
    let left ← remaining
    decodeChunks element (left + 1)

def decodeEntry (key value : CoderDecoder (Option FieldValue)) :
    CoderDecoder (Option FieldValue × Option FieldValue) := do
  let k ← key
  let v ← value
  pure (k, v)

def decodeMap (key value : CoderDecoder (Option FieldValue)) :
    CoderDecoder (List (Option FieldValue × Option FieldValue)) := do
  let count ← decodeCount "Map count"
  if count < 0 then fail (.whileDecoding "negative Map size")
  else (decodeEntry key value).times count.toNat

/-- A field as a row reads it. -/
structure FieldDecoder where
  name : String
  nullable : Bool
  decode : CoderDecoder FieldValue

/-- A position past the bitmap is not null. -/
def nullBit (bitmap : List UInt8) (pos : Nat) : Bool :=
  match bitmap[pos / 8]? with
  | some byte => byte &&& 1 <<< UInt8.ofNat (pos % 8) != 0
  | none => false

/-- The field at an index of the schema and a position on the wire. -/
def decodeFieldAt (fields : List FieldDecoder) (isNull : List Bool)
    (values : List (Option FieldValue)) (entry : Nat × Nat) :
    CoderDecoder (List (Option FieldValue)) :=
  match fields[entry.1]?, isNull[entry.2]? with
  | some field, some true =>
      if field.nullable then pure (values.set entry.1 none)
      else fail (.whileDecoding
        s!"field '{field.name}' marked null in wire bitmap but schema states non-nullable")
  | some field, some false => do
      let value ← field.decode
      pure (values.set entry.1 (some value))
  | _, _ => abort

def decodeFields (fields : List FieldDecoder) (encodeOrder : List Nat) : CoderDecoder BeamRow := do
  let numFields := fields.length
  let headerFieldCount ← decodeVarint
  if headerFieldCount.toNat ≠ numFields then
    fail (.whileDecoding (s!"row field count mismatch: schema expects {numFields}, " ++
      s!"wire header had {headerFieldCount}"))
  else do
    let nullByteCount ← decodeVarint
    let bitmap ← takeChecked (insufficient "null bitmap") nullByteCount.toNat
    let isNull := (List.range numFields).map (nullBit bitmap)
    let values ← encodeOrder.zipIdx.foldlM (decodeFieldAt fields isNull)
      (List.replicate numFields none)
    pure (.mk values)

mutual

def decodeFieldValue : BeamFieldType → CoderDecoder FieldValue
  | .mk _ kind => decodeKind kind

def decodeKind : BeamTypeKind → CoderDecoder FieldValue
  | .byte => do
      let bits ← decodeFixed "Byte" 1
      pure (.byte (UInt8.ofNat bits).toInt8)
  | .int16 => do
      let bits ← decodeFixed "Int16" 2
      pure (.int16 (UInt16.ofNat bits).toInt16)
  | .int32 => do
      let value ← decodeSignedVarint
      pure (.int32 value.toInt32)
  | .int64 => do
      let value ← decodeSignedVarint
      pure (.int64 value)
  | .float => do
      let bits ← decodeFixed "Float" 4
      pure (.float (UInt32.ofNat bits))
  | .double => do
      let bits ← decodeFixed "Double" 8
      pure (.double (UInt64.ofNat bits))
  | .string => do
      let raw ← decodeDelimited "String"
      let value ← decodeText raw
      pure (.string value)
  | .boolean => do
      let flag ← decodeFixed "Boolean" 1
      pure (.boolean (flag != 0))
  | .bytes => do
      let raw ← decodeDelimited "Bytes"
      pure (.bytes raw)
  | .array element => do
      let items ← decodeArray (decodeElementValue element.nullable (decodeFieldValue element))
      pure (.array items)
  | .iterable element => do
      let items ← decodeIterable (decodeElementValue element.nullable (decodeFieldValue element))
      pure (.iterable items)
  | .map key value => do
      let entries ← decodeMap (decodeElementValue key.nullable (decodeFieldValue key))
        (decodeElementValue value.nullable (decodeFieldValue value))
      pure (.map entries)
  | .row schema => do
      let row ← decodeRow schema
      pure (.row row)
  | .logical _ repr => do
      let inner ← decodeFieldValue repr
      pure (.logical inner)

def fieldDecoders : List BeamField → List FieldDecoder
  | [] => []
  | .mk name fieldType _ :: fields =>
      ⟨name, fieldType.nullable, decodeFieldValue fieldType⟩ :: fieldDecoders fields

def decodeRow : BeamSchema → CoderDecoder BeamRow
  | .mk _ fields encodeOrder => decodeFields (fieldDecoders fields) encodeOrder

end

end FlareDB.RowCoding
