import FlareDB.Coders.Varint
import FlareDB.Lib.BigEndian
import FlareDB.Store.Record

/-! The coder trees the runner resolves from a pipeline, with their nested
wire form. Encoding is partial: `none` is the panic on a mismatched value. -/
namespace FlareDB

open ByteDecoder

/-- A resolved coder. `gbk` carries the element coder of its iterable value. -/
inductive StandardBeamCoders where
  | stringUtf8
  | bytes
  | javaOpaque
  | varInt
  | varInt32
  | bool
  | double
  | void
  | iterable (elementCoder : StandardBeamCoders)
  | nullable (valueCoder : StandardBeamCoders)
  | lengthPrefix
  | pickle
  | tuple (componentCoders : List StandardBeamCoders)
  | kv (keyCoder valueCoder : StandardBeamCoders)
  | gbk (keyCoder elementCoder : StandardBeamCoders)
deriving Repr

/-- Largest element count an iterable can declare on the wire. -/
def i32Max : Nat := 2 ^ 31 - 1

def getU8 : CoderDecoder UInt8
  | [] => .panic
  | byte :: rest => .ok byte rest

/-- A big-endian two's complement count. -/
def getI32 : CoderDecoder Int := do
  let raw ← Decoder.take 4
  let value := BigEndian.toNat raw
  pure (if value < 2 ^ 31 then (value : Int) else (value : Int) - 2 ^ 32)

def putI32 (count : Nat) : List UInt8 :=
  BigEndian.toBytes 4 count

def utf8Bytes (value : String) : List UInt8 :=
  value.toByteArray.data.toList

/-! Leaf coders. -/

def StringUtf8Coder.encode (val : String) : List UInt8 :=
  encodeLengthDelimited (utf8Bytes val)

def StringUtf8Coder.decode : CoderDecoder String := do
  let bytes ← decodeLengthDelimited "StringUtf8Coder"
  match String.fromUTF8? ⟨bytes.toArray⟩ with
  | some value => pure value
  | none => Decoder.fail (.whileDecoding "StringUtf8Coder: invalid UTF-8")

def BytesCoder.encode (val : List UInt8) : List UInt8 :=
  encodeLengthDelimited val

def BytesCoder.decode : CoderDecoder (List UInt8) :=
  decodeLengthDelimited "BytesCoder"

def PickleCoder.encode (val : List UInt8) : List UInt8 :=
  encodeLengthDelimited val

def PickleCoder.decode : CoderDecoder (List UInt8) :=
  decodeLengthDelimited "PickleCoder"

def LengthPrefixCoder.encode (val : List UInt8) : List UInt8 :=
  encodeLengthDelimited val

def LengthPrefixCoder.decode : CoderDecoder (List UInt8) :=
  decodeLengthDelimited "LengthPrefixCoder"

/-- The opaque coder owns everything that is left. -/
def JavaOpaqueCoder.decode : CoderDecoder (List UInt8) :=
  fun bytes => .ok bytes []

/-- Zero-extend the 32-bit pattern before the varint. -/
def VarInt32Coder.encode (val : Int64) : List UInt8 :=
  encodeVarint val.toInt32.toUInt32.toUInt64

def VarInt32Coder.decode : CoderDecoder Int64 := do
  let raw ← decodeVarint
  if raw ≥ (1 : UInt64) <<< 32 then
    Decoder.fail (.whileDecoding s!"VarInt32Coder: varint value {raw} out of 32-bit range")
  else pure raw.toUInt32.toInt32.toInt64

def BoolCoder.encode (val : Bool) : List UInt8 :=
  [if val then 1 else 0]

def BoolCoder.decode : CoderDecoder Bool := do
  let byte ← getU8
  pure (byte != 0)

def DoubleCoder.encode (bits : UInt64) : List UInt8 :=
  BigEndian.toBytes 8 bits.toNat

def DoubleCoder.decode : CoderDecoder UInt64 := do
  let remaining ← Decoder.remaining
  if remaining < 8 then
    Decoder.fail (.whileDecoding "DoubleCoder: insufficient bytes")
  else do
    let raw ← Decoder.take 8
    pure (UInt64.ofNat (BigEndian.toNat raw))

/-! Composite coders, over the coder of their components. -/

def IterableCoder.encode (element : BeamRecord → Option (List UInt8)) (values : List BeamRecord) :
    Option (List UInt8) :=
  if values.length ≤ i32Max then
    (values.mapM element).map (fun parts => putI32 values.length ++ parts.flatten)
  else none

/-- Chunks of counted elements up to a zero count. Every chunk reads at least
one byte, so when the fuel is the number of unread bytes plus one it runs out
only where the next count would be read past the end. -/
def IterableCoder.decodeChunks (element : CoderDecoder BeamRecord) :
    Nat → CoderDecoder (List BeamRecord)
  | 0 => Decoder.abort
  | fuel + 1 => do
      let chunkCount ← decodeVarint
      if chunkCount = 0 then pure []
      else do
        let values ← element.times chunkCount.toNat
        let rest ← IterableCoder.decodeChunks element fuel
        pure (values ++ rest)

def IterableCoder.decode (element : CoderDecoder BeamRecord) : CoderDecoder (List BeamRecord) := do
  let count ← getI32
  if 0 ≤ count then element.times count.toNat
  else if count = -1 then do
    let remaining ← Decoder.remaining
    IterableCoder.decodeChunks element (remaining + 1)
  else Decoder.abort

def NullableCoder.encode (value : BeamRecord → Option (List UInt8)) :
    BeamRecord → Option (List UInt8)
  | .primitive .void => some [0]
  | present => (value present).map (1 :: ·)

def NullableCoder.decode (value : CoderDecoder BeamRecord) : CoderDecoder BeamRecord := do
  let indicator ← getU8
  if indicator = 0 then pure (.primitive .void)
  else if indicator = 1 then value
  else Decoder.fail (.whileDecoding
    s!"NullableCoder: unexpected null indicator byte {indicator}")

namespace StandardBeamCoders

def isVoid : StandardBeamCoders → Bool
  | .void => true
  | _ => false

/-- Whether decoding always yields a primitive record. -/
def isPrimitive : StandardBeamCoders → Bool
  | .nullable valueCoder => valueCoder.isPrimitive
  | .iterable _ | .tuple _ | .kv _ _ | .gbk _ _ => false
  | _ => true

/-- Whether the coder produces a structured record rather than opaque bytes. -/
def isStructured : StandardBeamCoders → Bool
  | .nullable valueCoder => valueCoder.isStructured
  | .iterable _ | .tuple _ | .kv _ _ | .gbk _ _ => true
  | _ => false

/-- Encode a scalar. A nullable hands the value to its component's `encode`,
which on a primitive record is this function again. -/
def encodePrimitive : StandardBeamCoders → PrimitiveValue → Option (List UInt8)
  | .nullable valueCoder, value => match value with
      | .void => some [0]
      | present => (encodePrimitive valueCoder present).map (1 :: ·)
  | .stringUtf8, .string s => some (StringUtf8Coder.encode s)
  | .bytes, .bytes raw => some (BytesCoder.encode raw)
  | .javaOpaque, .bytes raw => some raw
  | .varInt, .int64 value => some (encodeSignedVarint value)
  | .varInt32, .int64 value => some (VarInt32Coder.encode value)
  | .bool, .bool value => some (BoolCoder.encode value)
  | .double, .float64 bits => some (DoubleCoder.encode bits)
  | .void, .void => some []
  | .pickle, .bytes raw => some (PickleCoder.encode raw)
  | .lengthPrefix, .bytes raw => some (LengthPrefixCoder.encode raw)
  | _, _ => none

/-- Encode a KV or GBK key. A composite key is already stored encoded. -/
def encodeKey (coder : StandardBeamCoders) (key : PrimitiveValue) : Option (List UInt8) :=
  if coder.isPrimitive then coder.encodePrimitive key
  else match key with
    | .bytes raw => some raw
    | _ => none

mutual

def encode : StandardBeamCoders → BeamRecord → Option (List UInt8)
  | .iterable elementCoder, .iterable list => IterableCoder.encode (encode elementCoder) list
  | .tuple componentCoders, .tuple values => encodeComponents componentCoders values
  | .nullable valueCoder, record => NullableCoder.encode (encode valueCoder) record
  | .kv keyCoder valueCoder, .kv key value => do
      let keyBytes ← encodeKey keyCoder key
      let valueBytes ← encode valueCoder value
      pure (keyBytes ++ valueBytes)
  | .kv keyCoder (.iterable elementCoder), .gbk key list => do
      let keyBytes ← encodeKey keyCoder key
      let valueBytes ← IterableCoder.encode (encode elementCoder) list
      pure (keyBytes ++ valueBytes)
  | .gbk keyCoder elementCoder, .gbk key list => do
      let keyBytes ← encodeKey keyCoder key
      let valueBytes ← IterableCoder.encode (encode elementCoder) list
      pure (keyBytes ++ valueBytes)
  | coder, .primitive value => encodePrimitive coder value
  | _, _ => none

/-- The tuple coder's loop over components, with its arity assertion. -/
def encodeComponents : List StandardBeamCoders → List PrimitiveValue → Option (List UInt8)
  | [], [] => some []
  | coder :: coders, value :: values => do
      let first ← encode coder (.primitive value)
      let rest ← encodeComponents coders values
      pure (first ++ rest)
  | _, _ => none

end

/-- Turn a record decoder into the decoder of a primitive slot. -/
def decodePrimitiveWith (decode : CoderDecoder BeamRecord) : CoderDecoder PrimitiveValue := do
  let record ← decode
  match record.getPrimitive with
  | some value => pure value
  | none => Decoder.fail (.whileDecoding "excluded other types")

/-- Decode a key with the record decoder of its coder. A composite key is
consumed and its nested encoding retained. -/
def decodeKeyWith (coder : StandardBeamCoders) (decode : CoderDecoder BeamRecord) :
    CoderDecoder PrimitiveValue :=
  if coder.isPrimitive then decodePrimitiveWith decode
  else do
    let record ← decode
    match coder.encode record with
    | some raw => pure (.bytes raw)
    | none => Decoder.abort

mutual

def decodeNested : StandardBeamCoders → CoderDecoder BeamRecord
  | .stringUtf8 => do
      let value ← StringUtf8Coder.decode
      pure (.primitive (.string value))
  | .bytes => do
      let value ← BytesCoder.decode
      pure (.primitive (.bytes value))
  | .javaOpaque => do
      let value ← JavaOpaqueCoder.decode
      pure (.primitive (.bytes value))
  | .varInt => do
      let value ← decodeSignedVarint
      pure (.primitive (.int64 value))
  | .varInt32 => do
      let value ← VarInt32Coder.decode
      pure (.primitive (.int64 value))
  | .bool => do
      let value ← BoolCoder.decode
      pure (.primitive (.bool value))
  | .double => do
      let bits ← DoubleCoder.decode
      pure (.primitive (.float64 bits))
  | .void => pure (.primitive .void)
  | .iterable elementCoder => do
      let list ← IterableCoder.decode (decodeNested elementCoder)
      pure (.iterable list)
  | .pickle => do
      let value ← PickleCoder.decode
      pure (.primitive (.bytes value))
  | .lengthPrefix => do
      let value ← LengthPrefixCoder.decode
      pure (.primitive (.bytes value))
  | .tuple componentCoders => do
      let values ← decodeComponents componentCoders
      pure (.tuple values)
  | .nullable valueCoder => NullableCoder.decode (decodeNested valueCoder)
  | .kv keyCoder valueCoder => do
      let key ← decodeKeyWith keyCoder (decodeNested keyCoder)
      let value ← decodeNested valueCoder
      pure (.kv key value)
  | .gbk keyCoder elementCoder => do
      let key ← decodeKeyWith keyCoder (decodeNested keyCoder)
      let list ← IterableCoder.decode (decodeNested elementCoder)
      pure (.gbk key list)

def decodeComponents : List StandardBeamCoders → CoderDecoder (List PrimitiveValue)
  | [] => pure []
  | coder :: coders => do
      let value ← decodePrimitiveWith (decodeNested coder)
      let values ← decodeComponents coders
      pure (value :: values)

end

def decodeKey (coder : StandardBeamCoders) : CoderDecoder PrimitiveValue :=
  decodeKeyWith coder coder.decodeNested

/-- Decode in nested Beam coder context. -/
def decode (coder : StandardBeamCoders) : CoderDecoder BeamRecord :=
  coder.decodeNested

end StandardBeamCoders
end FlareDB
