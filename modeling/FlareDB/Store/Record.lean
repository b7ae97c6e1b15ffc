import Mathlib.Tactic.Common

/-! Decoded Beam elements, in the shapes the element store materializes. -/
namespace FlareDB

/-- A scalar element. A float is kept by its IEEE bits, which is also how the
runner compares two floats. -/
inductive PrimitiveValue where
  | string (value : String)
  | bytes (value : List UInt8)
  | int64 (value : Int64)
  | float64 (bits : UInt64)
  | bool (value : Bool)
  | void
deriving DecidableEq, Repr

/-- A decoded element. KV and GBK keys are always primitive; a composite key
is stored as the bytes of its nested encoding. -/
inductive BeamRecord where
  | primitive (value : PrimitiveValue)
  | iterable (list : List BeamRecord)
  | kv (key : PrimitiveValue) (value : BeamRecord)
  | gbk (key : PrimitiveValue) (list : List BeamRecord)
  | tuple (values : List PrimitiveValue)
deriving Repr

/-- `None` stands for the "excluded other types" error. -/
def BeamRecord.getPrimitive : BeamRecord → Option PrimitiveValue
  | .primitive value => some value
  | _ => none

end FlareDB
