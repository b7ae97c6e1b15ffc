import FlareDB.Lib.Arrow
import FlareDB.Store.Record

/-! The Arrow schema of a batch of records. It is inferred from the values of the
batch: the first record, the first element of an iterable, and a default where
there is no element to look at. -/
namespace FlareDB

open Arrow

def keyColumn : String := "key"
def valueColumn : String := "value"

/-- What kind of record a table stores. -/
inductive TableType where
  | primitive
  | iterable
  | kv
  | gbk
  | tuple
  | row
deriving DecidableEq, Repr

def tableTypeOf : BeamRecord → TableType
  | .primitive _ => .primitive
  | .iterable _ => .iterable
  | .kv _ _ => .kv
  | .gbk _ _ => .gbk
  | .tuple _ => .tuple

/-- How a PCollection is laid out as columns. -/
structure RecordTableSchema where
  tableType : TableType
  arrowSchema : List Field
  hasWindowedMetadata : Bool

/-- The part of a record whose types differ within a batch. -/
inductive MixedPart where
  | primitive
  | iterableItem
  | kvKey
  | kvValue
  | gbkKey
  | tupleComponent
deriving DecidableEq, Repr

/-- Why a batch of records is not stored, or not read back. -/
inductive RecordError where
  | emptyPcollection (pcollectionId : String)
  | emptyRecords
  | mixedRecordVariants (pcollectionId : String) (expected : TableType)
  | mixedTypes (part : MixedPart) (pcollectionId : String) (expected found : DataType)
  | mixedPrimitiveVariants (expected : LeafType) (found : PrimitiveValue)
  | unsupportedNestedRecord (found : TableType)
  | unsupportedPrimitiveStorageType (dataType : DataType)
  | expectedRecord (expected : TableType)
  | tupleComponentCountMismatch (atLeast : Nat)
  | listLengthExceedsI32
  | listOffsetsExceedI32
  | missingColumn (name : String)
  | expectedArray (dataType : DataType)
  | expectedListColumn (dataType : DataType)
  | rowTable
  | metadataCount (metadata rows : Nat)
  | windowCountExceedsI16
  | windowCoderIdExceedsU32
  | windowCountMismatch (row : Nat)
  | nullWindowKey (column : String) (row : Nat)
  | malformedWindowKey (column : String) (row : Nat)
  | arrow (reason : ArrowError)
deriving DecidableEq, Repr

/-! Storage types. -/

def primitiveDataType : PrimitiveValue → DataType
  | .string _ => .utf8
  | .bytes _ => .binary
  | .int64 _ => .int64
  | .float64 _ => .float64
  | .bool _ => .boolean
  | .void => .null

/-- The surrogate of a type inside a list or a struct, where no `Null` may
stand. -/
def componentType : DataType → DataType
  | .null => .boolean
  | other => other

def tupleComponentDataType (value : PrimitiveValue) : DataType :=
  componentType (primitiveDataType value)

def isNullOrBoolean : DataType → Bool
  | .null | .boolean => true
  | _ => false

def itemField (itemDataType : DataType) : Field where
  name := "item"
  dataType := itemDataType
  nullable := isNullOrBoolean itemDataType

def tupleField (index : Nat) (value : PrimitiveValue) : Field where
  name := s!"f{index}"
  dataType := tupleComponentDataType value
  nullable := true

def tupleStorageType (values : List PrimitiveValue) : DataType :=
  .struct (values.mapIdx tupleField)

/-- The struct of a KV that is nested in another value. -/
def kvStructType (keyDataType valueDataType : DataType) : DataType :=
  .struct [⟨keyColumn, keyDataType, true⟩, ⟨valueColumn, valueDataType, true⟩]

/-- The type of a nested value. An iterable is judged by its first element, and
an empty one is taken to hold bytes. -/
def nestedValueStorageType : BeamRecord → Except RecordError DataType
  | .primitive value => .ok (primitiveDataType value)
  | .tuple values => .ok (tupleStorageType values)
  | .iterable [] => .ok (.list (itemField .binary))
  | .iterable (first :: _) => do
      let dataType ← nestedValueStorageType first
      pure (.list (itemField (componentType dataType)))
  | .kv key value => do
      let dataType ← nestedValueStorageType value
      pure (kvStructType (tupleComponentDataType key) (componentType dataType))
  | .gbk _ _ => .error (.unsupportedNestedRecord .gbk)
termination_by structural record => record

def iterableElementDataType (record : BeamRecord) : Except RecordError DataType :=
  (nestedValueStorageType record).map componentType

def inferIterableItemDataType : List (List BeamRecord) → Except RecordError DataType
  | [] => .ok .binary
  | [] :: iterables => inferIterableItemDataType iterables
  | (first :: _) :: _ => iterableElementDataType first

/-! Schema derivation. -/

/-- One step of a loop that checks a type found in a record. -/
def checkType (part : MixedPart) (pcollectionId : String) (expected found : DataType) :
    Except RecordError Unit :=
  if found = expected then .ok () else .error (.mixedTypes part pcollectionId expected found)

def checkItem (pcollectionId : String) (itemDataType : DataType) (value : BeamRecord) :
    Except RecordError Unit := do
  let actual ← iterableElementDataType value
  checkType .iterableItem pcollectionId itemDataType actual

def validateIterableItemTypes (pcollectionId : String) (iterables : List (List BeamRecord))
    (itemDataType : DataType) : Except RecordError Unit :=
  iterables.forM fun list => list.forM (checkItem pcollectionId itemDataType)

def checkPrimitive (pcollectionId : String) (dataType : DataType) :
    BeamRecord → Except RecordError Unit
  | .primitive value => checkType .primitive pcollectionId dataType (primitiveDataType value)
  | _ => .error (.mixedRecordVariants pcollectionId .primitive)

def primitiveFields (pcollectionId : String) (first : PrimitiveValue) (records : List BeamRecord) :
    Except RecordError (List Field) := do
  let dataType := primitiveDataType first
  records.forM (checkPrimitive pcollectionId dataType)
  pure [⟨valueColumn, dataType, dataType == .null⟩]

def asIterable (pcollectionId : String) : BeamRecord → Except RecordError (List BeamRecord)
  | .iterable list => .ok list
  | _ => .error (.mixedRecordVariants pcollectionId .iterable)

def iterableFields (pcollectionId : String) (records : List BeamRecord) :
    Except RecordError (List Field) := do
  let iterables ← records.mapM (asIterable pcollectionId)
  let itemDataType ← inferIterableItemDataType iterables
  validateIterableItemTypes pcollectionId iterables itemDataType
  pure [⟨valueColumn, .list (itemField itemDataType), true⟩]

def checkKv (pcollectionId : String) (keyDataType valueDataType : DataType) :
    BeamRecord → Except RecordError Unit
  | .kv key value => do
      checkType .kvKey pcollectionId keyDataType (primitiveDataType key)
      let actualValueType ← nestedValueStorageType value
      checkType .kvValue pcollectionId valueDataType actualValueType
  | _ => .error (.mixedRecordVariants pcollectionId .kv)

/-- Whether the value column of a KV table takes nulls. -/
def kvValueNullable : DataType → Bool
  | .null | .struct _ => true
  | _ => false

def kvFields (pcollectionId : String) (key : PrimitiveValue) (value : BeamRecord)
    (records : List BeamRecord) : Except RecordError (List Field) := do
  let keyDataType := primitiveDataType key
  let valueDataType ← nestedValueStorageType value
  records.forM (checkKv pcollectionId keyDataType valueDataType)
  pure [⟨keyColumn, keyDataType, keyDataType == .null⟩,
    ⟨valueColumn, valueDataType, kvValueNullable valueDataType⟩]

def gbkValues (pcollectionId : String) (keyDataType : DataType) :
    BeamRecord → Except RecordError (List BeamRecord)
  | .gbk key list => do
      checkType .gbkKey pcollectionId keyDataType (primitiveDataType key)
      pure list
  | _ => .error (.mixedRecordVariants pcollectionId .gbk)

def gbkFields (pcollectionId : String) (key : PrimitiveValue) (records : List BeamRecord) :
    Except RecordError (List Field) := do
  let keyDataType := primitiveDataType key
  let values ← records.mapM (gbkValues pcollectionId keyDataType)
  let itemDataType ← inferIterableItemDataType values
  validateIterableItemTypes pcollectionId values itemDataType
  pure [⟨keyColumn, keyDataType, false⟩, ⟨valueColumn, .list (itemField itemDataType), true⟩]

def checkTuple (pcollectionId : String) (dataType : DataType) : BeamRecord → Except RecordError Unit
  | .tuple values => checkType .tupleComponent pcollectionId dataType (tupleStorageType values)
  | _ => .error (.mixedRecordVariants pcollectionId .tuple)

def tupleFields (pcollectionId : String) (first : List PrimitiveValue) (records : List BeamRecord) :
    Except RecordError (List Field) := do
  let dataType := tupleStorageType first
  records.forM (checkTuple pcollectionId dataType)
  pure [⟨valueColumn, dataType, true⟩]

/-- The fields of a batch, by the shape of its first record. -/
def recordFields (pcollectionId : String) (first : BeamRecord) (records : List BeamRecord) :
    Except RecordError (List Field) :=
  match first with
  | .primitive value => primitiveFields pcollectionId value records
  | .iterable _ => iterableFields pcollectionId records
  | .kv key value => kvFields pcollectionId key value records
  | .gbk key _ => gbkFields pcollectionId key records
  | .tuple values => tupleFields pcollectionId values records

def deriveTableSchema (pcollectionId : String) (records : List BeamRecord) :
    Except RecordError RecordTableSchema :=
  match records with
  | [] => .error (.emptyPcollection pcollectionId)
  | first :: _ => do
      let arrowSchema ← recordFields pcollectionId first records
      pure ⟨tableTypeOf first, arrowSchema, false⟩

end FlareDB
