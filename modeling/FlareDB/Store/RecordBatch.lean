import FlareDB.Lib.Results
import FlareDB.Store.RecordSchema

/-! Records to Arrow columns and back. `nestedValuesToArray` and
`nestedValueFromArrayRow` recurse over the storage type; a KV is told from a
tuple by the field names of its struct. -/
namespace FlareDB

open Arrow

/-! Writing. -/

/-- Offsets of consecutive lists, with the running end checked against `i32`. -/
def offsetsFrom (running : Nat) : List Nat → Except RecordError (List Nat)
  | [] => .ok []
  | len :: lengths =>
      if offsetMax < len then .error .listLengthExceedsI32
      else if offsetMax < running + len then .error .listOffsetsExceedI32
      else do
        let rest ← offsetsFrom (running + len) lengths
        pure ((running + len) :: rest)

def buildOffsets (lengths : List Nat) : Except RecordError OffsetBuffer := do
  let rest ← offsetsFrom 0 lengths
  (OffsetBuffer.new (0 :: rest)).mapError .arrow

/-- The cell a scalar takes in a leaf column. A `void` is a null boolean. -/
def primitiveCell : (type : LeafType) → PrimitiveValue → Except RecordError (Option type.Cell)
  | .utf8, .string value => .ok (some value)
  | .binary, .bytes value => .ok (some value)
  | .int64, .int64 value => .ok (some value)
  | .boolean, .bool value => .ok (some value)
  | .boolean, .void => .ok none
  | .float64, .float64 bits => .ok (some bits)
  | .null, .void => .ok (some ())
  | type, other => .error (.mixedPrimitiveVariants type other)

/-- The leaf types that scalars are written to. -/
def storesPrimitives : LeafType → Bool
  | .utf8 | .binary | .int64 | .boolean | .float64 | .null => true
  | _ => false

def primitiveValuesToArray (values : List PrimitiveValue) :
    DataType → Except RecordError ArrayRef
  | .leaf type =>
      if storesPrimitives type then do
        let cells ← values.mapM (primitiveCell type)
        (ArrayRef.ofCells type cells).mapError .arrow
      else .error (.unsupportedPrimitiveStorageType (.leaf type))
  | other => .error (.unsupportedPrimitiveStorageType other)

/-- A list column over the array that `build` makes of all elements. -/
def listArray (build : List BeamRecord → Except RecordError ArrayRef)
    (iterables : List (List BeamRecord)) (itemDataType : DataType) :
    Except RecordError ArrayRef := do
  let offsets ← buildOffsets (iterables.map List.length)
  let child ← build iterables.flatten
  (ArrayRef.newList (itemField itemDataType) offsets child none).mapError .arrow

def isNestedKvStruct : List Field → Bool
  | [first, second] => first.name == keyColumn && second.name == valueColumn
  | _ => false

def primitiveRecord : BeamRecord → Except RecordError PrimitiveValue
  | .primitive value => .ok value
  | _ => .error (.expectedRecord .primitive)

def iterableRecord : BeamRecord → Except RecordError (List BeamRecord)
  | .iterable list => .ok list
  | _ => .error (.expectedRecord .iterable)

def kvRecord : BeamRecord → Except RecordError (PrimitiveValue × BeamRecord)
  | .kv key value => .ok (key, value)
  | _ => .error (.expectedRecord .kv)

def gbkRecord : BeamRecord → Except RecordError (PrimitiveValue × List BeamRecord)
  | .gbk key list => .ok (key, list)
  | _ => .error (.expectedRecord .gbk)

/-- Component `index` of a tuple. Components beyond the arity are not read. -/
def tupleComponent (arity index : Nat) : BeamRecord → Except RecordError PrimitiveValue
  | .tuple values => match values[index]? with
      | some value => .ok value
      | none => .error (.tupleComponentCountMismatch arity)
  | _ => .error (.expectedRecord .tuple)

def tupleChild (arity : Nat) (records : List BeamRecord) (child : Field × Nat) :
    Except RecordError ArrayRef := do
  let values ← records.mapM (tupleComponent arity child.2)
  primitiveValuesToArray values child.1.dataType

def tupleArray (records : List BeamRecord) (fields : List Field) : Except RecordError ArrayRef := do
  let children ← fields.zipIdx.mapM (tupleChild fields.length records)
  (ArrayRef.tryNewStruct fields children none).mapError .arrow

/-- A struct of keys and of the array that `build` makes of the values. -/
def kvArray (build : List BeamRecord → Except RecordError ArrayRef) (records : List BeamRecord)
    (keyField valueField : Field) : Except RecordError ArrayRef := do
  let pairs ← records.mapM kvRecord
  let keys ← primitiveValuesToArray (pairs.map (·.1)) keyField.dataType
  let values ← build (pairs.map (·.2))
  (ArrayRef.tryNewStruct [keyField, valueField] [keys, values] none).mapError .arrow

def nestedValuesToArray (records : List BeamRecord) : DataType → Except RecordError ArrayRef
  | .struct [first, second] =>
      if isNestedKvStruct [first, second] then
        kvArray (fun values => nestedValuesToArray values second.dataType) records first second
      else tupleArray records [first, second]
  | .struct fields => tupleArray records fields
  | .list item => do
      let iterables ← records.mapM iterableRecord
      listArray (fun values => nestedValuesToArray values item.dataType) iterables item.dataType
  | .leaf type => do
      let values ← records.mapM primitiveRecord
      primitiveValuesToArray values (.leaf type)
termination_by structural dataType => dataType

def iterableValuesToArray (iterables : List (List BeamRecord)) (itemDataType : DataType) :
    Except RecordError ArrayRef :=
  listArray (fun values => nestedValuesToArray values itemDataType) iterables itemDataType

def fieldWithName (schema : List Field) (name : String) : Except RecordError Field :=
  match schema.find? (fun field => field.name == name) with
  | some field => .ok field
  | none => .error (.missingColumn name)

def itemDataTypeOf : DataType → Except RecordError DataType
  | .list item => .ok item.dataType
  | other => .error (.expectedListColumn other)

/-- The payload columns of a batch. -/
def recordColumns (records : List BeamRecord) (tableSchema : RecordTableSchema) :
    Except RecordError (List ArrayRef) :=
  match tableSchema.tableType with
  | .primitive => do
      let field ← fieldWithName tableSchema.arrowSchema valueColumn
      let values ← records.mapM primitiveRecord
      let column ← primitiveValuesToArray values field.dataType
      pure [column]
  | .iterable => do
      let field ← fieldWithName tableSchema.arrowSchema valueColumn
      let itemDataType ← itemDataTypeOf field.dataType
      let iterables ← records.mapM iterableRecord
      let column ← iterableValuesToArray iterables itemDataType
      pure [column]
  | .kv => do
      let keyField ← fieldWithName tableSchema.arrowSchema keyColumn
      let valueField ← fieldWithName tableSchema.arrowSchema valueColumn
      let pairs ← records.mapM kvRecord
      let keys ← primitiveValuesToArray (pairs.map (·.1)) keyField.dataType
      let values ← nestedValuesToArray (pairs.map (·.2)) valueField.dataType
      pure [keys, values]
  | .gbk => do
      let keyField ← fieldWithName tableSchema.arrowSchema keyColumn
      let valueField ← fieldWithName tableSchema.arrowSchema valueColumn
      let itemDataType ← itemDataTypeOf valueField.dataType
      let pairs ← records.mapM gbkRecord
      let keys ← primitiveValuesToArray (pairs.map (·.1)) keyField.dataType
      let values ← iterableValuesToArray (pairs.map (·.2)) itemDataType
      pure [keys, values]
  | .tuple => do
      let field ← fieldWithName tableSchema.arrowSchema valueColumn
      let column ← nestedValuesToArray records field.dataType
      pure [column]
  | .row => .error .rowTable

def beamrecordsToRecordBatch (records : List BeamRecord) (tableSchema : RecordTableSchema) :
    Except RecordError RecordBatch :=
  if records.isEmpty then .error .emptyRecords
  else do
    let columns ← recordColumns records tableSchema
    (RecordBatch.tryNew tableSchema.arrowSchema columns).mapError .arrow

/-! Reading. -/

/-- The scalar a valid cell stands for, by the types scalars are read from. The
large and view layouts hold the same values as the canonical ones. -/
def cellPrimitive : (type : LeafType) → Option (type.Cell → PrimitiveValue)
  | .utf8 | .largeUtf8 | .utf8View => some .string
  | .binary | .largeBinary | .binaryView => some .bytes
  | .int64 => some .int64
  | .boolean => some .bool
  | .float64 => some .float64
  | .null => some fun _ => .void
  | .int8 | .int16 => none

/-- A cell of an array that must have this leaf type. -/
def leafValue (type : LeafType) (toPrimitive : type.Cell → PrimitiveValue) (array : ArrayRef)
    (row : Nat) : Except RecordError PrimitiveValue :=
  match array.downcast type with
  | none => .error (.expectedArray (.leaf type))
  | some cells => match cells[row]? with
      | some (some cell) => .ok (toPrimitive cell)
      | _ => .error (.arrow .panic)

/-- A null cell reads as `void` whatever its type. -/
def primitiveValueFromArrayRow (array : ArrayRef) (dataType : DataType) (row : Nat) :
    Except RecordError PrimitiveValue :=
  if array.isNull row then .ok .void
  else match dataType with
    | .leaf .null => .ok .void
    | .leaf type => match cellPrimitive type with
        | some toPrimitive => leafValue type toPrimitive array row
        | none => .error (.unsupportedPrimitiveStorageType (.leaf type))
    | other => .error (.unsupportedPrimitiveStorageType other)

/-- The rows of one list, each read from the flattened child. -/
def listRow (read : ArrayRef → Nat → Except RecordError BeamRecord) (array : ArrayRef) (row : Nat) :
    Except RecordError (List BeamRecord) :=
  if array.isNull row then .ok []
  else match array with
    | .list _ offsets values _ => match offsets.offsets[row]?, offsets.offsets[row + 1]? with
        | some start, some finish => (List.range' start (finish - start)).mapM (read values)
        | _, _ => .error (.arrow .panic)
    | other => .error (.expectedArray other.dataType)

def structChildren : ArrayRef → Except RecordError (List ArrayRef)
  | .struct _ children _ => .ok children
  | other => .error (.expectedArray other.dataType)

def childAt (children : List ArrayRef) (index : Nat) : Except RecordError ArrayRef :=
  match children[index]? with
  | some child => .ok child
  | none => .error (.arrow .panic)

def kvRow (read : ArrayRef → Nat → Except RecordError BeamRecord) (array : ArrayRef)
    (keyField : Field) (row : Nat) : Except RecordError BeamRecord := do
  let children ← structChildren array
  let keys ← childAt children 0
  let key ← primitiveValueFromArrayRow keys keyField.dataType row
  let values ← childAt children 1
  let value ← read values row
  pure (.kv key value)

def tupleCell (children : List ArrayRef) (row : Nat) (child : Field × Nat) :
    Except RecordError PrimitiveValue := do
  let column ← childAt children child.2
  primitiveValueFromArrayRow column child.1.dataType row

def tupleRow (array : ArrayRef) (fields : List Field) (row : Nat) :
    Except RecordError BeamRecord := do
  let children ← structChildren array
  let values ← fields.zipIdx.mapM (tupleCell children row)
  pure (.tuple values)

def nestedValueFromArrayRow (array : ArrayRef) (dataType : DataType) (row : Nat) :
    Except RecordError BeamRecord :=
  match dataType with
  | .struct [first, second] =>
      if isNestedKvStruct [first, second] then
        kvRow (fun values index => nestedValueFromArrayRow values second.dataType index)
          array first row
      else tupleRow array [first, second] row
  | .struct fields => tupleRow array fields row
  | .list item => do
      let list ← listRow (fun values index => nestedValueFromArrayRow values item.dataType index)
        array row
      pure (.iterable list)
  | .leaf type => do
      let value ← primitiveValueFromArrayRow array (.leaf type) row
      pure (.primitive value)
termination_by structural dataType

def iterableValueFromArrayRow (array : ArrayRef) (dataType : DataType) (row : Nat) :
    Except RecordError (List BeamRecord) :=
  match dataType with
  | .list item =>
      listRow (fun values index => nestedValueFromArrayRow values item.dataType index) array row
  | other => .error (.expectedListColumn other)

def columnNamed (batch : RecordBatch) (name : String) : Except RecordError ArrayRef :=
  match batch.columnByName name with
  | some column => .ok column
  | none => .error (.missingColumn name)

def primitiveRow (column : ArrayRef) (row : Nat) : Except RecordError BeamRecord := do
  let value ← primitiveValueFromArrayRow column column.dataType row
  pure (.primitive value)

def iterableRow (column : ArrayRef) (row : Nat) : Except RecordError BeamRecord := do
  let list ← iterableValueFromArrayRow column column.dataType row
  pure (.iterable list)

def kvTableRow (keys values : ArrayRef) (row : Nat) : Except RecordError BeamRecord := do
  let key ← primitiveValueFromArrayRow keys keys.dataType row
  let value ← nestedValueFromArrayRow values values.dataType row
  pure (.kv key value)

def gbkRow (keys values : ArrayRef) (row : Nat) : Except RecordError BeamRecord := do
  let key ← primitiveValueFromArrayRow keys keys.dataType row
  let list ← iterableValueFromArrayRow values values.dataType row
  pure (.gbk key list)

def recordBatchToBeamrecords (batch : RecordBatch) (tableSchema : RecordTableSchema) :
    Except RecordError (List BeamRecord) :=
  match tableSchema.tableType with
  | .primitive => do
      let column ← columnNamed batch valueColumn
      (List.range batch.numRows).mapM (primitiveRow column)
  | .iterable => do
      let column ← columnNamed batch valueColumn
      (List.range batch.numRows).mapM (iterableRow column)
  | .kv => do
      let keys ← columnNamed batch keyColumn
      let values ← columnNamed batch valueColumn
      (List.range batch.numRows).mapM (kvTableRow keys values)
  | .gbk => do
      let keys ← columnNamed batch keyColumn
      let values ← columnNamed batch valueColumn
      (List.range batch.numRows).mapM (gbkRow keys values)
  | .tuple => do
      let column ← columnNamed batch valueColumn
      (List.range batch.numRows).mapM (fun row => nestedValueFromArrayRow column column.dataType row)
  | .row => .error .rowTable

/-! The Boolean surrogate of `Null`. -/

mutual

def materializeVoidType : DataType → DataType
  | .leaf .null => .boolean
  | .leaf type => .leaf type
  | .list item => .list (materializeVoidField item)
  | .struct fields => .struct (materializeVoidFields fields)
termination_by structural dataType => dataType

def materializeVoidField : Field → Field
  | ⟨name, dataType, nullable⟩ =>
      ⟨name, materializeVoidType dataType, nullable || dataType == .null⟩
termination_by structural field => field

def materializeVoidFields : List Field → List Field
  | [] => []
  | field :: fields => materializeVoidField field :: materializeVoidFields fields
termination_by structural fields => fields

end

def materializeVoidSchema (schema : List Field) : List Field :=
  schema.map materializeVoidField

mutual

def materializeVoidArray (array : ArrayRef) : DataType → Except RecordError ArrayRef
  | .leaf .null => .ok (.leaf .boolean (List.replicate array.len none))
  | .leaf _ => .ok array
  | .list item => match array with
      | .list _ offsets values nulls => do
          let child ← materializeVoidArray values item.dataType
          (ArrayRef.newList (materializeVoidField item) offsets child nulls).mapError .arrow
      | other => .error (.expectedArray other.dataType)
  | .struct fields => match array with
      | .struct _ children nulls => do
          let newChildren ← materializeVoidChildren children fields
          (ArrayRef.tryNewStruct (materializeVoidFields fields) newChildren nulls).mapError .arrow
      | other => .error (.expectedArray other.dataType)
termination_by structural dataType => dataType

def materializeVoidChildren (children : List ArrayRef) :
    List Field → Except RecordError (List ArrayRef)
  | [] => .ok []
  | field :: fields => match children with
      | [] => .error (.arrow .panic)
      | child :: rest => do
          let first ← materializeVoidArray child field.dataType
          let others ← materializeVoidChildren rest fields
          pure (first :: others)
termination_by structural fields => fields

end

def materializeVoidColumns (batch : RecordBatch) : Except RecordError RecordBatch :=
  let newSchema := materializeVoidSchema batch.schema
  if newSchema = batch.schema then .ok batch
  else do
    let newColumns ← materializeVoidChildren batch.columns batch.schema
    (RecordBatch.tryNew newSchema newColumns).mapError .arrow

end FlareDB
