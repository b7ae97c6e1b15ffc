import Mathlib.Data.List.Forall2
import Mathlib.Algebra.BigOperators.Group.List.Basic
import Mathlib.Algebra.GroupWithZero.Nat
import Mathlib.Data.List.Pairwise

/-! Arrow arrays as typed columns: cells with a validity mask, lists that address
a flattened child by offsets, structs with one child per field, and batches of
columns of one length. A constructor checks what the Arrow crate checks and
fails where that reports an error or panics. -/
namespace Arrow

/-- Largest value of a 32-bit offset. -/
def offsetMax : Nat := 2 ^ 31 - 1

/-- The types without children. -/
inductive LeafType where
  | null
  | boolean
  | int8
  | int16
  | int64
  | float64
  | utf8
  | largeUtf8
  | utf8View
  | binary
  | largeBinary
  | binaryView
deriving DecidableEq, Repr

/-- What a valid cell of a leaf column holds. A float is kept by its bits. -/
def LeafType.Cell : LeafType → Type
  | .null => Unit
  | .boolean => Bool
  | .int8 => Int8
  | .int16 => Int16
  | .int64 => Int64
  | .float64 => UInt64
  | .utf8 | .largeUtf8 | .utf8View => String
  | .binary | .largeBinary | .binaryView => List UInt8

/-- Bytes a cell adds to a buffer that is addressed by 32-bit offsets. -/
def LeafType.cellBytes : (type : LeafType) → type.Cell → Nat
  | .utf8, value => String.utf8ByteSize value
  | .binary, value => List.length value
  | _, _ => 0

structure FieldOf (T : Type) where
  name : String
  dataType : T
  nullable : Bool
deriving Repr

inductive DataType where
  | leaf (type : LeafType)
  | list (item : FieldOf DataType)
  | struct (fields : List (FieldOf DataType))
deriving Repr

abbrev Field := FieldOf DataType

namespace DataType

@[match_pattern] abbrev null : DataType := .leaf .null
@[match_pattern] abbrev boolean : DataType := .leaf .boolean
@[match_pattern] abbrev int8 : DataType := .leaf .int8
@[match_pattern] abbrev int16 : DataType := .leaf .int16
@[match_pattern] abbrev int64 : DataType := .leaf .int64
@[match_pattern] abbrev float64 : DataType := .leaf .float64
@[match_pattern] abbrev utf8 : DataType := .leaf .utf8
@[match_pattern] abbrev binary : DataType := .leaf .binary

mutual

/-- Equality of types, which includes the names and the nullability of fields. -/
def beq : DataType → DataType → Bool
  | .leaf a, .leaf b => a == b
  | .list a, .list b => a.name == b.name && beq a.dataType b.dataType && a.nullable == b.nullable
  | .struct as, .struct bs => beqFields as bs
  | _, _ => false
termination_by structural a => a

def beqFields : List Field → List Field → Bool
  | [], [] => true
  | a :: as, b :: bs =>
      a.name == b.name && beq a.dataType b.dataType && a.nullable == b.nullable && beqFields as bs
  | _, _ => false
termination_by structural as => as

end

mutual

theorem beq_iff : ∀ a b : DataType, beq a b = true ↔ a = b
  | .leaf a, .leaf b => by simp [beq]
  | .list ⟨name, dataType, nullable⟩, .list ⟨otherName, otherType, otherNullable⟩ => by
      simp [beq, beq_iff dataType otherType, and_assoc]
  | .struct as, .struct bs => by simp [beq, beqFields_iff as bs]
  | .leaf _, .list _ | .leaf _, .struct _ | .list _, .leaf _ | .list _, .struct _
  | .struct _, .leaf _ | .struct _, .list _ => by simp [beq]

theorem beqFields_iff : ∀ as bs : List Field, beqFields as bs = true ↔ as = bs
  | [], [] => by simp [beqFields]
  | ⟨name, dataType, nullable⟩ :: as, ⟨otherName, otherType, otherNullable⟩ :: bs => by
      simp [beqFields, beq_iff dataType otherType, beqFields_iff as bs, and_assoc]
  | [], _ :: _ | _ :: _, [] => by simp [beqFields]

end

instance : DecidableEq DataType := fun a b => decidable_of_iff _ (beq_iff a b)

instance : DecidableEq Field := fun a b =>
  decidable_of_iff (a.name = b.name ∧ a.dataType = b.dataType ∧ a.nullable = b.nullable)
    (by cases a; cases b; simp)

end DataType

/-- Where the rows of a list column start and end in its child. -/
structure OffsetBuffer where
  offsets : List Nat
  ordered : offsets.Pairwise (· ≤ ·)

/-- An array. A `false` in a mask marks a null row. -/
inductive ArrayRef where
  | leaf (type : LeafType) (cells : List (Option type.Cell))
  | list (item : Field) (offsets : OffsetBuffer) (values : ArrayRef) (nulls : Option (List Bool))
  | struct (fields : List Field) (children : List ArrayRef) (nulls : Option (List Bool))

/-- What a constructor does with arguments it does not accept: it returns an
error or it panics. -/
inductive ArrowError where
  | invalidArgument
  | panic
deriving DecidableEq, Repr

/-- Panics on offsets that decrease. -/
def OffsetBuffer.new (offsets : List Nat) : Except ArrowError OffsetBuffer :=
  if h : offsets.Pairwise (· ≤ ·) then .ok ⟨offsets, h⟩ else .error .panic

theorem OffsetBuffer.ordered_scanl (lengths : List Nat) (base : Nat) :
    (lengths.scanl (· + ·) base).Pairwise (· ≤ ·) ∧
      ∀ offset ∈ lengths.scanl (· + ·) base, base ≤ offset := by
  induction lengths generalizing base with
  | nil => simp
  | cons len lengths ih =>
      obtain ⟨hOrdered, hBase⟩ := ih (base + len)
      rw [List.scanl_cons, List.pairwise_cons]
      have hAbove : ∀ offset ∈ lengths.scanl (· + ·) (base + len), base ≤ offset := by
        intro offset hMem
        have hLe := hBase offset hMem
        omega
      refine ⟨⟨hAbove, hOrdered⟩, ?_⟩
      intro offset hMem
      rcases List.mem_cons.mp hMem with rfl | hRest
      · exact Nat.le_refl _
      · exact hAbove offset hRest

/-- Two consecutive offsets of a flattened list of lists delimit one of them. -/
theorem OffsetBuffer.delimits {α : Type} (lists : List (List α)) (base : Nat) {row : Nat}
    {list : List α} (h : lists[row]? = some list) :
    ∃ start, ((lists.map List.length).scanl (· + ·) base)[row]? = some (base + start) ∧
      ((lists.map List.length).scanl (· + ·) base)[row + 1]? = some (base + start + list.length) ∧
      ∀ (index : Nat) value, list[index]? = some value →
        lists.flatten[start + index]? = some value := by
  induction lists generalizing base row with
  | nil => cases h
  | cons first rest ih =>
      rw [List.map_cons, List.scanl_cons]
      cases row with
      | zero =>
          cases h
          refine ⟨0, rfl, ?_, ?_⟩
          · rw [List.getElem?_cons_succ, List.getElem?_scanl_zero, Nat.add_zero]
          · intro index value hValue
            rw [Nat.zero_add, List.flatten_cons, List.getElem?_append_left, hValue]
            exact (List.getElem?_eq_some_iff.mp hValue).1
      | succ row =>
          obtain ⟨start, hStart, hEnd, hValues⟩ := ih (base + first.length) h
          refine ⟨first.length + start, ?_, ?_, ?_⟩
          · rw [List.getElem?_cons_succ, hStart, Nat.add_assoc]
          · rw [List.getElem?_cons_succ, hEnd, Nat.add_assoc base]
          · intro index value hValue
            rw [List.flatten_cons, Nat.add_assoc, List.getElem?_append_right (Nat.le_add_right _ _),
              Nat.add_sub_cancel_left]
            exact hValues index value hValue

def OffsetBuffer.rows (buffer : OffsetBuffer) : Nat :=
  buffer.offsets.length - 1

namespace ArrayRef

def dataType : ArrayRef → DataType
  | .leaf type _ => .leaf type
  | .list item _ _ _ => .list item
  | .struct fields _ _ => .struct fields

def len : ArrayRef → Nat
  | .leaf _ cells => cells.length
  | .list _ offsets _ _ => offsets.rows
  | .struct _ (child :: _) _ => len child
  | .struct _ [] _ => 0
termination_by structural array => array

/-- A cell of the mask. Rows outside the mask are not null. -/
def maskedOut (nulls : Option (List Bool)) (row : Nat) : Bool :=
  match nulls with
  | some mask => mask[row]? == some false
  | none => false

/-- Whether the mask marks a row. A `Null` array has no mask. -/
def isNull : ArrayRef → Nat → Bool
  | .leaf _ cells, row => (cells[row]?.map Option.isNone).getD false
  | .list _ _ _ nulls, row => maskedOut nulls row
  | .struct _ _ nulls, row => maskedOut nulls row

/-- Whether a row is null by its mask or by its type. -/
def isLogicalNull : ArrayRef → Nat → Bool
  | .leaf .null cells, row => decide (row < cells.length)
  | array, row => array.isNull row

def hasNull (array : ArrayRef) : Bool :=
  (List.range array.len).any array.isNull

def hasLogicalNull (array : ArrayRef) : Bool :=
  (List.range array.len).any array.isLogicalNull

/-- The cells of an array of exactly this leaf type. -/
def downcast (type : LeafType) : ArrayRef → Option (List (Option type.Cell))
  | .leaf other cells => if h : other = type then some (h ▸ cells) else none
  | _ => none

/-- A leaf column from its cells. The bytes of a string or binary column are
addressed by 32-bit offsets; building past them panics. -/
def ofCells (type : LeafType) (cells : List (Option type.Cell)) : Except ArrowError ArrayRef :=
  if (cells.map fun cell => (cell.map type.cellBytes).getD 0).sum ≤ offsetMax then
    .ok (.leaf type cells)
  else .error .panic

def maskFits (nulls : Option (List Bool)) (len : Nat) : Bool :=
  match nulls with
  | some mask => mask.length == len
  | none => true

/-- `ListArray::new`, which panics on what it rejects. -/
def newList (item : Field) (offsets : OffsetBuffer) (values : ArrayRef) (nulls : Option (List Bool)) :
    Except ArrowError ArrayRef :=
  if offsets.offsets.getLastD 0 ≤ values.len ∧ maskFits nulls offsets.rows = true ∧
      (item.nullable = true ∨ values.hasLogicalNull = false) ∧ item.dataType = values.dataType then
    .ok (.list item offsets values nulls)
  else .error .panic

/-- A struct child fits its field: type, length, and no null that its field or
the struct's mask does not allow. -/
def childFits (len : Nat) (nulls : Option (List Bool)) (field : Field) (child : ArrayRef) : Bool :=
  field.dataType == child.dataType && child.len == len &&
    (field.nullable ||
      (List.range len).all fun row => !child.isLogicalNull row || maskedOut nulls row)

/-- `StructArray::try_new`. Without children the length is unknown. -/
def tryNewStruct (fields : List Field) (children : List ArrayRef) (nulls : Option (List Bool)) :
    Except ArrowError ArrayRef :=
  match children with
  | [] => .error .invalidArgument
  | first :: _ =>
      if fields.length = children.length ∧ maskFits nulls first.len = true ∧
          (List.zipWith (childFits first.len nulls) fields children).all id = true then
        .ok (.struct fields children nulls)
      else .error .invalidArgument

/-! What the constructors promise. -/

@[simp] theorem dataType_leaf (type : LeafType) (cells : List (Option type.Cell)) :
    (leaf type cells).dataType = .leaf type := rfl

@[simp] theorem len_leaf (type : LeafType) (cells : List (Option type.Cell)) :
    (leaf type cells).len = cells.length := rfl

@[simp] theorem downcast_leaf (type : LeafType) (cells : List (Option type.Cell)) :
    (leaf type cells).downcast type = some cells := by
  simp [downcast]

theorem ofCells_eq_ok {type : LeafType} {cells : List (Option type.Cell)} {array : ArrayRef}
    (h : ofCells type cells = .ok array) : array = .leaf type cells := by
  rw [ofCells] at h
  split at h
  · exact (Except.ok.inj h).symm
  · cases h

theorem newList_eq_ok {item : Field} {offsets : OffsetBuffer} {values : ArrayRef}
    {nulls : Option (List Bool)} {array : ArrayRef}
    (h : newList item offsets values nulls = .ok array) :
    array = .list item offsets values nulls ∧ item.dataType = values.dataType ∧
      ∀ offset ∈ offsets.offsets, offset ≤ values.len := by
  rw [newList] at h
  split at h
  · next hFits =>
      refine ⟨(Except.ok.inj h).symm, hFits.2.2.2, ?_⟩
      intro offset hMem
      have hLast := offsets.ordered.rel_getLast hMem
      have hEnd := hFits.1
      rw [List.getLastD_eq_getLast?, List.getLast?_eq_getLast_of_ne_nil (List.ne_nil_of_mem hMem)]
        at hEnd
      exact Nat.le_trans hLast hEnd
  · cases h

theorem childFits_spec {len : Nat} {nulls : Option (List Bool)} {field : Field} {child : ArrayRef}
    (h : childFits len nulls field child = true) :
    field.dataType = child.dataType ∧ child.len = len := by
  simp only [childFits, Bool.and_eq_true, beq_iff_eq] at h
  exact h.1

theorem tryNewStruct_eq_ok {fields : List Field} {children : List ArrayRef}
    {nulls : Option (List Bool)} {array : ArrayRef}
    (h : tryNewStruct fields children nulls = .ok array) :
    array = .struct fields children nulls ∧
      List.Forall₂ (fun field child => field.dataType = child.dataType ∧ child.len = array.len)
        fields children := by
  cases children with
  | nil => cases h
  | cons first rest =>
      rw [tryNewStruct] at h
      split at h
      · next hFits =>
          have hArray := (Except.ok.inj h).symm
          have hLen : array.len = first.len := by rw [hArray]; rfl
          refine ⟨hArray, List.forall₂_iff_zip.mpr ⟨hFits.1, ?_⟩⟩
          intro field child hMem
          have hAll := hFits.2.2
          rw [← List.map_uncurry_zip_eq_zipWith, List.all_map, List.all_eq_true] at hAll
          rw [hLen]
          exact childFits_spec (hAll (field, child) hMem)
      · cases h

end ArrayRef

/-- Columns of one length, each of its field's type. -/
structure RecordBatch where
  schema : List Field
  columns : List ArrayRef
  numRows : Nat
  typed : columns.map ArrayRef.dataType = schema.map FieldOf.dataType
  aligned : ∀ column ∈ columns, column.len = numRows

namespace RecordBatch

/-- `RecordBatch::try_new`. A column of a field that is not nullable has an
empty mask, which a `Null` array always has. -/
def tryNew (schema : List Field) (columns : List ArrayRef) : Except ArrowError RecordBatch :=
  match columns with
  | [] => .error .invalidArgument
  | first :: rest =>
      if h : (first :: rest).map ArrayRef.dataType = schema.map FieldOf.dataType ∧
          ∀ column ∈ first :: rest, column.len = first.len then
        if (List.zipWith (fun (field : Field) column => field.nullable || !column.hasNull)
            schema (first :: rest)).all id then
          .ok ⟨schema, first :: rest, first.len, h.1, h.2⟩
        else .error .invalidArgument
      else .error .invalidArgument

theorem tryNew_eq_ok {schema : List Field} {columns : List ArrayRef} {batch : RecordBatch}
    (h : tryNew schema columns = .ok batch) : batch.schema = schema ∧ batch.columns = columns := by
  cases columns with
  | nil => cases h
  | cons first rest =>
      rw [tryNew] at h
      split at h
      · split at h
        · cases h
          exact ⟨rfl, rfl⟩
        · cases h
      · cases h

/-- The first column of that name. -/
def columnByName (batch : RecordBatch) (name : String) : Option ArrayRef :=
  ((batch.schema.zip batch.columns).find? fun column => column.1.name == name).map (·.2)

end RecordBatch
end Arrow
