import Mathlib.Data.List.Flatten
import FlareDB.Lib.Arrow
import FlareDB.Lib.Results

/-! Rows cut out of Arrow arrays and rows taken from them by index. A slice shares
the buffers of its array, so the offsets of a list stay those of the whole; `take`
makes new buffers, which 32-bit offsets have to address again. -/
namespace Arrow

open Results

/-! Slices. -/

def OffsetBuffer.slice (buffer : OffsetBuffer) (offset length : Nat) : OffsetBuffer where
  offsets := (buffer.offsets.drop offset).take (length + 1)
  ordered := buffer.ordered.sublist ((List.take_sublist _ _).trans (List.drop_sublist _ _))

def sliceMask (nulls : Option (List Bool)) (offset length : Nat) : Option (List Bool) :=
  nulls.map fun mask => (mask.drop offset).take length

namespace ArrayRef

mutual

def slice (offset length : Nat) : ArrayRef → ArrayRef
  | .leaf type cells => .leaf type ((cells.drop offset).take length)
  | .list item offsets values nulls =>
      .list item (offsets.slice offset length) values (sliceMask nulls offset length)
  | .struct fields children nulls =>
      .struct fields (sliceAll offset length children) (sliceMask nulls offset length)
termination_by structural array => array

def sliceAll (offset length : Nat) : List ArrayRef → List ArrayRef
  | [] => []
  | child :: children => slice offset length child :: sliceAll offset length children
termination_by structural children => children

end

/-! Taking rows by their indices. -/

/-- An index past the end panics. -/
def itemAt {α : Type} (items : List α) (index : Nat) : Except ArrowError α :=
  match items[index]? with
  | some item => .ok item
  | none => .error .panic

/-- The rows of the child that a row of a list has. -/
def childRows (offsets : OffsetBuffer) (row : Nat) : Except ArrowError (List Nat) :=
  match offsets.offsets[row]?, offsets.offsets[row + 1]? with
  | some start, some finish => .ok (List.range' start (finish - start))
  | _, _ => .error .panic

def takeMask (nulls : Option (List Bool)) (indices : List Nat) : Option (List Bool) :=
  nulls.map fun mask => indices.map fun index => (mask[index]?).getD true

def cellSize (type : LeafType) (cell : Option type.Cell) : Nat :=
  (cell.map type.cellBytes).getD 0

mutual

/-- The rows at some indices, in that order. -/
def take (indices : List Nat) : ArrayRef → Except ArrowError ArrayRef
  | .leaf type cells => do
      let taken ← indices.mapM (itemAt cells)
      if offsetMax < (taken.map (cellSize type)).sum then .error .invalidArgument
      else .ok (.leaf type taken)
  | .list item offsets values nulls => do
      let rows ← indices.mapM (childRows offsets)
      if offsetMax < (rows.map List.length).sum then .error .invalidArgument
      else do
        let child ← take rows.flatten values
        .ok (.list item ⟨(rows.map List.length).scanl (· + ·) 0,
          (OffsetBuffer.ordered_scanl _ 0).1⟩ child (takeMask nulls indices))
  | .struct fields children nulls => do
      let taken ← takeAll indices children
      .ok (.struct fields taken (takeMask nulls indices))
termination_by structural array => array

def takeAll (indices : List Nat) : List ArrayRef → Except ArrowError (List ArrayRef)
  | [] => .ok []
  | child :: children => do
      let first ← take indices child
      let others ← takeAll indices children
      .ok (first :: others)
termination_by structural children => children

end

/-! What a slice and a taken row keep of the row they come from. -/

/-- Two rows of arrays that hold the same. -/
inductive SameRow : ArrayRef → Nat → ArrayRef → Nat → Prop where
  | leaf {type : LeafType} {cells others : List (Option type.Cell)} {row place : Nat}
      (hCell : cells[row]? = others[place]?) : SameRow (.leaf type cells) row (.leaf type others) place
  | list {item : Field} {offsets others : OffsetBuffer} {values copies : ArrayRef}
      {nulls mask : Option (List Bool)} {row place start finish count : Nat}
      (hNull : maskedOut nulls row = maskedOut mask place)
      (hStart : offsets.offsets[row]? = some start)
      (hEnd : offsets.offsets[row + 1]? = some (start + count))
      (hCopy : others.offsets[place]? = some finish)
      (hCopyEnd : others.offsets[place + 1]? = some (finish + count))
      (hItems : ∀ index < count, SameRow values (start + index) copies (finish + index)) :
      SameRow (.list item offsets values nulls) row (.list item others copies mask) place
  | struct {fields : List Field} {children others : List ArrayRef} {nulls mask : Option (List Bool)}
      {row place : Nat} (hNull : maskedOut nulls row = maskedOut mask place)
      (hLength : children.length = others.length)
      (hChildren : ∀ (index : Nat) child other, children[index]? = some child →
        others[index]? = some other → SameRow child row other place) :
      SameRow (.struct fields children nulls) row (.struct fields others mask) place

theorem SameRow.dataType {array other : ArrayRef} {row place : Nat}
    (h : SameRow array row other place) : array.dataType = other.dataType := by
  cases h <;> rfl

theorem SameRow.isNull {array other : ArrayRef} {row place : Nat}
    (h : SameRow array row other place) : array.isNull row = other.isNull place := by
  cases h with
  | leaf hCell => rw [ArrayRef.isNull, ArrayRef.isNull, hCell]
  | list hNull => exact hNull
  | struct hNull => exact hNull

theorem itemAt_eq_ok {α : Type} {items : List α} {index : Nat} {item : α}
    (h : itemAt items index = .ok item) : items[index]? = some item := by
  rw [itemAt] at h
  cases hItem : items[index]? with
  | none =>
      rw [hItem] at h
      cases h
  | some found =>
      rw [hItem] at h
      cases h
      rfl

theorem childRows_eq_ok {offsets : OffsetBuffer} {row : Nat} {rows : List Nat}
    (h : childRows offsets row = .ok rows) : ∃ start, offsets.offsets[row]? = some start ∧
      offsets.offsets[row + 1]? = some (start + rows.length) ∧
      rows = List.range' start rows.length := by
  rw [childRows] at h
  cases hStart : offsets.offsets[row]? with
  | none =>
      rw [hStart] at h
      cases h
  | some start =>
      cases hFinish : offsets.offsets[row + 1]? with
      | none =>
          rw [hStart, hFinish] at h
          cases h
      | some finish =>
          rw [hStart, hFinish] at h
          cases h
          have hOrder : start ≤ finish := by
            obtain ⟨hRow, rfl⟩ := List.getElem?_eq_some_iff.mp hStart
            obtain ⟨hNext, rfl⟩ := List.getElem?_eq_some_iff.mp hFinish
            exact List.pairwise_iff_getElem.mp offsets.ordered row (row + 1) hRow hNext (by omega)
          refine ⟨start, rfl, ?_, by rw [List.length_range']⟩
          rw [List.length_range']
          congr 1
          omega

/-- A gathered row is null where the row it was taken from is. -/
theorem maskedOut_takeMask {nulls : Option (List Bool)} {indices : List Nat} {place row : Nat}
    (h : indices[place]? = some row) :
    maskedOut nulls row = maskedOut (takeMask nulls indices) place := by
  cases nulls with
  | none => rfl
  | some mask =>
      rw [maskedOut, takeMask, Option.map_some, maskedOut, List.getElem?_map, h, Option.map_some]
      cases mask[row]? with
      | none => rfl
      | some flag => rfl

mutual

/-- A taken row holds what the row at its index does. -/
theorem take_sameRow : ∀ (array : ArrayRef) {indices : List Nat} {taken : ArrayRef},
    array.take indices = .ok taken → ∀ {place row : Nat}, indices[place]? = some row →
    SameRow array row taken place
  | .leaf type cells, indices, taken, h, place, row, hRow => by
      rw [take] at h
      obtain ⟨found, hFound, hRest⟩ := bind_eq_ok h
      split at hRest
      · cases hRest
      · cases hRest
        obtain ⟨cell, hCell, hItem⟩ := forall₂_row (mapM_eq_ok_iff.mp hFound) hRow
        exact .leaf ((itemAt_eq_ok hItem).trans hCell.symm)
  | .list item offsets values nulls, indices, taken, h, place, row, hRow => by
      rw [take] at h
      obtain ⟨rows, hRows, hRest⟩ := bind_eq_ok h
      split at hRest
      · cases hRest
      · obtain ⟨child, hChild, hPure⟩ := bind_eq_ok hRest
        cases hPure
        obtain ⟨items, hItems, hChildRows⟩ := forall₂_row (mapM_eq_ok_iff.mp hRows) hRow
        obtain ⟨start, hStart, hEnd, hRange⟩ := childRows_eq_ok hChildRows
        obtain ⟨base, hBase, hBaseEnd, hFlat⟩ := OffsetBuffer.delimits rows 0 hItems
        rw [Nat.zero_add] at hBase hBaseEnd
        refine .list (maskedOut_takeMask hRow) hStart hEnd hBase hBaseEnd fun index hIndex => ?_
        refine take_sameRow values hChild (hFlat index (start + index) ?_)
        rw [hRange, List.getElem?_range' hIndex, Nat.one_mul]
  | .struct fields children nulls, indices, taken, h, place, row, hRow => by
      rw [take] at h
      obtain ⟨found, hFound, hPure⟩ := bind_eq_ok h
      cases hPure
      obtain ⟨hLength, hSame⟩ := takeAll_sameRow children hFound hRow
      exact .struct (maskedOut_takeMask hRow) hLength hSame
termination_by structural array => array

/-- A gathered row of a struct is the row it was taken from, child by child. -/
theorem takeAll_sameRow : ∀ (children : List ArrayRef) {indices : List Nat} {taken : List ArrayRef},
    takeAll indices children = .ok taken → ∀ {place row : Nat}, indices[place]? = some row →
    children.length = taken.length ∧ ∀ (index : Nat) child other, children[index]? = some child →
      taken[index]? = some other → SameRow child row other place
  | [], _, _, h, _, _, _ => by
      cases h
      refine ⟨rfl, fun index child other hChild _ => ?_⟩
      cases hChild
  | first :: rest, indices, _, h, place, row, hRow => by
      rw [takeAll] at h
      obtain ⟨head, hHead, hRest⟩ := bind_eq_ok h
      obtain ⟨others, hOthers, hPure⟩ := bind_eq_ok hRest
      cases hPure
      obtain ⟨hLength, hSame⟩ := takeAll_sameRow rest hOthers hRow
      refine ⟨congrArg Nat.succ hLength, fun index child other hChild hOther => ?_⟩
      cases index with
      | zero =>
          cases hChild
          cases hOther
          exact take_sameRow _ hHead hRow
      | succ index => exact hSame index child other hChild hOther
termination_by structural children => children

end

/-- Gathering keeps the type. -/
theorem take_dataType {array taken : ArrayRef} {indices : List Nat}
    (h : array.take indices = .ok taken) : taken.dataType = array.dataType := by
  cases array with
  | leaf type cells =>
      rw [take] at h
      obtain ⟨found, -, hRest⟩ := bind_eq_ok h
      split at hRest
      · cases hRest
      · cases hRest
        rfl
  | list item offsets values nulls =>
      rw [take] at h
      obtain ⟨rows, -, hRest⟩ := bind_eq_ok h
      split at hRest
      · cases hRest
      · obtain ⟨child, -, hPure⟩ := bind_eq_ok hRest
        cases hPure
        rfl
  | struct fields children nulls =>
      rw [take] at h
      obtain ⟨found, -, hPure⟩ := bind_eq_ok h
      cases hPure
      rfl

/-- Gathering from a leaf copies the cells. -/
theorem take_leaf {type : LeafType} {cells : List (Option type.Cell)} {indices : List Nat}
    {taken : ArrayRef} (h : (leaf type cells).take indices = .ok taken) :
    taken = .leaf type (indices.map fun index => cells[index]?.join) := by
  rw [take] at h
  obtain ⟨found, hFound, hRest⟩ := bind_eq_ok h
  have hCells : (indices.map fun index => cells[index]?.join) = found.map id := by
    refine forall₂_map_eq (fun index cell hCell => ?_) (mapM_eq_ok_iff.mp hFound)
    rw [itemAt_eq_ok hCell]
    rfl
  rw [hCells, List.map_id]
  split at hRest
  · cases hRest
  · exact (Except.ok.inj hRest).symm

/-! When rows can be taken. -/

/-- The rows of the child that a row of a list has; a row past the end has none. -/
def rowItems (offsets : OffsetBuffer) (row : Nat) : List Nat :=
  match childRows offsets row with
  | .ok rows => rows
  | .error _ => []

mutual

/-- 32-bit offsets address what the rows at some indices hold together. -/
def Fits (indices : List Nat) : ArrayRef → Prop
  | .leaf type cells => (indices.map fun index => cellSize type cells[index]?.join).sum ≤ offsetMax
  | .list _ offsets values _ => (indices.flatMap (rowItems offsets)).length ≤ offsetMax ∧
      Fits (indices.flatMap (rowItems offsets)) values
  | .struct _ children _ => FitsAll indices children
termination_by structural array => array

def FitsAll (indices : List Nat) : List ArrayRef → Prop
  | [] => True
  | child :: children => Fits indices child ∧ FitsAll indices children
termination_by structural children => children

end

mutual

/-- An array as a constructor leaves it: its buffers are addressed by 32-bit
offsets, no list reaches past its child, and the children of a struct have its
length. -/
def Sound : ArrayRef → Prop
  | .leaf type cells => (cells.map (cellSize type)).sum ≤ offsetMax
  | .list _ offsets values _ =>
      (∀ offset ∈ offsets.offsets, offset ≤ values.len ∧ offset ≤ offsetMax) ∧ Sound values
  | .struct fields children nulls => SoundAll (ArrayRef.struct fields children nulls).len children
termination_by structural array => array

def SoundAll (rows : Nat) : List ArrayRef → Prop
  | [] => True
  | child :: children => (child.len = rows ∧ Sound child) ∧ SoundAll rows children
termination_by structural children => children

end

/-- The items of a row are those between its two offsets. -/
theorem childRows_eq_rowItems {offsets : OffsetBuffer} {row : Nat} (h : row < offsets.rows) :
    childRows offsets row = .ok (rowItems offsets row) := by
  rw [OffsetBuffer.rows] at h
  rw [rowItems, childRows, List.getElem?_eq_getElem (by omega), List.getElem?_eq_getElem (by omega)]

/-- A row of the child that a row of a list has. -/
theorem lt_of_mem_rowItems {offsets : OffsetBuffer} {row item bound : Nat}
    (hBound : ∀ offset ∈ offsets.offsets, offset ≤ bound) (h : item ∈ rowItems offsets row) :
    item < bound := by
  rw [rowItems] at h
  cases hRows : childRows offsets row with
  | error reason => simp [hRows] at h
  | ok rows =>
      rw [hRows] at h
      obtain ⟨start, -, hEnd, hRange⟩ := childRows_eq_ok hRows
      have hLast := hBound _ (List.mem_of_getElem? hEnd)
      rw [hRange] at h
      have hItem := (List.mem_range'_1.mp h).2
      omega

theorem itemAt_of_getElem? {α : Type} {items : List α} {index : Nat} {item : α}
    (h : items[index]? = some item) : itemAt items index = .ok item := by
  rw [itemAt, h]

/-- Indices that are in bounds find their cells. -/
theorem itemAt_mapM {type : LeafType} {cells : List (Option type.Cell)} {indices : List Nat}
    (h : ∀ index ∈ indices, index < cells.length) :
    indices.mapM (itemAt cells) = .ok (indices.map fun index => cells[index]?.join) := by
  refine mapM_eq_ok_iff.mpr ?_
  rw [List.forall₂_map_right_iff, List.forall₂_same]
  intro index hMem
  rw [itemAt, List.getElem?_eq_getElem (h index hMem)]
  rfl

/-- Rows that are in bounds find their items. -/
theorem childRows_mapM {offsets : OffsetBuffer} {indices : List Nat}
    (h : ∀ index ∈ indices, index < offsets.rows) :
    indices.mapM (childRows offsets) = .ok (indices.map (rowItems offsets)) := by
  refine mapM_eq_ok_iff.mpr ?_
  rw [List.forall₂_map_right_iff, List.forall₂_same]
  exact fun index hMem => childRows_eq_rowItems (h index hMem)

mutual

/-- Rows inside an array can be taken when they fit. -/
theorem take_eq_ok : ∀ (array : ArrayRef) {indices : List Nat}, array.Sound →
    (∀ index ∈ indices, index < array.len) → array.Fits indices →
    ∃ taken, array.take indices = .ok taken ∧ taken.len = indices.length
  | .leaf type cells, indices, _, hIn, hFits => by
      rw [Fits] at hFits
      refine ⟨.leaf type (indices.map fun index => cells[index]?.join), ?_, List.length_map ..⟩
      simp only [take, itemAt_mapM hIn, bind, Except.bind]
      rw [List.map_map]
      exact if_neg (Nat.not_lt.mpr hFits)
  | .list item offsets values nulls, indices, hSound, hIn, hFits => by
      rw [Sound] at hSound
      rw [Fits] at hFits
      obtain ⟨hCount, hFitsChild⟩ := hFits
      have hBound : ∀ index ∈ indices.flatMap (rowItems offsets), index < values.len := by
        intro index hMem
        obtain ⟨row, -, hItem⟩ := List.mem_flatMap.mp hMem
        exact lt_of_mem_rowItems (fun offset hOffset => (hSound.1 offset hOffset).1) hItem
      obtain ⟨child, hChild, -⟩ := take_eq_ok values hSound.2 hBound hFitsChild
      have hSum : ¬ offsetMax < ((indices.map (rowItems offsets)).map List.length).sum := by
        rw [← List.length_flatten]
        exact Nat.not_lt.mpr hCount
      refine ⟨.list item ⟨((indices.map (rowItems offsets)).map List.length).scanl (· + ·) 0,
        (OffsetBuffer.ordered_scanl _ 0).1⟩ child (takeMask nulls indices), ?_, ?_⟩
      · rw [List.flatMap_def] at hChild
        simp only [take, childRows_mapM hIn, hChild, bind, Except.bind]
        rw [if_neg hSum]
      · rw [len, OffsetBuffer.rows]
        simp
  | .struct fields children nulls, indices, hSound, hIn, hFits => by
      rw [Sound] at hSound
      rw [Fits] at hFits
      obtain ⟨taken, hTaken, hLengths⟩ := takeAll_eq_ok children hSound hIn hFits
      refine ⟨.struct fields taken (takeMask nulls indices), ?_, ?_⟩
      · simp only [take, hTaken, bind, Except.bind]
      · cases children with
        | nil =>
            cases hTaken
            cases indices with
            | nil => rfl
            | cons index rest => exact absurd (hIn index List.mem_cons_self) (Nat.not_lt_zero _)
        | cons first rest =>
            cases taken with
            | nil =>
                rw [takeAll] at hTaken
                obtain ⟨head, -, hRest⟩ := bind_eq_ok hTaken
                obtain ⟨others, -, hPure⟩ := bind_eq_ok hRest
                cases hPure
            | cons head others => exact hLengths head List.mem_cons_self
termination_by structural array => array

/-- Sound children are gathered if they fit. -/
theorem takeAll_eq_ok : ∀ (children : List ArrayRef) {indices : List Nat} {rows : Nat},
    SoundAll rows children → (∀ index ∈ indices, index < rows) → FitsAll indices children →
    ∃ taken, takeAll indices children = .ok taken ∧ ∀ child ∈ taken, child.len = indices.length
  | [], _, _, _, _, _ => ⟨[], rfl, fun _ hMem => absurd hMem List.not_mem_nil⟩
  | first :: rest, indices, rows, hSound, hIn, hFits => by
      rw [SoundAll] at hSound
      rw [FitsAll] at hFits
      obtain ⟨head, hHead, hLength⟩ := take_eq_ok first hSound.1.2
        (fun index hMem => by rw [hSound.1.1]; exact hIn index hMem) hFits.1
      obtain ⟨others, hOthers, hLengths⟩ := takeAll_eq_ok rest hSound.2 hIn hFits.2
      refine ⟨head :: others, ?_, List.forall_mem_cons.mpr ⟨hLength, hLengths⟩⟩
      simp only [takeAll, hHead, hOthers, bind, Except.bind]
termination_by structural children => children

end

mutual

/-- Rows that were taken fit. -/
theorem fits_of_take : ∀ (array : ArrayRef) {indices : List Nat} {taken : ArrayRef},
    array.take indices = .ok taken → array.Fits indices
  | .leaf type cells, indices, taken, h => by
      have hTaken := take_leaf h
      rw [take] at h
      obtain ⟨found, -, hRest⟩ := bind_eq_ok h
      split at hRest
      · cases hRest
      · next hSum =>
          cases (Except.ok.inj hRest).trans hTaken
          rw [List.map_map] at hSum
          rw [Fits]
          exact Nat.le_of_not_lt hSum
  | .list item offsets values nulls, indices, taken, h => by
      rw [take] at h
      obtain ⟨rows, hRows, hRest⟩ := bind_eq_ok h
      have hItems : indices.map (rowItems offsets) = rows.map id := by
        refine forall₂_map_eq (fun index items hRow => ?_) (mapM_eq_ok_iff.mp hRows)
        rw [rowItems, hRow]
        rfl
      have hFlat : indices.flatMap (rowItems offsets) = rows.flatten := by
        rw [List.flatMap_def, hItems, List.map_id]
      split at hRest
      · cases hRest
      · next hSum =>
          obtain ⟨child, hChild, -⟩ := bind_eq_ok hRest
          rw [Fits, hFlat, List.length_flatten]
          exact ⟨Nat.le_of_not_lt hSum, fits_of_take values hChild⟩
  | .struct fields children nulls, indices, taken, h => by
      rw [take] at h
      obtain ⟨found, hFound, -⟩ := bind_eq_ok h
      rw [Fits]
      exact fitsAll_of_takeAll children hFound
termination_by structural array => array

/-- Children that were gathered did fit. -/
theorem fitsAll_of_takeAll : ∀ (children : List ArrayRef) {indices : List Nat} {taken : List ArrayRef},
    takeAll indices children = .ok taken → FitsAll indices children
  | [], _, _, _ => trivial
  | first :: rest, indices, taken, h => by
      rw [takeAll] at h
      obtain ⟨head, hHead, hRest⟩ := bind_eq_ok h
      obtain ⟨others, hOthers, -⟩ := bind_eq_ok hRest
      exact ⟨fits_of_take first hHead, fitsAll_of_takeAll rest hOthers⟩
termination_by structural children => children

end

/-! Rows taken in order, each at most once. -/

/-- A part of a list adds up to no more than the whole. -/
theorem sum_le_of_sublist {xs ys : List Nat} (h : xs.Sublist ys) : xs.sum ≤ ys.sum := by
  induction h with
  | slnil => exact Nat.le_refl _
  | cons y _ ih => exact Nat.le_trans ih (by rw [List.sum_cons]; exact Nat.le_add_left _ _)
  | cons_cons y _ ih =>
      rw [List.sum_cons, List.sum_cons]
      exact Nat.add_le_add_left ih y

/-- The items of the first rows lie in order before the offset where they end. -/
theorem flatMap_rowItems_sublist {offsets : OffsetBuffer} {count finish : Nat}
    (h : offsets.offsets[count]? = some finish) :
    ((List.range count).flatMap (rowItems offsets)).Sublist (List.range finish) := by
  induction count generalizing finish with
  | zero => exact List.nil_sublist _
  | succ count ih =>
      obtain ⟨hNext, hFinish⟩ := List.getElem?_eq_some_iff.mp h
      have hRow : count < offsets.rows := by
        rw [OffsetBuffer.rows]
        omega
      obtain ⟨start, hStart, hEnd, hItems⟩ := childRows_eq_ok (childRows_eq_rowItems hRow)
      have hLast := Option.some.inj (h.symm.trans hEnd)
      have hSplit : List.range finish = List.range start ++ rowItems offsets count := by
        rw [hItems, hLast, List.range_eq_range', List.range_eq_range', ← List.range'_append_1,
          Nat.zero_add]
      rw [List.range_succ, List.flatMap_append, List.flatMap_singleton, hSplit]
      exact (ih hStart).append (List.Sublist.refl _)

/-- The rows of a list, one after the other, use each item once at most and in order. -/
theorem flatMap_rowItems_range {offsets : OffsetBuffer} {bound : Nat}
    (hBound : ∀ offset ∈ offsets.offsets, offset ≤ bound) :
    ((List.range offsets.rows).flatMap (rowItems offsets)).Sublist (List.range bound) := by
  cases hLast : offsets.offsets[offsets.rows]? with
  | none =>
      have hEmpty : offsets.rows = 0 := by
        rw [List.getElem?_eq_none_iff] at hLast
        rw [OffsetBuffer.rows] at hLast ⊢
        omega
      rw [hEmpty]
      exact List.nil_sublist _
  | some finish =>
      refine (flatMap_rowItems_sublist hLast).trans ?_
      rw [List.range_sublist]
      exact hBound finish (List.mem_of_getElem? hLast)

/-- Rows of a sound leaf taken in order, each once, fit. -/
theorem fits_leaf_of_sublist {type : LeafType} {cells : List (Option type.Cell)} {indices : List Nat}
    (h : (leaf type cells).Sound) (hIn : indices.Sublist (List.range cells.length)) :
    (leaf type cells).Fits indices := by
  have hCells : (List.range cells.length).map (fun index => cellSize type cells[index]?.join) =
      cells.map (cellSize type) := by
    refine List.ext_getElem (by simp) fun index _ hIndex => ?_
    rw [List.length_map] at hIndex
    simp [hIndex]
  rw [Sound, ← hCells] at h
  rw [Fits]
  exact Nat.le_trans (sum_le_of_sublist (hIn.map _)) h

mutual

/-- Rows in order, each at most once, hold no more than the array does. -/
theorem fits_of_sublist : ∀ (array : ArrayRef) {indices : List Nat}, array.Sound →
    indices.Sublist (List.range array.len) → array.Fits indices
  | .leaf _ _, _, hSound, hIn => fits_leaf_of_sublist hSound hIn
  | .list item offsets values nulls, indices, hSound, hIn => by
      rw [Sound] at hSound
      have hItems := List.Sublist.flatMap hIn (rowItems offsets)
      have hChild := hItems.trans
        (flatMap_rowItems_range fun offset hMem => (hSound.1 offset hMem).1)
      have hCount := hItems.trans
        (flatMap_rowItems_range fun offset hMem => (hSound.1 offset hMem).2)
      rw [Fits]
      refine ⟨?_, fits_of_sublist values hSound.2 hChild⟩
      rw [← @List.length_range offsetMax]
      exact hCount.length_le
  | .struct fields children nulls, indices, hSound, hIn => by
      rw [Sound] at hSound
      rw [Fits]
      exact fitsAll_of_sublist children hSound hIn
termination_by structural array => array

/-- So do the rows of sound children. -/
theorem fitsAll_of_sublist : ∀ (children : List ArrayRef) {indices : List Nat} {rows : Nat},
    SoundAll rows children → indices.Sublist (List.range rows) → FitsAll indices children
  | [], _, _, _, _ => trivial
  | first :: rest, indices, rows, hSound, hIn => by
      rw [SoundAll] at hSound
      exact ⟨fits_of_sublist first hSound.1.2 (by rw [hSound.1.1]; exact hIn),
        fitsAll_of_sublist rest hSound.2 hIn⟩
termination_by structural children => children

end

/-! Slices of arrays. -/

section Slices

variable {offset length : Nat}

/-- A slice has the type of its array. -/
theorem slice_dataType (array : ArrayRef) : (array.slice offset length).dataType = array.dataType := by
  cases array <;> rfl

/-- A slice has the rows it was cut to. -/
theorem slice_len : ∀ (array : ArrayRef), offset + length ≤ array.len →
    (array.slice offset length).len = length
  | .leaf type cells, h => by
      rw [len] at h
      rw [slice, len, List.length_take, List.length_drop]
      omega
  | .list item offsets values nulls, h => by
      rw [len, OffsetBuffer.rows] at h
      simp only [slice, len, OffsetBuffer.rows, OffsetBuffer.slice, List.length_take,
        List.length_drop]
      omega
  | .struct fields [] nulls, h => by
      rw [len] at h
      rw [slice, sliceAll, len]
      omega
  | .struct fields (child :: rest) nulls, h => slice_len child h

/-- A row of a slice is a row of the whole, counted from the cut. -/
theorem getElem?_slice {α : Type} (items : List α) {index : Nat} (h : index < length) :
    ((items.drop offset).take length)[index]? = items[offset + index]? := by
  rw [List.getElem?_take_of_lt h, List.getElem?_drop]

/-- A row of a slice is null where the row of the whole is. -/
theorem maskedOut_sliceMask (nulls : Option (List Bool)) {index : Nat} (h : index < length) :
    maskedOut (sliceMask nulls offset length) index = maskedOut nulls (offset + index) := by
  cases nulls with
  | none => rfl
  | some mask =>
      rw [sliceMask, Option.map_some, maskedOut, maskedOut, getElem?_slice mask h]

theorem soundAll_iff {rows : Nat} {children : List ArrayRef} :
    SoundAll rows children ↔ ∀ child ∈ children, child.len = rows ∧ child.Sound := by
  induction children with
  | nil => exact iff_of_true trivial fun _ hMem => absurd hMem List.not_mem_nil
  | cons child children ih => rw [SoundAll, List.forall_mem_cons, ih]

theorem sliceAll_eq_map (children : List ArrayRef) :
    sliceAll offset length children = children.map (slice offset length) := by
  induction children with
  | nil => rfl
  | cons child children ih => rw [sliceAll, ih, List.map_cons]

mutual

/-- A row of a sound array is the same as itself. -/
theorem sameRow_refl : ∀ (array : ArrayRef) {row : Nat}, array.Sound → row < array.len →
    SameRow array row array row
  | .leaf _ _, _, _, _ => .leaf rfl
  | .list item offsets values nulls, row, hSound, hRow => by
      rw [Sound] at hSound
      rw [len] at hRow
      obtain ⟨start, hStart, hEnd, -⟩ := childRows_eq_ok (childRows_eq_rowItems hRow)
      refine .list rfl hStart hEnd hStart hEnd fun index hIndex => sameRow_refl values hSound.2 ?_
      have hLast := (hSound.1 _ (List.mem_of_getElem? hEnd)).1
      omega
  | .struct fields children nulls, row, hSound, hRow => by
      rw [Sound] at hSound
      refine .struct rfl rfl fun index child other hChild hOther => ?_
      cases hChild.symm.trans hOther
      exact sameRows_refl children hSound hRow child (List.mem_of_getElem? hChild)
termination_by structural array => array

theorem sameRows_refl : ∀ (children : List ArrayRef) {rows row : Nat}, SoundAll rows children →
    row < rows → ∀ child ∈ children, SameRow child row child row
  | [], _, _, _, _, _, hMem => absurd hMem List.not_mem_nil
  | first :: rest, rows, row, hSound, hRow, child, hMem => by
      rw [SoundAll] at hSound
      rcases List.mem_cons.mp hMem with hFirst | hRest
      · rw [hFirst]
        exact sameRow_refl first hSound.1.2 (by rw [hSound.1.1]; exact hRow)
      · exact sameRows_refl rest hSound.2 hRow child hRest
termination_by structural children => children

end

mutual

/-- A row of a slice is the row of the array that far behind its start. -/
theorem slice_sameRow : ∀ (array : ArrayRef) {index : Nat}, array.Sound →
    offset + length ≤ array.len → index < length →
    SameRow array (offset + index) (array.slice offset length) index
  | .leaf type cells, index, _, _, hIndex => .leaf (getElem?_slice cells hIndex).symm
  | .list item offsets values nulls, index, hSound, hLength, hIndex => by
      rw [Sound] at hSound
      rw [len] at hLength
      obtain ⟨start, hStart, hEnd, -⟩ :=
        childRows_eq_ok (childRows_eq_rowItems (show offset + index < offsets.rows by omega))
      refine .list (maskedOut_sliceMask nulls hIndex).symm hStart hEnd
        ((getElem?_slice _ (by omega)).trans hStart) ((getElem?_slice _ (by omega)).trans hEnd)
        fun item hItem => sameRow_refl values hSound.2 ?_
      have hLast := (hSound.1 _ (List.mem_of_getElem? hEnd)).1
      omega
  | .struct fields children nulls, index, hSound, hLength, hIndex => by
      rw [Sound] at hSound
      refine .struct (maskedOut_sliceMask nulls hIndex).symm ?_ ?_
      · rw [sliceAll_eq_map, List.length_map]
      · exact sliceAll_sameRow children hSound hLength hIndex
termination_by structural array => array

/-- A row of a sliced struct is the row of the whole, child by child. -/
theorem sliceAll_sameRow : ∀ (children : List ArrayRef) {rows index : Nat}, SoundAll rows children →
    offset + length ≤ rows → index < length → ∀ (place : Nat) child other,
    children[place]? = some child → (sliceAll offset length children)[place]? = some other →
    SameRow child (offset + index) other index
  | [], _, _, _, _, _, place, _, _, hChild, _ => by cases hChild
  | first :: rest, rows, index, hSound, hLength, hIndex, place, child, other, hChild, hOther => by
      rw [SoundAll] at hSound
      cases place with
      | zero =>
          cases hChild
          cases hOther
          exact slice_sameRow _ hSound.1.2 (by rw [hSound.1.1]; exact hLength) hIndex
      | succ place => exact sliceAll_sameRow rest hSound.2 hLength hIndex place child other hChild hOther
termination_by structural children => children

end

mutual

/-- A slice of a sound array is sound. -/
theorem Sound.slice : ∀ {array : ArrayRef}, array.Sound → offset + length ≤ array.len →
    (array.slice offset length).Sound
  | .leaf type cells, hSound, _ => by
      rw [Sound] at hSound
      rw [ArrayRef.slice, Sound]
      refine Nat.le_trans (sum_le_of_sublist (List.Sublist.map _ ?_)) hSound
      exact (List.take_sublist _ _).trans (List.drop_sublist _ _)
  | .list item offsets values nulls, hSound, _ => by
      rw [Sound] at hSound
      rw [ArrayRef.slice, Sound]
      refine ⟨fun bound hMem => hSound.1 bound ?_, hSound.2⟩
      exact List.mem_of_mem_drop (List.mem_of_mem_take hMem)
  | .struct fields children nulls, hSound, hLength => by
      rw [Sound] at hSound
      have hAll := soundAll_slice hSound hLength
      cases children with
      | nil => trivial
      | cons first rest =>
          have hFirst := slice_len (.struct fields (first :: rest) nulls) hLength
          rw [ArrayRef.slice] at hFirst ⊢
          rw [Sound, hFirst]
          exact hAll

/-- Slices of sound children are sound. -/
theorem soundAll_slice : ∀ {children : List ArrayRef} {rows : Nat}, SoundAll rows children →
    offset + length ≤ rows → SoundAll length (sliceAll offset length children)
  | [], _, _, _ => trivial
  | first :: rest, rows, hSound, hLength => by
      rw [SoundAll] at hSound
      have hFirst : offset + length ≤ first.len := by
        rw [hSound.1.1]
        exact hLength
      exact ⟨⟨slice_len first hFirst, Sound.slice hSound.1.2 hFirst⟩, soundAll_slice hSound.2 hLength⟩

end

end Slices

end ArrayRef

/-- An array has no null exactly if none of its rows is. -/
theorem ArrayRef.hasNull_eq_false_iff {array : ArrayRef} :
    array.hasNull = false ↔ ∀ row < array.len, array.isNull row = false := by
  simp [ArrayRef.hasNull]

/-- A column of `rows` rows in a batch: it has its field's type, no null that
the field does not allow, and is an array as a constructor leaves it. -/
structure ColumnOf (rows : Nat) (field : Field) (column : ArrayRef) : Prop where
  type : column.dataType = field.dataType
  length : column.len = rows
  nulls : field.nullable = true ∨ column.hasNull = false
  sound : column.Sound

namespace ColumnOf

variable {rows : Nat} {field : Field} {column : ArrayRef}

/-- A slice of a column is a column of its rows. -/
theorem slice {offset length : Nat} (h : ColumnOf rows field column)
    (hLength : offset + length ≤ rows) : ColumnOf length field (column.slice offset length) := by
  rw [← h.length] at hLength
  have hLen := ArrayRef.slice_len column hLength
  refine ⟨(ArrayRef.slice_dataType column).trans h.type, hLen, h.nulls.imp_right fun hNull => ?_,
    h.sound.slice hLength⟩
  rw [ArrayRef.hasNull_eq_false_iff] at hNull ⊢
  intro row hRow
  rw [hLen] at hRow
  rw [← (ArrayRef.slice_sameRow column h.sound hLength hRow).isNull]
  exact hNull _ (by omega)

/-- A column whose gathered rows fit can be gathered, and is a column of these. -/
theorem take {indices : List Nat} (h : ColumnOf rows field column)
    (hIn : ∀ index ∈ indices, index < rows) (hFits : column.Fits indices) :
    ∃ taken, column.take indices = .ok taken ∧ taken.dataType = field.dataType ∧
      taken.len = indices.length ∧ (field.nullable = true ∨ taken.hasNull = false) := by
  obtain ⟨taken, hTaken, hLen⟩ := column.take_eq_ok h.sound (by rw [h.length]; exact hIn) hFits
  refine ⟨taken, hTaken, (ArrayRef.take_dataType hTaken).trans h.type, hLen,
    h.nulls.imp_right fun hNull => ?_⟩
  rw [ArrayRef.hasNull_eq_false_iff] at hNull ⊢
  intro place hPlace
  rw [hLen] at hPlace
  have hIndex := List.getElem?_eq_getElem hPlace
  rw [← (ArrayRef.take_sameRow column hTaken hIndex).isNull]
  exact hNull _ (by rw [h.length]; exact hIn _ (List.getElem_mem hPlace))

end ColumnOf

namespace RecordBatch

/-- Columns that fit their fields make a batch. -/
theorem tryNew_columns {rows : Nat} {schema : List Field} {columns : List ArrayRef}
    (hSchema : schema ≠ []) (h : List.Forall₂ (fun (field : Field) (column : ArrayRef) =>
      column.dataType = field.dataType ∧ column.len = rows ∧
        (field.nullable = true ∨ column.hasNull = false)) schema columns) :
    ∃ batch, tryNew schema columns = .ok batch ∧ batch.numRows = rows := by
  have hAll := h
  cases h with
  | nil => exact absurd rfl hSchema
  | @cons field first schema columns hHead hTail =>
      have hTypes : (first :: columns).map ArrayRef.dataType =
          (field :: schema).map FieldOf.dataType :=
        (forall₂_map_eq (fun _ _ hColumn => hColumn.1.symm) hAll).symm
      have hLens : ∀ column ∈ first :: columns, column.len = first.len := by
        intro column hMem
        obtain ⟨_, -, hColumn⟩ := forall₂_right hAll hMem
        rw [hColumn.2.1, hHead.2.1]
      have hNulls : (List.zipWith (fun (field : Field) column => field.nullable || !column.hasNull)
          (field :: schema) (first :: columns)).all id = true := by
        rw [← List.map_uncurry_zip_eq_zipWith, List.all_map, List.all_eq_true]
        rintro ⟨other, column⟩ hMem
        rcases ((List.forall₂_iff_zip.mp hAll).2 hMem).2.2 with hNullable | hNone
        · simp [hNullable]
        · simp [hNone]
      rw [tryNew, dif_pos ⟨hTypes, hLens⟩, if_pos hNulls]
      exact ⟨_, rfl, hHead.2.1⟩

/-- A batch as its constructor leaves it. -/
def Sound (batch : RecordBatch) : Prop :=
  List.Forall₂ (ColumnOf batch.numRows) batch.schema batch.columns

/-- A batch made of sound columns is sound. -/
theorem tryNew_sound {schema : List Field} {columns : List ArrayRef} {batch : RecordBatch}
    (h : tryNew schema columns = .ok batch) (hColumns : ∀ column ∈ columns, column.Sound) :
    batch.Sound := by
  obtain ⟨rfl, rfl⟩ := tryNew_eq_ok h
  have hLength : batch.schema.length = batch.columns.length := by
    have hTyped := congrArg List.length batch.typed
    simpa using hTyped.symm
  have hNulls : (List.zipWith (fun (field : Field) column => field.nullable || !column.hasNull)
      batch.schema batch.columns).all id = true := by
    cases hAll : batch.columns with
    | nil => simp
    | cons first rest =>
        rw [hAll, tryNew] at h
        split at h
        · split at h
          · next hNulls => exact hNulls
          · cases h
        · cases h
  rw [← List.map_uncurry_zip_eq_zipWith, List.all_map, List.all_eq_true] at hNulls
  refine forall₂_of_rows hLength fun row field column hField hColumn => ?_
  have hMem := List.mem_of_getElem? hColumn
  refine ⟨?_, batch.aligned column hMem, ?_, hColumns column hMem⟩
  · have hTyped := congrArg (fun types => types[row]?) batch.typed
    simp only [List.getElem?_map, hField, hColumn, Option.map_some] at hTyped
    exact Option.some.inj hTyped
  · have hEntry : (batch.schema.zip batch.columns)[row]? = some (field, column) :=
      List.getElem?_zip_eq_some.mpr ⟨hField, hColumn⟩
    have hAllowed := hNulls _ (List.mem_of_getElem? hEntry)
    simpa using hAllowed

/-- The column of a name stands under the first field of that name. -/
theorem find?_zip {R : Field → ArrayRef → Prop} {fields : List Field} {columns : List ArrayRef}
    (h : List.Forall₂ R fields columns) {p : Field → Bool} {column : ArrayRef}
    (hFind : ((fields.zip columns).find? fun entry => p entry.1).map (·.2) = some column) :
    ∃ field, fields.find? p = some field ∧ R field column := by
  induction h with
  | nil => cases hFind
  | @cons field other fields others hHead hTail ih =>
      rw [List.zip_cons_cons, List.find?_cons] at hFind
      rw [List.find?_cons]
      cases hHit : p field with
      | true =>
          rw [hHit] at hFind
          cases hFind
          exact ⟨field, rfl, hHead⟩
      | false =>
          rw [hHit] at hFind
          exact ih hFind

/-- A column found by name has the type and length that the batch gives it. -/
theorem Sound.columnByName {batch : RecordBatch} (h : batch.Sound) {name : String}
    {column : ArrayRef} (hColumn : batch.columnByName name = some column) :
    ∃ field, batch.schema.find? (fun field => field.name == name) = some field ∧
      ColumnOf batch.numRows field column :=
  find?_zip h hColumn

/-- Consecutive rows of a batch. The caller stays inside it. -/
def slice (batch : RecordBatch) (offset length : Nat) (h : offset + length ≤ batch.numRows) :
    RecordBatch where
  schema := batch.schema
  columns := batch.columns.map (ArrayRef.slice offset length)
  numRows := length
  typed := by
    rw [← batch.typed, List.map_map]
    exact List.map_congr_left fun column _ => ArrayRef.slice_dataType column
  aligned := by
    intro column hMem
    obtain ⟨whole, hWhole, rfl⟩ := List.mem_map.mp hMem
    refine ArrayRef.slice_len whole ?_
    rw [batch.aligned whole hWhole]
    exact h

section Slice

variable {batch : RecordBatch} {offset length : Nat} (hLength : offset + length ≤ batch.numRows)

/-- A slice of a sound batch is sound. -/
theorem slice_sound (h : batch.Sound) : (batch.slice offset length hLength).Sound :=
  List.forall₂_map_right_iff.mpr (h.imp fun _ _ hColumn => hColumn.slice hLength)

/-- A column of a slice is the slice of the column. -/
theorem slice_columnByName {name : String} {column : ArrayRef}
    (h : batch.columnByName name = some column) :
    (batch.slice offset length hLength).columnByName name = some (column.slice offset length) := by
  rw [columnByName] at h ⊢
  obtain ⟨entry, hEntry, rfl⟩ := Option.map_eq_some_iff.mp h
  rw [slice, List.zip_map_right, List.find?_map]
  show (((batch.schema.zip batch.columns).find? fun entry => entry.1.name == name).map _).map _ = _
  rw [hEntry]
  rfl

end Slice

end RecordBatch
end Arrow
