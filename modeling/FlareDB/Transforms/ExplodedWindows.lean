import FlareDB.Store.CoderTables
import FlareDB.Transforms.GbkExplosion

/-! What the explosion of a batch into its windows promises, and the batch that is
built and still cannot be exploded: one large value in many windows. -/
namespace FlareDB

open Arrow Results

/-- The elements of a batch that was cut twice. -/
def cutElements (elements : List WindowedValue) (offset length first count : Nat) :
    List WindowedValue :=
  (((elements.drop offset).take length).drop first).take count

/-- A built batch of KV elements, cut before and after its group keys are added,
is exploded into one row for each element and window, as long as the payload of
the extra rows can be addressed; where it cannot, and where the windows of a row
are not those it declares or one of them is missing, the batch is refused. -/
theorem windows_exploded :
    (∀ {pcollectionId : String} {values : List WindowedValue} {batch : RecordBatch}
        {schema : RecordTableSchema},
      buildWindowedBatch pcollectionId values = .ok (batch, schema) → schema.tableType = .kv →
      ∃ stored, windowedValuesFromBatch batch schema = .ok stored ∧
        (∃ dataType, stored = values.map fun value =>
          { value with value := clipRecord dataType value.value }) ∧
        ∀ (offset length first count : Nat) (extended : RecordBatch)
          (hSlice : offset + length ≤ batch.numRows),
          addEncodedKeyColumn (batch.slice offset length hSlice) = .ok extended →
          ∀ hCut : first + count ≤ extended.numRows,
          (ExtraRowsFit (extended.slice first count hCut)
              (cutElements stored offset length first count) →
            ∃ outs chunks, flattenWindowBatch (extended.slice first count hCut) = .ok outs ∧
              List.Forall₂ (HoldsRows schema) outs chunks ∧
              chunks.flatten.Perm
                ((cutElements stored offset length first count).flatMap WindowedValue.gbkRows)) ∧
          (¬ ExtraRowsFit (extended.slice first count hCut)
              (cutElements stored offset length first count) →
            ∃ reason, flattenWindowBatch (extended.slice first count hCut) = .error reason)) ∧
    ∀ {batch : RecordBatch} {columns : WindowListColumns} {row : Nat}, batch.Sound →
      HasWindowColumns batch columns → row < batch.numRows →
      (columns.declared row ≠ columns.stored row ∨
        ∃ index ∈ ArrayRef.rowItems columns.offsets row,
          columns.extraWindowValues[index]? = some none) →
      ∃ text, flattenWindowBatch batch = .error (.message text) := by
  constructor
  · intro pcollectionId values batch schema hBuilt hKv
    obtain ⟨dataType, -, hStored⟩ := windowedValuesFromBatch_eq_ok hBuilt
    obtain ⟨⟨columns, hHolds⟩, hFresh⟩ := buildWindowedBatch_elements hBuilt hKv hStored
    refine ⟨_, hStored, ⟨dataType, rfl⟩, ?_⟩
    intro offset length first count extended hSlice hAdd hCut
    have hGroups := ((hHolds.slice hSlice).groups hFresh hAdd).slice hCut
    refine ⟨fun hFit => hGroups.exploded hKv hFit, fun hNot => ?_⟩
    cases hOk : flattenWindowBatch (extended.slice first count hCut) with
    | ok outs => exact absurd (hGroups.fits hOk) hNot
    | error reason => exact ⟨reason, rfl⟩
  · intro batch columns row hSound hColumns hRow hBad
    refine flattenWindowBatch_refuses hSound hColumns hRow fun hAgrees => ?_
    rcases hBad with hCount | ⟨index, hMem, hNull⟩
    · exact hCount hAgrees.count
    · obtain ⟨key, hKey⟩ := hAgrees.keys index hMem
      rw [hKey] at hNull
      cases hNull

/-! A row with three windows, two of them the same, and one with none. -/

def manyWindows : List WindowedValue :=
  [⟨.kv (.bool true) (.primitive (.int64 7)), 5, [.global, .interval 0 60, .global], .noFiring⟩,
    ⟨.kv (.bool false) (.primitive (.int64 8)), 6, [], .noFiring⟩]

theorem windows_exploded_manyWindows :
    ∃ built, buildWindowedBatch "pc" manyWindows = .ok built ∧
      ∃ (hSlice : 0 + 2 ≤ built.1.numRows) (extended : RecordBatch),
        addEncodedKeyColumn (built.1.slice 0 2 hSlice) = .ok extended ∧
        ∃ (hCut : 0 + 2 ≤ extended.numRows) (outs : List RecordBatch) (chunks : List (List GbkRow)),
          flattenWindowBatch (extended.slice 0 2 hCut) = .ok outs ∧
          List.Forall₂ (HoldsRows built.2) outs chunks ∧
          chunks.flatten.Perm (manyWindows.flatMap WindowedValue.gbkRows) := by
  obtain ⟨⟨batch, schema⟩, hBuilt, hKv, hRead, hSlice, extended, hAdd, hCut, hKeys, hValues,
      hGroups⟩ :
      ∃ built, buildWindowedBatch "pc" manyWindows = .ok built ∧ built.2.tableType = .kv ∧
        windowedValuesFromBatch built.1 built.2 = .ok manyWindows ∧
        ∃ (hSlice : 0 + 2 ≤ built.1.numRows) (extended : RecordBatch),
          addEncodedKeyColumn (built.1.slice 0 2 hSlice) = .ok extended ∧
          ∃ hCut : 0 + 2 ≤ extended.numRows,
            (extended.slice 0 2 hCut).columnByName keyColumn =
              some (.leaf .boolean [some true, some false]) ∧
            (extended.slice 0 2 hCut).columnByName valueColumn =
              some (.leaf .int64 [some (7 : Int64), some (8 : Int64)]) ∧
            (extended.slice 0 2 hCut).columnByName groupKeyColumn =
              some (.leaf .binary [some [4, 1], some [4, 0]]) :=
    ⟨_, rfl, rfl, rfl, by decide, _, rfl, by decide, rfl, rfl, rfl⟩
  have hRows : extraRows manyWindows = [0, 0] := by decide
  have hFit : ExtraRowsFit (extended.slice 0 2 hCut) manyWindows := by
    intro name hMem column hColumn
    rw [hRows]
    simp only [List.mem_cons, List.not_mem_nil, or_false] at hMem
    rcases hMem with rfl | rfl | rfl
    · cases hKeys.symm.trans hColumn
      exact fits_leaf (fun _ => rfl) _
    · cases hValues.symm.trans hColumn
      exact fits_leaf (fun _ => rfl) _
    · cases hGroups.symm.trans hColumn
      show 2 + (2 + 0) ≤ offsetMax
      decide
  obtain ⟨stored, hStored, -, hAll⟩ := windows_exploded.1 hBuilt hKv
  cases hRead.symm.trans hStored
  obtain ⟨outs, chunks, hOk, hHold, hPerm⟩ := (hAll 0 2 0 2 extended hSlice hAdd hCut).1 hFit
  exact ⟨(batch, schema), hBuilt, hSlice, extended, hAdd, hCut, outs, chunks, hOk, hHold, hPerm⟩

/-! A value of 70,000 bytes in 32,767 windows: its copies for the extra windows
outgrow 32-bit offsets. -/

section Wide

variable (bytes : List UInt8) (count : Nat)

/-- One value in the global window, `count + 1` times. -/
def wideElement : WindowedValue where
  value := .kv (.bool true) (.primitive (.bytes bytes))
  timestampMillis := 0
  windows := List.replicate (count + 1) .global
  pane := PaneInfo.noFiring

theorem uniformTable_wide :
    UniformTable .kv .boolean .binary ([wideElement bytes count].map WindowedValue.value) where
  nonempty := List.cons_ne_nil _ _
  shapes := by
    intro record hMem
    rw [List.mem_singleton.mp hMem]
    rfl
  keys := by
    intro record hMem key hKey
    rw [List.mem_singleton.mp hMem] at hKey
    cases hKey
    rfl
  stored := by
    intro record hMem
    rw [List.mem_singleton.mp hMem]
    rfl
  conforms := by
    intro record hMem
    rw [List.mem_singleton.mp hMem]
    exact scalarFits_primitiveDataType (.bytes bytes)
  items := by
    intro hItems
    rcases hItems with hItems | hItems <;> cases hItems

theorem keysOf_wide : keysOf (WindowMetadata.ofValue (wideElement bytes count)) =
    List.replicate (count + 1) [0] :=
  List.map_replicate

theorem windowsFit_wide (hCount : count + 1 ≤ i16Max) :
    WindowsFit ([wideElement bytes count].map WindowMetadata.ofValue) := by
  have hExtra : ([wideElement bytes count].map WindowMetadata.ofValue).map
      (fun entry => (keysOf entry).tail) = [List.replicate count [0]] := by
    rw [List.map_singleton, List.map_singleton, keysOf_wide, List.tail_replicate, Nat.add_sub_cancel]
  rw [i16Max] at hCount
  refine ⟨?_, ?_, ?_, ?_, ?_⟩
  · intro entry hMem
    rw [List.mem_singleton.mp hMem]
    show (List.replicate (count + 1) BeamWindow.global).length ≤ i16Max
    rw [List.length_replicate, i16Max]
    omega
  · intro entry hMem window hWindow
    rw [List.mem_singleton.mp hMem] at hWindow
    rw [List.eq_of_mem_replicate hWindow]
    trivial
  · rw [List.map_singleton, List.map_singleton, keysOf_wide]
    show 1 + 0 ≤ offsetMax
    decide
  · rw [hExtra, listsFit, List.map_singleton, List.length_replicate, List.sum_singleton, offsetMax]
    omega
  · rw [hExtra, List.flatten_singleton, List.map_replicate, List.sum_replicate, offsetMax]
    simp
    omega

theorem extraRows_wide : extraRows [wideElement bytes count] = List.replicate count 0 := by
  show List.replicate ((List.replicate (count + 1) BeamWindow.global).length - 1) 0 ++ [] = _
  rw [List.append_nil, List.length_replicate, Nat.add_sub_cancel]

end Wide

/-- A leaf column of byte strings that reads as one at a row has it there. -/
theorem cell_of_read {cells : List (Option (LeafType.Cell .binary))} {row : Nat} {bytes : List UInt8}
    (h : nestedValueFromArrayRow (.leaf .binary cells) .binary row =
      .ok (.primitive (.bytes bytes))) : cells[row]?.join = some bytes := by
  obtain ⟨value, hValue, hPure⟩ := bind_eq_ok h
  cases hPure
  rcases hCell : cells[row]? with _ | _ | cell
  · simp [primitiveValueFromArrayRow, ArrayRef.isNull, leafValue, cellPrimitive, hCell] at hValue
  · simp [primitiveValueFromArrayRow, ArrayRef.isNull, hCell] at hValue
  · cases (primitiveValueFromArrayRow_leaf rfl hCell).symm.trans hValue
    rfl

/-- Not every built batch can be exploded. -/
theorem not_windows_exploded :
    ¬ ∀ {pcollectionId : String} {values : List WindowedValue} {batch extended : RecordBatch}
        {schema : RecordTableSchema},
      buildWindowedBatch pcollectionId values = .ok (batch, schema) → schema.tableType = .kv →
      addEncodedKeyColumn batch = .ok extended → ∃ outs, flattenWindowBatch extended = .ok outs := by
  intro hAll
  have hBytes : (List.replicate 70000 (0 : UInt8)).length = 70000 := List.length_replicate
  generalize List.replicate 70000 (0 : UInt8) = bytes at hBytes
  have hTable := uniformTable_wide bytes 32766
  have hFits : tableFits .binary ([wideElement bytes 32766].map WindowedValue.value) := by
    refine ⟨Nat.zero_le _, ?_⟩
    show bytes.length + 0 ≤ offsetMax
    rw [hBytes]
    decide
  obtain ⟨⟨batch, schema⟩, hBuilt⟩ := (hTable.buildWindowedBatch_iff "pc").mpr
    ⟨hFits, windowsFit_wide bytes 32766 (by decide)⟩
  obtain ⟨dataType, hReads, hStored⟩ := windowedValuesFromBatch_eq_ok hBuilt
  have hSchema := buildWindowedBatch_schema hBuilt (hTable.deriveTableSchema_eq "pc")
  obtain ⟨first, rest, _, _, _, _, _, hRecords, -, -, rfl, -⟩ := buildWindowedBatch_holds hBuilt
  cases hRecords
  obtain ⟨⟨columns, hHolds⟩, hFresh⟩ := buildWindowedBatch_elements hBuilt rfl hStored
  have hElements : [wideElement bytes 32766].map (fun value =>
      ({ value with value := clipRecord dataType value.value } : WindowedValue)) =
      [wideElement bytes 32766] := by
    obtain ⟨record, hRecord, hType⟩ := hReads.source
    rw [List.mem_singleton.mp hRecord] at hType
    cases hType
    rfl
  rw [hElements] at hHolds
  obtain ⟨extended, hAdd⟩ := hHolds.groups_added (by show 2 + 0 ≤ offsetMax; decide)
  obtain ⟨outs, hOk⟩ := hAll hBuilt rfl hAdd
  have hGroups := hHolds.groups hFresh hAdd
  have hFit := hGroups.fits hOk valueColumn (by simp) _ hGroups.values
  rw [extraRows_wide] at hFit
  obtain ⟨field, hField, hColumn⟩ := hHolds.sound.columnByName hHolds.values
  have hType : columns.values.dataType = .binary := by
    have hSame : batch.schema = _ := hSchema
    rw [hSame] at hField
    cases hField
    exact hColumn.type
  have hRow := hHolds.reads 0 _ rfl
  obtain ⟨key, -, hRest⟩ := bind_eq_ok hRow
  obtain ⟨value, hValue, hPure⟩ := bind_eq_ok hRest
  cases hPure
  cases hValues : columns.values with
  | list => rw [hValues] at hType; cases hType
  | struct => rw [hValues] at hType; cases hType
  | leaf type cells =>
      rw [hValues] at hType hValue hFit
      cases hType
      rw [ArrayRef.Fits, List.map_replicate, List.sum_replicate, cell_of_read hValue] at hFit
      have hSum : 32766 * bytes.length ≤ offsetMax := hFit
      rw [hBytes] at hSum
      exact absurd hSum (by decide)

end FlareDB
