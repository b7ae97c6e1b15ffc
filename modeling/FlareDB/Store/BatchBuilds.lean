import FlareDB.Store.NestedColumns

/-! When a batch of windowed values can be built, and the schema it then has.
Columns that fit their fields pass every check up to the Boolean surrogate. -/
namespace FlareDB

open Arrow Results

/-! Columns without `Null` pass the surrogate unchanged. -/

/-- A field without a void is left as it is. -/
theorem materializeVoidField_plain {field : Field}
    (hType : materializeVoidType field.dataType = field.dataType) (hNull : field.dataType ≠ .null) :
    materializeVoidField field = field := by
  obtain ⟨name, dataType, nullable⟩ := field
  have hFlag : (dataType == DataType.null) = false := by simpa using hNull
  have hSame : materializeVoidType dataType = dataType := hType
  rw [materializeVoidField, hSame, hFlag, Bool.or_false]

theorem materializeVoidChildren_plain {fields : List Field} {children : List ArrayRef}
    (h : List.Forall₂ (fun (field : Field) child =>
      materializeVoidArray child field.dataType = .ok child) fields children) :
    materializeVoidChildren children fields = .ok children := by
  induction h with
  | nil => rfl
  | cons hHead _ ih =>
      rw [materializeVoidChildren, hHead, ih]
      rfl

theorem materializeVoidType_leaf {type : LeafType} (h : type ≠ .null) :
    materializeVoidType (.leaf type) = .leaf type := by
  cases type <;> first
    | rfl
    | exact absurd rfl h

theorem materializeVoidArray_leaf {type : LeafType} (h : type ≠ .null) (array : ArrayRef) :
    materializeVoidArray array (.leaf type) = .ok array := by
  cases type <;> first
    | rfl
    | exact absurd rfl h

/-- A scalar field needs no surrogate. -/
theorem ScalarField.plain {field : Field} (h : ScalarField field) :
    materializeVoidField field = field ∧
      ∀ array, materializeVoidArray array field.dataType = .ok array := by
  obtain ⟨type, hType, -, hNull⟩ := h.scalar
  refine ⟨materializeVoidField_plain ?_ ?_, fun array => ?_⟩
  · rw [hType, materializeVoidType_leaf hNull]
  · rw [hType]
    intro hEq
    exact hNull (DataType.leaf.inj hEq)
  · rw [hType, materializeVoidArray_leaf hNull]

theorem materializeVoidFields_scalars {fields : List Field}
    (h : ∀ field ∈ fields, ScalarField field) : materializeVoidFields fields = fields := by
  rw [materializeVoidFields_eq_map]
  exact (List.map_congr_left fun field hMem => (h field hMem).plain.1).trans (List.map_id fields)

/-- Nor does a type that nested values can have. -/
theorem NestedType.plain {dataType : DataType} (h : NestedType dataType)
    (hNull : dataType ≠ .null) : materializeVoidType dataType = dataType := by
  induction h with
  | @leaf type _ => exact materializeVoidType_leaf fun hEq => hNull (by rw [hEq])
  | @list dataType _ hItem ih =>
      rw [materializeVoidType]
      exact congrArg _ (materializeVoidField_plain (ih hItem) hItem)
  | @kv first second _ hFirst _ _ hSecond ih =>
      rw [materializeVoidType, materializeVoidFields_eq_map, List.map_cons, List.map_cons,
        List.map_nil, hFirst.plain.1, materializeVoidField_plain (ih hSecond) hSecond]
  | @tuple fields _ hFields =>
      rw [materializeVoidType, materializeVoidFields_scalars hFields]

/-- Nor a column of such values. -/
theorem nestedValuesToArray_plain {dataType : DataType} (hType : NestedType dataType)
    (hNull : dataType ≠ .null) {records : List BeamRecord} {array : ArrayRef}
    (h : nestedValuesToArray records dataType = .ok array) :
    materializeVoidArray array dataType = .ok array := by
  induction hType generalizing records array with
  | @leaf type _ => exact materializeVoidArray_leaf (fun hEq => hNull (by rw [hEq])) array
  | @list dataType hNested hItem ih =>
      obtain ⟨iterables, -, hArray⟩ := bind_eq_ok h
      obtain ⟨buffer, -, hRest⟩ := bind_eq_ok hArray
      obtain ⟨child, hChild, hNew⟩ := bind_eq_ok hRest
      have hShape := (ArrayRef.newList_eq_ok (mapError_eq_ok hNew)).1
      rw [hShape, materializeVoidArray, ← hShape]
      have hField : materializeVoidField (itemField dataType) = itemField dataType :=
        materializeVoidField_plain (hNested.plain hItem) hItem
      have hSame : materializeVoidArray child (itemField dataType).dataType = .ok child :=
        ih hItem hChild
      rw [hSame, hField]
      exact hNew
  | @kv first second hKv hFirst _ hNested hSecond ih =>
      rw [nestedValuesToArray, if_pos hKv] at h
      obtain ⟨pairs, -, hRest⟩ := bind_eq_ok h
      obtain ⟨keys, hKeys, hRest⟩ := bind_eq_ok hRest
      obtain ⟨values, hValues, hNew⟩ := bind_eq_ok hRest
      have hShape := (ArrayRef.tryNewStruct_eq_ok (mapError_eq_ok hNew)).1
      have hFields : materializeVoidFields [first, second] = [first, second] := by
        rw [materializeVoidFields_eq_map, List.map_cons, List.map_cons, List.map_nil,
          hFirst.plain.1, materializeVoidField_plain (hNested.plain hSecond) hSecond]
      rw [hShape, materializeVoidArray, ← hShape, hFields,
        materializeVoidChildren_plain (.cons (hFirst.plain.2 keys) (.cons (ih hSecond hValues) .nil))]
      exact hNew
  | @tuple fields hTuple hFields =>
      rw [nestedValuesToArray_tuple hTuple] at h
      obtain ⟨children, hChildren, hNew⟩ := bind_eq_ok h
      obtain ⟨hShape, hFits⟩ := ArrayRef.tryNewStruct_eq_ok (mapError_eq_ok hNew)
      rw [hShape, materializeVoidArray, ← hShape, materializeVoidFields_scalars hFields,
        materializeVoidChildren_plain (forall₂_imp_mem
          (fun field hMem child _ => (hFields field hMem).plain.2 child) hFits)]
      exact hNew

/-! Columns that fit their fields. -/

/-- A column of `rows` rows has its field's type and no null that the field does
not allow, and it is a column of `Null` or one that holds none. -/
structure Placed (rows : Nat) (field : Field) (column : ArrayRef) : Prop where
  type : column.dataType = field.dataType
  length : column.len = rows
  nulls : field.nullable = true ∨ column.hasNull = false
  surrogate : field.dataType = .null ∨ materializeVoidType field.dataType = field.dataType ∧
    materializeVoidArray column field.dataType = .ok column

theorem hasNull_of_unmasked {array : ArrayRef} (h : ∀ row, array.isNull row = false) :
    array.hasNull = false := by
  simp [ArrayRef.hasNull, h]

/-- Columns that stand under their fields make a batch. -/
theorem tryNew_placed {rows : Nat} {schema : List Field} {columns : List ArrayRef}
    (hSchema : schema ≠ []) (h : List.Forall₂ (Placed rows) schema columns) :
    ∃ batch, RecordBatch.tryNew schema columns = .ok batch ∧ batch.numRows = rows := by
  have hAll := h
  cases h with
  | nil => exact absurd rfl hSchema
  | @cons field first schema columns hHead hTail =>
      have hTypes : (first :: columns).map ArrayRef.dataType =
          (field :: schema).map FieldOf.dataType :=
        (forall₂_map_eq (fun _ _ hPlaced => hPlaced.type.symm) hAll).symm
      have hLens : ∀ column ∈ first :: columns, column.len = first.len := by
        intro column hMem
        obtain ⟨_, -, hPlaced⟩ := forall₂_right hAll hMem
        rw [hPlaced.length, hHead.length]
      have hNulls : (List.zipWith (fun (field : Field) column => field.nullable || !column.hasNull)
          (field :: schema) (first :: columns)).all id = true := by
        rw [← List.map_uncurry_zip_eq_zipWith, List.all_map, List.all_eq_true]
        rintro ⟨other, column⟩ hMem
        have hPlaced := (List.forall₂_iff_zip.mp hAll).2 hMem
        rcases hPlaced.nulls with hNullable | hNone
        · simp [hNullable]
        · simp [hNone]
      rw [RecordBatch.tryNew, dif_pos ⟨hTypes, hLens⟩, if_pos hNulls]
      exact ⟨_, rfl, hHead.length⟩

/-- The surrogate of a placed column is placed in the surrogate of its field. -/
theorem Placed.materialize {rows : Nat} {field : Field} {column : ArrayRef}
    (h : Placed rows field column) :
    ∃ newColumn, materializeVoidArray column field.dataType = .ok newColumn ∧
      Placed rows (materializeVoidField field) newColumn := by
  rcases h.surrogate with hNull | ⟨hType, hArray⟩
  · refine ⟨.leaf .boolean (List.replicate column.len none), by rw [hNull]; rfl, ?_⟩
    obtain ⟨name, dataType, nullable⟩ := field
    cases hNull
    refine ⟨rfl, ?_, .inl ?_, .inr ⟨rfl, rfl⟩⟩
    · rw [ArrayRef.len_leaf, List.length_replicate, h.length]
    · simp [materializeVoidField]
  · by_cases hNull : field.dataType = .null
    · rw [hNull] at hType
      cases hType
    · rw [materializeVoidField_plain hType hNull]
      exact ⟨column, hArray, h⟩

/-- Placed columns stay placed under their surrogates. -/
theorem materializeVoidChildren_placed {rows : Nat} {schema : List Field}
    {columns : List ArrayRef} (h : List.Forall₂ (Placed rows) schema columns) :
    ∃ newColumns, materializeVoidChildren columns schema = .ok newColumns ∧
      List.Forall₂ (Placed rows) (materializeVoidSchema schema) newColumns := by
  rw [materializeVoidSchema]
  induction h with
  | nil => exact ⟨[], rfl, .nil⟩
  | cons hHead _ ih =>
      obtain ⟨first, hFirst, hPlaced⟩ := hHead.materialize
      obtain ⟨rest, hRest, hAll⟩ := ih
      refine ⟨first :: rest, ?_, .cons hPlaced hAll⟩
      rw [materializeVoidChildren, hFirst, hRest]
      rfl

/-- So a batch of them can be materialized. -/
theorem materializeVoidColumns_placed {rows : Nat} {batch : RecordBatch}
    (hSchema : batch.schema ≠ []) (h : List.Forall₂ (Placed rows) batch.schema batch.columns) :
    ∃ newBatch, materializeVoidColumns batch = .ok newBatch ∧
      newBatch.schema = materializeVoidSchema batch.schema := by
  simp only [materializeVoidColumns]
  split
  · next hSame => exact ⟨batch, rfl, hSame.symm⟩
  · obtain ⟨newColumns, hColumns, hPlaced⟩ := materializeVoidChildren_placed h
    obtain ⟨newBatch, hTry, -⟩ := tryNew_placed (by simpa [materializeVoidSchema] using hSchema)
      hPlaced
    refine ⟨newBatch, ?_, (RecordBatch.tryNew_eq_ok hTry).1⟩
    rw [hColumns]
    show (RecordBatch.tryNew _ newColumns).mapError RecordError.arrow = _
    rw [hTry]
    rfl

/-! Metadata columns. -/

def keysOf (entry : WindowMetadata) : List (List UInt8) :=
  entry.windows.map BeamWindow.toBinaryKey

/-- The windows of the rows can be recorded: their number in 16 bits, the length
of a window coder's id in 32, and the keys in buffers with 32-bit offsets. -/
structure WindowsFit (metadata : List WindowMetadata) : Prop where
  counts : ∀ entry ∈ metadata, entry.windows.length ≤ i16Max
  coderIds : ∀ entry ∈ metadata, ∀ window ∈ entry.windows, window.CoderIdFits
  first : (metadata.map fun entry => ((keysOf entry).head?.map List.length).getD 0).sum ≤ offsetMax
  extra : listsFit (metadata.map fun entry => (keysOf entry).tail)
  extraBytes : ((metadata.map fun entry => (keysOf entry).tail).flatten.map List.length).sum ≤
    offsetMax

/-- Windows have keys exactly when there are few enough and their ids fit. -/
theorem windowKeys_succeeds_iff {windows : List BeamWindow} :
    Succeeds (windowKeys windows) ↔
      windows.length ≤ i16Max ∧ ∀ window ∈ windows, window.CoderIdFits := by
  have hKeys : Succeeds (windows.mapM binaryKey) ↔ ∀ window ∈ windows, window.CoderIdFits := by
    rw [succeeds_mapM_iff]
    exact forall₂_congr fun window _ => succeeds_ite_iff
  rw [windowKeys]
  split
  · next hCount => exact iff_of_false (not_succeeds_error _) fun h => absurd h.1 (by omega)
  · next hCount =>
      rw [succeeds_bind_iff, ← hKeys]
      constructor
      · rintro ⟨keys, hOk, -⟩
        exact ⟨Nat.le_of_not_lt hCount, keys, hOk⟩
      · rintro ⟨-, keys, hOk⟩
        exact ⟨keys, hOk, succeeds_ok _⟩

theorem windowKeys_keys {entry : WindowMetadata} {keys : WindowKeys}
    (h : windowKeys entry.windows = .ok keys) :
    keys.first = (keysOf entry).head? ∧ keys.extra = (keysOf entry).tail := by
  rw [windowKeys] at h
  split at h
  · cases h
  · obtain ⟨found, hFound, hPure⟩ := bind_eq_ok h
    have hMap : entry.windows.map BeamWindow.toBinaryKey = found.map id := by
      refine forall₂_map_eq (fun window key hKey => ?_) (mapM_eq_ok_iff.mp hFound)
      rw [binaryKey] at hKey
      split at hKey
      · exact Except.ok.inj hKey
      · cases hKey
    have hSame : found = keysOf entry := by rw [keysOf, hMap, List.map_id]
    cases hPure
    rw [hSame]
    exact ⟨rfl, rfl⟩

/-- A binary column is built exactly when its bytes fit. -/
theorem ofCells_binary_succeeds_iff (cells : List (Option (List UInt8))) :
    Succeeds (ArrayRef.ofCells .binary cells) ↔
      (cells.map fun cell => (cell.map List.length).getD 0).sum ≤ offsetMax :=
  succeeds_ite_iff

/-- The list of further keys is built exactly when counts and bytes fit. -/
theorem extraKeysArray_succeeds_iff (extra : List (List (List UInt8))) :
    Succeeds (extraKeysArray extra) ↔
      listsFit extra ∧ (extra.flatten.map List.length).sum ≤ offsetMax := by
  have hCells := ofCells_binary_succeeds_iff (extra.flatten.map some)
  have hBytes : ((extra.flatten.map some).map fun cell : Option (List UInt8) =>
      (cell.map List.length).getD 0) = extra.flatten.map List.length := by
    rw [List.map_map]
    rfl
  rw [hBytes] at hCells
  rw [extraKeysArray, succeeds_bind_iff, listsFit, ← buildOffsets_succeeds_iff, ← hCells]
  constructor
  · rintro ⟨offsets, hOffsets, hRest⟩
    obtain ⟨child, hChild, -⟩ := succeeds_bind_iff.mp hRest
    exact ⟨⟨offsets, mapError_eq_ok hOffsets⟩, child, mapError_eq_ok hChild⟩
  · rintro ⟨⟨offsets, hOffsets⟩, child, hChild⟩
    refine ⟨offsets, by rw [hOffsets]; rfl, ?_⟩
    refine succeeds_bind_iff.mpr ⟨child, congrArg (Except.mapError RecordError.arrow) hChild, ?_⟩
    have hLeaf := ArrayRef.ofCells_eq_ok hChild
    refine succeeds_mapError_iff.mpr (newList_succeeds (buildOffsets_eq_ok hOffsets) ?_ ?_ (.inl rfl))
    · rw [hLeaf, ← List.length_flatten]
      exact List.length_map ..
    · rw [hLeaf]
      rfl

/-- The window columns are built exactly when the windows fit. -/
theorem windowColumns_succeeds_iff {metadata : List WindowMetadata} :
    Succeeds (windowColumns metadata) ↔ WindowsFit metadata := by
  have hKeys : ∀ keys, metadata.mapM (fun entry => windowKeys entry.windows) = .ok keys →
      keys.map WindowKeys.first = metadata.map (fun entry => (keysOf entry).head?) ∧
        keys.map WindowKeys.extra = metadata.map (fun entry => (keysOf entry).tail) := by
    intro keys hOk
    constructor
    · refine (forall₂_map_eq (fun entry key hEntry => ?_) (mapM_eq_ok_iff.mp hOk)).symm
      exact (windowKeys_keys hEntry).1.symm
    · refine (forall₂_map_eq (fun entry key hEntry => ?_) (mapM_eq_ok_iff.mp hOk)).symm
      exact (windowKeys_keys hEntry).2.symm
  have hFirst : ∀ keys, metadata.mapM (fun entry => windowKeys entry.windows) = .ok keys →
      (Succeeds (ArrayRef.ofCells .binary (keys.map WindowKeys.first)) ↔
        (metadata.map fun entry => ((keysOf entry).head?.map List.length).getD 0).sum ≤
          offsetMax) := by
    intro keys hOk
    refine (ofCells_binary_succeeds_iff (keys.map WindowKeys.first)).trans ?_
    rw [(hKeys keys hOk).1, List.map_map]
    rfl
  rw [windowColumns, succeeds_bind_iff]
  constructor
  · rintro ⟨keys, hOk, hRest⟩
    obtain ⟨first, hFirstOk, hRest⟩ := succeeds_bind_iff.mp hRest
    obtain ⟨extra, hExtraOk, -⟩ := succeeds_bind_iff.mp hRest
    have hEach := succeeds_mapM_iff.mp ⟨keys, hOk⟩
    have hExtra := (extraKeysArray_succeeds_iff _).mp ⟨extra, hExtraOk⟩
    rw [(hKeys keys hOk).2] at hExtra
    exact ⟨fun entry hMem => (windowKeys_succeeds_iff.mp (hEach entry hMem)).1,
      fun entry hMem => (windowKeys_succeeds_iff.mp (hEach entry hMem)).2,
      (hFirst keys hOk).mp ⟨first, mapError_eq_ok hFirstOk⟩, hExtra.1, hExtra.2⟩
  · intro hFits
    have hEach : Succeeds (metadata.mapM fun entry => windowKeys entry.windows) :=
      succeeds_mapM_iff.mpr fun entry hMem =>
        windowKeys_succeeds_iff.mpr ⟨hFits.counts entry hMem, hFits.coderIds entry hMem⟩
    obtain ⟨keys, hOk⟩ := hEach
    obtain ⟨first, hFirstOk⟩ := (hFirst keys hOk).mpr hFits.first
    have hExtra := (extraKeysArray_succeeds_iff _).mpr ⟨hFits.extra, hFits.extraBytes⟩
    rw [← (hKeys keys hOk).2] at hExtra
    obtain ⟨extra, hExtraOk⟩ := hExtra
    refine ⟨keys, hOk, succeeds_bind_iff.mpr ⟨first, ?_, ?_⟩⟩
    · exact congrArg (Except.mapError RecordError.arrow) hFirstOk
    · exact succeeds_bind_iff.mpr ⟨extra, hExtraOk, succeeds_ok _⟩

/-- A leaf column stands under its field. -/
theorem placed_leaf {name : String} {type : LeafType} {nullable : Bool}
    {cells : List (Option type.Cell)} (hType : type ≠ .null)
    (hNulls : nullable = true ∨ ∀ cell ∈ cells, cell ≠ none) :
    Placed cells.length ⟨name, .leaf type, nullable⟩ (.leaf type cells) where
  type := rfl
  length := rfl
  nulls := hNulls.imp_right fun hCells => hasNull_of_unmasked fun row => by
    simp only [ArrayRef.isNull]
    cases hCell : cells[row]? with
    | none => rfl
    | some cell =>
        cases cell with
        | some _ => rfl
        | none => exact absurd rfl (hCells none (List.mem_of_getElem? hCell))
  surrogate := .inr ⟨materializeVoidType_leaf hType, materializeVoidArray_leaf hType _⟩

/-- So does the list of further keys. -/
theorem placed_keyLists {lists : List (List (List UInt8))} {offsets : OffsetBuffer}
    (hOffsets : offsets.offsets = (lists.map List.length).scanl (· + ·) 0) :
    Placed lists.length ⟨windowExtraKeysColumn, .list ⟨"item", .binary, true⟩, false⟩
      (.list ⟨"item", .binary, true⟩ offsets (.leaf .binary (lists.flatten.map some)) none) where
  type := rfl
  length := by
    show offsets.offsets.length - 1 = _
    rw [hOffsets, List.length_scanl, List.length_map, Nat.add_sub_cancel]
  nulls := .inr (hasNull_of_unmasked fun _ => rfl)
  surrogate := by
    have hLen : (ArrayRef.leaf .binary (lists.flatten.map some)).len = (lists.map List.length).sum :=
      (List.length_map ..).trans List.length_flatten
    have hNew : Succeeds (ArrayRef.newList ⟨"item", .binary, true⟩ offsets
        (.leaf .binary (lists.flatten.map some)) none) := newList_succeeds hOffsets hLen rfl (.inl rfl)
    obtain ⟨array, hArray⟩ := hNew
    refine .inr ⟨rfl, ?_⟩
    rw [(ArrayRef.newList_eq_ok hArray).1] at hArray
    exact congrArg (Except.mapError RecordError.arrow) hArray

/-- A leaf column with one cell for each row. -/
theorem placed_rows {α : Type} {name : String} {type : LeafType} {nullable : Bool} {rows : List α}
    (read : α → Option type.Cell) {count : Nat} (hCount : rows.length = count)
    (hType : type ≠ .null) (hNulls : nullable = true ∨ ∀ row, read row ≠ none) :
    Placed count ⟨name, .leaf type, nullable⟩ (.leaf type (rows.map read)) := by
  have hPlaced : Placed (rows.map read).length ⟨name, .leaf type, nullable⟩
      (.leaf type (rows.map read)) := by
    refine placed_leaf hType (hNulls.imp_right fun hRead cell hMem => ?_)
    obtain ⟨row, -, rfl⟩ := List.mem_map.mp hMem
    exact hRead row
  rw [List.length_map, hCount] at hPlaced
  exact hPlaced

/-- So do all the window columns. -/
theorem windowColumns_placed {metadata : List WindowMetadata} {columns : List ArrayRef}
    (h : windowColumns metadata = .ok columns) :
    List.Forall₂ (Placed metadata.length) windowFields columns := by
  obtain ⟨keys, offsets, hKeys, hOffsets, rfl⟩ := windowColumns_eq_ok h
  have hLists := placed_keyLists hOffsets
  rw [List.length_map, ← hKeys.length_eq] at hLists
  exact .cons (placed_rows _ rfl (by decide) (.inr fun _ => Option.some_ne_none _))
    (.cons (placed_rows _ rfl (by decide) (.inl rfl))
    (.cons (placed_rows _ rfl (by decide) (.inr fun _ => Option.some_ne_none _))
    (.cons (placed_rows _ rfl (by decide) (.inr fun _ => Option.some_ne_none _))
    (.cons (placed_rows _ rfl (by decide) (.inr fun _ => Option.some_ne_none _))
    (.cons (placed_rows _ rfl (by decide) (.inr fun _ => Option.some_ne_none _))
    (.cons (placed_rows _ rfl (by decide) (.inr fun _ => Option.some_ne_none _))
    (.cons (placed_rows _ hKeys.length_eq.symm (by decide) (.inl rfl))
    (.cons hLists
    (.cons (placed_rows _ hKeys.length_eq.symm (by decide) (.inr fun _ => Option.some_ne_none _))
      .nil)))))))))

/-! The whole batch. -/

theorem materializeVoidColumns_schema {batch newBatch : RecordBatch}
    (h : materializeVoidColumns batch = .ok newBatch) :
    newBatch.schema = materializeVoidSchema batch.schema := by
  simp only [materializeVoidColumns] at h
  split at h
  · next hSame =>
      cases h
      exact hSame.symm
  · obtain ⟨newColumns, -, hTry⟩ := bind_eq_ok h
    exact (RecordBatch.tryNew_eq_ok (mapError_eq_ok hTry)).1

/-- The schema of a batch that was built is the one of its records, with the
surrogates, followed by the metadata. -/
theorem buildWindowedBatch_schema {pcollectionId : String} {values : List WindowedValue}
    {batch : RecordBatch} {schema derived : RecordTableSchema}
    (h : buildWindowedBatch pcollectionId values = .ok (batch, schema))
    (hDerive : deriveTableSchema pcollectionId (values.map WindowedValue.value) = .ok derived) :
    schema.arrowSchema = materializeVoidSchema derived.arrowSchema ++ windowFields := by
  obtain ⟨base, hBase, hRest⟩ := bind_eq_ok h
  cases hDerive.symm.trans hBase
  obtain ⟨baseBatch, hBaseBatch, hRest⟩ := bind_eq_ok hRest
  obtain ⟨appended, hAppend, hRest⟩ := bind_eq_ok hRest
  obtain ⟨newBatch, hNew, hPure⟩ := bind_eq_ok hRest
  cases hPure
  have hBaseSchema : baseBatch.schema = derived.arrowSchema := by
    rw [beamrecordsToRecordBatch] at hBaseBatch
    split at hBaseBatch
    · cases hBaseBatch
    · obtain ⟨columns, -, hTry⟩ := bind_eq_ok hBaseBatch
      exact (RecordBatch.tryNew_eq_ok (mapError_eq_ok hTry)).1
  have hAppended : appended.schema = derived.arrowSchema ++ windowFields := by
    rw [appendWindowMetadata] at hAppend
    split at hAppend
    · cases hAppend
    · obtain ⟨columns, -, hTry⟩ := bind_eq_ok hAppend
      rw [(RecordBatch.tryNew_eq_ok (mapError_eq_ok hTry)).1, hBaseSchema]
  rw [materializeVoidColumns_schema hNew, hAppended, materializeVoidSchema, List.map_append]
  exact congrArg _ materializeVoidSchema_windowFields

/-- A batch whose payload columns are always placed is built exactly when they
can be built and its windows can be recorded. -/
theorem buildWindowedBatch_succeeds_iff {pcollectionId : String} {values : List WindowedValue}
    {derived : RecordTableSchema}
    (hDerive : deriveTableSchema pcollectionId (values.map WindowedValue.value) = .ok derived)
    (hSchema : derived.arrowSchema ≠ [])
    (hPlaced : ∀ columns, recordColumns (values.map WindowedValue.value) derived = .ok columns →
      List.Forall₂ (Placed values.length) derived.arrowSchema columns) :
    Succeeds (buildWindowedBatch pcollectionId values) ↔
      Succeeds (recordColumns (values.map WindowedValue.value) derived) ∧
        WindowsFit (values.map WindowMetadata.ofValue) := by
  have hNonempty : (values.map WindowedValue.value).isEmpty = false := by
    cases values with
    | nil => cases hDerive
    | cons value values => rfl
  rw [← windowColumns_succeeds_iff, buildWindowedBatch, hDerive]
  constructor
  · intro h
    obtain ⟨_, hSame, h⟩ := succeeds_bind_iff.mp h
    cases hSame
    obtain ⟨baseBatch, hBase, h⟩ := succeeds_bind_iff.mp h
    obtain ⟨appended, hAppend, -⟩ := succeeds_bind_iff.mp h
    constructor
    · rw [beamrecordsToRecordBatch, hNonempty, if_neg Bool.false_ne_true] at hBase
      obtain ⟨columns, hColumns, -⟩ := bind_eq_ok hBase
      exact ⟨columns, hColumns⟩
    · rw [appendWindowMetadata] at hAppend
      split at hAppend
      · cases hAppend
      · obtain ⟨columns, hColumns, -⟩ := bind_eq_ok hAppend
        exact ⟨columns, hColumns⟩
  · rintro ⟨⟨columns, hColumns⟩, windows, hWindows⟩
    have hBasePlaced := hPlaced columns hColumns
    obtain ⟨baseBatch, hBase, hRows⟩ := tryNew_placed hSchema hBasePlaced
    obtain ⟨hBaseSchema, hBaseColumns⟩ := RecordBatch.tryNew_eq_ok hBase
    have hWindowsPlaced := windowColumns_placed hWindows
    rw [List.length_map] at hWindowsPlaced
    have hAllPlaced := List.rel_append hBasePlaced hWindowsPlaced
    obtain ⟨appended, hAppended, -⟩ := tryNew_placed (List.append_ne_nil_of_left_ne_nil hSchema _)
      hAllPlaced
    obtain ⟨hSchemaAll, hColumnsAll⟩ := RecordBatch.tryNew_eq_ok hAppended
    obtain ⟨newBatch, hNew, -⟩ := @materializeVoidColumns_placed values.length appended
      (by rw [hSchemaAll]; exact List.append_ne_nil_of_left_ne_nil hSchema _)
      (by rw [hSchemaAll, hColumnsAll]; exact hAllPlaced)
    refine succeeds_bind_iff.mpr ⟨_, rfl, succeeds_bind_iff.mpr ⟨baseBatch, ?_, ?_⟩⟩
    · rw [beamrecordsToRecordBatch, hNonempty, if_neg Bool.false_ne_true, hColumns]
      exact congrArg (Except.mapError RecordError.arrow) hBase
    refine succeeds_bind_iff.mpr ⟨appended, ?_, succeeds_bind_iff.mpr ⟨newBatch, hNew, succeeds_ok _⟩⟩
    rw [appendWindowMetadata, if_neg (by rw [hRows, List.length_map]; exact not_not_intro rfl),
      hWindows, hBaseSchema, hBaseColumns]
    exact congrArg (Except.mapError RecordError.arrow) hAppended

end FlareDB
