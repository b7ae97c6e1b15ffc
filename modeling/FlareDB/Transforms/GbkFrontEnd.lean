import FlareDB.Transforms.GbkExplosion

/-! The front end of a run. The batches that a scan yields for a bucket are
given their group keys, exploded into their windows, sorted outside, and decoded
into key groups. -/
namespace FlareDB

open Arrow Results

/-- The transient columns that a batch is sorted by: see `OneShotPaimonPartition`. -/
def explodeBatch (batch : RecordBatch) : Except WindowBatchError (List RecordBatch) := do
  let extended ← addEncodedKeyColumn batch
  flattenWindowBatch extended

inductive GroupingError where
  | window (reason : WindowBatchError)
  | sort (message : String)
  | decode (reason : GroupDecodeError)

section FrontEnd

variable (sort : List RecordBatch → Except String (List RecordBatch))
  (tableSchema : RecordTableSchema)

/-- The key groups of one bucket. -/
def bucketGroups (batches : List RecordBatch) : Except GroupingError (List DecodedKeyGroup) := do
  let exploded ← (batches.mapM explodeBatch).mapError .window
  let sorted ← (sort exploded.flatten).mapError .sort
  (SortedGroupDecoder.pushArrowBatches tableSchema none sorted).mapError .decode

/-- The key groups of a run, bucket by bucket. -/
def inputGroups (buckets : List (List RecordBatch)) :
    Except GroupingError (List DecodedKeyGroup) := do
  let groups ← buckets.mapM (bucketGroups sort tableSchema)
  pure groups.flatten

/-- A sort by group key and window key, both ascending as bytes: whatever it
yields holds the rows of its input in order, however it cuts them. -/
def SortsRows : Prop :=
  ∀ batches chunks sorted, List.Forall₂ (HoldsRows tableSchema) batches chunks →
    sort batches = .ok sorted → ∃ rows, rows.Perm chunks.flatten ∧
      (rows.Pairwise fun first second => first.atMost second = true) ∧
        CutFrom tableSchema rows sorted

end FrontEnd

/-- A batch of the input and its elements. Their windows were written by the
store, and the column of group keys is not there yet. -/
structure ScannedBatch where
  batch : RecordBatch
  elements : List WindowedValue
  holds : ∃ columns, HoldsElements batch elements columns
  fresh : ∀ field ∈ batch.schema, field.name ≠ groupKeyColumn
  coderIds : ∀ element ∈ elements, ∀ window ∈ element.windows, window.CoderIdFits

namespace ScannedBatch

def rows (scanned : ScannedBatch) : List GbkRow :=
  scanned.elements.flatMap WindowedValue.gbkRows

/-- The payload of the rows for the extra windows can be addressed. -/
def ExtraFits (scanned : ScannedBatch) : Prop :=
  ∃ extended, addEncodedKeyColumn scanned.batch = .ok extended ∧
    ExtraRowsFit extended scanned.elements

/-- What the store reads back from a batch that it built is there, piece by piece. -/
theorem of_built {pcollectionId : String} {values stored : List WindowedValue}
    {batch : RecordBatch} {schema : RecordTableSchema}
    (hBuilt : buildWindowedBatch pcollectionId values = .ok (batch, schema))
    (hKv : schema.tableType = .kv) (hStored : windowedValuesFromBatch batch schema = .ok stored)
    {offset length : Nat} (hSlice : offset + length ≤ batch.numRows) :
    ∃ scanned : ScannedBatch, scanned.batch = batch.slice offset length hSlice ∧
      scanned.elements = (stored.drop offset).take length := by
  obtain ⟨⟨columns, hHolds⟩, hFresh⟩ := buildWindowedBatch_elements hBuilt hKv hStored
  refine ⟨⟨batch.slice offset length hSlice, _, ⟨_, hHolds.slice hSlice⟩, hFresh, ?_⟩, rfl, rfl⟩
  intro element hElement
  have hMem := List.mem_of_mem_drop (List.mem_of_mem_take hElement)
  obtain ⟨dataType, -, hClipped⟩ := windowedValuesFromBatch_eq_ok hBuilt
  cases hStored.symm.trans hClipped
  obtain ⟨value, hValue, rfl⟩ := List.mem_map.mp hMem
  obtain ⟨_, _, _, _, keys, _, _, -, -, -, rfl, hBatch⟩ := buildWindowedBatch_holds hBuilt
  obtain ⟨key, -, hEntry⟩ := forall₂_left hBatch.written (List.mem_map_of_mem hValue)
  exact (windowKeys_succeeds_iff.mp ⟨key, hEntry⟩).2

theorem window_fits {scanned : ScannedBatch} {row : GbkRow} (hRow : row ∈ scanned.rows) :
    row.window.CoderIdFits := by
  obtain ⟨element, hElement, hMem⟩ := List.mem_flatMap.mp hRow
  rw [WindowedValue.gbkRows] at hMem
  split at hMem
  · obtain ⟨window, hWindow, rfl⟩ := List.mem_map.mp hMem
    exact scanned.coderIds element hElement window hWindow
  · cases hMem

variable {tableSchema : RecordTableSchema}

/-- A batch explodes exactly when its extra rows fit, and then into its rows. -/
theorem explode_iff (scanned : ScannedBatch) (hKv : tableSchema.tableType = .kv) :
    (scanned.ExtraFits → ∃ outs, explodeBatch scanned.batch = .ok outs) ∧
      ∀ outs, explodeBatch scanned.batch = .ok outs → scanned.ExtraFits ∧
        ∃ chunks, List.Forall₂ (HoldsRows tableSchema) outs chunks ∧
          chunks.flatten.Perm scanned.rows := by
  obtain ⟨columns, hHolds⟩ := scanned.holds
  constructor
  · rintro ⟨extended, hAdd, hFit⟩
    have hGroups := hHolds.groups scanned.fresh hAdd
    obtain ⟨outs, _, hOuts, _⟩ := hGroups.exploded hKv hFit
    exact ⟨outs, by rw [explodeBatch, hAdd]; exact hOuts⟩
  · intro outs hOuts
    obtain ⟨extended, hAdd, hFlatten⟩ := bind_eq_ok hOuts
    have hGroups := hHolds.groups scanned.fresh hAdd
    have hFit := hGroups.fits hFlatten
    obtain ⟨found, chunks, hFound, hHold, hPerm⟩ := hGroups.exploded hKv hFit
    cases hFlatten.symm.trans hFound
    exact ⟨⟨extended, hAdd, hFit⟩, chunks, hHold, hPerm⟩

/-- The batches of a bucket explode into the rows of the bucket. -/
theorem explode_all {bucket : List ScannedBatch} (hKv : tableSchema.tableType = .kv)
    {outs : List (List RecordBatch)}
    (hOuts : (bucket.map ScannedBatch.batch).mapM explodeBatch = .ok outs) :
    (∀ scanned ∈ bucket, scanned.ExtraFits) ∧
      ∃ chunks, List.Forall₂ (HoldsRows tableSchema) outs.flatten chunks ∧
        chunks.flatten.Perm (bucket.flatMap ScannedBatch.rows) := by
  have hEach := List.forall₂_map_left_iff.mp (mapM_eq_ok_iff.mp hOuts)
  induction hEach with
  | nil => exact ⟨by simp, [], List.Forall₂.nil, List.Perm.refl _⟩
  | @cons scanned first bucket rest hFirst hRest ih =>
      obtain ⟨hFit, chunks, hHold, hPerm⟩ := (scanned.explode_iff hKv).2 first hFirst
      obtain ⟨hFits, others, hOthers, hOtherPerm⟩ :=
        ih (mapM_eq_ok_iff.mpr (List.forall₂_map_left_iff.mpr hRest))
      refine ⟨List.forall_mem_cons.mpr ⟨hFit, hFits⟩, chunks ++ others, ?_, ?_⟩
      · rw [List.flatten_cons]
        exact List.rel_append hHold hOthers
      · rw [List.flatten_append, List.flatMap_cons]
        exact hPerm.append hOtherPerm

end ScannedBatch

section Buckets

variable {sort : List RecordBatch → Except String (List RecordBatch)}
  {tableSchema : RecordTableSchema}

/-- Whatever a bucket decodes to holds its rows, each key and each window of a
key once. -/
theorem bucketGroups_ok (hSort : SortsRows sort tableSchema) (hKv : tableSchema.tableType = .kv)
    {bucket : List ScannedBatch} {keyGroups : List DecodedKeyGroup}
    (h : bucketGroups sort tableSchema (bucket.map ScannedBatch.batch) = .ok keyGroups) :
    (∀ scanned ∈ bucket, scanned.ExtraFits) ∧ Distinct keyGroups ∧
      (keyGroups.flatMap DecodedKeyGroup.rows).Perm (bucket.flatMap ScannedBatch.rows) := by
  obtain ⟨outs, hOuts, hRest⟩ := bind_eq_ok h
  obtain ⟨sorted, hSorted, hDecoded⟩ := bind_eq_ok hRest
  obtain ⟨hFits, chunks, hHold, hPerm⟩ := ScannedBatch.explode_all hKv (mapError_eq_ok hOuts)
  obtain ⟨rows, hRows, hOrder, ⟨pieces, rfl, hPieces⟩⟩ :=
    hSort outs.flatten chunks sorted hHold (mapError_eq_ok hSorted)
  have hAll := hRows.trans hPerm
  have hWindows : ∀ row ∈ pieces.flatten, row.window.CoderIdFits := by
    intro row hRow
    obtain ⟨scanned, _, hMem⟩ := List.mem_flatMap.mp (hAll.mem_iff.mp hRow)
    exact ScannedBatch.window_fits hMem
  have hRead := SortedGroupDecoder.pushArrowBatches_eq_ok hPieces hWindows none
  cases (mapError_eq_ok hDecoded).symm.trans hRead
  have hDecoding := Decoding.start.foldl pieces.flatten hWindows hOrder
  refine ⟨hFits, hDecoding.distinct, ?_⟩
  rw [hDecoding.rows]
  exact hAll

/-- A bucket whose batches can be exploded and that is sorted is decoded. -/
theorem bucketGroups_succeeds (hSort : SortsRows sort tableSchema)
    (hKv : tableSchema.tableType = .kv) {bucket : List ScannedBatch}
    (hFits : ∀ scanned ∈ bucket, scanned.ExtraFits)
    (hSorts : ∀ outs, (bucket.map ScannedBatch.batch).mapM explodeBatch = .ok outs →
      ∃ sorted, sort outs.flatten = .ok sorted) :
    ∃ keyGroups, bucketGroups sort tableSchema (bucket.map ScannedBatch.batch) = .ok keyGroups := by
  have hExploded : Succeeds ((bucket.map ScannedBatch.batch).mapM explodeBatch) := by
    refine succeeds_mapM_iff.mpr fun batch hBatch => ?_
    obtain ⟨scanned, hScanned, rfl⟩ := List.mem_map.mp hBatch
    exact (scanned.explode_iff hKv).1 (hFits scanned hScanned)
  obtain ⟨outs, hOuts⟩ := hExploded
  obtain ⟨-, chunks, hHold, hPerm⟩ := ScannedBatch.explode_all hKv hOuts
  obtain ⟨sorted, hSorted⟩ := hSorts outs hOuts
  obtain ⟨rows, hRows, -, ⟨pieces, rfl, hPieces⟩⟩ := hSort _ chunks sorted hHold hSorted
  have hWindows : ∀ row ∈ pieces.flatten, row.window.CoderIdFits := by
    intro row hRow
    obtain ⟨scanned, _, hMem⟩ := List.mem_flatMap.mp ((hRows.trans hPerm).mem_iff.mp hRow)
    exact ScannedBatch.window_fits hMem
  have hRead := SortedGroupDecoder.pushArrowBatches_eq_ok hPieces hWindows none
  refine ⟨(pieces.flatten.foldl SortedGroupDecoder.pushRow ⟨none, []⟩).finish, ?_⟩
  simp only [bucketGroups, hOuts, hSorted, hRead, Except.mapError, bind, Except.bind]

theorem Distinct.exists_row {keyGroups : List DecodedKeyGroup} (h : Distinct keyGroups)
    {keyGroup : DecodedKeyGroup} (hGroup : keyGroup ∈ keyGroups) :
    ∃ row ∈ keyGroups.flatMap DecodedKeyGroup.rows, row.key = keyGroup.key := by
  obtain ⟨entry, hEntry⟩ := List.exists_mem_of_ne_nil _ (h.nonempty keyGroup hGroup)
  obtain ⟨row, hRow, hKey, _⟩ := DecodedKeyGroup.mem_rows hEntry
    (h.elements keyGroup hGroup entry hEntry)
  exact ⟨row, List.mem_flatMap.mpr ⟨keyGroup, hGroup, hRow⟩, hKey⟩

/-- Groups of lists of rows that share no key stand side by side. -/
theorem DecodesTo.append {rows others : List GbkRow} {keyGroups otherGroups : List DecodedKeyGroup}
    (hGroups : Distinct keyGroups) (hRows : (keyGroups.flatMap DecodedKeyGroup.rows).Perm rows)
    (hOthers : DecodesTo others otherGroups)
    (hSome : ∀ keyGroup ∈ otherGroups, ∃ row ∈ others, row.key = keyGroup.key)
    (hApart : ∀ row ∈ rows, ∀ other ∈ others, row.key ≠ other.key) :
    DecodesTo (rows ++ others) (keyGroups ++ otherGroups) where
  keys := by
    rw [List.map_append]
    refine List.nodup_append.mpr ⟨hGroups.keys, hOthers.keys, ?_⟩
    intro key hKey other hOther
    obtain ⟨keyGroup, hGroup, rfl⟩ := List.mem_map.mp hKey
    obtain ⟨otherGroup, hOtherGroup, rfl⟩ := List.mem_map.mp hOther
    obtain ⟨row, hRow, hSame⟩ := hGroups.exists_row hGroup
    obtain ⟨found, hFound, hElse⟩ := hSome otherGroup hOtherGroup
    rw [← hSame, ← hElse]
    exact hApart row (hRows.mem_iff.mp hRow) found hFound
  windows keyGroup hGroup := (List.mem_append.mp hGroup).elim (hGroups.windows keyGroup)
    (hOthers.windows keyGroup)
  elements keyGroup hGroup := (List.mem_append.mp hGroup).elim (hGroups.elements keyGroup)
    (hOthers.elements keyGroup)
  rows := by
    rw [List.flatMap_append]
    exact hRows.append hOthers.rows

/-- The rows of a bucket. -/
def bucketRows (bucket : List ScannedBatch) : List GbkRow :=
  bucket.flatMap ScannedBatch.rows

theorem inputGroups_ok (hSort : SortsRows sort tableSchema) (hKv : tableSchema.tableType = .kv)
    {buckets : List (List ScannedBatch)}
    (hApart : buckets.Pairwise fun first second =>
      ∀ row ∈ bucketRows first, ∀ other ∈ bucketRows second, row.key ≠ other.key)
    {groups : List (List DecodedKeyGroup)}
    (h : List.Forall₂ (fun bucket keyGroups =>
      bucketGroups sort tableSchema (bucket.map ScannedBatch.batch) = .ok keyGroups) buckets groups) :
    (∀ bucket ∈ buckets, ∀ scanned ∈ bucket, scanned.ExtraFits) ∧
      DecodesTo (buckets.flatMap bucketRows) groups.flatten ∧
      ∀ keyGroup ∈ groups.flatten, ∃ row ∈ buckets.flatMap bucketRows, row.key = keyGroup.key := by
  induction h with
  | nil => exact ⟨by simp, ⟨List.nodup_nil, by simp, by simp, List.Perm.refl _⟩, by simp⟩
  | @cons bucket keyGroups buckets groups hBucket hRest ih =>
      obtain ⟨hFirst, hLater⟩ := List.pairwise_cons.mp hApart
      obtain ⟨hFits, hDistinct, hRows⟩ := bucketGroups_ok hSort hKv hBucket
      obtain ⟨hOtherFits, hOthers, hSome⟩ := ih hLater
      rw [List.flatMap_cons, List.flatten_cons]
      refine ⟨List.forall_mem_cons.mpr ⟨hFits, hOtherFits⟩,
        DecodesTo.append hDistinct hRows hOthers hSome fun row hRow other hOther => ?_, ?_⟩
      · obtain ⟨otherBucket, hMem, hIn⟩ := List.mem_flatMap.mp hOther
        exact hFirst otherBucket hMem row hRow other hIn
      · intro keyGroup hGroup
        rcases List.mem_append.mp hGroup with hHere | hThere
        · obtain ⟨row, hRow, hKey⟩ := hDistinct.exists_row hHere
          exact ⟨row, List.mem_append_left _ (hRows.mem_iff.mp hRow), hKey⟩
        · obtain ⟨row, hRow, hKey⟩ := hSome keyGroup hThere
          exact ⟨row, List.mem_append_right _ hRow, hKey⟩

/-- A run groups its input. When no key is in two buckets, the key groups that
the front end hands out are the elements of the input, one row for each window,
every key once and every window of a key once; and a run whose sorts succeed
fails exactly when the rows for the extra windows of some batch cannot be
addressed. Pieces of the batches that the store builds are such input. -/
theorem input_grouped (hSort : SortsRows sort tableSchema) (hKv : tableSchema.tableType = .kv)
    {buckets : List (List ScannedBatch)}
    (hApart : buckets.Pairwise fun first second =>
      ∀ row ∈ bucketRows first, ∀ other ∈ bucketRows second, row.key ≠ other.key) :
    (∀ keyGroups, inputGroups sort tableSchema (buckets.map (List.map ScannedBatch.batch)) =
        .ok keyGroups →
      DecodesTo (buckets.flatMap bucketRows) keyGroups ∧
        ∀ bucket ∈ buckets, ∀ scanned ∈ bucket, scanned.ExtraFits) ∧
      ((∀ bucket ∈ buckets, ∀ outs, (bucket.map ScannedBatch.batch).mapM explodeBatch = .ok outs →
          ∃ sorted, sort outs.flatten = .ok sorted) →
        (∀ bucket ∈ buckets, ∀ scanned ∈ bucket, scanned.ExtraFits) →
        ∃ keyGroups, inputGroups sort tableSchema (buckets.map (List.map ScannedBatch.batch)) =
          .ok keyGroups) ∧
      ∀ {pcollectionId : String} {values stored : List WindowedValue} {batch : RecordBatch}
        {schema : RecordTableSchema} {offset length : Nat},
        buildWindowedBatch pcollectionId values = .ok (batch, schema) → schema.tableType = .kv →
        windowedValuesFromBatch batch schema = .ok stored →
        ∀ hSlice : offset + length ≤ batch.numRows,
          ∃ scanned : ScannedBatch, scanned.batch = batch.slice offset length hSlice ∧
            scanned.elements = (stored.drop offset).take length := by
  refine ⟨fun keyGroups hOk => ?_, fun hSorts hFits => ?_, fun hBuilt hKvBuilt hStored hSlice =>
    ScannedBatch.of_built hBuilt hKvBuilt hStored hSlice⟩
  · obtain ⟨groups, hGroups, hPure⟩ := bind_eq_ok hOk
    cases hPure
    obtain ⟨hFits, hDecoded, -⟩ := inputGroups_ok hSort hKv hApart
      (List.forall₂_map_left_iff.mp (mapM_eq_ok_iff.mp hGroups))
    exact ⟨hDecoded, hFits⟩
  · have hAll : Succeeds ((buckets.map (List.map ScannedBatch.batch)).mapM
        (bucketGroups sort tableSchema)) := by
      refine succeeds_mapM_iff.mpr fun batches hBatches => ?_
      obtain ⟨bucket, hBucket, rfl⟩ := List.mem_map.mp hBatches
      exact bucketGroups_succeeds hSort hKv (hFits bucket hBucket) (hSorts bucket hBucket)
    obtain ⟨groups, hGroups⟩ := hAll
    exact ⟨groups.flatten, by rw [inputGroups, hGroups]; rfl⟩

end Buckets

/-! Two buckets that are in order as they stand: a key in two windows, and one
in one window. -/

/-- The order of the rows of a batch, by its sort columns. -/
def sortColumns (batch : RecordBatch) : List (List Nat × List Nat) :=
  match groupColumns batch with
  | .error _ => []
  | .ok columns => (columns.encodedKeys.zip columns.windowKeys).map fun pair =>
      ((pair.1.getD []).map UInt8.toNat, (pair.2.getD []).map UInt8.toNat)

/-- Let batches pass that are in order. -/
def passSorted (batches : List RecordBatch) : Except String (List RecordBatch) :=
  if (batches.flatMap sortColumns).Pairwise
      fun first second => first.1 < second.1 ∨ first.1 = second.1 ∧ first.2 ≤ second.2 then
    .ok batches
  else .error "out of order"

theorem HoldsRows.sortColumns {tableSchema : RecordTableSchema} {batch : RecordBatch}
    {rows : List GbkRow} (h : HoldsRows tableSchema batch rows) :
    sortColumns batch = rows.map fun row => (row.keyOrder, row.windowOrder) := by
  rw [FlareDB.sortColumns, h.columns]
  simp only [rowColumns, List.zip_map', List.map_map]
  rfl

theorem passSorted_sorts (tableSchema : RecordTableSchema) : SortsRows passSorted tableSchema := by
  intro batches chunks sorted hHold hSorted
  have hColumns : batches.flatMap sortColumns =
      chunks.flatten.map fun row => (row.keyOrder, row.windowOrder) := by
    clear hSorted
    induction hHold with
    | nil => rfl
    | cons hBatch _ ih =>
        rw [List.flatMap_cons, ih, hBatch.sortColumns, List.flatten_cons, List.map_append]
  rw [passSorted, hColumns] at hSorted
  split at hSorted
  · next hOrder =>
      cases hSorted
      refine ⟨chunks.flatten, List.Perm.refl _, ?_, chunks, rfl, hHold⟩
      refine (List.pairwise_map.mp hOrder).imp ?_
      intro first second hAtMost
      rw [GbkRow.atMost]
      exact decide_eq_true hAtMost
  · cases hSorted

def twoWindows : List WindowedValue :=
  [⟨.kv (.bool true) (.primitive (.int64 7)), 5, [.global, .interval 0 60], .noFiring⟩]

def oneWindow : List WindowedValue :=
  [⟨.kv (.bool false) (.primitive (.int64 8)), 6, [.global], .noFiring⟩]

theorem input_grouped_twoBuckets :
    ∃ first second : ScannedBatch, first.elements = twoWindows ∧ second.elements = oneWindow ∧
      ∃ (tableSchema : RecordTableSchema) (keyGroups : List DecodedKeyGroup),
        inputGroups passSorted tableSchema [[first.batch], [second.batch]] = .ok keyGroups ∧
          keyGroups.map DecodedKeyGroup.key = [.bool true, .bool false] ∧
          DecodesTo ([[first], [second]].flatMap bucketRows) keyGroups := by
  obtain ⟨first, second, tableSchema, hFirst, hSecond, hKv, hReadFirst, hReadSecond, hFirstSlice,
      hSecondSlice, keyGroups, hGroups, hKeys⟩ :
      ∃ first second tableSchema, buildWindowedBatch "pc" twoWindows = .ok (first, tableSchema) ∧
        buildWindowedBatch "pc" oneWindow = .ok (second, tableSchema) ∧
        tableSchema.tableType = .kv ∧
        windowedValuesFromBatch first tableSchema = .ok twoWindows ∧
        windowedValuesFromBatch second tableSchema = .ok oneWindow ∧
        ∃ (hFirst : 0 + 1 ≤ first.numRows) (hSecond : 0 + 1 ≤ second.numRows)
          (keyGroups : List DecodedKeyGroup),
          inputGroups passSorted tableSchema [[first.slice 0 1 hFirst], [second.slice 0 1 hSecond]] =
            .ok keyGroups ∧ keyGroups.map DecodedKeyGroup.key = [.bool true, .bool false] :=
    ⟨_, _, _, rfl, rfl, rfl, rfl, rfl, by decide, by decide, _, rfl, rfl⟩
  obtain ⟨one, hOne, hOneElements⟩ := ScannedBatch.of_built hFirst hKv hReadFirst hFirstSlice
  obtain ⟨other, hOther, hOtherElements⟩ :=
    ScannedBatch.of_built hSecond hKv hReadSecond hSecondSlice
  rw [← hOne, ← hOther] at hGroups
  have hApart : [[one], [other]].Pairwise fun first second =>
      ∀ row ∈ bucketRows first, ∀ other ∈ bucketRows second, row.key ≠ other.key := by
    have hRows : bucketRows [one] = twoWindows.flatMap WindowedValue.gbkRows := by
      rw [bucketRows, List.flatMap_singleton, ScannedBatch.rows, hOneElements]
      rfl
    have hOtherRows : bucketRows [other] = oneWindow.flatMap WindowedValue.gbkRows := by
      rw [bucketRows, List.flatMap_singleton, ScannedBatch.rows, hOtherElements]
      rfl
    rw [List.pairwise_pair, hRows, hOtherRows]
    decide
  have hDecoded := (input_grouped (passSorted_sorts tableSchema) hKv hApart).1 keyGroups hGroups
  refine ⟨one, other, hOneElements, hOtherElements, tableSchema, keyGroups, hGroups, hKeys, ?_⟩
  exact hDecoded.1

end FlareDB
