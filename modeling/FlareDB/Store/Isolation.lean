import FlareDB.Store.ElementStore
import Mathlib.Data.Set.Function
import Mathlib.Data.Set.Prod

/-! When PCollections are isolated from each other. Tables are named by a
sanitized id and cursors by a joined string, so isolation is a question of which
ids collide under these two encodings. -/
namespace FlareDB

open KeyedStore

/-- The key of the lock that serializes writers, taken in `table_write_locks`. -/
def tableWriteLock (pcollectionId : String) : String :=
  pcollectionId

namespace FlareElementStore

/-- Write batches in order, each to its PCollection. -/
def writeAll (store : FlareElementStore) (writes : List (String × List WindowedValue)) :
    FlareElementStore :=
  writes.foldl (fun store write => store.writeWindowedValueBatch write.1 write.2) store

/-- Every committed row of the table a PCollection resolves to. -/
def storedRows (store : FlareElementStore) (pcollectionId : String) : List WindowedValue :=
  (store.getExistingTable pcollectionId).elim [] fun table => table.commits.flatten

end FlareElementStore

open FlareElementStore

/-- The rows a sequence of writes puts under one id. -/
def rowsWritten (writes : List (String × List WindowedValue)) (pcollectionId : String) :
    List WindowedValue :=
  (writes.filter fun write => write.1 = pcollectionId).flatMap Prod.snd

/-- What isolation means for the PCollections `ids` and the readers `readers`. -/
structure Isolated (ids readers : Set String) : Prop where
  scan_exact : ∀ writes : List (String × List WindowedValue), (∀ write ∈ writes, write.1 ∈ ids) →
    ∀ id ∈ ids, ∀ read : PaimonRead,
      ((empty.writeAll writes).scanWindowedValues read id).Perm (rowsWritten writes id)
  distinct_tables : Set.InjOn sanitizePcollectionId ids
  write_frame : ∀ store : FlareElementStore, ∀ id ∈ ids, ∀ other ∈ ids, other ≠ id →
    ∀ (values : List WindowedValue) (read : PaimonRead),
      (store.writeWindowedValueBatch id values).scanWindowedValues read other =
        store.scanWindowedValues read other
  lock_covers : ∀ id ∈ ids, ∀ other ∈ ids,
    sanitizePcollectionId id = sanitizePcollectionId other →
      tableWriteLock id = tableWriteLock other
  distinct_cursors : Set.InjOn (fun pair : String × String => cursorKey pair.1 pair.2)
    (readers ×ˢ ids)

/-- Two characters that may differ without the table name noticing. -/
def SanitizeAlike (c d : Char) : Prop :=
  c = d ∨ c ∈ '_' :: unsafeChars ∧ d ∈ '_' :: unsafeChars

/-- Two ids that differ only where both have an unsafe character or `_`. -/
def DifferOnlyInUnsafe (id other : String) : Prop :=
  List.Forall₂ SanitizeAlike id.toList other.toList

section Encodings

theorem sanitize_char_eq_iff (c d : Char) :
    ((if c ∈ unsafeChars then '_' else c) = if d ∈ unsafeChars then '_' else d) ↔
      SanitizeAlike c d := by
  have hUnderscore : '_' ∉ unsafeChars := by decide
  unfold SanitizeAlike
  simp only [List.mem_cons]
  by_cases hc : c ∈ unsafeChars <;> by_cases hd : d ∈ unsafeChars <;> simp only [hc, hd, if_true,
    if_false] <;> grind

theorem sanitizePcollectionId_eq_iff (id other : String) :
    sanitizePcollectionId id = sanitizePcollectionId other ↔ DifferOnlyInUnsafe id other := by
  rw [sanitizePcollectionId, sanitizePcollectionId, ← String.toList_inj, String.toList_map,
    String.toList_map, DifferOnlyInUnsafe, ← List.forall₂_eq_eq_eq, List.forall₂_map_left_iff,
    List.forall₂_map_right_iff]
  simp only [sanitize_char_eq_iff]

/-- A separated pair determines a longer one up to where it is cut. -/
theorem append_separator_eq {α : Type} {separator : α} {left right left' right' : List α}
    (h : left ++ separator :: right = left' ++ separator :: right') :
    (left = left' ∧ right = right') ∨
      (∃ middle, left' = left ++ separator :: middle ∧ right = middle ++ separator :: right') ∨
      ∃ middle, left = left' ++ separator :: middle ∧ right' = middle ++ separator :: right := by
  rcases List.append_eq_append_iff.mp h with ⟨extra, hLeft, hRight⟩ | ⟨extra, hLeft, hRight⟩
  · cases extra with
    | nil => exact .inl ⟨by simpa using hLeft.symm, by simpa using hRight⟩
    | cons c middle =>
        rw [List.cons_append, List.cons.injEq] at hRight
        obtain ⟨rfl, hRight⟩ := hRight
        exact .inr (.inl ⟨middle, hLeft, hRight⟩)
  · cases extra with
    | nil => exact .inl ⟨by simpa using hLeft, by simpa using hRight.symm⟩
    | cons c middle =>
        rw [List.cons_append, List.cons.injEq] at hRight
        obtain ⟨rfl, hRight⟩ := hRight
        exact .inr (.inr ⟨middle, hLeft, hRight⟩)

/-- Keys collide when the separator can be read at two places. -/
theorem cursorKey_eq_iff (reader pcollection reader' pcollection' : String) :
    cursorKey reader pcollection = cursorKey reader' pcollection' ↔
      (reader = reader' ∧ pcollection = pcollection') ∨
        (∃ middle, reader' = reader ++ "\u0001" ++ middle ∧
          pcollection = middle ++ "\u0001" ++ pcollection') ∨
        ∃ middle, reader = reader' ++ "\u0001" ++ middle ∧
          pcollection' = middle ++ "\u0001" ++ pcollection := by
  have hSeparator : "\u0001".toList = ['\u0001'] := rfl
  have hMiddle : ∀ {P : List Char → Prop}, (∃ middle, P middle) → ∃ middle : String, P middle.toList :=
    fun ⟨middle, h⟩ => ⟨String.ofList middle, by rwa [String.toList_ofList]⟩
  constructor
  · intro h
    rw [cursorKey, cursorKey, ← String.toList_inj] at h
    simp only [String.toList_append, hSeparator, List.append_assoc, List.singleton_append] at h
    simp only [← String.toList_inj, String.toList_append, hSeparator, List.append_assoc,
      List.singleton_append]
    exact (append_separator_eq h).imp_right (Or.imp hMiddle hMiddle)
  · rintro (⟨rfl, rfl⟩ | ⟨middle, rfl, rfl⟩ | ⟨middle, rfl, rfl⟩)
    · rfl
    · simp [cursorKey, String.append_assoc]
    · simp [cursorKey, String.append_assoc]

end Encodings

section Rows

variable {ids : Set String}

/-- A write appends one commit to the table of its id and to no other. -/
theorem getExistingTable_writeWindowedValueBatch (store : FlareElementStore) (id other : String)
    {values : List WindowedValue} (hValues : values ≠ []) :
    (store.writeWindowedValueBatch id values).getExistingTable other =
      if sanitizePcollectionId other = sanitizePcollectionId id then
        some { commits := (store.getExistingTable id).elim [] PaimonTable.commits ++ [values] }
      else store.getExistingTable other := by
  have hRegister : (store.registerIfAbsent id).tables = store.tables := by
    unfold registerIfAbsent
    split <;> rfl
  cases hMin : (values.map WindowedValue.timestampMillis).min? with
  | none => exact absurd (by simpa using hMin) hValues
  | some minTs =>
      simp only [writeWindowedValueBatch, hMin, recordCommitMinTs, ingestBatch, getExistingTable,
        hRegister]
      split
      next hSame => rw [hSame, AList.lookup_insert]
      next hNe => rw [AList.lookup_insert_ne hNe]

theorem writeWindowedValueBatch_nil (store : FlareElementStore) (id : String) :
    store.writeWindowedValueBatch id [] = store := rfl

theorem storedRows_writeWindowedValueBatch (hTables : Set.InjOn sanitizePcollectionId ids)
    (store : FlareElementStore) {id other : String} (hId : id ∈ ids) (hOther : other ∈ ids)
    (values : List WindowedValue) :
    (store.writeWindowedValueBatch id values).storedRows other =
      store.storedRows other ++ if other = id then values else [] := by
  by_cases hValues : values = []
  · simp [hValues, writeWindowedValueBatch_nil]
  · rw [storedRows, getExistingTable_writeWindowedValueBatch store id other hValues]
    by_cases hSame : other = id
    · subst hSame
      rw [if_pos rfl, if_pos rfl, storedRows]
      cases store.getExistingTable other <;> simp
    · rw [if_neg fun h => hSame (hTables hOther hId h), if_neg hSame, List.append_nil, storedRows]

theorem mem_registry_writeWindowedValueBatch (store : FlareElementStore) (id other : String)
    (values : List WindowedValue) :
    other ∈ (store.writeWindowedValueBatch id values).registry ↔
      other ∈ store.registry ∨ other = id ∧ values ≠ [] := by
  cases hMin : (values.map WindowedValue.timestampMillis).min? with
  | none =>
      have hEmpty : values = [] := by simpa using hMin
      simp [writeWindowedValueBatch, hEmpty]
  | some minTs =>
      have hSome : values ≠ [] := by
        rintro rfl
        cases hMin
      have hRegistry : (store.writeWindowedValueBatch id values).registry =
          (store.registerIfAbsent id).registry := by
        rw [writeWindowedValueBatch, hMin]
        rfl
      rw [hRegistry, registerIfAbsent]
      split
      · grind
      · simp only [List.mem_cons]
        grind

/-- After any writes to the collections, each table holds what was written
under its id, and an id without rows has none. -/
theorem storedRows_writeAll (hTables : Set.InjOn sanitizePcollectionId ids)
    {writes : List (String × List WindowedValue)} (hWrites : ∀ write ∈ writes, write.1 ∈ ids)
    {id : String} (hId : id ∈ ids) :
    (empty.writeAll writes).storedRows id = rowsWritten writes id ∧
      (id ∉ (empty.writeAll writes).registry → rowsWritten writes id = []) := by
  induction writes using List.reverseRecOn with
  | nil => exact ⟨rfl, fun _ => rfl⟩
  | append_singleton writes write ih =>
      obtain ⟨hRows, hRegistry⟩ := ih fun earlier h => hWrites earlier (List.mem_append_left _ h)
      have hWrite : write.1 ∈ ids := hWrites write (by simp)
      have hWritten : rowsWritten (writes ++ [write]) id =
          rowsWritten writes id ++ if id = write.1 then write.2 else [] := by
        by_cases hSame : id = write.1
        · simp [rowsWritten, hSame]
        · simp [rowsWritten, hSame, Ne.symm hSame]
      rw [writeAll, List.foldl_append, List.foldl_cons, List.foldl_nil, ← writeAll,
        storedRows_writeWindowedValueBatch hTables _ hWrite hId, hRows, hWritten]
      refine ⟨rfl, fun hAbsent => ?_⟩
      rw [mem_registry_writeWindowedValueBatch] at hAbsent
      rw [hRegistry fun h => hAbsent (.inl h)]
      grind

theorem scanWindowedValues_perm (store : FlareElementStore) (read : PaimonRead) (id : String) :
    (store.scanWindowedValues read id).Perm
      (if id ∈ store.registry then store.storedRows id else []) := by
  unfold scanWindowedValues storedRows
  split
  · cases store.getExistingTable id with
    | none => exact List.Perm.refl _
    | some table =>
        have hEvery : (table.commits.flatten.filter fun _ => true) = table.commits.flatten :=
          List.filter_eq_self.mpr fun _ _ => rfl
        exact (read.exact (fun _ => true) table.commits.flatten).trans (List.Perm.of_eq hEvery)
  · exact List.Perm.refl _

theorem scanWindowedValues_write_frame (hTables : Set.InjOn sanitizePcollectionId ids)
    (store : FlareElementStore) {id other : String} (hId : id ∈ ids) (hOther : other ∈ ids)
    (hNe : other ≠ id) (values : List WindowedValue) (read : PaimonRead) :
    (store.writeWindowedValueBatch id values).scanWindowedValues read other =
      store.scanWindowedValues read other := by
  by_cases hValues : values = []
  · rw [hValues, writeWindowedValueBatch_nil]
  · have hRegistry := mem_registry_writeWindowedValueBatch store id other values
    simp only [hNe, false_and, or_false] at hRegistry
    simp only [scanWindowedValues, hRegistry]
    rw [getExistingTable_writeWindowedValueBatch store id other hValues,
      if_neg fun h => hNe (hTables hOther hId h)]

end Rows

/-- Isolation holds exactly when no two ids differ only in unsafe characters
and no reader id and PCollection id can trade a piece with a separator. -/
theorem isolated_iff (ids readers : Set String) :
    Isolated ids readers ↔
      (∀ id ∈ ids, ∀ other ∈ ids, DifferOnlyInUnsafe id other → id = other) ∧
        ∀ reader ∈ readers, ∀ reader' ∈ readers, ∀ id ∈ ids, ∀ id' ∈ ids, ∀ middle,
          reader' = reader ++ "\u0001" ++ middle → id ≠ middle ++ "\u0001" ++ id' := by
  constructor
  · intro hIsolated
    refine ⟨fun id hId other hOther hAlike => ?_, ?_⟩
    · exact hIsolated.distinct_tables hId hOther ((sanitizePcollectionId_eq_iff id other).mpr hAlike)
    · intro reader hReader reader' hReader' id hId id' hId' middle hPrefix hSuffix
      have hSame : (reader, id) = (reader', id') :=
        hIsolated.distinct_cursors ⟨hReader, hId⟩ ⟨hReader', hId'⟩
          ((cursorKey_eq_iff reader id reader' id').mpr (.inr (.inl ⟨middle, hPrefix, hSuffix⟩)))
      rw [(Prod.mk.inj hSame).1] at hPrefix
      have hLength := congrArg String.length hPrefix
      simp only [String.length_append] at hLength
      have hSeparator : "\u0001".length = 1 := rfl
      omega
  · rintro ⟨hUnsafe, hSeparator⟩
    have hTables : Set.InjOn sanitizePcollectionId ids := fun id hId other hOther h =>
      hUnsafe id hId other hOther ((sanitizePcollectionId_eq_iff id other).mp h)
    refine ⟨fun writes hWrites id hId read => ?_, hTables, ?_, ?_, ?_⟩
    · obtain ⟨hRows, hRegistry⟩ := storedRows_writeAll hTables hWrites hId
      refine (scanWindowedValues_perm _ read id).trans ?_
      split
      · rw [hRows]
      next hAbsent => rw [hRegistry hAbsent]
    · intro store id hId other hOther hNe values read
      exact scanWindowedValues_write_frame hTables store hId hOther hNe values read
    · intro id hId other hOther h
      rw [hTables hId hOther h]
    · rintro ⟨reader, id⟩ ⟨hReader, hId⟩ ⟨reader', id'⟩ ⟨hReader', hId'⟩ hSame
      rcases (cursorKey_eq_iff reader id reader' id').mp hSame with
        ⟨rfl, rfl⟩ | ⟨middle, hPrefix, hSuffix⟩ | ⟨middle, hPrefix, hSuffix⟩
      · rfl
      · exact absurd hSuffix
          (hSeparator reader hReader reader' hReader' id hId id' hId' middle hPrefix)
      · exact absurd hSuffix
          (hSeparator reader' hReader' reader hReader id' hId' id hId middle hPrefix)

/-- A row of the given collection, for the collision below. -/
def collisionRow (name : String) : WindowedValue where
  value := .primitive (.string name)
  timestampMillis := 0
  windows := [.global]
  pane := .noFiring

/-- Two ids that share a table: a scan of one also returns the rows of the
other, which is written under another lock. -/
theorem not_isolated_dotUnderscore :
    ((empty.writeAll [("a.b", [collisionRow "a.b"]), ("a_b", [collisionRow "a_b"])]
        ).scanWindowedValues PaimonRead.inOrder "a.b").length = 2 ∧
      tableWriteLock "a.b" ≠ tableWriteLock "a_b" ∧
      cursorKey "r" "m\u0001p" = cursorKey "r\u0001m" "p" ∧
      ¬Isolated {"a.b", "a_b"} ∅ := by
  have hSame : sanitizePcollectionId "a.b" = sanitizePcollectionId "a_b" := by
    rw [← String.toList_inj, sanitizePcollectionId, sanitizePcollectionId, String.toList_map,
      String.toList_map]
    decide
  refine ⟨?_, by decide, by decide, fun hIsolated => ?_⟩
  · have hFresh : ∀ id, empty.getExistingTable id = none := fun _ => rfl
    simp [hFresh, writeAll, scanWindowedValues, PaimonRead.inOrder, mem_registry_writeWindowedValueBatch,
      getExistingTable_writeWindowedValueBatch, hSame]
  · have hEqual : "a.b" = "a_b" := hIsolated.distinct_tables (by simp) (by simp) hSame
    exact absurd hEqual (by decide)

end FlareDB
