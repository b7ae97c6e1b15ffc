import FlareDB.Store.Isolation
import FlareDB.Store.Readers

/-! The incremental scan of a runner transform: one call reads a PCollection
from a stage's cursor to the latest snapshot and advances the cursor. -/
namespace FlareDB

open KeyedStore

namespace FlareElementStore

/-- The commits of a PCollection, oldest first. -/
def commitsOf (store : FlareElementStore) (pcollectionId : String) : List (List WindowedValue) :=
  (store.getExistingTable pcollectionId).elim [] PaimonTable.commits

/-- The rows committed to a PCollection. -/
def committed (store : FlareElementStore) (pcollectionId : String) : Multiset WindowedValue :=
  ((store.commitsOf pcollectionId).flatten : List WindowedValue)

/-- Read the rows appended since the reader last read, and advance its cursor.
The outer `none` is an unreadable cursor. -/
def scanWindowedValuesSince (store : FlareElementStore) (read : PaimonRead)
    (readerId pcollectionId : String) : Option (FlareElementStore × List WindowedValue) :=
  if pcollectionId ∈ store.registry then
    (store.cursor readerId pcollectionId).map fun (loaded, cursor) =>
      let (batches, latest) := loaded.readIncrementalBatches read pcollectionId cursor
      (latest.elim loaded (loaded.setCursor readerId pcollectionId), batches.flatten)
  else some (store, [])

end FlareElementStore

open FlareElementStore

/-- A reader has consumed the first `position` commits of a PCollection. -/
structure ReadUpTo (store : FlareElementStore) (reader pcollectionId : String) (position : Nat) :
    Prop where
  inLog : position ≤ (store.commitsOf pcollectionId).length
  cursor : ∃ cursor, CursorIs store pcollectionId reader cursor ∧ AtPosition cursor position

/-- The tables and schemas of two stores are the same. -/
structure SameTables (store other : FlareElementStore) : Prop where
  tables : other.tables = store.tables
  registry : other.registry = store.registry

theorem SameTables.commitsOf_eq {store other : FlareElementStore} (h : SameTables store other)
    (pcollectionId : String) : other.commitsOf pcollectionId = store.commitsOf pcollectionId := by
  rw [commitsOf, commitsOf, getExistingTable, getExistingTable, h.tables]

theorem sameTables_cacheCursor (store : FlareElementStore) (key : String) (snapshotId : Int64) :
    SameTables store (store.cacheCursor key snapshotId) := ⟨rfl, rfl⟩

theorem cursorKey_pcollection_injective {reader id other : String}
    (h : cursorKey reader id = cursorKey reader other) : id = other := by
  rw [cursorKey, cursorKey, ← String.toList_inj] at h
  exact String.toList_inj.mp (by simpa using h)

/-- Caching a cursor under another key changes none. -/
theorem CursorIs.cache_of_key {store : FlareElementStore} {reader id key : String}
    {cursor : Option Int64} (h : CursorIs store id reader cursor) (hKey : cursorKey reader id ≠ key)
    (snapshotId : Int64) : CursorIs (store.cacheCursor key snapshotId) id reader cursor := by
  refine ⟨h.durable, fun found hFound => h.cached found ?_⟩
  rwa [FlareElementStore.cacheCursor, AList.lookup_insert_ne hKey] at hFound

/-- An unfiltered read returns the planned rows. -/
theorem toArrow_perm (store : FlareElementStore) (read : PaimonRead) (pcollectionId : String)
    (range : Option (Int64 × Int64)) :
    ((range.map fun range => read.toArrow (keptAfter none)
      (store.plannedRows pcollectionId (some range))).getD []).flatten.Perm
        (store.plannedRows pcollectionId range) := by
  cases range with
  | none => exact List.Perm.refl _
  | some range =>
      have hEvery := List.filter_eq_self.mpr fun row
        (_ : row ∈ store.plannedRows pcollectionId (some range)) =>
          (rfl : keptAfter none row = true)
      exact (read.exact _ _).trans (List.Perm.of_eq hEvery)

section Scan

variable {store : FlareElementStore} {reader pcollectionId : String} {position : Nat}

/-- What a scan does: it returns the unread rows, leaves the reader at the end
of the PCollection, and changes nothing else. -/
theorem scanWindowedValuesSince_spec (h : ReadUpTo store reader pcollectionId position)
    (hFits : (store.commitsOf pcollectionId).length < 2 ^ 63)
    (hRegistered : store.commitsOf pcollectionId ≠ [] → pcollectionId ∈ store.registry)
    (read : PaimonRead) :
    ∃ after rows, store.scanWindowedValuesSince read reader pcollectionId = some (after, rows) ∧
      rows.Perm (segment (store.commitsOf pcollectionId) position
        (store.commitsOf pcollectionId).length) ∧
      SameTables store after ∧
      ReadUpTo after reader pcollectionId (store.commitsOf pcollectionId).length ∧
      ∀ other, other ≠ pcollectionId → ∀ place, ReadUpTo store reader other place →
        ReadUpTo after reader other place := by
  obtain ⟨hInLog, cursor, hCursor, hAt⟩ := h
  rw [scanWindowedValuesSince]
  split
  next hMem =>
    obtain ⟨loaded, hLoaded, hStore⟩ := hCursor.cursor_eq
    have hSame : SameTables store loaded ∧ CursorIs loaded pcollectionId reader cursor ∧
        ∀ other, other ≠ pcollectionId → ∀ own, CursorIs store other reader own →
          CursorIs loaded other reader own := by
      rcases hStore with rfl | ⟨snapshotId, rfl, rfl⟩
      · exact ⟨⟨rfl, rfl⟩, hCursor, fun _ _ _ hOwn => hOwn⟩
      · refine ⟨sameTables_cacheCursor _ _ _, hCursor.cache hCursor, fun other hNe own hOwn => ?_⟩
        exact hOwn.cache_of_key (fun hKey => hNe (cursorKey_pcollection_injective hKey)) snapshotId
    obtain ⟨hTables, hOwn, hOthers⟩ := hSame
    have hCommits : (loaded.getExistingTable pcollectionId).elim [] PaimonTable.commits =
        store.commitsOf pcollectionId := hTables.commitsOf_eq pcollectionId
    have hPlan := planReaches_latest hCommits hFits hAt hInLog
    rw [hLoaded, Option.map_some]
    dsimp only [readIncrementalBatches, openIncrementalArrowPlanned]
    cases hPlanned : loaded.planIncremental pcollectionId cursor with
    | mk range latest =>
        rw [hPlanned] at hPlan
        have hRows := plannedRows_eq hCommits hFits hInLog (Nat.le_refl _) hPlan
        have hBatches := toArrow_perm loaded read pcollectionId range
        rw [hRows] at hBatches
        refine ⟨_, _, rfl, hBatches, ?_⟩
        cases latest with
        | none =>
            have hEnd : (store.commitsOf pcollectionId).length = 0 :=
              hPlan.1.elim And.right nofun
            have hStart : position = 0 := by omega
            refine ⟨hTables, ?_, fun other hNe place hOther => ?_⟩
            · rw [hEnd]
              exact ⟨Nat.zero_le _, cursor, hOwn, hStart ▸ hAt⟩
            · obtain ⟨hOtherLog, own, hOwnCursor, hOwnAt⟩ := hOther
              refine ⟨?_, own, hOthers other hNe own hOwnCursor, hOwnAt⟩
              exact hOtherLog.trans_eq (congrArg List.length (hTables.commitsOf_eq other)).symm
        | some snapshotId =>
            have hAfter : SameTables store (loaded.setCursor reader pcollectionId snapshotId) :=
              ⟨hTables.tables, hTables.registry⟩
            refine ⟨hAfter, ⟨?_, some snapshotId, cursorIs_setCursor snapshotId, hPlan.1⟩,
              fun other hNe place hOther => ?_⟩
            · exact Nat.le_of_eq (congrArg List.length (hAfter.commitsOf_eq pcollectionId)).symm
            · obtain ⟨hOtherLog, own, hOwnCursor, hOwnAt⟩ := hOther
              refine ⟨?_, own, ?_, hOwnAt⟩
              · exact hOtherLog.trans_eq (congrArg List.length (hAfter.commitsOf_eq other)).symm
              · exact (hOthers other hNe own hOwnCursor).setCursor_of_key
                  (fun hKey => hNe (cursorKey_pcollection_injective hKey)) snapshotId
  next hNone =>
    have hEmpty : store.commitsOf pcollectionId = [] := by
      by_contra hSome
      exact hNone (hRegistered hSome)
    have hZero : position = 0 := by simpa [hEmpty] using hInLog
    refine ⟨store, [], rfl, ?_, ⟨rfl, rfl⟩, ?_, fun _ _ _ hOther => hOther⟩
    · rw [hEmpty, segment]
      exact List.Perm.of_eq (by simp)
    · rw [hEmpty]
      subst hZero
      exact ⟨hInLog, cursor, hCursor, hAt⟩

end Scan
end FlareDB
