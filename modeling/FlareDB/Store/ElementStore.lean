import FlareDB.Coders.Window
import FlareDB.Lib.KeyedStore

/-! The element store: PCollections kept as append-only Paimon tables, and the
cursors of the readers that follow them. Tables are named by a sanitized id;
everything else is keyed by the id itself. -/
namespace FlareDB

open KeyedStore

/-- The execution metadata persisted beside an element. -/
structure WindowMetadata where
  timestampMillis : Int64
  windows : List BeamWindow
  pane : PaneInfo
deriving DecidableEq, Repr

def WindowMetadata.ofValue (value : WindowedValue) : WindowMetadata where
  timestampMillis := value.timestampMillis
  windows := value.windows
  pane := value.pane

/-- One window folded into the latest boundary; an opaque window has none. -/
def laterFiniteEnd (latest : Int64) : BeamWindow → Option Int64
  | .opaqueWindow _ _ => none
  | window => some (max latest window.maxTimestampMillis)

/-- The latest finite window boundary, or `none` when any window is opaque. -/
def WindowMetadata.maxFiniteWindowEndMillis (metadata : WindowMetadata) : Option Int64 :=
  if metadata.windows.isEmpty then none
  else metadata.windows.foldlM laterFiniteEnd Int64.minValue

/-- The column `flare_max_window_end_millis` of a stored row. -/
def windowMaxEnd (row : WindowedValue) : Option Int64 :=
  (WindowMetadata.ofValue row).maxFiniteWindowEndMillis

/-- A PCollection's table: the rows of each commit, oldest first. The snapshot
of a commit is its position, counted from one. -/
structure PaimonTable where
  commits : List (List WindowedValue)

namespace PaimonTable

def latestSnapshotId (table : PaimonTable) : Option Int64 :=
  if table.commits.isEmpty then none else some (Int64.ofNat table.commits.length)

/-- No snapshot is ever expired. -/
def earliestSnapshotId (table : PaimonTable) : Option Int64 :=
  if table.commits.isEmpty then none else some 1

/-- The rows appended by the snapshots after `start`, up to and including `last`. -/
def appendedBetween (table : PaimonTable) (start last : Int64) : List WindowedValue :=
  ((table.commits.take last.toNatClampNeg).drop start.toNatClampNeg).flatten

end PaimonTable

/-- How Paimon reads rows under a filter: in batches of its own choosing and in
any order, each row that passes the filter once. -/
structure PaimonRead where
  toArrow : (WindowedValue → Bool) → List WindowedValue → List (List WindowedValue)
  exact : ∀ filter rows, (toArrow filter rows).flatten.Perm (rows.filter filter)

/-- The plain read: one batch, in commit order. -/
def PaimonRead.inOrder : PaimonRead where
  toArrow := fun filter rows => [rows.filter filter]
  exact := by simp

/-- `registry` holds the ids with a cached schema. `cursors` is the cache over
the durable `cursorStore`. -/
structure FlareElementStore where
  registry : List String
  tables : Store String PaimonTable
  commitMinTs : Store String Int64
  cursors : Store String Int64
  cursorStore : Store (List UInt8) (List UInt8)

/-- The characters of an id that a table name may not have. -/
def unsafeChars : List Char := ['/', '.', ' ', '(', ')']

def sanitizePcollectionId (id : String) : String :=
  id.map fun c => if c ∈ unsafeChars then '_' else c

def cursorKey (readerId pcollectionId : String) : String :=
  readerId ++ "\u0001" ++ pcollectionId

def encodeSnapshot (snapshotId : Int64) : List UInt8 :=
  BigEndian.toBytes 8 snapshotId.toUInt64.toNat

/-- `none` is the "invalid cursor value length" error. -/
def decodeSnapshot (bytes : List UInt8) : Option Int64 :=
  if bytes.length = 8 then some (UInt64.ofNat (BigEndian.toNat bytes)).toInt64 else none

namespace FlareElementStore

def empty : FlareElementStore where
  registry := []
  tables := ∅
  commitMinTs := ∅
  cursors := ∅
  cursorStore := ∅

/-- The table a PCollection resolves to, if it was ever created. -/
def getExistingTable (store : FlareElementStore) (pcollectionId : String) : Option PaimonTable :=
  store.tables.lookup (sanitizePcollectionId pcollectionId)

def cacheCursor (store : FlareElementStore) (key : String) (snapshotId : Int64) :
    FlareElementStore :=
  { store with cursors := store.cursors.insert key snapshotId }

/-- A reader's cursor, read through the cache; a durable value is cached. The
outer `none` is an unreadable durable value. -/
def cursor (store : FlareElementStore) (readerId pcollectionId : String) :
    Option (FlareElementStore × Option Int64) :=
  let key := cursorKey readerId pcollectionId
  match store.cursors.lookup key with
  | some snapshotId => some (store, some snapshotId)
  | none => match store.cursorStore.lookup (utf8Bytes key) with
      | some bytes => (decodeSnapshot bytes).map fun snapshotId =>
          (store.cacheCursor key snapshotId, some snapshotId)
      | none => some (store, none)

/-- Advance a reader's cursor: the durable write, then the cache. -/
def setCursor (store : FlareElementStore) (readerId pcollectionId : String) (snapshotId : Int64) :
    FlareElementStore :=
  let key := cursorKey readerId pcollectionId
  let cursorStore := store.cursorStore.insert (utf8Bytes key) (encodeSnapshot snapshotId)
  { store with cursorStore }.cacheCursor key snapshotId

/-- The snapshot range an incremental read covers, when there is anything to
read, and the cursor to record once it has been read. -/
def planIncremental (store : FlareElementStore) (pcollectionId : String) (cursor : Option Int64) :
    Option (Int64 × Int64) × Option Int64 :=
  match store.getExistingTable pcollectionId with
  | none => (none, cursor)
  | some table => match table.latestSnapshotId with
      | none => (none, cursor)
      | some latest =>
          let floor := table.earliestSnapshotId.getD latest - 1
          let start := cursor.elim floor fun cursor => max cursor floor
          if start ≥ latest then (none, some latest) else (some (start, latest), some latest)

/-- The rows a planned range covers. -/
def plannedRows (store : FlareElementStore) (pcollectionId : String) :
    Option (Int64 × Int64) → List WindowedValue
  | none => []
  | some (start, latest) => ((store.getExistingTable pcollectionId).map fun table =>
      table.appendedBetween start latest).getD []

/-- The filter pushed down to the read: rows ending after the cutoff, and rows
whose end is unknown. -/
def keptAfter (windowPruneBefore : Option Int64) (row : WindowedValue) : Bool :=
  windowPruneBefore.all fun cutoff => (windowMaxEnd row).all fun latest => decide (latest > cutoff)

def openIncrementalArrowPlanned (store : FlareElementStore) (read : PaimonRead)
    (pcollectionId : String) (cursor windowPruneBefore : Option Int64) :
    Option (List (List WindowedValue)) × Option Int64 :=
  let (range, latest) := store.planIncremental pcollectionId cursor
  (range.map fun range => read.toArrow (keptAfter windowPruneBefore)
    (store.plannedRows pcollectionId (some range)), latest)

def readIncrementalBatches (store : FlareElementStore) (read : PaimonRead)
    (pcollectionId : String) (cursor : Option Int64) : List (List WindowedValue) × Option Int64 :=
  let (stream, latest) := store.openIncrementalArrowPlanned read pcollectionId cursor none
  (stream.getD [], latest)

/-- Count the rows of the range that the pruned read would drop. -/
def countIncrementalArrowPrunedBefore (store : FlareElementStore) (read : PaimonRead)
    (pcollectionId : String) (cursor : Option Int64) (windowPruneBefore : Int64) : Nat :=
  let (batches, _) := store.readIncrementalBatches read pcollectionId cursor
  (batches.map fun batch => ((batch.filterMap windowMaxEnd).filter
    fun latest => decide (latest ≤ windowPruneBefore)).length).sum

/-- Fold a commit's minimum event time into the running minimum. -/
def recordCommitMinTs (store : FlareElementStore) (pcollectionId : String) (timestamp : Int64) :
    FlareElementStore :=
  let folded := (store.commitMinTs.lookup pcollectionId).elim timestamp fun current =>
    min current timestamp
  { store with commitMinTs := store.commitMinTs.insert pcollectionId folded }

/-- Commit one batch to the table of a PCollection, creating the table first. -/
def ingestBatch (store : FlareElementStore) (pcollectionId : String) (rows : List WindowedValue) :
    FlareElementStore :=
  let commits := (store.getExistingTable pcollectionId).elim [] PaimonTable.commits
  let table : PaimonTable := { commits := commits ++ [rows] }
  { store with tables := store.tables.insert (sanitizePcollectionId pcollectionId) table }

def registerIfAbsent (store : FlareElementStore) (pcollectionId : String) : FlareElementStore :=
  if pcollectionId ∈ store.registry then store
  else { store with registry := pcollectionId :: store.registry }

def writeWindowedValueBatch (store : FlareElementStore) (pcollectionId : String)
    (values : List WindowedValue) : FlareElementStore :=
  match (values.map WindowedValue.timestampMillis).min? with
  | none => store
  | some minTs => ((store.registerIfAbsent pcollectionId).ingestBatch pcollectionId
      values).recordCommitMinTs pcollectionId minTs

/-- Every row of a PCollection, in the order Paimon reads them. -/
def scanWindowedValues (store : FlareElementStore) (read : PaimonRead) (pcollectionId : String) :
    List WindowedValue :=
  if pcollectionId ∈ store.registry then
    ((store.getExistingTable pcollectionId).elim [] fun table =>
      (read.toArrow (fun _ => true) table.commits.flatten).flatten)
  else []

end FlareElementStore
end FlareDB
