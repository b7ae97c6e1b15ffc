import FlareDB.Store.ElementStore
import FlareDB.Lib.Runs

/-! Readers following one PCollection. A read loads the reader's cursor, fixes
the latest snapshot, drains the rows in between and only then persists the
cursor; writers may commit between any two of these steps. -/
namespace FlareDB

open KeyedStore Runs

/-- Where a read is. A read through `scan_windowed_values_since`,
`scan_collection_since` or `stream_windowed_values_since` takes the same steps;
the streaming one hands each batch out as it goes. -/
inductive ReadPhase where
  | idle
  | registered
  | loaded (cursor : Option Int64)
  | planned (range : Option (Int64 × Int64)) (latest : Option Int64)
  | draining (handed : List WindowedValue) (batches : List (List WindowedValue))
      (latest : Option Int64)

/-- A reader: the read it is in, and the rows of its completed reads in order. -/
structure ReaderState where
  phase : ReadPhase
  delivered : List (List WindowedValue)

structure ReaderWorld where
  store : FlareElementStore
  readers : String → ReaderState

inductive ReaderAction where
  | register
  | createTable
  | commit (rows : List WindowedValue)
  | start (reader : String)
  | loadCursor (reader : String)
  | determineLatest (reader : String)
  | openRead (reader : String) (read : PaimonRead)
  | nextBatch (reader : String)
  | persistCursor (reader : String)
  | abandon (reader : String)
  | restart

/-- The reader an action belongs to. -/
def ReaderAction.reader : ReaderAction → Option String
  | .register | .createTable | .commit _ | .restart => none
  | .start reader | .loadCursor reader | .determineLatest reader | .openRead reader _
  | .nextBatch reader | .persistCursor reader | .abandon reader => some reader

namespace ReaderWorld

def initial : ReaderWorld where
  store := .empty
  readers := fun _ => { phase := .idle, delivered := [] }

/-- The commits of the PCollection, oldest first. -/
def log (world : ReaderWorld) (pcollectionId : String) : List (List WindowedValue) :=
  (world.store.getExistingTable pcollectionId).elim [] PaimonTable.commits

def setReader (world : ReaderWorld) (reader : String) (state : ReaderState) : ReaderWorld :=
  { world with readers := fun other => if other = reader then state else world.readers other }

def setPhase (world : ReaderWorld) (reader : String) (phase : ReadPhase) : ReaderWorld :=
  world.setReader reader { world.readers reader with phase }

/-- A read has returned these rows. -/
def complete (world : ReaderWorld) (reader : String) (rows : List WindowedValue) : ReaderWorld :=
  world.setReader reader
    { phase := .idle, delivered := (world.readers reader).delivered ++ [rows] }

/-- One step of a writer or a reader of the PCollection. A step that does not
apply is refused; so is a commit that would leave the range of snapshot ids. -/
def step (pcollectionId : String) (world : ReaderWorld) : ReaderAction → Option ReaderWorld
  | .register => some { world with store := world.store.registerIfAbsent pcollectionId }
  | .createTable => match world.store.getExistingTable pcollectionId with
      | some _ => none
      | none =>
          let tables := world.store.tables.insert (sanitizePcollectionId pcollectionId)
            { commits := [] }
          some { world with store := { world.store with tables } }
  | .commit rows =>
      if (world.log pcollectionId).length + 1 < 2 ^ 63 then
        some { world with store := world.store.ingestBatch pcollectionId rows }
      else none
  | .start reader => match (world.readers reader).phase with
      | .idle =>
          if pcollectionId ∈ world.store.registry then some (world.setPhase reader .registered)
          else some (world.complete reader [])
      | _ => none
  | .loadCursor reader => match (world.readers reader).phase with
      | .registered => (world.store.cursor reader pcollectionId).map fun (store, cursor) =>
          { world with store }.setPhase reader (.loaded cursor)
      | _ => none
  | .determineLatest reader => match (world.readers reader).phase with
      | .loaded cursor =>
          let (range, latest) := world.store.planIncremental pcollectionId cursor
          some (world.setPhase reader (.planned range latest))
      | _ => none
  | .openRead reader read => match (world.readers reader).phase with
      | .planned range latest =>
          let batches := range.elim [] fun range => read.toArrow (FlareElementStore.keptAfter none)
            (world.store.plannedRows pcollectionId (some range))
          some (world.setPhase reader (.draining [] batches latest))
      | _ => none
  | .nextBatch reader => match (world.readers reader).phase with
      | .draining handed (batch :: batches) latest =>
          some (world.setPhase reader (.draining (handed ++ batch) batches latest))
      | _ => none
  | .persistCursor reader => match (world.readers reader).phase with
      | .draining handed [] latest =>
          let store := latest.elim world.store (world.store.setCursor reader pcollectionId)
          some ({ world with store }.complete reader handed)
      | _ => none
  | .abandon reader => some (world.setPhase reader .idle)
  | .restart =>
      some { store := { world.store with registry := [], cursors := ∅, commitMinTs := ∅ }
             readers := fun reader => { world.readers reader with phase := .idle } }

end ReaderWorld

section Cursors

variable {store : FlareElementStore} {pcollectionId reader : String} {cursor : Option Int64}

/-- A snapshot id is read back from its bytes. -/
theorem decodeSnapshot_encodeSnapshot (snapshotId : Int64) :
    decodeSnapshot (encodeSnapshot snapshotId) = some snapshotId := by
  have hBytes : BigEndian.toNat (encodeSnapshot snapshotId) = snapshotId.toUInt64.toNat :=
    BigEndian.toNat_toBytes_of_lt (UInt64.toNat_lt _)
  rw [decodeSnapshot, hBytes, if_pos (by simp [encodeSnapshot]), UInt64.ofNat_toNat,
    Int64.toInt64_toUInt64]

/-- Two readers of a table have two cursors. -/
theorem cursorKey_reader_injective {other : String}
    (h : cursorKey reader pcollectionId = cursorKey other pcollectionId) : reader = other := by
  rw [cursorKey, cursorKey, ← String.toList_inj] at h
  exact String.toList_inj.mp (by simpa using h)

/-- A reader's cursor: the durable value, which a cached value agrees with. -/
structure CursorIs (store : FlareElementStore) (pcollectionId reader : String)
    (cursor : Option Int64) : Prop where
  durable : store.cursorStore.lookup (utf8Bytes (cursorKey reader pcollectionId)) =
    cursor.map encodeSnapshot
  cached : ∀ snapshotId, store.cursors.lookup (cursorKey reader pcollectionId) = some snapshotId →
    cursor = some snapshotId

/-- Loading returns the cursor, and at most adds it to the cache. -/
theorem CursorIs.cursor_eq (h : CursorIs store pcollectionId reader cursor) :
    ∃ loaded, store.cursor reader pcollectionId = some (loaded, cursor) ∧
      (loaded = store ∨ ∃ snapshotId, cursor = some snapshotId ∧
        loaded = store.cacheCursor (cursorKey reader pcollectionId) snapshotId) := by
  unfold FlareElementStore.cursor
  cases hCached : store.cursors.lookup (cursorKey reader pcollectionId) with
  | some snapshotId => exact ⟨store, by simp [hCached, h.cached snapshotId hCached], .inl rfl⟩
  | none =>
      cases cursor with
      | none => exact ⟨store, by simp [hCached, h.durable], .inl rfl⟩
      | some snapshotId =>
          refine ⟨_, ?_, .inr ⟨snapshotId, rfl, rfl⟩⟩
          simp [hCached, h.durable, decodeSnapshot_encodeSnapshot]

/-- Caching one reader's cursor changes no cursor. -/
theorem CursorIs.cache {other : String} {cached : Option Int64} {snapshotId : Int64}
    (h : CursorIs store pcollectionId other cached)
    (hReader : CursorIs store pcollectionId reader (some snapshotId)) :
    CursorIs (store.cacheCursor (cursorKey reader pcollectionId) snapshotId) pcollectionId other
      cached := by
  refine ⟨h.durable, fun found hFound => ?_⟩
  by_cases hSame : cursorKey other pcollectionId = cursorKey reader pcollectionId
  · have hOther : cached.map encodeSnapshot = some (encodeSnapshot snapshotId) := by
      rw [← h.durable, hSame, hReader.durable, Option.map_some]
    obtain ⟨value, rfl, hValue⟩ := Option.map_eq_some_iff.mp hOther
    have hDecoded := congrArg decodeSnapshot hValue
    rw [decodeSnapshot_encodeSnapshot, decodeSnapshot_encodeSnapshot] at hDecoded
    rw [FlareElementStore.cacheCursor, hSame, AList.lookup_insert] at hFound
    rw [hDecoded, hFound]
  · exact h.cached found (by rwa [FlareElementStore.cacheCursor, AList.lookup_insert_ne hSame] at hFound)

/-- A cursor that is set is there. -/
theorem cursorIs_setCursor (snapshotId : Int64) :
    CursorIs (store.setCursor reader pcollectionId snapshotId) pcollectionId reader
      (some snapshotId) :=
  ⟨AList.lookup_insert _, fun found hFound => by
    rw [FlareElementStore.setCursor, FlareElementStore.cacheCursor, AList.lookup_insert] at hFound
    exact hFound⟩

/-- A cursor under another key is not changed. -/
theorem CursorIs.setCursor_of_key {other otherId : String}
    (h : CursorIs store pcollectionId reader cursor)
    (hKey : cursorKey reader pcollectionId ≠ cursorKey other otherId) (snapshotId : Int64) :
    CursorIs (store.setCursor other otherId snapshotId) pcollectionId reader cursor := by
  have hBytes : utf8Bytes (cursorKey reader pcollectionId) ≠ utf8Bytes (cursorKey other otherId) :=
    fun hSame => hKey (utf8Bytes_injective hSame)
  refine ⟨?_, fun found hFound => h.cached found ?_⟩
  · rw [FlareElementStore.setCursor, FlareElementStore.cacheCursor, AList.lookup_insert_ne hBytes]
    exact h.durable
  · rwa [FlareElementStore.setCursor, FlareElementStore.cacheCursor,
      AList.lookup_insert_ne hKey] at hFound

/-- It leaves the cursor of every other reader. -/
theorem CursorIs.setCursor {other : String} (h : CursorIs store pcollectionId reader cursor)
    (hNe : reader ≠ other) (snapshotId : Int64) :
    CursorIs (store.setCursor other pcollectionId snapshotId) pcollectionId reader cursor :=
  h.setCursor_of_key (fun hSame => hNe (cursorKey_reader_injective hSame)) snapshotId

end Cursors

section Positions

/-- A cursor that has consumed the first `position` commits. -/
def AtPosition (cursor : Option Int64) (position : Nat) : Prop :=
  (cursor = none ∧ position = 0) ∨ cursor = some (Int64.ofNat position)

/-- The rows of the commits after `position`, up to `target`. -/
def segment (commits : List (List WindowedValue)) (position target : Nat) : List WindowedValue :=
  ((commits.take target).drop position).flatten

/-- The reads delivered, one after the other, the rows of consecutive runs of
commits that make up the first `position` commits. -/
def DeliveredPrefix (commits delivered : List (List WindowedValue)) (position : Nat) : Prop :=
  ∃ cuts : List (List (List WindowedValue)), cuts.flatten = commits.take position ∧
    List.Forall₂ (fun rows cut => rows.Perm cut.flatten) delivered cuts

/-- What a plan may say about a reader at `position`: it covers the commits up
to `target`, and records the target as the next cursor. -/
def PlanReaches (position target : Nat) (range : Option (Int64 × Int64)) (latest : Option Int64) :
    Prop :=
  AtPosition latest target ∧
    ((range = none ∧ target = position) ∨
      range = some (Int64.ofNat position, Int64.ofNat target))

variable {commits delivered : List (List WindowedValue)} {position target : Nat}

/-- A read of the segment up to a later position delivers the log up to there. -/
theorem DeliveredPrefix.read (h : DeliveredPrefix commits delivered position)
    (hTarget : position ≤ target) {rows : List WindowedValue}
    (hRows : rows.Perm (segment commits position target)) :
    DeliveredPrefix commits (delivered ++ [rows]) target := by
  obtain ⟨cuts, hCuts, hReads⟩ := h
  refine ⟨cuts ++ [(commits.take target).drop position], ?_, ?_⟩
  · have hTake : commits.take position = (commits.take target).take position := by
      rw [List.take_take, Nat.min_eq_left hTarget]
    rw [List.flatten_append, List.flatten_singleton, hCuts, hTake, List.take_append_drop]
  · exact List.rel_append hReads (.cons hRows .nil)

/-- In total, every row of those commits, each once. -/
theorem DeliveredPrefix.perm (h : DeliveredPrefix commits delivered position) :
    delivered.flatten.Perm (commits.take position).flatten := by
  obtain ⟨cuts, hCuts, hReads⟩ := h
  rw [← hCuts]
  clear hCuts
  induction hReads with
  | nil => exact List.Perm.refl _
  | cons hRows _ ih => simpa using hRows.append ih

/-- A commit changes nothing of what was delivered. -/
theorem DeliveredPrefix.commit (h : DeliveredPrefix commits delivered position)
    (hPosition : position ≤ commits.length) (rows : List WindowedValue) :
    DeliveredPrefix (commits ++ [rows]) delivered position := by
  rwa [DeliveredPrefix, List.take_append_of_le_length hPosition]

/-- A commit changes no segment of the log before it. -/
theorem segment_commit (hTarget : target ≤ commits.length) (rows : List WindowedValue) :
    segment (commits ++ [rows]) position target = segment commits position target := by
  rw [segment, List.take_append_of_le_length hTarget, segment]

theorem ofNat_le_ofNat {a b : Nat} (ha : a < 2 ^ 63) (hb : b < 2 ^ 63) :
    Int64.ofNat a ≤ Int64.ofNat b ↔ a ≤ b := by
  rw [Int64.le_iff_toInt_le, Int64.toInt_ofNat_of_lt ha, Int64.toInt_ofNat_of_lt hb,
    Int.ofNat_le]

variable {store : FlareElementStore} {pcollectionId : String}

/-- The snapshot range of a plan: from the reader's position to the latest
commit, whether or not the reader has a cursor yet. -/
theorem planReaches_latest {cursor : Option Int64}
    (hCommits : (store.getExistingTable pcollectionId).elim [] PaimonTable.commits = commits)
    (hFits : commits.length < 2 ^ 63) (hCursor : AtPosition cursor position)
    (hPosition : position ≤ commits.length) :
    PlanReaches position commits.length (store.planIncremental pcollectionId cursor).1
      (store.planIncremental pcollectionId cursor).2 := by
  have hUnread : commits = [] → PlanReaches position commits.length none cursor := by
    intro hEmpty
    have hSame : commits.length = position := by
      rw [hEmpty] at hPosition ⊢
      exact (Nat.le_zero.mp hPosition).symm
    rw [hSame]
    exact ⟨hCursor, .inl ⟨rfl, rfl⟩⟩
  unfold FlareElementStore.planIncremental
  cases hTable : store.getExistingTable pcollectionId with
  | none =>
      rw [hTable, Option.elim_none] at hCommits
      exact hUnread hCommits.symm
  | some table =>
      rw [hTable, Option.elim_some] at hCommits
      by_cases hEmpty : commits = []
      · simpa [PaimonTable.latestSnapshotId, hCommits, hEmpty] using hUnread hEmpty
      · have hStart : (cursor.elim ((1 : Int64) - 1) fun cursor => max cursor (1 - 1)) =
            Int64.ofNat position := by
          rcases hCursor with ⟨rfl, rfl⟩ | rfl
          · rfl
          · have hNonneg : Int64.ofNat 0 ≤ Int64.ofNat position :=
              (ofNat_le_ofNat (by decide) (by omega)).mpr (Nat.zero_le _)
            show (if Int64.ofNat position ≤ 1 - 1 then (1 : Int64) - 1 else Int64.ofNat position) = _
            split
            next h => exact Int64.le_antisymm hNonneg h
            next => rfl
        simp only [PaimonTable.latestSnapshotId, PaimonTable.earliestSnapshotId, hCommits,
          List.isEmpty_eq_false_iff.mpr hEmpty, Bool.false_eq_true, if_false, Option.getD_some,
          hStart]
        split
        next h =>
          have hDone : commits.length = position :=
            Nat.le_antisymm ((ofNat_le_ofNat hFits (by omega)).mp h) hPosition
          exact ⟨.inr rfl, .inl ⟨rfl, hDone⟩⟩
        next => exact ⟨.inr rfl, .inr rfl⟩

/-- The rows a plan reads are a segment of the log. -/
theorem plannedRows_eq {range : Option (Int64 × Int64)} {latest : Option Int64}
    (hCommits : (store.getExistingTable pcollectionId).elim [] PaimonTable.commits = commits)
    (hFits : commits.length < 2 ^ 63) (hPosition : position ≤ target)
    (hTarget : target ≤ commits.length) (hPlan : PlanReaches position target range latest) :
    store.plannedRows pcollectionId range = segment commits position target := by
  have hClamp : ∀ {n : Nat}, n < 2 ^ 63 → (Int64.ofNat n).toNatClampNeg = n := by
    intro n hn
    rw [← Int64.toNat_toInt, Int64.toInt_ofNat_of_lt hn, Int.toNat_natCast]
  rcases hPlan.2 with ⟨rfl, rfl⟩ | rfl
  · rw [segment, List.drop_of_length_le (List.length_take_le _ _)]
    rfl
  · unfold FlareElementStore.plannedRows
    cases hTable : store.getExistingTable pcollectionId with
    | none =>
        rw [hTable, Option.elim_none] at hCommits
        simp [segment, ← hCommits]
    | some table =>
        rw [hTable, Option.elim_some] at hCommits
        simp only [Option.map_some, Option.getD_some, PaimonTable.appendedBetween, segment,
          hCommits]
        rw [hClamp (by omega), hClamp (by omega)]

end Positions

/-- What a read in progress knows of the log. -/
def PhaseFits (commits : List (List WindowedValue)) (position : Nat) (cursor : Option Int64) :
    ReadPhase → Prop
  | .idle | .registered => True
  | .loaded loaded => loaded = cursor
  | .planned range latest => ∃ target, position ≤ target ∧ target ≤ commits.length ∧
      PlanReaches position target range latest
  | .draining handed batches latest => ∃ target, position ≤ target ∧ target ≤ commits.length ∧
      AtPosition latest target ∧ (handed ++ batches.flatten).Perm (segment commits position target)

/-- A commit leaves a read in progress as it is: its range is already fixed. -/
theorem PhaseFits.commit {commits : List (List WindowedValue)} {position : Nat}
    {cursor : Option Int64} {phase : ReadPhase} (h : PhaseFits commits position cursor phase)
    (rows : List WindowedValue) : PhaseFits (commits ++ [rows]) position cursor phase := by
  have hGrows : ∀ {target}, target ≤ commits.length → target ≤ (commits ++ [rows]).length := by
    intro target hTarget
    simpa using Nat.le_succ_of_le hTarget
  cases phase with
  | idle | registered | loaded => exact h
  | planned range latest =>
      obtain ⟨target, hPosition, hTarget, hPlan⟩ := h
      exact ⟨target, hPosition, hGrows hTarget, hPlan⟩
  | draining handed batches latest =>
      obtain ⟨target, hPosition, hTarget, hLatest, hRows⟩ := h
      exact ⟨target, hPosition, hGrows hTarget, hLatest, segment_commit hTarget rows ▸ hRows⟩

/-- A reader that has been delivered the first `position` commits. -/
structure ReaderAt (commits : List (List WindowedValue)) (store : FlareElementStore)
    (pcollectionId reader : String) (state : ReaderState) (position : Nat)
    (cursor : Option Int64) : Prop where
  inLog : position ≤ commits.length
  cursorIs : CursorIs store pcollectionId reader cursor
  atPosition : AtPosition cursor position
  delivered : DeliveredPrefix commits state.delivered position
  phase : PhaseFits commits position cursor state.phase

namespace ReaderWorld

variable {pcollectionId reader : String} {world next : ReaderWorld}

/-- The invariant: snapshot ids fit, and every reader is at some position. -/
structure FollowsLog (pcollectionId : String) (world : ReaderWorld) : Prop where
  fits : (world.log pcollectionId).length < 2 ^ 63
  readers : ∀ reader, ∃ position cursor, ReaderAt (world.log pcollectionId) world.store
    pcollectionId reader (world.readers reader) position cursor

/-- A step of one reader: it touches neither the log nor any other reader, and
keeps its position and cursor unless it persists the cursor. -/
structure ReaderStep (pcollectionId reader : String) (persists : Prop)
    (world next : ReaderWorld) : Prop where
  log_eq : next.log pcollectionId = world.log pcollectionId
  others : ∀ other, other ≠ reader → next.readers other = world.readers other ∧
    ∀ cursor, CursorIs world.store pcollectionId other cursor →
      CursorIs next.store pcollectionId other cursor
  own : ∀ position cursor,
    ReaderAt (world.log pcollectionId) world.store pcollectionId reader (world.readers reader)
        position cursor →
      ∃ position' cursor',
        ReaderAt (world.log pcollectionId) next.store pcollectionId reader (next.readers reader)
          position' cursor' ∧ (¬persists → position' = position ∧ cursor' = cursor)

@[simp] theorem readers_setReader (state : ReaderState) (other : String) :
    (world.setReader reader state).readers other =
      if other = reader then state else world.readers other := rfl

/-- A step that only moves the reader to its next phase. -/
theorem readerStep_setPhase {phase : ReadPhase}
    (hPhase : ∀ position cursor, ReaderAt (world.log pcollectionId) world.store pcollectionId
      reader (world.readers reader) position cursor →
        PhaseFits (world.log pcollectionId) position cursor phase) (persists : Prop) :
    ReaderStep pcollectionId reader persists world (world.setPhase reader phase) where
  log_eq := rfl
  others := fun other hNe => ⟨by simp [setPhase, hNe], fun _ h => h⟩
  own := by
    intro position cursor hAt
    refine ⟨position, cursor, ?_, fun _ => ⟨rfl, rfl⟩⟩
    rw [setPhase, readers_setReader, if_pos rfl]
    exact { hAt with phase := hPhase position cursor hAt }

/-- Loading its cursor is a step of the reader. -/
theorem readerStep_loadCursor {loaded : FlareElementStore} {cursor : Option Int64}
    (hFollows : FollowsLog pcollectionId world)
    (hLoaded : world.store.cursor reader pcollectionId = some (loaded, cursor))
    (persists : Prop) :
    ReaderStep pcollectionId reader persists world
      ({ world with store := loaded }.setPhase reader (.loaded cursor)) := by
  obtain ⟨position, own, hOwn⟩ := hFollows.readers reader
  obtain ⟨found, hFound, hStore⟩ := hOwn.cursorIs.cursor_eq
  rw [hFound, Option.some.injEq, Prod.mk.injEq] at hLoaded
  obtain ⟨rfl, rfl⟩ := hLoaded
  have hCursors : ∀ other cursor, CursorIs world.store pcollectionId other cursor →
      CursorIs found pcollectionId other cursor := by
    intro other cursor h
    rcases hStore with rfl | ⟨snapshotId, rfl, rfl⟩
    · exact h
    · exact h.cache hOwn.cursorIs
  have hTables : found.tables = world.store.tables := by
    rcases hStore with rfl | ⟨snapshotId, rfl, rfl⟩ <;> rfl
  refine ⟨?_, fun other hNe => ⟨by simp [setPhase, hNe], hCursors other⟩, ?_⟩
  · simp [log, setPhase, setReader, FlareElementStore.getExistingTable, hTables]
  · intro position' cursor hAt
    refine ⟨position', cursor, ?_, fun _ => ⟨rfl, rfl⟩⟩
    have hSame : own = cursor := by
      obtain ⟨_, hAgain, _⟩ := hAt.cursorIs.cursor_eq
      rw [hFound, Option.some.injEq, Prod.mk.injEq] at hAgain
      exact hAgain.2
    rw [setPhase, readers_setReader, if_pos rfl]
    exact { hAt with cursorIs := hCursors reader cursor hAt.cursorIs, phase := hSame }

/-- So is persisting it. -/
theorem readerStep_persistCursor {handed : List WindowedValue} {latest : Option Int64}
    (hPhase : (world.readers reader).phase = .draining handed [] latest) {persists : Prop}
    (hPersists : persists) :
    ReaderStep pcollectionId reader persists world
      (complete { world with
          store := latest.elim world.store (world.store.setCursor reader pcollectionId) }
        reader handed) := by
  refine ⟨?_, fun other hNe => ⟨by simp [complete, hNe], fun cursor h => ?_⟩, ?_⟩
  · cases latest <;> rfl
  · cases latest with
    | none => exact h
    | some snapshotId => exact h.setCursor hNe snapshotId
  · intro position cursor hAt
    have hDraining := hAt.phase
    rw [hPhase] at hDraining
    obtain ⟨target, hPosition, hTarget, hLatest, hRows⟩ := hDraining
    rw [List.flatten_nil, List.append_nil] at hRows
    have hDelivered := hAt.delivered.read hPosition hRows
    rw [complete, readers_setReader, if_pos rfl]
    cases latest with
    | none =>
        have hZero : target = 0 := by
          rcases hLatest with ⟨_, hZero⟩ | hSome
          · exact hZero
          · cases hSome
        have hSame : target = position := by omega
        exact ⟨target, cursor, ⟨hTarget, hAt.cursorIs, hSame ▸ hAt.atPosition, hDelivered,
          trivial⟩, fun hNot => absurd hPersists hNot⟩
    | some snapshotId =>
        exact ⟨target, some snapshotId, ⟨hTarget, cursorIs_setCursor snapshotId, hLatest,
          hDelivered, trivial⟩, fun hNot => absurd hPersists hNot⟩

/-- A read of a PCollection without a schema returns at once, with no rows. -/
theorem readerStep_complete_nil (persists : Prop) :
    ReaderStep pcollectionId reader persists world (world.complete reader []) where
  log_eq := rfl
  others := fun other hNe => ⟨by simp [complete, hNe], fun _ h => h⟩
  own := by
    intro position cursor hAt
    refine ⟨position, cursor, ?_, fun _ => ⟨rfl, rfl⟩⟩
    rw [complete, readers_setReader, if_pos rfl]
    have hNothing : segment (world.log pcollectionId) position position = [] := by
      rw [segment, List.drop_of_length_le (List.length_take_le _ _), List.flatten_nil]
    exact { hAt with
      delivered := hAt.delivered.read (Nat.le_refl _) (hNothing ▸ List.Perm.refl _)
      phase := trivial }

/-- What each step of a reader does. -/
theorem readerStep_of_step (hFollows : FollowsLog pcollectionId world) {action : ReaderAction}
    (hReader : action.reader = some reader)
    (hStep : step pcollectionId world action = some next) :
    ReaderStep pcollectionId reader (action = .persistCursor reader) world next := by
  cases action with
  | register | createTable | commit | restart => cases hReader
  | start owner =>
      cases hReader
      simp only [step] at hStep
      split at hStep
      · split at hStep
        · cases hStep
          refine readerStep_setPhase (fun _ _ _ => ?_) _
          trivial
        · cases hStep
          exact readerStep_complete_nil _
      · cases hStep
  | loadCursor owner =>
      cases hReader
      simp only [step] at hStep
      split at hStep
      · obtain ⟨⟨loaded, cursor⟩, hLoaded, hNext⟩ := Option.map_eq_some_iff.mp hStep
        cases hNext
        exact readerStep_loadCursor hFollows hLoaded _
      · cases hStep
  | determineLatest owner =>
      cases hReader
      simp only [step] at hStep
      split at hStep
      next cursor hPhase =>
        cases hStep
        refine readerStep_setPhase (fun position own hAt => ?_) _
        have hLoaded := hAt.phase
        rw [hPhase] at hLoaded
        subst hLoaded
        exact ⟨_, hAt.inLog, Nat.le_refl _,
          planReaches_latest rfl hFollows.fits hAt.atPosition hAt.inLog⟩
      · cases hStep
  | openRead owner read =>
      cases hReader
      simp only [step] at hStep
      split at hStep
      next range latest hPhase =>
        cases hStep
        refine readerStep_setPhase (fun position own hAt => ?_) _
        have hPlanned := hAt.phase
        rw [hPhase] at hPlanned
        obtain ⟨target, hPosition, hTarget, hPlan⟩ := hPlanned
        have hRows : world.store.plannedRows pcollectionId range =
            segment (world.log pcollectionId) position target :=
          plannedRows_eq rfl hFollows.fits hPosition hTarget hPlan
        refine ⟨target, hPosition, hTarget, hPlan.1, ?_⟩
        rw [List.nil_append, ← hRows]
        cases range with
        | none => exact List.Perm.refl _
        | some range =>
            have hEvery := List.filter_eq_self (l := world.store.plannedRows pcollectionId
              (some range)) (p := FlareElementStore.keptAfter none) |>.mpr fun _ _ => rfl
            exact (read.exact _ _).trans (List.Perm.of_eq hEvery)
      · cases hStep
  | nextBatch owner =>
      cases hReader
      simp only [step] at hStep
      split at hStep
      next handed batch batches latest hPhase =>
        cases hStep
        refine readerStep_setPhase (fun position own hAt => ?_) _
        have hDraining := hAt.phase
        rw [hPhase] at hDraining
        obtain ⟨target, hPosition, hTarget, hLatest, hRows⟩ := hDraining
        refine ⟨target, hPosition, hTarget, hLatest, ?_⟩
        rwa [List.append_assoc, ← List.flatten_cons]
      · cases hStep
  | persistCursor owner =>
      cases hReader
      simp only [step] at hStep
      split at hStep
      next handed latest hPhase =>
        cases hStep
        exact readerStep_persistCursor hPhase rfl
      · cases hStep
  | abandon owner =>
      cases hReader
      cases hStep
      refine readerStep_setPhase (fun _ _ _ => ?_) _
      trivial

/-- The other steps keep the log and every reader's position. -/
theorem sharedStep (hFollows : FollowsLog pcollectionId world) {action : ReaderAction}
    (hShared : action.reader = none) (hStep : step pcollectionId world action = some next) :
    (next.log pcollectionId).length < 2 ^ 63 ∧
      ∀ reader position cursor,
        ReaderAt (world.log pcollectionId) world.store pcollectionId reader (world.readers reader)
            position cursor →
          ReaderAt (next.log pcollectionId) next.store pcollectionId reader (next.readers reader)
            position cursor := by
  cases action with
  | start | loadCursor | determineLatest | openRead | nextBatch | persistCursor | abandon =>
      cases hShared
  | register =>
      cases hStep
      have hStore : (world.store.registerIfAbsent pcollectionId) = world.store ∨
          (world.store.registerIfAbsent pcollectionId) =
            { world.store with registry := pcollectionId :: world.store.registry } := by
        unfold FlareElementStore.registerIfAbsent
        split
        · exact .inl rfl
        · exact .inr rfl
      rcases hStore with hStore | hStore <;> rw [hStore] <;>
        exact ⟨hFollows.fits, fun reader position cursor hAt =>
          ⟨hAt.inLog, ⟨hAt.cursorIs.durable, hAt.cursorIs.cached⟩, hAt.atPosition, hAt.delivered,
            hAt.phase⟩⟩
  | createTable =>
      simp only [step] at hStep
      split at hStep
      · cases hStep
      next hAbsent =>
        cases hStep
        have hLog : world.log pcollectionId = [] := by rw [log, hAbsent, Option.elim_none]
        have hNext : ReaderWorld.log { world with store := { world.store with
            tables := world.store.tables.insert (sanitizePcollectionId pcollectionId)
              { commits := [] } } } pcollectionId = [] := by
          rw [log, FlareElementStore.getExistingTable, AList.lookup_insert, Option.elim_some]
        rw [hNext, hLog]
        exact ⟨by decide, fun reader position cursor hAt =>
          ⟨hAt.inLog, ⟨hAt.cursorIs.durable, hAt.cursorIs.cached⟩, hAt.atPosition, hAt.delivered,
            hAt.phase⟩⟩
  | commit rows =>
      simp only [step] at hStep
      split at hStep
      next hRoom =>
        cases hStep
        have hNext : ReaderWorld.log { world with
            store := world.store.ingestBatch pcollectionId rows } pcollectionId =
              world.log pcollectionId ++ [rows] := by
          rw [log, FlareElementStore.getExistingTable, FlareElementStore.ingestBatch,
            AList.lookup_insert, Option.elim_some]
          rfl
        rw [hNext]
        refine ⟨by simpa using hRoom, fun reader position cursor hAt => ?_⟩
        exact ⟨by simpa using Nat.le_succ_of_le hAt.inLog,
          ⟨hAt.cursorIs.durable, hAt.cursorIs.cached⟩, hAt.atPosition,
          hAt.delivered.commit hAt.inLog rows, hAt.phase.commit rows⟩
      · cases hStep
  | restart =>
      cases hStep
      refine ⟨hFollows.fits, fun reader position cursor hAt => ⟨hAt.inLog,
        ⟨hAt.cursorIs.durable, fun snapshotId hFound => ?_⟩, hAt.atPosition, hAt.delivered,
        trivial⟩⟩
      cases hFound

/-- Every step keeps each reader at its place in the log. -/
theorem FollowsLog.step (hFollows : FollowsLog pcollectionId world) {action : ReaderAction}
    (hStep : step pcollectionId world action = some next) : FollowsLog pcollectionId next := by
  cases hOwner : action.reader with
  | none =>
      obtain ⟨hFits, hKept⟩ := sharedStep hFollows hOwner hStep
      refine ⟨hFits, fun reader => ?_⟩
      obtain ⟨position, cursor, hAt⟩ := hFollows.readers reader
      exact ⟨position, cursor, hKept reader position cursor hAt⟩
  | some owner =>
      have hReads := readerStep_of_step hFollows hOwner hStep
      refine ⟨hReads.log_eq ▸ hFollows.fits, fun reader => ?_⟩
      obtain ⟨position, cursor, hAt⟩ := hFollows.readers reader
      rw [hReads.log_eq]
      by_cases hSame : reader = owner
      · subst hSame
        obtain ⟨position', cursor', hNext, _⟩ := hReads.own position cursor hAt
        exact ⟨position', cursor', hNext⟩
      · obtain ⟨hState, hCursor⟩ := hReads.others reader hSame
        exact ⟨position, cursor, { hAt with
          cursorIs := hCursor cursor hAt.cursorIs
          delivered := hState ▸ hAt.delivered
          phase := hState ▸ hAt.phase }⟩

end ReaderWorld

end FlareDB
