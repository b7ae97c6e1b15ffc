import FlareDB.Coders.Standard
import FlareDB.Lib.BigEndian
import FlareDB.Lib.WriteBack

/-! Durable user state: cells of opaque bytes in a key/value store, behind a
write-back cache that flushes once enough cells are dirty and forgets clean
cells once it is too large. Every operation holds the cache's lock. -/
namespace FlareDB

open KeyedStore WriteBack

abbrev StateKey := List UInt8
abbrev StateValue := List UInt8

/-- Four bytes of length before the bytes of one component. -/
def stateKeyPart (part : List UInt8) : List UInt8 :=
  BigEndian.toBytes 4 (part.length % 2 ^ 32) ++ part

/-- Deterministic composite key of a cell. -/
def buildStateKey (transformId userStateId : String) (window key : List UInt8) : StateKey :=
  [utf8Bytes transformId, utf8Bytes userStateId, window, key].flatMap stateKeyPart

inductive StateError where
  | readFailed
  | applyFailed
deriving DecidableEq, Repr

abbrev KvStore := Store StateKey StateValue

/-- An order in which a hash map is iterated. -/
structure HashOrder where
  order : List StateKey → List StateKey
  perm : ∀ keys, (order keys).Perm keys

/-- What an operation meets: whether the store fails, and the iteration orders
of the evictions after a read and after a write. -/
structure Surroundings where
  readFails : Bool
  applyFails : Bool
  afterRead : HashOrder
  afterWrite : HashOrder

/-- A store that does not fail, and maps iterated in the order they are kept. -/
def Surroundings.calm : Surroundings where
  readFails := false
  applyFails := false
  afterRead := ⟨id, fun _ => .refl _⟩
  afterWrite := ⟨id, fun _ => .refl _⟩

namespace KvStore

def get (store : KvStore) (fails : Bool) (key : StateKey) : Except StateError (Option StateValue) :=
  if fails then .error .readFailed else .ok (store.lookup key)

/-- A batch applied as a single durable unit, as the trait `KvStore` asks: one that
fails changes nothing. This is an assumption about the store, and `SlateKvStore`,
which writes key by key and ends at the first error, may keep a first part. -/
def apply (store : KvStore) (fails : Bool) (writes : Store StateKey (Option StateValue)) :
    Except StateError KvStore :=
  if fails then .error .applyFailed else .ok (applyWrites writes store)

end KvStore

def stateFlushThreshold : Nat := 512
def stateCacheMaxEntries : Nat := 100000
def stateCacheEvictTarget : Nat := stateCacheMaxEntries / 4 * 3

abbrev StateCache := Cache StateKey StateValue

namespace StateCache

/-- Keep a dirty cell, and a clean one when there is no excess left. -/
def retainCells (cache : StateCache) (excess : Nat) : List StateKey → StateCache
  | [] => cache
  | key :: keys =>
      if 0 < excess ∧ key ∉ cache.dirty then
        retainCells (cache.drop key) (excess - 1) keys
      else retainCells cache excess keys

/-- Drop clean cells until at most `target` remain. -/
def evictCleanToFit (cache : StateCache) (iteration : HashOrder) (target : Nat) : StateCache :=
  if cache.values.keys.length ≤ target then cache
  else cache.retainCells (cache.values.keys.length - target) (iteration.order cache.values.keys)

def evictIfNeeded (cache : StateCache) (iteration : HashOrder) : StateCache :=
  if stateCacheMaxEntries < cache.values.keys.length then
    cache.evictCleanToFit iteration stateCacheEvictTarget
  else cache

end StateCache

structure StateBackend where
  store : KvStore
  cache : StateCache

namespace StateBackend

def withStore (store : KvStore) : StateBackend where
  store := store
  cache := .empty

variable (backend : StateBackend) (surroundings : Surroundings)

/-- Read a cell from the cache, or else from the store. -/
def getLocked (key : StateKey) : Except StateError (Option StateValue) × StateBackend :=
  match backend.cache.values.lookup key with
  | some value => (.ok value, backend)
  | none => match backend.store.get surroundings.readFails key with
      | .error reason => (.error reason, backend)
      | .ok value =>
          let cache : StateCache := backend.cache.load key value
          (.ok value, { backend with cache := cache.evictIfNeeded surroundings.afterRead })

/-- Commit every dirty cell in one durable batch. -/
def flushLocked : Except StateError Unit × StateBackend :=
  if backend.cache.dirty.keys.isEmpty then (.ok (), backend)
  else match backend.store.apply surroundings.applyFails backend.cache.writes with
    | .error reason => (.error reason, backend)
    | .ok store => (.ok (), { store := store, cache := { backend.cache with dirty := ∅ } })

def maybeFlush : Except StateError Unit × StateBackend :=
  if stateFlushThreshold ≤ backend.cache.dirty.keys.length then backend.flushLocked surroundings
  else (.ok (), backend)

/-- Cache a changed cell, then flush if enough cells are dirty. -/
def writeCell (key : StateKey) (value : Option StateValue) : Except StateError Unit × StateBackend :=
  let cache : StateCache := backend.cache.write key value
  maybeFlush { backend with cache := cache.evictIfNeeded surroundings.afterWrite } surroundings

def get (key : StateKey) : Except StateError (Option StateValue) × StateBackend :=
  backend.getLocked surroundings key

def put (key : StateKey) (value : StateValue) : Except StateError Unit × StateBackend :=
  backend.writeCell surroundings key (some value)

def delete (key : StateKey) : Except StateError Unit × StateBackend :=
  backend.writeCell surroundings key none

def readModifyWrite (key : StateKey) (update : StateValue → StateValue) :
    Except StateError Unit × StateBackend :=
  match backend.getLocked surroundings key with
  | (.error reason, after) => (.error reason, after)
  | (.ok current, after) => after.writeCell surroundings key (some (update (current.getD [])))

def flush : Except StateError Unit × StateBackend :=
  backend.flushLocked surroundings

end StateBackend

inductive StateOp where
  | get (key : StateKey)
  | put (key : StateKey) (value : StateValue)
  | delete (key : StateKey)
  | readModifyWrite (key : StateKey) (update : StateValue → StateValue)
  | flush

inductive StateReply where
  | found (value : Option StateValue)
  | done
  | failed (reason : StateError)
deriving DecidableEq, Repr

def StateReply.ofUnit : Except StateError Unit → StateReply
  | .ok () => .done
  | .error reason => .failed reason

def StateReply.ofValue : Except StateError (Option StateValue) → StateReply
  | .ok value => .found value
  | .error reason => .failed reason

/-- One operation on the backend. -/
def StateBackend.step (backend : StateBackend) (surroundings : Surroundings) :
    StateOp → StateReply × StateBackend
  | .get key => (backend.get surroundings key).map .ofValue id
  | .put key value => (backend.put surroundings key value).map .ofUnit id
  | .delete key => (backend.delete surroundings key).map .ofUnit id
  | .readModifyWrite key update =>
      (backend.readModifyWrite surroundings key update).map .ofUnit id
  | .flush => (backend.flush surroundings).map .ofUnit id

/-! What the operations keep. -/

namespace StateCache

variable {cache : StateCache} {store : KvStore}

theorem retainCells_spec (h : Coherent cache store) (excess : Nat) (keys : List StateKey) :
    Coherent (cache.retainCells excess keys) store ∧
      (cache.retainCells excess keys).view store = cache.view store := by
  induction keys generalizing cache excess with
  | nil => exact ⟨h, rfl⟩
  | cons key keys ih =>
      rw [retainCells]
      split
      next hDrop =>
        obtain ⟨hCoherent, hView⟩ := ih (h.drop hDrop.2) (excess - 1)
        exact ⟨hCoherent, hView.trans (h.view_drop hDrop.2)⟩
      · exact ih h excess

theorem evictIfNeeded_spec (h : Coherent cache store) (iteration : HashOrder) :
    Coherent (cache.evictIfNeeded iteration) store ∧
      (cache.evictIfNeeded iteration).view store = cache.view store := by
  rw [evictIfNeeded]
  split
  · rw [evictCleanToFit]
    split
    · exact ⟨h, rfl⟩
    · exact retainCells_spec h _ _
  · exact ⟨h, rfl⟩

end StateCache

/-- The state as clients see it. -/
abbrev PlainMap := StateKey → Option StateValue

namespace StateBackend

def view (backend : StateBackend) : PlainMap :=
  backend.cache.view backend.store

/-- The backend serves a plain map. -/
structure Serves (backend : StateBackend) (plain : PlainMap) : Prop where
  coherent : Coherent backend.cache backend.store
  view : backend.view = plain

variable {backend : StateBackend} {plain : PlainMap}

theorem serves_withStore (store : KvStore) : (withStore store).Serves store.lookup where
  coherent := coherent_empty store
  view := view_empty store

/-- What a read does: it returns the cell of the plain map, or fails and
changes nothing. -/
theorem Serves.getLocked (h : backend.Serves plain) (surroundings : Surroundings)
    (key : StateKey) :
    ((backend.getLocked surroundings key).1 = .ok (plain key) ∧
      (backend.getLocked surroundings key).2.Serves plain) ∨
    ((backend.getLocked surroundings key).1 = .error .readFailed ∧
      (backend.getLocked surroundings key).2 = backend) := by
  have hKey : backend.cache.view backend.store key = plain key := congrFun h.view key
  rw [StateBackend.getLocked]
  cases hCached : backend.cache.values.lookup key with
  | some value =>
      rw [view_of_cached hCached] at hKey
      exact .inl ⟨congrArg Except.ok hKey, h⟩
  | none =>
      rw [view_of_absent hCached] at hKey
      rw [KvStore.get]
      cases surroundings.readFails with
      | true => exact .inr ⟨rfl, rfl⟩
      | false =>
          have hLoaded := h.coherent.load hCached
          obtain ⟨hCoherent, hView⟩ := StateCache.evictIfNeeded_spec hLoaded surroundings.afterRead
          refine .inl ⟨congrArg Except.ok hKey, hCoherent, ?_⟩
          exact hView.trans ((Coherent.view_load hCached).trans h.view)

/-- A read fails only when the store's does. -/
theorem getLocked_failed {surroundings : Surroundings} {key : StateKey} {reason : StateError}
    (h : (backend.getLocked surroundings key).1 = .error reason) :
    surroundings.readFails = true := by
  rw [StateBackend.getLocked] at h
  cases hCached : backend.cache.values.lookup key with
  | some value =>
      rw [hCached] at h
      cases h
  | none =>
      rw [hCached, KvStore.get] at h
      cases hFails : surroundings.readFails with
      | true => rfl
      | false =>
          rw [hFails] at h
          cases h

/-- What a flush does: clients see what they saw, and after a success the store
holds it. -/
theorem Serves.flushLocked (h : backend.Serves plain) (surroundings : Surroundings) :
    (backend.flushLocked surroundings).2.Serves plain ∧
      ((backend.flushLocked surroundings).1 = .ok () →
        ∀ key, (backend.flushLocked surroundings).2.store.lookup key = plain key) := by
  rw [StateBackend.flushLocked]
  split
  next hEmpty =>
    refine ⟨h, fun _ key => ?_⟩
    have hClean : key ∉ backend.cache.dirty := by
      rw [AList.mem_keys, List.isEmpty_iff.mp hEmpty]
      exact List.not_mem_nil
    rw [← h.view, StateBackend.view]
    cases hValue : backend.cache.values.lookup key with
    | none => exact (view_of_absent hValue).symm
    | some value =>
        rw [view_of_cached hValue]
        exact (h.coherent.clean key value hValue hClean).symm
  · rw [KvStore.apply]
    cases surroundings.applyFails with
    | true => exact ⟨h, fun hDone => by cases hDone⟩
    | false =>
        refine ⟨⟨h.coherent.flushed, h.coherent.view_flushed.trans h.view⟩, fun _ key => ?_⟩
        exact (h.coherent.lookup_flushed key).trans (congrFun h.view key)

theorem Serves.maybeFlush (h : backend.Serves plain) (surroundings : Surroundings) :
    (backend.maybeFlush surroundings).2.Serves plain := by
  rw [StateBackend.maybeFlush]
  split
  · exact (h.flushLocked surroundings).1
  · exact h

/-- A write takes effect even when the flush that follows it fails. -/
theorem Serves.writeCell (h : backend.Serves plain) (surroundings : Surroundings)
    (key : StateKey) (value : Option StateValue) :
    (backend.writeCell surroundings key value).2.Serves (Function.update plain key value) := by
  rw [StateBackend.writeCell]
  have hWritten := h.coherent.write key value
  obtain ⟨hCoherent, hView⟩ := StateCache.evictIfNeeded_spec hWritten surroundings.afterWrite
  apply Serves.maybeFlush
  refine ⟨hCoherent, hView.trans ?_⟩
  rw [Coherent.view_write, ← h.view]
  rfl

end StateBackend

/-- The same operation on a plain map. A read-modify-write that could not read
the cell does nothing; one that failed later has already changed it. -/
def PlainMap.step (plain : PlainMap) : StateOp → StateReply → PlainMap
  | .put key value, _ => Function.update plain key (some value)
  | .delete key, _ => Function.update plain key none
  | .readModifyWrite _ _, .failed .readFailed => plain
  | .readModifyWrite key update, _ =>
      Function.update plain key (some (update ((plain key).getD [])))
  | .get _, _ => plain
  | .flush, _ => plain

namespace StateBackend

variable {backend : StateBackend} {plain : PlainMap}

theorem flushLocked_failed {surroundings : Surroundings} {reason : StateError}
    (h : (backend.flushLocked surroundings).1 = .error reason) :
    reason = .applyFailed ∧ surroundings.applyFails = true := by
  rw [flushLocked] at h
  split at h
  · cases h
  · rw [KvStore.apply] at h
    cases hFails : surroundings.applyFails with
    | true =>
        rw [hFails] at h
        cases h
        exact ⟨rfl, rfl⟩
    | false =>
        rw [hFails] at h
        cases h

theorem writeCell_failed {surroundings : Surroundings} {key : StateKey}
    {value : Option StateValue} {reason : StateError}
    (h : (backend.writeCell surroundings key value).1 = .error reason) :
    reason = .applyFailed ∧ surroundings.applyFails = true := by
  rw [writeCell, maybeFlush] at h
  split at h
  · exact flushLocked_failed h
  · cases h

theorem Serves.readModifyWrite (h : backend.Serves plain) (surroundings : Surroundings)
    (key : StateKey) (update : StateValue → StateValue) :
    (backend.readModifyWrite surroundings key update).2.Serves
      (plain.step (.readModifyWrite key update)
        (.ofUnit (backend.readModifyWrite surroundings key update).1)) := by
  rw [StateBackend.readModifyWrite]
  rcases hRead : backend.getLocked surroundings key with ⟨reply, after⟩
  have hSpec := h.getLocked surroundings key
  rw [hRead] at hSpec
  rcases hSpec with ⟨hFound, hAfter⟩ | ⟨hFailed, hAfter⟩
  · obtain rfl : reply = .ok (plain key) := hFound
    have hWritten := hAfter.writeCell surroundings key (some (update ((plain key).getD [])))
    show (after.writeCell surroundings key _).2.Serves _
    cases hWrite : (after.writeCell surroundings key (some (update ((plain key).getD [])))).1 with
    | ok _ => exact hWritten
    | error reason =>
        rw [(writeCell_failed hWrite).1]
        exact hWritten
  · obtain rfl : reply = .error .readFailed := hFailed
    obtain rfl : after = backend := hAfter
    exact h

/-- One operation serves the plain map that the same operation leads to. -/
theorem Serves.step (h : backend.Serves plain) (surroundings : Surroundings) (op : StateOp) :
    (backend.step surroundings op).2.Serves
      (plain.step op (backend.step surroundings op).1) := by
  cases op with
  | get key =>
      show (backend.getLocked surroundings key).2.Serves plain
      rcases h.getLocked surroundings key with ⟨-, hAfter⟩ | ⟨-, hAfter⟩
      · exact hAfter
      · rw [hAfter]
        exact h
  | put key value => exact h.writeCell surroundings key (some value)
  | delete key => exact h.writeCell surroundings key none
  | readModifyWrite key update => exact h.readModifyWrite surroundings key update
  | flush => exact (h.flushLocked surroundings).1

/-- A read that succeeds returns the cell of the plain map. -/
theorem Serves.found (h : backend.Serves plain) {surroundings : Surroundings} {key : StateKey}
    {value : Option StateValue} (hFound : (backend.step surroundings (.get key)).1 = .found value) :
    value = plain key := by
  have hReply : StateReply.ofValue (backend.getLocked surroundings key).1 = .found value := hFound
  rcases h.getLocked surroundings key with ⟨hRead, -⟩ | ⟨hRead, -⟩
  · rw [hRead] at hReply
    exact (StateReply.found.inj hReply).symm
  · rw [hRead] at hReply
    cases hReply

theorem ofUnit_eq_failed {result : Except StateError Unit} {reason : StateError}
    (h : StateReply.ofUnit result = .failed reason) : result = .error reason := by
  cases result with
  | ok _ => cases h
  | error other =>
      cases h
      rfl

/-- A read fails only where the store's read does. -/
theorem step_get_failed {surroundings : Surroundings} {key : StateKey} {reason : StateError}
    (h : (backend.step surroundings (.get key)).1 = .failed reason) :
    surroundings.readFails = true := by
  have hReply : StateReply.ofValue (backend.getLocked surroundings key).1 = .failed reason := h
  cases hRead : (backend.getLocked surroundings key).1 with
  | ok value =>
      rw [hRead] at hReply
      cases hReply
  | error other => exact getLocked_failed hRead

/-- A flush fails only where the store's batch does. -/
theorem step_flush_failed {surroundings : Surroundings} {reason : StateError}
    (h : (backend.step surroundings .flush).1 = .failed reason) : surroundings.applyFails = true :=
  (flushLocked_failed (ofUnit_eq_failed h)).2

/-- An operation fails only where the store does. -/
theorem step_failed {surroundings : Surroundings} {op : StateOp} {reason : StateError}
    (h : (backend.step surroundings op).1 = .failed reason) :
    surroundings.readFails = true ∨ surroundings.applyFails = true := by
  cases op with
  | get key => exact Or.inl (step_get_failed h)
  | put key value => exact Or.inr (writeCell_failed (ofUnit_eq_failed h)).2
  | delete key => exact Or.inr (writeCell_failed (ofUnit_eq_failed h)).2
  | flush => exact Or.inr (step_flush_failed h)
  | readModifyWrite key update =>
      have hFailed : (backend.readModifyWrite surroundings key update).1 = .error reason :=
        ofUnit_eq_failed h
      rw [StateBackend.readModifyWrite] at hFailed
      rcases hRead : backend.getLocked surroundings key with ⟨reply, after⟩
      rw [hRead] at hFailed
      cases reply with
      | ok current => exact Or.inr (writeCell_failed hFailed).2
      | error other =>
          exact Or.inl (getLocked_failed (congrArg Prod.fst hRead))

/-- A flush that succeeds leaves the plain map in the store. -/
theorem Serves.flushed (h : backend.Serves plain) {surroundings : Surroundings}
    (hDone : (backend.step surroundings .flush).1 = .done) (key : StateKey) :
    (backend.step surroundings .flush).2.store.lookup key = plain key := by
  have hReply : StateReply.ofUnit (backend.flushLocked surroundings).1 = .done := hDone
  apply (h.flushLocked surroundings).2
  cases hResult : (backend.flushLocked surroundings).1 with
  | ok _ => rfl
  | error reason =>
      rw [hResult] at hReply
      cases hReply

end StateBackend

/-! Whole runs. -/

/-- A backend beside the plain map it stands for. -/
structure StateRun where
  backend : StateBackend
  plain : PlainMap

def StateRun.start (store : KvStore) : StateRun where
  backend := .withStore store
  plain := store.lookup

def StateRun.next (run : StateRun) (action : StateOp × Surroundings) : StateRun where
  backend := (run.backend.step action.2 action.1).2
  plain := run.plain.step action.1 (run.backend.step action.2 action.1).1

def StateRun.play (run : StateRun) (actions : List (StateOp × Surroundings)) : StateRun :=
  actions.foldl StateRun.next run

theorem StateRun.serves_play {run : StateRun} (h : run.backend.Serves run.plain)
    (actions : List (StateOp × Surroundings)) :
    (run.play actions).backend.Serves (run.play actions).plain := by
  induction actions generalizing run with
  | nil => exact h
  | cons action actions ih =>
      have hNext : (run.next action).backend.Serves (run.next action).plain :=
        h.step action.2 action.1
      exact ih hNext

end FlareDB
