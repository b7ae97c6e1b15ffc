import FlareDB.Engine.BagState
import FlareDB.Engine.MultimapHistory

/-! Requests that change a cell of user state and report an error. A request
caches the changed cell before it flushes, so the flush can fail when the change
is already what clients read. -/
namespace FlareDB

open KeyedStore WriteBack

/-- Append a chunk to a bag. -/
def BagState.append (backend : StateBackend) (surroundings : Surroundings) (stateKey : StateKey)
    (value : StateValue) : Except StateError Unit × StateBackend :=
  backend.readModifyWrite surroundings stateKey fun current => current ++ value

/-! What one operation does to its own cell, in any state of the cache. -/

namespace StateCache

theorem dirty_retainCells (cache : StateCache) (excess : Nat) (keys : List StateKey) :
    (cache.retainCells excess keys).dirty = cache.dirty := by
  induction keys generalizing cache excess with
  | nil => rfl
  | cons key keys ih =>
      rw [retainCells]
      split
      · exact ih (cache.drop key) (excess - 1)
      · exact ih cache excess

/-- A cell stays cached, or it was clean and is forgotten. -/
theorem lookup_retainCells (cache : StateCache) (excess : Nat) (keys : List StateKey)
    (key : StateKey) :
    (cache.retainCells excess keys).values.lookup key = cache.values.lookup key ∨
      key ∉ cache.dirty ∧ (cache.retainCells excess keys).values.lookup key = none := by
  induction keys generalizing cache excess with
  | nil => exact .inl rfl
  | cons first keys ih =>
      rw [retainCells]
      split
      next hDrop =>
        rcases ih (cache.drop first) (excess - 1) with hKept | hForgotten
        · by_cases hKey : key = first
          · subst hKey
            refine .inr ⟨hDrop.2, hKept.trans ?_⟩
            exact AList.lookup_erase _ _
          · exact .inl (hKept.trans (AList.lookup_erase_ne hKey))
        · exact .inr hForgotten
      · exact ih cache excess

/-- Eviction takes no unsaved cell. -/
theorem dirty_evictIfNeeded (cache : StateCache) (iteration : HashOrder) :
    (cache.evictIfNeeded iteration).dirty = cache.dirty := by
  rw [evictIfNeeded]
  split
  · rw [evictCleanToFit]
    split
    · rfl
    · exact dirty_retainCells _ _ _
  · rfl

/-- A cell is kept, or it was clean and is evicted. -/
theorem lookup_evictIfNeeded (cache : StateCache) (iteration : HashOrder) (key : StateKey) :
    (cache.evictIfNeeded iteration).values.lookup key = cache.values.lookup key ∨
      key ∉ cache.dirty ∧ (cache.evictIfNeeded iteration).values.lookup key = none := by
  rw [evictIfNeeded]
  split
  · rw [evictCleanToFit]
    split
    · exact .inl rfl
    · exact lookup_retainCells _ _ _ key
  · exact .inl rfl

end StateCache

namespace StateBackend

variable (backend : StateBackend) (surroundings : Surroundings) (key : StateKey)

/-- The cell has to be read from a store that fails. -/
def ReadFails : Prop :=
  backend.cache.values.lookup key = none ∧ surroundings.readFails = true

/-- The number of dirty cells once this one is. -/
def pending : Nat :=
  (backend.cache.dirty.insert key ()).keys.length

/-- A change of the cell reaches the flush threshold, and the flush fails. -/
def FlushFails : Prop :=
  stateFlushThreshold ≤ backend.pending key ∧ surroundings.applyFails = true

/-- A read fails and changes nothing, or answers with the cell. -/
theorem getLocked_cases :
    (backend.ReadFails surroundings key ∧
      backend.getLocked surroundings key = (.error .readFailed, backend)) ∨
    (¬ backend.ReadFails surroundings key ∧
      (backend.getLocked surroundings key).1 = .ok (backend.view key) ∧
      (backend.getLocked surroundings key).2.view key = backend.view key ∧
      (backend.getLocked surroundings key).2.cache.dirty = backend.cache.dirty) := by
  rw [getLocked]
  cases hCached : backend.cache.values.lookup key with
  | some value =>
      refine .inr ⟨?_, ?_, rfl, rfl⟩
      · rintro ⟨hAbsent, -⟩
        rw [hCached] at hAbsent
        cases hAbsent
      · exact congrArg Except.ok (view_of_cached hCached).symm
  | none =>
      rw [KvStore.get]
      cases hReads : surroundings.readFails with
      | true => exact .inl ⟨⟨hCached, hReads⟩, rfl⟩
      | false =>
          refine .inr ⟨?_, ?_, ?_, StateCache.dirty_evictIfNeeded _ _⟩
          · rintro ⟨-, hFails⟩
            rw [hReads] at hFails
            cases hFails
          · exact congrArg Except.ok (view_of_absent hCached).symm
          · have hStored : backend.view key = backend.store.lookup key := view_of_absent hCached
            rw [hStored]
            rcases StateCache.lookup_evictIfNeeded
              (backend.cache.load key (backend.store.lookup key)) surroundings.afterRead key with
              hKept | ⟨-, hForgotten⟩
            · exact view_of_cached (hKept.trans (AList.lookup_insert _))
            · exact view_of_absent hForgotten

/-- The reply to a change says whether the flush failed, and the change is
visible either way. -/
theorem writeCell_cases (value : Option StateValue) :
    (backend.writeCell surroundings key value).2.view key = value ∧
      ((backend.writeCell surroundings key value).1 = .ok () ↔
        ¬ backend.FlushFails surroundings key) := by
  have hDirty : key ∈ (backend.cache.write key value).dirty :=
    (AList.mem_insert _).mpr (.inl rfl)
  have hCached : (StateCache.evictIfNeeded (backend.cache.write key value)
      surroundings.afterWrite).values.lookup key = some value := by
    rcases StateCache.lookup_evictIfNeeded (backend.cache.write key value)
      surroundings.afterWrite key with hKept | ⟨hClean, -⟩
    · exact hKept.trans (AList.lookup_insert _)
    · exact absurd hDirty hClean
  have hPending : (StateCache.evictIfNeeded (backend.cache.write key value)
      surroundings.afterWrite).dirty = backend.cache.dirty.insert key () :=
    StateCache.dirty_evictIfNeeded _ _
  rw [writeCell, maybeFlush, hPending]
  split
  next hFull =>
    rw [flushLocked]
    have hSome : (backend.cache.dirty.insert key ()).keys.isEmpty = false := by
      cases hKeys : (backend.cache.dirty.insert key ()).keys with
      | nil =>
          rw [hKeys] at hFull
          exact absurd hFull (by decide)
      | cons first keys => rfl
    dsimp only
    rw [hPending, hSome, if_neg (by decide), KvStore.apply]
    cases hFails : surroundings.applyFails with
    | true =>
        refine ⟨view_of_cached hCached, ?_, fun hNot => absurd ⟨hFull, hFails⟩ hNot⟩
        intro hDone
        cases hDone
    | false =>
        refine ⟨view_of_cached hCached, ?_, fun _ => rfl⟩
        rintro - ⟨-, hFailed⟩
        rw [hFails] at hFailed
        cases hFailed
  next hRoom => exact ⟨view_of_cached hCached, fun _ hFails => hRoom hFails.1, fun _ => rfl⟩

/-- A read that succeeds returns what clients see. -/
theorem get_view {value : Option StateValue} (h : (backend.get surroundings key).1 = .ok value) :
    value = backend.view key := by
  have hRead : (backend.getLocked surroundings key).1 = .ok value := h
  rcases backend.getLocked_cases surroundings key with ⟨-, hFailed⟩ | ⟨-, hFound, -⟩
  · rw [hFailed] at hRead
    cases hRead
  · rw [hFound] at hRead
    exact (Except.ok.inj hRead).symm

theorem get_calm : (backend.get .calm key).1 = .ok (backend.view key) := by
  rcases backend.getLocked_cases .calm key with ⟨⟨-, hFails⟩, -⟩ | ⟨-, hFound, -⟩
  · cases hFails
  · exact hFound

end StateBackend

/-! The requests. -/

/-- A request that changes one cell. -/
inductive StateMutation where
  | put (value : StateValue)
  | delete
  | bagAppend (value : StateValue)
  | multimap (op : MultimapOp)

namespace StateMutation

/-- The request on the cell, and its reply. -/
def run (backend : StateBackend) (surroundings : Surroundings) (stateKey : StateKey) :
    StateMutation → Except MultimapError Unit × StateBackend
  | .put value => (backend.put surroundings stateKey value).map (Except.mapError .state) id
  | .delete => (backend.delete surroundings stateKey).map (Except.mapError .state) id
  | .bagAppend value =>
      (BagState.append backend surroundings stateKey value).map (Except.mapError .state) id
  | .multimap op => MultimapState.step backend stateKey ⟨op, surroundings, surroundings⟩

/-- Whether the request reads its cell first. -/
def reads : StateMutation → Bool
  | .put _ => false
  | .delete => false
  | .bagAppend _ => true
  | .multimap .clear => false
  | .multimap _ => true

/-- What the request makes of a cell; a map request stores nothing over a cell
that is not a multimap. -/
def result (before : Option StateValue) : StateMutation → Option (Option StateValue)
  | .put value => some (some value)
  | .delete => some none
  | .bagAppend value => some (some (before.getD [] ++ value))
  | .multimap .clear => some none
  | .multimap op =>
      (cellEntries before).toOption.map fun entries => some (encodeEntries (op.change entries))

/-- The request ends before it stores anything. -/
def Stops (backend : StateBackend) (surroundings : Surroundings) (stateKey : StateKey)
    (mutation : StateMutation) : Prop :=
  mutation.reads = true ∧ backend.ReadFails surroundings stateKey ∨
    mutation.result (backend.view stateKey) = none

/-- What a request does: it stops with an error and leaves its cell, or stores
its result, with an error exactly when the flush fails. -/
def Outcome (backend : StateBackend) (surroundings : Surroundings) (stateKey : StateKey)
    (mutation : StateMutation) (after : Except MultimapError Unit × StateBackend) : Prop :=
  (mutation.Stops backend surroundings stateKey ∧ after.1 ≠ .ok () ∧
      after.2.view stateKey = backend.view stateKey) ∨
    (¬ mutation.Stops backend surroundings stateKey ∧
      mutation.result (backend.view stateKey) = some (after.2.view stateKey) ∧
      (after.1 = .ok () ↔ ¬ backend.FlushFails surroundings stateKey))

variable (backend : StateBackend) (surroundings : Surroundings) (stateKey : StateKey)

theorem mapError_eq_ok {reply : Except StateError Unit} :
    reply.mapError MultimapError.state = .ok () ↔ reply = .ok () := by
  cases reply with
  | error reason => simp [Except.mapError]
  | ok _ => exact ⟨fun _ => rfl, fun _ => rfl⟩

/-- A request that stores a value without reading. -/
theorem outcome_write {mutation : StateMutation} (hReads : mutation.reads = false)
    {value : Option StateValue} (hResult : mutation.result (backend.view stateKey) = some value) :
    mutation.Outcome backend surroundings stateKey
      ((backend.writeCell surroundings stateKey value).map (Except.mapError .state) id) := by
  obtain ⟨hView, hReply⟩ := backend.writeCell_cases surroundings stateKey value
  refine .inr ⟨?_, ?_, mapError_eq_ok.trans hReply⟩
  · rintro (⟨hRead, -⟩ | hNone)
    · rw [hReads] at hRead
      cases hRead
    · rw [hResult] at hNone
      cases hNone
  · rw [hResult]
    exact congrArg some hView.symm

/-- Storing the result after the cell was read. -/
theorem outcome_read {mutation : StateMutation} {after : StateBackend}
    (hAfter : after.view stateKey = backend.view stateKey ∧
      after.cache.dirty = backend.cache.dirty)
    (hRead : ¬ backend.ReadFails surroundings stateKey) {value : Option StateValue}
    (hResult : mutation.result (backend.view stateKey) = some value) :
    mutation.Outcome backend surroundings stateKey
      ((after.writeCell surroundings stateKey value).map (Except.mapError .state) id) := by
  obtain ⟨hView, hReply⟩ := after.writeCell_cases surroundings stateKey value
  have hFlush : after.FlushFails surroundings stateKey ↔
      backend.FlushFails surroundings stateKey := by
    rw [StateBackend.FlushFails, StateBackend.FlushFails, StateBackend.pending,
      StateBackend.pending, hAfter.2]
  refine .inr ⟨?_, ?_, mapError_eq_ok.trans (hReply.trans (not_congr hFlush))⟩
  · rintro (⟨-, hFails⟩ | hNone)
    · exact hRead hFails
    · rw [hResult] at hNone
      cases hNone
  · rw [hResult]
    exact congrArg some hView.symm

/-- What appending to a bag comes to. -/
theorem outcome_bagAppend (value : StateValue) :
    (bagAppend value).Outcome backend surroundings stateKey
      ((bagAppend value).run backend surroundings stateKey) := by
  rw [run, BagState.append, StateBackend.readModifyWrite]
  rcases hRead : backend.getLocked surroundings stateKey with ⟨reply, after⟩
  have hSpec := backend.getLocked_cases surroundings stateKey
  rw [hRead] at hSpec
  rcases hSpec with ⟨hFails, hFailed⟩ | ⟨hReads, hFound, hAfter⟩
  · cases hFailed
    exact .inl ⟨.inl ⟨rfl, hFails⟩, by simp [Except.mapError], rfl⟩
  · obtain rfl : reply = .ok (backend.view stateKey) := hFound
    exact outcome_read backend surroundings stateKey hAfter hReads rfl

/-- A map request that reads, changes and writes the entries. -/
theorem outcome_update {mutation : StateMutation} (change : List MultimapEntry → List MultimapEntry)
    (hReads : mutation.reads = true)
    (hResult : ∀ before, mutation.result before =
      (cellEntries before).toOption.map fun entries => some (encodeEntries (change entries))) :
    mutation.Outcome backend surroundings stateKey
      (MultimapState.update backend surroundings surroundings stateKey change) := by
  rw [MultimapState.update, MultimapState.read, StateBackend.get]
  rcases hRead : backend.getLocked surroundings stateKey with ⟨reply, after⟩
  have hSpec := backend.getLocked_cases surroundings stateKey
  rw [hRead] at hSpec
  rcases hSpec with ⟨hFails, hFailed⟩ | ⟨hServed, hFound, hAfter⟩
  · cases hFailed
    exact .inl ⟨.inl ⟨hReads, hFails⟩, by simp, rfl⟩
  obtain rfl : reply = .ok (backend.view stateKey) := hFound
  have hCell := hResult (backend.view stateKey)
  cases hBefore : backend.view stateKey with
  | none =>
      rw [hBefore, cellEntries] at hCell
      rw [← hBefore] at hCell
      exact outcome_read backend surroundings stateKey hAfter hServed hCell
  | some data =>
      rw [hBefore, cellEntries] at hCell
      dsimp only
      cases hEntries : decodeEntries data with
      | error reason =>
          rw [hEntries, ← hBefore] at hCell
          exact .inl ⟨.inr hCell, by simp, hAfter.1⟩
      | ok entries =>
          rw [hEntries, ← hBefore] at hCell
          exact outcome_read backend surroundings stateKey hAfter hServed hCell

/-- What a mutation comes to, whatever fails around it. -/
theorem outcome_run (mutation : StateMutation) :
    mutation.Outcome backend surroundings stateKey (mutation.run backend surroundings stateKey) := by
  cases mutation with
  | put value => exact outcome_write backend surroundings stateKey rfl rfl
  | delete => exact outcome_write backend surroundings stateKey rfl rfl
  | bagAppend value => exact outcome_bagAppend backend surroundings stateKey value
  | multimap op =>
      cases op with
      | appendKeys keys =>
          exact outcome_update backend surroundings stateKey (addKeys keys) rfl fun _ => rfl
      | appendValues mapKey values =>
          exact outcome_update backend surroundings stateKey (addValues mapKey values) rfl
            fun _ => rfl
      | clearValues mapKey =>
          exact outcome_update backend surroundings stateKey (dropKey mapKey) rfl fun _ => rfl
      | clear => exact outcome_write backend surroundings stateKey rfl rfl

end StateMutation

/-- An error says that the request was not applied: its cell reads as before,
and a retry that succeeds applies it once. -/
structure UnappliedOnError (backend : StateBackend) (surroundings : Surroundings)
    (stateKey : StateKey) (mutation : StateMutation) : Prop where
  kept : (mutation.run backend surroundings stateKey).1 ≠ .ok () →
    ∀ first last before after, (backend.get first stateKey).1 = .ok before →
      ((mutation.run backend surroundings stateKey).2.get last stateKey).1 = .ok after →
      after = before
  once : (mutation.run backend surroundings stateKey).1 ≠ .ok () →
    ∀ first again last before after, (backend.get first stateKey).1 = .ok before →
      (mutation.run (mutation.run backend surroundings stateKey).2 again stateKey).1 = .ok () →
      ((mutation.run (mutation.run backend surroundings stateKey).2 again stateKey).2.get last
        stateKey).1 = .ok after →
      mutation.result before = some after

namespace StateMutation

variable {backend : StateBackend} {surroundings : Surroundings} {stateKey : StateKey}
  {mutation : StateMutation}

/-- A mutation that succeeds leaves its result. -/
theorem result_of_done (h : (mutation.run backend surroundings stateKey).1 = .ok ()) :
    mutation.result (backend.view stateKey) =
      some ((mutation.run backend surroundings stateKey).2.view stateKey) := by
  rcases mutation.outcome_run backend surroundings stateKey with ⟨-, hError, -⟩ | ⟨-, hResult, -⟩
  · exact absurd h hError
  · exact hResult

/-- It is enough that a failure leaves the view. -/
theorem unappliedOnError_of_view
    (h : (mutation.run backend surroundings stateKey).1 ≠ .ok () →
      (mutation.run backend surroundings stateKey).2.view stateKey = backend.view stateKey) :
    UnappliedOnError backend surroundings stateKey mutation where
  kept hError first last before after hBefore hAfter := by
    rw [StateBackend.get_view _ _ _ hAfter, StateBackend.get_view _ _ _ hBefore]
    exact h hError
  once hError first again last before after hBefore hRetry hAfter := by
    rw [StateBackend.get_view _ _ _ hAfter, StateBackend.get_view _ _ _ hBefore, ← h hError]
    exact result_of_done hRetry

/-- The flush that follows the change fails, and the change is one. -/
theorem view_of_unappliedOnError (h : UnappliedOnError backend surroundings stateKey mutation)
    (hError : (mutation.run backend surroundings stateKey).1 ≠ .ok ()) :
    (mutation.run backend surroundings stateKey).2.view stateKey = backend.view stateKey :=
  h.kept hError .calm .calm _ _ (backend.get_calm stateKey) (StateBackend.get_calm _ stateKey)

/-- A request ends before it stores anything, or its flush does not fail, or it
stores what the cell held. -/
def Spared (backend : StateBackend) (surroundings : Surroundings) (stateKey : StateKey)
    (mutation : StateMutation) : Prop :=
  mutation.Stops backend surroundings stateKey ∨ ¬ backend.FlushFails surroundings stateKey ∨
    mutation.result (backend.view stateKey) = some (backend.view stateKey)

/-- A spared mutation is not applied when it fails. -/
theorem Spared.unappliedOnError (h : mutation.Spared backend surroundings stateKey) :
    UnappliedOnError backend surroundings stateKey mutation := by
  apply unappliedOnError_of_view
  intro hError
  rcases mutation.outcome_run backend surroundings stateKey with
    ⟨-, -, hView⟩ | ⟨hStored, hResult, hReply⟩
  · exact hView
  rcases h with hStops | hFlushed | hSame
  · exact absurd hStops hStored
  · exact absurd (hReply.mpr hFlushed) hError
  · rw [hSame] at hResult
    exact (Option.some.inj hResult).symm

/-- One that is not applied when it fails is spared. -/
theorem spared_of_unappliedOnError (h : UnappliedOnError backend surroundings stateKey mutation) :
    mutation.Spared backend surroundings stateKey := by
  rcases mutation.outcome_run backend surroundings stateKey with
    ⟨hStops, -⟩ | ⟨-, hResult, hReply⟩
  · exact .inl hStops
  by_cases hFails : backend.FlushFails surroundings stateKey
  · have hError : (mutation.run backend surroundings stateKey).1 ≠ .ok () := fun hDone =>
      hReply.mp hDone hFails
    rw [view_of_unappliedOnError h hError] at hResult
    exact .inr (.inr hResult)
  · exact .inr (.inl hFails)

/-- An error means that a request was not applied, unless it changed its cell
and the flush that the change triggered failed. -/
theorem unappliedOnError_iff (backend : StateBackend) (surroundings : Surroundings)
    (stateKey : StateKey) (mutation : StateMutation) :
    UnappliedOnError backend surroundings stateKey mutation ↔
      mutation.Spared backend surroundings stateKey :=
  ⟨spared_of_unappliedOnError, Spared.unappliedOnError⟩

end StateMutation

/-! A backend one cell short of the threshold. -/

def fillKeys (count : Nat) : List StateKey :=
  ((List.range count).map fun length => List.replicate length 0).reverse

/-- The backend after a write to as many cells, with keys of different lengths. -/
def filled (count : Nat) : StateBackend :=
  ((StateRun.start ∅).play ((List.range count).map fun length =>
    (.put (List.replicate length 0) [], .calm))).backend

theorem fillKeys_succ (count : Nat) :
    fillKeys (count + 1) = List.replicate count 0 :: fillKeys count := by
  simp [fillKeys, List.range_succ]

theorem length_fillKeys (count : Nat) : (fillKeys count).length = count := by
  simp [fillKeys]

theorem not_mem_fillKeys {key : StateKey} {count : Nat}
    (h : ∀ length < count, key ≠ List.replicate length 0) : key ∉ fillKeys count := by
  intro hMem
  obtain ⟨length, hLength, rfl⟩ := List.mem_map.mp (List.mem_reverse.mp hMem)
  exact h length (List.mem_range.mp hLength) rfl

theorem filled_succ (count : Nat) :
    filled (count + 1) = ((filled count).put .calm (List.replicate count 0) []).2 := by
  simp only [filled, List.range_succ, List.map_append, List.map_cons, List.map_nil,
    StateRun.play, List.foldl_append, List.foldl_cons, List.foldl_nil]
  rfl

/-- Below the threshold the written cells are dirty and cached. -/
theorem filled_below {count : Nat} (h : count < stateFlushThreshold) :
    (filled count).cache.dirty.keys = fillKeys count ∧
      (filled count).cache.values.keys = fillKeys count ∧ (filled count).store = ∅ := by
  induction count with
  | zero => exact ⟨rfl, rfl, rfl⟩
  | succ count ih =>
      obtain ⟨hDirty, hValues, hStore⟩ := ih (Nat.lt_of_succ_lt h)
      have hFresh : List.replicate count 0 ∉ fillKeys count :=
        not_mem_fillKeys fun length hLength hSame => by
          have hLengths := congrArg List.length hSame
          rw [List.length_replicate, List.length_replicate] at hLengths
          omega
      have hAllDirty : ((filled count).cache.dirty.insert (List.replicate count 0) ()).keys =
          fillKeys (count + 1) := by
        rw [keys_insert_fresh (hDirty ▸ hFresh), hDirty, fillKeys_succ]
      have hAllValues : ((filled count).cache.values.insert (List.replicate count 0)
          (some [])).keys = fillKeys (count + 1) := by
        rw [keys_insert_fresh (hValues ▸ hFresh), hValues, fillKeys_succ]
      have hSmall : ¬ stateCacheMaxEntries < ((filled count).cache.values.insert
          (List.replicate count 0) (some [])).keys.length := by
        rw [hAllValues, length_fillKeys]
        exact Nat.not_lt.mpr ((Nat.le_of_lt h).trans (by decide))
      have hRoom : ¬ stateFlushThreshold ≤ ((filled count).cache.write (List.replicate count 0)
          (some [])).dirty.keys.length := by
        rw [Cache.write, hAllDirty, length_fillKeys]
        exact Nat.not_le.mpr h
      have hKept : StateCache.evictIfNeeded
          ((filled count).cache.write (List.replicate count 0) (some [])) Surroundings.calm.afterWrite =
            (filled count).cache.write (List.replicate count 0) (some []) := if_neg hSmall
      rw [filled_succ, StateBackend.put, StateBackend.writeCell, StateBackend.maybeFlush]
      dsimp only
      rw [hKept, if_neg hRoom]
      exact ⟨hAllDirty, hAllValues, hStore⟩

/-- A store whose batches fail. -/
def brokenStore : Surroundings :=
  { Surroundings.calm with applyFails := true }

/-- After 511 dirty cells a failed append to one more cell is what the next
read returns, and its retry appends a second time. -/
theorem not_unappliedOnError_filled :
    ¬ UnappliedOnError (filled 511) brokenStore [1] (.bagAppend [7]) := by
  intro h
  obtain ⟨hDirty, hValues, hStore⟩ := filled_below (show 511 < stateFlushThreshold by decide)
  have hFresh : ([1] : StateKey) ∉ fillKeys 511 := not_mem_fillKeys fun length _ hSame => by
    cases length with
    | zero => cases hSame
    | succ length => cases (List.cons.inj hSame).1
  have hAbsent : (filled 511).cache.values.lookup [1] = none :=
    AList.lookup_eq_none.mpr fun hMem => hFresh (hValues ▸ hMem)
  have hView : (filled 511).view [1] = none := by
    rw [StateBackend.view, view_of_absent hAbsent, hStore]
    rfl
  rcases StateMutation.spared_of_unappliedOnError h with hStops | hFlushed | hSame
  · rcases hStops with ⟨-, -, hReads⟩ | hNone
    · cases hReads
    · cases hNone
  · refine hFlushed ⟨?_, rfl⟩
    rw [StateBackend.pending, keys_insert_fresh (hDirty ▸ hFresh), hDirty, List.length_cons,
      length_fillKeys]
    decide
  · rw [hView] at hSame
    cases hSame

end FlareDB
