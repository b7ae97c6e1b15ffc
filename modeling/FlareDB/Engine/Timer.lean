import FlareDB.Engine.Watermark.State
import FlareDB.Lib.BigEndian

/-! Durable user timers. A timer is stored under the bytes of its identity, so
setting it again replaces it and clearing deletes it; firing deletes it before
it is delivered. -/
namespace FlareDB

open KeyedStore

inductive TimeDomain where
  | eventTime
  | processingTime
deriving DecidableEq, Repr

/-- Identity of a user timer. -/
structure TimerKey where
  transformId : String
  timerFamilyId : String
  tag : String
  window : String
  userKey : List UInt8
deriving DecidableEq, Repr

abbrev StorageKey := List UInt8

/-- The composite key of a timer: every part behind its length in four bytes. -/
def TimerKey.storageKey (key : TimerKey) : StorageKey :=
  [utf8Bytes key.transformId, utf8Bytes key.timerFamilyId, utf8Bytes key.tag,
    utf8Bytes key.window, key.userKey].flatMap fun part =>
      BigEndian.toBytes 4 part.length ++ part

/-- A timer: its identity, domain, firing time and output hold. -/
structure TimerEntry where
  key : TimerKey
  domain : TimeDomain
  fireTimestamp : Timestamp
  holdTimestamp : Timestamp
deriving DecidableEq, Repr

/-- Whether an event-time timer is due at its stage's input watermark. -/
def TimerEntry.isDueAtWatermark (entry : TimerEntry) (watermark : Timestamp) : Bool :=
  decide (entry.domain = .eventTime) && decide (entry.fireTimestamp ≤ watermark)

/-- The durable timers. -/
abbrev TimerStore := Store StorageKey TimerEntry

/-- Timer writes that are not yet committed: an entry sets a timer, its absence
deletes it. -/
abbrev TimerWrites := Store StorageKey (Option TimerEntry)

namespace TimerStore

variable (store : TimerStore)

/-- Commit a batch of timer writes. -/
def apply (pending : TimerWrites) : TimerStore :=
  applyWrites pending store

/-- All persisted timers. -/
def timers : List TimerEntry :=
  store.entries.map fun entry => entry.2

/-- All persisted event-time timers. -/
def allEventTimeTimers : List TimerEntry :=
  store.timers.filter fun timer => decide (timer.domain = .eventTime)

/-- The deletions of a list of timers. -/
def deletions (entries : List TimerEntry) : TimerWrites :=
  ofPairs (entries.map fun entry => (entry.key.storageKey, none))

/-- Delete the given timers by identity. -/
def deleteAll (entries : List TimerEntry) : TimerStore :=
  if entries.isEmpty then store else store.apply (deletions entries)

/-- Processing-time timers due at a time, earliest first. -/
def dueProcessingTime (now : Timestamp) : List TimerEntry :=
  (store.timers.filter fun timer =>
    decide (timer.domain = .processingTime) && decide (timer.fireTimestamp ≤ now)).insertionSort
      fun first second => first.fireTimestamp ≤ second.fireTimestamp

/-- Delete and return the processing-time timers due at a time. -/
def takeDueProcessingTime (now : Timestamp) : TimerStore × List TimerEntry :=
  let due := store.dueProcessingTime now
  (store.deleteAll due, due)

end TimerStore

/-- A timer a bundle emitted: set, or cleared. -/
structure TimerOutput where
  entry : TimerEntry
  clear : Bool

/-- Record a timer a bundle emitted, over an earlier one of the same identity. -/
def recordTimer (pending : TimerWrites) (timer : TimerOutput) : TimerWrites :=
  pending.insert timer.entry.key.storageKey (if timer.clear then none else some timer.entry)

/-- The writes of the timers one endpoint emitted since its last flush. -/
def timerWrites (timers : List TimerOutput) : TimerWrites :=
  timers.foldl recordTimer ∅

/-- Commit the accumulated timer writes of one endpoint. -/
def flushTimers (store : TimerStore) (timers : List TimerOutput) : TimerStore :=
  if timers.isEmpty then store else store.apply (timerWrites timers)

/-- Every timer is stored under its own identity. -/
def WellKeyed (store : TimerStore) : Prop :=
  Forall (fun key entry => entry.key.storageKey = key) store

theorem lookup_deleteAll (store : TimerStore) (entries : List TimerEntry) (key : StorageKey) :
    (store.deleteAll entries).lookup key =
      if key ∈ entries.map fun entry => entry.key.storageKey then none else store.lookup key := by
  have hDeletions : ∀ entries : List TimerEntry,
      (TimerStore.deletions entries).lookup key =
        if key ∈ entries.map fun entry => entry.key.storageKey then some none else none := by
    intro entries
    induction entries using List.reverseRecOn with
    | nil => rfl
    | append_singleton entries entry ih =>
        rw [TimerStore.deletions] at ih ⊢
        rw [List.map_append, List.map_singleton, ofPairs_append]
        by_cases hKey : key = entry.key.storageKey
        · rw [hKey, AList.lookup_insert]
          simp
        · rw [AList.lookup_insert_ne hKey, ih]
          simp [hKey]
  unfold TimerStore.deleteAll
  split
  next hEmpty =>
    rw [List.isEmpty_iff.mp hEmpty]
    simp
  · rw [TimerStore.apply, lookup_applyWrites, hDeletions]
    split <;> rfl

/-- What a flush writes under an identity: the last timer emitted for it. -/
theorem lookup_timerWrites (timers : List TimerOutput) {key : StorageKey}
    {write : Option TimerEntry} (h : (timerWrites timers).lookup key = some write) :
    ∃ timer ∈ timers, timer.entry.key.storageKey = key ∧
      write = if timer.clear then none else some timer.entry := by
  induction timers using List.reverseRecOn with
  | nil => simp [timerWrites] at h
  | append_singleton timers timer ih =>
      have hSplit : timerWrites (timers ++ [timer]) = recordTimer (timerWrites timers) timer := by
        simp [timerWrites]
      rw [hSplit, recordTimer] at h
      by_cases hKey : key = timer.entry.key.storageKey
      · subst hKey
        rw [AList.lookup_insert] at h
        exact ⟨timer, by simp, rfl, (Option.some.inj h).symm⟩
      · rw [AList.lookup_insert_ne hKey] at h
        obtain ⟨found, hFound, hRest⟩ := ih h
        exact ⟨found, List.mem_append_left _ hFound, hRest⟩

theorem lookup_flushTimers (store : TimerStore) (timers : List TimerOutput) (key : StorageKey) :
    (flushTimers store timers).lookup key =
      ((timerWrites timers).lookup key).getD (store.lookup key) := by
  unfold flushTimers
  split
  next hEmpty =>
    rw [List.isEmpty_iff.mp hEmpty]
    rfl
  · exact lookup_applyWrites _ _ _

theorem WellKeyed.flushTimers {store : TimerStore} (h : WellKeyed store)
    (timers : List TimerOutput) : WellKeyed (FlareDB.flushTimers store timers) := by
  intro key entry hEntry
  rw [lookup_flushTimers] at hEntry
  cases hWrite : (timerWrites timers).lookup key with
  | none =>
      rw [hWrite] at hEntry
      exact h key entry hEntry
  | some write =>
      rw [hWrite] at hEntry
      obtain ⟨timer, _, hKey, hValue⟩ := lookup_timerWrites timers hWrite
      rw [Option.getD_some, hValue] at hEntry
      split at hEntry
      · cases hEntry
      · rw [← Option.some.inj hEntry]
        exact hKey

theorem WellKeyed.deleteAll {store : TimerStore} (h : WellKeyed store)
    (entries : List TimerEntry) : WellKeyed (store.deleteAll entries) := by
  intro key entry hEntry
  rw [lookup_deleteAll] at hEntry
  split at hEntry
  · cases hEntry
  · exact h key entry hEntry

/-- An event-time timer of one transform, for one key in the global window. -/
def alarm (fireTimestamp : Timestamp) : TimerEntry where
  key := { transformId := "count", timerFamilyId := "close", tag := "", window := "global",
           userKey := [7] }
  domain := .eventTime
  fireTimestamp := fireTimestamp
  holdTimestamp := fireTimestamp

end FlareDB
