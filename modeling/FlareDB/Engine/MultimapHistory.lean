import FlareDB.Engine.MultimapState

/-! Runs of map-state operations on one cell. The history of the operations
that took effect says what the three views read. -/
namespace FlareDB

open KeyedStore

/-- What an operation makes of the entries. -/
def MultimapOp.change : MultimapOp → List MultimapEntry → List MultimapEntry
  | .appendKeys keys => addKeys keys
  | .appendValues mapKey values => addValues mapKey values
  | .clearValues mapKey => dropKey mapKey
  | .clear => fun _ => []

theorem keyOrder_append (history : List MultimapOp) (op : MultimapOp) :
    keyOrder (history ++ [op]) = orderAfter (keyOrder history) op := by
  simp [keyOrder]

theorem valuesOf_append (history : List MultimapOp) (op : MultimapOp) :
    valuesOf (history ++ [op]) = fun key => valuesAfter key (valuesOf history key) op := by
  funext key
  simp [valuesOf]

theorem nodup_foldl_insertKey (keys : List (List UInt8)) {order : List (List UInt8)}
    (h : order.Nodup) : (keys.foldl insertKey order).Nodup := by
  induction keys generalizing order with
  | nil => exact h
  | cons key keys ih => exact ih (nodup_insertKey h key)

theorem mem_foldl_insertKey {keys order : List (List UInt8)} {key : List UInt8} (h : key ∈ order) :
    key ∈ keys.foldl insertKey order := by
  induction keys generalizing order with
  | nil => exact h
  | cons other keys ih => exact ih ((mem_insertKey other key).mpr (.inl h))

/-- The keys of a multimap are distinct. -/
theorem nodup_keyOrder (history : List MultimapOp) : (keyOrder history).Nodup := by
  induction history using List.reverseRecOn with
  | nil => exact List.nodup_nil
  | append_singleton history op ih =>
      rw [keyOrder_append]
      cases op with
      | appendKeys keys => exact nodup_foldl_insertKey keys ih
      | appendValues mapKey values => exact nodup_insertKey ih mapKey
      | clearValues mapKey => exact ih.filter _
      | clear => exact List.nodup_nil

/-- A key that is not present has no values. -/
theorem valuesOf_absent (history : List MultimapOp) {key : List UInt8}
    (h : key ∉ keyOrder history) : valuesOf history key = [] := by
  induction history using List.reverseRecOn with
  | nil => rfl
  | append_singleton history op ih =>
      rw [keyOrder_append] at h
      rw [valuesOf_append]
      cases op with
      | appendKeys keys => exact ih fun hMem => h (mem_foldl_insertKey hMem)
      | appendValues mapKey values =>
          have hNe : mapKey ≠ key := fun hSame =>
            h ((mem_insertKey mapKey key).mpr (.inr hSame.symm))
          have hBefore := ih fun hMem => h ((mem_insertKey mapKey key).mpr (.inl hMem))
          exact (if_neg hNe).trans hBefore
      | clearValues mapKey =>
          show (if mapKey = key then [] else valuesOf history key) = []
          split
          · rfl
          next hNe =>
            apply ih
            intro hMem
            exact h (List.mem_filter.mpr ⟨hMem, by simpa using Ne.symm hNe⟩)
      | clear => rfl

/-- An operation changes the entries as it changes the history. -/
theorem change_entriesOf (history : List MultimapOp) (op : MultimapOp) :
    op.change (entriesOf history) = entriesOf (history ++ [op]) := by
  have hAbsent : ∀ key, key ∉ keyOrder history → valuesOf history key = [] :=
    fun _ hOut => valuesOf_absent history hOut
  rw [entriesOf, entriesOf, keyOrder_append, valuesOf_append]
  cases op with
  | appendKeys keys => exact addKeys_entriesFrom hAbsent keys
  | appendValues mapKey values =>
      exact addValues_entriesFrom (nodup_keyOrder history) mapKey (hAbsent mapKey) values
  | clearValues mapKey => exact dropKey_entriesFrom mapKey
  | clear => rfl

/-- The counts and lengths of a multimap fit their prefixes. -/
def Storable (history : List MultimapOp) : Prop :=
  (keyOrder history).length < 2 ^ 32 ∧ ∀ key ∈ keyOrder history, key.length < 2 ^ 32 ∧
    (valuesOf history key).length < 2 ^ 31 ∧ ∀ value ∈ valuesOf history key, value.length < 2 ^ 32

instance (history : List MultimapOp) : Decidable (Storable history) :=
  inferInstanceAs (Decidable (_ ∧ ∀ key ∈ keyOrder history, _))

/-- A storable history has entries that fit their cell. -/
theorem Storable.fits {history : List MultimapOp} (h : Storable history) :
    (entriesOf history).length < 2 ^ 32 ∧ ∀ entry ∈ entriesOf history, entry.Fits := by
  constructor
  · simpa [entriesOf, entriesFrom] using h.1
  · intro entry hMem
    obtain ⟨key, hKey, rfl⟩ := List.mem_map.mp hMem
    exact h.2 key hKey

/-- The entries a cell holds. -/
def cellEntries : Option StateValue → Except MultimapError (List MultimapEntry)
  | none => .ok []
  | some data => decodeEntries data

/-- They are read back from the cell. -/
theorem Storable.cell {history : List MultimapOp} (h : Storable history) :
    cellEntries (some (encodeEntries (entriesOf history))) = .ok (entriesOf history) :=
  decodeEntries_encodeEntries h.fits.1 h.fits.2

namespace MultimapState

variable {backend : StateBackend} {plain : PlainMap} {stateKey : StateKey}

/-- A read answers with the stored entries, or fails and changes nothing. -/
theorem read_serves (h : backend.Serves plain) (reading : Surroundings) (stateKey : StateKey) :
    ((read backend reading stateKey).1 = cellEntries (plain stateKey) ∧
      (read backend reading stateKey).2.Serves plain) ∨
    (reading.readFails = true ∧ (read backend reading stateKey).1 = .error (.state .readFailed) ∧
      (read backend reading stateKey).2 = backend) := by
  rw [read, StateBackend.get]
  rcases hRead : backend.getLocked reading stateKey with ⟨reply, after⟩
  have hSpec := h.getLocked reading stateKey
  have hFails : ∀ reason, (backend.getLocked reading stateKey).1 = .error reason →
      reading.readFails = true := fun _ hError => StateBackend.getLocked_failed hError
  rw [hRead] at hSpec hFails
  rcases hSpec with ⟨hFound, hAfter⟩ | ⟨hFailed, hAfter⟩
  · obtain rfl : reply = .ok (plain stateKey) := hFound
    cases plain stateKey with
    | none => exact .inl ⟨rfl, hAfter⟩
    | some data => exact .inl ⟨rfl, hAfter⟩
  · obtain rfl : reply = .error .readFailed := hFailed
    exact .inr ⟨hFails _ rfl, rfl, hAfter⟩

/-- Whether an operation took effect: it does unless its read failed. -/
def tookEffect (reply : Except MultimapError Unit) : Bool :=
  reply != .error (.state .readFailed)

theorem tookEffect_write (surroundings : Surroundings) (value : Option StateValue) :
    tookEffect ((backend.writeCell surroundings stateKey value).1.mapError .state) = true := by
  cases hWrite : (backend.writeCell surroundings stateKey value).1 with
  | ok _ => rfl
  | error reason =>
      rw [(StateBackend.writeCell_failed hWrite).1]
      rfl

/-- An update changes the entries, or fails and changes nothing. -/
theorem update_serves (h : backend.Serves plain) (reading writing : Surroundings)
    (stateKey : StateKey) (change : List MultimapEntry → List MultimapEntry) {entries : List MultimapEntry}
    (hCell : cellEntries (plain stateKey) = .ok entries) :
    if tookEffect (update backend reading writing stateKey change).1 then
      (update backend reading writing stateKey change).2.Serves
        (Function.update plain stateKey (some (encodeEntries (change entries))))
    else reading.readFails = true ∧
      (update backend reading writing stateKey change).2.Serves plain := by
  rw [update]
  rcases hRead : read backend reading stateKey with ⟨reply, after⟩
  have hSpec := read_serves h reading stateKey
  rw [hRead, hCell] at hSpec
  rcases hSpec with ⟨hFound, hAfter⟩ | ⟨hFails, hFailed, hAfter⟩
  · obtain rfl : reply = .ok entries := hFound
    have hWritten := hAfter.writeCell writing stateKey (some (encodeEntries (change entries)))
    exact (if_pos (tookEffect_write writing _)).mpr hWritten
  · obtain rfl : reply = .error (.state .readFailed) := hFailed
    obtain rfl : after = backend := hAfter
    exact ⟨hFails, h⟩

/-- One operation leaves a cell with the entries of the longer history, as long
as they can be stored. -/
theorem step_serves (h : backend.Serves plain) (action : MultimapAction)
    {history : List MultimapOp} (hCell : cellEntries (plain stateKey) = .ok (entriesOf history)) :
    if tookEffect (step backend stateKey action).1 then
      ∃ cell, (step backend stateKey action).2.Serves (Function.update plain stateKey cell) ∧
        (Storable (history ++ [action.op]) →
          cellEntries cell = .ok (entriesOf (history ++ [action.op])))
    else (step backend stateKey action).2.Serves plain := by
  have hUpdate : ∀ op : MultimapOp,
      step backend stateKey action =
        update backend action.reading action.writing stateKey op.change → action.op = op →
      if tookEffect (step backend stateKey action).1 then
        ∃ cell, (step backend stateKey action).2.Serves (Function.update plain stateKey cell) ∧
          (Storable (history ++ [action.op]) →
            cellEntries cell = .ok (entriesOf (history ++ [action.op])))
      else (step backend stateKey action).2.Serves plain := by
    intro op hStep hOp
    have hServes := update_serves h action.reading action.writing stateKey op.change hCell
    rw [hStep, hOp]
    split
    next hTook =>
      rw [if_pos hTook, change_entriesOf] at hServes
      exact ⟨_, hServes, Storable.cell⟩
    next hNone =>
      rw [if_neg hNone] at hServes
      exact hServes.2
  obtain ⟨op, reading, writing⟩ := action
  cases op with
  | appendKeys keys => exact hUpdate (.appendKeys keys) rfl rfl
  | appendValues mapKey values => exact hUpdate (.appendValues mapKey values) rfl rfl
  | clearValues mapKey => exact hUpdate (.clearValues mapKey) rfl rfl
  | clear =>
      have hTook : tookEffect (step backend stateKey ⟨.clear, reading, writing⟩).1 = true :=
        tookEffect_write writing none
      rw [if_pos hTook]
      refine ⟨none, h.writeCell writing stateKey none, fun _ => ?_⟩
      rw [← change_entriesOf]
      rfl

end MultimapState

/-! Whole runs. -/

/-- A backend beside the operations on the cell that took effect. -/
structure MultimapRun where
  backend : StateBackend
  history : List MultimapOp

namespace MultimapRun

def start (store : KvStore) : MultimapRun where
  backend := .withStore store
  history := []

def next (stateKey : StateKey) (run : MultimapRun) (action : MultimapAction) : MultimapRun where
  backend := (MultimapState.step run.backend stateKey action).2
  history :=
    if MultimapState.tookEffect (MultimapState.step run.backend stateKey action).1 then
      run.history ++ [action.op]
    else run.history

def play (stateKey : StateKey) (run : MultimapRun) (actions : List MultimapAction) : MultimapRun :=
  actions.foldl (next stateKey) run

/-- The cell holds the entries of the history. -/
def Holds (run : MultimapRun) (stateKey : StateKey) : Prop :=
  ∃ plain : PlainMap, run.backend.Serves plain ∧
    cellEntries (plain stateKey) = .ok (entriesOf run.history)

/-- An empty store holds the empty history. -/
theorem holds_start {store : KvStore} {stateKey : StateKey} (h : store.lookup stateKey = none) :
    (start store).Holds stateKey := by
  refine ⟨store.lookup, StateBackend.serves_withStore store, ?_⟩
  show cellEntries (store.lookup stateKey) = _
  rw [h]
  rfl

/-- Every operation keeps the cell at the history. -/
theorem Holds.next {run : MultimapRun} {stateKey : StateKey} (h : run.Holds stateKey)
    {action : MultimapAction} (hStorable : Storable (run.next stateKey action).history) :
    (run.next stateKey action).Holds stateKey := by
  obtain ⟨plain, hServes, hCell⟩ := h
  have hStep := MultimapState.step_serves hServes action hCell
  rw [MultimapRun.next] at hStorable ⊢
  split at hStep
  next hTook =>
    obtain ⟨cell, hAfter, hEntries⟩ := hStep
    rw [if_pos hTook] at hStorable
    refine ⟨_, hAfter, ?_⟩
    rw [Function.update_self, if_pos hTook]
    exact hEntries hStorable
  next hNone =>
    refine ⟨plain, hStep, ?_⟩
    rw [if_neg hNone]
    exact hCell

/-- In a run whose histories can all be stored the cell holds the history. -/
theorem Holds.play {run : MultimapRun} {stateKey : StateKey} (h : run.Holds stateKey)
    {actions : List MultimapAction}
    (hStorable : ∀ before, before <+: actions → Storable (run.play stateKey before).history) :
    (run.play stateKey actions).Holds stateKey := by
  induction actions generalizing run with
  | nil => exact h
  | cons action actions ih =>
      have hFirst : Storable (run.next stateKey action).history :=
        hStorable [action] ⟨actions, rfl⟩
      apply ih (h.next hFirst)
      intro before hBefore
      exact hStorable (action :: before) ((List.prefix_cons_inj action).mpr hBefore)

/-- A view of the entries of the cell, read by a store that may fail. -/
theorem Holds.view {run : MultimapRun} {stateKey : StateKey} (h : run.Holds stateKey)
    (reading : Surroundings) {α : Type}
    (reads : List MultimapEntry → Except MultimapError α) :
    (MultimapState.read run.backend reading stateKey).1.bind reads = reads (entriesOf run.history) ∨
      (reading.readFails = true ∧
        (MultimapState.read run.backend reading stateKey).1.bind reads =
          .error (.state .readFailed)) := by
  obtain ⟨plain, hServes, hCell⟩ := h
  rcases MultimapState.read_serves hServes reading stateKey with
    ⟨hRead, -⟩ | ⟨hFails, hRead, -⟩
  · left
    rw [hRead, hCell]
    rfl
  · right
    refine ⟨hFails, ?_⟩
    rw [hRead]
    rfl

end MultimapRun

/-! The views of a run. -/

/-- A reply that is as expected, unless the store could not be read. -/
def Replies (reading : Surroundings) (reply expected : Except MultimapError (List UInt8)) : Prop :=
  reply = expected ∨ (reading.readFails = true ∧ reply = .error (.state .readFailed))

/-- The keys of the entries are those of the history, in order. -/
theorem concatKeys_entriesOf (history : List MultimapOp) :
    concatKeys (entriesOf history) = (keyOrder history).flatten := by
  rw [concatKeys, entriesOf, entriesFrom, List.flatMap_map, List.flatten_eq_flatMap]
  rfl

theorem exceptMap_eq_bind {ε α β : Type} (reply : Except ε α) (f : α → β) :
    reply.map f = reply.bind fun value => .ok (f value) := by
  cases reply <;> rfl

/-- In every run on an absent cell whose histories can all be stored, the three
views read what the history means; and a cell is accepted exactly when it is
an encoding. -/
theorem MultimapState.views_of_history (store : KvStore) (stateKey : StateKey)
    (hAbsent : store.lookup stateKey = none) (actions : List MultimapAction)
    (hStorable : ∀ before, before <+: actions →
      Storable ((MultimapRun.start store).play stateKey before).history) :
    (keyOrder ((MultimapRun.start store).play stateKey actions).history).Nodup ∧
    (∀ reading, Replies reading
      (keys ((MultimapRun.start store).play stateKey actions).backend reading stateKey)
      (.ok (keyOrder ((MultimapRun.start store).play stateKey actions).history).flatten)) ∧
    (∀ reading mapKey, Replies reading
      (values ((MultimapRun.start store).play stateKey actions).backend reading stateKey mapKey)
      (.ok (valuesOf ((MultimapRun.start store).play stateKey actions).history mapKey).flatten)) ∧
    (∀ reading, Replies reading
      (entries ((MultimapRun.start store).play stateKey actions).backend reading stateKey)
      (.ok ((keyOrder ((MultimapRun.start store).play stateKey actions).history).flatMap fun key =>
        key ++ BigEndian.toBytes 4
            (valuesOf ((MultimapRun.start store).play stateKey actions).history key).length ++
          (valuesOf ((MultimapRun.start store).play stateKey actions).history key).flatten))) ∧
    (∀ entries : List MultimapEntry, entries.length < 2 ^ 32 → (∀ entry ∈ entries, entry.Fits) →
      decodeEntries (encodeEntries entries) = .ok entries ∧
      (∀ k < (encodeEntries entries).length, ∃ reason,
        decodeEntries ((encodeEntries entries).take k) = .error reason) ∧
      (∀ extra, extra ≠ [] →
        decodeEntries (encodeEntries entries ++ extra) = .error .trailingBytes)) ∧
    (∀ data, (∃ entries, decodeEntries data = .ok entries ∧ data = encodeEntries entries) ∨
      ∃ reason, decodeEntries data = .error reason ∧ reason.Malformed) := by
  have hHolds := (MultimapRun.holds_start hAbsent).play hStorable
  have hFinal := hStorable actions List.prefix_rfl
  generalize (MultimapRun.start store).play stateKey actions = run at hHolds hFinal ⊢
  refine ⟨nodup_keyOrder run.history, ?_, ?_, ?_, ?_, ?_⟩
  · intro reading
    rw [Replies, keys, exceptMap_eq_bind, ← concatKeys_entriesOf]
    exact hHolds.view reading fun entries => .ok (concatKeys entries)
  · intro reading mapKey
    have hValues := concatValues_entriesFrom mapKey fun hOut => valuesOf_absent run.history hOut
    rw [Replies, values, exceptMap_eq_bind, ← hValues]
    exact hHolds.view reading fun entries => .ok (concatValues mapKey entries)
  · intro reading
    rw [Replies, entries, ← concatGroups_entriesFrom fun key hKey => (hFinal.2 key hKey).2.1]
    exact hHolds.view reading concatGroups
  · intro entries hCount hFits
    refine ⟨decodeEntries_encodeEntries hCount hFits, ?_, ?_⟩
    · intro k hk
      exact decodeEntries_cut hCount hFits hk
    · intro extra hExtra
      exact decodeEntries_trailing hCount hFits hExtra
  · intro data
    cases hDecode : decodeEntries data with
    | ok entries => exact .inl ⟨entries, rfl, encodeEntries_of_decodeEntries hDecode⟩
    | error reason => exact .inr ⟨reason, rfl, decodeEntries_refused hDecode⟩

/-- Two keys, and two values of the first. -/
def twoKeys : List MultimapAction :=
  [⟨.appendKeys [[1], [2]], .calm, .calm⟩, ⟨.appendValues [1] [[7], [8]], .calm, .calm⟩]

theorem MultimapState.views_of_history_twoKeys :
    Replies .calm (keys ((MultimapRun.start ∅).play [0] twoKeys).backend .calm [0])
      (.ok (keyOrder ((MultimapRun.start ∅).play [0] twoKeys).history).flatten) := by
  have hStorable : ∀ before, before <+: twoKeys →
      Storable ((MultimapRun.start ∅).play [0] before).history := by
    intro before hBefore
    rw [List.prefix_iff_eq_take] at hBefore
    rw [hBefore]
    rcases before.length with _ | _ | count
    · decide
    · decide
    · rw [List.take_of_length_le (by simp [twoKeys])]
      decide
  exact (views_of_history ∅ [0] rfl twoKeys hStorable).2.1 .calm

/-! More keys than a count can hold. -/

def keysBelow (count : Nat) : List (List UInt8) :=
  (List.range count).map (BigEndian.toBytes 4)

/-- As many keys as a four-byte count wraps around at. -/
def fourByteKeys : List (List UInt8) :=
  keysBelow (2 ^ 32)

theorem length_keysBelow (count : Nat) : (keysBelow count).length = count := by
  rw [keysBelow, List.length_map, List.length_range]

theorem nodup_keysBelow {count : Nat} (h : count ≤ 256 ^ 4) : (keysBelow count).Nodup := by
  refine List.Nodup.map_on ?_ List.nodup_range
  intro a ha b hb hSame
  have hA : a < 256 ^ 4 := Nat.lt_of_lt_of_le (List.mem_range.mp ha) h
  have hB : b < 256 ^ 4 := Nat.lt_of_lt_of_le (List.mem_range.mp hb) h
  exact BigEndian.toBytes_injective hA hB hSame

theorem length_of_mem_keysBelow {count : Nat} {key : List UInt8} (h : key ∈ keysBelow count) :
    key.length = 4 := by
  obtain ⟨value, -, rfl⟩ := List.mem_map.mp h
  exact BigEndian.toBytes_length 4 value

/-- There are more keys than a count can hold. -/
theorem exists_fourByteKeys : ∃ keys : List (List UInt8), keys.length = 2 ^ 32 ∧ keys.Nodup ∧
    ∀ key ∈ keys, key.length = 4 := by
  refine ⟨fourByteKeys, ?_, ?_, ?_⟩
  · exact length_keysBelow _
  · exact nodup_keysBelow (Nat.le_of_eq (by decide))
  · intro key hKey
    exact length_of_mem_keysBelow hKey

/-- Distinct new keys are added in their order. -/
theorem foldl_insertKey_nodup {order keys : List (List UInt8)} (h : (order ++ keys).Nodup) :
    keys.foldl insertKey order = order ++ keys := by
  induction keys generalizing order with
  | nil => exact (List.append_nil order).symm
  | cons key keys ih =>
      have hSplit : order ++ key :: keys = (order ++ [key]) ++ keys := by simp
      have hFresh : key ∉ order := by
        intro hMem
        exact (List.nodup_append.mp h).2.2 key hMem key (by simp) rfl
      rw [hSplit] at h ⊢
      rw [List.foldl_cons, insertKey, if_neg hFresh]
      exact ih h

/-- The count of entries wraps around, and the cell is no longer decoded. -/
theorem decodeEntries_wrapped {entries : List MultimapEntry} (hCount : entries.length = 2 ^ 32) :
    decodeEntries (encodeEntries entries) = .error .trailingBytes := by
  have hWrapped : encodeEntries entries = putU32 0 ++ entries.flatMap encodeEntry := by
    rw [encodeEntries, putU32, putU32, hCount, Nat.mod_self, Nat.zero_mod]
  have hRead : readEntries (putU32 0 ++ entries.flatMap encodeEntry) =
      .ok [] (entries.flatMap encodeEntry) := by
    rw [readEntries, ByteDecoder.Decoder.bind_apply, (reported_readU32 (by decide)).frames]
    rfl
  have hRest : (entries.flatMap encodeEntry).isEmpty = false := by
    cases entries with
    | nil => cases hCount
    | cons entry rest =>
        rw [List.flatMap_cons, encodeEntry, putBytes, putU32, BigEndian.toBytes]
        rfl
  rw [decodeEntries, hWrapped, hRead]
  simp only [hRest]
  rfl

theorem addKeys_absent {keys : List (List UInt8)} (h : keys.Nodup) :
    addKeys keys [] = entriesFrom keys fun _ => [] := by
  have hValues : ∀ key : List UInt8, key ∉ ([] : List (List UInt8)) →
      (fun _ : List UInt8 => ([] : List (List UInt8))) key = [] := fun _ _ => rfl
  have hAdded := addKeys_entriesFrom hValues keys
  rw [foldl_insertKey_nodup (by simpa using h)] at hAdded
  exact hAdded

/-- Appending distinct keys to an absent cell writes them all. -/
theorem appendKeys_absent {keys : List (List UInt8)} (hNodup : keys.Nodup) (stateKey : StateKey) :
    ((MultimapRun.start ∅).play stateKey [⟨.appendKeys keys, .calm, .calm⟩]).history =
        [.appendKeys keys] ∧
      ((MultimapRun.start ∅).play stateKey [⟨.appendKeys keys, .calm, .calm⟩]).backend.Serves
        (Function.update (fun _ => none) stateKey
          (some (encodeEntries (entriesFrom keys fun _ => [])))) := by
  have hStart : (StateBackend.withStore ∅).Serves fun _ => none :=
    StateBackend.serves_withStore ∅
  have hCell : cellEntries ((fun _ => none : PlainMap) stateKey) = .ok [] := rfl
  have hUpdate := MultimapState.update_serves hStart .calm .calm stateKey (addKeys keys) hCell
  rw [addKeys_absent hNodup] at hUpdate
  have hPlay : (MultimapRun.start ∅).play stateKey [⟨.appendKeys keys, .calm, .calm⟩] =
      MultimapRun.next stateKey (MultimapRun.start ∅) ⟨.appendKeys keys, .calm, .calm⟩ := rfl
  have hStep : MultimapState.step (.withStore ∅) stateKey ⟨.appendKeys keys, .calm, .calm⟩ =
      MultimapState.update (.withStore ∅) .calm .calm stateKey (addKeys keys) := rfl
  rw [hPlay, MultimapRun.next, MultimapRun.start, hStep]
  generalize MultimapState.update (.withStore ∅) .calm .calm stateKey (addKeys keys) = outcome
    at hUpdate ⊢
  split at hUpdate
  next hTook => exact ⟨if_pos hTook, hUpdate⟩
  next hNone => cases hUpdate.1

/-- With 2^32 keys the views of a cell can no longer be read, although every
length and every count of values is in range. -/
theorem not_views_of_history :
    ¬ ∀ (store : KvStore) (stateKey : StateKey) (actions : List MultimapAction),
      store.lookup stateKey = none →
      (∀ before, before <+: actions →
        ∀ key ∈ keyOrder ((MultimapRun.start store).play stateKey before).history,
          key.length < 2 ^ 32 ∧
          (valuesOf ((MultimapRun.start store).play stateKey before).history key).length < 2 ^ 31 ∧
          ∀ value ∈ valuesOf ((MultimapRun.start store).play stateKey before).history key,
            value.length < 2 ^ 32) →
      ∀ reading, Replies reading
        (MultimapState.keys ((MultimapRun.start store).play stateKey actions).backend reading
          stateKey)
        (.ok (keyOrder ((MultimapRun.start store).play stateKey actions).history).flatten) := by
  intro h
  obtain ⟨keys, hCount, hNodup, hLength⟩ := exists_fourByteKeys
  obtain ⟨hHistory, hServes⟩ := appendKeys_absent hNodup [0]
  have hOrder : keyOrder [.appendKeys keys] = keys :=
    foldl_insertKey_nodup (by simpa using hNodup)
  have hBounds : ∀ before, before <+: [⟨.appendKeys keys, .calm, .calm⟩] →
      ∀ key ∈ keyOrder ((MultimapRun.start ∅).play [0] before).history, key.length < 2 ^ 32 ∧
        (valuesOf ((MultimapRun.start ∅).play [0] before).history key).length < 2 ^ 31 ∧
        ∀ value ∈ valuesOf ((MultimapRun.start ∅).play [0] before).history key,
          value.length < 2 ^ 32 := by
    intro before hBefore key hKey
    rcases List.prefix_cons_iff.mp hBefore with rfl | ⟨rest, rfl, hRest⟩
    · cases hKey
    · rw [List.prefix_nil.mp hRest, hHistory, hOrder] at hKey
      rw [List.prefix_nil.mp hRest, hHistory]
      have hNone : valuesOf [.appendKeys keys] key = [] := rfl
      have hShort : key.length < 2 ^ 32 := by
        rw [hLength key hKey]
        decide
      rw [hNone]
      exact ⟨hShort, by decide, nofun⟩
  have hReply := h ∅ [0] [⟨.appendKeys keys, .calm, .calm⟩] rfl hBounds .calm
  rcases MultimapState.read_serves hServes .calm [0] with ⟨hRead, -⟩ | ⟨hFails, -⟩
  · rw [Function.update_self] at hRead
    have hWrapped : cellEntries (some (encodeEntries (entriesFrom keys fun _ => []))) =
        .error .trailingBytes := decodeEntries_wrapped (by simpa [entriesFrom] using hCount)
    rcases hReply with hOk | ⟨hFails, -⟩
    · rw [MultimapState.keys, hRead, hWrapped] at hOk
      cases hOk
    · cases hFails
  · cases hFails

end FlareDB
