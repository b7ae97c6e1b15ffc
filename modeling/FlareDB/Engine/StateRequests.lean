import FlareDB.Engine.MapStateAppends
import FlareDB.Engine.SideInputViews

/-! State requests of the worker. A request names a cell of user state or a side
input, and asks to read it, to append to it or to clear it. -/
namespace FlareDB

open ByteDecoder KeyedStore

structure SideInputKey where
  transformId : String
  sideInputId : String
deriving DecidableEq, Repr

/-- The state keys of the wire. -/
inductive StateKeyType where
  | runner
  | bagUserState (address : UserStateAddress)
  | multimapKeysUserState (address : UserStateAddress)
  | multimapEntriesUserState (address : UserStateAddress)
  | multimapUserState (address : UserStateAddress) (mapKey : List UInt8)
  | orderedListUserState
  | iterableSideInput (key : SideInputKey) (window : List UInt8)
  | multimapKeysSideInput (key : SideInputKey) (window : List UInt8)
  | multimapSideInput (key : SideInputKey) (window mapKey : List UInt8)
  | multimapKeysValuesSideInput (key : SideInputKey) (window : List UInt8)

inductive StateTarget where
  | userState (cell : UserStateCell)
  | iterableSideInput (key : SideInputKey) (window : List UInt8)
  | multimapSideInput (key : SideInputKey) (window : List UInt8) (kind : MultimapReadKind)

def unsupportedStateKey (kind : String) : String :=
  "unsupported state key type '" ++ kind ++ "' (supported types: 'bag_user_state', " ++
    "'multimap_keys_user_state', 'multimap_entries_user_state', 'multimap_user_state', " ++
    "'iterable_side_input', 'multimap_keys_side_input', 'multimap_side_input', and " ++
    "'multimap_keys_values_side_input')"

def stateTarget : StateKeyType → Except String StateTarget
  | .bagUserState address => .ok (.userState ⟨.bag, address, []⟩)
  | .multimapKeysUserState address => .ok (.userState ⟨.multimapKeys, address, []⟩)
  | .multimapEntriesUserState address => .ok (.userState ⟨.multimapEntries, address, []⟩)
  | .multimapUserState address mapKey => .ok (.userState ⟨.multimapValues, address, mapKey⟩)
  | .iterableSideInput key window => .ok (.iterableSideInput key window)
  | .multimapKeysSideInput key window => .ok (.multimapSideInput key window .keys)
  | .multimapSideInput key window mapKey => .ok (.multimapSideInput key window (.values mapKey))
  | .multimapKeysValuesSideInput key window => .ok (.multimapSideInput key window .keysValues)
  | .runner => .error (unsupportedStateKey "runner")
  | .orderedListUserState => .error (unsupportedStateKey "ordered_list_user_state")

inductive StateRequestBody where
  | get (continuationToken : List UInt8)
  | append (data : List UInt8)
  | clear

structure StateRequest where
  id : String
  stateKey : Option StateKeyType
  request : Option StateRequestBody

inductive StateResponseBody where
  | get (continuationToken data : List UInt8)
  | append
  | clear
deriving DecidableEq, Repr

inductive StateRequestError where
  | refused (message : String)
  /-- A cell of user state could not be read or changed. -/
  | userState (operation : String) (reason : MultimapError)
  | sideInput (kind message : String)
deriving DecidableEq, Repr

abbrev StateAnswer := Except StateRequestError StateResponseBody

structure StateResponse where
  id : String
  answer : StateAnswer

def noRequestBody : StateRequestError :=
  .refused "state request has no request body"

def noContinuation : StateRequestError :=
  .refused "continuation tokens are not supported"

/-! User state. -/

namespace UserStateCell

variable (cell : UserStateCell) (backend : StateBackend) (surroundings : Surroundings)

def get : Except MultimapError (List UInt8) × StateBackend :=
  let key := cell.address.compositeKey
  match cell.kind with
  | .bag => (BagState.get backend surroundings cell.address).map (Except.mapError .state) id
  | .multimapKeys => (MultimapState.keys backend surroundings key,
      (MultimapState.read backend surroundings key).2)
  | .multimapEntries => (MultimapState.entries backend surroundings key,
      (MultimapState.read backend surroundings key).2)
  | .multimapValues => (MultimapState.values backend surroundings key cell.mapKey,
      (MultimapState.read backend surroundings key).2)

def clear : Except MultimapError Unit × StateBackend :=
  let key := cell.address.compositeKey
  match cell.kind with
  | .bag => (backend.delete surroundings key).map (Except.mapError .state) id
  | .multimapKeys | .multimapEntries => MultimapState.clear backend surroundings key
  | .multimapValues => MultimapState.clearValues backend surroundings surroundings key cell.mapKey

end UserStateCell

/-- The text of a failed append names the operation, that of a refused one is complete. -/
def AppendError.answered : AppendError → StateRequestError
  | .refused message => .refused message
  | .bagFailed reason => .userState "append" (.state reason)
  | .multimapFailed reason => .userState "append" reason

/-- Answer a request for user state; `none` where taking appended bytes apart unwinds. -/
def handleUserStateRequest (backend : StateBackend) (surroundings : Surroundings)
    (userStates : Option UserStateRegistry) (cell : UserStateCell) :
    Option StateRequestBody → Option StateAnswer × StateBackend
  | some (.get continuationToken) =>
      if continuationToken ≠ [] then (some (.error noContinuation), backend)
      else
        let (data, after) := cell.get backend surroundings
        (some ((data.mapError (.userState "get")).map (.get [])), after)
  | some (.append data) =>
      match handleAppend backend surroundings userStates cell data with
      | none => (none, backend)
      | some (reply, after) => (some ((reply.mapError AppendError.answered).map fun _ => .append), after)
  | some .clear =>
      let (reply, after) := cell.clear backend surroundings
      (some ((reply.mapError (.userState "clear")).map fun _ => .clear), after)
  | none => (some (.error noRequestBody), backend)

/-! What a request does to its cell. -/

namespace UserStateCell

variable (cell : UserStateCell)

/-- What a read of the cell answers. -/
def contents (value : Option StateValue) : Except MultimapError (List UInt8) :=
  match cell.kind with
  | .bag => .ok (value.getD [])
  | .multimapKeys => (cellEntries value).map concatKeys
  | .multimapEntries => (cellEntries value).bind concatGroups
  | .multimapValues => (cellEntries value).map (concatValues cell.mapKey)

/-- The change that an append asks for. -/
def appends (userStates : Option UserStateRegistry) (data : List UInt8) : Option StateMutation :=
  match cell.kind with
  | .bag => some (.bagAppend data)
  | .multimapKeys => (cell.coders userStates).bind fun coders =>
      (piecesOf coders.key data).map fun keys => .multimap (.appendKeys keys)
  | .multimapValues => (cell.coders userStates).bind fun coders =>
      (piecesOf coders.value data).map fun values => .multimap (.appendValues cell.mapKey values)
  | .multimapEntries => none

/-- The change that a clear asks for. -/
def clears : StateMutation :=
  match cell.kind with
  | .bag => .delete
  | .multimapKeys | .multimapEntries => .multimap .clear
  | .multimapValues => .multimap (.clearValues cell.mapKey)

/-- The change that a request asks for. -/
def asks (userStates : Option UserStateRegistry) : Option StateRequestBody → Option StateMutation
  | some (.append data) => cell.appends userStates data
  | some .clear => some cell.clears
  | some (.get _) | none => none

end UserStateCell

/-- Whether a change was stored: also when only the flush after it failed. -/
def stored : Option StateAnswer → Bool
  | some (.ok _) => true
  | some (.error (.userState _ (.state .applyFailed))) => true
  | _ => false

/-- A cell after a request that asks for a change. -/
def cellAfter (asked : Option StateMutation) (answer : Option StateAnswer)
    (before : Option StateValue) : Option StateValue :=
  match asked with
  | some mutation => if stored answer then (mutation.result before).getD before else before
  | none => before

namespace StateBackend

/-- The store is as before, or it holds what clients see. -/
def Durable (before after : StateBackend) : Prop :=
  after.store = before.store ∨ ∀ key, after.store.lookup key = after.view key

variable {backend : StateBackend} {plain : PlainMap}

theorem getLocked_store (backend : StateBackend) (surroundings : Surroundings) (key : StateKey) :
    (backend.getLocked surroundings key).2.store = backend.store := by
  rw [getLocked]
  cases backend.cache.values.lookup key with
  | some value => rfl
  | none =>
      rw [KvStore.get]
      cases surroundings.readFails with
      | true => rfl
      | false => rfl

/-- A flush leaves the store, or writes every dirty cell to it. -/
theorem Serves.flush_durable (h : backend.Serves plain) (surroundings : Surroundings) :
    Durable backend (backend.flushLocked surroundings).2 := by
  have hFlushed := h.flushLocked surroundings
  rw [StateBackend.flushLocked] at hFlushed ⊢
  split
  · exact .inl rfl
  next hDirty =>
    rw [if_neg hDirty, KvStore.apply] at hFlushed
    rw [KvStore.apply]
    cases hFails : surroundings.applyFails with
    | true => exact .inl rfl
    | false =>
        rw [hFails] at hFlushed
        refine .inr fun key => ?_
        exact (hFlushed.2 rfl key).trans (congrFun hFlushed.1.view key).symm

/-- A write stores its value, whether or not the flush after it fails. -/
theorem Serves.writes (h : backend.Serves plain) (surroundings : Surroundings) (key : StateKey)
    (value : Option StateValue) :
    ((backend.writeCell surroundings key value).1 = .ok () ∨
      (backend.writeCell surroundings key value).1 = .error .applyFailed) ∧
    (backend.writeCell surroundings key value).2.Serves (Function.update plain key value) ∧
    Durable backend (backend.writeCell surroundings key value).2 := by
  refine ⟨?_, h.writeCell surroundings key value, ?_⟩
  · cases hReply : (backend.writeCell surroundings key value).1 with
    | ok _ => exact .inl rfl
    | error reason => exact .inr (congrArg Except.error (writeCell_failed hReply).1)
  · have hWritten := h.coherent.write key value
    obtain ⟨hCoherent, -⟩ := StateCache.evictIfNeeded_spec hWritten surroundings.afterWrite
    rw [StateBackend.writeCell, StateBackend.maybeFlush]
    split
    · exact Serves.flush_durable ⟨hCoherent, rfl⟩ surroundings
    · exact .inl rfl

end StateBackend

theorem cellEntries_refused {value : Option StateValue} {reason : MultimapError}
    (h : cellEntries value = .error reason) : reason.Malformed := by
  cases value with
  | none => cases h
  | some data => exact decodeEntries_refused h

theorem MultimapError.Malformed.ne_applyFailed {reason : MultimapError} (h : reason.Malformed) :
    reason ≠ .state .applyFailed := by
  rcases h with rfl | rfl | rfl
  · decide
  · decide
  · decide

namespace StateMutation

variable {backend : StateBackend} {plain : PlainMap}

/-- What a change of a cell does: it stops with an error and leaves every cell,
or stores its result and says so, unless the flush after it fails. -/
def Changes (mutation : StateMutation) (backend : StateBackend) (plain : PlainMap) (key : StateKey)
    (after : Except MultimapError Unit × StateBackend) : Prop :=
  StateBackend.Durable backend after.2 ∧
    ((∃ reason, reason ≠ .state .applyFailed ∧ after.1 = .error reason ∧ after.2.Serves plain) ∨
      ∃ cell, mutation.result (plain key) = some cell ∧
        after.2.Serves (Function.update plain key cell) ∧
        (after.1 = .ok () ∨ after.1 = .error (.state .applyFailed)))

theorem changes_write {mutation : StateMutation} {middle : StateBackend}
    (h : middle.Serves plain) (hStore : middle.store = backend.store) (surroundings : Surroundings)
    (key : StateKey) {value : Option StateValue} (hResult : mutation.result (plain key) = some value) :
    mutation.Changes backend plain key
      ((middle.writeCell surroundings key value).map (Except.mapError .state) id) := by
  obtain ⟨hReply, hServes, hDurable⟩ := h.writes surroundings key value
  refine ⟨?_, .inr ⟨value, hResult, hServes, ?_⟩⟩
  · rw [StateBackend.Durable, hStore] at hDurable
    exact hDurable
  · refine hReply.imp (fun hDone => ?_) fun hFailed => ?_
    · exact congrArg (Except.mapError MultimapError.state) hDone
    · exact congrArg (Except.mapError MultimapError.state) hFailed

theorem changes_bagAppend (h : backend.Serves plain) (surroundings : Surroundings) (key : StateKey)
    (value : StateValue) :
    (bagAppend value).Changes backend plain key
      ((bagAppend value).run backend surroundings key) := by
  have hStore := backend.getLocked_store surroundings key
  rw [run, BagState.append, StateBackend.readModifyWrite]
  rcases hRead : backend.getLocked surroundings key with ⟨reply, after⟩
  have hSpec := h.getLocked surroundings key
  rw [hRead] at hSpec hStore
  rcases hSpec with ⟨hFound, hAfter⟩ | ⟨hFailed, hAfter⟩
  · obtain rfl : reply = .ok (plain key) := hFound
    exact changes_write hAfter hStore surroundings key rfl
  · obtain rfl : reply = .error .readFailed := hFailed
    obtain rfl : after = backend := hAfter
    exact ⟨.inl rfl, .inl ⟨.state .readFailed, by decide, rfl, h⟩⟩

/-- Reading the entries leaves the store. -/
theorem read_store (backend : StateBackend) (surroundings : Surroundings) (key : StateKey) :
    (MultimapState.read backend surroundings key).2.store = backend.store := by
  have hStore := backend.getLocked_store surroundings key
  rw [MultimapState.read, StateBackend.get]
  rcases hRead : backend.getLocked surroundings key with ⟨reply, after⟩
  rw [hRead] at hStore
  rcases reply with reason | (_ | data)
  · exact hStore
  · exact hStore
  · exact hStore

theorem changes_update (h : backend.Serves plain) (surroundings : Surroundings) (key : StateKey)
    {mutation : StateMutation} (change : List MultimapEntry → List MultimapEntry)
    (hResult : ∀ before, mutation.result before =
      (cellEntries before).toOption.map fun entries => some (encodeEntries (change entries))) :
    mutation.Changes backend plain key
      (MultimapState.update backend surroundings surroundings key change) := by
  have hStore := read_store backend surroundings key
  rw [MultimapState.update]
  rcases hRead : MultimapState.read backend surroundings key with ⟨reply, after⟩
  have hSpec := MultimapState.read_serves h surroundings key
  rw [hRead] at hSpec hStore
  rcases hSpec with ⟨hFound, hAfter⟩ | ⟨-, hFailed, hAfter⟩
  · obtain rfl : reply = cellEntries (plain key) := hFound
    cases hCell : cellEntries (plain key) with
    | error reason =>
        exact ⟨.inl hStore, .inl ⟨reason, (cellEntries_refused hCell).ne_applyFailed, rfl, hAfter⟩⟩
    | ok entries =>
        refine changes_write hAfter hStore surroundings key ?_
        rw [hResult, hCell]
        rfl
  · obtain rfl : reply = .error (.state .readFailed) := hFailed
    obtain rfl : after = backend := hAfter
    exact ⟨.inl rfl, .inl ⟨.state .readFailed, by decide, rfl, h⟩⟩

theorem changes_run (h : backend.Serves plain) (surroundings : Surroundings) (key : StateKey)
    (mutation : StateMutation) :
    mutation.Changes backend plain key (mutation.run backend surroundings key) := by
  cases mutation with
  | put value => exact changes_write h rfl surroundings key rfl
  | delete => exact changes_write h rfl surroundings key rfl
  | bagAppend value => exact changes_bagAppend h surroundings key value
  | multimap op =>
      cases op with
      | appendKeys keys => exact changes_update h surroundings key (addKeys keys) fun _ => rfl
      | appendValues mapKey values =>
          exact changes_update h surroundings key (addValues mapKey values) fun _ => rfl
      | clearValues mapKey => exact changes_update h surroundings key (dropKey mapKey) fun _ => rfl
      | clear => exact changes_write h rfl surroundings key rfl

end StateMutation

/-! Requests for user state. -/

namespace UserStateCell

variable {backend : StateBackend} {plain : PlainMap}

/-- A read answers the contents of the cell, unless the store could not be read. -/
theorem get_serves (h : backend.Serves plain) (cell : UserStateCell) (surroundings : Surroundings) :
    (cell.get backend surroundings).2.Serves plain ∧
      (cell.get backend surroundings).2.store = backend.store ∧
      ((cell.get backend surroundings).1 = cell.contents (plain cell.address.compositeKey) ∨
        surroundings.readFails = true ∧
          (cell.get backend surroundings).1 = .error (.state .readFailed)) := by
  have hMultimap : (MultimapState.read backend surroundings cell.address.compositeKey).2.Serves plain ∧
      ((MultimapState.read backend surroundings cell.address.compositeKey).1 =
          cellEntries (plain cell.address.compositeKey) ∨
        surroundings.readFails = true ∧
          (MultimapState.read backend surroundings cell.address.compositeKey).1 =
            .error (.state .readFailed)) := by
    rcases MultimapState.read_serves h surroundings cell.address.compositeKey with
      ⟨hRead, hAfter⟩ | ⟨hFails, hRead, hAfter⟩
    · exact ⟨hAfter, .inl hRead⟩
    · exact ⟨hAfter.symm ▸ h, .inr ⟨hFails, hRead⟩⟩
  have hStore := StateMutation.read_store backend surroundings cell.address.compositeKey
  obtain ⟨hServes, hReply⟩ := hMultimap
  obtain ⟨kind, address, mapKey⟩ := cell
  cases kind with
  | bag =>
      have hLocked := backend.getLocked_store surroundings address.compositeKey
      simp only [get, BagState.get, StateBackend.get, contents, Prod.map]
      rcases h.getLocked surroundings address.compositeKey with ⟨hRead, hAfter⟩ | ⟨hRead, hAfter⟩
      · refine ⟨hAfter, hLocked, .inl ?_⟩
        rw [hRead]
        rfl
      · refine ⟨hAfter.symm ▸ h, hLocked, .inr ⟨StateBackend.getLocked_failed hRead, ?_⟩⟩
        rw [hRead]
        rfl
  | multimapKeys =>
      refine ⟨hServes, hStore, hReply.imp (fun hRead => ?_) fun hRead => ⟨hRead.1, ?_⟩⟩
      · exact congrArg (Except.map concatKeys) hRead
      · exact congrArg (Except.map concatKeys) hRead.2
  | multimapEntries =>
      refine ⟨hServes, hStore, hReply.imp (fun hRead => ?_) fun hRead => ⟨hRead.1, ?_⟩⟩
      · exact congrArg (Except.bind · concatGroups) hRead
      · exact congrArg (Except.bind · concatGroups) hRead.2
  | multimapValues =>
      refine ⟨hServes, hStore, hReply.imp (fun hRead => ?_) fun hRead => ⟨hRead.1, ?_⟩⟩
      · exact congrArg (Except.map (concatValues mapKey)) hRead
      · exact congrArg (Except.map (concatValues mapKey)) hRead.2

theorem clear_eq_run (cell : UserStateCell) (backend : StateBackend) (surroundings : Surroundings) :
    cell.clear backend surroundings =
      cell.clears.run backend surroundings cell.address.compositeKey := by
  obtain ⟨kind, address, mapKey⟩ := cell
  cases kind with
  | bag | multimapKeys | multimapEntries | multimapValues => rfl

end UserStateCell

section Requests

variable {backend : StateBackend} {plain : PlainMap}

/-- A change that is answered is in the cell when the answer says that it was stored. -/
theorem StateMutation.Changes.answered {mutation : StateMutation} {key : StateKey}
    {after : Except MultimapError Unit × StateBackend} (h : mutation.Changes backend plain key after)
    (operation : String) (body : StateResponseBody) :
    after.2.Serves (Function.update plain key (cellAfter (some mutation)
      (some ((after.1.mapError (.userState operation)).map fun _ => body)) (plain key))) := by
  rcases h.2 with ⟨reason, hReason, hReply, hServes⟩ | ⟨cell, hResult, hServes, hReply⟩
  · have hStored : stored (some ((after.1.mapError (.userState operation)).map fun _ => body)) =
        false := by
      rw [hReply]
      cases reason with
      | state reason =>
          cases reason with
          | readFailed => rfl
          | applyFailed => exact absurd rfl hReason
      | truncatedLength | truncatedValue | trailingBytes | tooManyValues | panic => rfl
    rw [cellAfter, hStored, if_neg Bool.false_ne_true, Function.update_eq_self]
    exact hServes
  · have hStored : stored (some ((after.1.mapError (.userState operation)).map fun _ => body)) =
        true := by
      rcases hReply with hDone | hFailed
      · rw [hDone]
        rfl
      · rw [hFailed]
        rfl
    rw [cellAfter, hStored, if_pos rfl, hResult]
    exact hServes

theorem AppendError.answered_bag (reply : Except StateError Unit) :
    (reply.mapError AppendError.bagFailed).mapError AppendError.answered =
      (reply.mapError MultimapError.state).mapError (.userState "append") := by
  cases reply with
  | ok _ | error _ => rfl

theorem AppendError.answered_multimap (reply : Except MultimapError Unit) :
    (reply.mapError AppendError.multimapFailed).mapError AppendError.answered =
      reply.mapError (.userState "append") := by
  cases reply with
  | ok _ | error _ => rfl

/-- An append changes its cell, or asks for no change. -/
theorem handleAppend_cases (backend : StateBackend) (surroundings : Surroundings)
    (userStates : Option UserStateRegistry) (cell : UserStateCell) (data : List UInt8) :
    (∃ mutation reply, cell.appends userStates data = some mutation ∧
      handleAppend backend surroundings userStates cell data = some (reply,
        (mutation.run backend surroundings cell.address.compositeKey).2) ∧
      reply.mapError AppendError.answered =
        (mutation.run backend surroundings cell.address.compositeKey).1.mapError
          (.userState "append")) ∨
    cell.appends userStates data = none ∧
      (handleAppend backend surroundings userStates cell data = none ∨
        ∃ message, handleAppend backend surroundings userStates cell data =
          some (.error (.refused message), backend)) := by
  obtain ⟨kind, address, mapKey⟩ := cell
  cases kind with
  | bag =>
      exact .inl ⟨.bagAppend data, _, rfl, rfl, AppendError.answered_bag _⟩
  | multimapEntries => exact .inr ⟨rfl, .inr ⟨_, rfl⟩⟩
  | multimapKeys =>
      rw [UserStateCell.appends, handleAppend]
      cases UserStateCell.coders ⟨.multimapKeys, address, mapKey⟩ userStates with
      | none => exact .inr ⟨rfl, .inr ⟨_, rfl⟩⟩
      | some coders =>
          dsimp only [Option.bind_some]
          cases piecesOf coders.key data with
          | none => exact .inr ⟨rfl, .inl rfl⟩
          | some keys =>
              exact .inl ⟨.multimap (.appendKeys keys), _, rfl, rfl, AppendError.answered_multimap _⟩
  | multimapValues =>
      rw [UserStateCell.appends, handleAppend]
      cases UserStateCell.coders ⟨.multimapValues, address, mapKey⟩ userStates with
      | none => exact .inr ⟨rfl, .inr ⟨_, rfl⟩⟩
      | some coders =>
          dsimp only [Option.bind_some]
          cases piecesOf coders.value data with
          | none => exact .inr ⟨rfl, .inl rfl⟩
          | some values =>
              exact .inl ⟨.multimap (.appendValues mapKey values), _, rfl, rfl,
                AppendError.answered_multimap _⟩

/-- A request for user state changes its own cell, as its answer says, and no other. -/
theorem handleUserStateRequest_serves (h : backend.Serves plain) (surroundings : Surroundings)
    (userStates : Option UserStateRegistry) (cell : UserStateCell)
    (body : Option StateRequestBody) :
    (handleUserStateRequest backend surroundings userStates cell body).2.Serves
        (Function.update plain cell.address.compositeKey
          (cellAfter (cell.asks userStates body)
            (handleUserStateRequest backend surroundings userStates cell body).1
            (plain cell.address.compositeKey))) ∧
      StateBackend.Durable backend
        (handleUserStateRequest backend surroundings userStates cell body).2 := by
  rcases body with _ | (token | data | _)
  · refine ⟨?_, .inl rfl⟩
    rw [UserStateCell.asks, cellAfter, Function.update_eq_self]
    exact h
  · rw [UserStateCell.asks, cellAfter, Function.update_eq_self, handleUserStateRequest]
    split
    · exact ⟨h, .inl rfl⟩
    · obtain ⟨hServes, hStore, -⟩ := cell.get_serves h surroundings
      exact ⟨hServes, .inl hStore⟩
  · rw [UserStateCell.asks]
    rcases handleAppend_cases backend surroundings userStates cell data with
      ⟨mutation, reply, hAsks, hAppend, hReply⟩ | ⟨hAsks, hAppend | ⟨message, hAppend⟩⟩
    · have hChanges := StateMutation.changes_run h surroundings cell.address.compositeKey mutation
      rw [handleUserStateRequest, hAppend, hAsks]
      dsimp only
      rw [hReply]
      exact ⟨hChanges.answered "append" .append, hChanges.1⟩
    · rw [handleUserStateRequest, hAppend, hAsks, cellAfter, Function.update_eq_self]
      exact ⟨h, .inl rfl⟩
    · rw [handleUserStateRequest, hAppend, hAsks, cellAfter, Function.update_eq_self]
      exact ⟨h, .inl rfl⟩
  · have hChanges := StateMutation.changes_run h surroundings cell.address.compositeKey cell.clears
    rw [← cell.clear_eq_run backend surroundings] at hChanges
    exact ⟨hChanges.answered "clear" .clear, hChanges.1⟩

/-- A read of user state answers what the cell holds, unless the store could not
be read. -/
theorem handleUserStateRequest_get (h : backend.Serves plain) (surroundings : Surroundings)
    (userStates : Option UserStateRegistry) (cell : UserStateCell) :
    (handleUserStateRequest backend surroundings userStates cell (some (.get []))).1 =
        some (((cell.contents (plain cell.address.compositeKey)).mapError (.userState "get")).map
          (.get [])) ∨
      surroundings.readFails = true ∧
        (handleUserStateRequest backend surroundings userStates cell (some (.get []))).1 =
          some (.error (.userState "get" (.state .readFailed))) := by
  obtain ⟨-, -, hReply⟩ := cell.get_serves h surroundings
  rw [handleUserStateRequest, if_neg (not_not.mpr rfl)]
  refine hReply.imp (fun hFound => ?_) fun hFailed => ⟨hFailed.1, ?_⟩
  · rw [← hFound]
  · dsimp only
    rw [hFailed.2]
    rfl

end Requests

end FlareDB
