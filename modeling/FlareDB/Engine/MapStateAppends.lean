import FlareDB.Coders.CutOff
import FlareDB.Coders.Swallowing
import FlareDB.Engine.FailedMutations

/-! Appends to map state. The appended bytes are encodings in a row, which are cut
into pieces by decoding them; bytes that do not decode are one opaque piece. -/
namespace FlareDB

open ByteDecoder Decoder KeyedStore

/-- Why bytes are not taken apart. -/
inductive SplitError where
  | decode (reason : CodersError)
  | noBytes
deriving DecidableEq, Repr

/-- Every round reads at least one byte, so when the fuel is the number of bytes
plus one it does not run out. -/
def splitLoop (coder : StandardBeamCoders) : Nat → Decoder SplitError (List (List UInt8))
  | 0, _ => .panic
  | fuel + 1, data =>
      if data.isEmpty then .ok [] data
      else (do
        let _ ← coder.decode.mapError .decode
        let left ← remaining
        if data.length ≤ left then fail .noBytes
        else do
          let values ← splitLoop coder fuel
          pure (data.take (data.length - left) :: values) : Decoder _ _) data

/-- The encodings that the bytes are made of. -/
def splitEncodedValues (coder : StandardBeamCoders) (data : List UInt8) :
    Outcome SplitError (List (List UInt8)) :=
  splitLoop coder (data.length + 1) data

/-! Requests. -/

inductive UserStateKind where
  | bag
  | multimapKeys
  | multimapEntries
  | multimapValues
deriving DecidableEq, Repr

/-- What a request for user state is about. -/
structure UserStateCell where
  kind : UserStateKind
  address : UserStateAddress
  mapKey : List UInt8
deriving DecidableEq, Repr

structure UserStateCoders where
  key : StandardBeamCoders
  value : StandardBeamCoders

/-- The coders of the map states, by transform and local name. -/
abbrev UserStateRegistry := Store (String × String) UserStateCoders

def UserStateRegistry.mapCoders (registry : UserStateRegistry) (transformId userStateId : String) :
    Option UserStateCoders :=
  registry.lookup (transformId, userStateId)

inductive AppendError where
  | refused (message : String)
  | bagFailed (reason : StateError)
  | multimapFailed (reason : MultimapError)
deriving DecidableEq, Repr

/-- The pieces to append: bytes that cannot be taken apart stay together. -/
def piecesOf (coder : StandardBeamCoders) (data : List UInt8) : Option (List (List UInt8)) :=
  match splitEncodedValues coder data with
  | .ok pieces _ => some pieces
  | .error _ => some [data]
  | .panic => none

namespace UserStateCell

def coders (cell : UserStateCell) (userStates : Option UserStateRegistry) : Option UserStateCoders :=
  userStates.bind fun registry =>
    registry.mapCoders cell.address.transformId cell.address.userStateId

end UserStateCell

/-- Answer an append request; there is no answer where taking the bytes apart
unwinds. -/
def handleAppend (backend : StateBackend) (surroundings : Surroundings)
    (userStates : Option UserStateRegistry) (cell : UserStateCell) (data : List UInt8) :
    Option (Except AppendError Unit × StateBackend) :=
  match cell.kind with
  | .bag => some ((BagState.append backend surroundings cell.address.compositeKey data).map
      (Except.mapError .bagFailed) id)
  | .multimapKeys => match cell.coders userStates with
      | none => some (.error (.refused "multimap state key coder is not registered"), backend)
      | some coders => (piecesOf coders.key data).map fun keys =>
          (MultimapState.appendKeys backend surroundings surroundings cell.address.compositeKey
            keys).map (Except.mapError .multimapFailed) id
  | .multimapValues => match cell.coders userStates with
      | none => some (.error (.refused "multimap state value coder is not registered"), backend)
      | some coders => (piecesOf coders.value data).map fun values =>
          (MultimapState.appendValues backend surroundings surroundings cell.address.compositeKey
            cell.mapKey values).map (Except.mapError .multimapFailed) id
  | .multimapEntries => some (.error (.refused
      "append state failed: append is not supported for multimap entries state"), backend)

/-! Taking bytes apart. -/

namespace StandardBeamCoders

/-- The decoder, started at some bytes, leaves others. -/
def Leaves (coder : StandardBeamCoders) (data rest : List UInt8) : Prop :=
  ∃ record, coder.decode data = .ok record rest

end StandardBeamCoders

section Split

variable {coder : StandardBeamCoders}

theorem splitLoop_nil (fuel : Nat) : splitLoop coder (fuel + 1) [] = .ok [] [] := rfl

/-- One value is split off the front. -/
theorem splitLoop_step {fuel : Nat} {data rest : List UInt8} {record : BeamRecord}
    (hDecode : coder.decode data = .ok record rest) (hLess : rest.length < data.length) :
    splitLoop coder (fuel + 1) data =
      (do let values ← splitLoop coder fuel
          pure (data.take (data.length - rest.length) :: values) : Decoder _ _) rest := by
  have hSome : data.isEmpty = false := by
    cases data with
    | nil => cases hLess
    | cons byte data => rfl
  rw [splitLoop, hSome, if_neg (by decide), bind_apply, Decoder.mapError, hDecode]
  change (if data.length ≤ rest.length then (fail .noBytes : Decoder SplitError _) else _) rest = _
  rw [if_neg (Nat.not_le_of_lt hLess)]

/-- A round of the loop: it stops at the end, or decodes a value that is not
empty and goes on behind it, or it does not return. -/
theorem splitLoop_eq_ok {fuel : Nat} {data last : List UInt8} {pieces : List (List UInt8)}
    (h : splitLoop coder (fuel + 1) data = .ok pieces last) :
    (data = [] ∧ pieces = [] ∧ last = []) ∨ ∃ record rest values,
      coder.decode data = .ok record rest ∧ rest.length < data.length ∧
        splitLoop coder fuel rest = .ok values last ∧
        pieces = data.take (data.length - rest.length) :: values := by
  rw [splitLoop] at h
  split at h
  next hEnd =>
    cases h
    exact .inl ⟨List.isEmpty_iff.mp hEnd, rfl, List.isEmpty_iff.mp hEnd⟩
  · obtain ⟨record, rest, hDecode, h⟩ := bind_eq_ok h
    obtain ⟨left, middle, hLeft, h⟩ := bind_eq_ok h
    cases hLeft
    split at h
    · cases h
    next hLess =>
      obtain ⟨values, after, hValues, hPure⟩ := bind_eq_ok h
      cases hPure
      exact .inr ⟨record, rest, values, mapError_eq_ok hDecode, Nat.lt_of_not_le hLess, hValues, rfl⟩

/-- The loop unwinds only where the decoder does, at a boundary of the values
before it. -/
theorem cutOff_of_splitLoop {fuel : Nat} {data : List UInt8} (hFuel : data.length < fuel)
    (h : splitLoop coder fuel data = .panic) :
    ∃ rest, rest ≠ [] ∧ Relation.ReflTransGen coder.Leaves data rest ∧ coder.CutOff rest := by
  induction fuel generalizing data with
  | zero => omega
  | succ fuel ih =>
      rw [splitLoop] at h
      split at h
      · cases h
      next hSome =>
        have hData : data ≠ [] := fun hEnd => hSome (List.isEmpty_iff.mpr hEnd)
        rcases bind_eq_panic.mp h with hDecode | ⟨record, rest, hDecode, h⟩
        · refine ⟨data, hData, .refl, ?_⟩
          exact (coder.decodeNested_eq_panic_iff data).mp (mapError_eq_panic.mp hDecode)
        · rcases bind_eq_panic.mp h with hLeft | ⟨left, middle, hLeft, h⟩
          · cases hLeft
          cases hLeft
          split at h
          · cases h
          next hLess =>
            obtain ⟨last, hLast, hReach, hCut⟩ := ih (by omega) ((map_eq_panic _).mp h)
            exact ⟨last, hLast, .head ⟨record, mapError_eq_ok hDecode⟩ hReach, hCut⟩

/-- The pieces are not empty, and in a row they are the bytes. -/
theorem flatten_splitLoop {fuel : Nat} {data last : List UInt8} {pieces : List (List UInt8)}
    (h : splitLoop coder fuel data = .ok pieces last) :
    last = [] ∧ (∀ piece ∈ pieces, piece ≠ []) ∧ pieces.flatten = data := by
  induction fuel generalizing data pieces with
  | zero => cases h
  | succ fuel ih =>
      rcases splitLoop_eq_ok h with ⟨rfl, rfl, rfl⟩ | ⟨record, rest, values, hDecode, hLess, hRest, rfl⟩
      · exact ⟨rfl, fun piece hMem => absurd hMem List.not_mem_nil, rfl⟩
      · obtain ⟨hLast, hSome, hFlatten⟩ := ih hRest
        obtain ⟨front, rfl⟩ := coder.consumes_decodeNested data record rest hDecode
        rw [List.length_append] at hLess ⊢
        rw [Nat.add_sub_cancel, List.take_left]
        refine ⟨hLast, ?_, by rw [List.flatten_cons, hFlatten]⟩
        intro piece hMem
        rcases List.mem_cons.mp hMem with rfl | hOther
        · exact List.ne_nil_of_length_pos (by omega)
        · exact hSome piece hOther

/-- Encodings that each end where they stand are the pieces. -/
theorem splitLoop_of_delimited {values : List BeamRecord} {parts : List (List UInt8)}
    (h : List.Forall₂ (fun value part => Delimited coder.decodeNested part value) values parts)
    (hSome : ∀ part ∈ parts, part ≠ []) {fuel : Nat} (hFuel : parts.length < fuel) :
    splitLoop coder fuel parts.flatten = .ok parts [] := by
  obtain ⟨fuel, rfl⟩ := Nat.exists_eq_add_one_of_ne_zero (Nat.ne_of_gt (Nat.zero_lt_of_lt hFuel))
  induction h generalizing fuel with
  | nil => exact splitLoop_nil fuel
  | @cons value part values parts hPart hParts ih =>
      rw [List.length_cons] at hFuel
      obtain ⟨fuel, rfl⟩ := Nat.exists_eq_add_one_of_ne_zero (show fuel ≠ 0 by omega)
      have hByte := List.length_pos_of_ne_nil (hSome part List.mem_cons_self)
      have hRest := ih (fun other hMem => hSome other (List.mem_cons_of_mem _ hMem)) fuel (by omega)
      rw [List.flatten_cons, splitLoop_step (hPart parts.flatten)
        (by rw [List.length_append]; omega), bind_apply, hRest, List.length_append,
        Nat.add_sub_cancel, List.take_left]
      rfl

/-- An encoding that is read past its end is read with all that follows, so the
pieces are encodings up to there and then one piece. -/
theorem splitLoop_encodings {values : List BeamRecord} {parts : List (List UInt8)}
    (h : List.Forall₂ (fun value part => coder.WellTyped value ∧ coder.encode value = some part)
      values parts) (hSome : ∀ part ∈ parts, part ≠ []) {fuel : Nat} {pieces : List (List UInt8)}
    {last : List UInt8} (hPieces : splitLoop coder fuel parts.flatten = .ok pieces last) :
    ∃ before after, parts = before ++ after ∧
      pieces = before ++ if after.isEmpty then [] else [after.flatten] := by
  induction h generalizing fuel pieces with
  | nil =>
      cases fuel with
      | zero => cases hPieces
      | succ fuel =>
          cases hPieces
          exact ⟨[], [], rfl, rfl⟩
  | @cons value part values parts hHead hTail ih =>
      cases fuel with
      | zero => cases hPieces
      | succ fuel =>
          have hByte := hSome part List.mem_cons_self
          rcases splitLoop_eq_ok hPieces with ⟨hNone, -, -⟩ | ⟨record, rest, others, hDecode, -, hRest, rfl⟩
          · exact absurd (List.append_eq_nil_iff.mp hNone).1 hByte
          rw [List.flatten_cons] at hDecode ⊢
          rcases coder.bounded_encode value part hHead.1 hHead.2 with hDelimited | hSwallows
          · have hSame := (hDelimited parts.flatten).symm.trans hDecode
            cases hSame
            obtain ⟨before, after, rfl, rfl⟩ :=
              ih (fun other hMem => hSome other (List.mem_cons_of_mem _ hMem)) hRest
            refine ⟨part :: before, after, rfl, ?_⟩
            rw [List.length_append, Nat.add_sub_cancel, List.take_left]
            rfl
          · obtain ⟨rfl, -⟩ := hSwallows parts.flatten record rest hDecode
            cases fuel with
            | zero => cases hRest
            | succ fuel =>
                cases hRest
                refine ⟨[], part :: parts, rfl, ?_⟩
                rw [List.length_nil, Nat.sub_zero, List.take_length]
                rfl

end Split

/-! The bytes read back. -/

/-- The first occurrences of keys that are not known. -/
def freshKeys (known : List (List UInt8)) : List (List UInt8) → List (List UInt8)
  | [] => []
  | key :: keys =>
      if known.contains key then freshKeys known keys else key :: freshKeys (known ++ [key]) keys

/-- Inserting keys adds the fresh ones at the end. -/
theorem foldl_insertKey (keys known : List (List UInt8)) :
    keys.foldl insertKey known = known ++ freshKeys known keys := by
  induction keys generalizing known with
  | nil => rw [freshKeys, List.append_nil, List.foldl_nil]
  | cons key keys ih =>
      rw [List.foldl_cons, insertKey, freshKeys]
      by_cases hMem : key ∈ known
      · rw [if_pos hMem, if_pos (List.contains_iff_mem.mpr hMem)]
        exact ih known
      · rw [if_neg hMem, if_neg (mt List.contains_iff_mem.mp hMem), ih, List.append_assoc,
          List.singleton_append]

/-- So does adding keys to entries. -/
theorem map_key_addKeys (keys : List (List UInt8)) (entries : List MultimapEntry) :
    (addKeys keys entries).map MultimapEntry.key =
      keys.foldl insertKey (entries.map MultimapEntry.key) := by
  induction keys generalizing entries with
  | nil => rfl
  | cons key keys ih =>
      have hAdd : (addKey entries key).map MultimapEntry.key =
          insertKey (entries.map MultimapEntry.key) key := by
        have hAny : (entries.any fun entry => entry.key == key) =
            decide (key ∈ entries.map MultimapEntry.key) := by
          rw [Bool.eq_iff_iff, List.any_eq_true]
          simp
        rw [addKey, insertKey, hAny]
        by_cases hMem : key ∈ entries.map MultimapEntry.key
        · rw [if_pos (by simpa using hMem), if_pos hMem]
        · rw [if_neg (by simpa using hMem), if_neg hMem, List.map_append, List.map_singleton]
      rw [addKeys, List.foldl_cons, List.foldl_cons, ← hAdd]
      exact ih (addKey entries key)

/-- The concatenated keys grow by the fresh ones. -/
theorem concatKeys_addKeys (keys : List (List UInt8)) (entries : List MultimapEntry) :
    concatKeys (addKeys keys entries) =
      concatKeys entries ++ (freshKeys (entries.map MultimapEntry.key) keys).flatten := by
  have hKeys : ∀ entries : List MultimapEntry,
      concatKeys entries = (entries.map MultimapEntry.key).flatten :=
    fun entries => List.flatMap_def
  rw [hKeys, hKeys, map_key_addKeys, foldl_insertKey, List.flatten_append]

/-- The values of a key grow by the added ones, those of others not at all. -/
theorem concatValues_addValues (mapKey : List UInt8) (values : List (List UInt8))
    (entries : List MultimapEntry) :
    concatValues mapKey (addValues mapKey values entries) =
      concatValues mapKey entries ++ values.flatten := by
  induction entries with
  | nil => simp [concatValues, addValues]
  | cons entry entries ih =>
      by_cases hKey : entry.key = mapKey
      · rw [addValues_cons_eq hKey, concatValues, concatValues, List.find?_cons_of_pos (by simpa using hKey),
          List.find?_cons_of_pos (by simpa using hKey)]
        exact List.flatten_append
      · rw [addValues_cons_ne hKey, concatValues, concatValues,
          List.find?_cons_of_neg (by simpa using hKey), List.find?_cons_of_neg (by simpa using hKey)]
        exact ih

theorem StateMutation.result_multimap {op : MultimapOp} (h : op ≠ .clear)
    (before : Option StateValue) :
    StateMutation.result before (.multimap op) =
      (cellEntries before).toOption.map fun entries => some (encodeEntries (op.change entries)) := by
  cases op with
  | clear => exact absurd rfl h
  | appendKeys keys | appendValues mapKey values | clearValues mapKey => rfl

/-- The entries fit the four-byte counts and lengths of a cell. -/
def Storage (entries : List MultimapEntry) : Prop :=
  entries.length < 2 ^ 32 ∧ ∀ entry ∈ entries, entry.Prefixed

namespace MultimapState

variable {backend after : StateBackend} {surroundings : Surroundings} {stateKey : StateKey}

/-- A read answers with the cell, or fails. -/
theorem read_cases (backend : StateBackend) (reading : Surroundings) (stateKey : StateKey) :
    (read backend reading stateKey).1 = cellEntries (backend.view stateKey) ∨
      reading.readFails = true ∧
        (read backend reading stateKey).1 = .error (.state .readFailed) := by
  rw [read, StateBackend.get]
  rcases hRead : backend.getLocked reading stateKey with ⟨reply, next⟩
  have hSpec := backend.getLocked_cases reading stateKey
  rw [hRead] at hSpec
  rcases hSpec with ⟨hFails, hFailed⟩ | ⟨-, hFound, -⟩
  · cases hFailed
    exact .inr ⟨hFails.2, rfl⟩
  · obtain rfl : reply = .ok (backend.view stateKey) := hFound
    cases backend.view stateKey with
    | none => exact .inl rfl
    | some data => exact .inl rfl

/-- A view of the cell that is read without an error. -/
theorem cell_of_view {reading : Surroundings} {f : List MultimapEntry → List UInt8}
    {found : List UInt8} (h : ((read backend reading stateKey).1.map f) = .ok found) :
    ∃ entries, cellEntries (backend.view stateKey) = .ok entries ∧ found = f entries := by
  rcases read_cases backend reading stateKey with hCell | ⟨-, hFailed⟩
  · rw [hCell] at h
    cases hEntries : cellEntries (backend.view stateKey) with
    | error reason =>
        rw [hEntries] at h
        cases h
    | ok entries =>
        rw [hEntries] at h
        cases h
        exact ⟨entries, rfl, rfl⟩
  · rw [hFailed] at h
    cases h

/-- What a cell that was written is read as. -/
theorem view_of_written {entries : List MultimapEntry} (hFits : Storage entries)
    (hCell : after.view stateKey = some (encodeEntries entries)) (reading : Surroundings)
    (f : List MultimapEntry → List UInt8) :
    Replies reading ((read after reading stateKey).1.map f) (.ok (f entries)) := by
  rcases read_cases after reading stateKey with hRead | ⟨hFails, hFailed⟩
  · have hEntries : cellEntries (some (encodeEntries entries)) = .ok entries :=
      decodeEntries_of_prefixed hFits.1 hFits.2
    rw [hRead, hCell, hEntries]
    exact .inl rfl
  · rw [hFailed]
    exact .inr ⟨hFails, rfl⟩

/-- An update that is answered without an error has written its cell. -/
theorem view_of_done {op : MultimapOp}
    (hDone : (step backend stateKey ⟨op, surroundings, surroundings⟩).1 = .ok ())
    {entries : List MultimapEntry} (hCell : cellEntries (backend.view stateKey) = .ok entries)
    (hClear : op ≠ .clear) :
    (step backend stateKey ⟨op, surroundings, surroundings⟩).2.view stateKey =
      some (encodeEntries (op.change entries)) := by
  have hResult := @StateMutation.result_of_done backend surroundings stateKey (.multimap op) hDone
  rw [StateMutation.result_multimap hClear, hCell] at hResult
  exact (Option.some.inj hResult).symm

/-- With a store that works an update of a cell that decodes is done. -/
theorem done_of_working (hReads : surroundings.readFails = false)
    (hApplies : surroundings.applyFails = false) {entries : List MultimapEntry}
    (hCell : cellEntries (backend.view stateKey) = .ok entries) {op : MultimapOp}
    (hClear : op ≠ .clear) :
    (step backend stateKey ⟨op, surroundings, surroundings⟩).1 = .ok () := by
  rcases StateMutation.outcome_run backend surroundings stateKey (.multimap op) with
    ⟨hStops, -⟩ | ⟨-, -, hReply⟩
  · rcases hStops with ⟨-, -, hFails⟩ | hNone
    · rw [hReads] at hFails
      cases hFails
    · rw [StateMutation.result_multimap hClear, hCell] at hNone
      cases hNone
  · refine hReply.mpr ?_
    rintro ⟨-, hFails⟩
    rw [hApplies] at hFails
    cases hFails

end MultimapState

/-! Append requests. -/

namespace UserStateCell

/-- The map operation that an append to the cell is. -/
def appendOp (cell : UserStateCell) (userStates : Option UserStateRegistry) (data : List UInt8) :
    Option MultimapOp :=
  (cell.coders userStates).bind fun coders => match cell.kind with
    | .multimapKeys => (piecesOf coders.key data).map .appendKeys
    | .multimapValues => (piecesOf coders.value data).map (.appendValues cell.mapKey)
    | _ => none

/-- The cell has room for what is appended. -/
def HasRoom (backend : StateBackend) (userStates : Option UserStateRegistry) (cell : UserStateCell)
    (data : List UInt8) : Prop :=
  ∀ op entries, cell.appendOp userStates data = some op →
    cellEntries (backend.view cell.address.compositeKey) = .ok entries → Storage (op.change entries)

variable {backend after : StateBackend} {surroundings : Surroundings}
  {userStates : Option UserStateRegistry} {cell : UserStateCell} {data : List UInt8}

/-- The pieces together are the data. -/
theorem flatten_piecesOf {coder : StandardBeamCoders} {pieces : List (List UInt8)}
    (h : piecesOf coder data = some pieces) : pieces.flatten = data := by
  rw [piecesOf] at h
  cases hSplit : splitEncodedValues coder data with
  | ok found last =>
      rw [hSplit] at h
      cases h
      exact (flatten_splitLoop hSplit).2.2
  | error reason =>
      rw [hSplit] at h
      cases h
      exact List.append_nil data
  | panic =>
      rw [hSplit] at h
      cases h

theorem done_of_mapError {result : Except MultimapError Unit × StateBackend}
    (h : result.map (Except.mapError AppendError.multimapFailed) id = (.ok (), after)) :
    result.1 = .ok () ∧ result.2 = after := by
  obtain ⟨reply, next⟩ := result
  cases reply with
  | error reason => cases h
  | ok _ =>
      cases h
      exact ⟨rfl, rfl⟩

/-- An append of values that is accepted adds the pieces of its data to its key. -/
theorem values_of_handleAppend (hKind : cell.kind = .multimapValues)
    (h : handleAppend backend surroundings userStates cell data = some (.ok (), after)) :
    ∃ coders pieces, cell.coders userStates = some coders ∧
      piecesOf coders.value data = some pieces ∧
      (MultimapState.step backend cell.address.compositeKey
        ⟨.appendValues cell.mapKey pieces, surroundings, surroundings⟩).1 = .ok () ∧
      (MultimapState.step backend cell.address.compositeKey
        ⟨.appendValues cell.mapKey pieces, surroundings, surroundings⟩).2 = after := by
  rw [handleAppend, hKind] at h
  dsimp only at h
  cases hCoders : cell.coders userStates with
  | none =>
      rw [hCoders] at h
      cases h
  | some coders =>
      rw [hCoders] at h
      obtain ⟨pieces, hPieces, hReply⟩ := Option.map_eq_some_iff.mp h
      exact ⟨coders, pieces, rfl, hPieces, done_of_mapError hReply⟩

/-- An append of keys that is accepted adds the pieces as keys. -/
theorem keys_of_handleAppend (hKind : cell.kind = .multimapKeys)
    (h : handleAppend backend surroundings userStates cell data = some (.ok (), after)) :
    ∃ coders pieces, cell.coders userStates = some coders ∧
      piecesOf coders.key data = some pieces ∧
      (MultimapState.step backend cell.address.compositeKey
        ⟨.appendKeys pieces, surroundings, surroundings⟩).1 = .ok () ∧
      (MultimapState.step backend cell.address.compositeKey
        ⟨.appendKeys pieces, surroundings, surroundings⟩).2 = after := by
  rw [handleAppend, hKind] at h
  dsimp only at h
  cases hCoders : cell.coders userStates with
  | none =>
      rw [hCoders] at h
      cases h
  | some coders =>
      rw [hCoders] at h
      obtain ⟨pieces, hPieces, hReply⟩ := Option.map_eq_some_iff.mp h
      exact ⟨coders, pieces, rfl, hPieces, done_of_mapError hReply⟩

/-- The values of a map key are followed by the appended bytes. -/
theorem values_read_back (hKind : cell.kind = .multimapValues)
    (h : handleAppend backend surroundings userStates cell data = some (.ok (), after))
    (hRoom : cell.HasRoom backend userStates data) {first : Surroundings} {previous : List UInt8}
    (hPrevious : MultimapState.values backend first cell.address.compositeKey cell.mapKey =
      .ok previous) (last : Surroundings) :
    Replies last (MultimapState.values after last cell.address.compositeKey cell.mapKey)
      (.ok (previous ++ data)) := by
  obtain ⟨coders, pieces, hCoders, hPieces, hDone, rfl⟩ := values_of_handleAppend hKind h
  obtain ⟨entries, hCell, rfl⟩ := MultimapState.cell_of_view hPrevious
  have hOp : cell.appendOp userStates data = some (.appendValues cell.mapKey pieces) := by
    rw [appendOp, hCoders, hKind]
    exact congrArg (Option.map _) hPieces
  have hWritten := MultimapState.view_of_done hDone hCell fun hClear => by cases hClear
  have hReply := MultimapState.view_of_written (hRoom _ entries hOp hCell) hWritten last
    (concatValues cell.mapKey)
  have hChange : concatValues cell.mapKey
      ((MultimapOp.appendValues cell.mapKey pieces).change entries) =
        concatValues cell.mapKey entries ++ data := by
    rw [MultimapOp.change, concatValues_addValues, flatten_piecesOf hPieces]
  rw [hChange] at hReply
  exact hReply

/-- The keys of a map are followed by those of the appended ones that are new. -/
theorem keys_read_back (hKind : cell.kind = .multimapKeys)
    (h : handleAppend backend surroundings userStates cell data = some (.ok (), after))
    (hRoom : cell.HasRoom backend userStates data) {first : Surroundings} {previous : List UInt8}
    (hPrevious : MultimapState.keys backend first cell.address.compositeKey = .ok previous) :
    ∃ entries coders pieces, cellEntries (backend.view cell.address.compositeKey) = .ok entries ∧
      cell.coders userStates = some coders ∧ piecesOf coders.key data = some pieces ∧
      pieces.flatten = data ∧
      ∀ last, Replies last (MultimapState.keys after last cell.address.compositeKey)
        (.ok (previous ++ (freshKeys (entries.map MultimapEntry.key) pieces).flatten)) := by
  obtain ⟨coders, pieces, hCoders, hPieces, hDone, rfl⟩ := keys_of_handleAppend hKind h
  obtain ⟨entries, hCell, rfl⟩ := MultimapState.cell_of_view hPrevious
  have hOp : cell.appendOp userStates data = some (.appendKeys pieces) := by
    rw [appendOp, hCoders, hKind]
    exact congrArg (Option.map _) hPieces
  have hWritten := MultimapState.view_of_done hDone hCell fun hClear => by cases hClear
  refine ⟨entries, coders, pieces, hCell, hCoders, hPieces, flatten_piecesOf hPieces, fun last => ?_⟩
  have hReply := MultimapState.view_of_written (hRoom _ entries hOp hCell) hWritten last concatKeys
  rw [MultimapOp.change, concatKeys_addKeys] at hReply
  exact hReply

/-- Bytes that are nowhere cut off are taken apart or kept together. -/
theorem exists_piecesOf {coder : StandardBeamCoders} (h : splitEncodedValues coder data ≠ .panic) :
    ∃ pieces, piecesOf coder data = some pieces := by
  rw [piecesOf]
  cases hSplit : splitEncodedValues coder data with
  | ok pieces last => exact ⟨pieces, rfl⟩
  | error reason => exact ⟨[data], rfl⟩
  | panic => exact absurd hSplit h

/-- An append to a cell that decodes is answered. -/
theorem exists_answer {coders : UserStateCoders} (hCoders : cell.coders userStates = some coders)
    (hReads : surroundings.readFails = false) (hApplies : surroundings.applyFails = false)
    {entries : List MultimapEntry}
    (hCell : cellEntries (backend.view cell.address.compositeKey) = .ok entries)
    (h : cell.kind = .multimapKeys ∧ splitEncodedValues coders.key data ≠ .panic ∨
      cell.kind = .multimapValues ∧ splitEncodedValues coders.value data ≠ .panic) :
    ∃ after, handleAppend backend surroundings userStates cell data = some (.ok (), after) := by
  have hDone : ∀ op : MultimapOp, op ≠ .clear →
      ((MultimapState.step backend cell.address.compositeKey ⟨op, surroundings, surroundings⟩).map
        (Except.mapError AppendError.multimapFailed) id).1 = .ok () := by
    intro op hClear
    rw [Prod.map_fst, MultimapState.done_of_working hReads hApplies hCell hClear]
    rfl
  rcases h with ⟨hKind, hWhole⟩ | ⟨hKind, hWhole⟩
  · obtain ⟨pieces, hPieces⟩ := exists_piecesOf hWhole
    refine ⟨(MultimapState.step backend cell.address.compositeKey
      ⟨.appendKeys pieces, surroundings, surroundings⟩).2, ?_⟩
    rw [handleAppend, hKind, hCoders]
    dsimp only
    rw [hPieces]
    exact congrArg some (Prod.ext (hDone (.appendKeys pieces) fun hClear => by cases hClear) rfl)
  · obtain ⟨pieces, hPieces⟩ := exists_piecesOf hWhole
    refine ⟨(MultimapState.step backend cell.address.compositeKey
      ⟨.appendValues cell.mapKey pieces, surroundings, surroundings⟩).2, ?_⟩
    rw [handleAppend, hKind, hCoders]
    dsimp only
    rw [hPieces]
    exact congrArg some
      (Prod.ext (hDone (.appendValues cell.mapKey pieces) fun hClear => by cases hClear) rfl)

end UserStateCell

/-! Exactness. -/

/-- There are at most as many pieces as bytes. -/
theorem length_le_flatten {parts : List (List UInt8)} (h : ∀ part ∈ parts, part ≠ []) :
    parts.length ≤ parts.flatten.length := by
  induction parts with
  | nil => exact Nat.le_refl 0
  | cons part parts ih =>
      have hByte := List.length_pos_of_ne_nil (h part List.mem_cons_self)
      have hRest := ih fun other hMem => h other (List.mem_cons_of_mem _ hMem)
      rw [List.length_cons, List.flatten_cons, List.length_append]
      omega

/-- Delimited values are split where they were joined. -/
theorem split_of_delimited {coder : StandardBeamCoders} {values : List BeamRecord}
    {parts : List (List UInt8)} (hOpaque : coder.noJavaOpaque = true)
    (hTyped : ∀ value ∈ values, coder.WellTyped value)
    (hParts : values.mapM coder.encode = some parts) (hSome : ∀ part ∈ parts, part ≠ []) :
    splitEncodedValues coder parts.flatten = .ok parts [] := by
  have hDelimited : List.Forall₂ (fun value part => Delimited coder.decodeNested part value)
      values parts := by
    refine Results.forall₂_imp_mem (fun value hMem part hPart => ?_) (forall₂_parts hParts)
    exact (StandardBeamCoders.encode_segment coder value part hOpaque (hTyped value hMem)
      hPart).delimited
  have hCount := length_le_flatten hSome
  exact splitLoop_of_delimited hDelimited hSome (by omega)

/-- Bytes are taken apart into the encodings they are made of, and an append
that is answered without an error puts them behind what was there. -/
theorem appends_read_back :
    (∀ (coder : StandardBeamCoders) (data : List UInt8),
      (∀ rest, rest ≠ [] → Relation.ReflTransGen coder.Leaves data rest → ¬ coder.CutOff rest) →
      splitEncodedValues coder data ≠ .panic) ∧
    (∀ (coder : StandardBeamCoders) (data : List UInt8) pieces last,
      splitEncodedValues coder data = .ok pieces last →
      (∀ piece ∈ pieces, piece ≠ []) ∧ pieces.flatten = data) ∧
    (∀ (coder : StandardBeamCoders) (values : List BeamRecord) parts,
      (∀ value ∈ values, coder.WellTyped value) → values.mapM coder.encode = some parts → (∀ part ∈ parts, part ≠ []) →
      (coder.noJavaOpaque = true → splitEncodedValues coder parts.flatten = .ok parts []) ∧
      ∀ pieces last, splitEncodedValues coder parts.flatten = .ok pieces last →
        ∃ before after, parts = before ++ after ∧
          pieces = before ++ if after.isEmpty then [] else [after.flatten]) ∧
    (∀ (backend after : StateBackend) surroundings userStates (cell : UserStateCell) data,
      handleAppend backend surroundings userStates cell data = some (.ok (), after) →
      cell.HasRoom backend userStates data →
      (cell.kind = .multimapValues → ∀ first last previous,
        MultimapState.values backend first cell.address.compositeKey cell.mapKey = .ok previous →
        Replies last (MultimapState.values after last cell.address.compositeKey cell.mapKey)
          (.ok (previous ++ data))) ∧
      (cell.kind = .multimapKeys → ∀ first previous,
        MultimapState.keys backend first cell.address.compositeKey = .ok previous →
        ∃ entries coders pieces,
          cellEntries (backend.view cell.address.compositeKey) = .ok entries ∧
          cell.coders userStates = some coders ∧ piecesOf coders.key data = some pieces ∧
          pieces.flatten = data ∧
          ∀ last, Replies last (MultimapState.keys after last cell.address.compositeKey)
            (.ok (previous ++ (freshKeys (entries.map MultimapEntry.key) pieces).flatten)))) ∧
    (∀ (backend : StateBackend) surroundings userStates (cell : UserStateCell) coders data entries,
      cell.coders userStates = some coders →
      cellEntries (backend.view cell.address.compositeKey) = .ok entries →
      surroundings.readFails = false → surroundings.applyFails = false →
      (cell.kind = .multimapKeys ∧ splitEncodedValues coders.key data ≠ .panic ∨
        cell.kind = .multimapValues ∧ splitEncodedValues coders.value data ≠ .panic) →
      ∃ after, handleAppend backend surroundings userStates cell data = some (.ok (), after)) := by
  refine ⟨?_, ?_, ?_, ?_, ?_⟩
  · intro coder data hWhole hPanic
    obtain ⟨rest, hRest, hReach, hCut⟩ := cutOff_of_splitLoop (Nat.lt_succ_self data.length) hPanic
    exact hWhole rest hRest hReach hCut
  · intro coder data pieces last hPieces
    exact (flatten_splitLoop hPieces).2
  · intro coder values parts hTyped hParts hSome
    refine ⟨fun hOpaque => split_of_delimited hOpaque hTyped hParts hSome, ?_⟩
    intro pieces last hPieces
    refine splitLoop_encodings (Results.forall₂_imp_mem (fun value hMem part hPart => ?_)
      (forall₂_parts hParts)) hSome hPieces
    exact ⟨hTyped value hMem, hPart⟩
  · intro backend after surroundings userStates cell data hDone hRoom
    constructor
    · intro hKind first last previous hPrevious
      exact UserStateCell.values_read_back hKind hDone hRoom hPrevious last
    · intro hKind first previous hPrevious
      exact UserStateCell.keys_read_back hKind hDone hRoom hPrevious
  · intro backend surroundings userStates cell coders data entries hCoders hCell hReads hApplies h
    exact UserStateCell.exists_answer hCoders hReads hApplies hCell h

/-- Two bools. -/
theorem appends_read_back_bools :
    splitEncodedValues .bool [[1], [0]].flatten = .ok [[1], [0]] [] :=
  (appends_read_back.2.2.1 .bool [.primitive (.bool true), .primitive (.bool false)] [[1], [0]]
    (by simp [StandardBeamCoders.WellTyped, StandardBeamCoders.WellTypedPrimitive]) rfl
    (by simp)).1 rfl

/-- The keys of a map state whose keys are bools. -/
def boolKeys : UserStateCell where
  kind := .multimapKeys
  address := ⟨"transform", "map", [], []⟩
  mapKey := []

def boolMap : UserStateRegistry :=
  AList.singleton ("transform", "map") ⟨.bool, .bool⟩

/-- The values of one more key. -/
def oneMore : UserStateCell where
  kind := .multimapValues
  address := ⟨"transform", "map", [], []⟩
  mapKey := [1]

/-- A store with as many keys in the map as a four-byte count can hold. -/
def fullBackend (keys : List (List UInt8)) : StateBackend :=
  .withStore ((∅ : KvStore).insert oneMore.address.compositeKey
    (encodeEntries (entriesFrom keys fun _ => [])))

section Full

variable {keys : List (List UInt8)}

theorem cellEntries_fullBackend (hCount : keys.length < 2 ^ 32) (hLength : ∀ key ∈ keys, key.length = 4) :
    cellEntries ((fullBackend keys).view oneMore.address.compositeKey) =
      .ok (entriesFrom keys fun _ => []) := by
  have hView : (fullBackend keys).view oneMore.address.compositeKey =
      some (encodeEntries (entriesFrom keys fun _ => [])) := by
    rw [fullBackend, (StateBackend.serves_withStore _).view]
    exact AList.lookup_insert _
  rw [hView]
  refine decodeEntries_of_prefixed (by rwa [entriesFrom, List.length_map]) fun entry hMem => ?_
  obtain ⟨key, hKey, rfl⟩ := List.mem_map.mp hMem
  have hFour := hLength key hKey
  exact ⟨by dsimp only; omega, Nat.two_pow_pos 32, fun value hValue => absurd hValue List.not_mem_nil⟩

theorem addValues_longKeys (hLength : ∀ key ∈ keys, key.length = 4) (values : List (List UInt8)) :
    addValues [1] values (entriesFrom keys fun _ => []) =
      (entriesFrom keys fun _ => []) ++ [⟨[1], values⟩] := by
  have hFresh : ((entriesFrom keys fun _ => []).findIdx? fun entry => entry.key == [1]) = none := by
    refine List.findIdx?_eq_none_iff.mpr fun entry hMem => ?_
    obtain ⟨key, hKey, rfl⟩ := List.mem_map.mp hMem
    refine beq_false_of_ne fun hSame => ?_
    have hFour := hLength key hKey
    rw [show key = [1] from hSame] at hFour
    cases hFour
  rw [addValues, hFresh]

end Full

theorem exists_countedKeys (count : Nat) : ∃ keys : List (List UInt8), keys.length = count ∧
    ∀ key ∈ keys, key.length = 4 :=
  ⟨keysBelow count, length_keysBelow count, fun _ hKey => length_of_mem_keysBelow hKey⟩

/-- Opaque values in a row are one piece, a key that is already there is not
appended again, and a cell with as many keys as can be counted takes no more. -/
theorem not_appends_read_back :
    (¬ ∀ (coder : StandardBeamCoders) (values : List BeamRecord) parts,
      (∀ value ∈ values, coder.WellTyped value) → values.mapM coder.encode = some parts →
      (∀ part ∈ parts, part ≠ []) → splitEncodedValues coder parts.flatten = .ok parts []) ∧
    (¬ ∀ (backend after : StateBackend) userStates (cell : UserStateCell) data previous,
      cell.kind = .multimapKeys →
      handleAppend backend .calm userStates cell data = some (.ok (), after) →
      MultimapState.keys backend .calm cell.address.compositeKey = .ok previous →
      MultimapState.keys after .calm cell.address.compositeKey = .ok (previous ++ data)) ∧
    ¬ ∀ (backend after : StateBackend) userStates (cell : UserStateCell) data previous,
      cell.kind = .multimapValues →
      handleAppend backend .calm userStates cell data = some (.ok (), after) →
      MultimapState.values backend .calm cell.address.compositeKey cell.mapKey = .ok previous →
      MultimapState.values after .calm cell.address.compositeKey cell.mapKey =
        .ok (previous ++ data) := by
  refine ⟨?_, ?_, ?_⟩
  · intro h
    have hPieces := h .javaOpaque [.primitive (.bytes [1]), .primitive (.bytes [2])] [[1], [2]]
      (by simp [StandardBeamCoders.WellTyped, StandardBeamCoders.WellTypedPrimitive]) rfl (by simp)
    cases hPieces
  · intro h
    have hKeys := h (.withStore ∅) _ (some boolMap) boolKeys [1, 1] [] rfl rfl rfl
    revert hKeys
    decide
  · intro h
    obtain ⟨keys, hCount, hLength⟩ := exists_countedKeys (2 ^ 32 - 1)
    have hCell := cellEntries_fullBackend (by omega) hLength
    have hCoders : oneMore.coders (some boolMap) = some ⟨.bool, .bool⟩ := rfl
    have hWhole : splitEncodedValues .bool [1] ≠ .panic := by decide
    obtain ⟨after, hDone⟩ := UserStateCell.exists_answer hCoders
      (show Surroundings.calm.readFails = false from rfl) rfl hCell (.inr ⟨rfl, hWhole⟩)
    have hBefore : MultimapState.values (fullBackend keys) .calm oneMore.address.compositeKey [1] =
        .ok (concatValues [1] (entriesFrom keys fun _ => [])) := by
      rcases MultimapState.read_cases (fullBackend keys) .calm oneMore.address.compositeKey with
        hRead | ⟨hFails, -⟩
      · rw [MultimapState.values, hRead, hCell]
        rfl
      · cases hFails
    have hAfter := h (fullBackend keys) after (some boolMap) oneMore [1] _ rfl hDone hBefore
    obtain ⟨coders, pieces, -, -, hStep, rfl⟩ := UserStateCell.values_of_handleAppend rfl hDone
    have hWritten := MultimapState.view_of_done hStep hCell fun hClear => by cases hClear
    have hEntries : MultimapOp.change (.appendValues oneMore.mapKey pieces)
        (entriesFrom keys fun _ => []) = (entriesFrom keys fun _ => []) ++ [⟨[1], pieces⟩] :=
      addValues_longKeys hLength pieces
    have hWrapped : ((entriesFrom keys fun _ => []) ++ [MultimapEntry.mk [1] pieces]).length =
        2 ^ 32 := by
      rw [List.length_append, entriesFrom, List.length_map, List.length_singleton]
      omega
    obtain ⟨entries, hFound, -⟩ := MultimapState.cell_of_view hAfter
    rw [hWritten, hEntries, cellEntries, decodeEntries_wrapped hWrapped] at hFound
    cases hFound

end FlareDB
