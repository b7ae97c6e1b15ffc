import FlareDB.Coders.RoundTrip
import FlareDB.Engine.State

/-! Bag state: appended chunks under the composite key of a cell. Bags at
different addresses are different cells, so what a bag holds is decided by the
operations on it alone. -/
namespace FlareDB

open KeyedStore

structure UserStateAddress where
  transformId : String
  userStateId : String
  window : List UInt8
  key : List UInt8
deriving DecidableEq, Repr

namespace UserStateAddress

def compositeKey (address : UserStateAddress) : StateKey :=
  buildStateKey address.transformId address.userStateId address.window address.key

def components (address : UserStateAddress) : List (List UInt8) :=
  [utf8Bytes address.transformId, utf8Bytes address.userStateId, address.window, address.key]

/-- The length of every component fits its prefix. -/
def Fits (address : UserStateAddress) : Prop :=
  ∀ part ∈ address.components, part.length < 2 ^ 32

instance (address : UserStateAddress) : Decidable address.Fits :=
  inferInstanceAs (Decidable (∀ part ∈ address.components, part.length < 2 ^ 32))

end UserStateAddress

theorem stateKeyPart_append_inj {part other rest more : List UInt8} (hPart : part.length < 2 ^ 32)
    (hOther : other.length < 2 ^ 32)
    (h : stateKeyPart part ++ rest = stateKeyPart other ++ more) : part = other ∧ rest = more := by
  rw [stateKeyPart, stateKeyPart, Nat.mod_eq_of_lt hPart, Nat.mod_eq_of_lt hOther] at h
  rw [List.append_assoc, List.append_assoc] at h
  obtain ⟨hLength, hBody⟩ := List.append_inj h (by simp)
  have hSame : part.length = other.length := BigEndian.toBytes_injective hPart hOther hLength
  exact List.append_inj hBody hSame

/-- Concatenated parts determine the parts, when there are equally many. -/
theorem flatMap_stateKeyPart_injective {parts others : List (List UInt8)}
    (hCount : parts.length = others.length) (hParts : ∀ part ∈ parts, part.length < 2 ^ 32)
    (hOthers : ∀ part ∈ others, part.length < 2 ^ 32)
    (h : parts.flatMap stateKeyPart = others.flatMap stateKeyPart) : parts = others := by
  induction parts generalizing others with
  | nil => exact (List.length_eq_zero_iff.mp hCount.symm).symm
  | cons part parts ih =>
      cases others with
      | nil => cases hCount
      | cons other others =>
          rw [List.flatMap_cons, List.flatMap_cons] at h
          obtain ⟨rfl, hRest⟩ := stateKeyPart_append_inj (hParts part (by simp))
            (hOthers other (by simp)) h
          have hTail := ih (Nat.succ.inj hCount) (fun part hMem => hParts part (by simp [hMem]))
            (fun part hMem => hOthers part (by simp [hMem])) hRest
          rw [hTail]

theorem UserStateAddress.compositeKey_injective {address other : UserStateAddress}
    (hFits : address.Fits) (hOther : other.Fits)
    (h : address.compositeKey = other.compositeKey) : address = other := by
  have hParts : address.components = other.components :=
    flatMap_stateKeyPart_injective rfl hFits hOther h
  obtain ⟨transformId, userStateId, window, key⟩ := address
  simp only [components, List.cons.injEq, and_true] at hParts
  obtain ⟨hTransform, hState, rfl, rfl⟩ := hParts
  rw [utf8Bytes_injective hTransform, utf8Bytes_injective hState]

/-! The bag operations. -/

inductive BagOp where
  | get (address : UserStateAddress)
  | append (address : UserStateAddress) (value : StateValue)
  | clear (address : UserStateAddress)
deriving DecidableEq, Repr

namespace BagOp

def address : BagOp → UserStateAddress
  | .get address => address
  | .append address _ => address
  | .clear address => address

/-- The operation on the backend that serves a bag operation. -/
def stateOp : BagOp → StateOp
  | .get address => .get address.compositeKey
  | .append address value => .readModifyWrite address.compositeKey fun current => current ++ value
  | .clear address => .delete address.compositeKey

/-- What an operation on a bag makes of its contents. -/
def contents (before : StateValue) : BagOp → StateReply → StateValue
  | .get _, _ => before
  | .append _ _, .failed .readFailed => before
  | .append _ value, _ => before ++ value
  | .clear _, _ => []

end BagOp

/-- Read a bag; a bag that was never written is empty. -/
def BagState.get (backend : StateBackend) (surroundings : Surroundings)
    (address : UserStateAddress) : Except StateError StateValue × StateBackend :=
  (backend.get surroundings address.compositeKey).map (Except.map fun value => value.getD []) id

/-- The replies to a run of bag operations, and the backend after it. -/
def BagState.play (backend : StateBackend) :
    List (BagOp × Surroundings) → List (BagOp × StateReply) × StateBackend
  | [] => ([], backend)
  | action :: actions =>
      let (reply, after) := backend.step action.2 action.1.stateOp
      let (events, last) := BagState.play after actions
      ((action.1, reply) :: events, last)

/-- What the events on one bag make of its contents. -/
def bagContents (address : UserStateAddress) (before : StateValue)
    (events : List (BagOp × StateReply)) : StateValue :=
  (events.filter fun event => event.1.address = address).foldl
    (fun contents event => event.1.contents contents event.2) before

/-- An operation changes the bag it is on and no other. -/
theorem PlainMap.step_bag (plain : PlainMap) {op : BagOp} (hOp : op.address.Fits)
    (reply : StateReply) {address : UserStateAddress} (hFits : address.Fits) :
    (plain.step op.stateOp reply address.compositeKey).getD [] =
      bagContents address ((plain address.compositeKey).getD []) [(op, reply)] := by
  by_cases hAddress : op.address = address
  · rw [bagContents, List.filter_cons_of_pos (by simpa using hAddress)]
    subst hAddress
    cases op with
    | get address => rfl
    | append address value =>
        cases reply with
        | found _ => simp [BagOp.stateOp, BagOp.contents, PlainMap.step, BagOp.address]
        | done => simp [BagOp.stateOp, BagOp.contents, PlainMap.step, BagOp.address]
        | failed reason =>
            cases reason <;>
              simp [BagOp.stateOp, BagOp.contents, PlainMap.step, BagOp.address]
    | clear address => simp [BagOp.stateOp, BagOp.contents, PlainMap.step, BagOp.address]
  · rw [bagContents, List.filter_cons_of_neg (by simpa using hAddress)]
    have hKey : address.compositeKey ≠ op.address.compositeKey := fun hSame =>
      hAddress (UserStateAddress.compositeKey_injective hOp hFits hSame.symm)
    cases op with
    | get address => rfl
    | append other value =>
        have hOther : address.compositeKey ≠ other.compositeKey := hKey
        cases reply with
        | found _ => simp [BagOp.stateOp, PlainMap.step, hOther]
        | done => simp [BagOp.stateOp, PlainMap.step, hOther]
        | failed reason => cases reason <;> simp [BagOp.stateOp, PlainMap.step, hOther]
    | clear other =>
        have hOther : address.compositeKey ≠ other.compositeKey := hKey
        simp [BagOp.stateOp, PlainMap.step, hOther]

theorem bagContents_append (address : UserStateAddress) (before : StateValue)
    (events more : List (BagOp × StateReply)) :
    bagContents address before (events ++ more) =
      bagContents address (bagContents address before events) more := by
  simp [bagContents]

/-- After a run every bag holds what the events on it make of it. -/
theorem BagState.play_serves {backend : StateBackend} {plain : PlainMap}
    (h : backend.Serves plain) {actions : List (BagOp × Surroundings)}
    (hActions : ∀ action ∈ actions, action.1.address.Fits) :
    ∃ after : PlainMap, (BagState.play backend actions).2.Serves after ∧
      ∀ address : UserStateAddress, address.Fits → (after address.compositeKey).getD [] =
        bagContents address ((plain address.compositeKey).getD [])
          (BagState.play backend actions).1 := by
  induction actions generalizing backend plain with
  | nil => exact ⟨plain, h, fun _ _ => rfl⟩
  | cons action actions ih =>
      have hStep := h.step action.2 action.1.stateOp
      obtain ⟨after, hServes, hContents⟩ := ih hStep fun other hMem => hActions other (by simp [hMem])
      refine ⟨after, hServes, fun address hFits => ?_⟩
      rw [hContents address hFits, PlainMap.step_bag plain (hActions action (by simp)) _ hFits]
      rw [← bagContents_append]
      rfl

theorem BagState.get_serves {backend : StateBackend} {plain : PlainMap} (h : backend.Serves plain)
    {surroundings : Surroundings} {address : UserStateAddress} {contents : StateValue}
    (hGet : (BagState.get backend surroundings address).1 = .ok contents) :
    contents = (plain address.compositeKey).getD [] := by
  have hReply : (backend.getLocked surroundings address.compositeKey).1.map
      (fun value => value.getD []) = .ok contents := hGet
  rcases h.getLocked surroundings address.compositeKey with ⟨hFound, -⟩ | ⟨hFailed, -⟩
  · rw [hFound] at hReply
    exact (Except.ok.inj hReply).symm
  · rw [hFailed] at hReply
    cases hReply

/-- User state refines a plain map: in every state that operations, store
failures and evictions lead to, dirty cells are cached, other cached cells are
the store's, a read that succeeds returns the plain map's cell, a flush that
succeeds makes the store the plain map, an operation fails only where the store
does (a read only where its read does, a flush only where its batch does), and
from there on each bag holds what the operations on it alone make of it. -/
theorem StateBackend.refines_plainMap (store : KvStore)
    (actions : List (StateOp × Surroundings)) :
    (∀ key ∈ ((StateRun.start store).play actions).backend.cache.dirty,
      key ∈ ((StateRun.start store).play actions).backend.cache.values) ∧
    (∀ key value, ((StateRun.start store).play actions).backend.cache.values.lookup key =
      some value → key ∉ ((StateRun.start store).play actions).backend.cache.dirty →
        value = ((StateRun.start store).play actions).backend.store.lookup key) ∧
    (∀ surroundings key value,
      (((StateRun.start store).play actions).backend.step surroundings (.get key)).1 =
        .found value → value = ((StateRun.start store).play actions).plain key) ∧
    (∀ surroundings,
      (((StateRun.start store).play actions).backend.step surroundings .flush).1 = .done →
        ∀ key, (((StateRun.start store).play actions).backend.step surroundings
          .flush).2.store.lookup key = ((StateRun.start store).play actions).plain key) ∧
    (∀ surroundings op reason,
      (((StateRun.start store).play actions).backend.step surroundings op).1 = .failed reason →
        (surroundings.readFails = true ∨ surroundings.applyFails = true) ∧
          (∀ key, op = .get key → surroundings.readFails = true) ∧
          (op = .flush → surroundings.applyFails = true)) ∧
    (∀ (bagActions : List (BagOp × Surroundings)) (address : UserStateAddress) surroundings contents,
      (∀ action ∈ bagActions, action.1.address.Fits) → address.Fits →
        (BagState.get (BagState.play ((StateRun.start store).play actions).backend bagActions).2
          surroundings address).1 = .ok contents →
        contents = bagContents address
          ((((StateRun.start store).play actions).plain address.compositeKey).getD [])
          (BagState.play ((StateRun.start store).play actions).backend bagActions).1) := by
  have hStart : (StateRun.start store).backend.Serves (StateRun.start store).plain :=
    StateBackend.serves_withStore store
  have h := StateRun.serves_play hStart actions
  refine ⟨h.coherent.held, h.coherent.clean, ?_, ?_, ?_, ?_⟩
  · intro surroundings key value hFound
    exact h.found hFound
  · intro surroundings hDone key
    exact h.flushed hDone key
  · intro surroundings op reason hFailed
    refine ⟨StateBackend.step_failed hFailed, ?_, ?_⟩
    · rintro key rfl
      exact StateBackend.step_get_failed hFailed
    · rintro rfl
      exact StateBackend.step_flush_failed hFailed
  · intro bagActions address surroundings contents hActions hFits hGet
    obtain ⟨after, hServes, hContents⟩ := BagState.play_serves h hActions
    rw [BagState.get_serves hServes hGet, hContents address hFits]

end FlareDB
