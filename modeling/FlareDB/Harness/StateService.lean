import FlareDB.Engine.SideInputResolver
import FlareDB.Lib.Runs

/-! The state request driver. One task takes the worker's state requests in turn
and answers each of them from user state or from a side input. -/
namespace FlareDB

open KeyedStore

/-! The handler. -/

/-- The answer to a read of a side input; `none` where it does not come back. -/
def sideInputAnswer (kind : String) : Option (SideInputResult (List UInt8)) → Option StateAnswer
  | none => none
  | some (.error .panic) => none
  | some (.error (.error message)) => some (.error (.sideInput kind message))
  | some (.ok data) => some (.ok (.get [] data))

/-- Answer a request for a side input of some kind, of which `read` is the read. -/
def handleSideInputRequest (kind : String) (resolver : SideInputResolver)
    (read : Option (SideInputResult (List UInt8)) × SideInputResolver) :
    Option StateRequestBody → Option StateAnswer × SideInputResolver
  | some (.get continuationToken) =>
      if continuationToken ≠ [] then (some (.error noContinuation), resolver)
      else (sideInputAnswer kind read.1, read.2)
  | some (.append _) =>
      (some (.error (.refused ("append is not supported for " ++ kind ++ " side inputs"))), resolver)
  | some .clear =>
      (some (.error (.refused ("clear is not supported for " ++ kind ++ " side inputs"))), resolver)
  | none => (some (.error noRequestBody), resolver)

/-- What a request meets: the state store, the tables, and the rounds that the
loops over a multimap may take. -/
structure RequestConditions where
  surroundings : Surroundings
  scan : TableScan
  fuel : Nat

structure StateDriver where
  backend : StateBackend
  userStates : UserStateRegistry
  sideInputs : SideInputResolver

namespace StateDriver

def handleIterableSideInputRequest (resolver : SideInputResolver) (meets : RequestConditions)
    (key : SideInputKey) (window : List UInt8) (body : Option StateRequestBody) :
    Option StateAnswer × SideInputResolver :=
  handleSideInputRequest "iterable" resolver
    ((resolver.readIterable meets.scan key window).map some id) body

def handleMultimapSideInputRequest (resolver : SideInputResolver) (meets : RequestConditions)
    (key : SideInputKey) (window : List UInt8) (kind : MultimapReadKind)
    (body : Option StateRequestBody) : Option StateAnswer × SideInputResolver :=
  handleSideInputRequest "multimap" resolver
    (resolver.readMultimap meets.scan key window kind meets.fuel) body

def answerFor (driver : StateDriver) (meets : RequestConditions)
    (body : Option StateRequestBody) : StateTarget → Option StateAnswer × StateDriver
  | .userState cell =>
      let (answer, backend) := handleUserStateRequest driver.backend meets.surroundings
        (some driver.userStates) cell body
      (answer, { driver with backend := backend })
  | .iterableSideInput key window =>
      let (answer, sideInputs) :=
        handleIterableSideInputRequest driver.sideInputs meets key window body
      (answer, { driver with sideInputs := sideInputs })
  | .multimapSideInput key window kind =>
      let (answer, sideInputs) :=
        handleMultimapSideInputRequest driver.sideInputs meets key window kind body
      (answer, { driver with sideInputs := sideInputs })

/-- Answer a request; `none` where the task unwinds or does not come back. -/
def handleStateRequest (driver : StateDriver) (meets : RequestConditions) (request : StateRequest) :
    Option StateAnswer × StateDriver :=
  match request.stateKey with
  | none => (some (.error (.refused "state request has no state key")), driver)
  | some stateKey => match stateTarget stateKey with
      | .error message => (some (.error (.refused message)), driver)
      | .ok target => driver.answerFor meets request.request target

end StateDriver

/-! Runs. -/

inductive DriverPhase where
  | driving
  /-- The loop has ended, and the last flush has succeeded or not. -/
  | stopped (flushed : Bool)
  /-- The task was aborted, has unwound, or does not come back. -/
  | gone
deriving DecidableEq, Repr

/-- A request that was taken, what it met, and its answer. -/
structure StateEvent where
  request : StateRequest
  meets : RequestConditions
  answer : StateAnswer

def StateEvent.response (event : StateEvent) : StateResponse where
  id := event.request.id
  answer := event.answer

/-- What becomes of a response. -/
inductive Delivery where
  | sent
  | failed (flushing : Surroundings)
  /-- The task is aborted before the response is out. -/
  | aborted

inductive StateServiceAction where
  | serve (request : StateRequest) (meets : RequestConditions) (delivery : Delivery)
  | streamEnds (flushing : Surroundings)
  | reset

/-- The driver with the requests it has answered and the responses it has sent. -/
structure StateServiceRun where
  driver : StateDriver
  phase : DriverPhase
  events : List StateEvent
  sent : List StateResponse

namespace StateServiceRun

def start (store : KvStore) (userStates : UserStateRegistry) (registry : SideInputRegistry) :
    StateServiceRun where
  driver := ⟨.withStore store, userStates, ⟨registry, ∅⟩⟩
  phase := .driving
  events := []
  sent := []

/-- The loop has ended: commit the write-back cache. -/
def flushOnExit (run : StateServiceRun) (flushing : Surroundings) : StateServiceRun :=
  let (flushed, backend) := run.driver.backend.flush flushing
  { run with driver := { run.driver with backend := backend }, phase := .stopped flushed.isOk }

def answered (run : StateServiceRun) (driver : StateDriver) (event : StateEvent) :
    Delivery → StateServiceRun
  | .sent =>
      { run with driver, events := run.events ++ [event], sent := run.sent ++ [event.response] }
  | .failed flushing =>
      flushOnExit { run with driver, events := run.events ++ [event] } flushing
  | .aborted => { run with driver, events := run.events ++ [event], phase := .gone }

def act (run : StateServiceRun) : StateServiceAction → StateServiceRun
  | .serve request meets delivery => match run.driver.handleStateRequest meets request with
      | (none, _) => { run with phase := .gone }
      | (some answer, driver) => run.answered driver ⟨request, meets, answer⟩ delivery
  | .streamEnds flushing => run.flushOnExit flushing
  | .reset => { run with phase := .gone }

def step (run : StateServiceRun) (action : StateServiceAction) : Option StateServiceRun :=
  if run.phase = .driving then some (run.act action) else none

end StateServiceRun

/-- A read that is answered was asked for, and is answered with what it read. -/
theorem handleSideInputRequest_ok {kind : String} {resolver : SideInputResolver}
    {read : Option (SideInputResult (List UInt8)) × SideInputResolver}
    {body : Option StateRequestBody} {reply : StateResponseBody}
    (h : (handleSideInputRequest kind resolver read body).1 = some (.ok reply)) :
    ∃ data, reply = .get [] data ∧ read.1 = some (.ok data) ∧
      (handleSideInputRequest kind resolver read body).2 = read.2 := by
  rcases body with _ | (token | data | _)
  · cases h
  · rw [handleSideInputRequest] at h ⊢
    split at h
    · cases h
    next hToken =>
      rw [if_neg hToken]
      rcases hRead : read.1 with _ | (_ | _) | data
      · rw [hRead] at h
        cases h
      · rw [hRead] at h
        cases h
      · rw [hRead] at h
        cases h
      · rw [hRead] at h
        cases h
        exact ⟨data, rfl, rfl, rfl⟩
  · cases h
  · cases h

/-- The handler leaves the resolver alone, or leaves it as the read does. -/
theorem handleSideInputRequest_resolver (kind : String) (resolver : SideInputResolver)
    (read : Option (SideInputResult (List UInt8)) × SideInputResolver)
    (body : Option StateRequestBody) :
    (handleSideInputRequest kind resolver read body).2 = resolver ∨
      (handleSideInputRequest kind resolver read body).2 = read.2 := by
  rcases body with _ | (token | data | _)
  · exact .inl rfl
  · rw [handleSideInputRequest]
    split
    · exact .inl rfl
    · exact .inr rfl
  · exact .inl rfl
  · exact .inl rfl

/-! What a request does. -/

def StateRequest.target (request : StateRequest) : Option StateTarget :=
  request.stateKey.bind fun stateKey => (stateTarget stateKey).toOption

/-- The side input that a request is for. -/
def StateRequest.sideInput (request : StateRequest) : Option SideInputKey :=
  request.target.bind StateTarget.sideInput

/-- What an answered request makes of a cell. -/
def StateEvent.cellAfter (userStates : UserStateRegistry) (event : StateEvent) (key : StateKey)
    (before : Option StateValue) : Option StateValue :=
  match event.request.target with
  | some (.userState cell) =>
      if cell.address.compositeKey = key then
        FlareDB.cellAfter (cell.asks (some userStates) event.request.request) (some event.answer)
          before
      else before
  | _ => before

namespace StateDriver

variable {driver : StateDriver} {meets : RequestConditions} {request : StateRequest}

/-- Without a target a request is refused. -/
theorem handleStateRequest_refused (driver : StateDriver) (meets : RequestConditions)
    (hTarget : request.target = none) :
    ∃ message, driver.handleStateRequest meets request =
      (some (.error (.refused message)), driver) := by
  rw [handleStateRequest]
  rw [StateRequest.target] at hTarget
  cases hKey : request.stateKey with
  | none => exact ⟨_, rfl⟩
  | some stateKey =>
      rw [hKey] at hTarget
      cases hFound : stateTarget stateKey with
      | error message =>
          dsimp only
          rw [hFound]
          exact ⟨message, rfl⟩
      | ok target =>
          rw [Option.bind_some, hFound] at hTarget
          cases hTarget

theorem handleStateRequest_target (driver : StateDriver) (meets : RequestConditions)
    {target : StateTarget} (hTarget : request.target = some target) :
    driver.handleStateRequest meets request = driver.answerFor meets request.request target := by
  rw [handleStateRequest]
  rw [StateRequest.target] at hTarget
  cases hKey : request.stateKey with
  | none =>
      rw [hKey] at hTarget
      cases hTarget
  | some stateKey =>
      rw [hKey] at hTarget
      cases hFound : stateTarget stateKey with
      | error message =>
          rw [Option.bind_some, hFound] at hTarget
          cases hTarget
      | ok found =>
          rw [Option.bind_some, hFound] at hTarget
          cases hTarget
          dsimp only
          rw [hFound]

/-- What an answered request leaves: the cell it is for is as the answer says, all
others as they were, and at most one side input was read for the first time. -/
structure Handles (driver : StateDriver) (event : StateEvent) (after : StateDriver) : Prop where
  userStates : after.userStates = driver.userStates
  serves : ∀ plain : PlainMap, driver.backend.Serves plain →
    after.backend.Serves fun key => event.cellAfter driver.userStates key (plain key)
  durable : ∀ plain : PlainMap, driver.backend.Serves plain →
    StateBackend.Durable driver.backend after.backend
  grows : driver.sideInputs.Grows event.meets.scan event.request.sideInput after.sideInputs
  gives : ∀ target, event.request.target = some target → target.sideInput.isSome = true →
    ∀ reply, event.answer = .ok reply →
      ∃ data, reply = .get [] data ∧ after.sideInputs.Gives event.meets.fuel data target
  reads : ∀ plain : PlainMap, driver.backend.Serves plain → ∀ cell,
    event.request.target = some (.userState cell) → event.request.request = some (.get []) →
      event.answer = ((cell.contents (plain cell.address.compositeKey)).mapError
        (.userState "get")).map (.get []) ∨
      event.meets.surroundings.readFails = true ∧
        event.answer = .error (.userState "get" (.state .readFailed))

/-- A request for a side input. -/
theorem handles_sideInput {target : StateTarget} (hTarget : request.target = some target)
    {key : SideInputKey} (hKey : target.sideInput = some key) {answer : StateAnswer}
    {sideInputs : SideInputResolver}
    (hGrows : driver.sideInputs.Grows meets.scan (some key) sideInputs)
    (hGives : ∀ reply, answer = .ok reply →
      ∃ data, reply = .get [] data ∧ sideInputs.Gives meets.fuel data target) :
    driver.Handles ⟨request, meets, answer⟩ { driver with sideInputs := sideInputs } where
  userStates := rfl
  serves plain hServes := by
    have hSame : (fun key => StateEvent.cellAfter driver.userStates ⟨request, meets, answer⟩ key
        (plain key)) = plain := by
      funext other
      rw [StateEvent.cellAfter, hTarget]
      cases target with
      | userState cell => cases hKey
      | iterableSideInput key bytes | multimapSideInput key bytes kind => rfl
    rw [hSame]
    exact hServes
  durable _ _ := .inl rfl
  grows := by
    rw [StateRequest.sideInput, hTarget, Option.bind_some, hKey]
    exact hGrows
  gives found hFound _ reply hReply := by
    cases hTarget.symm.trans hFound
    exact hGives reply hReply
  reads plain _ cell hCell _ := by
    cases hTarget.symm.trans hCell
    cases hKey

/-- A read of a side input is answered from its scan. -/
theorem handles_read {target : StateTarget} (hTarget : request.target = some target)
    {key : SideInputKey} (hKey : target.sideInput = some key) {kind : String}
    {read : Option (SideInputResult (List UInt8)) × SideInputResolver} {answer : StateAnswer}
    {sideInputs : SideInputResolver}
    (h : handleSideInputRequest kind driver.sideInputs read request.request =
      (some answer, sideInputs))
    (hGrows : driver.sideInputs.Grows meets.scan (some key) read.2)
    (hGives : ∀ data, read.1 = some (.ok data) → read.2.Gives meets.fuel data target) :
    driver.Handles ⟨request, meets, answer⟩ { driver with sideInputs := sideInputs } := by
  refine handles_sideInput hTarget hKey ?_ fun reply hReply => ?_
  · have hLeft := handleSideInputRequest_resolver kind driver.sideInputs read request.request
    rw [h] at hLeft
    rcases hLeft with hSame | hRead
    · obtain rfl : sideInputs = driver.sideInputs := hSame
      exact .refl _ _ _
    · obtain rfl : sideInputs = read.2 := hRead
      exact hGrows
  · subst hReply
    obtain ⟨data, hData, hRead, hAfter⟩ := handleSideInputRequest_ok (congrArg Prod.fst h)
    rw [h] at hAfter
    obtain rfl : sideInputs = read.2 := hAfter
    exact ⟨data, hData, hGives data hRead⟩

/-- A request that leaves the driver alone. -/
theorem handles_refused (driver : StateDriver) (meets : RequestConditions)
    (hTarget : request.target = none) (message : String) :
    driver.Handles ⟨request, meets, .error (.refused message)⟩ driver where
  userStates := rfl
  serves plain hServes := by
    simp only [StateEvent.cellAfter, hTarget]
    exact hServes
  durable _ _ := .inl rfl
  grows := .refl _ _ _
  gives _ hFound _ := by
    cases hTarget.symm.trans hFound
  reads _ _ _ hCell _ := by
    cases hTarget.symm.trans hCell

/-- A request for user state is answered by its cell. -/
theorem handles_userState {cell : UserStateCell} (hTarget : request.target = some (.userState cell))
    {answer : StateAnswer} {backend : StateBackend}
    (h : handleUserStateRequest driver.backend meets.surroundings (some driver.userStates) cell
      request.request = (some answer, backend)) :
    driver.Handles ⟨request, meets, answer⟩ { driver with backend := backend } where
  userStates := rfl
  serves plain hServes := by
    have hSpec := (handleUserStateRequest_serves hServes meets.surroundings
      (some driver.userStates) cell request.request).1
    rw [h] at hSpec
    have hSame : (fun key => StateEvent.cellAfter driver.userStates ⟨request, meets, answer⟩ key
        (plain key)) = Function.update plain cell.address.compositeKey
          (cellAfter (cell.asks (some driver.userStates) request.request) (some answer)
            (plain cell.address.compositeKey)) := by
      funext other
      rw [StateEvent.cellAfter, hTarget]
      dsimp only
      by_cases hOther : cell.address.compositeKey = other
      · subst hOther
        rw [if_pos rfl, Function.update_self]
      · rw [if_neg hOther, Function.update_of_ne (Ne.symm hOther)]
    rw [hSame]
    exact hSpec
  durable plain hServes := by
    have hSpec := (handleUserStateRequest_serves hServes meets.surroundings
      (some driver.userStates) cell request.request).2
    rw [h] at hSpec
    exact hSpec
  grows := .refl _ _ _
  gives found hFound hSome := by
    cases hTarget.symm.trans hFound
    cases hSome
  reads plain hServes found hFound hGet := by
    cases hTarget.symm.trans hFound
    have hSpec := handleUserStateRequest_get hServes meets.surroundings (some driver.userStates) cell
    have hBody : request.request = some (.get []) := hGet
    rw [hBody] at h
    rw [h] at hSpec
    exact hSpec.imp Option.some.inj fun hFailed => ⟨hFailed.1, Option.some.inj hFailed.2⟩

/-- Every answered request is handled by what it asks for. -/
theorem handles_of_answered {answer : StateAnswer} {after : StateDriver}
    (h : driver.handleStateRequest meets request = (some answer, after)) :
    driver.Handles ⟨request, meets, answer⟩ after := by
  cases hTarget : request.target with
  | none =>
      obtain ⟨message, hRefused⟩ := driver.handleStateRequest_refused meets hTarget
      cases h.symm.trans hRefused
      exact driver.handles_refused meets hTarget message
  | some target =>
      rw [driver.handleStateRequest_target meets hTarget] at h
      cases target with
      | userState cell =>
          rcases hUser : handleUserStateRequest driver.backend meets.surroundings
            (some driver.userStates) cell request.request with ⟨found, backend⟩
          rw [answerFor, hUser] at h
          cases h
          exact handles_userState hTarget hUser
      | iterableSideInput key bytes =>
          obtain ⟨hGrows, hGives⟩ :=
            driver.sideInputs.readIterable_spec meets.scan key bytes meets.fuel
          rcases hHandled : handleIterableSideInputRequest driver.sideInputs meets key bytes
            request.request with ⟨found, sideInputs⟩
          rw [answerFor, hHandled] at h
          cases h
          exact handles_read hTarget rfl hHandled hGrows fun data hData =>
            hGives data (Option.some.inj hData)
      | multimapSideInput key bytes kind =>
          obtain ⟨hGrows, hGives⟩ :=
            driver.sideInputs.readMultimap_spec meets.scan key bytes kind meets.fuel
          rcases hHandled : handleMultimapSideInputRequest driver.sideInputs meets key bytes kind
            request.request with ⟨found, sideInputs⟩
          rw [answerFor, hHandled] at h
          cases h
          exact handles_read hTarget rfl hHandled hGrows hGives

end StateDriver

/-! What a run keeps. -/

/-- A cell after some requests. -/
def cellValue (userStates : UserStateRegistry) (initial : KvStore) (events : List StateEvent)
    (key : StateKey) : Option StateValue :=
  events.foldl (fun value event => event.cellAfter userStates key value) (initial.lookup key)

section Answers

variable {initial : KvStore} {userStates : UserStateRegistry} {registry : SideInputRegistry}
  {driver after : StateDriver} {events : List StateEvent}

/-- A cell, after one more request. -/
theorem cellValue_snoc (event : StateEvent) (key : StateKey) :
    cellValue userStates initial (events ++ [event]) key =
      event.cellAfter userStates key (cellValue userStates initial events key) := by
  rw [cellValue, cellValue, List.foldl_append]
  rfl

/-- The driver after some requests. -/
structure Answers (initial : KvStore) (userStates : UserStateRegistry)
    (registry : SideInputRegistry) (driver : StateDriver) (events : List StateEvent) : Prop where
  sameStates : driver.userStates = userStates
  sameRegistry : driver.sideInputs.registry = registry
  serves : driver.backend.Serves (cellValue userStates initial events)
  durable : ∃ done rest, events = done ++ rest ∧
    ∀ key, driver.backend.store.lookup key = cellValue userStates initial done key
  reads : ∀ done event rest, events = done ++ event :: rest → ∀ cell,
    event.request.target = some (.userState cell) → event.request.request = some (.get []) →
      event.answer = ((cell.contents (cellValue userStates initial done
        cell.address.compositeKey)).mapError (.userState "get")).map (.get []) ∨
      event.meets.surroundings.readFails = true ∧
        event.answer = .error (.userState "get" (.state .readFailed))
  taken : ∀ key windows, driver.sideInputs.cache.lookup key = some windows →
    ∃ done reader rest, events = done ++ reader :: rest ∧
      (∀ event ∈ done, event.request.sideInput = some key → ∀ reply, event.answer ≠ .ok reply) ∧
        ∃ spec rows, registry.lookup key = some spec ∧
          reader.meets.scan spec.pcollectionId = .ok rows ∧
            spec.materialization.encode rows = .ok windows
  given : ∀ event ∈ events, ∀ target, event.request.target = some target →
    target.sideInput.isSome = true → ∀ reply, event.answer = .ok reply →
      ∃ data, reply = .get [] data ∧ driver.sideInputs.Gives event.meets.fuel data target

namespace Answers

/-- Before the first request the store holds what it held. -/
theorem start (initial : KvStore) (userStates : UserStateRegistry) (registry : SideInputRegistry) :
    Answers initial userStates registry ⟨.withStore initial, userStates, ⟨registry, ∅⟩⟩ [] where
  sameStates := rfl
  sameRegistry := rfl
  serves := StateBackend.serves_withStore initial
  durable := ⟨[], [], rfl, fun _ => rfl⟩
  reads done event rest hEvents := absurd hEvents (by simp)
  taken key windows hCached := by
    rw [AList.lookup_empty] at hCached
    cases hCached
  given event hEvent := absurd hEvent List.not_mem_nil

theorem durable_of (h : Answers initial userStates registry driver events)
    (after : StateDriver) (more : List StateEvent)
    (hServes : after.backend.Serves (cellValue userStates initial (events ++ more)))
    (hDurable : StateBackend.Durable driver.backend after.backend) :
    ∃ done rest, events ++ more = done ++ rest ∧
      ∀ key, after.backend.store.lookup key = cellValue userStates initial done key := by
  rcases hDurable with hSame | hFlushed
  · obtain ⟨done, rest, hEvents, hStored⟩ := h.durable
    refine ⟨done, rest ++ more, ?_, fun key => ?_⟩
    · rw [hEvents, List.append_assoc]
    · rw [hSame]
      exact hStored key
  · refine ⟨events ++ more, [], (List.append_nil _).symm, fun key => ?_⟩
    exact (hFlushed key).trans (congrFun hServes.view key)

/-- An answer about a side input was made from its cached windows. -/
theorem gives_of_sideInput (h : Answers initial userStates registry driver events)
    {event : StateEvent} (hEvent : event ∈ events) {key : SideInputKey}
    (hSide : event.request.sideInput = some key) {reply : StateResponseBody}
    (hReply : event.answer = .ok reply) :
    ∃ data spec windows, reply = .get [] data ∧ driver.sideInputs.registry.lookup key = some spec ∧
      driver.sideInputs.cache.lookup key = some windows ∧
        ∀ target, event.request.target = some target →
          spec.Gives windows event.meets.fuel data target := by
  obtain ⟨target, hTarget, hKey⟩ := Option.bind_eq_some_iff.mp hSide
  obtain ⟨data, hData, other, spec, windows, hOther, hSpec, hCached, hGives⟩ :=
    h.given event hEvent target hTarget (by rw [hKey]; rfl) reply hReply
  cases hKey.symm.trans hOther
  refine ⟨data, spec, windows, hData, hSpec, hCached, fun found hFound => ?_⟩
  cases hTarget.symm.trans hFound
  exact hGives

/-- One more request. -/
theorem handled (h : Answers initial userStates registry driver events) {event : StateEvent}
    (hHandles : driver.Handles event after) :
    Answers initial userStates registry after (events ++ [event]) := by
  have hServes : after.backend.Serves (cellValue userStates initial (events ++ [event])) := by
    have hAfter := hHandles.serves _ h.serves
    rw [h.sameStates] at hAfter
    have hCells : cellValue userStates initial (events ++ [event]) =
        fun key => event.cellAfter userStates key (cellValue userStates initial events key) :=
      funext fun key => cellValue_snoc event key
    rw [hCells]
    exact hAfter
  refine ⟨hHandles.userStates.trans h.sameStates,
    hHandles.grows.registry.trans h.sameRegistry, hServes,
    h.durable_of after [event] hServes (hHandles.durable _ h.serves), ?_, ?_, ?_⟩
  · intro done found rest hEvents cell hTarget hGet
    rcases List.eq_nil_or_concat rest with rfl | ⟨front, last, rfl⟩
    · obtain ⟨rfl, hLast⟩ := List.append_inj' hEvents rfl
      cases hLast
      exact hHandles.reads _ h.serves cell hTarget hGet
    · have hFront : events ++ [event] = (done ++ found :: front) ++ [last] := by
        rw [hEvents, List.concat_eq_append, List.append_assoc]
        rfl
      obtain ⟨hBefore, -⟩ := List.append_inj' hFront rfl
      exact h.reads done found front hBefore cell hTarget hGet
  · intro key windows hCached
    by_cases hBefore : driver.sideInputs.cache.lookup key = some windows
    · obtain ⟨done, reader, rest, rfl, hTaken⟩ := h.taken key windows hBefore
      exact ⟨done, reader, rest ++ [event], by rw [List.append_assoc]; rfl, hTaken⟩
    · rcases hHandles.grows.added key windows hCached with hOld | ⟨-, spec, rows, hSpec, hRows⟩
      · exact absurd hOld hBefore
      rw [h.sameRegistry] at hSpec
      refine ⟨events, event, [], rfl, fun found hFound hSide reply hReply => ?_, spec, rows, hSpec,
        hRows⟩
      obtain ⟨data, found, other, hKey, -, hOther, -⟩ := h.gives_of_sideInput hFound hSide hReply
      have hKept := hHandles.grows.kept key other hOther
      cases hCached.symm.trans hKept
      exact hBefore hOther
  · intro found hFound target hTarget hSide reply hReply
    rcases List.mem_append.mp hFound with hBefore | hLast
    · obtain ⟨data, hData, hGives⟩ := h.given found hBefore target hTarget hSide reply hReply
      exact ⟨data, hData, hGives.mono hHandles.grows⟩
    · obtain rfl := List.mem_singleton.mp hLast
      exact hHandles.gives target hTarget hSide reply hReply

/-- The flush at the end of the loop. -/
theorem flushed (h : Answers initial userStates registry driver events) (flushing : Surroundings) :
    Answers initial userStates registry
      { driver with backend := (driver.backend.flush flushing).2 } events := by
  obtain ⟨hServes, -⟩ := h.serves.flushLocked flushing
  have hEvents : events = events ++ [] := (List.append_nil events).symm
  have hDurable := h.durable_of { driver with backend := (driver.backend.flush flushing).2 } []
    (hEvents ▸ hServes) (h.serves.flush_durable flushing)
  rw [List.append_nil] at hDurable
  exact ⟨h.sameStates, h.sameRegistry, hServes, hDurable, h.reads, h.taken, h.given⟩

end Answers

end Answers

/-! Requests for other cells. -/

/-- The cell that a request is for. -/
def StateRequest.address (request : StateRequest) : Option UserStateAddress :=
  match request.target with
  | some (.userState cell) => some cell.address
  | _ => none

/-- A request for one cell leaves the others. -/
theorem cellAfter_of_ne {userStates : UserStateRegistry} {event : StateEvent}
    {address : UserStateAddress} (hFits : address.Fits)
    (hEvent : ∀ other, event.request.address = some other → other.Fits)
    (hOther : event.request.address ≠ some address) (before : Option StateValue) :
    event.cellAfter userStates address.compositeKey before = before := by
  rw [StateEvent.cellAfter]
  cases hTarget : event.request.target with
  | none => rfl
  | some target =>
      cases target with
      | userState cell =>
          have hCell : event.request.address = some cell.address := by
            rw [StateRequest.address, hTarget]
          refine if_neg fun hKey => hOther ?_
          rw [hCell, UserStateAddress.compositeKey_injective (hEvent _ hCell) hFits hKey]
      | iterableSideInput key bytes | multimapSideInput key bytes kind => rfl

/-- Only the requests for a cell matter to it. -/
theorem cellValue_filter {userStates : UserStateRegistry} {initial : KvStore} {events : List StateEvent}
    {address : UserStateAddress} (hFits : address.Fits)
    (hEvents : ∀ event ∈ events, ∀ other, event.request.address = some other → other.Fits) :
    cellValue userStates initial events address.compositeKey =
      cellValue userStates initial (events.filter fun event => event.request.address = some address)
        address.compositeKey := by
  rw [cellValue, cellValue]
  generalize initial.lookup address.compositeKey = value
  induction events generalizing value with
  | nil => rfl
  | cons event events ih =>
      have hRest := ih fun other hOther => hEvents other (List.mem_cons_of_mem _ hOther)
      rw [List.foldl_cons, hRest]
      by_cases hSame : event.request.address = some address
      · rw [List.filter_cons_of_pos (by simpa using hSame), List.foldl_cons]
      · rw [List.filter_cons_of_neg (by simpa using hSame),
          cellAfter_of_ne hFits (hEvents event List.mem_cons_self) hSame]

namespace StateServiceRun

variable {initial : KvStore} {userStates : UserStateRegistry} {registry : SideInputRegistry}
  {run after : StateServiceRun}

/-- What holds of every run of the driver. -/
structure Kept (initial : KvStore) (userStates : UserStateRegistry) (registry : SideInputRegistry)
    (run : StateServiceRun) : Prop where
  answers : Answers initial userStates registry run.driver run.events
  responses : ∃ unsent, run.events.map StateEvent.response = run.sent ++ unsent ∧
    unsent.length ≤ 1 ∧ (run.phase = .driving → unsent = [])
  flushed : run.phase = .stopped true →
    ∀ key, run.driver.backend.store.lookup key = cellValue userStates initial run.events key

theorem kept_start (initial : KvStore) (userStates : UserStateRegistry)
    (registry : SideInputRegistry) :
    Kept initial userStates registry (start initial userStates registry) where
  answers := .start initial userStates registry
  responses := ⟨[], rfl, Nat.zero_le _, fun _ => rfl⟩
  flushed hPhase := by cases hPhase

/-- The loop ends behind some requests, of which all but the last were answered in time. -/
theorem kept_flushOnExit (h : Answers initial userStates registry run.driver run.events)
    (hResponses : ∃ unsent, run.events.map StateEvent.response = run.sent ++ unsent ∧
      unsent.length ≤ 1) (flushing : Surroundings) :
    Kept initial userStates registry (run.flushOnExit flushing) where
  answers := h.flushed flushing
  responses := by
    obtain ⟨unsent, hEvents, hUnsent⟩ := hResponses
    exact ⟨unsent, hEvents, hUnsent, fun hPhase => by cases hPhase⟩
  flushed hPhase key := by
    have hOk : (run.driver.backend.flush flushing).1.isOk = true := by
      have hStopped := DriverPhase.stopped.inj hPhase
      exact hStopped
    have hDone : (run.driver.backend.flush flushing).1 = .ok () := by
      cases hReply : (run.driver.backend.flush flushing).1 with
      | ok _ => rfl
      | error reason =>
          rw [hReply] at hOk
          cases hOk
    exact (h.serves.flushLocked flushing).2 hDone key

/-- Every step of the driver keeps the answers and the cells in line. -/
theorem Kept.step (h : Kept initial userStates registry run) {action : StateServiceAction}
    (hStep : run.step action = some after) : Kept initial userStates registry after := by
  rw [StateServiceRun.step] at hStep
  split at hStep
  next hDriving =>
    cases hStep
    obtain ⟨unsent, hEvents, hUnsent, hNone⟩ := h.responses
    obtain rfl := hNone hDriving
    rw [List.append_nil] at hEvents
    cases action with
    | reset =>
        exact ⟨h.answers, ⟨[], by rw [List.append_nil]; exact hEvents, Nat.zero_le _, fun _ => rfl⟩,
          fun hPhase => by cases hPhase⟩
    | streamEnds flushing =>
        exact kept_flushOnExit h.answers
          ⟨[], by rw [List.append_nil]; exact hEvents, Nat.zero_le _⟩ flushing
    | serve request meets delivery =>
        rw [act]
        rcases hHandled : run.driver.handleStateRequest meets request with ⟨_ | answer, driver⟩
        · exact ⟨h.answers, ⟨[], by rw [List.append_nil]; exact hEvents, Nat.zero_le _, fun _ => rfl⟩,
            fun hPhase => by cases hPhase⟩
        have hAnswers := h.answers.handled (StateDriver.handles_of_answered hHandled)
        obtain ⟨event, hEvent⟩ : ∃ event : StateEvent, event = ⟨request, meets, answer⟩ := ⟨_, rfl⟩
        rw [← hEvent] at hAnswers
        have hMapped : (run.events ++ [event]).map StateEvent.response =
            run.sent ++ [event.response] := by
          rw [List.map_append, hEvents]
          rfl
        dsimp only
        rw [← hEvent]
        cases delivery with
        | sent =>
            refine ⟨hAnswers, ⟨[], ?_, Nat.zero_le _, fun _ => rfl⟩, fun hPhase => ?_⟩
            · rw [List.append_nil]
              exact hMapped
            · cases hDriving.symm.trans hPhase
        | failed flushing => exact kept_flushOnExit hAnswers ⟨[event.response], hMapped, Nat.le_refl 1⟩ flushing
        | aborted =>
            exact ⟨hAnswers, ⟨[event.response], hMapped, Nat.le_refl 1, fun hPhase => by cases hPhase⟩,
              fun hPhase => by cases hPhase⟩
  · cases hStep

/-- State requests are answered. The store applies a batch as a whole or, where it
fails, not at all. In every run of the driver, with any requests, any failures of
such a store and any growth of the tables, each request taken is answered
once, in order and under its own id, save a last one that the driver ends on. A cell
is what the answered requests for it made of it, and a read answers what it holds.
What the store holds is what the cells were after some of the requests, after all
of them once the last flush has succeeded. All answers about a side input come from
one scan of its table, made by the time of the first. -/
theorem requests_are_answered {run : StateServiceRun}
    (hRun : Runs.Reaches step (fun _ _ => True) (start initial userStates registry) run) :
    (∃ unsent, run.events.map StateEvent.response = run.sent ++ unsent ∧ unsent.length ≤ 1 ∧
      (run.phase = .driving → unsent = [])) ∧
    (∀ address : UserStateAddress, address.Fits →
      (∀ event ∈ run.events, ∀ other, event.request.address = some other → other.Fits) →
      run.driver.backend.view address.compositeKey =
        cellValue userStates initial
          (run.events.filter fun event => event.request.address = some address)
          address.compositeKey) ∧
    (∀ done event rest, run.events = done ++ event :: rest → ∀ cell,
      event.request.target = some (.userState cell) → event.request.request = some (.get []) →
        event.answer = ((cell.contents (cellValue userStates initial done
          cell.address.compositeKey)).mapError (.userState "get")).map (.get []) ∨
        event.meets.surroundings.readFails = true ∧
          event.answer = .error (.userState "get" (.state .readFailed))) ∧
    (∃ done rest, run.events = done ++ rest ∧
      (run.phase = .stopped true → rest = []) ∧
      ∀ key, run.driver.backend.store.lookup key = cellValue userStates initial done key) ∧
    ∀ event ∈ run.events, ∀ key, event.request.sideInput = some key →
      ∀ reply, event.answer = .ok reply →
        ∃ done reader rest spec rows, run.events = done ++ reader :: rest ∧
          (∀ earlier ∈ done, earlier.request.sideInput = some key →
            ∀ answered, earlier.answer ≠ .ok answered) ∧
          registry.lookup key = some spec ∧ reader.meets.scan spec.pcollectionId = .ok rows ∧
          ∀ other ∈ run.events, ∀ target, other.request.target = some target →
            target.sideInput = some key → ∀ found, other.answer = .ok found →
              ∃ data, found = .get [] data ∧
                spec.ReadsFrom rows other.meets.fuel data target := by
  have hKept : Kept initial userStates registry run :=
    hRun.invariant (fun _ _ _ _ hStep h => h.step hStep) (kept_start initial userStates registry)
  have hAnswers := hKept.answers
  refine ⟨hKept.responses, fun address hFits hEvents => ?_, hAnswers.reads, ?_, ?_⟩
  · rw [← cellValue_filter hFits hEvents]
    exact congrFun hAnswers.serves.view address.compositeKey
  · by_cases hStopped : run.phase = .stopped true
    · exact ⟨run.events, [], (List.append_nil _).symm, fun _ => rfl, hKept.flushed hStopped⟩
    · obtain ⟨done, rest, hEvents, hStored⟩ := hAnswers.durable
      exact ⟨done, rest, hEvents, fun hPhase => absurd hPhase hStopped, hStored⟩
  · intro event hEvent key hSide reply hReply
    obtain ⟨-, -, windows, -, -, hCached, -⟩ := hAnswers.gives_of_sideInput hEvent hSide hReply
    obtain ⟨done, reader, rest, hEvents, hFirst, spec, rows, hSpec, hScan, hEncode⟩ :=
      hAnswers.taken key windows hCached
    refine ⟨done, reader, rest, spec, rows, hEvents, hFirst, hSpec, hScan, ?_⟩
    intro other hOther target hTarget hKey found hFound
    have hOtherSide : other.request.sideInput = some key := by
      rw [StateRequest.sideInput, hTarget, Option.bind_some, hKey]
    obtain ⟨data, same, cached, hData, hSame, hSameCached, hGives⟩ :=
      hAnswers.gives_of_sideInput hOther hOtherSide hFound
    rw [hAnswers.sameRegistry] at hSame
    cases hSpec.symm.trans hSame
    cases hCached.symm.trans hSameCached
    exact ⟨data, hData, (hGives target hTarget).readsFrom hEncode⟩

/-! A bag is appended to, and a side input is read before and after its table
grows. The worker is gone when the bag is read. -/

def numbersKey : SideInputKey := ⟨"ParDo", "numbers"⟩

def numbersRegistry : SideInputRegistry :=
  (∅ : SideInputRegistry).insert numbersKey ⟨"numbers", .iterable .varInt, .global⟩

/-- The table holds numbers, each in the global window. -/
def numbersAre (numbers : List Int64) : RequestConditions where
  surroundings := .calm
  scan _ := .ok (numbers.map fun number =>
    ⟨.primitive (.int64 number), 0, [.global], .noFiring⟩)
  fuel := 0

def bagOf (key : List UInt8) : StateKeyType :=
  .bagUserState ⟨"ParDo", "bag", [], key⟩

def grownSideInput : List StateServiceAction :=
  [.serve ⟨"1", some (bagOf [9]), some (.append [1, 2])⟩ (numbersAre []) .sent,
    .serve ⟨"2", some (.iterableSideInput numbersKey []), some (.get [])⟩ (numbersAre [7]) .sent,
    .serve ⟨"3", some (.iterableSideInput numbersKey []), some (.get [])⟩ (numbersAre [7, 8]) .sent,
    .serve ⟨"4", some (bagOf [9]), some (.get [])⟩ (numbersAre [7, 8]) (.failed .calm)]

theorem requests_are_answered_grownSideInput :
    ∃ run : StateServiceRun, run.sent.map StateResponse.answer =
        [.ok .append, .ok (.get [] [7]), .ok (.get [] [7])] ∧
      run.phase = .stopped true ∧
      ∃ done rest, run.events = done ++ rest ∧ (run.phase = .stopped true → rest = []) ∧
        ∀ key, run.driver.backend.store.lookup key = cellValue ∅ ∅ done key := by
  obtain ⟨run, hPlay, hSent, hPhase⟩ :
      ∃ run, Runs.play step (start ∅ ∅ numbersRegistry) grownSideInput = some run ∧
        run.sent.map StateResponse.answer =
          [.ok .append, .ok (.get [] [7]), .ok (.get [] [7])] ∧
        run.phase = .stopped true := ⟨_, rfl, by decide, rfl⟩
  have hRun : Runs.Reaches step (fun _ _ => True) (start ∅ ∅ numbersRegistry) run :=
    Runs.reaches_of_play (fun _ _ => trivial) hPlay
  exact ⟨run, hSent, hPhase, (requests_are_answered hRun).2.2.2.1⟩

end StateServiceRun

end FlareDB
