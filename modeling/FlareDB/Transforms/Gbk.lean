import FlareDB.Engine.Trigger
import FlareDB.Lib.KeyedStore

/-! The runner-native GroupByKey: per-group window state carried across runs,
fed by `applyGroup` and drained by `takeReady`. -/
namespace FlareDB

open KeyedStore

/-- Order-preserving bytes of a signed word. -/
def orderedI64Bytes (value : Int64) : List UInt8 :=
  BigEndian.toBytes 8 (value.toUInt64 ^^^ signBit).toNat

/-- The binary identity of a window. A coder id longer than a 32-bit count is
refused by an assertion in the source. -/
def BeamWindow.toBinaryKey : BeamWindow → List UInt8
  | .global => [0]
  | .interval startMillis endMillis =>
      1 :: (orderedI64Bytes startMillis ++ orderedI64Bytes endMillis)
  | .opaqueWindow coderId bytes =>
      2 :: (BigEndian.toBytes 4 (utf8Bytes coderId).length ++ (utf8Bytes coderId ++ bytes))

/-- Type tag and bytes of a key; floats by their bits. -/
def encodedPrimitiveSortKey : PrimitiveValue → List UInt8
  | .string value => 0 :: utf8Bytes value
  | .bytes value => 1 :: value
  | .int64 value => 2 :: BigEndian.toBytes 8 value.toUInt64.toNat
  | .float64 bits => 3 :: BigEndian.toBytes 8 bits.toNat
  | .bool value => [4, if value then 1 else 0]
  | .void => [5]

structure GroupIdentity where
  key : List UInt8
  window : List UInt8
deriving DecidableEq, Repr

def groupIdentity (key : PrimitiveValue) (window : BeamWindow) : GroupIdentity where
  key := encodedPrimitiveSortKey key
  window := window.toBinaryKey

structure PaneElement where
  value : BeamRecord
  timestampMillis : Int64

/-- Accumulated state of one group. -/
structure WindowState where
  key : PrimitiveValue
  window : BeamWindow
  elements : List PaneElement
  paneTimestamps : List Int64
  trigger : TriggerRunner
  paneIndex : Int64
  fired : Bool
  closed : Bool
  evaluatedThisRun : Bool

def WindowState.new (key : PrimitiveValue) (window : BeamWindow) (trigger : TriggerRunner) :
    WindowState where
  key := key
  window := window
  elements := []
  paneTimestamps := []
  trigger := trigger
  paneIndex := 0
  fired := false
  closed := false
  evaluatedThisRun := false

/-- A group at the start of a run, not yet evaluated. -/
def WindowState.begun (state : WindowState) : WindowState :=
  { state with evaluatedThisRun := false }

def outputTimestamp (outputTime : OutputTime) (window : BeamWindow) (paneTimestamps : List Int64) :
    Int64 :=
  match outputTime with
  | .latestInPane => paneTimestamps.max?.getD window.maxTimestampMillis
  | .earliestInPane => paneTimestamps.min?.getD window.maxTimestampMillis
  | .endOfWindow => window.maxTimestampMillis

/-- A pane of one group. -/
def groupPane (key : PrimitiveValue) (window : BeamWindow) (elements : List PaneElement)
    (timestampMillis : Int64) (pane : PaneInfo) : WindowedValue where
  value := .kv key (.iterable (elements.map PaneElement.value))
  timestampMillis := timestampMillis
  windows := [window]
  pane := pane

def windowExpired (spec : TriggerSpec) (window : BeamWindow) (inputWatermark : Int64) : Bool :=
  decide (spec.earliestCompletion window.maxTimestampMillis < inputWatermark)

def triggerContext (spec : TriggerSpec) (window : BeamWindow)
    (inputWatermark processingTime : Int64) : TriggerContext where
  endOfWindow := decide (window.maxTimestampMillis < inputWatermark)
  expired := windowExpired spec window inputWatermark
  processingTime := processingTime

/-- Evaluate one group: fire when the trigger is ready or the window expires,
and close it in the latter case. An empty pane is not emitted. -/
def fireState (state : WindowState) (spec : TriggerSpec) (inputWatermark processingTime : Int64) :
    WindowState × Option WindowedValue :=
  let ctx := triggerContext spec state.window inputWatermark processingTime
  let closing := ctx.expired && !state.closed
  if !(state.trigger.shouldFire ctx || closing) then
    ({ state with evaluatedThisRun := true }, none)
  else
    let isFirst := !state.fired
    let pane := paneInfo (paneTiming ctx.endOfWindow isFirst) state.paneIndex isFirst ctx.expired
    let timestampMillis := outputTimestamp spec.outputTime state.window state.paneTimestamps
    let next := { state with
      elements := if spec.accumulation = .discarding then [] else state.elements
      paneTimestamps := []
      trigger := state.trigger.onFire ctx
      paneIndex := state.paneIndex + 1
      fired := true
      evaluatedThisRun := true
      closed := state.closed || ctx.expired }
    if state.elements.isEmpty then (next, none)
    else (next, some (groupPane state.key state.window state.elements timestampMillis pane))

/-- The in-memory state backend. -/
structure InMemoryGbkState where
  states : Store GroupIdentity WindowState
  readyScan : Option (List GroupIdentity)

namespace InMemoryGbkState

def empty : InMemoryGbkState where
  states := ∅
  readyScan := none

def beginRun (inner : InMemoryGbkState) : InMemoryGbkState where
  states := mapValues WindowState.begun inner.states
  readyScan := none

/-- Write back an evaluated group, dropping it when it has closed. -/
def settle (states : Store GroupIdentity WindowState) (identity : GroupIdentity)
    (state : WindowState) : Store GroupIdentity WindowState :=
  if state.closed then states.erase identity else states.insert identity state

/-- The state of a group with a run of new elements added. -/
def addElements (state : WindowState) (elements : List PaneElement) (processingTime : Int64) :
    WindowState :=
  { state with
    trigger := elements.foldl (fun runner _ => runner.onElement processingTime) state.trigger
    paneTimestamps := state.paneTimestamps ++ elements.map PaneElement.timestampMillis
    elements := state.elements ++ elements }

/-- Whether a group can be emitted without ever being stored. -/
def emitsDirectly (inner : InMemoryGbkState) (window : BeamWindow) (spec : TriggerSpec)
    (inputWatermark : Int64) : Bool :=
  inner.states.entries.isEmpty && windowExpired spec window inputWatermark &&
    spec.trigger.isDefault && decide (spec.accumulation = .discarding)

def applyGroup (inner : InMemoryGbkState) (key : PrimitiveValue) (window : BeamWindow)
    (elements : List PaneElement) (spec : TriggerSpec) (inputWatermark processingTime : Int64) :
    InMemoryGbkState × Option WindowedValue :=
  if inner.emitsDirectly window spec inputWatermark then
    let timestampMillis := outputTimestamp spec.outputTime window
      (elements.map PaneElement.timestampMillis)
    (inner, some (groupPane key window elements timestampMillis (paneInfo .onTime 0 true true)))
  else
    let identity := groupIdentity key window
    let state := (inner.states.lookup identity).getD
      (WindowState.new key window (TriggerRunner.new spec.trigger))
    let (state, output) := fireState (addElements state elements processingTime) spec
      inputWatermark processingTime
    ({ inner with states := settle inner.states identity state }, output)

/-- The loop of `takeReady` over the identities still to be scanned. -/
def scanReady (spec : TriggerSpec) (inputWatermark processingTime : Int64) (limit : Nat) :
    List GroupIdentity → Store GroupIdentity WindowState → List WindowedValue →
      List GroupIdentity × Store GroupIdentity WindowState × List WindowedValue
  | [], states, output => ([], states, output)
  | identity :: scan, states, output =>
      if limit ≤ output.length then (identity :: scan, states, output)
      else match states.lookup identity with
        | none => scanReady spec inputWatermark processingTime limit scan states output
        | some state =>
            if state.evaluatedThisRun then
              scanReady spec inputWatermark processingTime limit scan states output
            else
              let (state, value) := fireState state spec inputWatermark processingTime
              scanReady spec inputWatermark processingTime limit scan
                (settle states identity state) (output ++ value.toList)

/-- `order` is the iteration order of the hash map holding the groups. -/
def takeReady (inner : InMemoryGbkState) (order : List GroupIdentity → List GroupIdentity)
    (spec : TriggerSpec) (inputWatermark processingTime : Int64) (limit : Nat) :
    InMemoryGbkState × List WindowedValue :=
  if limit = 0 then (inner, [])
  else
    let scan := inner.readyScan.getD (order inner.states.keys)
    let (scan, states, output) := scanReady spec inputWatermark processingTime limit scan
      inner.states []
    ({ states, readyScan := if scan.isEmpty then none else some scan }, output)

end InMemoryGbkState

/-- Groups released per `takeReady` call. -/
def outputBatchSize : Nat := 8 * 1024

/-- One group handed to the state backend. -/
structure GroupInput where
  key : PrimitiveValue
  window : BeamWindow
  elements : List PaneElement

/-- One execution of the transform: the groups of its input in order, at one
watermark and processing time. -/
structure GbkRun where
  groups : List GroupInput
  inputWatermark : Int64
  processingTime : Int64
  order : List GroupIdentity → List GroupIdentity

namespace InMemoryGbkState

def applyGroups (inner : InMemoryGbkState) (spec : TriggerSpec)
    (inputWatermark processingTime : Int64) :
    List GroupInput → InMemoryGbkState × List WindowedValue
  | [] => (inner, [])
  | group :: groups =>
      let (inner, value) := inner.applyGroup group.key group.window group.elements spec
        inputWatermark processingTime
      let (inner, values) := inner.applyGroups spec inputWatermark processingTime groups
      (inner, value.toList ++ values)

/-- The drain loop: take ready groups until none are left. Every round but the
last evaluates a group that this run has not evaluated before, so one more
round than there are groups is enough. -/
def drainReady (spec : TriggerSpec) (order : List GroupIdentity → List GroupIdentity)
    (inputWatermark processingTime : Int64) :
    Nat → InMemoryGbkState → InMemoryGbkState × List WindowedValue
  | 0, inner => (inner, [])
  | fuel + 1, inner =>
      let (inner, ready) := inner.takeReady order spec inputWatermark processingTime outputBatchSize
      if ready.isEmpty then (inner, [])
      else
        let (inner, rest) := drainReady spec order inputWatermark processingTime fuel inner
        (inner, ready ++ rest)

def executeRun (inner : InMemoryGbkState) (spec : TriggerSpec) (run : GbkRun) :
    InMemoryGbkState × List WindowedValue :=
  let inner := inner.beginRun
  let (inner, output) := inner.applyGroups spec run.inputWatermark run.processingTime run.groups
  let (inner, ready) := drainReady spec run.order run.inputWatermark run.processingTime
    (inner.states.entries.length + 1) inner
  (inner, output ++ ready)

def executeRuns (inner : InMemoryGbkState) (spec : TriggerSpec) :
    List GbkRun → InMemoryGbkState × List WindowedValue
  | [] => (inner, [])
  | run :: runs =>
      let (inner, output) := inner.executeRun spec run
      let (inner, rest) := inner.executeRuns spec runs
      (inner, output ++ rest)

section Drain

/-- How many groups this run has not evaluated yet. -/
def unevaluated (states : Store GroupIdentity WindowState) : Nat :=
  (held (fun state => if state.evaluatedThisRun then [] else [()]) states).card

variable (spec : TriggerSpec) (inputWatermark processingTime : Int64)

theorem evaluated_fireState (state : WindowState) :
    (fireState state spec inputWatermark processingTime).1.evaluatedThisRun = true := by
  unfold fireState
  simp only
  split
  · rfl
  · split <;> rfl

theorem unevaluated_settle {states : Store GroupIdentity WindowState} {identity : GroupIdentity}
    {state next : WindowState} (hLookup : states.lookup identity = some state)
    (hBefore : state.evaluatedThisRun = false) (hAfter : next.evaluatedThisRun = true) :
    unevaluated (settle states identity next) + 1 = unevaluated states := by
  have hSettled : unevaluated (settle states identity next) =
      unevaluated (states.erase identity) := by
    unfold settle
    split
    · rfl
    · rw [unevaluated, held_insert, hAfter]
      simp [unevaluated]
  rw [hSettled, unevaluated, unevaluated, held_of_lookup _ hLookup, hBefore]
  simp [Nat.add_comm]

theorem unevaluated_le_length (states : Store GroupIdentity WindowState) :
    unevaluated states ≤ states.entries.length := by
  rw [unevaluated, held, Multiset.coe_card]
  induction states.entries with
  | nil => exact Nat.le_refl _
  | cons entry rest ih =>
      have hEntry : (if entry.2.evaluatedThisRun then [] else [()]).length ≤ 1 := by
        split <;> simp
      rw [List.flatMap_cons, List.length_append, List.length_cons]
      omega

/-- Every pane a scan emits uses up a group that was not evaluated. -/
theorem unevaluated_scanReady (limit : Nat) (scan : List GroupIdentity)
    (states : Store GroupIdentity WindowState) (output : List WindowedValue) :
    unevaluated (scanReady spec inputWatermark processingTime limit scan states output).2.1 +
        (scanReady spec inputWatermark processingTime limit scan states output).2.2.length ≤
      unevaluated states + output.length := by
  induction scan generalizing states output with
  | nil => exact Nat.le_refl _
  | cons identity scan ih =>
      rw [scanReady]
      split
      · exact Nat.le_refl _
      · cases hLookup : states.lookup identity with
        | none => exact ih states output
        | some state =>
            cases hEvaluated : state.evaluatedThisRun with
            | true => simpa [hEvaluated] using ih states output
            | false =>
                let fired := fireState state spec inputWatermark processingTime
                have hSettled : unevaluated (settle states identity fired.1) + 1 =
                    unevaluated states :=
                  unevaluated_settle hLookup hEvaluated
                    (evaluated_fireState spec inputWatermark processingTime state)
                have hRest := ih (settle states identity fired.1) (output ++ fired.2.toList)
                have hPane : fired.2.toList.length ≤ 1 := by cases fired.2 <;> simp
                rw [List.length_append] at hRest
                simp only [hEvaluated]
                exact hRest.trans (by omega)

theorem unevaluated_takeReady (order : List GroupIdentity → List GroupIdentity)
    (inner : InMemoryGbkState) (limit : Nat) :
    unevaluated (inner.takeReady order spec inputWatermark processingTime limit).1.states +
        (inner.takeReady order spec inputWatermark processingTime limit).2.length ≤
      unevaluated inner.states := by
  unfold takeReady
  split
  · exact Nat.le_refl _
  · exact unevaluated_scanReady spec inputWatermark processingTime limit _ inner.states []

/-- Rounds beyond the number of groups still to be evaluated change nothing. -/
theorem drainReady_fuel (order : List GroupIdentity → List GroupIdentity)
    {inner : InMemoryGbkState} {fuel more : Nat} (hFuel : unevaluated inner.states < fuel)
    (hMore : fuel ≤ more) :
    drainReady spec order inputWatermark processingTime more inner =
      drainReady spec order inputWatermark processingTime fuel inner := by
  induction fuel generalizing inner more with
  | zero => cases hFuel
  | succ fuel ih =>
      obtain ⟨more, rfl⟩ : ∃ n, more = n + 1 := ⟨more - 1, by omega⟩
      rw [drainReady, drainReady]
      dsimp only
      split
      · rfl
      next hReady =>
        have hTaken := unevaluated_takeReady spec inputWatermark processingTime order inner
          outputBatchSize
        have hSome : 0 < (inner.takeReady order spec inputWatermark processingTime
            outputBatchSize).2.length :=
          List.length_pos_iff.mpr fun hNil => hReady (List.isEmpty_iff.mpr hNil)
        rw [ih (by omega) (by omega)]

/-- The rounds a run is given are enough: its drain loop ends on its own. -/
theorem drainReady_rounds (order : List GroupIdentity → List GroupIdentity)
    (inner : InMemoryGbkState) {more : Nat} (hMore : inner.states.entries.length < more) :
    drainReady spec order inputWatermark processingTime more inner =
      drainReady spec order inputWatermark processingTime (inner.states.entries.length + 1) inner :=
  drainReady_fuel spec inputWatermark processingTime order
    (Nat.lt_succ_of_le (unevaluated_le_length inner.states)) hMore

end Drain

end InMemoryGbkState
end FlareDB
