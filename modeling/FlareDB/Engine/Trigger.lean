import FlareDB.Coders.Window

/-! Beam triggers: when a window fires and how the firing is described. A
trigger tree is run by a state of the same shape, fed one element at a time. -/
namespace FlareDB

inductive Trigger where
  | default
  | never
  | always
  | elementCount (count : Nat)
  | afterProcessingTime (delayMillis : Int64)
  | afterSynchronizedProcessingTime
  | afterWatermark (early late : Option Trigger)
  | afterAll (subs : List Trigger)
  | afterAny (subs : List Trigger)
  | afterEach (subs : List Trigger)
  | repeating (sub : Trigger)
  | orFinally (main finally_ : Trigger)
deriving Repr

def Trigger.isDefault : Trigger → Bool
  | .default => true
  | _ => false

inductive AccumulationMode where
  | discarding
  | accumulating
  | retracting
deriving DecidableEq, Repr

/-- How a grouping transform derives the timestamp of a pane. -/
inductive OutputTime where
  | endOfWindow
  | latestInPane
  | earliestInPane
deriving DecidableEq, Repr

/-- The trigger-relevant parts of a windowing strategy. -/
structure TriggerSpec where
  trigger : Trigger
  accumulation : AccumulationMode
  outputTime : OutputTime
  allowedLateness : Int64
deriving Repr

/-- Signed addition that stops at the bounds of the type. -/
def saturatingAdd (a b : Int64) : Int64 :=
  Int64.ofInt (max (-2 ^ 63) (min (2 ^ 63 - 1) (a.toInt + b.toInt)))

/-- The watermark past which a window's state may be collected. -/
def TriggerSpec.earliestCompletion (spec : TriggerSpec) (windowEndMillis : Int64) : Int64 :=
  saturatingAdd windowEndMillis spec.allowedLateness

structure TriggerContext where
  endOfWindow : Bool
  expired : Bool
  processingTime : Int64

/-- Per-window trigger state, mirroring the trigger tree. -/
structure NodeState where
  firedOnce : Bool := false
  count : Nat := 0
  firstArrival : Option Int64 := none
  index : Nat := 0
  finished : Bool := false
  children : List NodeState := []

namespace Trigger

mutual

def fresh : Trigger → NodeState
  | .afterWatermark early late => { children := [freshOption early, freshOption late] }
  | .afterAll subs | .afterAny subs | .afterEach subs => { children := freshAll subs }
  | .repeating sub => { children := [fresh sub] }
  | .orFinally main finally_ => { children := [fresh main, fresh finally_] }
  | _ => {}

def freshOption : Option Trigger → NodeState
  | some trigger => fresh trigger
  | none => {}

def freshAll : List Trigger → List NodeState
  | [] => []
  | sub :: subs => fresh sub :: freshAll subs

end

/-- The state of the child at a position. A state built by `fresh` always has
the children its trigger reads. -/
def child (state : NodeState) (position : Nat) : NodeState :=
  state.children.getD position {}

def setChild (state : NodeState) (position : Nat) (next : NodeState) : NodeState :=
  { state with children := state.children.set position next }

mutual

def element (processingTime : Int64) : Trigger → NodeState → NodeState
  | .elementCount _, state => { state with count := state.count + 1 }
  | .afterProcessingTime _, state =>
      if state.firstArrival.isNone then { state with firstArrival := some processingTime }
      else state
  | .afterWatermark early late, state =>
      if !state.firedOnce then
        setChild state 0 (elementOption processingTime early (child state 0))
      else setChild state 1 (elementOption processingTime late (child state 1))
  | .afterAll subs, state | .afterAny subs, state | .afterEach subs, state =>
      { state with children := elementAll processingTime subs state.children }
  | .repeating sub, state => match state.children with
      | first :: rest => { state with children := element processingTime sub first :: rest }
      | [] => state
  | .orFinally main finally_, state =>
      let state := setChild state 0 (element processingTime main (child state 0))
      setChild state 1 (element processingTime finally_ (child state 1))
  | _, state => state

def elementOption (processingTime : Int64) : Option Trigger → NodeState → NodeState
  | some trigger, state => element processingTime trigger state
  | none, state => state

def elementAll (processingTime : Int64) : List Trigger → List NodeState → List NodeState
  | sub :: subs, state :: states =>
      element processingTime sub state :: elementAll processingTime subs states
  | _, states => states

end

mutual

def shouldFire (ctx : TriggerContext) : Trigger → NodeState → Bool
  | .default, state => ctx.endOfWindow && !state.firedOnce
  | .never, state => ctx.expired && !state.firedOnce
  | .always, _ | .afterSynchronizedProcessingTime, _ => true
  | .elementCount count, state => decide (state.count ≥ count) && !state.firedOnce
  | .afterProcessingTime delayMillis, state =>
      (match state.firstArrival with
        | some first => decide (ctx.processingTime ≥ first + delayMillis)
        | none => false) && !state.firedOnce
  | .afterWatermark early late, state =>
      if !ctx.endOfWindow then shouldFireOption ctx false early (child state 0)
      else if !state.firedOnce then true
      else shouldFireOption ctx true late (child state 1)
  | .afterAll subs, state => shouldFireAll ctx subs state.children
  | .afterAny subs, state => shouldFireAny ctx subs state.children
  | .afterEach subs, state => shouldFireAt ctx subs state.index (child state state.index)
  | .repeating sub, state => match state.children with
      | first :: _ => shouldFire ctx sub first
      | [] => false
  | .orFinally main finally_, state =>
      !state.finished &&
        (shouldFire ctx main (child state 0) || shouldFire ctx finally_ (child state 1))

/-- A missing subtrigger answers with its default. -/
def shouldFireOption (ctx : TriggerContext) (missing : Bool) :
    Option Trigger → NodeState → Bool
  | some trigger, state => shouldFire ctx trigger state
  | none, _ => missing

def shouldFireAll (ctx : TriggerContext) : List Trigger → List NodeState → Bool
  | sub :: subs, state :: states => shouldFire ctx sub state && shouldFireAll ctx subs states
  | _, _ => true

def shouldFireAny (ctx : TriggerContext) : List Trigger → List NodeState → Bool
  | sub :: subs, state :: states => shouldFire ctx sub state || shouldFireAny ctx subs states
  | _, _ => false

def shouldFireAt (ctx : TriggerContext) : List Trigger → Nat → NodeState → Bool
  | sub :: _, 0, state => shouldFire ctx sub state
  | _ :: subs, index + 1, state => shouldFireAt ctx subs index state
  | [], _, _ => false

end

mutual

def fire (ctx : TriggerContext) : Trigger → NodeState → NodeState
  | .default, state | .never, state | .elementCount _, state | .afterProcessingTime _, state =>
      { state with firedOnce := true }
  | .afterWatermark early late, state =>
      if !ctx.endOfWindow then setChild state 0 (fireOption ctx early (child state 0))
      else if !state.firedOnce then
        let state := { state with firedOnce := true }
        match early with
        | some early => setChild state 0 (fresh early)
        | none => state
      else setChild state 1 (fireOption ctx late (child state 1))
  | .always, state | .afterSynchronizedProcessingTime, state => state
  | .afterAll subs, state | .afterAny subs, state =>
      { state with children := fireAll ctx subs state.children }
  | .afterEach subs, state =>
      let state := setChild state state.index (fireAt ctx subs state.index (child state state.index))
      let index := state.index + 1
      { state with index, finished := state.finished || decide (index ≥ subs.length) }
  | .repeating sub, state => match state.children with
      | _ :: rest => { state with children := fresh sub :: rest }
      | [] => state
  | .orFinally main finally_, state =>
      if shouldFire ctx finally_ (child state 1) then { state with finished := true }
      else setChild state 0 (fire ctx main (child state 0))

def fireOption (ctx : TriggerContext) : Option Trigger → NodeState → NodeState
  | some trigger, state => fire ctx trigger state
  | none, state => state

def fireAll (ctx : TriggerContext) : List Trigger → List NodeState → List NodeState
  | sub :: subs, state :: states => fire ctx sub state :: fireAll ctx subs states
  | _, states => states

def fireAt (ctx : TriggerContext) : List Trigger → Nat → NodeState → NodeState
  | sub :: _, 0, state => fire ctx sub state
  | _ :: subs, index + 1, state => fireAt ctx subs index state
  | [], _, state => state

end

end Trigger

/-- A stateful run of a trigger for one window. -/
structure TriggerRunner where
  trigger : Trigger
  state : NodeState

namespace TriggerRunner

def new (trigger : Trigger) : TriggerRunner where
  trigger := trigger
  state := trigger.fresh

def onElement (runner : TriggerRunner) (processingTime : Int64) : TriggerRunner :=
  { runner with state := runner.trigger.element processingTime runner.state }

def shouldFire (runner : TriggerRunner) (ctx : TriggerContext) : Bool :=
  runner.trigger.shouldFire ctx runner.state

def onFire (runner : TriggerRunner) (ctx : TriggerContext) : TriggerRunner :=
  { runner with state := runner.trigger.fire ctx runner.state }

end TriggerRunner

def paneInfo (timing : PaneTiming) (index : Int64) (isFirst isLast : Bool) : PaneInfo where
  isFirst := isFirst
  isLast := isLast
  timing := timing
  index := index
  nonSpeculativeIndex := if timing = .early then -1 else index

def paneTiming (endOfWindow isFirstFiring : Bool) : PaneTiming :=
  if !endOfWindow then .early
  else if isFirstFiring then .onTime
  else .late

end FlareDB
