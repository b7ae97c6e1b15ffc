import FlareDB.Engine.IterableViews
import FlareDB.Engine.StateRequests

/-! Side inputs of a job. The elements of a side input are read from its table and
encoded once, at the first request that gets so far, and kept for the requests that
follow. -/
namespace FlareDB

open ByteDecoder KeyedStore

def trailingBytes (count : Nat) : CodersError :=
  .whileDecoding ("window coder left " ++ toString count ++ " trailing byte(s)")

/-- A window that is all there is. -/
def WindowCoder.decodeWindow (coder : WindowCoder) : CoderDecoder BeamWindow := do
  let window ← match coder with
    | .opaqueLengthPrefixed innerCoderId => do
        let len ← decodeVarint
        let custom ← Decoder.takeChecked
          (.whileDecoding "opaque window coder: insufficient bytes") len.toNat
        pure (.opaqueWindow innerCoderId custom)
    | other => decodeOneWindow other
  let left ← Decoder.remaining
  if left = 0 then pure window else Decoder.fail (trailingBytes left)

inductive SideInputMaterialization where
  | iterable (elementCoder : StandardBeamCoders)
  | multimap (keyCoder valueCoder : StandardBeamCoders)

def SideInputMaterialization.encode (values : List WindowedValue) :
    SideInputMaterialization → SideInputResult EncodedSideInputWindows
  | .iterable elementCoder => encodeIterableWindows elementCoder values
  | .multimap keyCoder valueCoder => encodeMultimapWindows keyCoder valueCoder values

structure SideInputSpec where
  pcollectionId : String
  materialization : SideInputMaterialization
  windowCoder : WindowCoder

namespace SideInputSpec

variable (spec : SideInputSpec)

def window (bytes : List UInt8) : SideInputResult BeamWindow :=
  match spec.windowCoder.decodeWindow bytes with
  | .ok window _ => .ok window
  | .error reason => .error (.error ("invalid side-input window: " ++ reason.text))
  | .panic => .error .panic

end SideInputSpec

abbrev SideInputRegistry := Store SideInputKey SideInputSpec

/-- What the store yields for a PCollection at the time of a request. -/
abbrev TableScan := String → Except String (List WindowedValue)

/-- The side inputs of a job, with the encoded windows of those read so far. -/
structure SideInputResolver where
  registry : SideInputRegistry
  cache : Store SideInputKey EncodedSideInputWindows

namespace SideInputResolver

variable (resolver : SideInputResolver) (scan : TableScan) (key : SideInputKey)

def named (key : SideInputKey) : String :=
  "transform_id='" ++ key.transformId ++ "' side_input_id='" ++ key.sideInputId ++ "'"

def cachedWindows (spec : SideInputSpec) :
    SideInputResult EncodedSideInputWindows × SideInputResolver :=
  match resolver.cache.lookup key with
  | some windows => (.ok windows, resolver)
  | none => match scan spec.pcollectionId with
      | .error message => (.error (.error message), resolver)
      | .ok values => match spec.materialization.encode values with
          | .error failure => (.error failure, resolver)
          | .ok windows =>
              (.ok windows, { resolver with cache := resolver.cache.insert key windows })

/-- The elements of a window. -/
def iterableOf (windows : EncodedSideInputWindows) (window : BeamWindow) :
    SideInputResult (List UInt8) :=
  match windows.lookup window with
  | some (.iterable data) => .ok data
  | some (.multimap _ _) => .error (.error ("side input " ++ named key ++ " is not iterable"))
  | none => .ok []

def readIterable (window : List UInt8) : SideInputResult (List UInt8) × SideInputResolver :=
  match resolver.registry.lookup key with
  | none => (.error (.error ("unknown iterable side input " ++ named key)), resolver)
  | some spec => match spec.materialization with
      | .multimap _ _ =>
          (.error (.error ("side input " ++ named key ++ " is not iterable")), resolver)
      | .iterable _ => match spec.window window with
          | .error failure => (.error failure, resolver)
          | .ok window =>
              let (windows, after) := resolver.cachedWindows scan key spec
              (windows.bind fun windows => iterableOf key windows window, after)

/-- There is no result where the view of all keys is still being made when the
fuel is spent. -/
def readMultimap (window : List UInt8) (kind : MultimapReadKind) (fuel : Nat) :
    Option (SideInputResult (List UInt8)) × SideInputResolver :=
  match resolver.registry.lookup key with
  | none => (some (.error (.error ("unknown multimap side input " ++ named key))), resolver)
  | some spec => match spec.materialization with
      | .iterable _ =>
          (some (.error (.error ("side input " ++ named key ++ " is not a multimap"))), resolver)
      | .multimap keyCoder valueCoder => match spec.window window with
          | .error failure => (some (.error failure), resolver)
          | .ok window => match resolver.cachedWindows scan key spec with
              | (.error failure, after) => (some (.error failure), after)
              | (.ok windows, after) =>
                  (FlareDB.readMultimap keyCoder valueCoder windows window kind fuel, after)

end SideInputResolver

/-! Reads of side inputs. -/

def StateTarget.sideInput : StateTarget → Option SideInputKey
  | .userState _ => none
  | .iterableSideInput key _ | .multimapSideInput key _ _ => some key

/-- What a read gets out of the windows of a side input. -/
def SideInputSpec.Gives (spec : SideInputSpec) (windows : EncodedSideInputWindows) (fuel : Nat)
    (data : List UInt8) : StateTarget → Prop
  | .userState _ => False
  | .iterableSideInput key bytes => ∃ elementCoder window,
      spec.materialization = .iterable elementCoder ∧ spec.window bytes = .ok window ∧
        SideInputResolver.iterableOf key windows window = .ok data
  | .multimapSideInput _ bytes kind => ∃ keyCoder valueCoder window,
      spec.materialization = .multimap keyCoder valueCoder ∧ spec.window bytes = .ok window ∧
        readMultimap keyCoder valueCoder windows window kind fuel = some (.ok data)

namespace SideInputResolver

/-- What is cached stays, and what is added are the windows of the side input that
was asked for, as one scan of its table has them. -/
structure Grows (before : SideInputResolver) (scan : TableScan) (asked : Option SideInputKey)
    (after : SideInputResolver) : Prop where
  registry : after.registry = before.registry
  kept : ∀ key windows, before.cache.lookup key = some windows →
    after.cache.lookup key = some windows
  added : ∀ key windows, after.cache.lookup key = some windows →
    before.cache.lookup key = some windows ∨ asked = some key ∧ ∃ spec rows,
      before.registry.lookup key = some spec ∧ scan spec.pcollectionId = .ok rows ∧
        spec.materialization.encode rows = .ok windows

theorem Grows.refl (resolver : SideInputResolver) (scan : TableScan)
    (asked : Option SideInputKey) : Grows resolver scan asked resolver where
  registry := rfl
  kept _ _ hCached := hCached
  added _ _ hCached := .inl hCached

/-- The data that a read of a side input gets out of its cached windows. -/
def Gives (resolver : SideInputResolver) (fuel : Nat) (data : List UInt8) (target : StateTarget) :
    Prop :=
  ∃ key spec windows, target.sideInput = some key ∧ resolver.registry.lookup key = some spec ∧
    resolver.cache.lookup key = some windows ∧ spec.Gives windows fuel data target

theorem Gives.mono {before after : SideInputResolver} {scan : TableScan}
    {asked : Option SideInputKey} (h : before.Grows scan asked after) {fuel : Nat}
    {data : List UInt8} {target : StateTarget} (hGives : before.Gives fuel data target) :
    after.Gives fuel data target := by
  obtain ⟨key, spec, windows, hKey, hSpec, hCached, hData⟩ := hGives
  exact ⟨key, spec, windows, hKey, h.registry ▸ hSpec, h.kept key windows hCached, hData⟩

variable {resolver : SideInputResolver} {key : SideInputKey}

theorem cachedWindows_grows (scan : TableScan) {spec : SideInputSpec}
    (hSpec : resolver.registry.lookup key = some spec) :
    resolver.Grows scan (some key) (resolver.cachedWindows scan key spec).2 ∧
      ∀ windows, (resolver.cachedWindows scan key spec).1 = .ok windows →
        (resolver.cachedWindows scan key spec).2.cache.lookup key = some windows := by
  rw [cachedWindows]
  cases hCached : resolver.cache.lookup key with
  | some windows =>
      refine ⟨.refl resolver scan _, fun found hFound => ?_⟩
      cases hFound
      exact hCached
  | none =>
      dsimp only
      cases hScan : scan spec.pcollectionId with
      | error message => exact ⟨.refl resolver scan _, fun found hFound => by cases hFound⟩
      | ok rows =>
          dsimp only
          cases hEncode : spec.materialization.encode rows with
          | error failure => exact ⟨.refl resolver scan _, fun found hFound => by cases hFound⟩
          | ok windows =>
              refine ⟨⟨rfl, fun other found hFound => ?_, fun other found hFound => ?_⟩, ?_⟩
              · have hOther : other ≠ key := by
                  rintro rfl
                  rw [hCached] at hFound
                  cases hFound
                exact (AList.lookup_insert_ne hOther).trans hFound
              · by_cases hOther : other = key
                · subst hOther
                  cases (AList.lookup_insert resolver.cache).symm.trans hFound
                  exact .inr ⟨rfl, spec, rows, hSpec, hScan, hEncode⟩
                · exact .inl ((AList.lookup_insert_ne hOther).symm.trans hFound)
              · intro found hFound
                cases hFound
                exact AList.lookup_insert resolver.cache

theorem readIterable_spec (resolver : SideInputResolver) (scan : TableScan) (key : SideInputKey)
    (bytes : List UInt8) (fuel : Nat) :
    resolver.Grows scan (some key) (resolver.readIterable scan key bytes).2 ∧
      ∀ data, (resolver.readIterable scan key bytes).1 = .ok data →
        (resolver.readIterable scan key bytes).2.Gives fuel data (.iterableSideInput key bytes) := by
  rw [readIterable]
  cases hSpec : resolver.registry.lookup key with
  | none => exact ⟨.refl resolver scan _, fun data hData => by cases hData⟩
  | some spec =>
      dsimp only
      cases hCoder : spec.materialization with
      | multimap keyCoder valueCoder =>
          exact ⟨.refl resolver scan _, fun data hData => by cases hData⟩
      | iterable elementCoder =>
          dsimp only
          cases hWindow : spec.window bytes with
          | error failure => exact ⟨.refl resolver scan _, fun data hData => by cases hData⟩
          | ok window =>
              obtain ⟨hGrows, hCached⟩ := cachedWindows_grows scan hSpec
              refine ⟨hGrows, fun data hData => ?_⟩
              obtain ⟨windows, hWindows, hFound⟩ := Results.bind_eq_ok hData
              exact ⟨key, spec, windows, rfl, hGrows.registry ▸ hSpec, hCached windows hWindows,
                elementCoder, window, hCoder, hWindow, hFound⟩

theorem readMultimap_spec (resolver : SideInputResolver) (scan : TableScan) (key : SideInputKey)
    (bytes : List UInt8) (kind : MultimapReadKind) (fuel : Nat) :
    resolver.Grows scan (some key) (resolver.readMultimap scan key bytes kind fuel).2 ∧
      ∀ data, (resolver.readMultimap scan key bytes kind fuel).1 = some (.ok data) →
        (resolver.readMultimap scan key bytes kind fuel).2.Gives fuel data
          (.multimapSideInput key bytes kind) := by
  rw [readMultimap]
  cases hSpec : resolver.registry.lookup key with
  | none => exact ⟨.refl resolver scan _, fun data hData => by cases hData⟩
  | some spec =>
      dsimp only
      cases hCoders : spec.materialization with
      | iterable elementCoder => exact ⟨.refl resolver scan _, fun data hData => by cases hData⟩
      | multimap keyCoder valueCoder =>
          dsimp only
          cases hWindow : spec.window bytes with
          | error failure => exact ⟨.refl resolver scan _, fun data hData => by cases hData⟩
          | ok window =>
              dsimp only
              obtain ⟨hGrows, hCached⟩ := cachedWindows_grows scan hSpec
              rcases hRead : resolver.cachedWindows scan key spec with ⟨failure | windows, after⟩
              · rw [hRead] at hGrows
                exact ⟨hGrows, fun data hData => by cases hData⟩
              · rw [hRead] at hGrows hCached
                exact ⟨hGrows, fun data hData => ⟨key, spec, windows, rfl, hGrows.registry ▸ hSpec,
                  hCached windows rfl, keyCoder, valueCoder, window, hCoders, hWindow, hData⟩⟩

end SideInputResolver

/-- The data that a read of a side input is answered with, when its table holds some
rows. -/
def SideInputSpec.ReadsFrom (spec : SideInputSpec) (rows : List WindowedValue) (fuel : Nat)
    (data : List UInt8) : StateTarget → Prop
  | .userState _ => False
  | .iterableSideInput _ bytes => ∃ elementCoder window,
      spec.materialization = .iterable elementCoder ∧ spec.window bytes = .ok window ∧
        data = iterableAt elementCoder window rows
  | .multimapSideInput _ bytes kind => ∃ keyCoder valueCoder windows window,
      spec.materialization = .multimap keyCoder valueCoder ∧
        encodeMultimapWindows keyCoder valueCoder rows = .ok windows ∧
        spec.window bytes = .ok window ∧
        readMultimap keyCoder valueCoder windows window kind fuel = some (.ok data)

theorem SideInputSpec.Gives.readsFrom {spec : SideInputSpec} {windows : EncodedSideInputWindows}
    {fuel : Nat} {data : List UInt8} {target : StateTarget}
    (h : spec.Gives windows fuel data target) {rows : List WindowedValue}
    (hEncode : spec.materialization.encode rows = .ok windows) :
    spec.ReadsFrom rows fuel data target := by
  cases target with
  | userState cell => exact h
  | iterableSideInput key bytes =>
      obtain ⟨elementCoder, window, hCoder, hWindow, hData⟩ := h
      rw [hCoder] at hEncode
      obtain ⟨hOnly, hBytes⟩ := encodeIterableWindows_eq_ok hEncode
      refine ⟨elementCoder, window, hCoder, hWindow, ?_⟩
      rw [← hBytes window, windowBytes]
      rw [SideInputResolver.iterableOf] at hData
      cases hLookup : windows.lookup window with
      | none =>
          rw [hLookup] at hData
          cases hData
          rfl
      | some entry =>
          rw [hLookup] at hData
          cases entry with
          | iterable encoded =>
              cases hData
              rfl
          | multimap keys values => exact absurd hLookup (hOnly window keys values)
  | multimapSideInput key bytes kind =>
      obtain ⟨keyCoder, valueCoder, window, hCoders, hWindow, hData⟩ := h
      rw [hCoders] at hEncode
      exact ⟨keyCoder, valueCoder, windows, window, hCoders, hEncode, hWindow, hData⟩

end FlareDB
