import FlareDB.Transforms.GbkFlush

/-! Merging windows. Interval sessions are merged by the runner; custom windows
are merged by the SDK, whose answer is validated by the windows' text keys and
applied by their binary keys. -/
namespace FlareDB

open KeyedStore

def hexDigit (nibble : UInt8) : Char :=
  if nibble < 10 then Char.ofNat (48 + nibble.toNat) else Char.ofNat (87 + nibble.toNat)

def hexEncode (bytes : List UInt8) : String :=
  String.ofList (bytes.flatMap fun (byte : UInt8) => [hexDigit (byte >>> 4), hexDigit (byte &&& 0x0f)])

/-- The text identity of a window. -/
def BeamWindow.canonicalKey : BeamWindow → String
  | .global => "global"
  | .interval startMillis endMillis =>
      "interval:" ++ toString startMillis.toInt ++ ":" ++ toString endMillis.toInt
  | .opaqueWindow coderId bytes => "opaque:" ++ coderId ++ ":" ++ hexEncode bytes

/-- One merged window of an SDK answer and the windows merged into it. -/
structure MergedWindows where
  merged : BeamWindow
  originals : List BeamWindow

/-- Check the originals of one merge, collecting the consumed keys. -/
def checkOriginals (requested : List String) :
    List BeamWindow → List String → Except String (List String)
  | [], consumed => .ok consumed
  | original :: originals, consumed =>
      let key := original.canonicalKey
      if key ∉ requested then
        .error s!"MergeWindows consumed a window that was not requested: {key}"
      else if key ∈ consumed then
        .error s!"MergeWindows consumed the same original window more than once: {key}"
      else checkOriginals requested originals (key :: consumed)

def checkMerges (requested : List String) :
    List MergedWindows → List String → Except String (List String)
  | [], consumed => .ok consumed
  | merge :: merges, consumed =>
      if merge.originals = [] then
        .error "MergeWindows returned a merge without original windows"
      else do
        let consumed ← checkOriginals requested merge.originals consumed
        checkMerges requested merges consumed

def validateMergeResult (requested : List BeamWindow) (merged : List MergedWindows) :
    Except String Unit := do
  let requested := requested.map BeamWindow.canonicalKey
  let consumed ← checkMerges requested merged []
  let missing := requested.dedup.filter (· ∉ consumed)
  if missing = [] then .ok ()
  else .error ("MergeWindows output omitted original window(s): " ++ ", ".intercalate missing)

/-- One key's elements by window. -/
structure DecodedKeyGroup where
  key : PrimitiveValue
  windows : List (BeamWindow × List PaneElement)

def originalToMerged (mergeResults : List MergedWindows) : Store (List UInt8) BeamWindow :=
  ofPairs (mergeResults.flatMap fun result =>
    result.originals.map fun original => (original.toBinaryKey, result.merged))

/-- Add one original window's elements to the window it was merged into. -/
def addToMerged (groups : Store (List UInt8) (BeamWindow × List PaneElement))
    (mergedWindow : BeamWindow) (values : List PaneElement) :
    Store (List UInt8) (BeamWindow × List PaneElement) :=
  let (window, before) := (groups.lookup mergedWindow.toBinaryKey).getD (mergedWindow, [])
  groups.insert mergedWindow.toBinaryKey (window, before ++ values)

def mergeOriginals (mapping : Store (List UInt8) BeamWindow) :
    List (BeamWindow × List PaneElement) →
    Store (List UInt8) (BeamWindow × List PaneElement) →
      Except String (Store (List UInt8) (BeamWindow × List PaneElement))
  | [], groups => .ok groups
  | (original, values) :: rest, groups =>
      match mapping.lookup original.toBinaryKey with
      | none => .error "MergeWindows did not map an original window"
      | some mergedWindow => mergeOriginals mapping rest (addToMerged groups mergedWindow values)

/-- `order` is the iteration order of the hash map of merged groups. -/
def applyMergeResults (order : List GroupInput → List GroupInput) (key : PrimitiveValue)
    (originalGroups : List (BeamWindow × List PaneElement)) (mergeResults : List MergedWindows) :
    Except String (List GroupInput) := do
  let groups ← mergeOriginals (originalToMerged mergeResults) originalGroups ∅
  pure (order (groups.entries.map fun entry => ⟨key, entry.2.1, entry.2.2⟩))

/-- Interval bounds with their elements. -/
structure IntervalGroup where
  startMillis : Int64
  endMillis : Int64
  values : List PaneElement

def toIntervalGroup : BeamWindow × List PaneElement → Except String IntervalGroup
  | (.interval startMillis endMillis, values) => .ok ⟨startMillis, endMillis, values⟩
  | _ => .error "native interval merge received a non-interval window"

/-- The sweep over intervals sorted by start, with the open session first. -/
def mergeSorted (current : IntervalGroup) : List IntervalGroup → List IntervalGroup
  | [] => [current]
  | next :: rest =>
      if next.startMillis < current.endMillis then
        mergeSorted ⟨current.startMillis, max current.endMillis next.endMillis,
          current.values ++ next.values⟩ rest
      else current :: mergeSorted next rest

/-- The session merge of one key's windows; its only caller passes the groups
of a single key. -/
def mergeIntervalGroups (key : PrimitiveValue) (groups : List (BeamWindow × List PaneElement)) :
    Except String (List GroupInput) := do
  let intervals ← groups.mapM toIntervalGroup
  let sorted := intervals.mergeSort fun a b =>
    decide (a.startMillis < b.startMillis ∨
      a.startMillis = b.startMillis ∧ a.endMillis ≤ b.endMillis)
  match sorted with
  | [] => pure []
  | first :: rest => pure ((mergeSorted first rest).map fun session =>
      ⟨key, .interval session.startMillis session.endMillis, session.values⟩)

def isInterval : BeamWindow → Bool
  | .interval _ _ => true
  | _ => false

def DecodedKeyGroup.inputs (keyGroup : DecodedKeyGroup) : List GroupInput :=
  keyGroup.windows.map fun entry => ⟨keyGroup.key, entry.1, entry.2⟩

/-- The service that asks the SDK to merge each key's windows. -/
abbrev WindowMerger := List (List BeamWindow) → Except String (List (List MergedWindows))

/-- The groups of a batch that need no SDK call. -/
def nativeGroups (needsMerge : Bool) : List DecodedKeyGroup → Except String (List GroupInput)
  | [] => .ok []
  | keyGroup :: rest =>
      if needsMerge && !(keyGroup.windows.all fun entry => isInterval entry.1) then
        nativeGroups needsMerge rest
      else do
        let groups ← if needsMerge then mergeIntervalGroups keyGroup.key keyGroup.windows
          else .ok keyGroup.inputs
        let others ← nativeGroups needsMerge rest
        pure (groups ++ others)

def customMerges (needsMerge : Bool) (keyGroups : List DecodedKeyGroup) : List DecodedKeyGroup :=
  keyGroups.filter fun keyGroup =>
    needsMerge && !(keyGroup.windows.all fun entry => isInterval entry.1)

/-- Apply each key's answer; keys and answers are paired off in order. -/
def applyAnswers (order : List GroupInput → List GroupInput) :
    List DecodedKeyGroup → List (List MergedWindows) → Except String (List GroupInput)
  | keyGroup :: keyGroups, answer :: answers => do
      let groups ← applyMergeResults order keyGroup.key keyGroup.windows answer
      let others ← applyAnswers order keyGroups answers
      pure (groups ++ others)
  | _, _ => .ok []

def mergedGroups (order : List GroupInput → List GroupInput) (windowMerger : Option WindowMerger)
    (inputPcollectionId : String) (keyGroups : List DecodedKeyGroup) :
    Except String (List GroupInput) :=
  if keyGroups.isEmpty then .ok []
  else match windowMerger with
    | none => .error ("GroupByKey input " ++ inputPcollectionId ++
        " uses a merging window function, but the SDK window merger is unavailable")
    | some merger => do
        let answers ← merger (keyGroups.map fun keyGroup => keyGroup.windows.map Prod.fst)
        applyAnswers order keyGroups answers

def processKeyGroupsBatch (inner : InMemoryGbkState) (order : List GroupInput → List GroupInput)
    (keyGroups : List DecodedKeyGroup) (needsMerge : Bool) (windowMerger : Option WindowMerger)
    (inputPcollectionId : String) (spec : TriggerSpec) (inputWatermark processingTime : Int64) :
    Except String (InMemoryGbkState × List WindowedValue) := do
  let native ← nativeGroups needsMerge keyGroups
  let merged ← mergedGroups order windowMerger inputPcollectionId
    (customMerges needsMerge keyGroups)
  pure (inner.applyGroups spec inputWatermark processingTime (native ++ merged))

end FlareDB
