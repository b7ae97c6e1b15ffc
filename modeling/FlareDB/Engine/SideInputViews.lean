import FlareDB.Coders.Framing
import FlareDB.Coders.Swallowing
import FlareDB.Lib.IndexSet
import FlareDB.Lib.KeyedStore

/-! Multimap side inputs. The keyed elements of each window are encoded once,
and the view of all keys with their values is made by decoding them again. -/
namespace FlareDB

open ByteDecoder KeyedStore

/-- How a read of a side input fails: with an error or by unwinding. -/
inductive SideInputFailure where
  | error (message : String)
  | panic
deriving DecidableEq, Repr

abbrev SideInputResult (α : Type) := Except SideInputFailure α

/-- The encoded elements of one window. -/
inductive EncodedSideInputWindow where
  | iterable (encoded : List UInt8)
  | multimap (keys : List UInt8) (values : Store (List UInt8) (List UInt8))

abbrev EncodedSideInputWindows := Store BeamWindow EncodedSideInputWindow

inductive MultimapReadKind where
  | keys
  | values (key : List UInt8)
  | keysValues
deriving DecidableEq, Repr

/-- An element that is encoded as nothing leaves a zero byte behind. -/
def appendEncodedElement (coder : StandardBeamCoders) (value : BeamRecord)
    (encoded : List UInt8) : SideInputResult (List UInt8) :=
  match coder.encode value with
  | none => .error .panic
  | some bytes =>
      if (encoded ++ bytes).length = encoded.length then .ok (encoded ++ bytes ++ [0])
      else .ok (encoded ++ bytes)

section Encoding

variable (keyCoder valueCoder : StandardBeamCoders)

def addToWindow (key : PrimitiveValue) (value : BeamRecord) (grouped : EncodedSideInputWindows)
    (window : BeamWindow) : SideInputResult EncodedSideInputWindows :=
  match (grouped.lookup window).getD (.multimap [] ∅) with
  | .iterable _ =>
      .error (.error "side-input PCollection mixed iterable and multimap values")
  | .multimap keys values => do
      let encodedKey ← appendEncodedElement keyCoder (.primitive key) []
      let encodedValues ← appendEncodedElement valueCoder value
        ((values.lookup encodedKey).getD [])
      pure (grouped.insert window (.multimap
        (if encodedKey ∈ values then keys else keys ++ encodedKey)
        (values.insert encodedKey encodedValues)))

/-- One element joins each of its windows once. -/
def addToWindows (key : PrimitiveValue) (value : BeamRecord) :
    List BeamWindow → List BeamWindow → EncodedSideInputWindows →
      SideInputResult EncodedSideInputWindows
  | _, [], grouped => .ok grouped
  | seenWindows, window :: windows, grouped =>
      if window ∈ seenWindows then addToWindows key value seenWindows windows grouped
      else do
        let grouped ← addToWindow keyCoder valueCoder key value grouped window
        addToWindows key value (window :: seenWindows) windows grouped

def addElement (grouped : EncodedSideInputWindows) (element : WindowedValue) :
    SideInputResult EncodedSideInputWindows :=
  match element.value with
  | .kv key value => addToWindows keyCoder valueCoder key value [] element.windows grouped
  | _ => .error (.error "multimap side input requires KV values, found a different BeamRecord")

def encodeMultimapWindows (values : List WindowedValue) :
    SideInputResult EncodedSideInputWindows :=
  values.foldlM (addElement keyCoder valueCoder) ∅

/-! Decoding the cached bytes again. A loop that is still running when the fuel
is spent has no result. -/

def decodeCachedValues : Nat → List UInt8 → Option (SideInputResult (List BeamRecord))
  | 0, _ => none
  | fuel + 1, values =>
      if values.isEmpty then some (.ok [])
      else match valueCoder.decode values with
        | .ok value rest =>
            (decodeCachedValues fuel rest).map fun decoded => decoded.map (value :: ·)
        | .error reason =>
            some (.error (.error ("failed to decode cached multimap value: " ++ reason.text)))
        | .panic => some (.error .panic)

variable (values : Store (List UInt8) (List UInt8))

/-- A key of the view and the iterable of its values. -/
def encodeKeyValues (fuel : Nat) (key : BeamRecord) : Option (SideInputResult (List UInt8)) :=
  match appendEncodedElement keyCoder key [] with
  | .error failure => some (.error failure)
  | .ok encodedKey =>
      match values.lookup encodedKey with
      | none => some (.error
          (.error "cached multimap key has no corresponding encoded value list"))
      | some encodedValues =>
          (decodeCachedValues valueCoder fuel encodedValues).map fun decoded => do
            let decodedValues ← decoded
            let encoded ← appendEncodedElement keyCoder key []
            appendEncodedElement (.iterable valueCoder) (.iterable decodedValues) encoded

def encodeMultimapKeyValues : Nat → List UInt8 → Option (SideInputResult (List UInt8))
  | 0, _ => none
  | fuel + 1, keys =>
      if keys.isEmpty then some (.ok [])
      else match keyCoder.decode keys with
        | .error reason =>
            some (.error (.error ("failed to decode cached multimap key: " ++ reason.text)))
        | .panic => some (.error .panic)
        | .ok key rest =>
            match encodeKeyValues keyCoder valueCoder values fuel key with
            | none => none
            | some (.error failure) => some (.error failure)
            | some (.ok encoded) =>
                (encodeMultimapKeyValues fuel rest).map fun result => result.map (encoded ++ ·)

/-- A read of the cached windows; a window without elements reads as nothing. -/
def readMultimap (windows : EncodedSideInputWindows) (window : BeamWindow)
    (kind : MultimapReadKind) (fuel : Nat) : Option (SideInputResult (List UInt8)) :=
  match windows.lookup window with
  | some (.multimap keys values) =>
      match kind with
      | .keys => some (.ok keys)
      | .values key => some (.ok ((values.lookup key).getD []))
      | .keysValues => encodeMultimapKeyValues keyCoder valueCoder values fuel keys
  | _ => some (.ok [])

end Encoding

/-! What is cached for a window. -/

/-- The keyed elements of a window, each once. -/
def elementsAt (window : BeamWindow) (values : List WindowedValue) :
    List (PrimitiveValue × BeamRecord) :=
  values.filterMap fun element => match element.value with
    | .kv key value => if window ∈ element.windows then some (key, value) else none
    | _ => none

/-- The distinct keys, by first occurrence. -/
def distinctKeys (elements : List (PrimitiveValue × BeamRecord)) : List PrimitiveValue :=
  IndexSet.extend id [] (elements.map Prod.fst)

/-- The values of one key, in order. -/
def valuesFor (elements : List (PrimitiveValue × BeamRecord)) (key : PrimitiveValue) :
    List BeamRecord :=
  (elements.filter fun element => element.1 = key).map Prod.snd

/-- The bytes an element leaves in a view. -/
def paddedElement (coder : StandardBeamCoders) (value : BeamRecord) : List UInt8 :=
  match (coder.encode value).getD [] with
  | [] => [0]
  | byte :: bytes => byte :: bytes

/-- The coder can write the record. -/
def Writes (coder : StandardBeamCoders) (value : BeamRecord) : Prop :=
  ∃ bytes, coder.encode value = some bytes

theorem paddedElement_ne_nil (coder : StandardBeamCoders) (value : BeamRecord) :
    paddedElement coder value ≠ [] := by
  unfold paddedElement
  split <;> simp

/-- An element with bytes is stored as they are. -/
theorem paddedElement_of_encode {coder : StandardBeamCoders} {value : BeamRecord}
    {bytes : List UInt8} (h : coder.encode value = some bytes) (hSome : bytes ≠ []) :
    paddedElement coder value = bytes := by
  rw [paddedElement, h, Option.getD_some]
  cases bytes with
  | nil => exact absurd rfl hSome
  | cons byte bytes => rfl

/-- An element without bytes is stored as one zero. -/
theorem paddedElement_of_nothing {coder : StandardBeamCoders} {value : BeamRecord}
    (h : coder.encode value = some []) : paddedElement coder value = [0] := by
  rw [paddedElement, h]
  rfl

/-- Appending an element adds its stored bytes. -/
theorem appendEncodedElement_of_encode {coder : StandardBeamCoders} {value : BeamRecord}
    {bytes : List UInt8} (h : coder.encode value = some bytes) (encoded : List UInt8) :
    appendEncodedElement coder value encoded = .ok (encoded ++ paddedElement coder value) := by
  rw [appendEncodedElement, h]
  dsimp only
  cases bytes with
  | nil => rw [paddedElement_of_nothing h, List.append_nil, if_pos rfl]
  | cons byte bytes =>
      rw [paddedElement_of_encode h (List.cons_ne_nil _ _), if_neg (by simp)]

/-! The windows that encoding leaves. -/

/-- The cached bytes of one window: its keys, and the values under each key. -/
abbrev WindowGroup := List UInt8 × Store (List UInt8) (List UInt8)

/-- The cached bytes of a window; a window without elements has none. -/
def windowGroup (grouped : EncodedSideInputWindows) (window : BeamWindow) : WindowGroup :=
  match grouped.lookup window with
  | some (.multimap keys values) => (keys, values)
  | _ => ([], ∅)

def OnlyMultimaps (grouped : EncodedSideInputWindows) : Prop :=
  Forall (fun _ entry => ∃ keys values, entry = .multimap keys values) grouped

section Grouping

variable {keyCoder valueCoder : StandardBeamCoders}

/-- One element joins the group of its window. -/
def groupElement (keyCoder valueCoder : StandardBeamCoders) (group : WindowGroup)
    (element : PrimitiveValue × BeamRecord) : WindowGroup :=
  (if paddedElement keyCoder (.primitive element.1) ∈ group.2 then group.1
    else group.1 ++ paddedElement keyCoder (.primitive element.1),
    group.2.insert (paddedElement keyCoder (.primitive element.1))
      ((group.2.lookup (paddedElement keyCoder (.primitive element.1))).getD [] ++
        paddedElement valueCoder element.2))

def groupElements (keyCoder valueCoder : StandardBeamCoders)
    (elements : List (PrimitiveValue × BeamRecord)) : WindowGroup :=
  elements.foldl (groupElement keyCoder valueCoder) ([], ∅)

/-- Writing one window's group leaves the others. -/
theorem windowGroup_insert (grouped : EncodedSideInputWindows) (window other : BeamWindow)
    (group : WindowGroup) :
    windowGroup (grouped.insert window (.multimap group.1 group.2)) other =
      if other = window then group else windowGroup grouped other := by
  by_cases hSame : other = window
  · rw [if_pos hSame, hSame, windowGroup, AList.lookup_insert]
  · rw [if_neg hSame, windowGroup, AList.lookup_insert_ne hSame]
    rfl

/-- An element that can be written is added to its window's group and to no other. -/
theorem addToWindow_ok {key : PrimitiveValue} {value : BeamRecord}
    (hKey : Writes keyCoder (.primitive key)) (hValue : Writes valueCoder value)
    {grouped : EncodedSideInputWindows} (h : OnlyMultimaps grouped) (window : BeamWindow) :
    ∃ after, addToWindow keyCoder valueCoder key value grouped window = .ok after ∧
      OnlyMultimaps after ∧ ∀ other, windowGroup after other =
        if other = window then
          groupElement keyCoder valueCoder (windowGroup grouped window) (key, value)
        else windowGroup grouped other := by
  obtain ⟨keyBytes, hKeyBytes⟩ := hKey
  obtain ⟨valueBytes, hValueBytes⟩ := hValue
  have hEntry : (grouped.lookup window).getD (.multimap [] ∅) =
      .multimap (windowGroup grouped window).1 (windowGroup grouped window).2 := by
    rw [windowGroup]
    cases hLookup : grouped.lookup window with
    | none => rfl
    | some entry =>
        obtain ⟨keys, values, rfl⟩ := h window entry hLookup
        rfl
  refine ⟨grouped.insert window (.multimap
    (groupElement keyCoder valueCoder (windowGroup grouped window) (key, value)).1
    (groupElement keyCoder valueCoder (windowGroup grouped window) (key, value)).2), ?_, ?_, ?_⟩
  · rw [addToWindow, hEntry]
    dsimp only
    rw [appendEncodedElement_of_encode hKeyBytes, List.nil_append]
    dsimp only [bind, Except.bind]
    rw [appendEncodedElement_of_encode hValueBytes]
    rfl
  · exact h.insert ⟨_, _, rfl⟩
  · exact fun other => windowGroup_insert grouped window other _

/-- An element joins each of its windows once, however often they are listed. -/
theorem addToWindows_ok {key : PrimitiveValue} {value : BeamRecord} {windows : List BeamWindow}
    (hWrites : ∀ window ∈ windows, Writes keyCoder (.primitive key) ∧ Writes valueCoder value)
    (seenWindows : List BeamWindow) {grouped : EncodedSideInputWindows}
    (h : OnlyMultimaps grouped) :
    ∃ after, addToWindows keyCoder valueCoder key value seenWindows windows grouped = .ok after ∧
      OnlyMultimaps after ∧ ∀ other, windowGroup after other =
        if other ∈ windows ∧ other ∉ seenWindows then
          groupElement keyCoder valueCoder (windowGroup grouped other) (key, value)
        else windowGroup grouped other := by
  induction windows generalizing seenWindows grouped with
  | nil => exact ⟨grouped, rfl, h, fun other => by simp⟩
  | cons window windows ih =>
      have hRest : ∀ other ∈ windows, Writes keyCoder (.primitive key) ∧ Writes valueCoder value :=
        fun other hMem => hWrites other (List.mem_cons_of_mem _ hMem)
      rw [addToWindows]
      by_cases hSeen : window ∈ seenWindows
      · rw [if_pos hSeen]
        obtain ⟨after, hAfter, hOnly, hGroups⟩ := ih hRest seenWindows h
        refine ⟨after, hAfter, hOnly, fun other => ?_⟩
        rw [hGroups other]
        by_cases hSame : other = window
        · subst hSame
          rw [if_neg fun hIn => hIn.2 hSeen, if_neg fun hIn => hIn.2 hSeen]
        · simp [hSame]
      · rw [if_neg hSeen]
        obtain ⟨hKey, hValue⟩ := hWrites window List.mem_cons_self
        obtain ⟨middle, hMiddle, hOnlyMiddle, hHere⟩ := addToWindow_ok hKey hValue h window
        obtain ⟨after, hAfter, hOnly, hGroups⟩ := ih hRest (window :: seenWindows) hOnlyMiddle
        refine ⟨after, by rw [hMiddle]; exact hAfter, hOnly, fun other => ?_⟩
        rw [hGroups other, hHere other]
        by_cases hSame : other = window
        · subst hSame
          rw [if_neg (by simp), if_pos rfl, if_pos ⟨List.mem_cons_self, hSeen⟩]
        · simp [hSame]

/-- The elements of the list are keyed, and what goes into a window is written. -/
def Groupable (keyCoder valueCoder : StandardBeamCoders) (values : List WindowedValue) : Prop :=
  ∀ element ∈ values, ∃ key value, element.value = .kv key value ∧
    ∀ window ∈ element.windows, Writes keyCoder (.primitive key) ∧ Writes valueCoder value

/-- The elements at a window are those that lie in it. -/
theorem mem_elementsAt {values : List WindowedValue} {window : BeamWindow}
    {key : PrimitiveValue} {value : BeamRecord} :
    (key, value) ∈ elementsAt window values ↔
      ∃ element ∈ values, element.value = .kv key value ∧ window ∈ element.windows := by
  rw [elementsAt, List.mem_filterMap]
  constructor
  · rintro ⟨element, hMem, hHere⟩
    split at hHere
    next found other hKv =>
      split at hHere
      next hIn =>
        cases hHere
        exact ⟨element, hMem, hKv, hIn⟩
      · cases hHere
    · cases hHere
  · rintro ⟨element, hMem, hKv, hIn⟩
    refine ⟨element, hMem, ?_⟩
    rw [hKv]
    exact if_pos hIn

theorem Groupable.at {values : List WindowedValue} (h : Groupable keyCoder valueCoder values)
    {window : BeamWindow} {key : PrimitiveValue} {value : BeamRecord}
    (hMem : (key, value) ∈ elementsAt window values) :
    Writes keyCoder (.primitive key) ∧ Writes valueCoder value := by
  obtain ⟨element, hElement, hKv, hIn⟩ := mem_elementsAt.mp hMem
  obtain ⟨found, other, hSame, hWrites⟩ := h element hElement
  cases hKv.symm.trans hSame
  exact hWrites window hIn

/-- All elements that can be written are grouped by window. -/
theorem foldlM_addElement_ok {values : List WindowedValue}
    (hWrites : Groupable keyCoder valueCoder values) {grouped : EncodedSideInputWindows}
    (h : OnlyMultimaps grouped) :
    ∃ windows, values.foldlM (addElement keyCoder valueCoder) grouped = .ok windows ∧
      OnlyMultimaps windows ∧ ∀ window, windowGroup windows window =
        (elementsAt window values).foldl (groupElement keyCoder valueCoder)
          (windowGroup grouped window) := by
  induction values generalizing grouped with
  | nil => exact ⟨grouped, rfl, h, fun _ => rfl⟩
  | cons element values ih =>
      obtain ⟨key, value, hKv, hHere⟩ := hWrites element List.mem_cons_self
      obtain ⟨middle, hMiddle, hOnlyMiddle, hJoined⟩ := addToWindows_ok hHere [] h
      obtain ⟨windows, hWindows, hOnly, hGroups⟩ :=
        ih (fun other hMem => hWrites other (List.mem_cons_of_mem _ hMem)) hOnlyMiddle
      have hElement : addElement keyCoder valueCoder grouped element = .ok middle := by
        rw [addElement, hKv]
        exact hMiddle
      refine ⟨windows, ?_, hOnly, fun window => ?_⟩
      · rw [List.foldlM_cons, hElement]
        exact hWindows
      · rw [hGroups window, hJoined window]
        by_cases hIn : window ∈ element.windows
        · simp [elementsAt, hKv, hIn]
        · simp [elementsAt, hKv, hIn]

/-- So the whole side input is, from nothing. -/
theorem encodeMultimapWindows_ok {values : List WindowedValue}
    (h : Groupable keyCoder valueCoder values) :
    ∃ windows, encodeMultimapWindows keyCoder valueCoder values = .ok windows ∧
      OnlyMultimaps windows ∧ ∀ window, windowGroup windows window =
        groupElements keyCoder valueCoder (elementsAt window values) :=
  foldlM_addElement_ok h (forall_empty _)

/-! Reads of the cached windows. -/

variable {windows : EncodedSideInputWindows} {window : BeamWindow}

/-- The keys of a window are read as grouped. -/
theorem readMultimap_keys (fuel : Nat) :
    readMultimap keyCoder valueCoder windows window .keys fuel =
      some (.ok (windowGroup windows window).1) := by
  rw [readMultimap, windowGroup]
  split <;> rfl

/-- So are the values of a key. -/
theorem readMultimap_values (key : List UInt8) (fuel : Nat) :
    readMultimap keyCoder valueCoder windows window (.values key) fuel =
      some (.ok (((windowGroup windows window).2.lookup key).getD [])) := by
  rw [readMultimap, windowGroup]
  split <;> rfl

/-- A read of all keys with their values returns what the loop over the cached
keys returns. -/
theorem readMultimap_keysValues {encoded : List UInt8} :
    (∃ fuel, readMultimap keyCoder valueCoder windows window .keysValues fuel =
      some (.ok encoded)) ↔
    ∃ fuel, encodeMultimapKeyValues keyCoder valueCoder (windowGroup windows window).2 fuel
      (windowGroup windows window).1 = some (.ok encoded) := by
  simp only [readMultimap, windowGroup]
  split
  · exact Iff.rfl
  · constructor
    · rintro ⟨-, hNothing⟩
      exact ⟨1, hNothing⟩
    · rintro ⟨fuel, hNothing⟩
      cases fuel with
      | zero => cases hNothing
      | succ fuel => exact ⟨0, hNothing⟩

/-! The group of a window. -/

theorem groupElements_append (elements : List (PrimitiveValue × BeamRecord))
    (element : PrimitiveValue × BeamRecord) :
    groupElements keyCoder valueCoder (elements ++ [element]) =
      groupElement keyCoder valueCoder (groupElements keyCoder valueCoder elements) element := by
  simp [groupElements]

/-- The values under some bytes are those of the keys that are written so. -/
theorem lookup_groupElements (elements : List (PrimitiveValue × BeamRecord))
    (bytes : List UInt8) :
    (groupElements keyCoder valueCoder elements).2.lookup bytes =
      if bytes ∈ elements.map fun element => paddedElement keyCoder (.primitive element.1) then
        some ((elements.filter fun element =>
          paddedElement keyCoder (.primitive element.1) = bytes).flatMap
            fun element => paddedElement valueCoder element.2)
      else none := by
  induction elements using List.reverseRecOn with
  | nil => rfl
  | append_singleton elements element ih =>
      rw [groupElements_append, groupElement]
      by_cases hSame : bytes = paddedElement keyCoder (.primitive element.1)
      · subst hSame
        have hMem : paddedElement keyCoder (.primitive element.1) ∈ (elements ++ [element]).map
            fun other => paddedElement keyCoder (.primitive other.1) :=
          List.mem_map.mpr ⟨element, by simp, rfl⟩
        have hOld : ((groupElements keyCoder valueCoder elements).2.lookup
            (paddedElement keyCoder (.primitive element.1))).getD [] =
            (elements.filter fun other => paddedElement keyCoder (.primitive other.1) =
              paddedElement keyCoder (.primitive element.1)).flatMap
                fun other => paddedElement valueCoder other.2 := by
          rw [ih]
          split
          · rfl
          next hNew =>
            rw [List.filter_eq_nil_iff.mpr]
            · rfl
            · intro other hOther hKey
              exact hNew (List.mem_map.mpr ⟨other, hOther, of_decide_eq_true hKey⟩)
        rw [AList.lookup_insert, if_pos hMem, hOld, List.filter_append, List.flatMap_append]
        simp
      · have hMem : (bytes ∈ (elements ++ [element]).map
            fun other => paddedElement keyCoder (.primitive other.1)) ↔
            bytes ∈ elements.map fun other => paddedElement keyCoder (.primitive other.1) := by
          rw [List.map_append, List.mem_append, List.map_singleton, List.mem_singleton]
          exact or_iff_left hSame
        have hOther : ¬ paddedElement keyCoder (.primitive element.1) = bytes := Ne.symm hSame
        rw [AList.lookup_insert_ne hSame, ih]
        simp only [hMem, List.filter_append, List.filter_singleton, hOther, decide_false, cond_false,
          List.append_nil]

/-- The keys are listed once for each way a key is written. -/
theorem keys_groupElements (elements : List (PrimitiveValue × BeamRecord)) :
    (groupElements keyCoder valueCoder elements).1 =
      (IndexSet.extend (fun key => paddedElement keyCoder (.primitive key)) []
        (elements.map Prod.fst)).flatMap fun key => paddedElement keyCoder (.primitive key) := by
  induction elements using List.reverseRecOn with
  | nil => rfl
  | append_singleton elements element ih =>
      have hKnown : paddedElement keyCoder (.primitive element.1) ∈
          (groupElements keyCoder valueCoder elements).2 ↔
          paddedElement keyCoder (.primitive element.1) ∈
            (IndexSet.extend (fun key => paddedElement keyCoder (.primitive key)) []
              (elements.map Prod.fst)).map fun key => paddedElement keyCoder (.primitive key) := by
        rw [← AList.lookup_isSome, lookup_groupElements, IndexSet.mem_keys_extend]
        split
        next hMem => simpa using hMem
        next hNew => simpa using hNew
      rw [groupElements_append, groupElement, List.map_append, List.map_singleton,
        IndexSet.extend_append, IndexSet.insert, ih]
      by_cases hOld : paddedElement keyCoder (.primitive element.1) ∈
          (groupElements keyCoder valueCoder elements).2
      · rw [if_pos hOld, if_pos (hKnown.mp hOld)]
      · rw [if_neg hOld, if_neg fun hMem => hOld (hKnown.mpr hMem), List.flatMap_append]
        simp

end Grouping

end FlareDB
