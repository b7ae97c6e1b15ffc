import FlareDB.Coders.Canonical
import FlareDB.Engine.SideInputViews

/-! The keys of a multimap side input and the bytes a worker asks for them with.
The cached keys are written again from what was decoded. -/
namespace FlareDB

open ByteDecoder KeyedStore StandardBeamCoders

/-- An element with the bytes its key was read from. -/
structure WiredElement where
  element : WindowedValue
  wire : List UInt8

section Wires

variable (keyCoder valueCoder : StandardBeamCoders)

/-- The record was read by the coder of its keys and values. -/
def OnWire (wired : WiredElement) : Prop :=
  ∃ key value after rest, wired.element.value = .kv key value ∧
    keyCoder.decodeKey (wired.wire ++ after) = .ok key after ∧ valueCoder.decode after = .ok value rest

/-- The values of a window, each under the bytes of its key. -/
def wiredAt (window : BeamWindow) (wired : List WiredElement) : List (List UInt8 × BeamRecord) :=
  wired.filterMap fun entry => match entry.element.value with
    | .kv _ value => if window ∈ entry.element.windows then some (entry.wire, value) else none
    | _ => none

/-- The windows are encoded, and the values of a window are found under the bytes
of their keys, so that two records share a list exactly where their keys are the
same on the wire. -/
def StoredByWire (wired : List WiredElement) : Prop :=
  ∃ windows, encodeMultimapWindows keyCoder valueCoder (wired.map fun entry => entry.element) =
      .ok windows ∧
    ∀ window bytes,
      (bytes ∈ (wiredAt window wired).map Prod.fst →
        (windowGroup windows window).2.lookup bytes =
          some (((wiredAt window wired).filter fun entry => entry.1 = bytes).flatMap
            fun entry => paddedElement valueCoder entry.2)) ∧
      (bytes ∉ (wiredAt window wired).map Prod.fst →
        (windowGroup windows window).2.lookup bytes = none)

/-- The key is a scalar whose bytes are those its coder writes, and there are some. -/
def KeyKept (wire : List UInt8) : Prop :=
  keyCoder.isPrimitive = true ∧ Canonical keyCoder wire ∧ wire ≠ []

/-- Every list in the value can declare its length. -/
def ValueFits (record : BeamRecord) : Prop :=
  ∀ key value, record = .kv key value → valueCoder.LengthsFit value

def KeysKept (wired : List WiredElement) : Prop :=
  ∀ entry ∈ wired, entry.element.windows ≠ [] →
    KeyKept keyCoder entry.wire ∧ ValueFits valueCoder entry.element.value

end Wires

section Keys

variable {keyCoder valueCoder : StandardBeamCoders}

/-! What an encoded list of windows says of its elements. -/

theorem writes_of_append {coder : StandardBeamCoders} {value : BeamRecord}
    {encoded after : List UInt8} (h : appendEncodedElement coder value encoded = .ok after) :
    Writes coder value := by
  rw [appendEncodedElement] at h
  split at h
  · cases h
  · next bytes hBytes => exact ⟨bytes, hBytes⟩

theorem writes_of_addToWindow {key : PrimitiveValue} {value : BeamRecord}
    {grouped after : EncodedSideInputWindows} {window : BeamWindow}
    (h : addToWindow keyCoder valueCoder key value grouped window = .ok after) :
    Writes keyCoder (.primitive key) ∧ Writes valueCoder value := by
  rw [addToWindow] at h
  split at h
  · cases h
  · obtain ⟨encodedKey, hKey, hRest⟩ := Results.bind_eq_ok h
    obtain ⟨encodedValues, hValues, -⟩ := Results.bind_eq_ok hRest
    exact ⟨writes_of_append hKey, writes_of_append hValues⟩

theorem writes_of_addToWindows {key : PrimitiveValue} {value : BeamRecord}
    {windows seenWindows : List BeamWindow} {grouped after : EncodedSideInputWindows}
    (h : addToWindows keyCoder valueCoder key value seenWindows windows grouped = .ok after)
    {window : BeamWindow} (hMem : window ∈ windows) (hNew : window ∉ seenWindows) :
    Writes keyCoder (.primitive key) ∧ Writes valueCoder value := by
  induction windows generalizing grouped with
  | nil => cases hMem
  | cons first windows ih =>
      rw [addToWindows] at h
      split at h
      next hSeen =>
        rcases List.mem_cons.mp hMem with rfl | hOther
        · exact absurd hSeen hNew
        · exact ih h hOther
      next hUnseen =>
        obtain ⟨middle, hMiddle, -⟩ := Results.bind_eq_ok h
        exact writes_of_addToWindow hMiddle

/-- What was encoded could be written. -/
theorem groupable_of_encoded {values : List WindowedValue} {grouped windows : EncodedSideInputWindows}
    (h : values.foldlM (addElement keyCoder valueCoder) grouped = .ok windows) :
    Groupable keyCoder valueCoder values := by
  induction values generalizing grouped with
  | nil => exact List.forall_mem_nil _
  | cons element values ih =>
      rw [List.foldlM_cons] at h
      obtain ⟨middle, hMiddle, hRest⟩ := Results.bind_eq_ok h
      refine List.forall_mem_cons.mpr ⟨?_, ih hRest⟩
      rw [addElement] at hMiddle
      split at hMiddle
      next key value hKv =>
        exact ⟨key, value, hKv, fun window hMem =>
          writes_of_addToWindows hMiddle hMem List.not_mem_nil⟩
      · cases hMiddle

/-! One record. -/

theorem decodeKey_scalar {bytes after : List UInt8} {key : PrimitiveValue}
    (hPrimitive : keyCoder.isPrimitive = true) (h : keyCoder.decodeKey bytes = .ok key after) :
    keyCoder.decodeNested bytes = .ok (.primitive key) after := by
  rw [decodeKey, decodeKeyWith, if_pos hPrimitive] at h
  exact decodePrimitiveWith_eq_ok h

/-- A composite key is not written as a scalar. -/
theorem not_writes_composite : ∀ (coder : StandardBeamCoders), coder.isPrimitive = false →
    ∀ raw, ¬ Writes coder (.primitive (.bytes raw))
  | .nullable valueCoder, h, raw, ⟨written, hWritten⟩ => by
      have hPresent : BeamRecord.primitive (.bytes raw) ≠ .primitive .void := fun hSame => by
        cases hSame
      rw [encode_nullable hPresent] at hWritten
      obtain ⟨inner, hInner, -⟩ := Option.map_eq_some_iff.mp hWritten
      exact not_writes_composite valueCoder h raw ⟨inner, hInner⟩
  | .iterable _, _, _, ⟨_, h⟩ | .tuple _, _, _, ⟨_, h⟩ | .kv _ _, _, _, ⟨_, h⟩
  | .gbk _ _, _, _, ⟨_, h⟩ => by
      rw [encode_primitive] at h
      cases h
  | .stringUtf8, h, _, _ | .bytes, h, _, _ | .javaOpaque, h, _, _ | .varInt, h, _, _
  | .varInt32, h, _, _ | .bool, h, _, _ | .double, h, _, _ | .void, h, _, _
  | .lengthPrefix, h, _, _ | .pickle, h, _, _ => by cases h

theorem isPrimitive_of_writes {bytes after : List UInt8} {key : PrimitiveValue}
    (h : keyCoder.decodeKey bytes = .ok key after) (hWrites : Writes keyCoder (.primitive key)) :
    keyCoder.isPrimitive = true := by
  by_contra hComposite
  have hCases := yieldsKey_cases ⟨bytes, after, h⟩
  rw [if_neg hComposite] at hCases
  obtain ⟨record, raw, rfl, -⟩ := hCases
  exact not_writes_composite keyCoder (Bool.not_eq_true _ ▸ hComposite) raw hWrites

/-- A key that is kept is cached under its own bytes. -/
theorem padded_of_kept {wire after : List UInt8} {key : PrimitiveValue}
    (hKept : KeyKept keyCoder wire) (h : keyCoder.decodeKey (wire ++ after) = .ok key after) :
    Writes keyCoder (.primitive key) ∧ paddedElement keyCoder (.primitive key) = wire := by
  obtain ⟨hPrimitive, hCanonical, hSome⟩ := hKept
  have hEncode := encode_of_canonical keyCoder key wire after hCanonical
    (decodeKey_scalar hPrimitive h)
  exact ⟨⟨wire, hEncode⟩, paddedElement_of_encode hEncode hSome⟩

/-- The bytes of a key that are cached for some key are kept. -/
theorem kept_of_padded {wire after : List UInt8} {key other : PrimitiveValue}
    (hPrimitive : keyCoder.isPrimitive = true)
    (h : keyCoder.decodeKey (wire ++ after) = .ok key after)
    (hOther : Writes keyCoder (.primitive other))
    (hSame : wire = paddedElement keyCoder (.primitive other)) : KeyKept keyCoder wire := by
  obtain ⟨bytes, hBytes⟩ := hOther
  refine ⟨hPrimitive, ?_, fun hNothing => paddedElement_ne_nil _ _ (hSame.symm.trans hNothing)⟩
  cases bytes with
  | cons byte bytes =>
      rw [paddedElement_of_encode hBytes (List.cons_ne_nil _ _)] at hSame
      rw [hSame]
      exact canonical_of_encode keyCoder other _ hBytes
  | nil =>
      -- Only a coder that writes nothing pads, and it has read nothing either.
      have hCanonical := canonical_of_encode keyCoder other [] hBytes
      rw [paddedElement_of_nothing hBytes] at hSame
      rcases of_canonical_nil hCanonical with rfl | rfl | rfl
      · have hNested := decodeKey_scalar hPrimitive h
        rw [hSame] at hNested
        have hLength := congrArg List.length (Outcome.ok.inj hNested).2
        simp at hLength
      · trivial
      · trivial

/-! All records. -/

variable {wired : List WiredElement}

theorem mem_wiredAt {window : BeamWindow} {wire : List UInt8} {value : BeamRecord} :
    (wire, value) ∈ wiredAt window wired ↔ ∃ entry ∈ wired, ∃ key,
      entry.element.value = .kv key value ∧ window ∈ entry.element.windows ∧ entry.wire = wire := by
  rw [wiredAt, List.mem_filterMap]
  refine exists_congr fun entry => and_congr_right fun _ => ?_
  cases entry.element.value with
  | kv key found =>
      by_cases hIn : window ∈ entry.element.windows
      · simp [hIn, and_comm]
      · simp [hIn]
  | primitive _ => simp
  | iterable _ => simp
  | gbk _ _ => simp
  | tuple _ => simp

/-- Where the keys are kept, the elements of a window are cached under their own
bytes. -/
theorem wiredAt_eq (hWired : ∀ entry ∈ wired, OnWire keyCoder valueCoder entry)
    (h : KeysKept keyCoder valueCoder wired) (window : BeamWindow) :
    wiredAt window wired = (elementsAt window (wired.map fun entry => entry.element)).map
      fun element => (paddedElement keyCoder (.primitive element.1), element.2) := by
  induction wired with
  | nil => rfl
  | cons entry wired ih =>
      obtain ⟨hEntry, hRest⟩ := List.forall_mem_cons.mp hWired
      obtain ⟨hHere, hOthers⟩ := List.forall_mem_cons.mp h
      have hTail := ih hRest hOthers
      obtain ⟨key, value, after, rest, hKv, hKey, -⟩ := hEntry
      rw [wiredAt, List.map_cons, elementsAt, List.filterMap_cons, List.filterMap_cons, hKv]
      by_cases hIn : window ∈ entry.element.windows
      · have hPadded := (padded_of_kept (hHere (List.ne_nil_of_mem hIn)).1 hKey).2
        simp only [if_pos hIn, List.map_cons, hPadded]
        exact congrArg _ hTail
      · simp only [if_neg hIn]
        exact hTail

theorem storedByWire_of_kept (hWired : ∀ entry ∈ wired, OnWire keyCoder valueCoder entry)
    (h : KeysKept keyCoder valueCoder wired) : StoredByWire keyCoder valueCoder wired := by
  have hGroupable : Groupable keyCoder valueCoder (wired.map fun entry => entry.element) := by
    refine List.forall_mem_map.mpr fun entry hMem => ?_
    obtain ⟨key, value, after, rest, hKv, hKey, hValue⟩ := hWired entry hMem
    refine ⟨key, value, hKv, fun window hIn => ?_⟩
    obtain ⟨hKept, hFits⟩ := h entry hMem (List.ne_nil_of_mem hIn)
    exact ⟨(padded_of_kept hKept hKey).1,
      (encodes_iff_lengthsFit valueCoder value ⟨after, rest, hValue⟩).mpr (hFits key value hKv)⟩
  obtain ⟨windows, hWindows, -, hGroups⟩ := encodeMultimapWindows_ok hGroupable
  refine ⟨windows, hWindows, fun window bytes => ?_⟩
  rw [hGroups, lookup_groupElements, wiredAt_eq hWired h, List.map_map, List.filter_map,
    List.flatMap_map]
  exact ⟨fun hMem => if_pos hMem, fun hMem => if_neg hMem⟩

theorem kept_of_storedByWire (hWired : ∀ entry ∈ wired, OnWire keyCoder valueCoder entry)
    (h : StoredByWire keyCoder valueCoder wired) : KeysKept keyCoder valueCoder wired := by
  obtain ⟨found, hFound, hLookup⟩ := h
  have hGroupable := groupable_of_encoded hFound
  obtain ⟨windows, hWindows, -, hGroups⟩ := encodeMultimapWindows_ok hGroupable
  cases hFound.symm.trans hWindows
  intro entry hMem hSome
  obtain ⟨window, hIn⟩ := List.exists_mem_of_ne_nil _ hSome
  obtain ⟨key, value, after, rest, hKv, hKey, hValue⟩ := hWired entry hMem
  obtain ⟨same, other, hSame, hWrites⟩ := hGroupable entry.element (List.mem_map_of_mem hMem)
  cases hKv.symm.trans hSame
  obtain ⟨hKeyWrites, hValueWrites⟩ := hWrites window hIn
  constructor
  · have hMine : entry.wire ∈ (wiredAt window wired).map Prod.fst :=
      List.mem_map.mpr ⟨(entry.wire, value), mem_wiredAt.mpr ⟨entry, hMem, key, hKv, hIn, rfl⟩, rfl⟩
    -- The list under these bytes is that of some key.
    have hHere := (hLookup window entry.wire).1 hMine
    rw [hGroups, lookup_groupElements] at hHere
    split at hHere
    next hCached =>
      obtain ⟨⟨cached, element⟩, hElement, hBytes⟩ := List.mem_map.mp hCached
      exact kept_of_padded (isPrimitive_of_writes hKey hKeyWrites) hKey
        (hGroupable.at hElement).1 hBytes.symm
    · cases hHere
  · intro first second hPair
    cases hKv.symm.trans hPair
    exact (encodes_iff_lengthsFit valueCoder value ⟨after, rest, hValue⟩).mp hValueWrites

/-- Every key is found under its bytes on the wire exactly where all keys are kept
and every value can be written. -/
theorem storedByWire_iff (hWired : ∀ entry ∈ wired, OnWire keyCoder valueCoder entry) :
    StoredByWire keyCoder valueCoder wired ↔ KeysKept keyCoder valueCoder wired :=
  ⟨kept_of_storedByWire hWired, storedByWire_of_kept hWired⟩

/-- A null and a number as keys of a nullable coder. -/
theorem storedByWire_nullable :
    StoredByWire (.nullable .varInt) .bool
      [⟨⟨.kv .void (.primitive (.bool true)), 0, [.global], .noFiring⟩, [0]⟩,
        ⟨⟨.kv (.int64 5) (.primitive (.bool false)), 0, [.global], .noFiring⟩, [1, 5]⟩] := by
  refine (storedByWire_iff ?_).mpr ?_
  · simp only [List.forall_mem_cons]
    exact ⟨⟨_, _, [1], [], rfl, by decide, rfl⟩, ⟨_, _, [0], [], rfl, by decide, rfl⟩,
      List.forall_mem_nil _⟩
  · intro entry hMem _
    rcases List.mem_cons.mp hMem with rfl | hMem
    · refine ⟨⟨rfl, .inl rfl, by decide⟩, fun key value hKv => ?_⟩
      cases hKv
      trivial
    · rw [List.mem_singleton.mp hMem]
      refine ⟨⟨rfl, .inr ⟨[5], rfl, ⟨5, by decide⟩, id⟩, by decide⟩, fun key value hKv => ?_⟩
      cases hKv
      trivial

/-- A composite key unwinds, a null key is kept under a byte that is not its own,
and so is a key whose bytes its coder does not write. -/
theorem not_storedByWire :
    (OnWire (.kv .varInt .bool) .bool
        ⟨⟨.kv (.bytes [5, 1]) (.primitive (.bool true)), 0, [.global], .noFiring⟩, [5, 1]⟩ ∧
      encodeMultimapWindows (.kv .varInt .bool) .bool
        [⟨.kv (.bytes [5, 1]) (.primitive (.bool true)), 0, [.global], .noFiring⟩] =
          .error .panic) ∧
    (OnWire .void .bool
        ⟨⟨.kv .void (.primitive (.bool true)), 0, [.global], .noFiring⟩, []⟩ ∧
      ¬ StoredByWire .void .bool
        [⟨⟨.kv .void (.primitive (.bool true)), 0, [.global], .noFiring⟩, []⟩]) ∧
    OnWire .bool .bool
        ⟨⟨.kv (.bool true) (.primitive (.bool true)), 0, [.global], .noFiring⟩, [7]⟩ ∧
      ¬ StoredByWire .bool .bool
        [⟨⟨.kv (.bool true) (.primitive (.bool true)), 0, [.global], .noFiring⟩, [7]⟩] := by
  have hVoid : OnWire .void .bool
      ⟨⟨.kv .void (.primitive (.bool true)), 0, [.global], .noFiring⟩, []⟩ :=
    ⟨_, _, [1], [], rfl, rfl, rfl⟩
  have hSeven : OnWire .bool .bool
      ⟨⟨.kv (.bool true) (.primitive (.bool true)), 0, [.global], .noFiring⟩, [7]⟩ :=
    ⟨_, _, [1], [], rfl, by decide, rfl⟩
  refine ⟨⟨⟨_, _, [1], [], rfl, by decide, rfl⟩, rfl⟩, ⟨hVoid, fun h => ?_⟩, hSeven, fun h => ?_⟩
  · have hKept := kept_of_storedByWire (List.forall_mem_singleton.mpr hVoid) h
    exact (hKept _ List.mem_cons_self (List.cons_ne_nil _ _)).1.2.2 rfl
  · have hKept := kept_of_storedByWire (List.forall_mem_singleton.mpr hSeven) h
    rcases (hKept _ List.mem_cons_self (List.cons_ne_nil _ _)).1.2.1 with hZero | hOne
    · exact absurd hZero (by decide)
    · exact absurd hOne (by decide)

end Keys

end FlareDB
