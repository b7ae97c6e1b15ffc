import Mathlib.Data.List.Lex
import FlareDB.Transforms.GbkMergeFlush

/-! The sorted input of a GroupByKey. Rows are sorted by the bytes of their key
and then of their window, so the decoder meets every key once and every window
of a key once, and only has to compare a row with the one before it. -/
namespace FlareDB

/-- One row of the flattened input: an element in one of its windows. -/
structure GbkRow where
  key : PrimitiveValue
  window : BeamWindow
  element : PaneElement

namespace GbkRow

/-- Bytes compare as unsigned numbers from the left. -/
def keyOrder (row : GbkRow) : List Nat :=
  (encodedPrimitiveSortKey row.key).map UInt8.toNat

def windowOrder (row : GbkRow) : List Nat :=
  row.window.toBinaryKey.map UInt8.toNat

def atMost (a b : GbkRow) : Bool :=
  decide (a.keyOrder < b.keyOrder ∨ a.keyOrder = b.keyOrder ∧ a.windowOrder ≤ b.windowOrder)

end GbkRow

/-- The key group being collected. -/
structure InProgressKeyGroup where
  encodedKey : List UInt8
  key : PrimitiveValue
  windows : List (BeamWindow × List PaneElement)

def InProgressKeyGroup.finished (current : InProgressKeyGroup) : DecodedKeyGroup where
  key := current.key
  windows := current.windows

/-- Add an element to the last window, or open a new one. -/
def pushElement (windows : List (BeamWindow × List PaneElement)) (window : BeamWindow)
    (element : PaneElement) : List (BeamWindow × List PaneElement) :=
  match windows.getLast? with
  | some (currentWindow, values) =>
      if currentWindow.toBinaryKey = window.toBinaryKey then
        windows.dropLast ++ [(currentWindow, values ++ [element])]
      else windows ++ [(window, [element])]
  | none => windows ++ [(window, [element])]

structure SortedGroupDecoder where
  current : Option InProgressKeyGroup
  completed : List DecodedKeyGroup

namespace SortedGroupDecoder

def pushRow (decoder : SortedGroupDecoder) (row : GbkRow) : SortedGroupDecoder :=
  let encodedKey := encodedPrimitiveSortKey row.key
  let opened : InProgressKeyGroup :=
    ⟨encodedKey, row.key, pushElement [] row.window row.element⟩
  match decoder.current with
  | none => ⟨some opened, decoder.completed⟩
  | some current =>
      if current.encodedKey ≠ encodedKey then
        ⟨some opened, decoder.completed ++ [current.finished]⟩
      else
        ⟨some { current with windows := pushElement current.windows row.window row.element },
          decoder.completed⟩

def finish (decoder : SortedGroupDecoder) : List DecodedKeyGroup :=
  decoder.completed ++ decoder.current.toList.map InProgressKeyGroup.finished

end SortedGroupDecoder

/-- The key groups of a run's rows. -/
def decodeSorted (rows : List GbkRow) : List DecodedKeyGroup :=
  ((rows.mergeSort GbkRow.atMost).foldl SortedGroupDecoder.pushRow ⟨none, []⟩).finish

def DecodedKeyGroup.rows (keyGroup : DecodedKeyGroup) : List GbkRow :=
  keyGroup.windows.flatMap fun entry =>
    entry.2.map fun element => ⟨keyGroup.key, entry.1, element⟩

/-- Key groups that hold some rows, each key and each window of a key once. -/
structure DecodesTo (rows : List GbkRow) (keyGroups : List DecodedKeyGroup) : Prop where
  keys : (keyGroups.map DecodedKeyGroup.key).Nodup
  windows : ∀ keyGroup ∈ keyGroups, (keyGroup.windows.map Prod.fst).Nodup
  elements : ∀ keyGroup ∈ keyGroups, ∀ entry ∈ keyGroup.windows, entry.2 ≠ []
  rows : (keyGroups.flatMap DecodedKeyGroup.rows).Perm rows

section Order

theorem keyOrder_injective {a b : GbkRow} (h : a.keyOrder = b.keyOrder) : a.key = b.key :=
  encodedPrimitiveSortKey_injective (List.map_injective_iff.mpr
    (fun _ _ hByte => UInt8.toNat_inj.mp hByte) h)

theorem windowOrder_injective {a b : GbkRow} (ha : a.window.CoderIdFits)
    (hb : b.window.CoderIdFits) (h : a.windowOrder = b.windowOrder) : a.window = b.window :=
  BeamWindow.toBinaryKey_injective ha hb (List.map_injective_iff.mpr
    (fun _ _ hByte => UInt8.toNat_inj.mp hByte) h)

theorem mergeSort_sorted (rows : List GbkRow) :
    (rows.mergeSort GbkRow.atMost).Pairwise fun a b => a.atMost b = true := by
  apply List.pairwise_mergeSort
  · intro a b c hab hbc
    simp only [GbkRow.atMost, decide_eq_true_eq] at *
    rcases hab with hLess | ⟨hSame, hWindow⟩
    · rcases hbc with hLess' | ⟨hSame', _⟩
      · exact .inl (lt_trans hLess hLess')
      · exact .inl (hSame' ▸ hLess)
    · rcases hbc with hLess' | ⟨hSame', hWindow'⟩
      · exact .inl (hSame ▸ hLess')
      · exact .inr ⟨hSame.trans hSame', le_trans hWindow hWindow'⟩
  · intro a b
    simp only [GbkRow.atMost, Bool.or_eq_true, decide_eq_true_eq]
    rcases lt_trichotomy a.keyOrder b.keyOrder with hLess | hSame | hMore
    · exact .inl (.inl hLess)
    · rcases le_total a.windowOrder b.windowOrder with hWindow | hWindow
      · exact .inl (.inr ⟨hSame, hWindow⟩)
      · exact .inr (.inr ⟨hSame.symm, hWindow⟩)
    · exact .inr (.inl hMore)

end Order

/-- A row between two of one key has that key. -/
theorem between_key {first middle last : GbkRow} (hFirst : first.atMost middle = true)
    (hLast : middle.atMost last = true) (hKey : first.key = last.key) :
    middle.key = last.key := by
  have hOrder : first.keyOrder = last.keyOrder := by rw [GbkRow.keyOrder, GbkRow.keyOrder, hKey]
  simp only [GbkRow.atMost, decide_eq_true_eq] at hFirst hLast
  apply keyOrder_injective
  rcases hFirst with hLess | ⟨hSame, _⟩
  · rcases hLast with hLess' | ⟨hSame', _⟩
    · exact absurd (lt_trans hLess hLess') (by rw [hOrder]; exact lt_irrefl _)
    · exact hSame'
  · exact hSame.symm.trans hOrder

/-- A row between two of one key and window has that window. -/
theorem between_window {first middle last : GbkRow} (hFirst : first.atMost middle = true)
    (hLast : middle.atMost last = true) (hKey : first.key = last.key)
    (hWindow : first.window = last.window) (hFits : middle.window.CoderIdFits)
    (hLastFits : last.window.CoderIdFits) : middle.window = last.window := by
  have hMiddle := between_key hFirst hLast hKey
  have hOrder : first.windowOrder = last.windowOrder := by
    rw [GbkRow.windowOrder, GbkRow.windowOrder, hWindow]
  have hSame : first.keyOrder = middle.keyOrder := by
    rw [GbkRow.keyOrder, GbkRow.keyOrder, hKey, hMiddle]
  have hSame' : middle.keyOrder = last.keyOrder := by
    rw [GbkRow.keyOrder, GbkRow.keyOrder, hMiddle]
  simp only [GbkRow.atMost, decide_eq_true_eq, hSame, hSame', lt_irrefl, false_or, true_and]
    at hFirst hLast
  exact windowOrder_injective hFits hLastFits (le_antisymm hLast (hOrder ▸ hFirst))

/-- Key groups under distinct keys and windows, none of them empty. -/
structure Distinct (keyGroups : List DecodedKeyGroup) : Prop where
  keys : (keyGroups.map DecodedKeyGroup.key).Nodup
  windows : ∀ keyGroup ∈ keyGroups, (keyGroup.windows.map Prod.fst).Nodup
  elements : ∀ keyGroup ∈ keyGroups, ∀ entry ∈ keyGroup.windows, entry.2 ≠ []
  nonempty : ∀ keyGroup ∈ keyGroups, keyGroup.windows ≠ []

theorem DecodedKeyGroup.mem_rows {keyGroup : DecodedKeyGroup}
    {entry : BeamWindow × List PaneElement} (hEntry : entry ∈ keyGroup.windows)
    (hElements : entry.2 ≠ []) :
    ∃ row ∈ keyGroup.rows, row.key = keyGroup.key ∧ row.window = entry.1 := by
  obtain ⟨element, hElement⟩ := List.exists_mem_of_ne_nil entry.2 hElements
  exact ⟨⟨keyGroup.key, entry.1, element⟩,
    List.mem_flatMap.mpr ⟨entry, hEntry, List.mem_map_of_mem hElement⟩, rfl, rfl⟩

/-- The decoder after some rows: its key groups hold those rows in order, and
the last row lies in the last window of the key being collected. -/
structure Decoding (done : List GbkRow) (decoder : SortedGroupDecoder) : Prop where
  rows : decoder.finish.flatMap DecodedKeyGroup.rows = done
  distinct : Distinct decoder.finish
  last : done = [] ∧ decoder = ⟨none, []⟩ ∨ ∃ before row current front values,
    done = before ++ [row] ∧ decoder.current = some current ∧
      current.encodedKey = encodedPrimitiveSortKey current.key ∧ current.key = row.key ∧
      current.windows = front ++ [(row.window, values)]

namespace Decoding

variable {done : List GbkRow} {decoder : SortedGroupDecoder}

theorem start : Decoding [] ⟨none, []⟩ where
  rows := rfl
  distinct := ⟨List.nodup_nil, by simp [SortedGroupDecoder.finish],
    by simp [SortedGroupDecoder.finish], by simp [SortedGroupDecoder.finish]⟩
  last := .inl ⟨rfl, rfl⟩

theorem exists_row (h : Decoding done decoder) {keyGroup : DecodedKeyGroup}
    (hGroup : keyGroup ∈ decoder.finish) {entry : BeamWindow × List PaneElement}
    (hEntry : entry ∈ keyGroup.windows) :
    ∃ row ∈ done, row.key = keyGroup.key ∧ row.window = entry.1 := by
  obtain ⟨row, hRow, hSame⟩ := DecodedKeyGroup.mem_rows hEntry
    (h.distinct.elements keyGroup hGroup entry hEntry)
  refine ⟨row, ?_, hSame⟩
  rw [← h.rows]
  exact List.mem_flatMap.mpr ⟨keyGroup, hGroup, hRow⟩

theorem exists_key (h : Decoding done decoder) {keyGroup : DecodedKeyGroup}
    (hGroup : keyGroup ∈ decoder.finish) : ∃ row ∈ done, row.key = keyGroup.key := by
  obtain ⟨entry, hEntry⟩ := List.exists_mem_of_ne_nil _ (h.distinct.nonempty keyGroup hGroup)
  obtain ⟨row, hRow, hKey, _⟩ := h.exists_row hGroup hEntry
  exact ⟨row, hRow, hKey⟩

/-- A row of a key not met before opens a key group. -/
theorem opens (h : Decoding done decoder) {row : GbkRow}
    (hNew : ∀ keyGroup ∈ decoder.finish, keyGroup.key ≠ row.key)
    (hFinish : (decoder.pushRow row).finish =
      decoder.finish ++ [⟨row.key, [(row.window, [row.element])]⟩])
    (hCurrent : (decoder.pushRow row).current = some ⟨encodedPrimitiveSortKey row.key, row.key,
      [(row.window, [row.element])]⟩) :
    Decoding (done ++ [row]) (decoder.pushRow row) where
  rows := by
    rw [hFinish, List.flatMap_append, h.rows]
    rfl
  distinct := by
    rw [hFinish]
    refine ⟨?_, ?_, ?_, ?_⟩
    · rw [List.map_append, List.nodup_append]
      refine ⟨h.distinct.keys, by simp, ?_⟩
      intro key hKey other hOther
      obtain ⟨keyGroup, hGroup, rfl⟩ := List.mem_map.mp hKey
      rw [List.mem_singleton.mp hOther]
      exact hNew keyGroup hGroup
    · intro keyGroup hGroup
      rcases List.mem_append.mp hGroup with hOld | hLast
      · exact h.distinct.windows keyGroup hOld
      · rw [List.mem_singleton.mp hLast]
        simp
    · intro keyGroup hGroup
      rcases List.mem_append.mp hGroup with hOld | hLast
      · exact h.distinct.elements keyGroup hOld
      · rw [List.mem_singleton.mp hLast]
        simp
    · intro keyGroup hGroup
      rcases List.mem_append.mp hGroup with hOld | hLast
      · exact h.distinct.nonempty keyGroup hOld
      · rw [List.mem_singleton.mp hLast]
        simp
  last := .inr ⟨done, row, _, [], [row.element], rfl, hCurrent, rfl, rfl, rfl⟩

/-- A row of the key being collected replaces its windows. -/
theorem extends_ (h : Decoding done decoder) {row : GbkRow} {current : InProgressKeyGroup}
    (hCurrent : decoder.current = some current) (hKey : current.key = row.key)
    (hEncoded : current.encodedKey = encodedPrimitiveSortKey current.key)
    {front : List (BeamWindow × List PaneElement)} {values : List PaneElement}
    (hPushed : pushElement current.windows row.window row.element =
      front ++ [(row.window, values)])
    (hRows : DecodedKeyGroup.rows ⟨current.key, front ++ [(row.window, values)]⟩ =
      current.finished.rows ++ [row])
    (hWindows : ((front ++ [(row.window, values)]).map Prod.fst).Nodup)
    (hElements : ∀ entry ∈ front ++ [(row.window, values)], entry.2 ≠ []) :
    Decoding (done ++ [row]) (decoder.pushRow row) := by
  have hSameKey : ¬ current.encodedKey ≠ encodedPrimitiveSortKey row.key := by
    rw [hEncoded, hKey]
    simp
  have hPush : decoder.pushRow row =
      ⟨some { current with windows := front ++ [(row.window, values)] }, decoder.completed⟩ := by
    rw [SortedGroupDecoder.pushRow, hCurrent]
    dsimp only
    rw [if_neg hSameKey, hPushed]
  have hOld : decoder.finish = decoder.completed ++ [current.finished] := by
    rw [SortedGroupDecoder.finish, hCurrent]
    rfl
  have hNew : (decoder.pushRow row).finish =
      decoder.completed ++ [⟨current.key, front ++ [(row.window, values)]⟩] := by
    rw [hPush]
    rfl
  have hDistinct := h.distinct
  have hDone := h.rows
  rw [hOld] at hDistinct hDone
  have hBefore : ∀ keyGroup ∈ decoder.completed,
      keyGroup ∈ decoder.completed ++ [current.finished] :=
    fun keyGroup hGroup => List.mem_append_left _ hGroup
  refine ⟨?_, ⟨?_, ?_, ?_, ?_⟩, ?_⟩
  · rw [hNew, List.flatMap_append, List.flatMap_singleton, hRows, ← hDone, List.flatMap_append,
      List.flatMap_singleton, List.append_assoc]
  · rw [hNew, List.map_append]
    have hKeys := hDistinct.keys
    rw [List.map_append] at hKeys
    exact hKeys
  · intro keyGroup hGroup
    rw [hNew] at hGroup
    rcases List.mem_append.mp hGroup with hIn | hLast
    · exact hDistinct.windows keyGroup (hBefore keyGroup hIn)
    · rw [List.mem_singleton.mp hLast]
      exact hWindows
  · intro keyGroup hGroup
    rw [hNew] at hGroup
    rcases List.mem_append.mp hGroup with hIn | hLast
    · exact hDistinct.elements keyGroup (hBefore keyGroup hIn)
    · rw [List.mem_singleton.mp hLast]
      exact hElements
  · intro keyGroup hGroup
    rw [hNew] at hGroup
    rcases List.mem_append.mp hGroup with hIn | hLast
    · exact hDistinct.nonempty keyGroup (hBefore keyGroup hIn)
    · rw [List.mem_singleton.mp hLast]
      simp
  · refine .inr ⟨done, row, { current with windows := front ++ [(row.window, values)] }, front,
      values, rfl, ?_, hEncoded, hKey, rfl⟩
    rw [hPush]

/-- The next row in order keeps the decoder's groups distinct: had its key or
window been met before, the last row would have it too. -/
theorem pushRow (h : Decoding done decoder) {row : GbkRow}
    (hFits : ∀ other ∈ done ++ [row], other.window.CoderIdFits)
    (hSorted : (done ++ [row]).Pairwise fun a b => a.atMost b = true) :
    Decoding (done ++ [row]) (decoder.pushRow row) := by
  rcases h.last with ⟨hDone, hDecoder⟩ | ⟨before, last, current, front, values, hDone, hCurrent,
    hEncoded, hKey, hWindows⟩
  · subst hDone hDecoder
    exact h.opens (by simp [SortedGroupDecoder.finish]) rfl rfl
  have hFinish : decoder.finish = decoder.completed ++ [current.finished] := by
    rw [SortedGroupDecoder.finish, hCurrent]
    rfl
  have hIn : current.finished ∈ decoder.finish := by simp [hFinish]
  have hLastRow : last.atMost row = true := by
    rw [List.pairwise_append] at hSorted
    exact hSorted.2.2 last (by simp [hDone]) row (by simp)
  have hBelow : ∀ other ∈ done, other = last ∨ other.atMost last = true := by
    intro other hOther
    rw [List.pairwise_append] at hSorted
    rw [hDone] at hOther hSorted
    rcases List.mem_append.mp hOther with hEarly | hSame
    · exact .inr ((List.pairwise_append.mp hSorted.1).2.2 other hEarly last (by simp))
    · exact .inl (List.mem_singleton.mp hSame)
  have hLastFits := hFits last (by simp [hDone])
  have hRowFits := hFits row (by simp)
  by_cases hSameKey : current.key = row.key
  · have hLastKey : last.key = row.key := hKey.symm.trans hSameKey
    have hOldWindows := h.distinct.windows current.finished hIn
    have hOldElements := h.distinct.elements current.finished hIn
    have hOldRows : current.finished.rows = DecodedKeyGroup.rows ⟨current.key,
        front ++ [(last.window, values)]⟩ := by
      rw [InProgressKeyGroup.finished, hWindows]
    simp only [InProgressKeyGroup.finished, hWindows] at hOldWindows hOldElements
    have hPush : pushElement current.windows row.window row.element =
        if last.window.toBinaryKey = row.window.toBinaryKey then
          front ++ [(last.window, values ++ [row.element])]
        else front ++ [(last.window, values)] ++ [(row.window, [row.element])] := by
      rw [pushElement, hWindows, List.getLast?_concat, List.dropLast_concat]
    by_cases hSameWindow : last.window.toBinaryKey = row.window.toBinaryKey
    · have hWindow := BeamWindow.toBinaryKey_injective hLastFits hRowFits hSameWindow
      rw [if_pos hSameWindow, hWindow] at hPush
      rw [hWindow] at hOldWindows hOldElements hOldRows
      refine h.extends_ hCurrent hSameKey hEncoded hPush ?_ ?_ ?_
      · rw [hOldRows]
        simp [DecodedKeyGroup.rows, hSameKey]
      · simpa using hOldWindows
      · intro entry hEntry
        rcases List.mem_append.mp hEntry with hFront | hEnd
        · exact hOldElements entry (List.mem_append_left _ hFront)
        · rw [List.mem_singleton.mp hEnd]
          simp
    · rw [if_neg hSameWindow] at hPush
      refine h.extends_ hCurrent hSameKey hEncoded hPush ?_ ?_ ?_
      · rw [hOldRows]
        simp [DecodedKeyGroup.rows, hSameKey]
      · rw [List.map_append, List.nodup_append]
        refine ⟨hOldWindows, by simp, ?_⟩
        intro window hWindow other hOther hSame
        obtain ⟨entry, hEntry, rfl⟩ := List.mem_map.mp hWindow
        have hEntryIn : entry ∈ current.finished.windows := by
          rw [InProgressKeyGroup.finished, hWindows]
          exact hEntry
        obtain ⟨first, hFirst, hFirstKey, hFirstWindow⟩ := h.exists_row hIn hEntryIn
        have hMatch : first.window = row.window := by
          rw [hFirstWindow, hSame, List.mem_singleton.mp hOther]
        have hMiddle : last.window = row.window := by
          rcases hBelow first hFirst with rfl | hLe
          · exact hMatch
          · exact between_window hLe hLastRow (hFirstKey.trans hSameKey) hMatch hLastFits hRowFits
        exact hSameWindow (by rw [hMiddle])
      · intro entry hEntry
        rcases List.mem_append.mp hEntry with hOld | hEnd
        · exact hOldElements entry hOld
        · rw [List.mem_singleton.mp hEnd]
          simp
  · have hEncodedNe : current.encodedKey ≠ encodedPrimitiveSortKey row.key := by
      rw [hEncoded]
      exact fun hSame => hSameKey (encodedPrimitiveSortKey_injective hSame)
    have hPush : decoder.pushRow row = ⟨some ⟨encodedPrimitiveSortKey row.key, row.key,
        [(row.window, [row.element])]⟩, decoder.completed ++ [current.finished]⟩ := by
      rw [SortedGroupDecoder.pushRow, hCurrent]
      dsimp only
      rw [if_pos hEncodedNe]
      rfl
    refine h.opens ?_ ?_ (by rw [hPush])
    · intro keyGroup hGroup hMatch
      obtain ⟨first, hFirst, hFirstKey⟩ := h.exists_key hGroup
      have hMiddle : last.key = row.key := by
        rcases hBelow first hFirst with rfl | hLe
        · exact hFirstKey.trans hMatch
        · exact between_key hLe hLastRow (hFirstKey.trans hMatch)
      exact hSameKey (hKey.trans hMiddle)
    · rw [hPush, hFinish]
      rfl

/-- The decoder over rows in order. -/
theorem foldl (rows : List GbkRow) (h : Decoding done decoder)
    (hFits : ∀ other ∈ done ++ rows, other.window.CoderIdFits)
    (hSorted : (done ++ rows).Pairwise fun a b => a.atMost b = true) :
    Decoding (done ++ rows) (rows.foldl SortedGroupDecoder.pushRow decoder) := by
  induction rows generalizing done decoder with
  | nil =>
      rw [List.append_nil]
      exact h
  | cons row rows ih =>
      rw [← List.singleton_append, ← List.append_assoc] at hFits hSorted
      have hNext := h.pushRow (fun other hOther => hFits other (List.mem_append_left _ hOther))
        (List.pairwise_append.mp hSorted).1
      rw [List.foldl_cons, ← List.singleton_append, ← List.append_assoc]
      exact ih hNext hFits hSorted

end Decoding

/-- Sorting and decoding a run's rows groups them by key and window. -/
theorem decodeSorted_decodesTo {rows : List GbkRow}
    (hFits : ∀ row ∈ rows, row.window.CoderIdFits) : DecodesTo rows (decodeSorted rows) := by
  have hPerm := List.mergeSort_perm rows GbkRow.atMost
  have hDecoded := Decoding.start.foldl (rows.mergeSort GbkRow.atMost)
    (fun row hRow => hFits row (hPerm.mem_iff.mp hRow)) (mergeSort_sorted rows)
  refine ⟨hDecoded.distinct.keys, hDecoded.distinct.windows, hDecoded.distinct.elements, ?_⟩
  rw [decodeSorted, hDecoded.rows]
  exact hPerm

end FlareDB
