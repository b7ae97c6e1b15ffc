import FlareDB.Transforms.GbkDecoder
import FlareDB.Transforms.GbkSessions

/-! The inputs of a run. Its rows are grouped by key and window; where windows
merge, the windows of a key are replaced by the sessions they lie in. -/
namespace FlareDB

open KeyedStore Stretch

/-- Instants strictly inside a window of the key's rows. -/
def CoveredRows (rows : List GbkRow) (key : PrimitiveValue) (t : Int) : Prop :=
  ∃ row ∈ rows, row.key = key ∧ ∃ startMillis endMillis,
    row.window = .interval startMillis endMillis ∧ startMillis.toInt < t ∧ t < endMillis.toInt

/-- The window a run of the given rows puts an original window of a key into. -/
def Into (needsMerge : Bool) (rows : List GbkRow) (key : PrimitiveValue)
    (original window : BeamWindow) : Prop :=
  if needsMerge then
    ∃ startMillis endMillis sessionStart sessionEnd,
      original = .interval startMillis endMillis ∧ window = .interval sessionStart sessionEnd ∧
        Spans (CoveredRows rows key) startMillis.toInt endMillis.toInt sessionStart.toInt
          sessionEnd.toInt
  else original = window

/-- The groups a run makes of one key. -/
def keyInputs (needsMerge : Bool) (keyGroup : DecodedKeyGroup) : Except String (List GroupInput) :=
  if needsMerge then mergeIntervalGroups keyGroup.key keyGroup.windows else .ok keyGroup.inputs

section OneKey

variable {rows : List GbkRow} {keyGroups : List DecodedKeyGroup}

theorem DecodedKeyGroup.rows_key {keyGroup : DecodedKeyGroup} {row : GbkRow}
    (h : row ∈ keyGroup.rows) : row.key = keyGroup.key ∧
      ∃ entry ∈ keyGroup.windows, row.window = entry.1 := by
  obtain ⟨entry, hEntry, hRow⟩ := List.mem_flatMap.mp h
  obtain ⟨element, _, rfl⟩ := List.mem_map.mp hRow
  exact ⟨rfl, entry, hEntry, rfl⟩

/-- The rows of a key are those of its key group. -/
theorem DecodesTo.mem_rows_iff (h : DecodesTo rows keyGroups) {keyGroup : DecodedKeyGroup}
    (hGroup : keyGroup ∈ keyGroups) {row : GbkRow} (hKey : row.key = keyGroup.key) :
    row ∈ rows ↔ row ∈ keyGroup.rows := by
  rw [← h.rows.mem_iff, List.mem_flatMap]
  constructor
  · rintro ⟨other, hOther, hRow⟩
    have hSame : other = keyGroup := by
      refine List.inj_on_of_nodup_map h.keys hOther hGroup ?_
      exact (other.rows_key hRow).1.symm.trans hKey
    rwa [hSame] at hRow
  · intro hRow
    exact ⟨keyGroup, hGroup, hRow⟩

/-- What covers the instants of a key in a run is its key group. -/
theorem DecodesTo.coveredRows (h : DecodesTo rows keyGroups) {keyGroup : DecodedKeyGroup}
    (hGroup : keyGroup ∈ keyGroups)
    (hIntervals : ∀ entry ∈ keyGroup.windows, isInterval entry.1 = true) :
    CoveredBy (keyGroup.windows.map intervalOf) = CoveredRows rows keyGroup.key := by
  funext t
  apply propext
  constructor
  · rintro ⟨interval, hInterval, hBelow, hAbove⟩
    obtain ⟨entry, hEntry, rfl⟩ := List.mem_map.mp hInterval
    obtain ⟨row, hRow, hKey, hWindow⟩ := DecodedKeyGroup.mem_rows hEntry
      (h.elements keyGroup hGroup entry hEntry)
    refine ⟨row, (h.mem_rows_iff hGroup hKey).mpr hRow, hKey, _, _, ?_, hBelow, hAbove⟩
    rw [hWindow, ← intervalOf_window (hIntervals entry hEntry)]
    rfl
  · rintro ⟨row, hRow, hKey, startMillis, endMillis, hWindow, hBelow, hAbove⟩
    have hIn := (h.mem_rows_iff hGroup hKey).mp hRow
    obtain ⟨_, entry, hEntry, hSame⟩ := DecodedKeyGroup.rows_key hIn
    refine ⟨intervalOf entry, List.mem_map_of_mem hEntry, ?_⟩
    have hBounds := intervalOf_window (hIntervals entry hEntry)
    rw [← hSame, hWindow, IntervalGroup.window, BeamWindow.interval.injEq] at hBounds
    rw [IntervalGroup.low, IntervalGroup.high, hBounds.1, hBounds.2]
    exact ⟨hBelow, hAbove⟩

theorem exists_block {covered : Int → Prop} {sessions : List IntervalGroup}
    {blocks : List (List IntervalGroup)} (h : List.Forall₂ (SessionOf covered) sessions blocks)
    {session : IntervalGroup} (hSession : session ∈ sessions) :
    ∃ block ∈ blocks, SessionOf covered session block := by
  induction h with
  | nil => cases hSession
  | @cons first block sessions blocks hFirst _ ih =>
      rcases List.mem_cons.mp hSession with rfl | hRest
      · exact ⟨block, by simp, hFirst⟩
      · obtain ⟨other, hOther, hOf⟩ := ih hRest
        exact ⟨other, by simp [hOther], hOf⟩

theorem exists_session {covered : Int → Prop} {sessions : List IntervalGroup}
    {blocks : List (List IntervalGroup)} (h : List.Forall₂ (SessionOf covered) sessions blocks)
    {block : List IntervalGroup} (hBlock : block ∈ blocks) :
    ∃ session, SessionOf covered session block := by
  induction h with
  | nil => cases hBlock
  | @cons session first sessions blocks hFirst _ ih =>
      rcases List.mem_cons.mp hBlock with rfl | hRest
      · exact ⟨session, hFirst⟩
      · exact ih hRest

/-- Sessions hold the elements of the windows that span them. -/
theorem sessions_values {covered : Int → Prop} {sessions : List IntervalGroup}
    {blocks : List (List IntervalGroup)} (h : List.Forall₂ (SessionOf covered) sessions blocks)
    (sessionStart sessionEnd : Int64) [DecidablePred fun interval : IntervalGroup =>
      Spans covered interval.low interval.high sessionStart.toInt sessionEnd.toInt] :
    (sessions.filter fun session =>
        decide (session.window = .interval sessionStart sessionEnd)).flatMap
          IntervalGroup.values =
      (blocks.flatten.filter fun interval => decide (Spans covered interval.low interval.high
        sessionStart.toInt sessionEnd.toInt)).flatMap IntervalGroup.values := by
  induction h with
  | nil => rfl
  | @cons session block sessions blocks hSession _ ih =>
      rw [List.flatten_cons, List.filter_append, List.flatMap_append, ← ih]
      by_cases hWindow : session.window = .interval sessionStart sessionEnd
      · have hBounds := hWindow
        rw [IntervalGroup.window, BeamWindow.interval.injEq] at hBounds
        have hAll : block.filter (fun interval => decide (Spans covered interval.low interval.high
            sessionStart.toInt sessionEnd.toInt)) = block := by
          refine List.filter_eq_self.mpr fun interval hInterval => decide_eq_true ?_
          rw [← hBounds.1, ← hBounds.2]
          exact hSession.spans interval hInterval
        rw [List.filter_cons_of_pos (by simpa using hWindow), List.flatMap_cons, hAll,
          hSession.values]
      · have hNone : block.filter (fun interval => decide (Spans covered interval.low interval.high
            sessionStart.toInt sessionEnd.toInt)) = [] := by
          refine List.filter_eq_nil_iff.mpr fun interval hInterval hSpans => hWindow ?_
          obtain ⟨hStart, hEnd⟩ := (hSession.spans interval hInterval).unique
            (of_decide_eq_true hSpans)
          rw [IntervalGroup.window, Int64.toInt_inj.mp hStart, Int64.toInt_inj.mp hEnd]
        rw [List.filter_cons_of_neg (by simpa using hWindow), hNone]
        rfl

open Classical in
/-- The groups a run makes of one key: every window once, ending with one of
the key's rows, with the elements that go into it. -/
structure KeyInputs (needsMerge : Bool) (rows : List GbkRow) (keyGroup : DecodedKeyGroup)
    (groups : List GroupInput) : Prop where
  key : ∀ group ∈ groups, group.key = keyGroup.key
  windows : (groups.map GroupInput.window).Nodup
  elements : ∀ group ∈ groups, group.elements ≠ []
  fits : ∀ group ∈ groups, group.window.CoderIdFits
  ends : ∀ group ∈ groups, ∃ row ∈ rows,
    row.window.maxTimestampMillis = group.window.maxTimestampMillis
  complete : ∀ entry ∈ keyGroup.windows, ∃ window,
    Into needsMerge rows keyGroup.key entry.1 window
  values : ∀ window, ((groups.filter fun group => decide (group.window = window)).flatMap
      GroupInput.elements).Perm
    ((keyGroup.windows.filter fun entry =>
      decide (Into needsMerge rows keyGroup.key entry.1 window)).flatMap Prod.snd)

theorem DecodesTo.mem_of_entry (h : DecodesTo rows keyGroups) {keyGroup : DecodedKeyGroup}
    (hGroup : keyGroup ∈ keyGroups) {entry : BeamWindow × List PaneElement}
    (hEntry : entry ∈ keyGroup.windows) :
    ∃ row ∈ rows, row.key = keyGroup.key ∧ row.window = entry.1 := by
  obtain ⟨row, hRow, hKey, hWindow⟩ := DecodedKeyGroup.mem_rows hEntry
    (h.elements keyGroup hGroup entry hEntry)
  exact ⟨row, (h.mem_rows_iff hGroup hKey).mpr hRow, hKey, hWindow⟩

/-- Without merging every window of the key is a group. -/
theorem DecodesTo.plainInputs (h : DecodesTo rows keyGroups)
    (hFits : ∀ row ∈ rows, row.window.CoderIdFits) {keyGroup : DecodedKeyGroup}
    (hGroup : keyGroup ∈ keyGroups) : KeyInputs false rows keyGroup keyGroup.inputs where
  key := by
    intro group hIn
    obtain ⟨entry, _, rfl⟩ := List.mem_map.mp hIn
    rfl
  windows := by
    rw [DecodedKeyGroup.inputs, List.map_map]
    exact h.windows keyGroup hGroup
  elements := by
    intro group hIn
    obtain ⟨entry, hEntry, rfl⟩ := List.mem_map.mp hIn
    exact h.elements keyGroup hGroup entry hEntry
  fits := by
    intro group hIn
    obtain ⟨entry, hEntry, rfl⟩ := List.mem_map.mp hIn
    obtain ⟨row, hRow, _, hWindow⟩ := h.mem_of_entry hGroup hEntry
    rw [← hWindow]
    exact hFits row hRow
  ends := by
    intro group hIn
    obtain ⟨entry, hEntry, rfl⟩ := List.mem_map.mp hIn
    obtain ⟨row, hRow, _, hWindow⟩ := h.mem_of_entry hGroup hEntry
    exact ⟨row, hRow, by rw [hWindow]⟩
  complete := fun entry _ => ⟨entry.1, rfl⟩
  values := by
    intro window
    rw [DecodedKeyGroup.inputs, List.filter_map, List.flatMap_map]
    refine List.Perm.of_eq (congrArg (List.flatMap Prod.snd) (List.filter_congr ?_))
    intro entry _
    simp [Into]

open Classical in
/-- With merging every session of the key is a group. -/
theorem DecodesTo.mergedInputs (h : DecodesTo rows keyGroups) {keyGroup : DecodedKeyGroup}
    (hGroup : keyGroup ∈ keyGroups)
    (hIntervals : ∀ entry ∈ keyGroup.windows, isInterval entry.1 = true) :
    ∃ groups, mergeIntervalGroups keyGroup.key keyGroup.windows = .ok groups ∧
      KeyInputs true rows keyGroup groups := by
  obtain ⟨sessions, hMerged, hApart, blocks, hFlat, hSessions⟩ :=
    mergeIntervalGroups_sessions keyGroup.key hIntervals (h.windows keyGroup hGroup)
  rw [h.coveredRows hGroup hIntervals] at hSessions
  have hBlock : ∀ session ∈ sessions, ∃ block, SessionOf (CoveredRows rows keyGroup.key) session
      block ∧ ∀ interval ∈ block, ∃ entry ∈ keyGroup.windows, intervalOf entry = interval := by
    intro session hSession
    obtain ⟨block, hMem, hOf⟩ := exists_block hSessions hSession
    refine ⟨block, hOf, fun interval hInterval => ?_⟩
    exact List.mem_map.mp (hFlat.mem_iff.mp (List.mem_flatten.mpr ⟨block, hMem, hInterval⟩))
  refine ⟨_, hMerged, ?_, ?_, ?_, ?_, ?_, ?_, ?_⟩
  · intro group hIn
    obtain ⟨session, _, rfl⟩ := List.mem_map.mp hIn
    rfl
  · rw [List.map_map]
    refine List.pairwise_map.mpr (hApart.imp ?_)
    intro a b hPrecedes hSame
    simp only [Function.comp_apply, IntervalGroup.window, BeamWindow.interval.injEq] at hSame
    rw [IntervalGroup.Precedes, IntervalGroup.low, IntervalGroup.low, IntervalGroup.high,
      IntervalGroup.high, hSame.1, hSame.2] at hPrecedes
    omega
  · intro group hIn
    obtain ⟨session, hSession, rfl⟩ := List.mem_map.mp hIn
    obtain ⟨block, hOf, hEntries⟩ := hBlock session hSession
    obtain ⟨interval, hInterval, _⟩ := hOf.starts
    obtain ⟨entry, hEntry, rfl⟩ := hEntries interval hInterval
    have hSome := h.elements keyGroup hGroup entry hEntry
    dsimp only
    rw [hOf.values]
    intro hNone
    have hEmpty := List.flatMap_eq_nil_iff.mp hNone _ hInterval
    rw [intervalOf_values] at hEmpty
    exact hSome hEmpty
  · intro group hIn
    obtain ⟨session, _, rfl⟩ := List.mem_map.mp hIn
    trivial
  · intro group hIn
    obtain ⟨session, hSession, rfl⟩ := List.mem_map.mp hIn
    obtain ⟨block, hOf, hEntries⟩ := hBlock session hSession
    obtain ⟨interval, hInterval, hEnd⟩ := hOf.ends
    obtain ⟨entry, hEntry, rfl⟩ := hEntries interval hInterval
    obtain ⟨row, hRow, _, hWindow⟩ := h.mem_of_entry hGroup hEntry
    refine ⟨row, hRow, ?_⟩
    rw [hWindow, ← intervalOf_window (hIntervals entry hEntry)]
    show (intervalOf entry).endMillis - 1 = session.endMillis - 1
    rw [hEnd]
  · intro entry hEntry
    have hIn := hFlat.mem_iff.mpr (List.mem_map_of_mem hEntry)
    obtain ⟨block, hBlockIn, hInterval⟩ := List.mem_flatten.mp hIn
    obtain ⟨session, hOf⟩ := exists_session hSessions hBlockIn
    refine ⟨session.window, ?_⟩
    rw [Into, if_pos rfl, ← intervalOf_window (hIntervals entry hEntry)]
    exact ⟨_, _, _, _, rfl, rfl, hOf.spans _ hInterval⟩
  · intro window
    rw [List.filter_map, List.flatMap_map]
    by_cases hWindow : isInterval window = true
    · cases window with
      | global => cases hWindow
      | opaqueWindow coderId bytes => cases hWindow
      | interval sessionStart sessionEnd =>
          have hValues := sessions_values hSessions sessionStart sessionEnd
          have hPerm := (hFlat.filter fun interval => decide (Spans (CoveredRows rows keyGroup.key)
            interval.low interval.high sessionStart.toInt sessionEnd.toInt)).flatMap_right
              IntervalGroup.values
          rw [← hValues, List.filter_map, List.flatMap_map] at hPerm
          refine hPerm.trans (List.Perm.of_eq ?_)
          simp only [intervalOf_values]
          refine congrArg (List.flatMap Prod.snd) (List.filter_congr ?_)
          intro entry hEntry
          have hOriginal := intervalOf_window (hIntervals entry hEntry)
          refine decide_eq_decide.mpr ?_
          rw [Into, if_pos rfl, ← hOriginal]
          constructor
          · intro hSpans
            exact ⟨_, _, _, _, rfl, rfl, hSpans⟩
          · rintro ⟨startMillis, endMillis, start, finish, hBounds, hSession, hSpans⟩
            rw [IntervalGroup.window, BeamWindow.interval.injEq] at hBounds
            rw [BeamWindow.interval.injEq] at hSession
            rw [← hBounds.1, ← hBounds.2, ← hSession.1, ← hSession.2] at hSpans
            exact hSpans
    · have hNoSession : sessions.filter ((fun group : GroupInput =>
          decide (group.window = window)) ∘ fun session =>
            ⟨keyGroup.key, session.window, session.values⟩) = [] := by
        refine List.filter_eq_nil_iff.mpr fun session _ hSame => hWindow ?_
        rw [← of_decide_eq_true hSame]
        rfl
      have hNoEntry : keyGroup.windows.filter (fun entry =>
          decide (Into true rows keyGroup.key entry.1 window)) = [] := by
        refine List.filter_eq_nil_iff.mpr fun entry _ hInto => hWindow ?_
        obtain ⟨_, _, _, _, _, hSession, _⟩ := of_decide_eq_true hInto
        rw [hSession]
        rfl
      rw [hNoSession, hNoEntry]
      exact List.Perm.refl _

end OneKey

section OneRun

variable {needsMerge : Bool} {rows : List GbkRow} {keyGroups : List DecodedKeyGroup}

open Classical in
/-- The elements of some of a run's rows that go into a window of a key. -/
noncomputable def elementsInto (needsMerge : Bool) (rows chosen : List GbkRow) (key : PrimitiveValue)
    (window : BeamWindow) : List PaneElement :=
  (chosen.filter fun row => decide (row.key = key ∧
    Into needsMerge rows key row.window window)).map GbkRow.element

/-- The elements fed for a key and window. -/
def elementsFed (groups : List GroupInput) (key : PrimitiveValue) (window : BeamWindow) :
    List PaneElement :=
  (groups.filter fun group => decide (group.key = key ∧ group.window = window)).flatMap
    GroupInput.elements

theorem elementsInto_append (first second : List GbkRow) (key : PrimitiveValue)
    (window : BeamWindow) : elementsInto needsMerge rows (first ++ second) key window =
      elementsInto needsMerge rows first key window ++
        elementsInto needsMerge rows second key window := by
  rw [elementsInto, List.filter_append, List.map_append]
  rfl

theorem elementsFed_append (first second : List GroupInput) (key : PrimitiveValue)
    (window : BeamWindow) : elementsFed (first ++ second) key window =
      elementsFed first key window ++ elementsFed second key window := by
  rw [elementsFed, List.filter_append, List.flatMap_append]
  rfl

open Classical in
theorem elementsInto_keyGroup (keyGroup : DecodedKeyGroup) (window : BeamWindow) :
    elementsInto needsMerge rows keyGroup.rows keyGroup.key window =
      (keyGroup.windows.filter fun entry =>
        decide (Into needsMerge rows keyGroup.key entry.1 window)).flatMap Prod.snd := by
  obtain ⟨key, windows⟩ := keyGroup
  unfold DecodedKeyGroup.rows
  dsimp only
  induction windows with
  | nil => rfl
  | cons entry windows ih =>
      rw [List.flatMap_cons, elementsInto_append, ih]
      by_cases hInto : Into needsMerge rows key entry.1 window
      · rw [List.filter_cons_of_pos (by simpa using hInto), List.flatMap_cons]
        congr 1
        simp [elementsInto, List.filter_map, Function.comp_def, hInto]
      · rw [List.filter_cons_of_neg (by simpa using hInto)]
        simp [elementsInto, hInto]

open Classical in
/-- A key group feeds its own key only. -/
theorem KeyInputs.elementsFed {keyGroup : DecodedKeyGroup} {groups : List GroupInput}
    (h : KeyInputs needsMerge rows keyGroup groups) (key : PrimitiveValue) (window : BeamWindow) :
    (elementsFed groups key window).Perm
      (elementsInto needsMerge rows keyGroup.rows key window) := by
  by_cases hKey : keyGroup.key = key
  · subst hKey
    rw [elementsInto_keyGroup]
    refine (List.Perm.of_eq ?_).trans (h.values window)
    refine congrArg (List.flatMap GroupInput.elements) (List.filter_congr ?_)
    intro group hGroup
    simp [h.key group hGroup]
  · have hNoGroup : FlareDB.elementsFed groups key window = [] := by
      rw [FlareDB.elementsFed, List.filter_eq_nil_iff.mpr, List.flatMap_nil]
      intro group hGroup hSame
      exact hKey ((h.key group hGroup).symm.trans (of_decide_eq_true hSame).1)
    have hNoRow : elementsInto needsMerge rows keyGroup.rows key window = [] := by
      rw [elementsInto, List.filter_eq_nil_iff.mpr, List.map_nil]
      intro row hRow hSame
      exact hKey ((DecodedKeyGroup.rows_key hRow).1.symm.trans (of_decide_eq_true hSame).1)
    rw [hNoGroup, hNoRow]

/-- The groups a run makes of its rows. -/
structure RunInputs (needsMerge : Bool) (rows : List GbkRow) (groups : List GroupInput) :
    Prop where
  nodup : (groups.map GroupInput.identity).Nodup
  elements : ∀ group ∈ groups, group.elements ≠ []
  fits : ∀ group ∈ groups, group.window.CoderIdFits
  ends : ∀ group ∈ groups, ∃ row ∈ rows,
    row.window.maxTimestampMillis = group.window.maxTimestampMillis
  complete : ∀ row ∈ rows, ∃ window, Into needsMerge rows row.key row.window window
  fed : ∀ key window, (elementsFed groups key window).Perm
    (elementsInto needsMerge rows rows key window)

/-- The groups of some keys, one list for each. -/
theorem runInputs_of_keys {lists : List (List GroupInput)}
    (h : List.Forall₂ (KeyInputs needsMerge rows) keyGroups lists)
    (hKeys : (keyGroups.map DecodedKeyGroup.key).Nodup) :
    (∀ group ∈ lists.flatten, group.elements ≠ [] ∧ group.window.CoderIdFits ∧
        (∃ keyGroup ∈ keyGroups, group.key = keyGroup.key) ∧ ∃ row ∈ rows,
          row.window.maxTimestampMillis = group.window.maxTimestampMillis) ∧
      (lists.flatten.map GroupInput.identity).Nodup ∧
      ∀ key window, (elementsFed lists.flatten key window).Perm
        (elementsInto needsMerge rows (keyGroups.flatMap DecodedKeyGroup.rows) key window) := by
  induction h with
  | nil => exact ⟨by simp, by simp, fun _ _ => List.Perm.refl _⟩
  | @cons keyGroup groups keyGroups lists hFirst _ ih =>
      rw [List.map_cons, List.nodup_cons] at hKeys
      obtain ⟨hGroups, hNodup, hFed⟩ := ih hKeys.2
      refine ⟨?_, ?_, ?_⟩
      · intro group hGroup
        rcases List.mem_append.mp hGroup with hHere | hRest
        · exact ⟨hFirst.elements group hHere, hFirst.fits group hHere,
            ⟨keyGroup, by simp, hFirst.key group hHere⟩, hFirst.ends group hHere⟩
        · obtain ⟨hElements, hFits, ⟨other, hOther, hKey⟩, hEnds⟩ := hGroups group hRest
          exact ⟨hElements, hFits, ⟨other, by simp [hOther], hKey⟩, hEnds⟩
      · rw [List.flatten_cons, List.map_append, List.nodup_append]
        refine ⟨?_, hNodup, ?_⟩
        · refine List.pairwise_map.mpr ((List.pairwise_map.mp hFirst.windows).imp_of_mem ?_)
          intro a b ha hb hNe hSame
          exact hNe (groupIdentity_injective (hFirst.fits a ha) (hFirst.fits b hb) hSame).2
        · intro identity hIdentity other hOther hSame
          obtain ⟨group, hGroup, rfl⟩ := List.mem_map.mp hIdentity
          obtain ⟨later, hLater, rfl⟩ := List.mem_map.mp hOther
          obtain ⟨_, hFits, ⟨laterKey, hIn, hKey⟩, _⟩ := hGroups later hLater
          have hSameKey := (groupIdentity_injective (hFirst.fits group hGroup) hFits hSame).1
          rw [hFirst.key group hGroup, hKey] at hSameKey
          exact hKeys.1 (hSameKey ▸ List.mem_map_of_mem hIn)
      · intro key window
        rw [List.flatten_cons, elementsFed_append, List.flatMap_cons, elementsInto_append]
        exact (hFirst.elementsFed key window).append (hFed key window)

theorem exists_keyInputs (h : DecodesTo rows keyGroups)
    (hFits : ∀ row ∈ rows, row.window.CoderIdFits)
    (hIntervals : needsMerge = true → ∀ row ∈ rows, isInterval row.window = true)
    {keyGroup : DecodedKeyGroup} (hGroup : keyGroup ∈ keyGroups) :
    (needsMerge && !(keyGroup.windows.all fun entry => isInterval entry.1)) = false ∧
      ∃ groups, keyInputs needsMerge keyGroup = .ok groups ∧
        KeyInputs needsMerge rows keyGroup groups := by
  cases needsMerge with
  | false => exact ⟨rfl, keyGroup.inputs, rfl, h.plainInputs hFits hGroup⟩
  | true =>
      have hAll : ∀ entry ∈ keyGroup.windows, isInterval entry.1 = true := by
        intro entry hEntry
        obtain ⟨row, hRow, _, hWindow⟩ := h.mem_of_entry hGroup hEntry
        rw [← hWindow]
        exact hIntervals rfl row hRow
      refine ⟨?_, h.mergedInputs hGroup hAll⟩
      rw [List.all_eq_true.mpr hAll]
      rfl

theorem nativeGroups_ok (hKeys : ∀ keyGroup ∈ keyGroups,
    (needsMerge && !(keyGroup.windows.all fun entry => isInterval entry.1)) = false ∧
      ∃ groups, keyInputs needsMerge keyGroup = .ok groups ∧
        KeyInputs needsMerge rows keyGroup groups) :
    ∃ lists, nativeGroups needsMerge keyGroups = .ok lists.flatten ∧
      List.Forall₂ (KeyInputs needsMerge rows) keyGroups lists := by
  induction keyGroups with
  | nil => exact ⟨[], rfl, .nil⟩
  | cons keyGroup keyGroups ih =>
      obtain ⟨hNative, groups, hOk, hInputs⟩ := hKeys keyGroup (by simp)
      obtain ⟨lists, hRest, hLists⟩ := ih fun other hOther => hKeys other (by simp [hOther])
      refine ⟨groups :: lists, ?_, .cons hInputs hLists⟩
      rw [nativeGroups, hNative, if_neg (by decide), hRest]
      rw [keyInputs] at hOk
      cases needsMerge with
      | false =>
          rw [if_neg (by decide)] at hOk ⊢
          cases hOk
          rfl
      | true =>
          rw [if_pos rfl] at hOk ⊢
          rw [hOk]
          rfl

/-- A run's key groups are processed without the SDK and become its inputs. -/
theorem exists_runInputs (h : DecodesTo rows keyGroups)
    (hFits : ∀ row ∈ rows, row.window.CoderIdFits)
    (hIntervals : needsMerge = true → ∀ row ∈ rows, isInterval row.window = true) :
    ∃ groups, nativeGroups needsMerge keyGroups = .ok groups ∧
      customMerges needsMerge keyGroups = [] ∧ RunInputs needsMerge rows groups := by
  have hKeys := fun keyGroup (hGroup : keyGroup ∈ keyGroups) =>
    exists_keyInputs h hFits hIntervals hGroup
  obtain ⟨lists, hNative, hLists⟩ := nativeGroups_ok hKeys
  obtain ⟨hGroups, hNodup, hFed⟩ := runInputs_of_keys hLists h.keys
  refine ⟨lists.flatten, hNative, ?_, hNodup, fun group hGroup => (hGroups group hGroup).1,
    fun group hGroup => (hGroups group hGroup).2.1,
    fun group hGroup => (hGroups group hGroup).2.2.2, ?_, ?_⟩
  · refine List.filter_eq_nil_iff.mpr fun keyGroup hGroup => ?_
    rw [(hKeys keyGroup hGroup).1]
    decide
  · intro row hRow
    obtain ⟨keyGroup, hGroup, hIn⟩ := List.mem_flatMap.mp (h.rows.mem_iff.mpr hRow)
    obtain ⟨hKey, entry, hEntry, hWindow⟩ := DecodedKeyGroup.rows_key hIn
    obtain ⟨_, _, _, hInputs⟩ := hKeys keyGroup hGroup
    rw [hKey, hWindow]
    exact hInputs.complete entry hEntry
  · intro key window
    exact (hFed key window).trans ((h.rows.filter _).map _)

end OneRun
end FlareDB
