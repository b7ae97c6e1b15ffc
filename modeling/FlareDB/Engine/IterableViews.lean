import FlareDB.Engine.MultimapViews

/-! Iterable side inputs. The elements of each window are encoded one behind the
other. -/
namespace FlareDB

open KeyedStore Results

section Encoding

variable (elementCoder : StandardBeamCoders)

def addIterableToWindow (value : BeamRecord) (grouped : EncodedSideInputWindows)
    (window : BeamWindow) : SideInputResult EncodedSideInputWindows :=
  match (grouped.lookup window).getD (.iterable []) with
  | .multimap _ _ =>
      .error (.error "side-input PCollection mixed iterable and multimap values")
  | .iterable encoded => do
      let encoded ← appendEncodedElement elementCoder value encoded
      pure (grouped.insert window (.iterable encoded))

/-- One element joins each of its windows once. -/
def addIterableToWindows (value : BeamRecord) :
    List BeamWindow → List BeamWindow → EncodedSideInputWindows →
      SideInputResult EncodedSideInputWindows
  | _, [], grouped => .ok grouped
  | seenWindows, window :: windows, grouped =>
      if window ∈ seenWindows then addIterableToWindows value seenWindows windows grouped
      else do
        let grouped ← addIterableToWindow elementCoder value grouped window
        addIterableToWindows value (window :: seenWindows) windows grouped

def encodeIterableWindows (values : List WindowedValue) : SideInputResult EncodedSideInputWindows :=
  values.foldlM (fun grouped element =>
    addIterableToWindows elementCoder element.value [] element.windows grouped) ∅

end Encoding

/-- The bytes of the elements of a window. -/
def iterableAt (elementCoder : StandardBeamCoders) (window : BeamWindow)
    (values : List WindowedValue) : List UInt8 :=
  (values.filter fun element => window ∈ element.windows).flatMap fun element =>
    paddedElement elementCoder element.value

/-- What is cached for a window. -/
def windowBytes (grouped : EncodedSideInputWindows) (window : BeamWindow) : List UInt8 :=
  match grouped.lookup window with
  | some (.iterable encoded) => encoded
  | _ => []

def OnlyIterables (grouped : EncodedSideInputWindows) : Prop :=
  ∀ window keys values, grouped.lookup window ≠ some (.multimap keys values)

section Content

variable {elementCoder : StandardBeamCoders} {value : BeamRecord}
  {grouped after : EncodedSideInputWindows}

theorem addIterableToWindow_eq_ok (hOnly : OnlyIterables grouped) {window : BeamWindow}
    (h : addIterableToWindow elementCoder value grouped window = .ok after) :
    OnlyIterables after ∧ ∀ other, windowBytes after other =
      windowBytes grouped other ++ if other = window then paddedElement elementCoder value else [] := by
  have hEntry : (grouped.lookup window).getD (.iterable []) =
      .iterable (windowBytes grouped window) := by
    rw [windowBytes]
    cases hLookup : grouped.lookup window with
    | none => rfl
    | some entry =>
        cases entry with
        | iterable encoded => rfl
        | multimap keys values => exact absurd hLookup (hOnly window keys values)
  rw [addIterableToWindow, hEntry] at h
  obtain ⟨encoded, hEncoded, hAfter⟩ := bind_eq_ok h
  cases hAfter
  obtain ⟨-, rfl⟩ := appendEncodedElement_eq_ok hEncoded
  constructor
  · intro other keys values hLookup
    by_cases hOther : other = window
    · subst hOther
      rw [AList.lookup_insert] at hLookup
      cases hLookup
    · rw [AList.lookup_insert_ne hOther] at hLookup
      exact hOnly other keys values hLookup
  · intro other
    by_cases hOther : other = window
    · subst hOther
      rw [if_pos rfl, windowBytes, AList.lookup_insert]
    · rw [if_neg hOther, List.append_nil, windowBytes, AList.lookup_insert_ne hOther]
      rfl

/-- An element joins each of its windows once, however often they are listed. -/
theorem addIterableToWindows_eq_ok {windows : List BeamWindow} (seenWindows : List BeamWindow)
    (hOnly : OnlyIterables grouped)
    (h : addIterableToWindows elementCoder value seenWindows windows grouped = .ok after) :
    OnlyIterables after ∧ ∀ other, windowBytes after other = windowBytes grouped other ++
      if other ∈ windows ∧ other ∉ seenWindows then paddedElement elementCoder value else [] := by
  induction windows generalizing seenWindows grouped with
  | nil =>
      cases h
      exact ⟨hOnly, fun other => by simp⟩
  | cons window windows ih =>
      rw [addIterableToWindows] at h
      by_cases hSeen : window ∈ seenWindows
      · rw [if_pos hSeen] at h
        obtain ⟨hAfter, hBytes⟩ := ih seenWindows hOnly h
        refine ⟨hAfter, fun other => ?_⟩
        rw [hBytes other]
        by_cases hSame : other = window
        · subst hSame
          rw [if_neg fun hIn => hIn.2 hSeen, if_neg fun hIn => hIn.2 hSeen]
        · simp [hSame]
      · rw [if_neg hSeen] at h
        obtain ⟨middle, hMiddle, hRest⟩ := bind_eq_ok h
        obtain ⟨hOnlyMiddle, hHere⟩ := addIterableToWindow_eq_ok hOnly hMiddle
        obtain ⟨hAfter, hBytes⟩ := ih (window :: seenWindows) hOnlyMiddle hRest
        refine ⟨hAfter, fun other => ?_⟩
        rw [hBytes other, hHere other]
        by_cases hSame : other = window
        · subst hSame
          simp [hSeen]
        · simp [hSame]

theorem foldlM_addIterable_eq_ok {values : List WindowedValue} (hOnly : OnlyIterables grouped)
    (h : values.foldlM (fun grouped element =>
      addIterableToWindows elementCoder element.value [] element.windows grouped) grouped =
        .ok after) :
    OnlyIterables after ∧ ∀ window, windowBytes after window =
      windowBytes grouped window ++ iterableAt elementCoder window values := by
  induction values generalizing grouped with
  | nil =>
      cases h
      exact ⟨hOnly, fun window => (List.append_nil _).symm⟩
  | cons element values ih =>
      rw [List.foldlM_cons] at h
      obtain ⟨middle, hMiddle, hRest⟩ := bind_eq_ok h
      obtain ⟨hOnlyMiddle, hHere⟩ := addIterableToWindows_eq_ok [] hOnly hMiddle
      obtain ⟨hAfter, hBytes⟩ := ih hOnlyMiddle hRest
      refine ⟨hAfter, fun window => ?_⟩
      rw [hBytes window, hHere window, List.append_assoc]
      by_cases hIn : window ∈ element.windows
      · simp [iterableAt, hIn]
      · simp [iterableAt, hIn]

/-- The windows hold the elements of the table in order, each once. -/
theorem encodeIterableWindows_eq_ok {values : List WindowedValue}
    (h : encodeIterableWindows elementCoder values = .ok after) :
    OnlyIterables after ∧ ∀ window, windowBytes after window = iterableAt elementCoder window values := by
  have hOnly : OnlyIterables (∅ : EncodedSideInputWindows) := by
    intro window keys values hLookup
    rw [AList.lookup_empty] at hLookup
    cases hLookup
  exact foldlM_addIterable_eq_ok hOnly h

end Content

end FlareDB
