import FlareDB.Transforms.GbkCalls
import FlareDB.Transforms.GbkSplit
import Mathlib.Data.List.Flatten

/-! Retrying a failed execution. The backend keeps what a failed execution fed
and fired, so a retry repeats a group exactly when the failure left no trace of
it: a group that was stored and closed at once, or one that was not fired. -/
namespace FlareDB

open KeyedStore InMemoryGbkState

section OneGroup

variable (spec : TriggerSpec) (inputWatermark processingTime : Int64)

/-- Whether an evaluation fires a group that is not closed. -/
def firesNow (state : WindowState) : Bool :=
  state.trigger.shouldFire (triggerContext spec state.window inputWatermark processingTime) ||
    windowExpired spec state.window inputWatermark

/-- A stored group that an evaluation emits a pane of. -/
def Ready (state : WindowState) : Prop :=
  state.elements ≠ [] ∧ firesNow spec inputWatermark processingTime state = true

/-- A group that fires again when it is evaluated after a firing. -/
def FiresAgain (state : WindowState) : Prop :=
  Ready spec inputWatermark processingTime state ∧
    windowExpired spec state.window inputWatermark = false ∧ spec.accumulation ≠ .discarding ∧
    (state.trigger.onFire (triggerContext spec state.window inputWatermark
      processingTime)).shouldFire
        (triggerContext spec state.window inputWatermark processingTime) = true

variable {spec inputWatermark processingTime} {state : WindowState}
  (hOpen : state.closed = false)

include hOpen in
/-- A group that is not due is only marked as evaluated. -/
theorem fireState_idle (h : firesNow spec inputWatermark processingTime state = false) :
    fireState state spec inputWatermark processingTime =
      ({ state with evaluatedThisRun := true }, none) := by
  have hQuiet : (state.trigger.shouldFire (triggerContext spec state.window inputWatermark
      processingTime) || windowExpired spec state.window inputWatermark) = false := h
  refine if_pos ?_
  simp only [hOpen, Bool.not_false, Bool.and_true]
  rw [triggerContext] at hQuiet ⊢
  simp only [hQuiet, Bool.not_false]

/-- What a firing leaves of a group and the pane it emits. -/
structure FiredFrom (spec : TriggerSpec) (inputWatermark processingTime : Int64)
    (state : WindowState) (fired : WindowState × Option WindowedValue) : Prop where
  closed : fired.1.closed = windowExpired spec state.window inputWatermark
  once : fired.1.fired = true
  paneIndex : fired.1.paneIndex = state.paneIndex + 1
  window : fired.1.window = state.window
  elements : fired.1.elements = if spec.accumulation = .discarding then [] else state.elements
  trigger : fired.1.trigger = state.trigger.onFire
    (triggerContext spec state.window inputWatermark processingTime)
  empty : state.elements = [] → fired.2 = none
  pane : state.elements ≠ [] → ∃ timing timestampMillis, fired.2 =
    some (groupPane state.key state.window state.elements timestampMillis (paneInfo timing
      state.paneIndex (!state.fired) (windowExpired spec state.window inputWatermark)))

include hOpen in
/-- What firing a due group does. -/
theorem fireState_fires (h : firesNow spec inputWatermark processingTime state = true) :
    FiredFrom spec inputWatermark processingTime state
      (fireState state spec inputWatermark processingTime) := by
  have hFires : (state.trigger.shouldFire (triggerContext spec state.window inputWatermark
      processingTime) || windowExpired spec state.window inputWatermark) = true := h
  have hGoes : ¬ (!(state.trigger.shouldFire (triggerContext spec state.window inputWatermark
      processingTime) || (triggerContext spec state.window inputWatermark
      processingTime).expired && !state.closed)) = true := by
    simp only [hOpen, Bool.not_false, Bool.and_true]
    rw [triggerContext] at hFires ⊢
    simp only [hFires, Bool.not_true, Bool.false_eq_true, not_false_eq_true]
  unfold fireState
  dsimp only
  rw [if_neg hGoes]
  by_cases hEmpty : state.elements = []
  · rw [if_pos (by rw [hEmpty]; rfl)]
    exact ⟨by simp [hOpen, triggerContext], rfl, rfl, rfl, rfl, rfl, fun _ => rfl,
      fun hSome => absurd hEmpty hSome⟩
  · rw [if_neg (by simpa using hEmpty)]
    exact ⟨by simp [hOpen, triggerContext], rfl, rfl, rfl, rfl, rfl, fun hNone =>
      absurd hNone hEmpty, fun _ => ⟨_, _, rfl⟩⟩

/-- A pane carries the index that its group had. -/
theorem fireState_index {pane : WindowedValue}
    (h : pane ∈ (fireState state spec inputWatermark processingTime).2.toList) :
    pane.pane.index = state.paneIndex := by
  unfold fireState at h
  dsimp only at h
  split at h
  · simp at h
  · split at h
    · simp at h
    · rw [Option.toList_some, List.mem_singleton] at h
      rw [h]
      rfl

end OneGroup

theorem mem_of_eq_singleton {α : Type} {list : List α} {element : α}
    (h : list = [element]) : element ∈ list := by
  rw [h]
  exact List.mem_singleton_self _

theorem index_ne_succ (index : Int64) : index ≠ index + 1 := by
  intro h
  have hZero : (1 : Int64) = 0 := by
    have hSum : index + 0 = index + 1 := by rw [Int64.add_zero]; exact h
    exact (Int64.add_right_inj _ |>.mp hSum).symm
  exact absurd hZero (by decide)

/-- The elements held for a group. -/
def heldBy (stored : Option WindowState) : List PaneElement :=
  (stored.map WindowState.elements).getD []

/-- A stored group is open, and holds elements or has fired. -/
def InUse (stored : Option WindowState) : Prop :=
  ∀ state, stored = some state →
    state.closed = false ∧ (state.elements ≠ [] ∨ state.fired = true)

section Again

variable (spec : TriggerSpec) (inputWatermark processingTime : Int64)

/-- Evaluating an open group that is not due yields no pane. -/
theorem evaluateGroup_idle {state : WindowState} (hOpen : state.closed = false)
    (h : firesNow spec inputWatermark processingTime state = false) :
    evaluateGroup spec inputWatermark processingTime (some state.begun) =
      (some { state with evaluatedThisRun := true }, []) := by
  have hIdle : fireState state.begun spec inputWatermark processingTime =
      ({ state with evaluatedThisRun := true }, none) := fireState_idle hOpen h
  rw [evaluateGroup_begun, hIdle, WindowState.kept_open (by exact hOpen)]
  rfl

/-- Evaluating an open group that is due yields the pane it fires. -/
theorem evaluateGroup_fires {state : WindowState} (hOpen : state.closed = false)
    (h : firesNow spec inputWatermark processingTime state = true) :
    ∃ fired, FiredFrom spec inputWatermark processingTime state fired ∧
      evaluateGroup spec inputWatermark processingTime (some state.begun) =
        (fired.1.kept, fired.2.toList) := by
  have hFired : FiredFrom spec inputWatermark processingTime state.begun
      (fireState state.begun spec inputWatermark processingTime) := fireState_fires hOpen h
  exact ⟨_, ⟨hFired.closed, hFired.once, hFired.paneIndex, hFired.window, hFired.elements,
    hFired.trigger, hFired.empty, hFired.pane⟩,
    evaluateGroup_begun spec inputWatermark processingTime state⟩

/-- A pane has the index that the group's state holds. -/
theorem evaluateGroup_index {state : WindowState} {pane : WindowedValue}
    (h : pane ∈ (evaluateGroup spec inputWatermark processingTime (some state.begun)).2) :
    pane.pane.index = state.paneIndex := by
  rw [evaluateGroup_begun] at h
  exact fireState_index h

/-- A group without elements emits nothing, whether it fires or not. -/
theorem evaluateGroup_empty {state : WindowState} (hOpen : state.closed = false)
    (hEmpty : state.elements = []) :
    (evaluateGroup spec inputWatermark processingTime (some state.begun)).2 = [] ∧
      heldBy (evaluateGroup spec inputWatermark processingTime (some state.begun)).1 = [] := by
  cases hFires : firesNow spec inputWatermark processingTime state with
  | false =>
      rw [evaluateGroup_idle spec inputWatermark processingTime hOpen hFires]
      exact ⟨rfl, hEmpty⟩
  | true =>
      obtain ⟨fired, hFired, hSame⟩ := evaluateGroup_fires spec inputWatermark processingTime
        hOpen hFires
      rw [hSame, hFired.empty hEmpty]
      refine ⟨rfl, ?_⟩
      have hNext : fired.1.elements = [] := by
        rw [hFired.elements, hEmpty, ite_self]
      unfold WindowState.kept
      split
      · rfl
      · exact hNext

/-- An evaluated group that has closed or holds nothing emits nothing more. -/
theorem evaluateGroup_spent {state : WindowState}
    (h : state.closed = true ∨ state.elements = []) :
    (evaluateGroup spec inputWatermark processingTime (state.kept.map WindowState.begun)).2 = [] ∧
      heldBy (evaluateGroup spec inputWatermark processingTime
        (state.kept.map WindowState.begun)).1 = heldBy state.kept := by
  cases hClosed : state.closed with
  | true =>
      rw [WindowState.kept_closed hClosed]
      exact ⟨rfl, rfl⟩
  | false =>
      have hEmpty : state.elements = [] := h.resolve_left (by rw [hClosed]; decide)
      obtain ⟨hPanes, hHeld⟩ := evaluateGroup_empty spec inputWatermark processingTime hClosed
        hEmpty
      rw [WindowState.kept_open hClosed]
      exact ⟨hPanes, hHeld.trans hEmpty.symm⟩

/-- Evaluating an idle group once more finds it as it was. -/
theorem evaluateGroup_idle_again {state : WindowState} (hOpen : state.closed = false)
    (h : firesNow spec inputWatermark processingTime state = false) :
    evaluateGroup spec inputWatermark processingTime
        ((evaluateGroup spec inputWatermark processingTime (some state.begun)).1.map
          WindowState.begun) =
      evaluateGroup spec inputWatermark processingTime (some state.begun) := by
  have hFirst := evaluateGroup_idle spec inputWatermark processingTime hOpen h
  rw [hFirst]
  exact hFirst

/-- A retry evaluates a group as the first time exactly when the group was not
ready. -/
theorem evaluateGroup_retry_iff {state : WindowState} (hOpen : state.closed = false) :
    ((evaluateGroup spec inputWatermark processingTime
          ((evaluateGroup spec inputWatermark processingTime (some state.begun)).1.map
            WindowState.begun)).2 =
        (evaluateGroup spec inputWatermark processingTime (some state.begun)).2 ∧
      heldBy (evaluateGroup spec inputWatermark processingTime
          ((evaluateGroup spec inputWatermark processingTime (some state.begun)).1.map
            WindowState.begun)).1 =
        heldBy (evaluateGroup spec inputWatermark processingTime (some state.begun)).1) ↔
      ¬ Ready spec inputWatermark processingTime state := by
  cases hFires : firesNow spec inputWatermark processingTime state with
  | false =>
      rw [evaluateGroup_idle_again spec inputWatermark processingTime hOpen hFires]
      refine iff_of_true ⟨rfl, rfl⟩ fun hReady => ?_
      rw [hReady.2] at hFires
      cases hFires
  | true =>
      obtain ⟨fired, hFired, hFirst⟩ := evaluateGroup_fires spec inputWatermark processingTime
        hOpen hFires
      rw [hFirst]
      by_cases hEmpty : state.elements = []
      · have hNext : fired.1.elements = [] := by
          rw [hFired.elements, hEmpty, ite_self]
        obtain ⟨hPanes, hHeld⟩ := evaluateGroup_spent spec inputWatermark processingTime
          (.inr hNext)
        refine iff_of_true ⟨?_, hHeld⟩ fun hReady => hReady.1 hEmpty
        rw [hFired.empty hEmpty]
        exact hPanes
      · refine iff_of_false (fun hSame => ?_) (not_not.mpr ⟨hEmpty, hFires⟩)
        obtain ⟨timing, timestampMillis, hPane⟩ := hFired.pane hEmpty
        have hPanes := hSame.1
        rw [hPane, Option.toList_some] at hPanes
        cases hClosed : fired.1.closed with
        | true =>
            rw [WindowState.kept_closed hClosed] at hPanes
            cases hPanes
        | false =>
            -- the group's index has moved on
            rw [WindowState.kept_open hClosed, Option.map_some] at hPanes
            have hIndex : state.paneIndex = fired.1.paneIndex :=
              evaluateGroup_index spec inputWatermark processingTime
                (by rw [hPanes]; exact List.mem_singleton_self _)
            rw [hFired.paneIndex] at hIndex
            exact absurd hIndex (index_ne_succ state.paneIndex)

/-- Nothing is emitted or added by another evaluation exactly when the group does
not fire again. -/
theorem evaluateGroup_again_iff {state : WindowState} (hOpen : state.closed = false) :
    ((evaluateGroup spec inputWatermark processingTime
          ((evaluateGroup spec inputWatermark processingTime (some state.begun)).1.map
            WindowState.begun)).2 = [] ∧
      heldBy (evaluateGroup spec inputWatermark processingTime
          ((evaluateGroup spec inputWatermark processingTime (some state.begun)).1.map
            WindowState.begun)).1 =
        heldBy (evaluateGroup spec inputWatermark processingTime (some state.begun)).1) ↔
      ¬ FiresAgain spec inputWatermark processingTime state := by
  cases hFires : firesNow spec inputWatermark processingTime state with
  | false =>
      rw [evaluateGroup_idle_again spec inputWatermark processingTime hOpen hFires]
      refine iff_of_true ⟨?_, rfl⟩ fun hAgain => ?_
      · rw [evaluateGroup_idle spec inputWatermark processingTime hOpen hFires]
      · rw [hAgain.1.2] at hFires
        cases hFires
  | true =>
      obtain ⟨fired, hFired, hFirst⟩ := evaluateGroup_fires spec inputWatermark processingTime
        hOpen hFires
      rw [hFirst]
      by_cases hSpent : fired.1.closed = true ∨ fired.1.elements = []
      · refine iff_of_true (evaluateGroup_spent spec inputWatermark processingTime hSpent) ?_
        rintro ⟨⟨hSome, _⟩, hLasting, hAccumulates, _⟩
        rw [hFired.closed, hLasting, hFired.elements, if_neg hAccumulates] at hSpent
        exact hSpent.elim (by decide) hSome
      · rw [not_or] at hSpent
        have hClosed : fired.1.closed = false := Bool.eq_false_iff.mpr hSpent.1
        have hLasting : windowExpired spec state.window inputWatermark = false :=
          hFired.closed.symm.trans hClosed
        have hAccumulates : spec.accumulation ≠ .discarding := by
          intro hDiscards
          rw [hFired.elements, if_pos hDiscards] at hSpent
          exact hSpent.2 rfl
        have hElements : fired.1.elements = state.elements := by
          rw [hFired.elements, if_neg hAccumulates]
        have hNow : firesNow spec inputWatermark processingTime fired.1 =
            (state.trigger.onFire (triggerContext spec state.window inputWatermark
              processingTime)).shouldFire
                (triggerContext spec state.window inputWatermark processingTime) := by
          rw [firesNow, hFired.window, hFired.trigger, hLasting, Bool.or_false]
        rw [WindowState.kept_open hClosed, Option.map_some]
        cases hAgain : firesNow spec inputWatermark processingTime fired.1 with
        | false =>
            rw [evaluateGroup_idle spec inputWatermark processingTime hClosed hAgain]
            refine iff_of_true ⟨rfl, rfl⟩ fun hFiresAgain => ?_
            rw [hNow, hFiresAgain.2.2.2] at hAgain
            cases hAgain
        | true =>
            obtain ⟨later, hLater, hSecond⟩ := evaluateGroup_fires spec inputWatermark
              processingTime hClosed hAgain
            obtain ⟨timing, timestampMillis, hPane⟩ := hLater.pane hSpent.2
            rw [hSecond, hPane]
            refine iff_of_false (fun hNone => by cases hNone.1) (not_not.mpr ?_)
            exact ⟨⟨hElements ▸ hSpent.2, hFires⟩, hLasting, hAccumulates, hNow ▸ hAgain⟩

end Again

section Feeding

variable (spec : TriggerSpec) (inputWatermark processingTime : Int64) {group : GroupInput}
  (hElements : group.elements ≠ [])

/-- A stored group is stored under its own window. -/
def OfWindow (window : BeamWindow) (stored : Option WindowState) : Prop :=
  ∀ state, stored = some state → state.window = window

theorem feedGroup_false (stored : Option WindowState) :
    feedGroup spec inputWatermark processingTime false group stored =
      ((fireState (fedState spec processingTime group stored) spec inputWatermark
          processingTime).1.kept,
        (fireState (fedState spec processingTime group stored) spec inputWatermark
          processingTime).2.toList) := rfl

/-- Feeding a group that is not due after it yields no pane. -/
theorem feedGroup_idle {stored : Option WindowState}
    (hOpen : (fedState spec processingTime group stored).closed = false)
    (h : firesNow spec inputWatermark processingTime (fedState spec processingTime group stored) =
      false) :
    feedGroup spec inputWatermark processingTime false group stored =
      (some { fedState spec processingTime group stored with evaluatedThisRun := true }, []) := by
  rw [feedGroup_false, fireState_idle hOpen h, WindowState.kept_open (by exact hOpen)]
  rfl

/-- Feeding a group that is due after it yields the pane it fires. -/
theorem feedGroup_fires {stored : Option WindowState}
    (hOpen : (fedState spec processingTime group stored).closed = false)
    (h : firesNow spec inputWatermark processingTime (fedState spec processingTime group stored) =
      true) :
    ∃ fired, FiredFrom spec inputWatermark processingTime
        (fedState spec processingTime group stored) fired ∧
      feedGroup spec inputWatermark processingTime false group stored =
        (fired.1.kept, fired.2.toList) :=
  ⟨_, fireState_fires hOpen h, rfl⟩

/-- A pane of a fed group has the index that the group's state holds. -/
theorem feedGroup_index {state : WindowState} {pane : WindowedValue}
    (h : pane ∈ (feedGroup spec inputWatermark processingTime false group
      (some state.begun)).2) : pane.pane.index = state.paneIndex := by
  have hIndex : pane.pane.index =
      (fedState spec processingTime group (some state.begun)).paneIndex := fireState_index h
  exact hIndex

/-- A fed group holds its old elements and then the new ones. -/
theorem fedState_elements (stored : Option WindowState) :
    (fedState spec processingTime group (stored.map WindowState.begun)).elements =
      heldBy stored ++ group.elements := by
  cases stored <;> rfl

/-- A group in use is still open after it was fed. -/
theorem fedState_open {stored : Option WindowState} (h : InUse stored) :
    (fedState spec processingTime group (stored.map WindowState.begun)).closed = false := by
  cases stored with
  | none => rfl
  | some state => exact (h state rfl).1

theorem fedState_window {stored : Option WindowState} (h : OfWindow group.window stored) :
    (fedState spec processingTime group (stored.map WindowState.begun)).window =
      group.window := by
  cases stored with
  | none => rfl
  | some state => exact h state rfl

include hElements in
/-- A fed group is not empty. -/
theorem fedState_nonempty (stored : Option WindowState) :
    (fedState spec processingTime group (stored.map WindowState.begun)).elements ≠ [] := by
  rw [fedState_elements]
  simp [hElements]

include hElements in
/-- Feeding a group emits a pane or adds to what the group holds. -/
theorem feedGroup_changes {stored : Option WindowState} (h : InUse stored) :
    ¬ ((feedGroup spec inputWatermark processingTime false group
          (stored.map WindowState.begun)).2 = [] ∧
        heldBy (feedGroup spec inputWatermark processingTime false group
          (stored.map WindowState.begun)).1 = heldBy stored) := by
  rintro ⟨hPanes, hHeld⟩
  have hOpen : (fedState spec processingTime group (stored.map WindowState.begun)).closed =
    false := fedState_open spec processingTime h
  cases hFires : firesNow spec inputWatermark processingTime
      (fedState spec processingTime group (stored.map WindowState.begun)) with
  | true =>
      obtain ⟨fired, hFired, hFirst⟩ := feedGroup_fires spec inputWatermark processingTime hOpen
        hFires
      obtain ⟨timing, timestampMillis, hPane⟩ := hFired.pane
        (fedState_nonempty spec processingTime hElements stored)
      rw [hFirst, hPane] at hPanes
      cases hPanes
  | false =>
      rw [feedGroup_idle spec inputWatermark processingTime hOpen hFires] at hHeld
      have hMore : heldBy stored ++ group.elements = heldBy stored :=
        (fedState_elements spec processingTime stored).symm.trans hHeld
      exact hElements (List.append_right_eq_self.mp hMore)

/-- A group that is stored and closed at once leaves nothing behind. -/
theorem feedGroup_closes (h : windowExpired spec group.window inputWatermark = true) :
    (feedGroup spec inputWatermark processingTime false group none).1 = none := by
  rw [feedGroup_false]
  refine WindowState.kept_closed ?_
  have hOpen : (fedState spec processingTime group none).closed = false := rfl
  rw [fireState_closed spec inputWatermark processingTime hOpen]
  exact h

/-- From a pane one can tell the number of its elements and its position. -/
theorem groupPane_inj {key otherKey : PrimitiveValue} {window otherWindow : BeamWindow}
    {elements others : List PaneElement} {timestampMillis otherMillis : Int64}
    {pane otherPane : PaneInfo}
    (h : groupPane key window elements timestampMillis pane =
      groupPane otherKey otherWindow others otherMillis otherPane) :
    elements.length = others.length ∧ pane = otherPane := by
  simp only [groupPane, WindowedValue.mk.injEq, BeamRecord.kv.injEq, BeamRecord.iterable.injEq]
    at h
  have hLength := congrArg List.length h.1.2
  rw [List.length_map, List.length_map] at hLength
  exact ⟨hLength, h.2.2.2⟩

include hElements in
/-- A stored group that expires with its new elements is not the one that a retry
starts from nothing. -/
theorem feedGroup_forgets {state : WindowState} (hUse : InUse (some state))
    (hWindow : OfWindow group.window (some state))
    (hExpired : windowExpired spec group.window inputWatermark = true) :
    (feedGroup spec inputWatermark processingTime false group none).2 ≠
      (feedGroup spec inputWatermark processingTime false group (some state.begun)).2 := by
  intro hSame
  have hNew : FiredFrom spec inputWatermark processingTime
      (fedState spec processingTime group none)
      (fireState (fedState spec processingTime group none) spec inputWatermark processingTime) :=
    fireState_fires rfl (by rw [firesNow]; exact (Bool.or_eq_true _ _).mpr (.inr hExpired))
  have hOldWindow : (fedState spec processingTime group (some state.begun)).window =
      group.window := fedState_window spec processingTime hWindow
  have hOld : FiredFrom spec inputWatermark processingTime
      (fedState spec processingTime group (some state.begun))
      (fireState (fedState spec processingTime group (some state.begun)) spec inputWatermark
        processingTime) := by
    refine fireState_fires (fedState_open spec processingTime hUse) ?_
    rw [firesNow, hOldWindow, hExpired, Bool.or_true]
  obtain ⟨timing, timestampMillis, hPane⟩ := hNew.pane
    (fedState_nonempty spec processingTime hElements none)
  obtain ⟨oldTiming, oldMillis, hOldPane⟩ := hOld.pane
    (fedState_nonempty spec processingTime hElements (some state))
  rw [feedGroup_false, feedGroup_false, hPane, hOldPane] at hSame
  obtain ⟨hLength, hInfo⟩ := groupPane_inj (List.cons.inj hSame).1
  have hHeld : state.elements = [] := by
    have hOldElements : (fedState spec processingTime group (some state.begun)).elements =
        state.elements ++ group.elements := fedState_elements spec processingTime (some state)
    have hNewElements : (fedState spec processingTime group none).elements = group.elements :=
      rfl
    rw [hOldElements, hNewElements, List.length_append] at hLength
    exact List.length_eq_zero_iff.mp (by omega)
  have hFired : state.fired = true := (hUse state rfl).2.resolve_left (not_not.mpr hHeld)
  have hFirst : (!(fedState spec processingTime group none).fired) =
      !(fedState spec processingTime group (some state.begun)).fired :=
    congrArg PaneInfo.isFirst hInfo
  have hOldFired : (fedState spec processingTime group (some state.begun)).fired = true := hFired
  rw [hOldFired] at hFirst
  exact absurd hFirst (by simp [fedState, addElements, WindowState.new])

include hElements in
/-- A retry feeds a group as the first time exactly when the group is stored and
closed at once. -/
theorem feedGroup_retry_iff {stored : Option WindowState} (hUse : InUse stored)
    (hWindow : OfWindow group.window stored) :
    ((feedGroup spec inputWatermark processingTime false group
          ((feedGroup spec inputWatermark processingTime false group
            (stored.map WindowState.begun)).1.map WindowState.begun)).2 =
        (feedGroup spec inputWatermark processingTime false group
          (stored.map WindowState.begun)).2 ∧
      heldBy (feedGroup spec inputWatermark processingTime false group
          ((feedGroup spec inputWatermark processingTime false group
            (stored.map WindowState.begun)).1.map WindowState.begun)).1 =
        heldBy (feedGroup spec inputWatermark processingTime false group
          (stored.map WindowState.begun)).1) ↔
      stored = none ∧ windowExpired spec group.window inputWatermark = true := by
  constructor
  · intro hSame
    have hOpen : (fedState spec processingTime group (stored.map WindowState.begun)).closed =
      false := fedState_open spec processingTime hUse
    have hFedWindow : (fedState spec processingTime group
        (stored.map WindowState.begun)).window = group.window :=
      fedState_window spec processingTime hWindow
    have hSome := fedState_nonempty spec processingTime hElements stored
    cases hFires : firesNow spec inputWatermark processingTime
        (fedState spec processingTime group (stored.map WindowState.begun)) with
    | false =>
        -- nothing was emitted, so the elements are held twice
        rw [feedGroup_idle spec inputWatermark processingTime hOpen hFires] at hSame
        refine absurd hSame (feedGroup_changes spec inputWatermark processingTime hElements ?_)
        intro state hState
        cases hState
        exact ⟨hOpen, .inl hSome⟩
    | true =>
        obtain ⟨fired, hFired, hFirst⟩ := feedGroup_fires spec inputWatermark processingTime
          hOpen hFires
        have hClosed := hFired.closed
        rw [hFedWindow] at hClosed
        cases hExpired : windowExpired spec group.window inputWatermark with
        | false =>
            -- the group's index has moved on
            obtain ⟨timing, timestampMillis, hPane⟩ := hFired.pane hSome
            have hPanes := hSame.1
            rw [hFirst, hPane, WindowState.kept_open (hClosed.trans hExpired), Option.map_some,
              Option.toList_some] at hPanes
            have hIndex := feedGroup_index spec inputWatermark processingTime
              (mem_of_eq_singleton hPanes)
            rw [hFired.paneIndex] at hIndex
            exact absurd hIndex (index_ne_succ _)
        | true =>
            refine ⟨?_, rfl⟩
            cases stored with
            | none => rfl
            | some state =>
                have hPanes := hSame.1
                have hGone : (feedGroup spec inputWatermark processingTime false group
                    ((some state).map WindowState.begun)).1 = none := by
                  rw [hFirst]
                  exact WindowState.kept_closed (hClosed.trans hExpired)
                rw [hGone] at hPanes
                exact absurd hPanes (feedGroup_forgets spec inputWatermark processingTime
                  hElements hUse hWindow hExpired)
  · rintro ⟨rfl, hExpired⟩
    have hGone := feedGroup_closes spec inputWatermark processingTime hExpired
    rw [Option.map_none, hGone, Option.map_none, hGone]
    exact ⟨rfl, rfl⟩

end Feeding

/-- What an execution relies on: a lateness that is a duration, and an SDK that
merges into proper windows. -/
structure GbkContext.Proper (ctx : GbkContext) : Prop where
  lateness : 0 ≤ ctx.spec.allowedLateness
  mergesFit : ctx.MergesFit

section InUse

variable (spec : TriggerSpec) (inputWatermark processingTime : Int64)

theorem InUse.begun {stored : Option WindowState} (h : InUse stored) :
    InUse (stored.map WindowState.begun) := by
  intro state hState
  obtain ⟨before, hBefore, rfl⟩ := Option.map_eq_some_iff.mp hState
  exact h before hBefore

/-- A group that stays after it fired stays in use. -/
theorem fireState_inUse {state : WindowState} (h : InUse (some state)) :
    InUse (fireState state spec inputWatermark processingTime).1.kept := by
  obtain ⟨hOpen, hUsed⟩ := h state rfl
  intro next hNext
  have hClosed : (fireState state spec inputWatermark processingTime).1.closed = false ∧
      (fireState state spec inputWatermark processingTime).1 = next := by
    unfold WindowState.kept at hNext
    split at hNext
    · cases hNext
    · next hStill => exact ⟨Bool.eq_false_iff.mpr hStill, Option.some.inj hNext⟩
  rw [← hClosed.2]
  refine ⟨hClosed.1, ?_⟩
  cases hFires : firesNow spec inputWatermark processingTime state with
  | false =>
      rw [fireState_idle hOpen hFires]
      exact hUsed
  | true => exact .inr (fireState_fires hOpen hFires).once

/-- Evaluation keeps a group in use or drops it. -/
theorem evaluateGroup_inUse {stored : Option WindowState} (h : InUse stored) :
    InUse (evaluateGroup spec inputWatermark processingTime stored).1 := by
  cases stored with
  | none => exact h
  | some state =>
      rw [evaluateGroup]
      split
      · exact h
      · exact fireState_inUse spec inputWatermark processingTime h

/-- So does feeding it, where every batch brings elements. -/
theorem feedGroups_inUse {groups : List GroupInput} (hElements : ∀ group ∈ groups,
    group.elements ≠ []) {stored : Option WindowState} (h : InUse stored) :
    InUse (feedGroups spec inputWatermark processingTime groups stored).1 := by
  induction groups generalizing stored with
  | nil => exact h
  | cons group groups ih =>
      refine ih (fun other hOther => hElements other (by simp [hOther])) ?_
      refine fireState_inUse spec inputWatermark processingTime ?_
      intro state hState
      cases hState
      refine ⟨?_, .inl ?_⟩
      · cases stored with
        | none => rfl
        | some state => exact (h state rfl).1
      · simp [fedState, addElements, hElements group (by simp)]

end InUse

/-- A backend as executions leave it. -/
structure Sound (inner : InMemoryGbkState) : Prop where
  grouped : Grouped inner.states
  used : ∀ identity, InUse (inner.states.lookup identity)

section Reached

variable {ctx : GbkContext} (hCtx : ctx.Proper) {orders : HashOrders} (hOrders : orders.Proper)
  {input : GbkInput} (hInput : input.Proper) {inner : InMemoryGbkState} (h : Sound inner)

include hCtx hOrders hInput in
/-- The groups of a run's batches are those of its keys. -/
theorem inputGroups_ofKeys :
    OfKeys (input.calls.flatMap BatchCall.keyGroups) (callsGroups ctx orders input.calls) :=
  callsGroups_ofKeys hCtx.mergesFit hOrders hInput.keyGroupsDecoded

include hCtx hOrders hInput in
theorem GbkContext.Proper.run_decoded : (ctx.run orders input).Decoded :=
  ⟨(inputGroups_ofKeys hCtx hOrders hInput).fits, (inputGroups_ofKeys hCtx hOrders hInput).elements,
    hOrders.scan⟩

/-- A run that fails early was fed some of the groups only. -/
theorem callsGroups_take_subset (calls : List BatchCall) (count : Nat) :
    ∀ group ∈ callsGroups ctx orders (calls.take count), group ∈ callsGroups ctx orders calls := by
  intro group hGroup
  obtain ⟨call, hCall, hIn⟩ := List.mem_flatMap.mp hGroup
  exact List.mem_flatMap.mpr ⟨call, List.mem_of_mem_take hCall, hIn⟩

/-- Wherever a run fails, it was fed some of the groups only. -/
theorem FailurePoint.fedCalls_subset (point : FailurePoint) (calls : List BatchCall) :
    ∀ group ∈ callsGroups ctx orders (point.fedCalls calls),
      group ∈ callsGroups ctx orders calls := by
  intro group hGroup
  cases point with
  | opening => cases hGroup
  | batch index => exact callsGroups_take_subset calls index group hGroup
  | flush index => exact callsGroups_take_subset calls (index + 1) group hGroup
  | drain _ | output | commit | cursor => exact hGroup

include hCtx hOrders hInput h in
/-- Feeding some groups of a run keeps the state sound. -/
theorem Sound.applyGroups {groups : List GroupInput}
    (hSub : ∀ group ∈ groups, group ∈ callsGroups ctx orders input.calls) :
    Sound (inner.beginRun.applyGroups ctx.spec ctx.inputWatermark ctx.processingTime
      groups).1 := by
  have hOf := inputGroups_ofKeys hCtx hOrders hInput
  have hBegin : Grouped inner.beginRun.states := h.grouped.begin
  have hGroups := fun identity => applyGroups_group hCtx.lateness ctx.inputWatermark
    ctx.processingTime groups hBegin (fun group hGroup => hOf.fits group (hSub group hGroup))
    (fun group hGroup => hOf.elements group (hSub group hGroup)) identity
  refine ⟨(hGroups ⟨[], []⟩).1, fun identity => ?_⟩
  rw [(hGroups identity).2.1]
  refine feedGroups_inUse ctx.spec ctx.inputWatermark ctx.processingTime ?_ ?_
  · intro group hGroup
    exact hOf.elements group (hSub group (List.mem_of_mem_filter hGroup))
  · have hBegun : inner.beginRun.states.lookup identity =
        (inner.states.lookup identity).map WindowState.begun := lookup_mapValues _ _ _
    rw [hBegun]
    exact (h.used identity).begun

include hCtx hOrders hInput h in
/-- A whole run keeps the state sound. -/
theorem Sound.executeRun : Sound (inner.executeRun ctx.spec (ctx.run orders input)).1 := by
  have hDecoded := hCtx.run_decoded hOrders hInput
  have hGroups := fun identity => executeRun_group hCtx.lateness hDecoded h.grouped identity
  refine ⟨(hGroups ⟨[], []⟩).1, fun identity => ?_⟩
  rw [(hGroups identity).2.1]
  refine evaluateGroup_inUse _ _ _ (feedGroups_inUse _ _ _ ?_ (h.used identity).begun)
  intro group hGroup
  exact hDecoded.elements group (List.mem_of_mem_filter hGroup)

include hCtx hOrders hInput h in
/-- What a failed run leaves behind is sound. -/
theorem LeavesBehind.sound {point : FailurePoint} {after : InMemoryGbkState}
    {committed : List WindowedValue}
    (hLeaves : LeavesBehind ctx orders input inner point after committed) : Sound after := by
  cases hLeaves with
  | reading point hReading =>
      exact h.applyGroups hCtx hOrders hInput (point.fedCalls_subset input.calls)
  | draining round done panes after hSome hDone =>
      have hFed := h.applyGroups hCtx hOrders hInput fun _ hGroup => hGroup
      refine ⟨hDone.grouped, fun identity => ?_⟩
      rw [hDone.lookup]
      split
      · exact evaluateGroup_inUse _ _ _ (hFed.used identity)
      · exact hFed.used identity
  | writing point hWriting => exact h.executeRun hCtx hOrders hInput
  | cursor committed hCommitted => exact h.executeRun hCtx hOrders hInput

end Reached

/-- The backends that executions and failed executions can leave. -/
inductive ReachedBackend : InMemoryGbkState → Prop
  | empty : ReachedBackend InMemoryGbkState.empty
  | completed {ctx : GbkContext} {orders : HashOrders} {failure : Option (FailurePoint × String)}
      {input : GbkInput} {before : InMemoryGbkState}
      {after : InMemoryGbkState × List WindowedValue} (hCtx : ctx.Proper)
      (hOrders : orders.Proper) (hInput : input.Proper) (hBefore : ReachedBackend before)
      (hExecuted : execute ctx orders failure input before = .ok after) : ReachedBackend after.1
  | failed {ctx : GbkContext} {orders : HashOrders} {failure : Option (FailurePoint × String)}
      {input : GbkInput} {before : InMemoryGbkState} {left : Failure} (hCtx : ctx.Proper)
      (hOrders : orders.Proper) (hInput : input.Proper) (hBefore : ReachedBackend before)
      (hExecuted : execute ctx orders failure input before = .error left) :
      ReachedBackend left.inner

/-- Every state that runs and failures lead to is sound. -/
theorem ReachedBackend.sound {inner : InMemoryGbkState} (h : ReachedBackend inner) :
    Sound inner := by
  induction h with
  | empty => exact ⟨forall_empty _, fun identity state hState => by cases hState⟩
  | @completed ctx orders failure input before after hCtx hOrders hInput _ hExecuted ih =>
      rcases execute_cases failure (inputGroups_ofKeys hCtx hOrders hInput).fits ih.grouped with
        ⟨_, committed, _, hOk⟩ | ⟨point, error, left, committed, _, _, hError⟩ |
          ⟨_, count, error, hError⟩
      · rw [hExecuted] at hOk
        cases hOk
        exact ih.executeRun hCtx hOrders hInput
      · rw [hExecuted] at hError
        cases hError
      · rw [hExecuted] at hError
        cases hError
  | @failed ctx orders failure input before left hCtx hOrders hInput _ hExecuted ih =>
      rcases execute_cases failure (inputGroups_ofKeys hCtx hOrders hInput).fits ih.grouped with
        ⟨_, committed, _, hOk⟩ | ⟨point, error, after, committed, _, hLeaves, hError⟩ |
          ⟨_, count, error, hError⟩
      · rw [hExecuted] at hOk
        cases hOk
      · rw [hExecuted] at hError
        cases hError
        exact hLeaves.sound hCtx hOrders hInput ih
      · rw [hExecuted] at hError
        cases hError
        exact ih.applyGroups hCtx hOrders hInput (callsGroups_take_subset input.calls count)

/-- A retry, together with what was committed before, yields the panes of one
execution and leaves its elements in the backend. -/
def RetriesAs (committed : List WindowedValue)
    (retried single : InMemoryGbkState × List WindowedValue) : Prop :=
  (committed ++ retried.2).Perm single.2 ∧ ∀ identity,
    heldBy (retried.1.states.lookup identity) = heldBy (single.1.states.lookup identity)

/-- When a failure can be retried. Before the commit, the groups fed must have
been stored and closed at once, and once the input is read no stored group may be
ready. After the commit there must be no input, and no group that fires again. -/
def FailurePoint.RetrySafe (ctx : GbkContext) (orders : HashOrders) (input : GbkInput)
    (inner : InMemoryGbkState) (point : FailurePoint) : Prop :=
  let closedAtOnce := ∀ group ∈ callsGroups ctx orders (point.fedCalls input.calls),
    inner.states.lookup group.identity = none ∧
      windowExpired ctx.spec group.window ctx.inputWatermark = true
  match point with
  | .opening | .batch _ | .flush _ => closedAtOnce
  | .drain _ | .output | .commit => closedAtOnce ∧ ∀ identity state,
      inner.states.lookup identity = some state →
        ¬ Ready ctx.spec ctx.inputWatermark ctx.processingTime state
  | .cursor => callsGroups ctx orders input.calls = [] ∧ ∀ identity state,
      inner.states.lookup identity = some state →
        ¬ FiresAgain ctx.spec ctx.inputWatermark ctx.processingTime state

section OneGroupOfRun

variable {spec : TriggerSpec} {run : GbkRun} {identity : GroupIdentity}

/-- The inputs of a run for a group: at most one. -/
theorem groupsOf_cases (hNodup : (run.groups.map GroupInput.identity).Nodup)
    (identity : GroupIdentity) :
    run.groupsOf identity = [] ∧ (∀ group ∈ run.groups, group.identity ≠ identity) ∨
      ∃ group ∈ run.groups, group.identity = identity ∧ run.groupsOf identity = [group] ∧
        ∀ other ∈ run.groups, other.identity = identity → other = group := by
  have hMem : ∀ group, group ∈ run.groupsOf identity ↔
      group ∈ run.groups ∧ group.identity = identity := by
    intro group
    rw [GbkRun.groupsOf, List.mem_filter, decide_eq_true_eq]
  have hOne : ∀ group ∈ run.groups, ∀ other ∈ run.groups, group.identity = identity →
      other.identity = identity → other = group := by
    intro group hGroup other hOther hSame hOtherSame
    exact List.inj_on_of_nodup_map hNodup hOther hGroup (hOtherSame.trans hSame.symm)
  have hApart : (run.groupsOf identity).Nodup := (List.Nodup.of_map _ hNodup).filter _
  cases hInputs : run.groupsOf identity with
  | nil =>
      refine .inl ⟨rfl, fun group hGroup hSame => ?_⟩
      have hIn := (hMem group).mpr ⟨hGroup, hSame⟩
      rw [hInputs] at hIn
      cases hIn
  | cons group rest =>
      rw [hInputs] at hMem hApart
      obtain ⟨hGroup, hSame⟩ := (hMem group).mp (by simp)
      refine .inr ⟨group, hGroup, hSame, ?_, fun other hOther => hOne group hGroup other hOther hSame⟩
      cases rest with
      | nil => rfl
      | cons other rest =>
          obtain ⟨hOther, hOtherSame⟩ := (hMem other).mp (by simp)
          have hEqual := hOne group hGroup other hOther hSame hOtherSame
          exact absurd (List.nodup_cons.mp hApart).1 (by simp [hEqual])

/-- A run starts by clearing the marks of the one before, so marks left behind do
not matter. -/
theorem groupRun_begun (stored : Option WindowState) :
    groupRun spec run identity (stored.map WindowState.begun) =
      groupRun spec run identity stored := by
  cases stored <;> rfl

/-- A run emits at most one pane for a group. -/
theorem groupRun_length (hNodup : (run.groups.map GroupInput.identity).Nodup)
    (stored : Option WindowState) : (groupRun spec run identity stored).2.length ≤ 1 := by
  rcases groupsOf_cases hNodup identity with ⟨hNone, _⟩ | ⟨group, _, _, hOne, _⟩
  · rw [groupRun_idle hNone]
    cases stored with
    | none => simp [evaluateGroup]
    | some state =>
        rw [Option.map_some, evaluateGroup_begun]
        exact Option.length_toList_le
  · rw [groupRun_fed hOne]
    exact Option.length_toList_le

/-- A run keeps a group in use or drops it. -/
theorem groupRun_inUse (hElements : ∀ group ∈ run.groups, group.elements ≠ [])
    {stored : Option WindowState} (h : InUse stored) :
    InUse (groupRun spec run identity stored).1 := by
  refine evaluateGroup_inUse _ _ _ (feedGroups_inUse _ _ _ ?_ h.begun)
  intro group hGroup
  exact hElements group (List.mem_of_mem_filter hGroup)

variable (hNodup : (run.groups.map GroupInput.identity).Nodup)
  (hElements : ∀ group ∈ run.groups, group.elements ≠ []) {stored : Option WindowState}
  (hUse : InUse stored)
  (hWindow : ∀ group ∈ run.groups, group.identity = identity → OfWindow group.window stored)

include hNodup hElements hUse hWindow in
/-- A group that a run has gone through is gone through again in the same way. -/
theorem groupRun_retry_iff :
    ((groupRun spec run identity (groupRun spec run identity stored).1).2 =
        (groupRun spec run identity stored).2 ∧
      heldBy (groupRun spec run identity (groupRun spec run identity stored).1).1 =
        heldBy (groupRun spec run identity stored).1) ↔
      (∀ group ∈ run.groups, group.identity = identity →
        stored = none ∧ windowExpired spec group.window run.inputWatermark = true) ∧
      ∀ state, stored = some state →
        ¬ Ready spec run.inputWatermark run.processingTime state := by
  rcases groupsOf_cases hNodup identity with ⟨hNone, hNoGroup⟩ | ⟨group, hGroup, hSame, hOne, hOnly⟩
  · have hFirst : (∀ group ∈ run.groups, group.identity = identity →
        stored = none ∧ windowExpired spec group.window run.inputWatermark = true) :=
      fun group hGroup hSame => absurd hSame (hNoGroup group hGroup)
    rw [and_iff_right hFirst, groupRun_idle hNone, groupRun_idle hNone]
    cases stored with
    | none => exact iff_of_true ⟨rfl, rfl⟩ fun state hState => by cases hState
    | some state =>
        rw [Option.map_some, evaluateGroup_retry_iff spec run.inputWatermark run.processingTime
          (hUse state rfl).1]
        constructor
        · intro hReady other hOther
          cases hOther
          exact hReady
        · intro hReady
          exact hReady state rfl
  · rw [groupRun_fed hOne, groupRun_fed hOne, feedGroup_retry_iff spec run.inputWatermark
      run.processingTime (hElements group hGroup) hUse (hWindow group hGroup hSame)]
    constructor
    · rintro ⟨hAbsent, hExpired⟩
      refine ⟨fun other hOther hOtherSame => ?_, fun state hState => ?_⟩
      · rw [hOnly other hOther hOtherSame]
        exact ⟨hAbsent, hExpired⟩
      · rw [hAbsent] at hState
        cases hState
    · rintro ⟨hClean, _⟩
      exact hClean group hGroup hSame

include hNodup hElements hUse in
/-- A group that a run has gone through yields nothing more exactly when the run
has no input for it and it does not fire again. -/
theorem groupRun_again_iff :
    ((groupRun spec run identity (groupRun spec run identity stored).1).2 = [] ∧
      heldBy (groupRun spec run identity (groupRun spec run identity stored).1).1 =
        heldBy (groupRun spec run identity stored).1) ↔
      (∀ group ∈ run.groups, group.identity ≠ identity) ∧ ∀ state, stored = some state →
        ¬ FiresAgain spec run.inputWatermark run.processingTime state := by
  rcases groupsOf_cases hNodup identity with ⟨hNone, hNoGroup⟩ | ⟨group, hGroup, hSame, hOne, _⟩
  · rw [and_iff_right hNoGroup, groupRun_idle hNone, groupRun_idle hNone]
    cases stored with
    | none => exact iff_of_true ⟨rfl, rfl⟩ fun state hState => by cases hState
    | some state =>
        rw [Option.map_some, evaluateGroup_again_iff spec run.inputWatermark run.processingTime
          (hUse state rfl).1]
        constructor
        · intro hAgain other hOther
          cases hOther
          exact hAgain
        · intro hAgain
          exact hAgain state rfl
  · refine iff_of_false ?_ fun hNo => hNo.1 group hGroup hSame
    have hNext : InUse (groupRun spec run identity stored).1 := groupRun_inUse hElements hUse
    rw [groupRun_fed hOne (groupRun spec run identity stored).1]
    exact feedGroup_changes spec run.inputWatermark run.processingTime (hElements group hGroup)
      hNext

end OneGroupOfRun

open Classical in
/-- Panes of groups are the same panes when they are so group by group. -/
theorem perm_iff_panesOf {first second : List WindowedValue} (hFirst : OfGroups first)
    (hSecond : OfGroups second) :
    first.Perm second ↔
      ∀ identity, (panesOf identity first).Perm (panesOf identity second) := by
  refine ⟨fun hPerm identity => hPerm.filter _, fun hEach => ?_⟩
  refine List.perm_iff_count.mpr fun pane => ?_
  have hCount : ∀ panes : List WindowedValue, ∀ identity, paneIdentity pane = some identity →
      panes.count pane = (panesOf identity panes).count pane := by
    intro panes identity hIdentity
    rw [panesOf, List.count_filter (by simp [hIdentity])]
  by_cases hMem : pane ∈ first ∨ pane ∈ second
  · obtain ⟨key, window, elements, timestampMillis, info, rfl, _⟩ :=
      hMem.elim (hFirst pane) (hSecond pane)
    rw [hCount first _ rfl, hCount second _ rfl]
    exact (hEach _).count_eq _
  · rw [not_or] at hMem
    rw [List.count_eq_zero_of_not_mem hMem.1, List.count_eq_zero_of_not_mem hMem.2]

/-- A list of one element at most has no other order. -/
theorem eq_of_perm_short {α : Type} {first second : List α} (h : first.Perm second)
    (hShort : second.length ≤ 1) : first = second := by
  cases second with
  | nil => exact h.eq_nil
  | cons element rest =>
      cases rest with
      | nil => exact List.perm_singleton.mp h
      | cons _ _ => simp at hShort

section Retry

variable {ctx : GbkContext} (hCtx : ctx.Proper) {input : GbkInput} (hInput : input.Proper)
  {inner : InMemoryGbkState} (h : Sound inner) {orders other : HashOrders}
  (hOrders : orders.Proper) (hOther : other.Proper)
  (hMerges : ∀ call ∈ input.calls, ∃ groups, batchGroups ctx orders call = .ok groups)

include hCtx hInput hOrders hOther hMerges in
/-- The orders of the hash maps make no difference to a group. -/
theorem groupRun_orders (identity : GroupIdentity) :
    groupRun ctx.spec (ctx.run other input) identity =
      groupRun ctx.spec (ctx.run orders input) identity := by
  have hPerm := ((callsGroups_orders hOrders hOther hMerges).2.filter fun group =>
    decide (group.identity = identity))
  have hSame : (ctx.run other input).groupsOf identity =
      (ctx.run orders input).groupsOf identity := by
    refine eq_of_perm_short hPerm ?_
    have hNodup : ((ctx.run orders input).groups.map GroupInput.identity).Nodup :=
      (inputGroups_ofKeys hCtx hOrders hInput).nodup
    rcases groupsOf_cases hNodup identity with ⟨hNone, _⟩ | ⟨group, _, _, hOne, _⟩
    · exact (congrArg List.length hNone).trans_le (Nat.zero_le _)
    · exact (congrArg List.length hOne).le
  funext stored
  rw [groupRun, hSame]
  rfl

include hCtx hInput h hOrders in
/-- All panes of a run belong to groups. -/
theorem executeRun_ofGroups :
    OfGroups (inner.executeRun ctx.spec (ctx.run orders input)).2 := by
  have hStart : EmitsGroups [] inner.states [] := ⟨h.grouped, by simp⟩
  have hPreserved : Preserved EmitsGroups ctx.spec (ctx.run orders input) :=
    emitsGroups_preserved (inputGroups_ofKeys hCtx hOrders hInput).fits
  exact (hPreserved.executeRun hStart).panes

include h in
theorem Sound.ofWindow {group : GroupInput} (hFits : group.window.CoderIdFits)
    {identity : GroupIdentity} (hSame : group.identity = identity) :
    OfWindow group.window (inner.states.lookup identity) := by
  intro state hState
  obtain ⟨hIdentity, hStateFits, _⟩ := h.grouped identity state hState
  exact (groupIdentity_injective hStateFits hFits (hIdentity.symm.trans hSame.symm)).2

include hCtx hInput h hOrders hOther hMerges in
/-- An execution in any order of the hash maps, seen from one group. -/
theorem executeRun_orders (identity : GroupIdentity) :
    (inner.executeRun ctx.spec (ctx.run other input)).1.states.lookup identity =
        (groupRun ctx.spec (ctx.run orders input) identity (inner.states.lookup identity)).1 ∧
      panesOf identity (inner.executeRun ctx.spec (ctx.run other input)).2 =
        (groupRun ctx.spec (ctx.run orders input) identity (inner.states.lookup identity)).2 := by
  obtain ⟨_, hLookup, hPanes⟩ := executeRun_group hCtx.lateness
    (hCtx.run_decoded hOther hInput) h.grouped identity
  rw [groupRun_orders hCtx hInput hOrders hOther hMerges] at hLookup hPanes
  exact ⟨hLookup, hPanes⟩

/-- A group that is gone through again as it was the first time. -/
def RepeatsGroup (ctx : GbkContext) (groups : List GroupInput) (inner : InMemoryGbkState)
    (identity : GroupIdentity) : Prop :=
  (∀ group ∈ groups, group.identity = identity → inner.states.lookup identity = none ∧
      windowExpired ctx.spec group.window ctx.inputWatermark = true) ∧
    ∀ state, inner.states.lookup identity = some state →
      ¬ Ready ctx.spec ctx.inputWatermark ctx.processingTime state

variable {single : HashOrders} (hSingle : single.Proper)

include hCtx hInput h hOrders hOther hMerges hSingle in
/-- After a failure that has gone through some groups and left the others alone,
a retry repeats an execution exactly when it repeats the groups gone through. -/
theorem retriesAs_iff {after : InMemoryGbkState} (hAfter : Sound after)
    (touched : GroupIdentity → Prop)
    (hTouched : ∀ identity, touched identity → after.states.lookup identity =
      (groupRun ctx.spec (ctx.run orders input) identity (inner.states.lookup identity)).1)
    (hAlone : ∀ identity, ¬ touched identity → after.states.lookup identity =
      (inner.states.lookup identity).map WindowState.begun) :
    RetriesAs [] (after.executeRun ctx.spec (ctx.run other input))
        (inner.executeRun ctx.spec (ctx.run single input)) ↔
      ∀ identity, touched identity →
        RepeatsGroup ctx (callsGroups ctx orders input.calls) inner identity := by
  have hOf := inputGroups_ofKeys hCtx hOrders hInput
  have hNodup : ((ctx.run orders input).groups.map GroupInput.identity).Nodup := hOf.nodup
  rw [RetriesAs, List.nil_append, perm_iff_panesOf
    (executeRun_ofGroups hCtx hInput hAfter hOther) (executeRun_ofGroups hCtx hInput h hSingle),
    ← forall_and]
  refine forall_congr' fun identity => ?_
  obtain ⟨hRetried, hRetriedPanes⟩ := executeRun_orders hCtx hInput hAfter hOrders hOther hMerges
    identity
  obtain ⟨hOnce, hOncePanes⟩ := executeRun_orders hCtx hInput h hOrders hSingle hMerges identity
  rw [hRetried, hRetriedPanes, hOnce, hOncePanes]
  by_cases hIs : touched identity
  · have hShort : ∀ stored, (groupRun ctx.spec (ctx.run orders input) identity stored).2.length ≤ 1 :=
      groupRun_length hNodup
    rw [hTouched identity hIs, forall_prop_of_true hIs]
    refine Iff.trans (and_congr_left fun _ => ?_) (groupRun_retry_iff hNodup hOf.elements
      (h.used identity) fun group hGroup => h.ofWindow (hOf.fits group hGroup))
    exact ⟨fun hPerm => eq_of_perm_short hPerm (hShort _), List.Perm.of_eq⟩
  · rw [hAlone identity hIs, groupRun_begun]
    exact iff_of_true ⟨List.Perm.refl _, rfl⟩ fun hTouches => absurd hTouches hIs

include hCtx hInput h hOrders in
/-- What feeding some of an execution's groups does to each of them. -/
theorem applyGroups_lookup {groups : List GroupInput}
    (hSub : ∀ group ∈ groups, group ∈ callsGroups ctx orders input.calls)
    (hNodup : (groups.map GroupInput.identity).Nodup) (identity : GroupIdentity) :
    let after := (inner.beginRun.applyGroups ctx.spec ctx.inputWatermark ctx.processingTime
      groups).1
    ((∀ group ∈ groups, group.identity ≠ identity) ∧ after.states.lookup identity =
        (inner.states.lookup identity).map WindowState.begun) ∨
      ∃ group ∈ groups, group.identity = identity ∧
        after.states.lookup identity = (feedGroup ctx.spec ctx.inputWatermark ctx.processingTime
          false group ((inner.states.lookup identity).map WindowState.begun)).1 ∧
        groupRun ctx.spec (ctx.run orders input) identity (inner.states.lookup identity) =
          feedGroup ctx.spec ctx.inputWatermark ctx.processingTime false group
            ((inner.states.lookup identity).map WindowState.begun) := by
  have hOf := inputGroups_ofKeys hCtx hOrders hInput
  have hBegin : Grouped inner.beginRun.states := h.grouped.begin
  obtain ⟨_, hLookup, _⟩ := applyGroups_group hCtx.lateness ctx.inputWatermark ctx.processingTime
    groups hBegin (fun group hGroup => hOf.fits group (hSub group hGroup))
    (fun group hGroup => hOf.elements group (hSub group hGroup)) identity
  have hBegun : inner.beginRun.states.lookup identity =
      (inner.states.lookup identity).map WindowState.begun := lookup_mapValues _ _ _
  let fed : GbkRun := { ctx.run orders input with groups := groups }
  have hFedNodup : (fed.groups.map GroupInput.identity).Nodup := hNodup
  rw [hBegun] at hLookup
  intro after
  rcases groupsOf_cases hFedNodup identity with ⟨hNone, hNoGroup⟩ |
    ⟨group, hGroup, hSame, hOne, _⟩
  · have hNoInput : (groups.filter fun group => decide (group.identity = identity)) = [] := hNone
    rw [hNoInput] at hLookup
    exact .inl ⟨hNoGroup, hLookup⟩
  · have hInput : (groups.filter fun group => decide (group.identity = identity)) = [group] := hOne
    rw [hInput] at hLookup
    refine .inr ⟨group, hGroup, hSame, hLookup, ?_⟩
    have hAllNodup : ((ctx.run orders input).groups.map GroupInput.identity).Nodup := hOf.nodup
    rcases groupsOf_cases hAllNodup identity with ⟨_, hNot⟩ | ⟨other, _, _, hOther, hOnly⟩
    · exact absurd hSame (hNot group (hSub group hGroup))
    · rw [← hOnly group (hSub group hGroup) hSame] at hOther
      exact groupRun_fed hOther _

include hCtx hInput hOrders in
/-- No group is fed twice before the failure. -/
theorem fedCalls_nodup (point : FailurePoint) :
    ((callsGroups ctx orders (point.fedCalls input.calls)).map GroupInput.identity).Nodup := by
  have hTake : ∀ count, ((callsGroups ctx orders (input.calls.take count)).map
      GroupInput.identity).Nodup := by
    intro count
    refine (callsGroups_ofKeys hCtx.mergesFit hOrders ?_).nodup
    exact hInput.keyGroupsDecoded.sublist ((List.take_sublist count input.calls).flatMap _)
  cases point with
  | opening => exact List.nodup_nil
  | batch index => exact hTake index
  | flush index => exact hTake (index + 1)
  | drain _ | output | commit | cursor => exact (inputGroups_ofKeys hCtx hOrders hInput).nodup

include hCtx hInput h hOrders hOther hMerges hSingle in
/-- A failure while the input is read. -/
theorem retries_reading_iff (point : FailurePoint) :
    RetriesAs [] ((inner.beginRun.applyGroups ctx.spec ctx.inputWatermark ctx.processingTime
          (callsGroups ctx orders (point.fedCalls input.calls))).1.executeRun ctx.spec
            (ctx.run other input)) (inner.executeRun ctx.spec (ctx.run single input)) ↔
      ∀ group ∈ callsGroups ctx orders (point.fedCalls input.calls),
        inner.states.lookup group.identity = none ∧
          windowExpired ctx.spec group.window ctx.inputWatermark = true := by
  have hSub : ∀ group ∈ callsGroups ctx orders (point.fedCalls input.calls),
      group ∈ callsGroups ctx orders input.calls := point.fedCalls_subset input.calls
  have hNodup := fedCalls_nodup hCtx hInput hOrders point
  have hOf := inputGroups_ofKeys hCtx hOrders hInput
  have hEach := applyGroups_lookup hCtx hInput h hOrders hSub hNodup
  rw [retriesAs_iff hCtx hInput h hOrders hOther hMerges hSingle
    (h.applyGroups hCtx hOrders hInput hSub) fun identity =>
      ∃ group ∈ callsGroups ctx orders (point.fedCalls input.calls), group.identity = identity]
  · constructor
    · intro hRepeats group hGroup
      exact (hRepeats group.identity ⟨group, hGroup, rfl⟩).1 group (hSub group hGroup) rfl
    · rintro hClean identity ⟨group, hGroup, rfl⟩
      refine ⟨fun later hLater hSame => ?_, fun state hState => ?_⟩
      · rw [List.inj_on_of_nodup_map hOf.nodup hLater (hSub group hGroup) hSame]
        exact hClean group hGroup
      · rw [(hClean group hGroup).1] at hState
        cases hState
  · rintro identity ⟨group, hGroup, hSame⟩
    rcases hEach identity with ⟨hNone, _⟩ | ⟨fed, _, _, hLookup, hRun⟩
    · exact absurd hSame (hNone group hGroup)
    · rw [hLookup, hRun]
  · intro identity hNot
    rcases hEach identity with ⟨_, hLookup⟩ | ⟨fed, hFed, hSame, _⟩
    · exact hLookup
    · exact absurd ⟨fed, hFed, hSame⟩ hNot

include hCtx hInput h hOrders hOther hMerges hSingle in
/-- A failure after all groups have been gone through, before the commit. -/
theorem retries_writing_iff :
    RetriesAs [] ((inner.executeRun ctx.spec (ctx.run orders input)).1.executeRun ctx.spec
          (ctx.run other input)) (inner.executeRun ctx.spec (ctx.run single input)) ↔
      (∀ group ∈ callsGroups ctx orders input.calls,
        inner.states.lookup group.identity = none ∧
          windowExpired ctx.spec group.window ctx.inputWatermark = true) ∧
      ∀ identity state, inner.states.lookup identity = some state →
        ¬ Ready ctx.spec ctx.inputWatermark ctx.processingTime state := by
  rw [retriesAs_iff hCtx hInput h hOrders hOther hMerges hSingle
    (h.executeRun hCtx hOrders hInput) fun _ => True]
  · constructor
    · intro hRepeats
      exact ⟨fun group hGroup => (hRepeats group.identity trivial).1 group hGroup rfl,
        fun identity => (hRepeats identity trivial).2⟩
    · rintro ⟨hClean, hQuiet⟩ identity _
      refine ⟨fun group hGroup hSame => ?_, hQuiet identity⟩
      rw [← hSame]
      exact hClean group hGroup
  · exact fun identity _ => (executeRun_orders hCtx hInput h hOrders hOrders hMerges identity).1
  · exact fun identity hNot => absurd trivial hNot

/-- A group that emits a pane was ready. -/
theorem ready_of_pane {spec : TriggerSpec} {inputWatermark processingTime : Int64}
    {state : WindowState} (hOpen : state.closed = false)
    (hPane : (evaluateGroup spec inputWatermark processingTime (some state.begun)).2 ≠ []) :
    Ready spec inputWatermark processingTime state := by
  refine ⟨fun hEmpty => hPane (evaluateGroup_empty spec inputWatermark processingTime hOpen
    hEmpty).1, ?_⟩
  by_contra hIdle
  refine hPane ?_
  rw [evaluateGroup_idle spec inputWatermark processingTime hOpen (Bool.eq_false_iff.mpr hIdle)]

include hCtx hInput h hOrders hOther hMerges hSingle in
/-- A failure to write a round of the drain loop: the groups of the round are
lost. -/
theorem not_retries_draining {done : List GroupIdentity} {after : InMemoryGbkState}
    {panes : List WindowedValue} (hSome : panes ≠ [])
    (hDone : Evaluates ctx.spec ctx.inputWatermark ctx.processingTime done
      (inner.beginRun.applyGroups ctx.spec ctx.inputWatermark ctx.processingTime
        (callsGroups ctx orders input.calls)).1.states after.states panes) (hAfter : Sound after) :
    ¬ RetriesAs [] (after.executeRun ctx.spec (ctx.run other input))
        (inner.executeRun ctx.spec (ctx.run single input)) ∧
      ∃ identity state, inner.states.lookup identity = some state ∧
        Ready ctx.spec ctx.inputWatermark ctx.processingTime state := by
  have hOf := inputGroups_ofKeys hCtx hOrders hInput
  have hEach := applyGroups_lookup hCtx hInput h hOrders (fun _ hGroup => hGroup) hOf.nodup
  -- a pane of the round that could not be written
  obtain ⟨pane, hPane⟩ := List.exists_mem_of_ne_nil panes hSome
  obtain ⟨identity, hIdentity⟩ := hDone.owned pane hPane
  have hOwn : panesOf identity panes ≠ [] :=
    List.ne_nil_of_mem (List.mem_filter.mpr ⟨hPane, decide_eq_true hIdentity⟩)
  rw [hDone.panes] at hOwn
  have hPassed : identity ∈ done := by
    by_contra hNot
    rw [if_neg hNot] at hOwn
    exact hOwn rfl
  rw [if_pos hPassed] at hOwn
  have hReady : ∃ state, inner.states.lookup identity = some state ∧
      Ready ctx.spec ctx.inputWatermark ctx.processingTime state := by
    rcases hEach identity with ⟨_, hLookup⟩ | ⟨group, _, _, hLookup, hRun⟩
    · rw [hLookup] at hOwn
      cases hStored : inner.states.lookup identity with
      | none =>
          rw [hStored] at hOwn
          exact absurd rfl hOwn
      | some state =>
          rw [hStored] at hOwn
          exact ⟨state, rfl, ready_of_pane (h.used identity state hStored).1 hOwn⟩
    · refine absurd ?_ hOwn
      rw [hLookup, evaluateGroup_fed]
  obtain ⟨state, hState, hIsReady⟩ := hReady
  refine ⟨fun hRetries => ?_, identity, state, hState, hIsReady⟩
  rw [retriesAs_iff hCtx hInput h hOrders hOther hMerges hSingle hAfter fun identity =>
    (∃ group ∈ callsGroups ctx orders input.calls, group.identity = identity) ∨
      identity ∈ done] at hRetries
  · exact (hRetries identity (.inr hPassed)).2 state hState hIsReady
  · intro identity hTouched
    rw [hDone.lookup]
    rcases hEach identity with ⟨hNone, hLookup⟩ | ⟨group, _, _, hLookup, hRun⟩
    · have hIn : identity ∈ done := hTouched.resolve_left fun ⟨group, hGroup, hSame⟩ =>
        hNone group hGroup hSame
      have hIdle : (ctx.run orders input).groupsOf identity = [] :=
        List.filter_eq_nil_iff.mpr fun group hGroup hSame =>
          hNone group hGroup (of_decide_eq_true hSame)
      rw [if_pos hIn, hLookup, groupRun_idle hIdle]
      rfl
    · rw [hLookup, hRun, evaluateGroup_fed]
      exact ite_self _
  · intro identity hNot
    rw [not_or] at hNot
    rw [hDone.lookup, if_neg hNot.2]
    rcases hEach identity with ⟨_, hLookup⟩ | ⟨group, hGroup, hSame, _⟩
    · exact hLookup
    · exact absurd ⟨group, hGroup, hSame⟩ hNot.1

include hCtx hInput h hOrders hOther hMerges hSingle in
/-- A failure at the cursor, with all panes committed. -/
theorem retries_cursor_iff {committed : List WindowedValue}
    (hCommitted : committed.Perm (inner.executeRun ctx.spec (ctx.run orders input)).2) :
    RetriesAs committed ((inner.executeRun ctx.spec (ctx.run orders input)).1.executeRun ctx.spec
          (ctx.run other input)) (inner.executeRun ctx.spec (ctx.run single input)) ↔
      callsGroups ctx orders input.calls = [] ∧ ∀ identity state,
        inner.states.lookup identity = some state →
          ¬ FiresAgain ctx.spec ctx.inputWatermark ctx.processingTime state := by
  have hAfter := h.executeRun hCtx hOrders hInput
  have hOf := inputGroups_ofKeys hCtx hOrders hInput
  have hNodup : ((ctx.run orders input).groups.map GroupInput.identity).Nodup := hOf.nodup
  have hGroups := executeRun_ofGroups hCtx hInput h hOrders
  have hAllGroups : OfGroups (committed ++ ((inner.executeRun ctx.spec
      (ctx.run orders input)).1.executeRun ctx.spec (ctx.run other input)).2) := by
    intro pane hPane
    rcases List.mem_append.mp hPane with hOld | hNew
    · exact hGroups pane (hCommitted.mem_iff.mp hOld)
    · exact executeRun_ofGroups hCtx hInput hAfter hOther pane hNew
  rw [RetriesAs, perm_iff_panesOf hAllGroups (executeRun_ofGroups hCtx hInput h hSingle),
    ← forall_and]
  have hSplit : (callsGroups ctx orders input.calls = [] ∧ ∀ identity state,
        inner.states.lookup identity = some state →
          ¬ FiresAgain ctx.spec ctx.inputWatermark ctx.processingTime state) ↔
      ∀ identity, (∀ group ∈ callsGroups ctx orders input.calls, group.identity ≠ identity) ∧
        ∀ state, inner.states.lookup identity = some state →
          ¬ FiresAgain ctx.spec ctx.inputWatermark ctx.processingTime state := by
    rw [forall_and]
    refine and_congr_left fun _ => ⟨fun hNone => ?_, fun hNone => ?_⟩
    · rw [hNone]
      simp
    · exact List.eq_nil_iff_forall_not_mem.mpr fun group hGroup =>
        hNone group.identity group hGroup rfl
  rw [hSplit]
  refine forall_congr' fun identity => ?_
  obtain ⟨hRetried, hRetriedPanes⟩ := executeRun_orders hCtx hInput hAfter hOrders hOther
    hMerges identity
  obtain ⟨hOnce, hOncePanes⟩ := executeRun_orders hCtx hInput h hOrders hSingle hMerges identity
  obtain ⟨hFirst, hFirstPanes⟩ := executeRun_orders hCtx hInput h hOrders hOrders hMerges
    identity
  have hOld : (panesOf identity committed).Perm (groupRun ctx.spec (ctx.run orders input)
      identity (inner.states.lookup identity)).2 := by
    rw [← hFirstPanes]
    exact hCommitted.filter _
  refine Iff.trans (and_congr ?_ ?_) (groupRun_again_iff hNodup hOf.elements (h.used identity))
  · rw [panesOf_append, hRetriedPanes, hFirst, hOncePanes]
    constructor
    · intro hSame
      have hLength := ((hOld.append_right _).symm.trans hSame).length_eq
      rw [List.length_append] at hLength
      exact List.length_eq_zero_iff.mp (by omega)
    · intro hNone
      rw [hNone, List.append_nil]
      exact hOld
  · rw [hRetried, hFirst, hOnce]
include hCtx hInput h hOrders hOther hMerges hSingle in
/-- A retry repeats an execution exactly when the failure was safe to retry. -/
theorem LeavesBehind.retries_iff {point : FailurePoint} {after : InMemoryGbkState}
    {committed : List WindowedValue}
    (hLeaves : LeavesBehind ctx orders input inner point after committed) :
    RetriesAs committed (after.executeRun ctx.spec (ctx.run other input))
        (inner.executeRun ctx.spec (ctx.run single input)) ↔
      point.RetrySafe ctx orders input inner := by
  have hAfter := hLeaves.sound hCtx hOrders hInput h
  cases hLeaves with
  | reading point hReading =>
      have hIff := retries_reading_iff hCtx hInput h hOrders hOther hMerges hSingle point
      rcases hReading with rfl | ⟨index, rfl⟩ | ⟨index, rfl⟩
      all_goals exact hIff
  | draining round done panes after hSome hDone =>
      obtain ⟨hNot, identity, state, hState, hReady⟩ := not_retries_draining hCtx hInput h hOrders
        hOther hMerges hSingle hSome hDone hAfter
      exact iff_of_false hNot fun hSafe => hSafe.2 identity state hState hReady
  | writing point hWriting =>
      have hIff := retries_writing_iff hCtx hInput h hOrders hOther hMerges hSingle
      rcases hWriting with rfl | rfl
      all_goals exact hIff
  | cursor committed hCommitted =>
      exact retries_cursor_iff hCtx hInput h hOrders hOther hMerges hSingle hCommitted

end Retry

/-- Whether a retry gives what a single run gives does not depend on the order of
panes. -/
theorem RetriesAs.perm_iff {committed : List WindowedValue} {retried single : InMemoryGbkState}
    {retriedPanes singlePanes panes once : List WindowedValue} (hRetried : retriedPanes.Perm panes)
    (hSingle : singlePanes.Perm once) :
    RetriesAs committed (retried, retriedPanes) (single, singlePanes) ↔
      RetriesAs committed (retried, panes) (single, once) := by
  refine and_congr_left fun _ => ⟨fun hPerm => ?_, fun hPerm => ?_⟩
  · exact ((hRetried.append_left committed).symm.trans hPerm).trans hSingle
  · exact ((hRetried.append_left committed).trans hPerm).trans hSingle.symm

/-- Retrying a failed execution over the same input, together with what it had
committed, amounts to one execution exactly when the failure was safe to retry. -/
theorem execute_retries_iff (ctx : GbkContext) (input : GbkInput) (inner : InMemoryGbkState)
    (orders retryOrders singleOrders : HashOrders) (point : FailurePoint) (error : String)
    (left : Failure) (single : InMemoryGbkState × List WindowedValue) (hCtx : ctx.Proper)
    (hInput : input.Proper) (hInner : ReachedBackend inner) (hOrders : orders.Proper)
    (hRetryOrders : retryOrders.Proper) (hSingleOrders : singleOrders.Proper)
    (hFailed : execute ctx orders (some (point, error)) input inner = .error left)
    (hSingle : execute ctx singleOrders none input inner = .ok single) :
    ∃ retried, execute ctx retryOrders none input left.inner = .ok retried ∧
      (RetriesAs left.committed retried single ↔ point.RetrySafe ctx orders input inner) := by
  have hSound := hInner.sound
  have hFits := fun {orders : HashOrders} (hOrders : orders.Proper) =>
    (inputGroups_ofKeys hCtx hOrders hInput).fits
  rcases execute_cases none (hFits hSingleOrders) hSound.grouped with
    ⟨hMerges, once, hOnce, hOk⟩ | ⟨_, _, _, _, hNone, _⟩ | ⟨_, _, _, hError⟩
  · rw [hSingle, Except.ok.injEq] at hOk
    subst hOk
    obtain ⟨hFailedMerges, _⟩ := callsGroups_orders hSingleOrders hOrders hMerges
    rcases execute_cases (some (point, error)) (hFits hOrders) hSound.grouped with
      ⟨_, _, _, hOk⟩ | ⟨found, reason, after, committed, hPoint, hLeaves, hError⟩ |
        ⟨⟨call, hCall, message, hMessage⟩, _⟩
    · rw [hFailed] at hOk
      cases hOk
    · rw [hFailed, Except.error.injEq] at hError
      subst hError
      obtain ⟨rfl, rfl⟩ : point = found ∧ error = reason := by
        simpa using hPoint
      have hAfter := hLeaves.sound hCtx hOrders hInput hSound
      obtain ⟨hRetryMerges, _⟩ := callsGroups_orders hSingleOrders hRetryOrders hMerges
      rcases execute_cases none (hFits hRetryOrders) hAfter.grouped with
        ⟨_, panes, hPanes, hRetried⟩ | ⟨_, _, _, _, hNone, _⟩ |
          ⟨⟨call, hCall, message, hMessage⟩, _⟩
      · refine ⟨_, hRetried, ?_⟩
        rw [RetriesAs.perm_iff hPanes hOnce]
        exact hLeaves.retries_iff hCtx hInput hSound hOrders hRetryOrders hFailedMerges
          hSingleOrders
      · cases hNone
      · obtain ⟨groups, hGroups⟩ := hRetryMerges call hCall
        rw [hMessage] at hGroups
        cases hGroups
    · obtain ⟨groups, hGroups⟩ := hFailedMerges call hCall
      rw [hMessage] at hGroups
      cases hGroups
  · cases hNone
  · rw [hSingle] at hError
    cases hError

def retryContext (inputWatermark : Int64) : GbkContext where
  spec := latenessSpec 0
  needsMerge := false
  windowMerger := none
  inputPcollectionId := "input"
  inputWatermark := inputWatermark
  processingTime := 0

theorem retryContext_proper (inputWatermark : Int64) : (retryContext inputWatermark).Proper where
  lateness := by
    show (0 : Int64) ≤ 0
    decide
  mergesFit := fun _ hNone => by cases hNone

def plainOrders : HashOrders where
  merge := id
  scan := id

theorem plainOrders_proper : plainOrders.Proper :=
  ⟨fun _ => List.Perm.refl _, fun _ => List.Perm.refl _⟩

/-- At most one row, in a bucket of its own. -/
def rowInput (rows : List GbkRow) (latest : Int64) : GbkInput where
  buckets := rows.map fun row => [[row]]
  latest := some latest

theorem rowInput_proper (startMillis endMillis latest : Int64) :
    (rowInput [sessionRow startMillis endMillis] latest).Proper where
  sorted := by
    intro bucket hBucket
    rw [List.mem_singleton.mp hBucket]
    exact List.pairwise_singleton _ _
  fits := by
    intro bucket hBucket row hRow
    rw [List.mem_singleton.mp hBucket] at hRow
    rw [List.mem_singleton.mp hRow]
    trivial
  apart := List.pairwise_singleton _ _

theorem rowInput_nil_proper (latest : Int64) : (rowInput [] latest).Proper where
  sorted := fun bucket hBucket => by cases hBucket
  fits := fun bucket hBucket => by cases hBucket
  apart := List.Pairwise.nil

/-- A group of an expired window is emitted at once, so its failed commit can be
retried. -/
theorem execute_retries_expired :
    ∃ left retried single,
      execute (retryContext 200) plainOrders (some (.commit, "commit failed"))
          (rowInput [sessionRow 0 100] 1) InMemoryGbkState.empty = .error left ∧
        execute (retryContext 200) plainOrders none (rowInput [sessionRow 0 100] 1)
          left.inner = .ok retried ∧
        execute (retryContext 200) plainOrders none (rowInput [sessionRow 0 100] 1)
          InMemoryGbkState.empty = .ok single ∧
        RetriesAs left.committed retried single := by
  obtain ⟨left, hFailed⟩ : ∃ left, execute (retryContext 200) plainOrders
      (some (.commit, "commit failed")) (rowInput [sessionRow 0 100] 1)
      InMemoryGbkState.empty = .error left := ⟨_, rfl⟩
  obtain ⟨single, hSingle⟩ : ∃ single, execute (retryContext 200) plainOrders none
      (rowInput [sessionRow 0 100] 1) InMemoryGbkState.empty = .ok single := ⟨_, rfl⟩
  obtain ⟨retried, hRetried, hIff⟩ := execute_retries_iff (retryContext 200)
    (rowInput [sessionRow 0 100] 1) InMemoryGbkState.empty plainOrders plainOrders plainOrders
    .commit "commit failed" left single (retryContext_proper 200) (rowInput_proper 0 100 1) .empty
    plainOrders_proper plainOrders_proper plainOrders_proper hFailed hSingle
  refine ⟨left, retried, single, hFailed, hRetried, hSingle, hIff.mpr ⟨?_, ?_⟩⟩
  · intro group hGroup
    have hIs : group = ⟨.string "k", .interval 0 100, [(sessionRow 0 100).element]⟩ :=
      List.mem_singleton.mp hGroup
    rw [hIs]
    exact ⟨rfl, by decide⟩
  · intro identity state hState
    cases hState

/-- A stored group fires, its pane cannot be committed, and the retry no longer
finds it. -/
theorem not_execute_retries :
    ¬ ∀ (ctx : GbkContext) (input : GbkInput) (inner : InMemoryGbkState)
      (orders retryOrders singleOrders : HashOrders) (point : FailurePoint) (error : String)
      (left : Failure) (single : InMemoryGbkState × List WindowedValue), ctx.Proper →
      input.Proper → ReachedBackend inner → orders.Proper → retryOrders.Proper →
      singleOrders.Proper →
      execute ctx orders (some (point, error)) input inner = .error left →
      execute ctx singleOrders none input inner = .ok single →
      ∃ retried, execute ctx retryOrders none input left.inner = .ok retried ∧
        RetriesAs left.committed retried single := by
  intro h
  obtain ⟨stored, hStored⟩ : ∃ stored, execute (retryContext 0) plainOrders none
      (rowInput [sessionRow 0 100] 1) InMemoryGbkState.empty = .ok stored := ⟨_, rfl⟩
  have hReached : ReachedBackend stored.1 := .completed (retryContext_proper 0) plainOrders_proper
    (rowInput_proper 0 100 1) .empty hStored
  cases hStored
  obtain ⟨retried, hRetried, hPanes, _⟩ := h (retryContext 200) (rowInput [] 2) _ plainOrders
    plainOrders plainOrders .commit "commit failed" _ _ (retryContext_proper 200)
    (rowInput_nil_proper 2) hReached plainOrders_proper plainOrders_proper plainOrders_proper rfl
    rfl
  cases hRetried
  exact absurd hPanes.length_eq (by decide)

end FlareDB
