import FlareDB.Transforms.GbkPanes

/-! Runs that bring a group no new element. The elements a group was given since
its last pane are counted beside the history: a discarding group holds exactly
them, an accumulating group keeps the older ones as well. An empty pane is
suppressed by what the group holds, so only a discarding group is silent until
it is given an element again. -/
namespace FlareDB

open KeyedStore

namespace InMemoryGbkState

variable (spec : TriggerSpec) (identity : GroupIdentity)

/-- The elements given to a group since its last pane, while a run is fed. -/
def feedFresh (inputWatermark processingTime : Int64) :
    List GroupInput → InMemoryGbkState → List PaneElement → List PaneElement
  | [], _, fresh => fresh
  | group :: groups, inner, fresh =>
      let (next, value) := inner.applyGroup group.key group.window group.elements spec
        inputWatermark processingTime
      feedFresh inputWatermark processingTime groups next
        (if group.identity = identity then
          if value.isSome then [] else fresh ++ group.elements
        else fresh)

/-- The same over a whole run. -/
def runFresh (inner : InMemoryGbkState) (run : GbkRun) (fresh : List PaneElement) :
    List PaneElement :=
  let (fed, _) := inner.beginRun.applyGroups spec run.inputWatermark run.processingTime run.groups
  let (_, ready) := drainReady spec run.order run.inputWatermark run.processingTime
    (fed.states.entries.length + 1) fed
  if (panesOf identity ready).isEmpty then
    feedFresh spec identity run.inputWatermark run.processingTime run.groups inner.beginRun fresh
  else []

def historyFresh : List GbkRun → InMemoryGbkState → List PaneElement → List PaneElement
  | [], _, fresh => fresh
  | run :: runs, inner, fresh =>
      historyFresh runs (inner.executeRun spec run).1 (runFresh spec identity inner run fresh)

end InMemoryGbkState

/-- What a group holds, against the elements it was given since its last pane. -/
structure HoldsFresh (spec : TriggerSpec) (fresh : List PaneElement) (stored : Option WindowState) :
    Prop where
  absent : stored = none → fresh = []
  discarding : ∀ state, stored = some state → spec.accumulation = .discarding →
    state.elements = fresh
  accumulating : ∀ state, stored = some state → spec.accumulation ≠ .discarding →
    state.elements ≠ []

namespace HoldsFresh

variable {spec : TriggerSpec} {fresh : List PaneElement}

theorem begun {stored : Option WindowState} (h : HoldsFresh spec fresh stored) :
    HoldsFresh spec fresh (stored.map WindowState.begun) := by
  cases stored with
  | none => exact h
  | some state =>
      refine ⟨fun hNone => (by cases hNone), ?_, ?_⟩
      · rintro _ ⟨⟩ hMode
        exact h.discarding state rfl hMode
      · rintro _ ⟨⟩ hMode
        exact h.accumulating state rfl hMode

/-- A group written back holds what it held, and one that closes holds nothing
new. -/
theorem kept {state : WindowState} (hClosed : state.closed = true → fresh = [])
    (hDiscarding : spec.accumulation = .discarding → state.elements = fresh)
    (hAccumulating : spec.accumulation ≠ .discarding → state.elements ≠ []) :
    HoldsFresh spec fresh state.kept := by
  unfold WindowState.kept
  split
  · next hDone => exact ⟨fun _ => hClosed hDone, fun _ hNone => (by cases hNone),
      fun _ hNone => (by cases hNone)⟩
  · refine ⟨fun hNone => (by cases hNone), ?_, ?_⟩
    · rintro _ ⟨⟩
      exact hDiscarding
    · rintro _ ⟨⟩
      exact hAccumulating

/-- Evaluating an open group: a pane takes the new elements with it. -/
theorem fireState {state : WindowState} (h : HoldsFresh spec fresh (some state))
    (hOpen : state.closed = false) (inputWatermark processingTime : Int64) :
    HoldsFresh spec
      (if (fireState state spec inputWatermark processingTime).2.isSome then [] else fresh)
      (fireState state spec inputWatermark processingTime).1.kept := by
  unfold FlareDB.fireState
  dsimp only
  split
  · exact kept (fun hClosed => by rw [hOpen] at hClosed; cases hClosed)
      (h.discarding state rfl) (h.accumulating state rfl)
  · split
    · next hEmpty =>
        -- only a discarding group is ever empty, and then nothing is new
        have hNone : state.elements = [] := List.isEmpty_iff.mp hEmpty
        have hMode : spec.accumulation = .discarding := by
          by_contra hMode
          exact h.accumulating state rfl hMode hNone
        have hFresh : fresh = [] := (h.discarding state rfl hMode).symm.trans hNone
        exact kept (fun _ => hFresh) (fun _ => by simp [hMode, hFresh])
          (fun hNot => absurd hMode hNot)
    · next hSome =>
        exact kept (fun _ => rfl) (fun hMode => by simp [hMode])
          (fun hMode => by simpa [hMode] using hSome)

/-- Giving a group elements before it is evaluated. -/
theorem fed {group : GroupInput} {stored : Option WindowState} (h : HoldsFresh spec fresh stored)
    (hElements : group.elements ≠ []) (processingTime : Int64) :
    HoldsFresh spec (fresh ++ group.elements)
      (some (fedState spec processingTime group stored)) := by
  refine ⟨fun hNone => (by cases hNone), ?_, ?_⟩
  · rintro _ ⟨⟩ hMode
    cases stored with
    | none =>
        rw [h.absent rfl]
        rfl
    | some state =>
        rw [← h.discarding state rfl hMode]
        rfl
  · rintro _ ⟨⟩ _
    simp [fedState, InMemoryGbkState.addElements, hElements]

/-- Evaluating a stored group in the drain loop. -/
theorem evaluateGroup {stored : Option WindowState} (h : HoldsFresh spec fresh stored)
    (hOpen : ∀ state, stored = some state → state.closed = false)
    (inputWatermark processingTime : Int64) :
    HoldsFresh spec
      (if (evaluateGroup spec inputWatermark processingTime stored).2.isEmpty then fresh else [])
      (evaluateGroup spec inputWatermark processingTime stored).1 := by
  cases stored with
  | none => exact h
  | some state =>
      rw [FlareDB.evaluateGroup]
      split
      · exact h
      · have hFired := h.fireState (hOpen state rfl) inputWatermark processingTime
        revert hFired
        dsimp only
        rcases FlareDB.fireState state spec inputWatermark processingTime with ⟨next, pane⟩
        cases pane <;> exact id

end HoldsFresh

namespace InMemoryGbkState

variable {spec : TriggerSpec} {inner : InMemoryGbkState} {fresh : List PaneElement}

theorem isSome_applyGroup (group : GroupInput) (inputWatermark processingTime : Int64) :
    (inner.applyGroup group.key group.window group.elements spec inputWatermark
      processingTime).2.isSome =
      (inner.emitsDirectly group.window spec inputWatermark ||
        (fireState (fedState spec processingTime group (inner.states.lookup group.identity)) spec
          inputWatermark processingTime).2.isSome) := by
  unfold applyGroup
  split
  · next hDirect => rw [hDirect]; rfl
  · next hStored => rw [Bool.eq_false_iff.mpr hStored]; rfl

/-- Feeding a group keeps count of its new elements. -/
theorem holdsFresh_applyGroup (h : Grouped inner.states) {group : GroupInput}
    (hFits : group.window.CoderIdFits) (hElements : group.elements ≠ [])
    (inputWatermark processingTime : Int64)
    (hFresh : HoldsFresh spec fresh (inner.states.lookup group.identity)) :
    HoldsFresh spec
      (if (inner.applyGroup group.key group.window group.elements spec inputWatermark
        processingTime).2.isSome then [] else fresh ++ group.elements)
      (feedGroup spec inputWatermark processingTime
        (inner.emitsDirectly group.window spec inputWatermark) group
        (inner.states.lookup group.identity)).1 := by
  rw [isSome_applyGroup]
  cases hDirect : inner.emitsDirectly group.window spec inputWatermark with
  | true =>
      rw [lookup_of_emitsDirectly hDirect]
      exact ⟨fun _ => rfl, fun _ hNone => (by cases hNone), fun _ hNone => (by cases hNone)⟩
  | false =>
      obtain ⟨_, _, hOpen, _⟩ := groupState_spec h hFits (TriggerRunner.new spec.trigger)
      exact (hFresh.fed hElements processingTime).fireState hOpen inputWatermark processingTime

theorem holdsFresh_applyGroups (groups : List GroupInput) (h : Grouped inner.states)
    (hFits : ∀ group ∈ groups, group.window.CoderIdFits)
    (hElements : ∀ group ∈ groups, group.elements ≠ []) {identity : GroupIdentity}
    (inputWatermark processingTime : Int64)
    (hFresh : HoldsFresh spec fresh (inner.states.lookup identity)) :
    Grouped (inner.applyGroups spec inputWatermark processingTime groups).1.states ∧
      HoldsFresh spec
        (feedFresh spec identity inputWatermark processingTime groups inner fresh)
        ((inner.applyGroups spec inputWatermark processingTime groups).1.states.lookup
          identity) := by
  induction groups generalizing inner fresh with
  | nil => exact ⟨h, hFresh⟩
  | cons group groups ih =>
      have hGroupFits := hFits group (by simp)
      obtain ⟨hGrouped, hLookup, _⟩ := applyGroup_group spec inputWatermark processingTime h
        hGroupFits identity
      rw [feedFresh, applyGroups]
      refine ih hGrouped (fun other hOther => hFits other (by simp [hOther]))
        (fun other hOther => hElements other (by simp [hOther])) ?_
      rw [hLookup]
      split
      · next hOwn =>
          subst hOwn
          exact holdsFresh_applyGroup h hGroupFits (hElements group (by simp)) inputWatermark
            processingTime hFresh
      · exact hFresh

/-- A run keeps count of a group's new elements. -/
theorem holdsFresh_executeRun {run : GbkRun} (hRun : run.Decoded) (h : Grouped inner.states)
    {identity : GroupIdentity} (hFresh : HoldsFresh spec fresh (inner.states.lookup identity)) :
    Grouped (inner.executeRun spec run).1.states ∧
      HoldsFresh spec (runFresh spec identity inner run fresh)
        ((inner.executeRun spec run).1.states.lookup identity) := by
  have hBegun : inner.beginRun.states.lookup identity =
      (inner.states.lookup identity).map WindowState.begun := lookup_mapValues _ _ _
  obtain ⟨hFed, hFedFresh⟩ := holdsFresh_applyGroups run.groups h.begin hRun.fits hRun.elements
    run.inputWatermark run.processingTime (by rw [hBegun]; exact hFresh.begun)
  obtain ⟨hDrained, hLookup, hPanes⟩ := drainReady_group spec run.inputWatermark
    run.processingTime hRun.order hFed (readyScan_fed spec inner run) identity
  refine ⟨hDrained, ?_⟩
  have hEvaluated := hFedFresh.evaluateGroup (fun state hState => (hFed _ state hState).2.2)
    run.inputWatermark run.processingTime
  rw [← hPanes, ← hLookup] at hEvaluated
  exact hEvaluated

theorem holdsFresh_executeRuns (runs : List GbkRun) (hRuns : ∀ run ∈ runs, run.Decoded)
    (h : Grouped inner.states) {identity : GroupIdentity}
    (hFresh : HoldsFresh spec fresh (inner.states.lookup identity)) :
    Grouped (inner.executeRuns spec runs).1.states ∧
      HoldsFresh spec (historyFresh spec identity runs inner fresh)
        ((inner.executeRuns spec runs).1.states.lookup identity) := by
  induction runs generalizing inner fresh with
  | nil => exact ⟨h, hFresh⟩
  | cons run runs ih =>
      obtain ⟨hGrouped, hNext⟩ := holdsFresh_executeRun (hRuns run (by simp)) h hFresh
      exact ih (fun other hOther => hRuns other (by simp [hOther])) hGrouped hNext

/-- Inputs of other groups leave a group alone. -/
theorem applyGroups_others (spec : TriggerSpec) (groups : List GroupInput) (h : Grouped inner.states)
    (hFits : ∀ group ∈ groups, group.window.CoderIdFits) {identity : GroupIdentity}
    (hOthers : ∀ group ∈ groups, group.identity ≠ identity)
    (inputWatermark processingTime : Int64) :
    Grouped (inner.applyGroups spec inputWatermark processingTime groups).1.states ∧
      (inner.applyGroups spec inputWatermark processingTime groups).1.states.lookup identity =
        inner.states.lookup identity ∧
      panesOf identity (inner.applyGroups spec inputWatermark processingTime groups).2 = [] := by
  induction groups generalizing inner with
  | nil => exact ⟨h, rfl, rfl⟩
  | cons group groups ih =>
      obtain ⟨hGrouped, hLookup, hPanes⟩ := applyGroup_group spec inputWatermark processingTime h
        (hFits group (by simp)) identity
      rw [if_neg (hOthers group (by simp))] at hLookup hPanes
      obtain ⟨hRest, hRestLookup, hRestPanes⟩ := ih hGrouped
        (fun other hOther => hFits other (by simp [hOther]))
        (fun other hOther => hOthers other (by simp [hOther]))
      refine ⟨hRest, hRestLookup.trans hLookup, ?_⟩
      rw [applyGroups]
      dsimp only
      rw [panesOf_append, hPanes, hRestPanes, List.append_nil]

/-- A run without inputs for a group only evaluates it. -/
theorem executeRun_idle {run : GbkRun} (hRun : run.Decoded) (h : Grouped inner.states)
    {identity : GroupIdentity} (hIdle : run.groupsOf identity = []) :
    panesOf identity (inner.executeRun spec run).2 =
      (evaluateGroup spec run.inputWatermark run.processingTime
        ((inner.states.lookup identity).map WindowState.begun)).2 := by
  have hOthers : ∀ group ∈ run.groups, group.identity ≠ identity := by
    intro group hGroup hOwn
    exact of_decide_eq_false (by simpa using List.filter_eq_nil_iff.mp hIdle group hGroup) hOwn
  have hBegin : Grouped inner.beginRun.states := h.begin
  obtain ⟨hFed, hFedLookup, hFedPanes⟩ := applyGroups_others spec run.groups hBegin
    hRun.fits hOthers run.inputWatermark run.processingTime
  obtain ⟨_, _, hPanes⟩ := drainReady_group spec run.inputWatermark run.processingTime
    hRun.order hFed (readyScan_fed spec inner run) identity
  rw [executeRun]
  dsimp only
  rw [panesOf_append, hFedPanes, hPanes, hFedLookup, List.nil_append]
  exact congrArg (fun stored => (evaluateGroup spec run.inputWatermark run.processingTime stored).2)
    (lookup_mapValues _ _ _)

end InMemoryGbkState

/-- A group fires at a run: its trigger is ready or its window expires. -/
def WindowState.due (spec : TriggerSpec) (run : GbkRun) (state : WindowState) : Bool :=
  state.trigger.shouldFire
      (triggerContext spec state.window run.inputWatermark run.processingTime) ||
    windowExpired spec state.window run.inputWatermark

/-- An evaluation is silent exactly if the group holds nothing or is not due. -/
theorem evaluateGroup_begun_eq_nil (spec : TriggerSpec) (run : GbkRun) {state : WindowState}
    (hOpen : state.closed = false) :
    (evaluateGroup spec run.inputWatermark run.processingTime (some state.begun)).2 = [] ↔
      state.elements = [] ∨ state.due spec run = false := by
  have hDue : (state.begun.trigger.shouldFire (triggerContext spec state.begun.window
      run.inputWatermark run.processingTime) ||
      ((triggerContext spec state.begun.window run.inputWatermark run.processingTime).expired &&
        !state.begun.closed)) = state.due spec run := by
    simp [WindowState.due, WindowState.begun, triggerContext, hOpen]
  rw [evaluateGroup_begun, fireState]
  dsimp only
  rw [hDue]
  have hElements : state.begun.elements = state.elements := rfl
  cases state.due spec run with
  | false => simp
  | true =>
      cases hHeld : state.elements with
      | nil => simp [hElements, hHeld]
      | cons element elements => simp [hElements, hHeld]

section History

variable (spec : TriggerSpec) (runs : List GbkRun)

/-- The elements given to a group since its last pane, at the end of a history. -/
def newElements (identity : GroupIdentity) : List PaneElement :=
  InMemoryGbkState.historyFresh spec identity runs InMemoryGbkState.empty []

/-- The groups at the end of a history. -/
def statesAfter : Store GroupIdentity WindowState :=
  (InMemoryGbkState.empty.executeRuns spec runs).1.states

/-- The panes of a group in a run that follows a history. -/
def laterPanes (later : GbkRun) (identity : GroupIdentity) : List WindowedValue :=
  panesOf identity
    ((InMemoryGbkState.empty.executeRuns spec runs).1.executeRun spec later).2

end History

/-- After any history, a run without inputs for a group that was given no element
since its last pane emits nothing for it exactly if panes discard their elements
or the group, if it is still stored, is not due. -/
theorem laterPanes_eq_nil_iff (spec : TriggerSpec) {runs : List GbkRun} {later : GbkRun}
    (hRuns : ∀ run ∈ runs, run.Decoded) (hLater : later.Decoded) {identity : GroupIdentity}
    (hNew : newElements spec runs identity = []) (hIdle : later.groupsOf identity = []) :
    laterPanes spec runs later identity = [] ↔
      spec.accumulation = .discarding ∨
        ∀ state, (statesAfter spec runs).lookup identity = some state →
          state.due spec later = false := by
  have hEmpty : InMemoryGbkState.Grouped InMemoryGbkState.empty.states := forall_empty _
  have hStart : HoldsFresh spec [] (InMemoryGbkState.empty.states.lookup identity) :=
    ⟨fun _ => rfl, fun _ hNone => (by cases hNone), fun _ hNone => (by cases hNone)⟩
  obtain ⟨hGrouped, hHolds⟩ := InMemoryGbkState.holdsFresh_executeRuns runs hRuns hEmpty hStart
  rw [laterPanes, InMemoryGbkState.executeRun_idle hLater hGrouped hIdle, statesAfter]
  rw [newElements] at hNew
  rw [hNew] at hHolds
  cases hStored : (InMemoryGbkState.empty.executeRuns spec runs).1.states.lookup identity with
  | none => simp [evaluateGroup]
  | some state =>
      rw [hStored] at hHolds
      have hSilent := evaluateGroup_begun_eq_nil spec later
        (hGrouped identity state hStored).2.2
      rw [Option.map_some, hSilent]
      by_cases hMode : spec.accumulation = .discarding
      · simp [hMode, hHolds.discarding state rfl hMode]
      · simp [hMode, hHolds.accumulating state rfl hMode]

theorem oneElementRun_decoded (window : BeamWindow) (hFits : window.CoderIdFits)
    (inputWatermark : Int64) : (oneElementRun window inputWatermark).Decoded := by
  refine ⟨?_, ?_, fun _ => List.Perm.refl _⟩
  · intro group hGroup
    rw [List.mem_singleton.mp hGroup]
    exact hFits
  · intro group hGroup
    rw [List.mem_singleton.mp hGroup]
    simp

/-- A run that only moves the watermark. -/
def idleRun (inputWatermark : Int64) : GbkRun where
  groups := []
  inputWatermark := inputWatermark
  processingTime := 0
  order := id

theorem idleRun_decoded (inputWatermark : Int64) : (idleRun inputWatermark).Decoded :=
  ⟨fun _ hGroup => (by cases hGroup), fun _ hGroup => (by cases hGroup),
    fun _ => List.Perm.refl _⟩

/-- A trigger that is always ready. -/
def alwaysSpec (accumulation : AccumulationMode) : TriggerSpec where
  trigger := .always
  accumulation := accumulation
  outputTime := .endOfWindow
  allowedLateness := 1000

/-- One element, emitted at once, and a watermark that moves on. -/
theorem laterPanes_eq_nil_iff_always :
    laterPanes (alwaysSpec .discarding) [oneElementRun (.interval 0 100) 50] (idleRun 60)
        (groupIdentity (.int64 7) (.interval 0 100)) = [] ↔
      (alwaysSpec .discarding).accumulation = .discarding ∨
        ∀ state, (statesAfter (alwaysSpec .discarding)
            [oneElementRun (.interval 0 100) 50]).lookup
            (groupIdentity (.int64 7) (.interval 0 100)) = some state →
          state.due (alwaysSpec .discarding) (idleRun 60) = false :=
  laterPanes_eq_nil_iff (alwaysSpec .discarding)
    (fun run hRun => by
      rw [List.mem_singleton.mp hRun]
      exact oneElementRun_decoded (.interval 0 100) trivial 50)
    (idleRun_decoded 60) (by decide +kernel) rfl

/-- An accumulating group emits its old elements again. -/
theorem not_laterPanes_eq_nil_accumulating :
    ¬ ∀ (spec : TriggerSpec) (runs : List GbkRun) (later : GbkRun) (identity : GroupIdentity),
      (∀ run ∈ runs, run.Decoded) → later.Decoded →
      ((runs ++ [later]).map GbkRun.inputWatermark).Pairwise (· ≤ ·) →
      newElements spec runs identity = [] → later.groupsOf identity = [] →
      laterPanes spec runs later identity = [] := by
  intro h
  have hSilent := h (alwaysSpec .accumulating) [oneElementRun (.interval 0 100) 50] (idleRun 60)
    (groupIdentity (.int64 7) (.interval 0 100))
    (fun run hRun => by
      rw [List.mem_singleton.mp hRun]
      exact oneElementRun_decoded (.interval 0 100) trivial 50)
    (idleRun_decoded 60) (by decide) (by decide +kernel) rfl
  have hPanes := congrArg List.length hSilent
  exact absurd hPanes (by decide +kernel)

end FlareDB
