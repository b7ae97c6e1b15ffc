import FlareDB.Transforms.GbkRunInputs

/-! Cutting a GroupByKey's input into runs. Groups whose windows have not ended
wait in the state for the elements of later runs, but the windows of a key are
merged within each run, before they meet what earlier runs have left. -/
namespace FlareDB

open KeyedStore Stretch

section Waiting

variable {spec : TriggerSpec} (hTrigger : spec.trigger = .default)
  (hLateness : spec.allowedLateness = 0) {key : PrimitiveValue} {window : BeamWindow}

/-- A group that holds some elements and has not fired; without elements it is
not stored. -/
def Waiting (key : PrimitiveValue) (window : BeamWindow) (elements : List PaneElement)
    (stored : Option WindowState) : Prop :=
  match stored with
  | none => elements = []
  | some state => state.key = key ∧ state.window = window ∧ state.elements = elements ∧
      elements ≠ [] ∧ state.trigger = TriggerRunner.new .default ∧ state.closed = false

/-- A run that begins lets the waiting elements wait. -/
theorem Waiting.begun {elements : List PaneElement} {stored : Option WindowState}
    (h : Waiting key window elements stored) :
    Waiting key window elements (stored.map WindowState.begun) := by
  cases stored with
  | none => exact h
  | some state => exact h

include hTrigger in
/-- A waiting group with the elements of an input added. -/
theorem Waiting.fedState {elements : List PaneElement} {stored : Option WindowState}
    (h : Waiting key window elements stored) {group : GroupInput} (hKey : group.key = key)
    (hWindow : group.window = window) (processingTime : Int64) :
    (fedState spec processingTime group stored).key = key ∧
      (fedState spec processingTime group stored).window = window ∧
      (fedState spec processingTime group stored).elements = elements ++ group.elements ∧
      (fedState spec processingTime group stored).trigger = TriggerRunner.new .default ∧
      (fedState spec processingTime group stored).closed = false := by
  cases stored with
  | none =>
      rw [Waiting] at h
      subst h
      refine ⟨hKey, hWindow, rfl, ?_, rfl⟩
      show group.elements.foldl _ (TriggerRunner.new spec.trigger) = _
      rw [hTrigger]
      exact onElement_default processingTime group.elements
  | some state =>
      obtain ⟨hStateKey, hStateWindow, hElements, _, hState, hOpen⟩ := h
      refine ⟨hStateKey, hStateWindow, ?_, ?_, hOpen⟩
      · show state.elements ++ group.elements = _
        rw [hElements]
      · show group.elements.foldl _ state.trigger = _
        rw [hState]
        exact onElement_default processingTime group.elements

/-- The inputs of a run for a key and window: at most one. -/
def OneInput (run : GbkRun) (key : PrimitiveValue) (window : BeamWindow) : Prop :=
  run.groupsOf (groupIdentity key window) = [] ∨ ∃ group,
    run.groupsOf (groupIdentity key window) = [group] ∧ group.key = key ∧
      group.window = window ∧ group.elements ≠ []

theorem WindowState.kept_open {state : WindowState} (h : state.closed = false) :
    state.kept = some state := by
  rw [WindowState.kept, h]
  rfl

theorem WindowState.kept_closed {state : WindowState} (h : state.closed = true) :
    state.kept = none := by
  rw [WindowState.kept, h]
  rfl

include hTrigger hLateness in
/-- Before the end of its window a group collects its inputs and waits. -/
theorem Waiting.groupRun_quiet {elements : List PaneElement} {stored : Option WindowState}
    (h : Waiting key window elements stored) {run : GbkRun} (hInputs : OneInput run key window)
    (hOpen : ¬ window.maxTimestampMillis < run.inputWatermark) :
    Waiting key window
        (elements ++ (run.groupsOf (groupIdentity key window)).flatMap GroupInput.elements)
        (groupRun spec run (groupIdentity key window) stored).1 ∧
      (groupRun spec run (groupIdentity key window) stored).2 = [] := by
  rcases hInputs with hNone | ⟨group, hOne, hKey, hWindow, hSome⟩
  · rw [groupRun_idle hNone, hNone, List.flatMap_nil, List.append_nil]
    cases stored with
    | none => exact ⟨h, rfl⟩
    | some state =>
        obtain ⟨hStateKey, hStateWindow, hElements, hNe, hState, hClosed⟩ := h
        have hBegun : state.begun.trigger = TriggerRunner.new .default := hState
        have hNotEnded : ¬ state.begun.window.maxTimestampMillis < run.inputWatermark := by
          rw [show state.begun.window = window from hStateWindow]
          exact hOpen
        have hStill : ({ state.begun with evaluatedThisRun := true } : WindowState).closed =
            false := hClosed
        rw [Option.map_some, evaluateGroup_begun, fireState_waiting hLateness run.inputWatermark
          run.processingTime hBegun hNotEnded, WindowState.kept_open hStill]
        exact ⟨⟨hStateKey, hStateWindow, hElements, hNe, hState, hClosed⟩, rfl⟩
  · obtain ⟨hFedKey, hFedWindow, hFedElements, hFedTrigger, hFedOpen⟩ :=
      h.begun.fedState hTrigger hKey hWindow run.processingTime
    have hNotEnded : ¬ (FlareDB.fedState spec run.processingTime group
        (stored.map WindowState.begun)).window.maxTimestampMillis < run.inputWatermark := by
      rw [hFedWindow]
      exact hOpen
    have hStill : ({ FlareDB.fedState spec run.processingTime group
        (stored.map WindowState.begun) with evaluatedThisRun := true } : WindowState).closed =
        false := hFedOpen
    rw [groupRun_fed hOne, hOne, List.flatMap_singleton, feedGroup, if_neg (by decide)]
    dsimp only
    rw [fireState_waiting hLateness run.inputWatermark run.processingTime hFedTrigger hNotEnded,
      WindowState.kept_open hStill]
    refine ⟨⟨hFedKey, hFedWindow, hFedElements, ?_, hFedTrigger, hFedOpen⟩, rfl⟩
    simp [hSome]

include hTrigger hLateness in
/-- Past the end of its window a group is emitted with all it has collected. -/
theorem Waiting.groupRun_ended {elements : List PaneElement} {stored : Option WindowState}
    (h : Waiting key window elements stored) {run : GbkRun} (hInputs : OneInput run key window)
    (hEnded : window.maxTimestampMillis < run.inputWatermark)
    (hAll : elements ++ (run.groupsOf (groupIdentity key window)).flatMap GroupInput.elements ≠
      []) :
    (groupRun spec run (groupIdentity key window) stored).2.map paneContents =
      [some (GroupInput.contents ⟨key, window,
        elements ++ (run.groupsOf (groupIdentity key window)).flatMap GroupInput.elements⟩)] := by
  rcases hInputs with hNone | ⟨group, hOne, hKey, hWindow, hSome⟩
  · rw [groupRun_idle hNone]
    rw [hNone, List.flatMap_nil, List.append_nil] at hAll ⊢
    cases stored with
    | none => exact absurd h hAll
    | some state =>
        obtain ⟨hStateKey, hStateWindow, hElements, hNe, _, hClosed⟩ := h
        have hHeld : state.begun.elements ≠ [] := by
          rw [show state.begun.elements = elements from hElements]
          exact hNe
        have hPast : state.begun.window.maxTimestampMillis < run.inputWatermark := by
          rw [show state.begun.window = window from hStateWindow]
          exact hEnded
        obtain ⟨_, pane, hPane, hContents⟩ := fireState_ended hLateness run.inputWatermark
          run.processingTime (show state.begun.closed = false from hClosed) hHeld hPast
        rw [Option.map_some, evaluateGroup_begun, hPane, Option.toList_some, List.map_singleton,
          hContents]
        simp only [WindowState.begun, hStateKey, hStateWindow, hElements]
  · obtain ⟨hFedKey, hFedWindow, hFedElements, _, hFedOpen⟩ :=
      h.begun.fedState hTrigger hKey hWindow run.processingTime
    have hPast : (FlareDB.fedState spec run.processingTime group
        (stored.map WindowState.begun)).window.maxTimestampMillis < run.inputWatermark := by
      rw [hFedWindow]
      exact hEnded
    have hHeld : (FlareDB.fedState spec run.processingTime group
        (stored.map WindowState.begun)).elements ≠ [] := by
      rw [hFedElements]
      simp [hSome]
    obtain ⟨_, pane, hPane, hContents⟩ := fireState_ended hLateness run.inputWatermark
      run.processingTime hFedOpen hHeld hPast
    rw [groupRun_fed hOne, hOne, List.flatMap_singleton, feedGroup, if_neg (by decide)]
    dsimp only
    rw [hPane, Option.toList_some, List.map_singleton, hContents, hFedKey, hFedWindow,
      hFedElements]

end Waiting

namespace InMemoryGbkState

section History

variable {spec : TriggerSpec} (hTrigger : spec.trigger = .default)
  (hLateness : spec.allowedLateness = 0) {key : PrimitiveValue} {window : BeamWindow}

include hLateness in
theorem lateness_nonneg : 0 ≤ spec.allowedLateness := by
  rw [hLateness]
  exact Int64.le_refl 0

/-- What the last run emits comes after the rest. -/
theorem executeRuns_append_output (spec : TriggerSpec) (runs : List GbkRun) (last : GbkRun)
    (inner : InMemoryGbkState) :
    (inner.executeRuns spec (runs ++ [last])).2 =
      (inner.executeRuns spec runs).2 ++ ((inner.executeRuns spec runs).1.executeRun spec last).2 := by
  induction runs generalizing inner with
  | nil => simp [executeRuns]
  | cons run runs ih =>
      rw [List.cons_append, executeRuns, executeRuns]
      dsimp only
      rw [ih, List.append_assoc]

include hTrigger hLateness in
/-- Over runs that end before its window a group collects all its inputs. -/
theorem executeRuns_waiting (runs : List GbkRun) (hRuns : ∀ run ∈ runs, run.Decoded)
    (hInputs : ∀ run ∈ runs, OneInput run key window)
    (hQuiet : ∀ run ∈ runs, ¬ window.maxTimestampMillis < run.inputWatermark)
    {inner : InMemoryGbkState} (h : Grouped inner.states) {elements : List PaneElement}
    (hWaiting : Waiting key window elements (inner.states.lookup (groupIdentity key window))) :
    Grouped (inner.executeRuns spec runs).1.states ∧
      Waiting key window (elements ++ runs.flatMap fun run =>
          (run.groupsOf (groupIdentity key window)).flatMap GroupInput.elements)
        ((inner.executeRuns spec runs).1.states.lookup (groupIdentity key window)) ∧
      panesOf (groupIdentity key window) (inner.executeRuns spec runs).2 = [] := by
  induction runs generalizing inner elements with
  | nil =>
      rw [List.flatMap_nil, List.append_nil]
      exact ⟨h, hWaiting, rfl⟩
  | cons run runs ih =>
      obtain ⟨hGrouped, hLookup, hPanes⟩ := executeRun_group (lateness_nonneg hLateness)
        (hRuns run (by simp)) h (groupIdentity key window)
      obtain ⟨hNext, hNone⟩ := hWaiting.groupRun_quiet hTrigger hLateness (hInputs run (by simp))
        (hQuiet run (by simp))
      rw [← hLookup] at hNext
      obtain ⟨hRest, hStored, hRestPanes⟩ := ih (fun other hOther => hRuns other (by simp [hOther]))
        (fun other hOther => hInputs other (by simp [hOther]))
        (fun other hOther => hQuiet other (by simp [hOther])) hGrouped hNext
      rw [executeRuns, List.flatMap_cons, ← List.append_assoc]
      refine ⟨hRest, hStored, ?_⟩
      dsimp only
      rw [panesOf_append, hPanes, hNone, hRestPanes]
      rfl

include hLateness in
/-- A group without any input emits nothing. -/
theorem executeRuns_absent (runs : List GbkRun) (hRuns : ∀ run ∈ runs, run.Decoded)
    {identity : GroupIdentity} (hInputs : ∀ run ∈ runs, run.groupsOf identity = [])
    {inner : InMemoryGbkState} (h : Grouped inner.states)
    (hNone : inner.states.lookup identity = none) :
    panesOf identity (inner.executeRuns spec runs).2 = [] := by
  induction runs generalizing inner with
  | nil => rfl
  | cons run runs ih =>
      obtain ⟨hGrouped, hLookup, hPanes⟩ := executeRun_group (lateness_nonneg hLateness)
        (hRuns run (by simp)) h identity
      rw [hNone, groupRun_idle (hInputs run (by simp))] at hLookup hPanes
      have hRest := ih (fun other hOther => hRuns other (by simp [hOther]))
        (fun other hOther => hInputs other (by simp [hOther])) hGrouped hLookup
      rw [executeRuns]
      dsimp only
      rw [panesOf_append, hPanes, hRest]
      rfl

/-- What a whole history has collected for a key and window. -/
def collectedFor (runs : List GbkRun) (key : PrimitiveValue) (window : BeamWindow) :
    List PaneElement :=
  runs.flatMap fun run => elementsFed run.groups key window

/-- The elements of an identity are those of its groups. -/
theorem groupsOf_elements {run : GbkRun} (hFits : ∀ group ∈ run.groups, group.window.CoderIdFits)
    (hWindow : window.CoderIdFits) :
    (run.groupsOf (groupIdentity key window)).flatMap GroupInput.elements =
      elementsFed run.groups key window := by
  refine congrArg (List.flatMap GroupInput.elements) (List.filter_congr ?_)
  intro group hGroup
  refine decide_eq_decide.mpr ⟨groupIdentity_injective (hFits group hGroup) hWindow, ?_⟩
  rintro ⟨rfl, rfl⟩
  rfl

/-- With distinct identities a group is given one input. -/
theorem oneInput_of_nodup {run : GbkRun} (hRun : run.Decoded)
    (hNodup : (run.groups.map GroupInput.identity).Nodup) (hWindow : window.CoderIdFits) :
    OneInput run key window := by
  have hMem : ∀ group ∈ run.groupsOf (groupIdentity key window), group ∈ run.groups ∧
      group.identity = groupIdentity key window := by
    intro group hGroup
    obtain ⟨hIn, hSame⟩ := List.mem_filter.mp hGroup
    exact ⟨hIn, of_decide_eq_true hSame⟩
  have hApart : (run.groupsOf (groupIdentity key window)).Pairwise
      fun a b => a.identity ≠ b.identity :=
    (List.pairwise_map.mp hNodup).filter _
  rw [OneInput]
  generalize run.groupsOf (groupIdentity key window) = groups at *
  cases groups with
  | nil => exact .inl rfl
  | cons group rest =>
      obtain ⟨hIn, hSame⟩ := hMem group (by simp)
      obtain ⟨hKey, hOwn⟩ := groupIdentity_injective (hRun.fits group hIn) hWindow hSame
      refine .inr ⟨group, ?_, hKey, hOwn, hRun.elements group hIn⟩
      cases rest with
      | nil => rfl
      | cons other rest =>
          have hOther := (hMem other (by simp)).2
          exact absurd (hSame.trans hOther.symm)
            ((List.pairwise_cons.mp hApart).1 other (by simp))

include hTrigger hLateness in
/-- A history that ends once the windows fed have ended emits each group once,
with everything it has collected. -/
theorem executeRuns_contents {runs : List GbkRun} {last : GbkRun}
    (hRuns : ∀ run ∈ runs ++ [last], run.Decoded ∧
      (run.groups.map GroupInput.identity).Nodup)
    (hQuiet : ∀ run ∈ runs, ∀ other ∈ runs ++ [last], ∀ group ∈ other.groups,
      ¬ group.window.maxTimestampMillis < run.inputWatermark)
    (hEnded : ∀ run ∈ runs ++ [last], ∀ group ∈ run.groups,
      group.window.maxTimestampMillis < last.inputWatermark)
    (hWindow : window.CoderIdFits) :
    (panesOf (groupIdentity key window)
        (InMemoryGbkState.empty.executeRuns spec (runs ++ [last])).2).map paneContents =
      if collectedFor (runs ++ [last]) key window = [] then []
      else [some (GroupInput.contents ⟨key, window, collectedFor (runs ++ [last]) key window⟩)] := by
  have hEmpty : Grouped InMemoryGbkState.empty.states := forall_empty _
  have hInputs : ∀ run ∈ runs ++ [last], OneInput run key window := fun run hRun =>
    oneInput_of_nodup (hRuns run hRun).1 (hRuns run hRun).2 hWindow
  have hFed : ∀ run ∈ runs ++ [last],
      (run.groupsOf (groupIdentity key window)).flatMap GroupInput.elements =
        elementsFed run.groups key window := fun run hRun =>
    groupsOf_elements (hRuns run hRun).1.fits hWindow
  by_cases hPresent : ∃ run ∈ runs ++ [last], ∃ group ∈ run.groups,
      group.key = key ∧ group.window = window
  · obtain ⟨fedRun, hFedRun, group, hGroup, hKey, hOwn⟩ := hPresent
    have hBefore : ∀ run ∈ runs, ¬ window.maxTimestampMillis < run.inputWatermark := by
      intro run hRun
      rw [← hOwn]
      exact hQuiet run hRun fedRun hFedRun group hGroup
    have hLast : window.maxTimestampMillis < last.inputWatermark := by
      rw [← hOwn]
      exact hEnded fedRun hFedRun group hGroup
    have hStart : Waiting key window [] (InMemoryGbkState.empty.states.lookup
        (groupIdentity key window)) := rfl
    obtain ⟨hGrouped, hWaiting, hNone⟩ := executeRuns_waiting hTrigger hLateness runs
      (fun run hRun => (hRuns run (List.mem_append_left _ hRun)).1)
      (fun run hRun => hInputs run (List.mem_append_left _ hRun)) hBefore hEmpty hStart
    obtain ⟨_, _, hPanes⟩ := executeRun_group (lateness_nonneg hLateness)
      (hRuns last (by simp)).1 hGrouped (groupIdentity key window)
    have hTotal : collectedFor (runs ++ [last]) key window =
        [] ++ (runs.flatMap fun run =>
          (run.groupsOf (groupIdentity key window)).flatMap GroupInput.elements) ++
          (last.groupsOf (groupIdentity key window)).flatMap GroupInput.elements := by
      rw [collectedFor, List.flatMap_append, List.flatMap_singleton, List.nil_append,
        hFed last (by simp)]
      congr 1
      exact List.flatMap_congr fun run hRun => (hFed run (List.mem_append_left _ hRun)).symm
    have hSome : collectedFor (runs ++ [last]) key window ≠ [] := by
      intro hNothing
      have hHere := List.flatMap_eq_nil_iff.mp hNothing fedRun hFedRun
      have hNoElements := List.flatMap_eq_nil_iff.mp hHere group
        (List.mem_filter.mpr ⟨hGroup, decide_eq_true ⟨hKey, hOwn⟩⟩)
      exact (hRuns fedRun hFedRun).1.elements group hGroup hNoElements
    rw [if_neg hSome, executeRuns_append_output, panesOf_append, hNone, List.nil_append, hPanes]
    rw [hTotal] at hSome ⊢
    exact hWaiting.groupRun_ended hTrigger hLateness (hInputs last (by simp)) hLast hSome
  · have hNoGroup : ∀ run ∈ runs ++ [last], run.groupsOf (groupIdentity key window) = [] := by
      intro run hRun
      refine List.filter_eq_nil_iff.mpr fun group hGroup hSame => hPresent ?_
      obtain ⟨hKey, hOwn⟩ := groupIdentity_injective ((hRuns run hRun).1.fits group hGroup) hWindow
        (of_decide_eq_true hSame)
      exact ⟨run, hRun, group, hGroup, hKey, hOwn⟩
    have hNothing : collectedFor (runs ++ [last]) key window = [] := by
      refine List.flatMap_eq_nil_iff.mpr fun run hRun => ?_
      rw [← hFed run hRun, hNoGroup run hRun, List.flatMap_nil]
    rw [if_pos hNothing, executeRuns_absent hLateness (runs ++ [last])
      (fun run hRun => (hRuns run hRun).1) hNoGroup hEmpty rfl]
    rfl

end History

/-- Every pane emitted so far carries one key and one window with a binary key. -/
structure EmitsGroups (_fed : List GroupInput) (states : Store GroupIdentity WindowState)
    (emitted : List WindowedValue) : Prop where
  grouped : Grouped states
  panes : ∀ pane ∈ emitted, ∃ key window elements timestampMillis info,
    pane = groupPane key window elements timestampMillis info ∧ window.CoderIdFits

/-- A pane that fires is one of its own state's group. -/
theorem fireState_groupPane {state : WindowState} {spec : TriggerSpec}
    {inputWatermark processingTime : Int64} {pane : WindowedValue}
    (h : pane ∈ (fireState state spec inputWatermark processingTime).2.toList) :
    ∃ elements timestampMillis info,
      pane = groupPane state.key state.window elements timestampMillis info := by
  unfold fireState at h
  dsimp only at h
  split at h
  · simp at h
  · split at h
    · simp at h
    · rw [Option.toList_some, List.mem_singleton] at h
      exact ⟨_, _, _, h⟩

/-- Every run emits panes of groups only. -/
theorem emitsGroups_preserved {spec : TriggerSpec} {run : GbkRun}
    (hFits : ∀ group ∈ run.groups, group.window.CoderIdFits) :
    Preserved EmitsGroups spec run where
  begin fed states emitted h := ⟨h.grouped.begin, h.panes⟩
  feed fed inner emitted h group hGroup := by
    have hOwn := hFits group hGroup
    refine ⟨(applyGroup_group spec run.inputWatermark run.processingTime h.grouped hOwn
      group.identity).1, ?_⟩
    intro pane hPane
    rcases List.mem_append.mp hPane with hOld | hNew
    · exact h.panes pane hOld
    · unfold applyGroup at hNew
      split at hNew
      · rw [Option.toList_some, List.mem_singleton] at hNew
        exact ⟨_, _, _, _, _, hNew, hOwn⟩
      · obtain ⟨_, hWindow, _⟩ := groupState_spec h.grouped hOwn (TriggerRunner.new spec.trigger)
        obtain ⟨elements, timestampMillis, info, hShape⟩ := fireState_groupPane hNew
        refine ⟨_, _, elements, timestampMillis, info, hShape, ?_⟩
        show (((inner.states.lookup (groupIdentity group.key group.window)).getD
          (WindowState.new group.key group.window
            (TriggerRunner.new spec.trigger))).window).CoderIdFits
        rw [hWindow]
        exact hOwn
  evaluate fed states emitted identity state h hLookup := by
    obtain ⟨hIdentity, hStateFits, _⟩ := h.grouped identity state hLookup
    refine ⟨h.grouped.settle hIdentity hStateFits, ?_⟩
    intro pane hPane
    rcases List.mem_append.mp hPane with hOld | hNew
    · exact h.panes pane hOld
    · obtain ⟨elements, timestampMillis, info, hShape⟩ := fireState_groupPane hNew
      exact ⟨_, _, elements, timestampMillis, info, hShape, hStateFits⟩

end InMemoryGbkState

/-- Two outputs hold the same panes as far as keys, windows and values go. -/
def SamePanes (first second : List WindowedValue) : Prop :=
  (first.map paneContents).Perm (second.map paneContents)

section SamePanes

/-- Panes of one key and one window each. -/
def OfGroups (panes : List WindowedValue) : Prop :=
  ∀ pane ∈ panes, ∃ key window elements timestampMillis info,
    pane = groupPane key window elements timestampMillis info ∧ window.CoderIdFits

def contentsIdentity (contents : Option (PrimitiveValue × BeamWindow × Multiset BeamRecord)) :
    Option GroupIdentity :=
  contents.map fun entry => groupIdentity entry.1 entry.2.1

/-- The contents of an identity's panes, among all of them. -/
theorem OfGroups.panesOf_contents {panes : List WindowedValue} (h : OfGroups panes)
    (identity : GroupIdentity) :
    (panesOf identity panes).map paneContents =
      (panes.map paneContents).filter fun contents =>
        decide (contentsIdentity contents = some identity) := by
  rw [panesOf, List.filter_map]
  congr 1
  refine List.filter_congr fun pane hPane => ?_
  obtain ⟨key, window, elements, timestampMillis, info, rfl, _⟩ := h pane hPane
  rfl

open Classical in
/-- Outputs hold the same panes when they do so group by group. -/
theorem samePanes_iff {first second : List WindowedValue} (hFirst : OfGroups first)
    (hSecond : OfGroups second) :
    SamePanes first second ↔ ∀ key window, window.CoderIdFits →
      ((panesOf (groupIdentity key window) first).map paneContents).Perm
        ((panesOf (groupIdentity key window) second).map paneContents) := by
  constructor
  · intro hSame key window _
    rw [hFirst.panesOf_contents, hSecond.panesOf_contents]
    exact hSame.filter _
  · intro hEach
    have hCount : ∀ {panes : List WindowedValue}, OfGroups panes → ∀ key window values,
        (panes.map paneContents).count (some (key, window, values)) =
          ((panesOf (groupIdentity key window) panes).map paneContents).count
            (some (key, window, values)) := by
      intro panes hPanes key window values
      rw [hPanes.panesOf_contents, List.count_filter (by simp [contentsIdentity])]
    have hShape : ∀ {panes : List WindowedValue}, OfGroups panes → ∀ contents,
        contents ∈ panes.map paneContents → ∃ key window values,
          contents = some (key, window, values) ∧ window.CoderIdFits := by
      intro panes hPanes contents hMem
      obtain ⟨pane, hPane, rfl⟩ := List.mem_map.mp hMem
      obtain ⟨key, window, elements, timestampMillis, info, rfl, hFits⟩ := hPanes pane hPane
      exact ⟨key, window, _, rfl, hFits⟩
    refine List.perm_iff_count.mpr fun contents => ?_
    by_cases hMem : contents ∈ first.map paneContents ∨ contents ∈ second.map paneContents
    · obtain ⟨key, window, values, rfl, hFits⟩ := hMem.elim (hShape hFirst contents)
        (hShape hSecond contents)
      rw [hCount hFirst, hCount hSecond]
      exact (hEach key window hFits).count_eq _
    · rw [not_or] at hMem
      rw [List.count_eq_zero_of_not_mem hMem.1, List.count_eq_zero_of_not_mem hMem.2]

/-- Two groups emitted once each hold the same panes when they hold the same
values. -/
theorem contents_perm_iff (key : PrimitiveValue) (window : BeamWindow)
    (first second : List PaneElement) :
    ((if first = [] then [] else [some (GroupInput.contents ⟨key, window, first⟩)]).Perm
        (if second = [] then [] else [some (GroupInput.contents ⟨key, window, second⟩)])) ↔
      (first.map PaneElement.value).Perm (second.map PaneElement.value) := by
  by_cases hFirst : first = []
  · subst hFirst
    by_cases hSecond : second = []
    · subst hSecond
      simp
    · rw [if_pos rfl, if_neg hSecond]
      simp [hSecond]
  · rw [if_neg hFirst]
    by_cases hSecond : second = []
    · subst hSecond
      simp [hFirst]
    · rw [if_neg hSecond, List.perm_singleton, List.cons.injEq]
      simp [GroupInput.contents]

end SamePanes

/-- One run over some rows. The orders are those of the hash maps of merged
groups and of stored groups. -/
structure RowsRun where
  rows : List GbkRow
  inputWatermark : Int64
  processingTime : Int64
  mergeOrder : List GroupInput → List GroupInput
  scanOrder : List GroupIdentity → List GroupIdentity

section Rows

variable (spec : TriggerSpec) (needsMerge : Bool) (windowMerger : Option WindowMerger)
  (inputPcollectionId : String)

def executeRows (inner : InMemoryGbkState) (run : RowsRun) :
    Except String (InMemoryGbkState × List WindowedValue) := do
  let (inner, output) ← processKeyGroupsBatch inner.beginRun run.mergeOrder
    (decodeSorted run.rows) needsMerge windowMerger inputPcollectionId spec run.inputWatermark
    run.processingTime
  let (inner, ready) := InMemoryGbkState.drainReady spec run.scanOrder run.inputWatermark
    run.processingTime (inner.states.entries.length + 1) inner
  pure (inner, output ++ ready)

/-- The panes of consecutive runs. -/
def executeAllRows : List RowsRun → InMemoryGbkState → Except String (List WindowedValue)
  | [], _ => .ok []
  | run :: runs, inner => do
      let (inner, output) ← executeRows spec needsMerge windowMerger inputPcollectionId inner run
      let rest ← executeAllRows runs inner
      pure (output ++ rest)

/-- What the rows of a run promise: windows with a binary key, and intervals
where they are to be merged. -/
structure RowsRun.Proper (needsMerge : Bool) (run : RowsRun) : Prop where
  fits : ∀ row ∈ run.rows, row.window.CoderIdFits
  intervals : needsMerge = true → ∀ row ∈ run.rows, isInterval row.window = true
  order : ∀ identities, (run.scanOrder identities).Perm identities

variable {needsMerge}

/-- The groups that a run over rows feeds. -/
structure FeedsRows (needsMerge : Bool) (run : RowsRun) (groupsRun : GbkRun) : Prop where
  inputs : RunInputs needsMerge run.rows groupsRun.groups
  inputWatermark : groupsRun.inputWatermark = run.inputWatermark
  order : ∀ identities, (groupsRun.order identities).Perm identities

/-- A proper run over rows is a run over groups. -/
theorem executeRows_ok {run : RowsRun} (hRun : run.Proper needsMerge) :
    ∃ groupsRun, FeedsRows needsMerge run groupsRun ∧ ∀ inner : InMemoryGbkState,
      executeRows spec needsMerge windowMerger inputPcollectionId inner run =
        .ok (inner.executeRun spec groupsRun) := by
  obtain ⟨groups, hNative, hCustom, hInputs⟩ := exists_runInputs
    (decodeSorted_decodesTo hRun.fits) hRun.fits hRun.intervals
  refine ⟨⟨groups, run.inputWatermark, run.processingTime, run.scanOrder⟩,
    ⟨hInputs, rfl, hRun.order⟩, fun inner => ?_⟩
  rw [executeRows, processKeyGroupsBatch, hNative, hCustom]
  simp only [mergedGroups, List.isEmpty_nil, if_true, bind, Except.bind, pure, Except.pure,
    List.append_nil]
  rfl

/-- So is a sequence of them. -/
theorem executeAllRows_ok (runs : List RowsRun) (hRuns : ∀ run ∈ runs, run.Proper needsMerge) :
    ∃ groupsRuns, List.Forall₂ (FeedsRows needsMerge) runs groupsRuns ∧
      ∀ inner : InMemoryGbkState,
        executeAllRows spec needsMerge windowMerger inputPcollectionId runs inner =
          .ok (inner.executeRuns spec groupsRuns).2 := by
  induction runs with
  | nil => exact ⟨[], .nil, fun _ => rfl⟩
  | cons run runs ih =>
      obtain ⟨groupsRun, hFeeds, hOk⟩ := executeRows_ok spec windowMerger inputPcollectionId
        (hRuns run (by simp))
      obtain ⟨groupsRuns, hRest, hRestOk⟩ := ih fun other hOther => hRuns other (by simp [hOther])
      refine ⟨groupsRun :: groupsRuns, .cons hFeeds hRest, fun inner => ?_⟩
      rw [executeAllRows, hOk]
      simp only [bind, Except.bind, hRestOk]
      rfl

end Rows

/-- An instant at which a window starts, or at which a window of positive length
ends. -/
def BoundOf (window : BeamWindow) (instant : Int64) : Prop :=
  ∃ startMillis endMillis, window = .interval startMillis endMillis ∧
    (instant = startMillis ∨ instant = endMillis ∧ startMillis < endMillis)

/-- Where a window of a row begins or ends strictly inside some window of its
key, it does so strictly inside a window of its own run. -/
def KeepsSessions (runs : List (List GbkRow)) : Prop :=
  ∀ rows ∈ runs, ∀ row ∈ rows, ∀ instant, BoundOf row.window instant →
    CoveredRows runs.flatten row.key instant.toInt → CoveredRows rows row.key instant.toInt

section Sessions

variable {runs : List (List GbkRow)} {rows : List GbkRow} (hRows : rows ∈ runs)

include hRows in
/-- What one of the runs covers is covered by all of them. -/
theorem coveredRows_flatten {key : PrimitiveValue} {t : Int} (h : CoveredRows rows key t) :
    CoveredRows runs.flatten key t := by
  obtain ⟨row, hRow, hRest⟩ := h
  exact ⟨row, List.mem_flatten.mpr ⟨rows, hRows, hRow⟩, hRest⟩

/-- A session starts where one of the key's windows starts and, if it has a
length, ends where one with a length ends. -/
theorem spans_bounds {row : GbkRow} (hRow : row ∈ rows) {startMillis endMillis : Int64}
    (hWindow : row.window = .interval startMillis endMillis) {sessionStart sessionEnd : Int64}
    (h : Spans (CoveredRows rows row.key) startMillis.toInt endMillis.toInt sessionStart.toInt
      sessionEnd.toInt) :
    (∃ first ∈ rows, first.key = row.key ∧ BoundOf first.window sessionStart) ∧
      (sessionStart.toInt < sessionEnd.toInt →
        ∃ last ∈ rows, last.key = row.key ∧ BoundOf last.window sessionEnd) := by
  obtain ⟨hLow, hGap, hFill, hEnd⟩ := h
  constructor
  · by_cases hSame : sessionStart.toInt = startMillis.toInt
    · exact ⟨row, hRow, rfl, startMillis, endMillis, hWindow, .inl (Int64.toInt_inj.mp hSame)⟩
    · obtain ⟨first, hFirst, hKey, lower, upper, hFirstWindow, hBelow, hAbove⟩ :=
        hFill (sessionStart.toInt + 1) (by omega) (by omega)
      refine ⟨first, hFirst, hKey, lower, upper, hFirstWindow, .inl ?_⟩
      by_contra hNe
      have hNeInt : sessionStart.toInt ≠ lower.toInt := fun hEq => hNe (Int64.toInt_inj.mp hEq)
      exact hGap ⟨first, hFirst, hKey, lower, upper, hFirstWindow, by omega, by omega⟩
  · intro hLong
    have hNotFlat : ¬ (sessionStart.toInt = startMillis.toInt ∧
        endMillis.toInt ≤ startMillis.toInt) := by
      intro hFlat
      rw [if_pos hFlat] at hEnd
      omega
    rw [if_neg hNotFlat] at hEnd
    obtain ⟨_, hEndGap, hInner⟩ := hEnd
    by_cases hUnit : sessionEnd.toInt = sessionStart.toInt + 1
    · -- nothing lies between the two ends, so the window itself fills the session
      have hStart : startMillis.toInt = sessionStart.toInt := by
        by_contra hNe
        exact hEndGap (hFill sessionEnd.toInt (by omega) (by omega))
      have hFinish : sessionEnd.toInt = endMillis.toInt := by
        by_contra hNe
        exact hEndGap ⟨row, hRow, rfl, startMillis, endMillis, hWindow, by omega, by omega⟩
      exact ⟨row, hRow, rfl, startMillis, endMillis, hWindow,
        .inr ⟨Int64.toInt_inj.mp hFinish, Int64.lt_iff_toInt_lt.mpr (by omega)⟩⟩
    · obtain ⟨last, hLast, hKey, lower, upper, hLastWindow, hBelow, hAbove⟩ :=
        hInner (sessionEnd.toInt - 1) (by omega) (by omega)
      refine ⟨last, hLast, hKey, lower, upper, hLastWindow, .inr ⟨?_, ?_⟩⟩
      · by_contra hNe
        have hNeInt : sessionEnd.toInt ≠ upper.toInt := fun hEq => hNe (Int64.toInt_inj.mp hEq)
        exact hEndGap ⟨last, hLast, hKey, lower, upper, hLastWindow, by omega, by omega⟩
      · exact Int64.lt_iff_toInt_lt.mpr (by omega)

include hRows in
/-- Runs that keep sessions put a window where all rows together put it. -/
theorem KeepsSessions.into (h : KeepsSessions runs) {row : GbkRow} (hRow : row ∈ rows)
    {window : BeamWindow} (hInto : Into true rows row.key row.window window) :
    Into true runs.flatten row.key row.window window := by
  obtain ⟨startMillis, endMillis, sessionStart, sessionEnd, hOriginal, hSession, hSpans⟩ := hInto
  refine ⟨startMillis, endMillis, sessionStart, sessionEnd, hOriginal, hSession, ?_⟩
  obtain ⟨⟨first, hFirst, hFirstKey, hFirstBound⟩, hLast⟩ := spans_bounds hRow hOriginal hSpans
  refine hSpans.of_covered_more (fun t => coveredRows_flatten hRows) ?_ ?_
  · intro hCovered
    rw [← hFirstKey] at hCovered
    have hInner := h rows hRows first hFirst sessionStart hFirstBound hCovered
    rw [hFirstKey] at hInner
    exact hSpans.2.1 hInner
  · intro hLong hCovered
    obtain ⟨last, hLastIn, hLastKey, hLastBound⟩ := hLast hLong
    rw [← hLastKey] at hCovered
    have hInner := h rows hRows last hLastIn sessionEnd hLastBound hCovered
    rw [hLastKey] at hInner
    exact hSpans.gap_finish hLong hInner

/-- A window merges into one window. -/
theorem Into.unique {needsMerge : Bool} {key : PrimitiveValue}
    {original first second : BeamWindow} (hFirst : Into needsMerge rows key original first)
    (hSecond : Into needsMerge rows key original second) : first = second := by
  cases needsMerge with
  | false => exact Eq.trans (Eq.symm hFirst) hSecond
  | true =>
      obtain ⟨startMillis, endMillis, start, finish, hOriginal, rfl, hSpans⟩ := hFirst
      obtain ⟨startMillis', endMillis', start', finish', hOriginal', rfl, hSpans'⟩ := hSecond
      rw [hOriginal, BeamWindow.interval.injEq] at hOriginal'
      rw [← hOriginal'.1, ← hOriginal'.2] at hSpans'
      obtain ⟨hStart, hFinish⟩ := hSpans.unique hSpans'
      rw [Int64.toInt_inj.mp hStart, Int64.toInt_inj.mp hFinish]

/-- A bound of a window that its own run does not cover is a bound of the
window's session. -/
theorem into_bound {row : GbkRow} (hRow : row ∈ rows) {window : BeamWindow}
    (hInto : Into true rows row.key row.window window) {instant : Int64}
    (hBound : BoundOf row.window instant) (hGap : ¬ CoveredRows rows row.key instant.toInt) :
    ∃ sessionStart sessionEnd, window = .interval sessionStart sessionEnd ∧
      (instant = sessionStart ∨ instant = sessionEnd ∧ sessionStart < sessionEnd) := by
  obtain ⟨startMillis, endMillis, sessionStart, sessionEnd, hOriginal, hSession, hSpans⟩ := hInto
  obtain ⟨lower, upper, hSame, hEither⟩ := hBound
  rw [hOriginal, BeamWindow.interval.injEq] at hSame
  obtain ⟨rfl, rfl⟩ := hSame
  obtain ⟨hLow, _, hFill, hEnd⟩ := hSpans
  refine ⟨sessionStart, sessionEnd, hSession, ?_⟩
  rcases hEither with rfl | ⟨rfl, hLong⟩
  · refine .inl (Int64.toInt_inj.mp ?_)
    by_contra hNe
    exact hGap (hFill instant.toInt (by omega) (by omega))
  · have hLongInt := Int64.lt_iff_toInt_lt.mp hLong
    rw [if_neg (by omega)] at hEnd
    obtain ⟨hLess, hEndGap, hInner⟩ := hEnd
    have hAfter : startMillis.toInt < sessionEnd.toInt := by
      by_contra hNot
      exact hEndGap (hFill sessionEnd.toInt (by omega) (by omega))
    refine .inr ⟨Int64.toInt_inj.mp ?_, Int64.lt_iff_toInt_lt.mpr (by omega)⟩
    by_contra hNe
    rcases Int.lt_or_gt_of_ne hNe with hBefore | hBeyond
    · exact hGap (hInner instant.toInt (by omega) hBefore)
    · exact hEndGap ⟨row, hRow, rfl, startMillis, instant, hOriginal, hAfter, by omega⟩

/-- The elements that consecutive runs put into a window of a key. -/
noncomputable def splitInto (needsMerge : Bool) (runs : List (List GbkRow)) (key : PrimitiveValue)
    (window : BeamWindow) : List PaneElement :=
  runs.flatMap fun rows => elementsInto needsMerge rows rows key window

/-- The elements that merge into a window, run by run. -/
theorem elementsInto_flatten (needsMerge : Bool) (all : List GbkRow) (runs : List (List GbkRow))
    (key : PrimitiveValue) (window : BeamWindow) :
    elementsInto needsMerge all runs.flatten key window =
      runs.flatMap fun rows => elementsInto needsMerge all rows key window := by
  induction runs with
  | nil => rfl
  | cons rows runs ih => rw [List.flatten_cons, elementsInto_append, List.flatMap_cons, ih]

open Classical in
/-- Runs that put every window where all rows together put it. -/
theorem splitInto_eq {needsMerge : Bool}
    (h : ∀ rows ∈ runs, ∀ row ∈ rows, ∀ window,
      Into needsMerge rows row.key row.window window ↔
        Into needsMerge runs.flatten row.key row.window window)
    (key : PrimitiveValue) (window : BeamWindow) :
    splitInto needsMerge runs key window =
      elementsInto needsMerge runs.flatten runs.flatten key window := by
  rw [elementsInto_flatten]
  refine List.flatMap_congr fun rows hRows => ?_
  refine congrArg (List.map GbkRow.element) (List.filter_congr fun row hRow => ?_)
  refine decide_eq_decide.mpr (and_congr_right fun hKey => ?_)
  rw [← hKey]
  exact h rows hRows row hRow window

open Classical in
/-- The runs of a key's rows put them into the same windows as all rows together
exactly when they keep sessions. -/
theorem splitInto_perm_iff {needsMerge : Bool}
    (hComplete : ∀ rows ∈ runs, ∀ row ∈ rows, ∃ window,
      Into needsMerge rows row.key row.window window) :
    (∀ key window, window.CoderIdFits →
        ((splitInto needsMerge runs key window).map PaneElement.value).Perm
          ((elementsInto needsMerge runs.flatten runs.flatten key window).map
            PaneElement.value)) ↔
      needsMerge = false ∨ KeepsSessions runs := by
  cases needsMerge with
  | false =>
      refine iff_of_true (fun key window _ => ?_) (.inl rfl)
      rw [splitInto_eq fun _ _ _ _ _ => Iff.rfl]
  | true =>
      rw [or_iff_right (by decide)]
      constructor
      · intro hSame rows hRows row hRow instant hBound hCovered
        by_contra hGap
        obtain ⟨window, hInto⟩ := hComplete rows hRows row hRow
        obtain ⟨sessionStart, sessionEnd, rfl, hInstant⟩ := into_bound hRow hInto hBound hGap
        have hIn : row.element ∈ splitInto true runs row.key (.interval sessionStart sessionEnd) :=
          List.mem_flatMap.mpr ⟨rows, hRows, List.mem_map_of_mem (List.mem_filter.mpr
            ⟨hRow, decide_eq_true ⟨rfl, hInto⟩⟩)⟩
        have hWhole := (hSame row.key (.interval sessionStart sessionEnd) trivial).mem_iff.mp
          (List.mem_map_of_mem hIn)
        obtain ⟨element, hElement, _⟩ := List.mem_map.mp hWhole
        obtain ⟨other, hOther, _⟩ := List.mem_map.mp hElement
        obtain ⟨_, hOtherInto⟩ := of_decide_eq_true (List.mem_filter.mp hOther).2
        obtain ⟨startMillis, endMillis, start, finish, _, hSession, hSpans⟩ := hOtherInto
        rw [BeamWindow.interval.injEq] at hSession
        rw [← hSession.1, ← hSession.2] at hSpans
        rcases hInstant with rfl | ⟨rfl, hLong⟩
        · exact hSpans.2.1 hCovered
        · exact hSpans.gap_finish (Int64.lt_iff_toInt_lt.mp hLong) hCovered
      · intro hKeeps key window _
        rw [splitInto_eq]
        intro rows hRows row hRow other
        refine ⟨hKeeps.into hRows hRow, fun hWhole => ?_⟩
        obtain ⟨own, hOwn⟩ := hComplete rows hRows row hRow
        rw [hWhole.unique (hKeeps.into hRows hRow hOwn)]
        exact hOwn

end Sessions

section Splitting

variable {spec : TriggerSpec} {needsMerge : Bool}

theorem forall₂_concat {α β : Type} {R : α → β → Prop} {front : List α} {last : α}
    {all : List β} (h : List.Forall₂ R (front ++ [last]) all) :
    ∃ before final, all = before ++ [final] ∧ List.Forall₂ R front before ∧ R last final := by
  induction front generalizing all with
  | nil =>
      cases h with
      | cons hLast hNil =>
          cases hNil
          exact ⟨[], _, rfl, .nil, hLast⟩
  | cons first front ih =>
      cases h with
      | cons hFirst hRest =>
          obtain ⟨before, final, rfl, hBefore, hLast⟩ := ih hRest
          exact ⟨_ :: before, final, rfl, .cons hFirst hBefore, hLast⟩

theorem FeedsRows.decoded {run : RowsRun} {groupsRun : GbkRun}
    (h : FeedsRows needsMerge run groupsRun) : groupsRun.Decoded :=
  ⟨h.inputs.fits, h.inputs.elements, h.order⟩

theorem forall₂_mem_right {α β : Type} {R : α → β → Prop} {first : List α} {second : List β}
    (h : List.Forall₂ R first second) {b : β} (hMem : b ∈ second) : ∃ a ∈ first, R a b := by
  induction h with
  | nil => cases hMem
  | @cons a other first second hHead _ ih =>
      rcases List.mem_cons.mp hMem with rfl | hRest
      · exact ⟨a, by simp, hHead⟩
      · obtain ⟨found, hFound, hRelated⟩ := ih hRest
        exact ⟨found, by simp [hFound], hRelated⟩

/-- What is collected for a window is what its rows bring, in some order. -/
theorem collectedFor_perm {runs : List RowsRun} {groupsRuns : List GbkRun}
    (h : List.Forall₂ (FeedsRows needsMerge) runs groupsRuns) (key : PrimitiveValue)
    (window : BeamWindow) :
    (InMemoryGbkState.collectedFor groupsRuns key window).Perm
      (splitInto needsMerge (runs.map RowsRun.rows) key window) := by
  induction h with
  | nil => exact List.Perm.refl _
  | cons hFirst _ ih =>
      rw [InMemoryGbkState.collectedFor, List.flatMap_cons, splitInto, List.map_cons,
        List.flatMap_cons]
      exact (hFirst.inputs.fed key window).append ih

/-- What a history over rows emits for a key and window, when the windows of its
rows end between its last two watermarks. -/
theorem executeRuns_rows {runs : List RowsRun} {last : RowsRun} {groupsRuns : List GbkRun}
    (hFeeds : List.Forall₂ (FeedsRows needsMerge) (runs ++ [last]) groupsRuns)
    (hTrigger : spec.trigger = .default) (hLateness : spec.allowedLateness = 0)
    (hQuiet : ∀ run ∈ runs, ∀ other ∈ runs ++ [last], ∀ row ∈ other.rows,
      ¬ row.window.maxTimestampMillis < run.inputWatermark)
    (hEnded : ∀ run ∈ runs ++ [last], ∀ row ∈ run.rows,
      row.window.maxTimestampMillis < last.inputWatermark) :
    OfGroups (InMemoryGbkState.empty.executeRuns spec groupsRuns).2 ∧
      ∀ key window, window.CoderIdFits →
        (panesOf (groupIdentity key window)
            (InMemoryGbkState.empty.executeRuns spec groupsRuns).2).map paneContents =
          if InMemoryGbkState.collectedFor groupsRuns key window = [] then []
          else [some (GroupInput.contents
            ⟨key, window, InMemoryGbkState.collectedFor groupsRuns key window⟩)] := by
  constructor
  · have hPreserved : ∀ run ∈ groupsRuns,
        InMemoryGbkState.Preserved InMemoryGbkState.EmitsGroups spec run := by
      intro run hRun
      obtain ⟨rowsRun, _, hOf⟩ := forall₂_mem_right hFeeds hRun
      exact InMemoryGbkState.emitsGroups_preserved hOf.inputs.fits
    have hEmpty : InMemoryGbkState.EmitsGroups [] InMemoryGbkState.empty.states [] :=
      ⟨forall_empty _, by simp⟩
    exact (InMemoryGbkState.Preserved.executeRuns groupsRuns hPreserved hEmpty).panes
  · intro key window hWindow
    obtain ⟨before, final, rfl, hBefore, hFinal⟩ := forall₂_concat hFeeds
    refine InMemoryGbkState.executeRuns_contents hTrigger hLateness ?_ ?_ ?_ hWindow
    · intro run hRun
      obtain ⟨rowsRun, _, hOf⟩ := forall₂_mem_right hFeeds hRun
      exact ⟨hOf.decoded, hOf.inputs.nodup⟩
    · intro run hRun other hOther group hGroup
      obtain ⟨rowsRun, hRowsRun, hOf⟩ := forall₂_mem_right hBefore hRun
      obtain ⟨otherRows, hOtherRows, hOtherOf⟩ := forall₂_mem_right hFeeds hOther
      obtain ⟨row, hRow, hEnds⟩ := hOtherOf.inputs.ends group hGroup
      rw [← hEnds, hOf.inputWatermark]
      exact hQuiet rowsRun hRowsRun otherRows hOtherRows row hRow
    · intro run hRun group hGroup
      obtain ⟨rowsRun, hRowsRun, hOf⟩ := forall₂_mem_right hFeeds hRun
      obtain ⟨row, hRow, hEnds⟩ := hOf.inputs.ends group hGroup
      rw [← hEnds, hFinal.inputWatermark]
      exact hEnded rowsRun hRowsRun row hRow

/-- A run over all rows of a history at its last watermark, where no window of a
row has ended before the last run and every window has ended in it. -/
structure CutsInto (needsMerge : Bool) (single : RowsRun) (runs : List RowsRun)
    (last : RowsRun) : Prop where
  proper : ∀ run ∈ runs ++ [last], run.Proper needsMerge
  singleProper : single.Proper needsMerge
  rows : single.rows = (runs ++ [last]).flatMap RowsRun.rows
  inputWatermark : single.inputWatermark = last.inputWatermark
  quiet : ∀ run ∈ runs, ∀ row ∈ single.rows,
    ¬ row.window.maxTimestampMillis < run.inputWatermark
  ended : ∀ row ∈ single.rows, row.window.maxTimestampMillis < last.inputWatermark

theorem CutsInto.mem_rows {runs : List RowsRun} {last single : RowsRun}
    (h : CutsInto needsMerge single runs last) {run : RowsRun} (hRun : run ∈ runs ++ [last])
    {row : GbkRow} (hRow : row ∈ run.rows) : row ∈ single.rows := by
  rw [h.rows]
  exact List.mem_flatMap.mpr ⟨run, hRun, hRow⟩

/-- What the groups of a cut history and of the single run emit compares as the
windows that their rows go into. -/
theorem CutsInto.samePanes_iff {runs : List RowsRun} {last single : RowsRun}
    (h : CutsInto needsMerge single runs last) (hTrigger : spec.trigger = .default)
    (hLateness : spec.allowedLateness = 0) {splitRuns wholeRuns : List GbkRun}
    (hSplit : List.Forall₂ (FeedsRows needsMerge) (runs ++ [last]) splitRuns)
    (hWhole : List.Forall₂ (FeedsRows needsMerge) ([] ++ [single]) wholeRuns) :
    SamePanes (InMemoryGbkState.empty.executeRuns spec splitRuns).2
        (InMemoryGbkState.empty.executeRuns spec wholeRuns).2 ↔
      needsMerge = false ∨ KeepsSessions ((runs ++ [last]).map RowsRun.rows) := by
  obtain ⟨hSplitGroups, hSplitPanes⟩ := executeRuns_rows hSplit hTrigger hLateness
    (fun run hRun other hOther row hRow => h.quiet run hRun row (h.mem_rows hOther hRow))
    (fun run hRun row hRow => h.ended row (h.mem_rows hRun hRow))
  have hSingleEnded : ∀ run ∈ [] ++ [single], ∀ row ∈ run.rows,
      row.window.maxTimestampMillis < single.inputWatermark := by
    intro run hRun row hRow
    have hIs : run = single := by simpa using hRun
    rw [hIs] at hRow
    rw [h.inputWatermark]
    exact h.ended row hRow
  obtain ⟨hWholeGroups, hWholePanes⟩ := executeRuns_rows hWhole hTrigger hLateness
    (fun run hRun => by cases hRun) hSingleEnded
  have hFlatten : single.rows = ((runs ++ [last]).map RowsRun.rows).flatten := by
    rw [h.rows, List.flatMap_def]
  have hComplete : ∀ rows ∈ (runs ++ [last]).map RowsRun.rows, ∀ row ∈ rows, ∃ window,
      Into needsMerge rows row.key row.window window := by
    intro rows hMem
    obtain ⟨run, hRun, rfl⟩ := List.mem_map.mp hMem
    obtain ⟨groupsRun, _, hOf⟩ := forall₂_mem_right hSplit.flip hRun
    exact hOf.inputs.complete
  rw [FlareDB.samePanes_iff hSplitGroups hWholeGroups, ← splitInto_perm_iff hComplete]
  refine forall_congr' fun key => forall_congr' fun window => forall_congr' fun hWindow => ?_
  rw [hSplitPanes key window hWindow, hWholePanes key window hWindow, contents_perm_iff]
  have hSplitPerm := (collectedFor_perm hSplit key window).map PaneElement.value
  have hWholePerm := (collectedFor_perm hWhole key window).map PaneElement.value
  have hOne : splitInto needsMerge (([] ++ [single]).map RowsRun.rows) key window =
      elementsInto needsMerge single.rows single.rows key window := by
    simp [splitInto]
  rw [hOne, hFlatten] at hWholePerm
  exact ⟨fun hSame => hSplitPerm.symm.trans (hSame.trans hWholePerm),
    fun hSame => hSplitPerm.trans (hSame.trans hWholePerm.symm)⟩

/-- Cutting the input into runs that wait for the last one leaves the panes as
they are exactly when windows are not merged or the runs keep sessions. -/
theorem executeAllRows_samePanes_iff (spec : TriggerSpec) (needsMerge : Bool)
    (windowMerger : Option WindowMerger) (inputPcollectionId : String) (single : RowsRun)
    (runs : List RowsRun) (last : RowsRun) (hTrigger : spec.trigger = .default)
    (hLateness : spec.allowedLateness = 0) (hCuts : CutsInto needsMerge single runs last) :
    ∃ split whole,
      executeAllRows spec needsMerge windowMerger inputPcollectionId (runs ++ [last])
          InMemoryGbkState.empty = .ok split ∧
        executeAllRows spec needsMerge windowMerger inputPcollectionId [single]
          InMemoryGbkState.empty = .ok whole ∧
        (SamePanes split whole ↔ needsMerge = false ∨
          KeepsSessions ((runs ++ [last]).map RowsRun.rows)) := by
  obtain ⟨splitRuns, hSplit, hSplitOk⟩ := executeAllRows_ok spec windowMerger inputPcollectionId
    (runs ++ [last]) hCuts.proper
  obtain ⟨wholeRuns, hWhole, hWholeOk⟩ := executeAllRows_ok spec windowMerger inputPcollectionId
    ([] ++ [single]) (by simpa using hCuts.singleProper)
  exact ⟨_, _, hSplitOk _, hWholeOk _, hCuts.samePanes_iff hTrigger hLateness hSplit hWhole⟩

/-- A row of one key whose value is the start of its window. -/
def sessionRow (startMillis endMillis : Int64) : GbkRow where
  key := .string "k"
  window := .interval startMillis endMillis
  element := ⟨.primitive (.int64 startMillis), startMillis⟩

def sessionRun (rows : List GbkRow) (inputWatermark : Int64) : RowsRun where
  rows := rows
  inputWatermark := inputWatermark
  processingTime := 0
  mergeOrder := id
  scanOrder := id

theorem sessionRun_proper (needsMerge : Bool) {rows : List GbkRow}
    (h : ∀ row ∈ rows, ∃ startMillis endMillis, row = sessionRow startMillis endMillis)
    (inputWatermark : Int64) : (sessionRun rows inputWatermark).Proper needsMerge := by
  refine ⟨fun row hRow => ?_, fun _ row hRow => ?_, fun _ => List.Perm.refl _⟩
  all_goals
    obtain ⟨startMillis, endMillis, rfl⟩ := h row hRow
  · trivial
  · rfl

/-- Two windows that end by 100, read by one run each. -/
theorem cutsInto_sessionRuns (needsMerge : Bool) {start₁ end₁ start₂ end₂ : Int64}
    (hFirst : ¬ end₁ - 1 < 0 ∧ end₁ - 1 < 100) (hSecond : ¬ end₂ - 1 < 0 ∧ end₂ - 1 < 100) :
    CutsInto needsMerge (sessionRun [sessionRow start₁ end₁, sessionRow start₂ end₂] 100)
      [sessionRun [sessionRow start₁ end₁] 0] (sessionRun [sessionRow start₂ end₂] 100) := by
  refine ⟨?_, sessionRun_proper _ ?_ _, rfl, rfl, ?_, ?_⟩
  · intro run hRun
    have hEither : run = sessionRun [sessionRow start₁ end₁] 0 ∨
        run = sessionRun [sessionRow start₂ end₂] 100 := by simpa using hRun
    rcases hEither with rfl | rfl
    all_goals exact sessionRun_proper _ (fun row hRow => ⟨_, _, List.mem_singleton.mp hRow⟩) _
  · intro row hRow
    rcases List.mem_pair.mp hRow with rfl | rfl
    all_goals exact ⟨_, _, rfl⟩
  · intro run hRun row hRow
    rw [List.mem_singleton.mp hRun]
    rcases List.mem_pair.mp hRow with rfl | rfl
    · exact hFirst.1
    · exact hSecond.1
  · intro row hRow
    rcases List.mem_pair.mp hRow with rfl | rfl
    · exact hFirst.2
    · exact hSecond.2

theorem coveredRows_sessionRow {startMillis endMillis : Int64} {key : PrimitiveValue} {t : Int} :
    CoveredRows [sessionRow startMillis endMillis] key t ↔
      key = .string "k" ∧ startMillis.toInt < t ∧ t < endMillis.toInt := by
  constructor
  · rintro ⟨row, hRow, rfl, lower, upper, hWindow, hInside⟩
    rw [List.mem_singleton.mp hRow] at hWindow ⊢
    rw [sessionRow, BeamWindow.interval.injEq] at hWindow
    rw [hWindow.1, hWindow.2]
    exact ⟨rfl, hInside⟩
  · rintro ⟨rfl, hInside⟩
    exact ⟨_, List.mem_singleton_self _, rfl, _, _, rfl, hInside⟩

theorem coveredRows_sessionRows {start₁ end₁ start₂ end₂ : Int64} {key : PrimitiveValue}
    {t : Int} :
    CoveredRows [[sessionRow start₁ end₁], [sessionRow start₂ end₂]].flatten key t ↔
      CoveredRows [sessionRow start₁ end₁] key t ∨ CoveredRows [sessionRow start₂ end₂] key t := by
  simp only [CoveredRows, List.flatten_cons, List.flatten_nil, List.append_nil,
    List.singleton_append, List.mem_pair, List.mem_singleton, exists_eq_or_imp, exists_eq_left]

/-- A session has two bounds, its start and its end. -/
theorem boundOf_sessionRow {startMillis endMillis instant : Int64}
    (h : BoundOf (sessionRow startMillis endMillis).window instant) :
    instant = startMillis ∨ instant = endMillis := by
  obtain ⟨lower, upper, hWindow, hBound⟩ := h
  rw [sessionRow, BeamWindow.interval.injEq] at hWindow
  rw [hWindow.1, hWindow.2]
  exact hBound.imp_right And.left

/-- Windows apart from each other may be read by different runs. -/
theorem executeAllRows_samePanes_apart :
    ∃ split whole,
      executeAllRows (latenessSpec 0) true none "input"
          [sessionRun [sessionRow 0 10] 0, sessionRun [sessionRow 20 30] 100]
          InMemoryGbkState.empty = .ok split ∧
        executeAllRows (latenessSpec 0) true none "input"
          [sessionRun [sessionRow 0 10, sessionRow 20 30] 100] InMemoryGbkState.empty =
          .ok whole ∧
        SamePanes split whole := by
  obtain ⟨split, whole, hSplit, hWhole, hIff⟩ := executeAllRows_samePanes_iff (latenessSpec 0)
    true none "input" (sessionRun [sessionRow 0 10, sessionRow 20 30] 100)
    [sessionRun [sessionRow 0 10] 0] (sessionRun [sessionRow 20 30] 100) rfl rfl
    (cutsInto_sessionRuns true (by decide) (by decide))
  refine ⟨split, whole, hSplit, hWhole, hIff.mpr (.inr ?_)⟩
  intro rows hRows row hRow instant hBound hCovered
  rcases List.mem_pair.mp hRows with rfl | rfl
  all_goals
    rw [List.mem_singleton.mp hRow] at hBound hCovered ⊢
    rcases boundOf_sessionRow hBound with rfl | rfl
    all_goals
      rcases coveredRows_sessionRows.mp hCovered with hFirst | hSecond
      · exact absurd (coveredRows_sessionRow.mp hFirst).2 (by decide)
      · exact absurd (coveredRows_sessionRow.mp hSecond).2 (by decide)

/-- The rows of overlapping windows that different runs read stay in panes of
their own. -/
theorem not_executeAllRows_samePanes_overlapping :
    ¬ ∀ (spec : TriggerSpec) (needsMerge : Bool) (windowMerger : Option WindowMerger)
      (inputPcollectionId : String) (single : RowsRun) (runs : List RowsRun) (last : RowsRun),
      spec.trigger = .default → spec.allowedLateness = 0 →
      spec.accumulation = .discarding → CutsInto needsMerge single runs last →
      ∃ split whole,
        executeAllRows spec needsMerge windowMerger inputPcollectionId (runs ++ [last])
            InMemoryGbkState.empty = .ok split ∧
          executeAllRows spec needsMerge windowMerger inputPcollectionId [single]
            InMemoryGbkState.empty = .ok whole ∧
          SamePanes split whole := by
  intro h
  have hCuts : CutsInto true (sessionRun [sessionRow 0 10, sessionRow 5 15] 100)
      [sessionRun [sessionRow 0 10] 0] (sessionRun [sessionRow 5 15] 100) :=
    cutsInto_sessionRuns true (by decide) (by decide)
  obtain ⟨split, whole, hSplitIs, hWholeIs, hSame⟩ := h (latenessSpec 0) true none "input" _ _ _
    rfl rfl rfl hCuts
  obtain ⟨splitRuns, hSplit, hSplitOk⟩ := executeAllRows_ok (latenessSpec 0) none "input" _
    hCuts.proper
  obtain ⟨wholeRuns, hWhole, hWholeOk⟩ := executeAllRows_ok (latenessSpec 0) none "input"
    ([] ++ [sessionRun [sessionRow 0 10, sessionRow 5 15] 100])
    (by simpa using hCuts.singleProper)
  rw [hSplitOk, Except.ok.injEq] at hSplitIs
  rw [← List.nil_append [sessionRun _ _], hWholeOk, Except.ok.injEq] at hWholeIs
  rw [← hSplitIs, ← hWholeIs, hCuts.samePanes_iff rfl rfl hSplit hWhole] at hSame
  have hKeeps := hSame.resolve_left (by decide)
  -- the second window starts inside the first one
  have hInside := hKeeps [sessionRow 5 15] (by simp [sessionRun]) (sessionRow 5 15) (by simp) 5
    ⟨5, 15, rfl, .inl rfl⟩
    (coveredRows_sessionRows.mpr (.inl (coveredRows_sessionRow.mpr ⟨rfl, by decide⟩)))
  exact absurd (coveredRows_sessionRow.mp hInside).2 (by decide)

end Splitting
end FlareDB
