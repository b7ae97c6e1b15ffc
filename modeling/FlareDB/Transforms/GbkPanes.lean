import FlareDB.Transforms.GbkGroup

/-! The panes one group emits over a run history, and when their descriptions
form a proper sequence. A pane is described by the firings its group has had;
a firing without elements counts as one although it emits nothing, and a firing
past the window's end is told from the first one by any earlier firing. -/
namespace FlareDB

open KeyedStore

/-- One evaluation of a group: its state with any new elements, whether that
state was created for it, and whether the group was emitted without being
stored. -/
structure Evaluation where
  state : WindowState
  inputWatermark : Int64
  processingTime : Int64
  created : Bool
  direct : Bool

namespace Evaluation

def context (spec : TriggerSpec) (evaluation : Evaluation) : TriggerContext :=
  triggerContext spec evaluation.state.window evaluation.inputWatermark evaluation.processingTime

/-- The watermark has passed the end of the group's window. -/
def pastEnd (evaluation : Evaluation) : Bool :=
  decide (evaluation.state.window.maxTimestampMillis < evaluation.inputWatermark)

/-- The trigger is ready or the window closes. -/
def fires (spec : TriggerSpec) (evaluation : Evaluation) : Bool :=
  evaluation.state.trigger.shouldFire (evaluation.context spec) ||
    (evaluation.context spec).expired && !evaluation.state.closed

/-- A firing of a group without elements is suppressed; a group that is not
stored is always emitted. -/
def emits (spec : TriggerSpec) (evaluation : Evaluation) : Bool :=
  evaluation.direct || evaluation.fires spec && !evaluation.state.elements.isEmpty

def pane (spec : TriggerSpec) (evaluation : Evaluation) : Option WindowedValue :=
  if evaluation.direct then
    some (groupPane evaluation.state.key evaluation.state.window evaluation.state.elements
      (outputTimestamp spec.outputTime evaluation.state.window evaluation.state.paneTimestamps)
      (paneInfo .onTime 0 true true))
  else (fireState evaluation.state spec evaluation.inputWatermark evaluation.processingTime).2

end Evaluation

namespace InMemoryGbkState

variable (spec : TriggerSpec) (identity : GroupIdentity)

/-- The evaluations of a group while a run is fed. -/
def feedEvaluations (inputWatermark processingTime : Int64) :
    List GroupInput → InMemoryGbkState → List Evaluation
  | [], _ => []
  | group :: groups, inner =>
      let next := (inner.applyGroup group.key group.window group.elements spec inputWatermark
        processingTime).1
      let rest := feedEvaluations inputWatermark processingTime groups next
      if group.identity = identity then
        { state := fedState spec processingTime group (inner.states.lookup identity)
          inputWatermark
          processingTime
          created := (inner.states.lookup identity).isNone
          direct := inner.emitsDirectly group.window spec inputWatermark } :: rest
      else rest

/-- The evaluation of a stored group that no input of the run has reached. -/
def drainEvaluations (inputWatermark processingTime : Int64) :
    Option WindowState → List Evaluation
  | none => []
  | some state =>
      if state.evaluatedThisRun then []
      else [{ state, inputWatermark, processingTime, created := false, direct := false }]

def runEvaluations (inner : InMemoryGbkState) (run : GbkRun) : List Evaluation :=
  let fed := (inner.beginRun.applyGroups spec run.inputWatermark run.processingTime run.groups).1
  feedEvaluations spec identity run.inputWatermark run.processingTime run.groups inner.beginRun ++
    drainEvaluations run.inputWatermark run.processingTime (fed.states.lookup identity)

/-- All evaluations of a group over a history, in order. -/
def evaluations : List GbkRun → InMemoryGbkState → List Evaluation
  | [], _ => []
  | run :: runs, inner =>
      runEvaluations spec identity inner run ++ evaluations runs (inner.executeRun spec run).1

/-- The panes of a group over a history, each with the watermark of its run. -/
def emissions : List GbkRun → InMemoryGbkState → List (Int64 × WindowedValue)
  | [], _ => []
  | run :: runs, inner =>
      let (next, output) := inner.executeRun spec run
      (panesOf identity output).map (fun pane => (run.inputWatermark, pane)) ++
        emissions runs next

section Log

variable (inputWatermark processingTime : Int64)

/-- Feeding groups emits the panes of the evaluations, and keeps states under
their identities. -/
theorem feedEvaluations_panes (groups : List GroupInput) {inner : InMemoryGbkState}
    (h : Grouped inner.states) (hFits : ∀ group ∈ groups, group.window.CoderIdFits) :
    Grouped (inner.applyGroups spec inputWatermark processingTime groups).1.states ∧
      panesOf identity (inner.applyGroups spec inputWatermark processingTime groups).2 =
        (feedEvaluations spec identity inputWatermark processingTime groups inner).filterMap
          (Evaluation.pane spec) := by
  induction groups generalizing inner with
  | nil => exact ⟨h, rfl⟩
  | cons group groups ih =>
      obtain ⟨hGrouped, _, hPanes⟩ := applyGroup_group spec inputWatermark processingTime h
        (hFits group (by simp)) identity
      obtain ⟨hRest, hRestPanes⟩ := ih hGrouped (fun other hOther => hFits other (by simp [hOther]))
      refine ⟨hRest, ?_⟩
      rw [applyGroups, feedEvaluations]
      dsimp only
      rw [panesOf_append, hPanes, hRestPanes]
      split
      · rw [List.filterMap_cons, Evaluation.pane, feedGroup]
        dsimp only
        cases hDirect : inner.emitsDirectly group.window spec inputWatermark with
        | true =>
            rw [if_pos rfl, if_pos rfl, lookup_of_emitsDirectly hDirect]
            rfl
        | false =>
            rw [if_neg (by decide), if_neg (by decide)]
            cases (fireState (fedState spec processingTime group (inner.states.lookup identity))
              spec inputWatermark processingTime).2 <;> rfl
      · rfl

/-- So does draining. -/
theorem drainEvaluations_panes (stored : Option WindowState) :
    (evaluateGroup spec inputWatermark processingTime stored).2 =
      (drainEvaluations inputWatermark processingTime stored).filterMap
        (Evaluation.pane spec) := by
  cases stored with
  | none => rfl
  | some state =>
      rw [evaluateGroup, drainEvaluations]
      split
      · rfl
      · rw [List.filterMap_cons, Evaluation.pane]
        dsimp only
        rw [if_neg (by decide)]
        cases (fireState state spec inputWatermark processingTime).2 <;> rfl

/-- The panes of a run are those of its evaluations. -/
theorem runEvaluations_panes {run : GbkRun} {inner : InMemoryGbkState}
    (h : Grouped inner.states) (hFits : ∀ group ∈ run.groups, group.window.CoderIdFits)
    (hOrder : ∀ identities, (run.order identities).Perm identities) :
    Grouped (inner.executeRun spec run).1.states ∧
      panesOf identity (inner.executeRun spec run).2 =
        (runEvaluations spec identity inner run).filterMap (Evaluation.pane spec) := by
  have hBegin : Grouped inner.beginRun.states := h.begin
  obtain ⟨hFed, hFedPanes⟩ := feedEvaluations_panes spec identity run.inputWatermark
    run.processingTime run.groups hBegin hFits
  obtain ⟨hDrained, _, hPanes⟩ := drainReady_group spec run.inputWatermark run.processingTime
    hOrder hFed (readyScan_fed spec inner run) identity
  refine ⟨hDrained, ?_⟩
  rw [executeRun, runEvaluations]
  dsimp only
  rw [panesOf_append, hFedPanes, hPanes, drainEvaluations_panes, List.filterMap_append]

end Log
end InMemoryGbkState

/-- The pane bookkeeping of a stored group: its pane index and whether it has
fired. -/
def WindowState.progress (state : WindowState) : Int64 × Bool :=
  (state.paneIndex, state.fired)

/-- Evaluations that carry a group's bookkeeping from one to the next. -/
def Follows (spec : TriggerSpec) (window : BeamWindow) :
    Option (Int64 × Bool) → List Evaluation → Option (Int64 × Bool) → Prop
  | before, [], after => before = after
  | before, evaluation :: rest, after =>
      evaluation.state.window = window ∧ evaluation.state.closed = false ∧
        evaluation.created = before.isNone ∧
        evaluation.state.progress = before.getD (0, false) ∧
        (evaluation.direct = true → before = none ∧
          windowExpired spec window evaluation.inputWatermark = true) ∧
        Follows spec window
          (if evaluation.direct then before
            else (fireState evaluation.state spec evaluation.inputWatermark
              evaluation.processingTime).1.kept.map WindowState.progress) rest after

/-- What follows a log follows its continuation. -/
theorem Follows.append {spec : TriggerSpec} {window : BeamWindow} {log rest : List Evaluation}
    {before middle after : Option (Int64 × Bool)} (hLog : Follows spec window before log middle)
    (hRest : Follows spec window middle rest after) :
    Follows spec window before (log ++ rest) after := by
  induction log generalizing before with
  | nil =>
      rw [Follows] at hLog
      rw [List.nil_append, hLog]
      exact hRest
  | cons evaluation log ih =>
      obtain ⟨hWindow, hOpen, hCreated, hProgress, hDirect, hNext⟩ := hLog
      exact ⟨hWindow, hOpen, hCreated, hProgress, hDirect, ih hNext⟩

namespace InMemoryGbkState

section Follow

variable (spec : TriggerSpec) (key : PrimitiveValue) {window : BeamWindow}
  (hWindow : window.CoderIdFits) (inputWatermark processingTime : Int64)

include hWindow in
/-- The evaluations of feeding groups follow each other. -/
theorem feedEvaluations_follows (groups : List GroupInput) {inner : InMemoryGbkState}
    (h : Grouped inner.states) (hFits : ∀ group ∈ groups, group.window.CoderIdFits) :
    Follows spec window
      ((inner.states.lookup (groupIdentity key window)).map WindowState.progress)
      (feedEvaluations spec (groupIdentity key window) inputWatermark processingTime groups inner)
      (((inner.applyGroups spec inputWatermark processingTime groups).1.states.lookup
        (groupIdentity key window)).map WindowState.progress) := by
  induction groups generalizing inner with
  | nil => rfl
  | cons group groups ih =>
      obtain ⟨hGrouped, hLookup, _⟩ := applyGroup_group spec inputWatermark processingTime h
        (hFits group (by simp)) (groupIdentity key window)
      have hRest := ih hGrouped (fun other hOther => hFits other (by simp [hOther]))
      rw [hLookup] at hRest
      rw [feedEvaluations, applyGroups]
      dsimp only
      by_cases hOwn : group.identity = groupIdentity key window
      · rw [if_pos hOwn] at hRest ⊢
        obtain ⟨rfl, rfl⟩ := groupIdentity_injective (hFits group (by simp)) hWindow hOwn
        obtain ⟨_, hStateWindow, hOpen, _⟩ := groupState_spec h hWindow
          (TriggerRunner.new spec.trigger)
        refine ⟨hStateWindow, hOpen, ?_, ?_, ?_, ?_⟩
        · rw [Option.isNone_map]
        · cases inner.states.lookup (groupIdentity group.key group.window) <;> rfl
        · intro hDirect
          rw [lookup_of_emitsDirectly hDirect]
          exact ⟨rfl, expired_of_emitsDirectly hDirect⟩
        · rw [feedGroup] at hRest
          dsimp only at hRest ⊢
          split
          · next hDirect =>
              rw [if_pos hDirect] at hRest
              exact hRest
          · next hDirect =>
              rw [if_neg hDirect] at hRest
              exact hRest
      · rw [if_neg hOwn] at hRest ⊢
        exact hRest

/-- So do those of draining. -/
theorem drainEvaluations_follows {stored : Option WindowState}
    (h : ∀ state, stored = some state → state.window = window ∧ state.closed = false) :
    Follows spec window (stored.map WindowState.progress)
      (drainEvaluations inputWatermark processingTime stored)
      ((evaluateGroup spec inputWatermark processingTime stored).1.map WindowState.progress) := by
  cases stored with
  | none => rfl
  | some state =>
      obtain ⟨hStateWindow, hOpen⟩ := h state rfl
      rw [drainEvaluations, evaluateGroup]
      split
      · rfl
      · exact ⟨hStateWindow, hOpen, rfl, rfl, (by intro hDirect; cases hDirect), rfl⟩

include hWindow in
/-- So do those of a run. -/
theorem runEvaluations_follows {run : GbkRun} {inner : InMemoryGbkState}
    (h : Grouped inner.states) (hFits : ∀ group ∈ run.groups, group.window.CoderIdFits)
    (hOrder : ∀ identities, (run.order identities).Perm identities) :
    Follows spec window
      ((inner.states.lookup (groupIdentity key window)).map WindowState.progress)
      (runEvaluations spec (groupIdentity key window) inner run)
      (((inner.executeRun spec run).1.states.lookup (groupIdentity key window)).map
        WindowState.progress) := by
  have hBegin : Grouped inner.beginRun.states := h.begin
  have hFollows := feedEvaluations_follows spec key hWindow run.inputWatermark
    run.processingTime run.groups hBegin hFits
  have hStart : (inner.beginRun.states.lookup (groupIdentity key window)).map
      WindowState.progress =
      (inner.states.lookup (groupIdentity key window)).map WindowState.progress := by
    rw [beginRun]
    dsimp only
    rw [lookup_mapValues, Option.map_map]
    rfl
  obtain ⟨hFed, _⟩ := feedEvaluations_panes spec (groupIdentity key window) run.inputWatermark
    run.processingTime run.groups hBegin hFits
  obtain ⟨_, hLookup, _⟩ := drainReady_group spec run.inputWatermark run.processingTime
    hOrder hFed (readyScan_fed spec inner run) (groupIdentity key window)
  have hStored : ∀ state, (inner.beginRun.applyGroups spec run.inputWatermark run.processingTime
      run.groups).1.states.lookup (groupIdentity key window) = some state →
      state.window = window ∧ state.closed = false := by
    intro state hState
    obtain ⟨hIdentity, hStateFits, hOpen⟩ := hFed _ state hState
    exact ⟨(groupIdentity_injective hWindow hStateFits hIdentity).2.symm, hOpen⟩
  have hDrained := drainEvaluations_follows spec run.inputWatermark run.processingTime hStored
  rw [hStart] at hFollows
  rw [← hLookup] at hDrained
  exact hFollows.append hDrained

end Follow
end InMemoryGbkState

/-- A pane as it was emitted: the watermark of its run and its description. -/
abbrev EmittedPane := Int64 × PaneInfo

def BeamWindow.endedAt (window : BeamWindow) (inputWatermark : Int64) : Bool :=
  decide (window.maxTimestampMillis < inputWatermark)

/-- The description of a pane, given those emitted before it. -/
structure Describes (spec : TriggerSpec) (window : BeamWindow) (earlier : List EmittedPane)
    (emitted : EmittedPane) : Prop where
  index : emitted.2.index = Int64.ofNat earlier.length
  isFirst : emitted.2.isFirst = true ↔ earlier = []
  timing : emitted.2.timing =
    if window.endedAt emitted.1 then
      if earlier.any fun pane => window.endedAt pane.1 then .late else .onTime
    else .early
  nonSpeculativeIndex : emitted.2.nonSpeculativeIndex =
    if emitted.2.timing = .early then -1
    else Int64.ofNat (earlier.countP fun pane => decide (pane.2.timing ≠ .early))
  isLast : emitted.2.isLast = true → windowExpired spec window emitted.1 = true

def AllDescribed (spec : TriggerSpec) (window : BeamWindow) (panes : List EmittedPane) : Prop :=
  ∀ earlier emitted later, panes = earlier ++ emitted :: later →
    Describes spec window earlier emitted

/-- Early panes, then an on-time one, then late ones. -/
def TimingPattern (timings : List PaneTiming) : Prop :=
  ∃ early late, timings = List.replicate early .early ∨
    timings = List.replicate early .early ++ .onTime :: List.replicate late .late

/-- The panes of one group form a proper sequence. -/
structure WellFormedPanes (spec : TriggerSpec) (window : BeamWindow) (panes : List EmittedPane) :
    Prop where
  described : AllDescribed spec window panes
  timings : TimingPattern (panes.map fun pane => pane.2.timing)

section Sequence

variable {spec : TriggerSpec} {window : BeamWindow}

/-- A pane that is described may be added at the end. -/
theorem AllDescribed.snoc {panes : List EmittedPane} (h : AllDescribed spec window panes)
    {emitted : EmittedPane} (hLast : Describes spec window panes emitted) :
    AllDescribed spec window (panes ++ [emitted]) := by
  intro earlier other later hSplit
  rcases List.eq_nil_or_concat later with rfl | ⟨front, last, rfl⟩
  · obtain ⟨rfl, hSame⟩ := List.append_inj' hSplit rfl
    cases hSame
    exact hLast
  · rw [List.concat_eq_append, ← List.cons_append, ← List.append_assoc] at hSplit
    exact h earlier other front (List.append_inj' hSplit rfl).1

/-- Panes of a described sequence are early exactly before the window's end. -/
theorem AllDescribed.early_iff {panes : List EmittedPane} (h : AllDescribed spec window panes)
    {pane : EmittedPane} (hPane : pane ∈ panes) :
    pane.2.timing = .early ↔ window.endedAt pane.1 = false := by
  obtain ⟨earlier, later, rfl⟩ := List.append_of_mem hPane
  rw [(h earlier pane later rfl).timing]
  cases window.endedAt pane.1 with
  | false => simp
  | true =>
      simp only [if_true]
      split <;> simp

/-- Along non-decreasing watermarks, described panes follow the pattern. -/
theorem AllDescribed.timingPattern {panes : List EmittedPane} (h : AllDescribed spec window panes)
    (hSorted : (panes.map Prod.fst).Pairwise (· ≤ ·)) :
    TimingPattern (panes.map fun pane => pane.2.timing) := by
  suffices hStronger :
      (panes.any fun pane => window.endedAt pane.1) = false ∧
          panes.map (fun pane => pane.2.timing) = List.replicate panes.length .early ∨
        (panes.any fun pane => window.endedAt pane.1) = true ∧ ∃ early late,
          panes.map (fun pane => pane.2.timing) =
            List.replicate early .early ++ .onTime :: List.replicate late .late by
    rcases hStronger with ⟨_, hEarly⟩ | ⟨_, early, late, hTimings⟩
    · exact ⟨_, 0, .inl hEarly⟩
    · exact ⟨early, late, .inr hTimings⟩
  induction panes using List.reverseRecOn with
  | nil => exact .inl ⟨rfl, rfl⟩
  | append_singleton panes last ih =>
      have hBefore : AllDescribed spec window panes := by
        intro earlier emitted later hSplit
        exact h earlier emitted (later ++ [last]) (by rw [hSplit]; simp)
      have hLast := (h panes last [] rfl).timing
      rw [List.map_append, List.pairwise_append] at hSorted
      have hBelow : ∀ pane ∈ panes, pane.1 ≤ last.1 := fun pane hPane =>
        hSorted.2.2 pane.1 (List.mem_map_of_mem hPane) last.1 (by simp)
      rw [List.map_append, List.any_append]
      rcases ih hBefore hSorted.1 with ⟨hNone, hTimings⟩ | ⟨hSome, early, late, hTimings⟩
      · rw [hNone] at hLast ⊢
        cases hEnded : window.endedAt last.1 with
        | false =>
            refine .inl ⟨by simp [hEnded], ?_⟩
            rw [hTimings, List.length_append, List.replicate_add]
            simp [hLast, hEnded]
        | true =>
            refine .inr ⟨by simp [hEnded], panes.length, 0, ?_⟩
            rw [hTimings]
            simp [hLast, hEnded]
      · obtain ⟨pane, hPane, hEnded⟩ := List.any_eq_true.mp hSome
        have hLastEnded : window.endedAt last.1 = true :=
          decide_eq_true (Int64.lt_of_lt_of_le (of_decide_eq_true hEnded) (hBelow pane hPane))
        rw [hSome] at hLast ⊢
        refine .inr ⟨rfl, early, late + 1, ?_⟩
        rw [hTimings, List.replicate_add]
        simp [hLast, hLastEnded]

/-- The three outcomes of evaluating a stored group. -/
theorem Evaluation.step_cases {evaluation : Evaluation} (hStored : evaluation.direct = false)
    (hOpen : evaluation.state.closed = false) :
    let next := (fireState evaluation.state spec evaluation.inputWatermark
      evaluation.processingTime).1
    (evaluation.fires spec = false ∧ evaluation.pane spec = none ∧
        next.kept.map WindowState.progress = some evaluation.state.progress) ∨
      (evaluation.fires spec = true ∧ evaluation.state.elements = [] ∧
        evaluation.pane spec = none) ∨
      (evaluation.fires spec = true ∧ evaluation.emits spec = true ∧
        (∃ pane, evaluation.pane spec = some pane ∧
          pane.pane = paneInfo (paneTiming evaluation.pastEnd (!evaluation.state.fired))
            evaluation.state.paneIndex (!evaluation.state.fired)
            (windowExpired spec evaluation.state.window evaluation.inputWatermark)) ∧
        next.kept.map WindowState.progress =
          if windowExpired spec evaluation.state.window evaluation.inputWatermark then none
          else some (evaluation.state.paneIndex + 1, true)) := by
  have hFires : evaluation.fires spec = (evaluation.state.trigger.shouldFire (triggerContext spec
      evaluation.state.window evaluation.inputWatermark evaluation.processingTime) ||
      (triggerContext spec evaluation.state.window evaluation.inputWatermark
        evaluation.processingTime).expired && !evaluation.state.closed) := rfl
  rw [Evaluation.pane, hStored, if_neg (by decide)]
  dsimp only
  unfold fireState
  dsimp only
  rw [← hFires]
  cases hFired : evaluation.fires spec with
  | false =>
      refine .inl ⟨rfl, rfl, ?_⟩
      simp [WindowState.kept, WindowState.progress, hOpen]
  | true =>
      cases hElements : evaluation.state.elements with
      | nil => exact .inr (.inl ⟨rfl, rfl, rfl⟩)
      | cons element elements =>
          refine .inr (.inr ⟨rfl, ?_, ⟨_, rfl, rfl⟩, ?_⟩)
          · simp [Evaluation.emits, hFired, hElements]
          · simp only [Bool.not_true, Bool.false_eq_true, if_false, List.isEmpty_cons,
              WindowState.kept, triggerContext, hOpen, Bool.false_or]
            split <;> rfl

/-- No firing without elements comes before a pane, panes lie on one side of
the window's end, and a group is emitted without being stored only past it. -/
structure ProperFirings (spec : TriggerSpec) (log : List Evaluation) : Prop where
  suppressed : log.Pairwise fun first second => first.fires spec = true →
    first.state.elements = [] → second.emits spec = false
  sides : log.Pairwise fun first second => first.emits spec = true → first.pastEnd = false →
    second.emits spec = true → second.pastEnd = false
  direct : ∀ evaluation ∈ log, evaluation.direct = true → evaluation.pastEnd = true

def Evaluation.emitted (spec : TriggerSpec) (evaluation : Evaluation) : Option EmittedPane :=
  (evaluation.pane spec).map fun pane => (evaluation.inputWatermark, pane.pane)

/-- An evaluation that emits nothing has no pane. -/
theorem Evaluation.pane_of_not_emits {evaluation : Evaluation}
    (hOpen : evaluation.state.closed = false) (h : evaluation.emits spec = false) :
    evaluation.pane spec = none := by
  have hStored : evaluation.direct = false := by
    simp only [Evaluation.emits, Bool.or_eq_false_iff] at h
    exact h.1
  rcases evaluation.step_cases hStored hOpen with ⟨_, hPane, _⟩ | ⟨_, _, hPane⟩ | ⟨_, hEmits, _⟩
  · exact hPane
  · exact hPane
  · rw [h] at hEmits
    cases hEmits

/-- Groups that do not emit any more leave the sequence as it is. -/
theorem Follows.emitted_eq_nil {log : List Evaluation} {before after : Option (Int64 × Bool)}
    (hLog : Follows spec window before log after)
    (hNone : ∀ evaluation ∈ log, evaluation.emits spec = false) :
    log.filterMap (Evaluation.emitted spec) = [] := by
  induction log generalizing before with
  | nil => rfl
  | cons evaluation rest ih =>
      obtain ⟨_, hOpen, _, _, _, hNext⟩ := hLog
      rw [List.filterMap_cons, Evaluation.emitted,
        Evaluation.pane_of_not_emits hOpen (hNone evaluation (by simp))]
      exact ih hNext fun other hOther => hNone other (by simp [hOther])

/-- What a pane says of itself, when the group's bookkeeping counts the panes
before it and none of them lies on the other side of the window's end. -/
theorem describes_of_progress {earlier : List EmittedPane} {inputWatermark : Int64}
    (hEarlier : AllDescribed spec window earlier)
    (hSides : ∀ pane ∈ earlier, window.endedAt pane.1 = false →
      window.endedAt inputWatermark = false) :
    Describes spec window earlier (inputWatermark,
      paneInfo (paneTiming (window.endedAt inputWatermark) (!!earlier.isEmpty))
        (Int64.ofNat earlier.length) (!!earlier.isEmpty)
        (windowExpired spec window inputWatermark)) := by
  have hEnded : window.endedAt inputWatermark = true →
      ∀ pane ∈ earlier, window.endedAt pane.1 = true := by
    intro hPast pane hPane
    by_contra hNot
    rw [hSides pane hPane (by simpa using hNot)] at hPast
    cases hPast
  have hTiming : paneTiming (window.endedAt inputWatermark) (!!earlier.isEmpty) =
      if window.endedAt inputWatermark then
        if earlier.any fun pane => window.endedAt pane.1 then .late else .onTime
      else .early := by
    cases hPast : window.endedAt inputWatermark with
    | false => rfl
    | true =>
        cases earlier with
        | nil => rfl
        | cons pane rest =>
            have hFirst := hEnded hPast pane (by simp)
            simp [paneTiming, hFirst]
  refine ⟨rfl, by simp [paneInfo], hTiming, ?_, id⟩
  show (if paneTiming (window.endedAt inputWatermark) (!!earlier.isEmpty) = .early then (-1 : Int64)
    else Int64.ofNat earlier.length) = if paneTiming (window.endedAt inputWatermark)
      (!!earlier.isEmpty) = .early then (-1 : Int64) else _
  split
  · rfl
  · next hLater =>
      have hPast : window.endedAt inputWatermark = true := by
        by_contra hNot
        rw [Bool.not_eq_true] at hNot
        exact hLater (by rw [hNot]; rfl)
      congr 1
      refine (List.countP_eq_length.mpr fun pane hPane => decide_eq_true ?_).symm
      rw [Ne, hEarlier.early_iff hPane, hEnded hPast pane hPane]
      decide

/-- Proper firings of a state that is never recreated describe their panes.
The induction is over the evaluations, with the panes emitted so far. -/
theorem Follows.allDescribed {log : List Evaluation} {before after : Option (Int64 × Bool)}
    (hLog : Follows spec window before log after) {earlier : List EmittedPane}
    (hEarlier : AllDescribed spec window earlier)
    (hProgress : log ≠ [] → before.getD (0, false) =
      (Int64.ofNat earlier.length, !earlier.isEmpty))
    (hOnce : ∀ evaluation ∈ log.tail, evaluation.created = false)
    (hProper : ProperFirings spec log)
    (hSides : ∀ pane ∈ earlier, window.endedAt pane.1 = false → ∀ evaluation ∈ log,
      evaluation.emits spec = true → evaluation.pastEnd = false) :
    AllDescribed spec window (earlier ++ log.filterMap (Evaluation.emitted spec)) := by
  induction log generalizing before earlier with
  | nil =>
      rw [List.filterMap_nil, List.append_nil]
      exact hEarlier
  | cons evaluation rest ih =>
      obtain ⟨hWindow, hOpen, _, hState, hDirect, hNext⟩ := hLog
      have hNow : evaluation.state.progress = (Int64.ofNat earlier.length, !earlier.isEmpty) :=
        hState.trans (hProgress (by simp))
      have hLaterOnce : ∀ other ∈ rest.tail, other.created = false := fun other hOther =>
        hOnce other (List.mem_of_mem_tail hOther)
      have hLaterProper : ProperFirings spec rest :=
        ⟨hProper.suppressed.of_cons, hProper.sides.of_cons,
          fun other hOther => hProper.direct other (by simp [hOther])⟩
      -- a state that is not stored any more cannot be evaluated again
      have hStored : ∀ {next : Option (Int64 × Bool)}, Follows spec window next rest after →
          rest ≠ [] → next ≠ none := by
        intro next hFollows hMore hNone
        cases rest with
        | nil => exact hMore rfl
        | cons other others =>
            have hCreated := hOnce other (by simp)
            rw [hFollows.2.2.1, hNone] at hCreated
            cases hCreated
      have hPastEnd : evaluation.pastEnd = window.endedAt evaluation.inputWatermark := by
        rw [Evaluation.pastEnd, hWindow, BeamWindow.endedAt]
      have hLaterSides : ∀ pane : EmittedPane, evaluation.emits spec = true →
          ∀ other ∈ earlier ++ [(evaluation.inputWatermark, pane.2)],
            window.endedAt other.1 = false → ∀ later ∈ rest, later.emits spec = true →
              later.pastEnd = false := by
        intro pane hEmits other hOther hBefore later hLater hLaterEmits
        rcases List.mem_append.mp hOther with hOld | hNew
        · exact hSides other hOld hBefore later (by simp [hLater]) hLaterEmits
        · rw [List.mem_singleton.mp hNew] at hBefore
          exact (List.pairwise_cons.mp hProper.sides).1 later hLater hEmits
            (hPastEnd.trans hBefore) hLaterEmits
      rw [List.filterMap_cons]
      cases hIsDirect : evaluation.direct with
      | true =>
          obtain ⟨hNone, hExpired⟩ := hDirect hIsDirect
          rw [hIsDirect, if_pos rfl, hNone] at hNext
          have hEnd : rest = [] := by
            by_contra hMore
            exact hStored hNext hMore rfl
          have hFirst : earlier = [] := by
            have hFresh := hProgress (by simp)
            rw [hNone] at hFresh
            simpa using (congrArg Prod.snd hFresh).symm
          subst hEnd hFirst
          have hPane : Describes spec window [] (evaluation.inputWatermark,
              paneInfo .onTime 0 true true) := by
            have hPast := hProper.direct evaluation (by simp) hIsDirect
            rw [hPastEnd] at hPast
            refine ⟨rfl, by simp [paneInfo], ?_, rfl, fun _ => hExpired⟩
            rw [hPast]
            rfl
          rw [Evaluation.emitted, Evaluation.pane, if_pos hIsDirect]
          exact AllDescribed.snoc hEarlier hPane
      | false =>
          rw [hIsDirect, if_neg (by decide)] at hNext
          rcases evaluation.step_cases hIsDirect hOpen with
            ⟨_, hPane, hKept⟩ | ⟨hFires, hEmpty, hPane⟩ | ⟨_, hEmits, ⟨pane, hPane, hInfo⟩, hKept⟩
          · rw [Evaluation.emitted, hPane]
            refine ih hNext hEarlier (fun _ => ?_) hLaterOnce hLaterProper
              (fun other hOther hBefore later hLater =>
                hSides other hOther hBefore later (by simp [hLater]))
            rw [hKept, Option.getD_some, hNow]
          · rw [Evaluation.emitted, hPane]
            have hSilent := hNext.emitted_eq_nil fun later hLater =>
              (List.pairwise_cons.mp hProper.suppressed).1 later hLater hFires hEmpty
            rw [Option.map_none]
            dsimp only
            rw [hSilent, List.append_nil]
            exact hEarlier
          · have hIndex : evaluation.state.paneIndex = Int64.ofNat earlier.length :=
              congrArg Prod.fst hNow
            have hFired : evaluation.state.fired = !earlier.isEmpty := congrArg Prod.snd hNow
            have hDescribed := describes_of_progress hEarlier
              (fun other hOther hBefore => hPastEnd.symm.trans
                (hSides other hOther hBefore evaluation (by simp) hEmits))
            rw [← hPastEnd, ← hIndex, ← hFired, ← hWindow, ← hInfo, hWindow] at hDescribed
            have hMore := AllDescribed.snoc hEarlier hDescribed
            rw [Evaluation.emitted, hPane, Option.map_some]
            dsimp only
            rw [← List.singleton_append, ← List.append_assoc]
            refine ih hNext hMore (fun hRest => ?_) hLaterOnce hLaterProper
              (hLaterSides (0, pane.pane) hEmits)
            have hSome := hStored hNext hRest
            rw [hKept] at hSome ⊢
            split at hSome
            · exact absurd rfl hSome
            · next hLive =>
                rw [if_neg hLive, Option.getD_some, hIndex, List.length_append]
                simp [Int64.ofNat_add]

end Sequence

namespace InMemoryGbkState

variable (spec : TriggerSpec) (identity : GroupIdentity)

/-- All evaluations of feeding are at the run's watermark. -/
theorem feedEvaluations_watermark {inputWatermark processingTime : Int64}
    (groups : List GroupInput) (inner : InMemoryGbkState) :
    ∀ evaluation ∈ feedEvaluations spec identity inputWatermark processingTime groups inner,
      evaluation.inputWatermark = inputWatermark := by
  induction groups generalizing inner with
  | nil => simp [feedEvaluations]
  | cons group groups ih =>
      intro evaluation hMem
      rw [feedEvaluations] at hMem
      split at hMem
      · rcases List.mem_cons.mp hMem with rfl | hLater
        · rfl
        · exact ih _ evaluation hLater
      · exact ih _ evaluation hMem

/-- So are all those of a run. -/
theorem runEvaluations_watermark (inner : InMemoryGbkState) (run : GbkRun) :
    ∀ evaluation ∈ runEvaluations spec identity inner run,
      evaluation.inputWatermark = run.inputWatermark := by
  intro evaluation hMem
  rcases List.mem_append.mp hMem with hFed | hDrained
  · exact feedEvaluations_watermark spec identity run.groups inner.beginRun evaluation hFed
  · revert hDrained
    cases (inner.beginRun.applyGroups spec run.inputWatermark run.processingTime
      run.groups).1.states.lookup identity with
    | none => simp [drainEvaluations]
    | some state =>
        intro hDrained
        rw [drainEvaluations] at hDrained
        split at hDrained
        · cases hDrained
        · rw [List.mem_singleton.mp hDrained]

/-- The panes of a history are those of the group's evaluations. -/
theorem emissions_eq (runs : List GbkRun) {inner : InMemoryGbkState} (h : Grouped inner.states)
    (hFits : ∀ run ∈ runs, ∀ group ∈ run.groups, group.window.CoderIdFits)
    (hOrder : ∀ run ∈ runs, ∀ identities, (run.order identities).Perm identities) :
    (emissions spec identity runs inner).map (fun emission => (emission.1, emission.2.pane)) =
      (evaluations spec identity runs inner).filterMap (Evaluation.emitted spec) := by
  induction runs generalizing inner with
  | nil => rfl
  | cons run runs ih =>
      obtain ⟨hGrouped, hPanes⟩ := runEvaluations_panes spec identity h (hFits run (by simp))
        (hOrder run (by simp))
      rw [emissions, evaluations, List.map_append, List.filterMap_append, ih hGrouped
        (fun other hOther => hFits other (by simp [hOther]))
        (fun other hOther => hOrder other (by simp [hOther])), hPanes, List.map_map,
        List.map_filterMap]
      congr 1
      refine List.filterMap_congr fun evaluation hMem => ?_
      rw [Evaluation.emitted, runEvaluations_watermark spec identity inner run evaluation hMem]
      rfl

/-- Rising watermarks give panes at rising watermarks. -/
theorem emissions_sorted (runs : List GbkRun) (inner : InMemoryGbkState)
    (hWatermarks : (runs.map GbkRun.inputWatermark).Pairwise (· ≤ ·)) :
    ((emissions spec identity runs inner).map Prod.fst).Pairwise (· ≤ ·) ∧
      ∀ emission ∈ emissions spec identity runs inner,
        emission.1 ∈ runs.map GbkRun.inputWatermark := by
  induction runs generalizing inner with
  | nil => exact ⟨List.Pairwise.nil, by simp [emissions]⟩
  | cons run runs ih =>
      rw [List.map_cons, List.pairwise_cons] at hWatermarks
      obtain ⟨hSorted, hOrigin⟩ := ih (inner.executeRun spec run).1 hWatermarks.2
      have hHere : ∀ emission ∈ (panesOf identity (inner.executeRun spec run).2).map
          (fun pane => (run.inputWatermark, pane)), emission.1 = run.inputWatermark := by
        intro emission hMem
        obtain ⟨pane, _, rfl⟩ := List.mem_map.mp hMem
        rfl
      rw [emissions]
      dsimp only
      constructor
      · rw [List.map_append, List.pairwise_append]
        refine ⟨?_, hSorted, ?_⟩
        · rw [List.map_map]
          exact List.pairwise_map.mpr (List.pairwise_of_forall fun _ _ => Int64.le_refl _)
        · intro first hFirst second hSecond
          obtain ⟨emission, hMem, rfl⟩ := List.mem_map.mp hFirst
          obtain ⟨later, hLater, rfl⟩ := List.mem_map.mp hSecond
          rw [hHere emission hMem]
          exact hWatermarks.1 _ (hOrigin later hLater)
      · intro emission hMem
        rcases List.mem_append.mp hMem with hNow | hLater
        · rw [hHere emission hNow]
          exact List.mem_cons_self
        · exact List.mem_cons_of_mem _ (hOrigin emission hLater)

/-- The evaluations of a group follow each other through all runs. -/
theorem evaluations_follows (key : PrimitiveValue) {window : BeamWindow}
    (hWindow : window.CoderIdFits) (runs : List GbkRun) {inner : InMemoryGbkState}
    (h : Grouped inner.states)
    (hFits : ∀ run ∈ runs, ∀ group ∈ run.groups, group.window.CoderIdFits)
    (hOrder : ∀ run ∈ runs, ∀ identities, (run.order identities).Perm identities) :
    ∃ after, Follows spec window
      ((inner.states.lookup (groupIdentity key window)).map WindowState.progress)
      (evaluations spec (groupIdentity key window) runs inner) after := by
  induction runs generalizing inner with
  | nil => exact ⟨_, rfl⟩
  | cons run runs ih =>
      obtain ⟨hGrouped, _⟩ := runEvaluations_panes spec (groupIdentity key window) h
        (hFits run (by simp)) (hOrder run (by simp))
      obtain ⟨after, hRest⟩ := ih hGrouped (fun other hOther => hFits other (by simp [hOther]))
        (fun other hOther => hOrder other (by simp [hOther]))
      exact ⟨after, (runEvaluations_follows spec key hWindow h (hFits run (by simp))
        (hOrder run (by simp))).append hRest⟩

end InMemoryGbkState

section History

variable (spec : TriggerSpec) (runs : List GbkRun) (key : PrimitiveValue) (window : BeamWindow)

/-- The panes emitted for a key and window over a whole history. -/
def groupPanes : List EmittedPane :=
  (InMemoryGbkState.emissions spec (groupIdentity key window) runs InMemoryGbkState.empty).map
    fun emission => (emission.1, emission.2.pane)

/-- The evaluations of a key and window over a whole history. -/
def groupEvaluations : List Evaluation :=
  InMemoryGbkState.evaluations spec (groupIdentity key window) runs InMemoryGbkState.empty

/-- Only the first evaluation of the group may create its state. -/
def NeverRecreated : Prop :=
  ∀ evaluation ∈ (groupEvaluations spec runs key window).tail, evaluation.created = false

/-- In every history whose firings are proper the panes of a group form a
proper sequence. -/
theorem groupPanes_wellFormed (hWindow : window.CoderIdFits)
    (hFits : ∀ run ∈ runs, ∀ group ∈ run.groups, group.window.CoderIdFits)
    (hOrder : ∀ run ∈ runs, ∀ identities, (run.order identities).Perm identities)
    (hWatermarks : (runs.map GbkRun.inputWatermark).Pairwise (· ≤ ·))
    (hOnce : NeverRecreated spec runs key window)
    (hProper : ProperFirings spec (groupEvaluations spec runs key window)) :
    WellFormedPanes spec window (groupPanes spec runs key window) := by
  have hEmpty : InMemoryGbkState.Grouped InMemoryGbkState.empty.states := forall_empty _
  obtain ⟨after, hFollows⟩ := InMemoryGbkState.evaluations_follows spec key hWindow runs hEmpty
    hFits hOrder
  have hDescribed : AllDescribed spec window (groupPanes spec runs key window) := by
    rw [groupPanes, InMemoryGbkState.emissions_eq spec _ runs hEmpty hFits hOrder]
    have hNone : AllDescribed spec window [] := fun earlier emitted later hSplit =>
      absurd hSplit (by simp)
    exact hFollows.allDescribed hNone (fun _ => rfl) hOnce hProper fun pane hPane => nomatch hPane
  refine ⟨hDescribed, hDescribed.timingPattern ?_⟩
  rw [groupPanes, List.map_map]
  exact (InMemoryGbkState.emissions_sorted spec _ runs _ hWatermarks).1

end History

/-- After the watermark with the given early trigger; late elements fire at
once. -/
def watermarkSpec (early : Option Trigger) : TriggerSpec where
  trigger := .afterWatermark early none
  accumulation := .discarding
  outputTime := .endOfWindow
  allowedLateness := 1000

/-- One element before the end of its window, one after it and one later. -/
def latenessRuns : List GbkRun :=
  [oneElementRun (.interval 0 100) 50, oneElementRun (.interval 0 100) 200,
    oneElementRun (.interval 0 100) 300]

theorem latenessRuns_inputs : ∀ run ∈ latenessRuns,
    (∀ group ∈ run.groups, group.window.CoderIdFits) ∧
      ∀ identities, (run.order identities).Perm identities := by
  intro run hRun
  simp only [latenessRuns, List.mem_cons, List.not_mem_nil, or_false] at hRun
  rcases hRun with rfl | rfl | rfl
  all_goals
    refine ⟨?_, fun _ => List.Perm.refl _⟩
    intro group hGroup
    rw [List.mem_singleton.mp hGroup]
    trivial

/-- Without early firings the second element makes the on-time pane and the
third one a late pane. -/
theorem groupPanes_wellFormed_latenessRuns :
    WellFormedPanes (watermarkSpec none) (.interval 0 100)
      (groupPanes (watermarkSpec none) latenessRuns (.int64 7) (.interval 0 100)) :=
  groupPanes_wellFormed (watermarkSpec none) latenessRuns (.int64 7) (.interval 0 100) trivial
    (fun run hRun => (latenessRuns_inputs run hRun).1)
    (fun run hRun => (latenessRuns_inputs run hRun).2) (by decide)
    (by unfold NeverRecreated; decide +kernel)
    ⟨by decide +kernel, by decide +kernel, by decide +kernel⟩

/-- An early pane before the window's end makes the first pane after it late. -/
theorem not_groupPanes_wellFormed_early :
    ¬ ∀ (spec : TriggerSpec) (runs : List GbkRun) (key : PrimitiveValue) (window : BeamWindow),
      0 ≤ spec.allowedLateness → window.CoderIdFits →
      (∀ run ∈ runs, ∀ group ∈ run.groups, group.elements ≠ [] ∧ group.window.CoderIdFits) →
      (∀ run ∈ runs, ∀ identities, (run.order identities).Perm identities) →
      (runs.map GbkRun.inputWatermark).Pairwise (· ≤ ·) →
      NeverRecreated spec runs key window →
      WellFormedPanes spec window (groupPanes spec runs key window) := by
  intro h
  have hPanes := h (watermarkSpec (some (.repeating (.elementCount 1)))) latenessRuns (.int64 7)
    (.interval 0 100) (by decide) trivial (by
      intro run hRun group hGroup
      refine ⟨?_, (latenessRuns_inputs run hRun).1 group hGroup⟩
      simp only [latenessRuns, List.mem_cons, List.not_mem_nil, or_false] at hRun
      rcases hRun with rfl | rfl | rfl <;> rw [List.mem_singleton.mp hGroup] <;> simp)
    (fun run hRun => (latenessRuns_inputs run hRun).2) (by decide)
    (by unfold NeverRecreated; decide +kernel)
  have hSplit : groupPanes (watermarkSpec (some (.repeating (.elementCount 1)))) latenessRuns
      (.int64 7) (.interval 0 100) =
      [(50, ⟨true, false, .early, 0, -1⟩)] ++ (200, ⟨false, false, .late, 1, 1⟩) ::
        [(300, ⟨false, false, .late, 2, 2⟩)] := by
    decide +kernel
  have hTiming := (hPanes.described _ _ _ hSplit).timing
  exact absurd hTiming (by decide)

end FlareDB
