import FlareDB.Transforms.GbkMergeFlush
import FlareDB.Transforms.GbkPruning

/-! A GroupByKey run seen from one group. The state backend keeps its groups
apart, so what a run does to a group depends on that group alone: it is fed the
elements of its own inputs and evaluated once. -/
namespace FlareDB

open KeyedStore

/-- The group a pane belongs to. -/
def paneIdentity (pane : WindowedValue) : Option GroupIdentity :=
  match pane.value, pane.windows with
  | .kv key _, [window] => some (groupIdentity key window)
  | _, _ => none

/-- The panes of one group, in the order they were emitted. -/
def panesOf (identity : GroupIdentity) (panes : List WindowedValue) : List WindowedValue :=
  panes.filter fun pane => decide (paneIdentity pane = some identity)

@[simp] theorem panesOf_nil (identity : GroupIdentity) : panesOf identity [] = [] := rfl

@[simp] theorem panesOf_append (identity : GroupIdentity) (first second : List WindowedValue) :
    panesOf identity (first ++ second) = panesOf identity first ++ panesOf identity second :=
  List.filter_append ..

theorem panesOf_eq_self {identity : GroupIdentity} {panes : List WindowedValue}
    (h : ∀ pane ∈ panes, paneIdentity pane = some identity) : panesOf identity panes = panes :=
  List.filter_eq_self.mpr fun pane hPane => decide_eq_true (h pane hPane)

theorem panesOf_eq_nil {identity other : GroupIdentity} {panes : List WindowedValue}
    (hNe : identity ≠ other) (h : ∀ pane ∈ panes, paneIdentity pane = some other) :
    panesOf identity panes = [] := by
  refine List.filter_eq_nil_iff.mpr ?_
  intro pane hPane hSame
  rw [h pane hPane] at hSame
  exact hNe (Option.some.inj (of_decide_eq_true hSame)).symm

@[simp] theorem paneIdentity_groupPane (key : PrimitiveValue) (window : BeamWindow)
    (elements : List PaneElement) (timestampMillis : Int64) (pane : PaneInfo) :
    paneIdentity (groupPane key window elements timestampMillis pane) =
      some (groupIdentity key window) := rfl

/-- What stays stored of an evaluated group. -/
def WindowState.kept (state : WindowState) : Option WindowState :=
  if state.closed then none else some state

/-- The pane of a group emitted without ever being stored. -/
def directPane (spec : TriggerSpec) (group : GroupInput) : WindowedValue :=
  groupPane group.key group.window group.elements
    (outputTimestamp spec.outputTime group.window
      (group.elements.map PaneElement.timestampMillis)) (paneInfo .onTime 0 true true)

/-- A group with new elements, created when it was not stored. -/
def fedState (spec : TriggerSpec) (processingTime : Int64) (group : GroupInput)
    (stored : Option WindowState) : WindowState :=
  InMemoryGbkState.addElements
    (stored.getD (WindowState.new group.key group.window (TriggerRunner.new spec.trigger)))
    group.elements processingTime

section OneGroup

variable (spec : TriggerSpec) (inputWatermark processingTime : Int64)

/-- Feed one group, given whether it is emitted directly. -/
def feedGroup (direct : Bool) (group : GroupInput) (stored : Option WindowState) :
    Option WindowState × List WindowedValue :=
  if direct then (stored, [directPane spec group])
  else
    let fired := fireState (fedState spec processingTime group stored) spec inputWatermark
      processingTime
    (fired.1.kept, fired.2.toList)

/-- Evaluate one stored group, unless this run has done so before. -/
def evaluateGroup : Option WindowState → Option WindowState × List WindowedValue
  | none => (none, [])
  | some state =>
      if state.evaluatedThisRun then (some state, [])
      else
        let fired := fireState state spec inputWatermark processingTime
        (fired.1.kept, fired.2.toList)

/-- A second evaluation in one run does nothing. -/
theorem evaluateGroup_again (stored : Option WindowState) :
    evaluateGroup spec inputWatermark processingTime
        (evaluateGroup spec inputWatermark processingTime stored).1 =
      ((evaluateGroup spec inputWatermark processingTime stored).1, []) := by
  cases stored with
  | none => rfl
  | some state =>
      rw [evaluateGroup]
      by_cases hDone : state.evaluatedThisRun
      · rw [if_pos hDone]
        exact if_pos hDone
      · rw [if_neg hDone]
        dsimp only
        unfold WindowState.kept
        split
        · rfl
        · exact if_pos (InMemoryGbkState.evaluated_fireState spec inputWatermark processingTime state)

end OneGroup

namespace InMemoryGbkState

theorem lookup_settle (states : Store GroupIdentity WindowState) (identity other : GroupIdentity)
    (state : WindowState) :
    (settle states identity state).lookup other =
      if other = identity then state.kept else states.lookup other := by
  by_cases hOther : other = identity
  · subst hOther
    rw [if_pos rfl, settle, WindowState.kept]
    split
    · exact AList.lookup_erase _ _
    · exact AList.lookup_insert _
  · rw [if_neg hOther]
    exact lookup_settle_ne hOther state

variable {spec : TriggerSpec} {inputWatermark processingTime : Int64}

/-- A firing emits a pane of its own group only. -/
theorem paneIdentity_fireState {state : WindowState} {pane : WindowedValue}
    (h : pane ∈ (fireState state spec inputWatermark processingTime).2.toList) :
    paneIdentity pane = some (groupIdentity state.key state.window) := by
  unfold fireState at h
  dsimp only at h
  split at h
  · simp at h
  · split at h
    · simp at h
    · rw [Option.toList_some, List.mem_singleton] at h
      rw [h, paneIdentity_groupPane]

/-- What evaluating some of the groups does to all of them. -/
structure Evaluates (spec : TriggerSpec) (inputWatermark processingTime : Int64)
    (done : List GroupIdentity) (before after : Store GroupIdentity WindowState)
    (panes : List WindowedValue) : Prop where
  grouped : Grouped after
  owned : ∀ pane ∈ panes, ∃ identity, paneIdentity pane = some identity
  lookup : ∀ identity, after.lookup identity =
    if identity ∈ done then
      (evaluateGroup spec inputWatermark processingTime (before.lookup identity)).1
    else before.lookup identity
  panes : ∀ identity, panesOf identity panes =
    if identity ∈ done then
      (evaluateGroup spec inputWatermark processingTime (before.lookup identity)).2
    else []

namespace Evaluates

variable {before middle after : Store GroupIdentity WindowState}
  {done later : List GroupIdentity} {panes rest : List WindowedValue}

theorem refl (h : Grouped before) :
    Evaluates spec inputWatermark processingTime [] before before [] :=
  ⟨h, by simp, fun _ => rfl, fun _ => rfl⟩

/-- Passing a group that needs no evaluation. -/
theorem skip (h : Grouped before) {identity : GroupIdentity}
    (hSkip : evaluateGroup spec inputWatermark processingTime (before.lookup identity) =
      (before.lookup identity, [])) :
    Evaluates spec inputWatermark processingTime [identity] before before [] := by
  refine ⟨h, by simp, fun other => ?_, fun other => ?_⟩
  · split
    · next hMem => rw [List.mem_singleton.mp hMem, hSkip]
    · rfl
  · split
    · next hMem => rw [List.mem_singleton.mp hMem, hSkip, panesOf_nil]
    · rfl

theorem settle (h : Grouped before) {identity : GroupIdentity} {state : WindowState}
    (hLookup : before.lookup identity = some state) (hDue : state.evaluatedThisRun = false) :
    Evaluates spec inputWatermark processingTime [identity] before
      (settle before identity (fireState state spec inputWatermark processingTime).1)
      (fireState state spec inputWatermark processingTime).2.toList := by
  obtain ⟨hIdentity, hFits, _⟩ := h identity state hLookup
  have hHere : evaluateGroup spec inputWatermark processingTime (before.lookup identity) =
      ((fireState state spec inputWatermark processingTime).1.kept,
        (fireState state spec inputWatermark processingTime).2.toList) := by
    rw [hLookup, evaluateGroup, if_neg (by rw [hDue]; decide)]
  have hPanes : ∀ pane ∈ (fireState state spec inputWatermark processingTime).2.toList,
      paneIdentity pane = some identity := fun pane hPane =>
    (paneIdentity_fireState hPane).trans (by rw [hIdentity])
  refine ⟨Grouped.settle h hIdentity hFits, fun pane hPane => ⟨identity, hPanes pane hPane⟩,
    fun other => ?_, fun other => ?_⟩
  · rw [lookup_settle]
    simp only [List.mem_singleton]
    split
    · next hSame => rw [hSame, hHere]
    · rfl
  · simp only [List.mem_singleton]
    split
    · next hSame => rw [hSame, hHere, panesOf_eq_self hPanes]
    · next hNe => exact panesOf_eq_nil hNe hPanes

/-- Evaluations follow one another: a group passed twice is evaluated once. -/
theorem trans (hFirst : Evaluates spec inputWatermark processingTime done before middle panes)
    (hSecond : Evaluates spec inputWatermark processingTime later middle after rest) :
    Evaluates spec inputWatermark processingTime (done ++ later) before after (panes ++ rest) := by
  refine ⟨hSecond.grouped, List.forall_mem_append.mpr ⟨hFirst.owned, hSecond.owned⟩,
    fun identity => ?_, fun identity => ?_⟩
  · rw [hSecond.lookup, hFirst.lookup]
    by_cases hDone : identity ∈ done
    · simp only [List.mem_append, hDone, true_or, if_true]
      rw [evaluateGroup_again]
      exact ite_self _
    · simp only [List.mem_append, hDone, false_or, if_false]
  · rw [panesOf_append, hFirst.panes, hSecond.panes, hFirst.lookup]
    by_cases hDone : identity ∈ done
    · simp only [List.mem_append, hDone, true_or, if_true]
      rw [evaluateGroup_again, ite_self, List.append_nil]
    · simp only [List.mem_append, hDone, false_or, if_false, List.nil_append]

end Evaluates

section Drain

variable (spec inputWatermark processingTime)

/-- A scan evaluates the groups it passes, and stops early only with a full
batch. -/
theorem scanReady_evaluates (limit : Nat) (scan : List GroupIdentity)
    {states : Store GroupIdentity WindowState} (h : Grouped states)
    (output : List WindowedValue) :
    ∃ done panes,
      scan = done ++ (scanReady spec inputWatermark processingTime limit scan states output).1 ∧
      (scanReady spec inputWatermark processingTime limit scan states output).2.2 =
        output ++ panes ∧
      Evaluates spec inputWatermark processingTime done states
        (scanReady spec inputWatermark processingTime limit scan states output).2.1 panes ∧
      ((scanReady spec inputWatermark processingTime limit scan states output).1 ≠ [] →
        limit ≤ (scanReady spec inputWatermark processingTime limit scan states output).2.2.length)
      := by
  induction scan generalizing states output with
  | nil =>
      exact ⟨[], [], rfl, (List.append_nil _).symm, .refl h, fun hNe => absurd rfl hNe⟩
  | cons identity scan ih =>
      rw [scanReady]
      by_cases hFull : limit ≤ output.length
      · rw [if_pos hFull]
        exact ⟨[], [], rfl, (List.append_nil _).symm, .refl h, fun _ => hFull⟩
      rw [if_neg hFull]
      cases hLookup : states.lookup identity with
      | none =>
          obtain ⟨done, panes, hScan, hOutput, hDone, hStop⟩ := ih h output
          have hSkip : Evaluates spec inputWatermark processingTime [identity] states states [] :=
            .skip h (by rw [hLookup]; rfl)
          exact ⟨identity :: done, panes, congrArg _ hScan, hOutput, hSkip.trans hDone, hStop⟩
      | some state =>
          dsimp only
          cases hEvaluated : state.evaluatedThisRun with
          | true =>
              rw [if_pos rfl]
              obtain ⟨done, panes, hScan, hOutput, hDone, hStop⟩ := ih h output
              have hSkip : Evaluates spec inputWatermark processingTime [identity] states
                  states [] :=
                .skip h (by rw [hLookup, evaluateGroup, if_pos hEvaluated])
              exact ⟨identity :: done, panes, congrArg _ hScan, hOutput, hSkip.trans hDone, hStop⟩
          | false =>
              rw [if_neg (by decide)]
              have hOne : Evaluates spec inputWatermark processingTime [identity] states _ _ :=
                .settle h hLookup hEvaluated
              obtain ⟨done, panes, hScan, hOutput, hDone, hStop⟩ := ih hOne.grouped
                (output ++ (fireState state spec inputWatermark processingTime).2.toList)
              rw [List.append_assoc] at hOutput
              exact ⟨identity :: done, _, congrArg _ hScan, hOutput, hOne.trans hDone, hStop⟩

/-- One round evaluates the groups up to where the next one resumes; a round
without a pane has passed them all. -/
theorem takeReady_evaluates {inner : InMemoryGbkState} (h : Grouped inner.states)
    (order : List GroupIdentity → List GroupIdentity) :
    ∃ done, inner.readyScan.getD (order inner.states.keys) = done ++
        (inner.takeReady order spec inputWatermark processingTime outputBatchSize).1.readyScan.getD
          [] ∧
      Evaluates spec inputWatermark processingTime done inner.states
        (inner.takeReady order spec inputWatermark processingTime outputBatchSize).1.states
        (inner.takeReady order spec inputWatermark processingTime outputBatchSize).2 ∧
      ((inner.takeReady order spec inputWatermark processingTime outputBatchSize).2 = [] →
        (inner.takeReady order spec inputWatermark processingTime
          outputBatchSize).1.readyScan = none) := by
  obtain ⟨done, panes, hScan, hOutput, hDone, hStop⟩ := scanReady_evaluates spec inputWatermark
    processingTime outputBatchSize
    (inner.readyScan.getD (order inner.states.keys)) h []
  rw [takeReady, if_neg (by decide)]
  dsimp only
  generalize scanReady spec inputWatermark processingTime outputBatchSize
    (inner.readyScan.getD (order inner.states.keys)) inner.states [] = result at *
  obtain ⟨rest, states, output⟩ := result
  dsimp only at *
  rw [List.nil_append] at hOutput
  subst hOutput
  refine ⟨done, ?_, hDone, fun hNone => ?_⟩
  · rw [hScan]
    cases rest <;> rfl
  · cases rest with
    | nil => rfl
    | cons identity rest =>
        have hBatch := hStop (by simp)
        rw [hNone] at hBatch
        exact absurd hBatch (by decide)

/-- The groups passed by some rounds of the drain loop. -/
def drainedGroups (spec : TriggerSpec) (order : List GroupIdentity → List GroupIdentity)
    (inputWatermark processingTime : Int64) : Nat → InMemoryGbkState → List GroupIdentity
  | 0, _ => []
  | fuel + 1, inner =>
      let scan := inner.readyScan.getD (order inner.states.keys)
      let (next, ready) := inner.takeReady order spec inputWatermark processingTime outputBatchSize
      let passed := scan.take (scan.length - (next.readyScan.getD []).length)
      if ready.isEmpty then passed
      else passed ++ drainedGroups spec order inputWatermark processingTime fuel next

/-- What one round of the drain loop passes and leaves. -/
theorem drainedGroups_succ {inner : InMemoryGbkState} (h : Grouped inner.states)
    (order : List GroupIdentity → List GroupIdentity) (fuel : Nat) :
    ∃ done next ready,
      inner.takeReady order spec inputWatermark processingTime outputBatchSize = (next, ready) ∧
      inner.readyScan.getD (order inner.states.keys) = done ++ next.readyScan.getD [] ∧
      Evaluates spec inputWatermark processingTime done inner.states next.states ready ∧
      (ready = [] → next.readyScan = none) ∧
      drainedGroups spec order inputWatermark processingTime (fuel + 1) inner =
        if ready.isEmpty then done
        else done ++ drainedGroups spec order inputWatermark processingTime fuel next := by
  obtain ⟨done, hScan, hDone, hStop⟩ := takeReady_evaluates spec inputWatermark processingTime h order
  rw [drainedGroups]
  cases hTaken : inner.takeReady order spec inputWatermark processingTime outputBatchSize with
  | mk next ready =>
      rw [hTaken] at hScan hDone hStop
      refine ⟨done, next, ready, rfl, hScan, hDone, hStop, ?_⟩
      dsimp only at hScan ⊢
      rw [hScan, List.length_append, Nat.add_sub_cancel, List.take_left' rfl]

theorem drainReady_evaluates (order : List GroupIdentity → List GroupIdentity) (fuel : Nat)
    {inner : InMemoryGbkState} (h : Grouped inner.states) :
    Evaluates spec inputWatermark processingTime
      (drainedGroups spec order inputWatermark processingTime fuel inner) inner.states
      (drainReady spec order inputWatermark processingTime fuel inner).1.states
      (drainReady spec order inputWatermark processingTime fuel inner).2 := by
  induction fuel generalizing inner with
  | zero => exact .refl h
  | succ fuel ih =>
      obtain ⟨done, next, ready, hTaken, _, hDone, _, hPassed⟩ := drainedGroups_succ spec
        inputWatermark processingTime h order fuel
      rw [hPassed, drainReady]
      simp only [hTaken]
      split
      · next hNone =>
          rw [List.isEmpty_iff.mp hNone] at hDone
          exact hDone
      · exact hDone.trans (ih hDone.grouped)

/-- Enough rounds pass every group that is still to be evaluated. -/
theorem drainedGroups_complete {order : List GroupIdentity → List GroupIdentity}
    (hOrder : ∀ identities, (order identities).Perm identities) (fuel : Nat)
    {inner : InMemoryGbkState} (h : Grouped inner.states)
    (hScan : ∀ scan, inner.readyScan = some scan → ∀ identity, identity ∈ scan ∨
      evaluateGroup spec inputWatermark processingTime (inner.states.lookup identity) =
        (inner.states.lookup identity, []))
    (hFuel : unevaluated inner.states < fuel) (identity : GroupIdentity) :
    identity ∈ drainedGroups spec order inputWatermark processingTime fuel inner ∨
      evaluateGroup spec inputWatermark processingTime (inner.states.lookup identity) =
        (inner.states.lookup identity, []) := by
  induction fuel generalizing inner with
  | zero => omega
  | succ fuel ih =>
      obtain ⟨done, next, ready, hTaken, hPending, hDone, hStop, hPassed⟩ :=
        drainedGroups_succ spec inputWatermark processingTime h order fuel
      have hAll : ∀ identity, identity ∈ done ++ next.readyScan.getD [] ∨
          evaluateGroup spec inputWatermark processingTime (inner.states.lookup identity) =
            (inner.states.lookup identity, []) := by
        intro identity
        rw [← hPending]
        cases hReady : inner.readyScan with
        | some scan => exact hScan scan hReady identity
        | none =>
            cases hLookup : inner.states.lookup identity with
            | none => exact .inr rfl
            | some state =>
                refine .inl ((hOrder _).mem_iff.mpr ?_)
                exact mem_keys_iff.mpr ⟨state, hLookup⟩
      rw [hPassed]
      split
      · next hNone =>
          have hEnd := hAll identity
          rw [hStop (List.isEmpty_iff.mp hNone), Option.getD_none, List.append_nil] at hEnd
          exact hEnd
      · next hSome =>
          by_cases hMem : identity ∈ done
          · exact .inl (List.mem_append_left _ hMem)
          have hSame : next.states.lookup identity = inner.states.lookup identity := by
            rw [hDone.lookup, if_neg hMem]
          have hFewer : unevaluated next.states < fuel := by
            have hUsed := unevaluated_takeReady spec inputWatermark processingTime order inner
              outputBatchSize
            rw [hTaken] at hUsed
            have hPos : 0 < ready.length := List.length_pos_iff.mpr (by simpa using hSome)
            dsimp only at hUsed
            omega
          have hRest := ih hDone.grouped ?_ hFewer
          · rw [hSame] at hRest
            exact hRest.imp_left (List.mem_append_right _)
          · intro scan hNext other
            rw [hDone.lookup]
            by_cases hOther : other ∈ done
            · rw [if_pos hOther, evaluateGroup_again]
              exact .inr rfl
            · rw [if_neg hOther]
              refine (hAll other).imp_left fun hIn => ?_
              rw [hNext, Option.getD_some] at hIn
              exact (List.mem_append.mp hIn).resolve_left hOther

/-- A run is drained by a fresh scan: feeding it starts none. -/
theorem readyScan_fed (inner : InMemoryGbkState) (run : GbkRun) :
    (inner.beginRun.applyGroups spec run.inputWatermark run.processingTime
      run.groups).1.readyScan = none := by
  rw [applyGroups_readyScan]
  rfl

/-- The drain loop of a run evaluates every stored group exactly once. -/
theorem drainReady_group {order : List GroupIdentity → List GroupIdentity}
    (hOrder : ∀ identities, (order identities).Perm identities) {inner : InMemoryGbkState}
    (h : Grouped inner.states) (hScan : inner.readyScan = none) (identity : GroupIdentity) :
    let drained := drainReady spec order inputWatermark processingTime
      (inner.states.entries.length + 1) inner
    Grouped drained.1.states ∧
      drained.1.states.lookup identity =
        (evaluateGroup spec inputWatermark processingTime (inner.states.lookup identity)).1 ∧
      panesOf identity drained.2 =
        (evaluateGroup spec inputWatermark processingTime (inner.states.lookup identity)).2 := by
  have hDone := drainReady_evaluates spec inputWatermark processingTime order (inner.states.entries.length + 1) h
  have hComplete := drainedGroups_complete spec inputWatermark processingTime hOrder (inner.states.entries.length + 1) h
    (by rw [hScan]; exact fun _ hNone => nomatch hNone)
    (Nat.lt_succ_of_le (unevaluated_le_length inner.states)) identity
  refine ⟨hDone.grouped, ?_, ?_⟩
  · rw [hDone.lookup]
    split
    · rfl
    · next hNot => rw [hComplete.resolve_left hNot]
  · rw [hDone.panes]
    split
    · rfl
    · next hNot => rw [hComplete.resolve_left hNot]

end Drain

/-- What feeding a group does to every group. -/
theorem applyGroup_group (spec : TriggerSpec) (inputWatermark processingTime : Int64)
    {inner : InMemoryGbkState} (h : Grouped inner.states) {group : GroupInput} (hFits : group.window.CoderIdFits) (identity : GroupIdentity) :
    let fed := inner.applyGroup group.key group.window group.elements spec inputWatermark
      processingTime
    let direct := inner.emitsDirectly group.window spec inputWatermark
    Grouped fed.1.states ∧
      fed.1.states.lookup identity =
        (if group.identity = identity then (feedGroup spec inputWatermark processingTime direct
            group (inner.states.lookup identity)).1
          else inner.states.lookup identity) ∧
      panesOf identity fed.2.toList =
        if group.identity = identity then (feedGroup spec inputWatermark processingTime direct
            group (inner.states.lookup identity)).2
          else [] := by
  dsimp only
  unfold applyGroup feedGroup
  split
  · refine ⟨h, ?_, ?_⟩
    · split <;> rfl
    · have hPane : ∀ pane ∈ [directPane spec group], paneIdentity pane = some group.identity := by
        intro pane hMem
        rw [List.mem_singleton.mp hMem]
        rfl
      split
      · next hSame => exact panesOf_eq_self (hSame ▸ hPane)
      · next hNe => exact panesOf_eq_nil (Ne.symm hNe) hPane
  · obtain ⟨hKey, hWindow, _⟩ := groupState_spec h hFits (TriggerRunner.new spec.trigger)
    have hFed : groupIdentity (fedState spec processingTime group
          (inner.states.lookup group.identity)).key (fedState spec processingTime group
          (inner.states.lookup group.identity)).window = group.identity := by
      show groupIdentity ((inner.states.lookup (groupIdentity group.key group.window)).getD
        (WindowState.new group.key group.window (TriggerRunner.new spec.trigger))).key
        ((inner.states.lookup (groupIdentity group.key group.window)).getD
        (WindowState.new group.key group.window (TriggerRunner.new spec.trigger))).window =
        group.identity
      rw [hKey, hWindow]
      rfl
    have hPanes : ∀ pane ∈ (fireState (fedState spec processingTime group
        (inner.states.lookup group.identity)) spec inputWatermark processingTime).2.toList,
        paneIdentity pane = some group.identity := fun pane hPane =>
      (paneIdentity_fireState hPane).trans (by rw [hFed])
    refine ⟨?_, ?_, ?_⟩
    · refine Grouped.settle h hFed.symm ?_
      show ((inner.states.lookup (groupIdentity group.key group.window)).getD
        (WindowState.new group.key group.window (TriggerRunner.new spec.trigger))).window.CoderIdFits
      rw [hWindow]
      exact hFits
    · dsimp only
      rw [lookup_settle]
      by_cases hSame : group.identity = identity
      · subst hSame
        rw [if_pos rfl]
        exact if_pos rfl
      · rw [if_neg hSame]
        exact if_neg (Ne.symm hSame)
    · by_cases hSame : group.identity = identity
      · subst hSame
        rw [if_pos rfl]
        exact panesOf_eq_self hPanes
      · rw [if_neg hSame]
        exact panesOf_eq_nil (Ne.symm hSame) hPanes

end InMemoryGbkState

section WholeRun

variable (spec : TriggerSpec) (inputWatermark processingTime : Int64)

/-- Past the end of its window, a group emitted directly is emitted as if it had
been stored and closed. -/
theorem feedGroup_direct {group : GroupInput} (hElements : group.elements ≠ [])
    (hEnd : group.window.maxTimestampMillis < inputWatermark)
    (hExpired : windowExpired spec group.window inputWatermark = true) :
    feedGroup spec inputWatermark processingTime true group none =
      feedGroup spec inputWatermark processingTime false group none := by
  have hFed : ¬ (fedState spec processingTime group none).elements.isEmpty = true := by
    simpa [fedState, InMemoryGbkState.addElements, WindowState.new] using hElements
  have hContext : triggerContext spec (fedState spec processingTime group none).window
      inputWatermark processingTime = ⟨true, true, processingTime⟩ := by
    simp [triggerContext, fedState, InMemoryGbkState.addElements, WindowState.new, hEnd, hExpired]
  have hOpen : (fedState spec processingTime group none).closed = false := rfl
  simp only [feedGroup, if_true, fireState, hContext, hOpen, hFed, Bool.not_false, Bool.and_true,
    Bool.or_true, Bool.not_true, WindowState.kept, Bool.false_eq_true, if_false]
  simp [directPane, fedState, InMemoryGbkState.addElements, WindowState.new, paneTiming]

/-- Feed one group the inputs of a run that are its own. -/
def feedGroups : List GroupInput → Option WindowState → Option WindowState × List WindowedValue
  | [], stored => (stored, [])
  | group :: groups, stored =>
      let fed := feedGroup spec inputWatermark processingTime false group stored
      let rest := feedGroups groups fed.1
      (rest.1, fed.2 ++ rest.2)

end WholeRun

/-- The inputs of a run for one group. -/
def GbkRun.groupsOf (run : GbkRun) (identity : GroupIdentity) : List GroupInput :=
  run.groups.filter fun group => decide (group.identity = identity)

/-- What a run does to one group. -/
def groupRun (spec : TriggerSpec) (run : GbkRun) (identity : GroupIdentity)
    (stored : Option WindowState) : Option WindowState × List WindowedValue :=
  let fed := feedGroups spec run.inputWatermark run.processingTime (run.groupsOf identity)
    (stored.map WindowState.begun)
  let evaluated := evaluateGroup spec run.inputWatermark run.processingTime fed.1
  (evaluated.1, fed.2 ++ evaluated.2)

theorem evaluateGroup_begun (spec : TriggerSpec) (inputWatermark processingTime : Int64)
    (state : WindowState) :
    evaluateGroup spec inputWatermark processingTime (some state.begun) =
      ((fireState state.begun spec inputWatermark processingTime).1.kept,
        (fireState state.begun spec inputWatermark processingTime).2.toList) := by
  rw [evaluateGroup, if_neg (by simp [WindowState.begun])]

/-- A run without inputs for a group evaluates it. -/
theorem groupRun_idle {spec : TriggerSpec} {run : GbkRun} {identity : GroupIdentity}
    (h : run.groupsOf identity = []) (stored : Option WindowState) :
    groupRun spec run identity stored =
      evaluateGroup spec run.inputWatermark run.processingTime
        (stored.map WindowState.begun) := by
  rw [groupRun, h]
  rfl

/-- A group that was fed needs no evaluation. -/
theorem evaluateGroup_fed (spec : TriggerSpec) (inputWatermark processingTime : Int64)
    (group : GroupInput) (stored : Option WindowState) :
    evaluateGroup spec inputWatermark processingTime
        (feedGroup spec inputWatermark processingTime false group stored).1 =
      ((feedGroup spec inputWatermark processingTime false group stored).1, []) := by
  rw [feedGroup, if_neg (by decide)]
  dsimp only
  unfold WindowState.kept
  split
  · rfl
  · exact if_pos (InMemoryGbkState.evaluated_fireState spec _ _ _)

/-- A run with one input for a group feeds it and is done. -/
theorem groupRun_fed {spec : TriggerSpec} {run : GbkRun} {identity : GroupIdentity}
    {group : GroupInput} (h : run.groupsOf identity = [group]) (stored : Option WindowState) :
    groupRun spec run identity stored =
      feedGroup spec run.inputWatermark run.processingTime false group
        (stored.map WindowState.begun) := by
  rw [groupRun, h]
  simp only [feedGroups, evaluateGroup_fed, List.append_nil]

/-- A run as the decoder and the windowing strategy hand it over: no input is
without elements, and a binary key can be made of every window. -/
structure GbkRun.Decoded (run : GbkRun) : Prop where
  fits : ∀ group ∈ run.groups, group.window.CoderIdFits
  elements : ∀ group ∈ run.groups, group.elements ≠ []
  order : ∀ identities, (run.order identities).Perm identities

namespace InMemoryGbkState

variable {spec : TriggerSpec} (hLateness : 0 ≤ spec.allowedLateness)

theorem expired_of_emitsDirectly {inner : InMemoryGbkState} {window : BeamWindow}
    {inputWatermark : Int64} (h : inner.emitsDirectly window spec inputWatermark = true) :
    windowExpired spec window inputWatermark = true := by
  simp only [emitsDirectly, Bool.and_eq_true] at h
  exact h.1.1.2

include hLateness in
theorem emitsDirectly_pastEnd {inner : InMemoryGbkState} {window : BeamWindow}
    {inputWatermark : Int64} (h : inner.emitsDirectly window spec inputWatermark = true) :
    window.maxTimestampMillis < inputWatermark ∧
      windowExpired spec window inputWatermark = true := by
  have hExpired := expired_of_emitsDirectly h
  have hNonneg : 0 ≤ spec.allowedLateness.toInt := Int64.le_iff_toInt_le.mp hLateness
  have hAfter := (windowExpired_iff hLateness window inputWatermark).mp hExpired
  exact ⟨Int64.lt_iff_toInt_lt.mpr (by omega), hExpired⟩

theorem lookup_of_emitsDirectly {inner : InMemoryGbkState} {window : BeamWindow}
    {inputWatermark : Int64} (h : inner.emitsDirectly window spec inputWatermark = true)
    (identity : GroupIdentity) : inner.states.lookup identity = none := by
  simp only [emitsDirectly, Bool.and_eq_true, List.isEmpty_iff] at h
  have hEmpty : inner.states = ∅ := AList.ext h.1.1.1
  rw [hEmpty]
  rfl

include hLateness in
/-- Whether a group is emitted directly makes no difference to it. -/
theorem feedGroup_emitsDirectly {inner : InMemoryGbkState} (inputWatermark processingTime : Int64)
    {group : GroupInput} (hElements : group.elements ≠ []) (identity : GroupIdentity) :
    feedGroup spec inputWatermark processingTime
        (inner.emitsDirectly group.window spec inputWatermark) group
        (inner.states.lookup identity) =
      feedGroup spec inputWatermark processingTime false group
        (inner.states.lookup identity) := by
  cases hDirect : inner.emitsDirectly group.window spec inputWatermark with
  | false => rfl
  | true =>
      obtain ⟨hEnd, hExpired⟩ := emitsDirectly_pastEnd hLateness hDirect
      rw [lookup_of_emitsDirectly hDirect]
      exact feedGroup_direct spec inputWatermark processingTime hElements hEnd hExpired

include hLateness in
/-- Feeding a run's inputs feeds each group its own. -/
theorem applyGroups_group (inputWatermark processingTime : Int64) (groups : List GroupInput)
    {inner : InMemoryGbkState} (h : Grouped inner.states)
    (hFits : ∀ group ∈ groups, group.window.CoderIdFits)
    (hElements : ∀ group ∈ groups, group.elements ≠ []) (identity : GroupIdentity) :
    let fed := inner.applyGroups spec inputWatermark processingTime groups
    let alone := feedGroups spec inputWatermark processingTime
      (groups.filter fun group => decide (group.identity = identity))
      (inner.states.lookup identity)
    Grouped fed.1.states ∧ fed.1.states.lookup identity = alone.1 ∧
      panesOf identity fed.2 = alone.2 := by
  induction groups generalizing inner with
  | nil => exact ⟨h, rfl, rfl⟩
  | cons group groups ih =>
      obtain ⟨hGrouped, hLookup, hPanes⟩ := applyGroup_group spec inputWatermark processingTime h
        (hFits group (by simp)) identity
      rw [feedGroup_emitsDirectly hLateness inputWatermark processingTime
        (hElements group (by simp))] at hLookup hPanes
      obtain ⟨hRest, hRestLookup, hRestPanes⟩ := ih hGrouped
        (fun other hOther => hFits other (by simp [hOther]))
        (fun other hOther => hElements other (by simp [hOther]))
      refine ⟨hRest, hRestLookup.trans ?_, ?_⟩
      · rw [hLookup]
        by_cases hOwn : group.identity = identity
        · rw [if_pos hOwn, List.filter_cons_of_pos (by simpa using hOwn)]
          rfl
        · rw [if_neg hOwn, List.filter_cons_of_neg (by simpa using hOwn)]
      · rw [applyGroups]
        dsimp only
        rw [panesOf_append, hPanes, hRestPanes, hLookup]
        by_cases hOwn : group.identity = identity
        · rw [if_pos hOwn, if_pos hOwn, List.filter_cons_of_pos (by simpa using hOwn)]
          rfl
        · rw [if_neg hOwn, if_neg hOwn, List.filter_cons_of_neg (by simpa using hOwn)]
          rfl

include hLateness in
/-- A whole run acts on each group by itself. -/
theorem executeRun_group {run : GbkRun} (hRun : run.Decoded) {inner : InMemoryGbkState}
    (h : Grouped inner.states) (identity : GroupIdentity) :
    Grouped (inner.executeRun spec run).1.states ∧
      (inner.executeRun spec run).1.states.lookup identity =
        (groupRun spec run identity (inner.states.lookup identity)).1 ∧
      panesOf identity (inner.executeRun spec run).2 =
        (groupRun spec run identity (inner.states.lookup identity)).2 := by
  have hBegin : Grouped inner.beginRun.states := h.begin
  obtain ⟨hFed, hFedLookup, hFedPanes⟩ := applyGroups_group hLateness run.inputWatermark
    run.processingTime run.groups hBegin hRun.fits hRun.elements identity
  obtain ⟨hDrained, hLookup, hPanes⟩ := drainReady_group spec run.inputWatermark
    run.processingTime hRun.order hFed (readyScan_fed spec inner run) identity
  have hBegun : inner.beginRun.states.lookup identity =
      (inner.states.lookup identity).map WindowState.begun := lookup_mapValues _ _ _
  rw [hBegun] at hFedLookup hFedPanes
  rw [hFedLookup] at hLookup hPanes
  refine ⟨hDrained, hLookup, ?_⟩
  rw [executeRun]
  dsimp only
  rw [panesOf_append, hFedPanes, hPanes]
  rfl

end InMemoryGbkState
end FlareDB
