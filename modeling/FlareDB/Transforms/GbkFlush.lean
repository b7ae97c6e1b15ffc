import FlareDB.Transforms.GbkConservation

/-! When a GroupByKey is left without state. A group whose window expires below
the final watermark is closed by the run that reaches it; any other group stays
stored for good. -/
namespace FlareDB

open KeyedStore

/-- The watermark of a finished bounded source passes the window's expiry. -/
def TriggerSpec.Completes (spec : TriggerSpec) (window : BeamWindow) : Prop :=
  spec.earliestCompletion window.maxTimestampMillis < beamMaxTimestampMillis

instance (spec : TriggerSpec) (window : BeamWindow) : Decidable (spec.Completes window) :=
  inferInstanceAs (Decidable (_ < _))

namespace InMemoryGbkState

theorem lookup_settle_ne {states : Store GroupIdentity WindowState}
    {identity other : GroupIdentity} (h : other ≠ identity) (state : WindowState) :
    (settle states identity state).lookup other = states.lookup other := by
  unfold settle
  split
  · exact AList.lookup_erase_ne h
  · exact AList.lookup_insert_ne h

theorem lookup_settle_open (states : Store GroupIdentity WindowState) (identity : GroupIdentity)
    {state : WindowState} (h : state.closed = false) :
    (settle states identity state).lookup identity = some state := by
  rw [settle, h, if_neg (by decide), AList.lookup_insert]

/-- A group of the given window is stored. -/
def Stored (states : Store GroupIdentity WindowState) (identity : GroupIdentity)
    (window : BeamWindow) : Prop :=
  ∃ state, states.lookup identity = some state ∧ state.window = window

section Stored

variable {spec : TriggerSpec} {window : BeamWindow} {identity : GroupIdentity}
  {inputWatermark : Int64} (hLive : windowExpired spec window inputWatermark = false)
  (processingTime : Int64)

include hLive in
/-- Evaluating a group whose window has not expired keeps it stored. -/
theorem stored_settle (states : Store GroupIdentity WindowState) {state : WindowState}
    (hOpen : state.closed = false) (hWindow : state.window = window) :
    Stored (settle states identity (fireState state spec inputWatermark processingTime).1)
      identity window := by
  have hClosed := fireState_closed spec inputWatermark processingTime hOpen
  rw [hWindow, hLive] at hClosed
  refine ⟨_, lookup_settle_open states identity hClosed, ?_⟩
  rw [(fireState_key state spec inputWatermark processingTime).2.1, hWindow]

include hLive in
/-- So does evaluating any group at all. -/
theorem Stored.settle {states : Store GroupIdentity WindowState}
    (h : Stored states identity window) {other : GroupIdentity} {state : WindowState}
    (hOpen : state.closed = false) (hSame : other = identity → state.window = window) :
    Stored (settle states other (fireState state spec inputWatermark processingTime).1)
      identity window := by
  by_cases hOther : other = identity
  · subst hOther
    exact stored_settle hLive processingTime states hOpen (hSame rfl)
  · obtain ⟨found, hLookup, hWindow⟩ := h
    exact ⟨found, by rw [lookup_settle_ne (Ne.symm hOther), hLookup], hWindow⟩

/-- Groups fed so far whose window is the given one are all stored. -/
structure Lingering (window : BeamWindow) (fed : List GroupInput)
    (states : Store GroupIdentity WindowState) (_emitted : List WindowedValue) : Prop where
  grouped : Grouped states
  stored : ∀ group ∈ fed, group.window = window →
    Stored states (groupIdentity group.key group.window) window

end Stored

/-- No run that leaves a window unexpired drops a group of it. -/
theorem lingering_preserved {spec : TriggerSpec} (hDiscarding : spec.accumulation = .discarding)
    {run : GbkRun} (hFits : ∀ group ∈ run.groups, group.window.CoderIdFits) {window : BeamWindow}
    (hLive : windowExpired spec window run.inputWatermark = false) :
    Preserved (Lingering window) spec run where
  begin fed states emitted h := by
    refine ⟨h.grouped.begin, ?_⟩
    intro group hGroup hWindow
    obtain ⟨state, hLookup, hState⟩ := h.stored group hGroup hWindow
    exact ⟨state.begun, by rw [lookup_mapValues, hLookup]; rfl, hState⟩
  feed fed inner emitted h group hGroup := by
    obtain ⟨hKey, hWindow, hOpen, _⟩ := groupState_spec h.grouped (hFits group hGroup)
      (TriggerRunner.new spec.trigger)
    have hNext := (applyGroup_conserves hDiscarding run.inputWatermark run.processingTime
      h.grouped (hFits group hGroup)).1
    refine ⟨hNext, ?_⟩
    intro other hOther hOtherWindow
    unfold applyGroup
    split
    · next hDirect =>
        rcases List.mem_append.mp hOther with hBefore | hNew
        · exact h.stored other hBefore hOtherWindow
        · rw [List.mem_singleton.mp hNew] at hOtherWindow
          rw [emitsDirectly, hOtherWindow, hLive] at hDirect
          simp at hDirect
    · rcases List.mem_append.mp hOther with hBefore | hNew
      · refine (h.stored other hBefore hOtherWindow).settle hLive run.processingTime hOpen ?_
        intro hSame
        exact hWindow.trans ((groupIdentity_injective (hFits group hGroup) (by
          obtain ⟨state, hLookup, hState⟩ := h.stored other hBefore hOtherWindow
          rw [hOtherWindow, ← hState]
          exact (h.grouped _ state hLookup).2.1) hSame).2.trans hOtherWindow)
      · rw [List.mem_singleton.mp hNew] at hOtherWindow ⊢
        exact stored_settle hLive run.processingTime inner.states hOpen
          (hWindow.trans hOtherWindow)
  evaluate fed states emitted identity state h hLookup := by
    obtain ⟨hIdentity, hFits, hOpen⟩ := h.grouped identity state hLookup
    refine ⟨h.grouped.settle hIdentity hFits, ?_⟩
    intro group hGroup hWindow
    have hStored := h.stored group hGroup hWindow
    refine hStored.settle hLive run.processingTime hOpen ?_
    rintro rfl
    obtain ⟨found, hFound, hState⟩ := hStored
    rw [hLookup] at hFound
    cases hFound
    exact hState

/-- Stored groups belong to windows that expire below the final watermark. -/
def Completing (spec : TriggerSpec) (_fed : List GroupInput)
    (states : Store GroupIdentity WindowState) (_emitted : List WindowedValue) : Prop :=
  Forall (fun _ state => spec.Completes state.window ∧ state.closed = false) states

theorem Completing.settle {spec : TriggerSpec} {fed : List GroupInput}
    {states : Store GroupIdentity WindowState} {emitted next : List WindowedValue}
    (h : Completing spec fed states emitted) {state : WindowState}
    (hState : spec.Completes state.window) (identity : GroupIdentity)
    (inputWatermark processingTime : Int64) (fed' : List GroupInput) :
    Completing spec fed' (settle states identity
      (fireState state spec inputWatermark processingTime).1) next := by
  unfold InMemoryGbkState.settle
  split
  · exact Forall.erase h identity
  · next hOpen =>
      refine Forall.insert h ⟨?_, by simpa using hOpen⟩
      rw [(fireState_key state spec inputWatermark processingTime).2.1]
      exact hState

theorem completing_preserved {spec : TriggerSpec} {run : GbkRun}
    (hComplete : ∀ group ∈ run.groups, spec.Completes group.window) :
    Preserved (Completing spec) spec run where
  begin fed states emitted h := Forall.mapValues h fun _ _ hState => hState
  feed fed inner emitted h group hGroup := by
    unfold applyGroup
    split
    · exact h
    · refine h.settle ?_ _ _ _ _
      show spec.Completes ((inner.states.lookup (groupIdentity group.key group.window)).getD
        (WindowState.new group.key group.window (TriggerRunner.new spec.trigger))).window
      cases hLookup : inner.states.lookup (groupIdentity group.key group.window) with
      | none => exact hComplete group hGroup
      | some state => exact (h _ state hLookup).1
  evaluate fed states emitted identity state h hLookup := h.settle (h identity state hLookup).1 _ _ _ _

section Flush

variable {spec : TriggerSpec} {inputWatermark : Int64} (processingTime : Int64)

/-- Every stored group expires at the watermark and is still to be evaluated. -/
def Expiring (spec : TriggerSpec) (inputWatermark : Int64)
    (states : Store GroupIdentity WindowState) : Prop :=
  Forall (fun _ state => windowExpired spec state.window inputWatermark = true ∧
    state.closed = false ∧ state.evaluatedThisRun = false) states

/-- A group evaluated past its expiry leaves the state. -/
theorem settle_expired (states : Store GroupIdentity WindowState) (identity : GroupIdentity)
    {state : WindowState} (hExpired : windowExpired spec state.window inputWatermark = true)
    (hOpen : state.closed = false) :
    settle states identity (fireState state spec inputWatermark processingTime).1 =
      states.erase identity := by
  have hClosed := fireState_closed spec inputWatermark processingTime hOpen
  rw [settle, if_pos (hClosed.trans hExpired)]

/-- The scan removes every group it passes, and stops early only once it has
filled its batch. -/
theorem scanReady_expiring (limit : Nat) (scan : List GroupIdentity)
    {states : Store GroupIdentity WindowState} (h : Expiring spec inputWatermark states)
    (hScan : ∀ identity ∈ states, identity ∈ scan) (output : List WindowedValue) :
    let result := scanReady spec inputWatermark processingTime limit scan states output
    Expiring spec inputWatermark result.2.1 ∧ (∀ identity ∈ result.2.1, identity ∈ result.1) ∧
      result.2.1.entries.length + result.2.2.length ≤ states.entries.length + output.length ∧
      (result.1 ≠ [] → limit ≤ result.2.2.length) := by
  induction scan generalizing states output with
  | nil => exact ⟨h, hScan, Nat.le_refl _, fun hNe => absurd rfl hNe⟩
  | cons next scan ih =>
      rw [scanReady]
      by_cases hFull : limit ≤ output.length
      · rw [if_pos hFull]
        exact ⟨h, hScan, Nat.le_refl _, fun _ => hFull⟩
      rw [if_neg hFull]
      cases hLookup : states.lookup next with
      | none =>
          refine ih h (fun identity hMem => ?_) output
          rcases List.mem_cons.mp (hScan identity hMem) with rfl | hLater
          · exact absurd hMem (AList.lookup_eq_none.mp hLookup)
          · exact hLater
      | some state =>
          obtain ⟨hExpired, hOpen, hFresh⟩ := h next state hLookup
          dsimp only
          rw [if_neg (by rw [hFresh]; decide), settle_expired processingTime states next hExpired
            hOpen]
          have hErased : ∀ identity ∈ states.erase next, identity ∈ scan := by
            intro identity hMem
            obtain ⟨hNe, hIn⟩ := AList.mem_erase.mp hMem
            exact (List.mem_cons.mp (hScan identity hIn)).resolve_left hNe
          obtain ⟨hNext, hKeys, hCount, hStop⟩ := ih (h.erase next) hErased (output ++
            (fireState state spec inputWatermark processingTime).2.toList)
          refine ⟨hNext, hKeys, hCount.trans ?_, hStop⟩
          have hLength := length_erase hLookup
          have hOne : (fireState state spec inputWatermark processingTime).2.toList.length ≤ 1 := by
            cases (fireState state spec inputWatermark processingTime).2 <;> simp
          rw [List.length_append]
          omega

/-- The drain loop leaves no expired group behind. -/
theorem drainReady_expiring {order : List GroupIdentity → List GroupIdentity}
    (hOrder : ∀ identities, (order identities).Perm identities) (fuel : Nat)
    {inner : InMemoryGbkState} (h : Expiring spec inputWatermark inner.states)
    (hScan : ∀ scan, inner.readyScan = some scan → ∀ identity ∈ inner.states, identity ∈ scan)
    (hFuel : inner.states.entries.length < fuel) :
    (drainReady spec order inputWatermark processingTime fuel inner).1.states = ∅ := by
  induction fuel generalizing inner with
  | zero => omega
  | succ fuel ih =>
      have hAll : ∀ identity ∈ inner.states,
          identity ∈ inner.readyScan.getD (order inner.states.keys) := by
        intro identity hMem
        cases hReady : inner.readyScan with
        | none => exact (hOrder _).mem_iff.mpr hMem
        | some scan => exact hScan scan hReady identity hMem
      obtain ⟨hNext, hKeys, hCount, hStop⟩ :=
        scanReady_expiring processingTime outputBatchSize _ h hAll []
      rw [drainReady, takeReady, if_neg (by decide)]
      dsimp only at hNext hKeys hCount hStop ⊢
      generalize scanReady spec inputWatermark processingTime outputBatchSize
        (inner.readyScan.getD (order inner.states.keys)) inner.states [] = result at *
      obtain ⟨scan, states, output⟩ := result
      dsimp only at *
      split
      · next hNone =>
          have hEnd : scan = [] := by
            by_contra hNe
            have hBatch := hStop hNe
            rw [List.isEmpty_iff.mp hNone] at hBatch
            exact absurd hBatch (by decide)
          refine eq_empty_of_lookup fun key => AList.lookup_eq_none.mpr fun hMem => ?_
          have hIn := hKeys key hMem
          rw [hEnd] at hIn
          exact List.not_mem_nil hIn
      · next hSome =>
          refine ih hNext ?_ ?_
          · intro other hOther identity hMem
            dsimp only at hOther hMem
            split at hOther
            · cases hOther
            · cases hOther
              exact hKeys identity hMem
          · have hPos : 0 < output.length := List.length_pos_iff.mpr (by simpa using hSome)
            dsimp only
            rw [List.length_nil] at hCount
            omega

/-- Feeding a group past its window's expiry stores nothing. -/
theorem Expiring.applyGroup {inner : InMemoryGbkState}
    (h : Expiring spec inputWatermark inner.states) {group : GroupInput}
    (hExpired : windowExpired spec group.window inputWatermark = true) :
    Expiring spec inputWatermark (inner.applyGroup group.key group.window group.elements spec
      inputWatermark processingTime).1.states := by
  unfold InMemoryGbkState.applyGroup
  split
  · exact h
  · dsimp only
    generalize hState : (inner.states.lookup (groupIdentity group.key group.window)).getD
      (WindowState.new group.key group.window (TriggerRunner.new spec.trigger)) = state
    have hFound : windowExpired spec state.window inputWatermark = true ∧
        state.closed = false := by
      cases hLookup : inner.states.lookup (groupIdentity group.key group.window) with
      | none =>
          rw [hLookup, Option.getD_none] at hState
          rw [← hState]
          exact ⟨hExpired, rfl⟩
      | some found =>
          rw [hLookup, Option.getD_some] at hState
          rw [← hState]
          exact ⟨(h _ found hLookup).1, (h _ found hLookup).2.1⟩
    have hAdded : windowExpired spec
        (addElements state group.elements processingTime).window inputWatermark = true := hFound.1
    rw [settle_expired processingTime _ _ hAdded hFound.2]
    exact Forall.erase h _

theorem Expiring.applyGroups (groups : List GroupInput) {inner : InMemoryGbkState}
    (h : Expiring spec inputWatermark inner.states)
    (hExpired : ∀ group ∈ groups, windowExpired spec group.window inputWatermark = true) :
    Expiring spec inputWatermark
      (inner.applyGroups spec inputWatermark processingTime groups).1.states := by
  induction groups generalizing inner with
  | nil => exact h
  | cons group groups ih =>
      exact ih (h.applyGroup processingTime (hExpired group (by simp)))
        (fun other hOther => hExpired other (by simp [hOther]))

theorem applyGroups_readyScan (inner : InMemoryGbkState) (groups : List GroupInput) :
    (inner.applyGroups spec inputWatermark processingTime groups).1.readyScan =
      inner.readyScan := by
  induction groups generalizing inner with
  | nil => rfl
  | cons group groups ih =>
      rw [applyGroups]
      dsimp only
      rw [ih, InMemoryGbkState.applyGroup]
      split <;> rfl

end Flush

/-- The run that reaches the final watermark empties the state, when every
window completes. -/
theorem executeRun_flushes {spec : TriggerSpec} {run : GbkRun} {inner : InMemoryGbkState}
    {fed : List GroupInput} {emitted : List WindowedValue}
    (h : Completing spec fed inner.states emitted)
    (hFinal : run.inputWatermark = beamMaxTimestampMillis)
    (hOrder : ∀ identities, (run.order identities).Perm identities)
    (hComplete : ∀ group ∈ run.groups, spec.Completes group.window) :
    (inner.executeRun spec run).1.states = ∅ := by
  have hExpired : ∀ window, spec.Completes window →
      windowExpired spec window run.inputWatermark = true := by
    intro window hWindow
    rw [windowExpired, hFinal]
    exact decide_eq_true hWindow
  have hBegun : Expiring spec run.inputWatermark inner.beginRun.states :=
    Forall.mapValues h fun _ state hState => ⟨hExpired state.window hState.1, hState.2, rfl⟩
  have hApplied : Expiring spec run.inputWatermark (inner.beginRun.applyGroups spec
      run.inputWatermark run.processingTime run.groups).1.states :=
    hBegun.applyGroups run.processingTime run.groups fun group hGroup =>
      hExpired group.window (hComplete group hGroup)
  refine drainReady_expiring run.processingTime hOrder _ hApplied ?_ (Nat.lt_succ_self _)
  intro scan hScan
  rw [applyGroups_readyScan] at hScan
  cases hScan

theorem executeRuns_append (spec : TriggerSpec) (runs : List GbkRun) (last : GbkRun)
    (inner : InMemoryGbkState) :
    (inner.executeRuns spec (runs ++ [last])).1 =
      ((inner.executeRuns spec runs).1.executeRun spec last).1 := by
  induction runs generalizing inner with
  | nil => rfl
  | cons run runs ih =>
      rw [List.cons_append, executeRuns, executeRuns]
      exact ih _

end InMemoryGbkState

/-- Nothing is left in the state, and the panes of the whole history carry
exactly the elements fed, each under the key and window it was fed with. -/
def FlushesExactlyOnce (spec : TriggerSpec) (runs : List GbkRun) : Prop :=
  (InMemoryGbkState.empty.executeRuns spec runs).1.states = ∅ ∧
    ((InMemoryGbkState.empty.executeRuns spec runs).2.flatMap paneItems).Perm
      (runs.flatMap fun run => run.groups.flatMap GroupInput.items)

open InMemoryGbkState in
/-- A bounded history ends with every element in exactly one pane and no state
left precisely when each fed window expires below the final watermark. -/
theorem flushesExactlyOnce_iff (spec : TriggerSpec) (runs : List GbkRun)
    (hDiscarding : spec.accumulation = .discarding)
    (hOrder : ∀ run ∈ runs, ∀ identities, (run.order identities).Perm identities)
    (hWatermarks : (runs.map GbkRun.inputWatermark).Pairwise (· ≤ ·))
    (hFinal : (runs.map GbkRun.inputWatermark).getLast? = some beamMaxTimestampMillis)
    (hFits : ∀ run ∈ runs, ∀ group ∈ run.groups, group.window.CoderIdFits) :
    FlushesExactlyOnce spec runs ↔
      ∀ run ∈ runs, ∀ group ∈ run.groups, spec.Completes group.window := by
  obtain ⟨runs, last, rfl⟩ : ∃ before last, runs = before ++ [last] := by
    rcases List.eq_nil_or_concat runs with rfl | ⟨before, last, hRuns⟩
    · cases hFinal
    · exact ⟨before, last, by simpa using hRuns⟩
  have hLast : last.inputWatermark = beamMaxTimestampMillis := by simpa using hFinal
  have hBelow : ∀ run ∈ runs ++ [last], run.inputWatermark ≤ beamMaxTimestampMillis := by
    intro run hRun
    rw [List.map_append, List.pairwise_append] at hWatermarks
    rcases List.mem_append.mp hRun with hBefore | hIn
    · rw [← hLast]
      exact hWatermarks.2.2 _ (List.mem_map_of_mem hBefore) _ (by simp)
    · rw [List.mem_singleton.mp hIn, hLast]
      exact Int64.le_refl _
  constructor
  · rintro ⟨hEmpty, _⟩ run hRun group hGroup
    by_contra hNever
    have hLive : ∀ other ∈ runs ++ [last], windowExpired spec group.window other.inputWatermark = false := by
      intro other hOther
      refine decide_eq_false fun hLess => hNever ?_
      exact Int64.lt_of_lt_of_le hLess (hBelow other hOther)
    have hKept := Preserved.executeRuns (runs ++ [last]) (fun other hOther =>
      lingering_preserved hDiscarding (hFits other hOther) (hLive other hOther))
      (⟨forall_empty _, by simp⟩ : Lingering group.window [] InMemoryGbkState.empty.states [])
    obtain ⟨state, hLookup, _⟩ := hKept.stored group
      (List.mem_append_right _ (List.mem_flatMap.mpr ⟨run, hRun, hGroup⟩)) rfl
    rw [hEmpty] at hLookup
    simp at hLookup
  · intro hComplete
    have hBalance := (Preserved.executeRuns (runs ++ [last]) (fun run hRun =>
      conserved_preserved hDiscarding (hFits run hRun))
      (⟨forall_empty _, rfl⟩ : Conserved [] InMemoryGbkState.empty.states [])).balance
    have hStart : Completing spec [] InMemoryGbkState.empty.states [] := forall_empty _
    have hCompleting := Preserved.executeRuns runs (fun run hRun =>
      completing_preserved (hComplete run (List.mem_append_left _ hRun))) hStart
    have hEmpty : (InMemoryGbkState.empty.executeRuns spec (runs ++ [last])).1.states = ∅ := by
      rw [executeRuns_append]
      exact executeRun_flushes hCompleting hLast (hOrder last (by simp))
        (hComplete last (by simp))
    refine ⟨hEmpty, Multiset.coe_eq_coe.mp ?_⟩
    rw [hEmpty, heldItems, held_empty, zero_add, List.nil_append, List.nil_append,
      List.flatMap_assoc] at hBalance
    exact hBalance

/-- The default trigger with the given allowed lateness. -/
def latenessSpec (allowedLateness : Int64) : TriggerSpec where
  trigger := .default
  accumulation := .discarding
  outputTime := .endOfWindow
  allowedLateness := allowedLateness

/-- One element of one key at a watermark. -/
def oneElementRun (window : BeamWindow) (inputWatermark : Int64) : GbkRun where
  groups := [⟨.int64 7, window, [⟨.primitive (.bool true), 0⟩]⟩]
  inputWatermark := inputWatermark
  processingTime := 0
  order := id

/-- An element that arrives before its window closes and one that arrives at
the end, with a second of allowed lateness. -/
theorem flushesExactlyOnce_two_runs :
    FlushesExactlyOnce (latenessSpec 1000)
      [oneElementRun (.interval 0 100) 50, oneElementRun .global beamMaxTimestampMillis] := by
  refine (flushesExactlyOnce_iff (latenessSpec 1000) _ rfl ?_ (by decide) rfl ?_).mpr ?_
  · intro run hRun identities
    simp only [List.mem_cons, List.not_mem_nil, or_false] at hRun
    rcases hRun with rfl | rfl <;> exact List.Perm.refl _
  · intro run hRun group hGroup
    simp only [List.mem_cons, List.not_mem_nil, or_false] at hRun
    rcases hRun with rfl | rfl <;> rw [List.mem_singleton.mp hGroup] <;> trivial
  · intro run hRun group hGroup
    simp only [List.mem_cons, List.not_mem_nil, or_false] at hRun
    rcases hRun with rfl | rfl <;> rw [List.mem_singleton.mp hGroup] <;> decide

/-- A day of allowed lateness pushes the expiry of the global window to the
final watermark, and the strict comparison never holds. -/
theorem not_flushesExactlyOnce_global_day :
    ¬ ∀ (spec : TriggerSpec) (runs : List GbkRun), spec.accumulation = .discarding →
      0 ≤ spec.allowedLateness →
      (∀ run ∈ runs, ∀ identities, (run.order identities).Perm identities) →
      (runs.map GbkRun.inputWatermark).Pairwise (· ≤ ·) →
      (runs.map GbkRun.inputWatermark).getLast? = some beamMaxTimestampMillis →
      (∀ run ∈ runs, ∀ group ∈ run.groups, group.elements ≠ [] ∧
        (group.window = .global ∨ ∃ startMillis endMillis,
          group.window = .interval startMillis endMillis) ∧
        group.window.maxTimestampMillis ≤ globalWindowMaxTimestampMillis) →
      FlushesExactlyOnce spec runs := by
  intro h
  have hFlushed := h (latenessSpec 86400000) [oneElementRun .global beamMaxTimestampMillis] rfl
    (by decide) (fun run hRun identities => by
      rw [List.mem_singleton.mp hRun]
      exact List.Perm.refl _) (by simp) rfl (fun run hRun group hGroup => by
      rw [List.mem_singleton.mp hRun] at hGroup
      rw [List.mem_singleton.mp hGroup]
      exact ⟨by simp, Or.inl rfl, by decide⟩)
  have hEntries := congrArg (fun states => states.entries.length) hFlushed.1
  exact absurd hEntries (by decide)

end FlareDB
