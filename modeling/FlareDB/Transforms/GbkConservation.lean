import FlareDB.Transforms.Gbk

/-! What a discarding GroupByKey does with its elements over whole run
histories: every element is held by exactly one group or has left in exactly
one pane, and a group leaves the state only when its window expires. -/
namespace FlareDB

open KeyedStore

/-- Coder ids whose length a binary key can record. -/
def BeamWindow.CoderIdFits : BeamWindow → Prop
  | .opaqueWindow coderId _ => (utf8Bytes coderId).length < 2 ^ 32
  | _ => True

private theorem toUInt64_injective {a b : Int64} (h : a.toUInt64 = b.toUInt64) : a = b := by
  rw [← Int64.toInt64_toUInt64 a, h, Int64.toInt64_toUInt64]

/-- Ordered bytes tell times apart. -/
private theorem orderedI64Bytes_injective {a b : Int64}
    (h : orderedI64Bytes a = orderedI64Bytes b) : a = b := by
  have hNat := BigEndian.toBytes_injective (UInt64.toNat_lt _) (UInt64.toNat_lt _) h
  exact toUInt64_injective ((UInt64.xor_left_inj signBit).mp (UInt64.toNat_inj.mp hNat))

/-- Binary keys tell windows apart. -/
theorem BeamWindow.toBinaryKey_injective {a b : BeamWindow} (ha : a.CoderIdFits)
    (hb : b.CoderIdFits) (h : a.toBinaryKey = b.toBinaryKey) : a = b := by
  cases a with
  | global => cases b <;> simp_all [toBinaryKey]
  | interval startMillis endMillis =>
      cases b with
      | global => simp [toBinaryKey] at h
      | opaqueWindow _ _ => simp [toBinaryKey] at h
      | interval otherStart otherEnd =>
          have hBytes := (List.cons.inj h).2
          have hLength : (orderedI64Bytes startMillis).length = (orderedI64Bytes otherStart).length := by
            simp [orderedI64Bytes]
          obtain ⟨hStart, hEnd⟩ := List.append_inj hBytes hLength
          rw [orderedI64Bytes_injective hStart, orderedI64Bytes_injective hEnd]
  | opaqueWindow coderId bytes =>
      cases b with
      | global => simp [toBinaryKey] at h
      | interval _ _ => simp [toBinaryKey] at h
      | opaqueWindow otherId otherBytes =>
          have hAll := (List.cons.inj h).2
          obtain ⟨hCount, hRest⟩ := List.append_inj hAll (by simp)
          have hLength := BigEndian.toBytes_injective ha hb hCount
          obtain ⟨hId, hBytes⟩ := List.append_inj hRest hLength
          rw [utf8Bytes_injective hId, hBytes]

/-- Sort keys tell scalars apart. -/
theorem encodedPrimitiveSortKey_injective {a b : PrimitiveValue}
    (h : encodedPrimitiveSortKey a = encodedPrimitiveSortKey b) : a = b := by
  cases a <;> cases b <;> simp only [encodedPrimitiveSortKey, List.cons.injEq] at h
  all_goals first
    | exact absurd h.1 (by decide)
    | skip
  · rw [utf8Bytes_injective h.2]
  · rw [h.2]
  · have hNat := BigEndian.toBytes_injective (UInt64.toNat_lt _) (UInt64.toNat_lt _) h.2
    rw [toUInt64_injective (UInt64.toNat_inj.mp hNat)]
  · have hNat := BigEndian.toBytes_injective (UInt64.toNat_lt _) (UInt64.toNat_lt _) h.2
    rw [UInt64.toNat_inj.mp hNat]
  · next value other => cases value <;> cases other <;> simp_all
  · rfl

/-- Identities tell groups apart. -/
theorem groupIdentity_injective {key otherKey : PrimitiveValue} {window otherWindow : BeamWindow}
    (hFits : window.CoderIdFits) (hOther : otherWindow.CoderIdFits)
    (h : groupIdentity key window = groupIdentity otherKey otherWindow) :
    key = otherKey ∧ window = otherWindow := by
  rw [groupIdentity, groupIdentity, GroupIdentity.mk.injEq] at h
  exact ⟨encodedPrimitiveSortKey_injective h.1, BeamWindow.toBinaryKey_injective hFits hOther h.2⟩

/-- An element together with the group it belongs to. -/
abbrev GroupItem := PrimitiveValue × BeamWindow × BeamRecord

def WindowState.items (state : WindowState) : List GroupItem :=
  state.elements.map fun element => (state.key, state.window, element.value)

def GroupInput.items (group : GroupInput) : List GroupItem :=
  group.elements.map fun element => (group.key, group.window, element.value)

/-- The elements a pane carries, under the key and window it carries. -/
def paneItems (pane : WindowedValue) : List GroupItem :=
  match pane.value, pane.windows with
  | .kv key (.iterable values), [window] => values.map fun value => (key, window, value)
  | _, _ => []

/-- A group's pane has the elements it was made of. -/
theorem paneItems_groupPane (key : PrimitiveValue) (window : BeamWindow)
    (elements : List PaneElement) (timestampMillis : Int64) (pane : PaneInfo) :
    paneItems (groupPane key window elements timestampMillis pane) =
      elements.map fun element => (key, window, element.value) := by
  simp [paneItems, groupPane, Function.comp_def]

section FireState

variable {spec : TriggerSpec} (hDiscarding : spec.accumulation = .discarding)

/-- Firing keeps the group a state belongs to. -/
theorem fireState_key (state : WindowState) (spec : TriggerSpec)
    (inputWatermark processingTime : Int64) :
    (fireState state spec inputWatermark processingTime).1.key = state.key ∧
      (fireState state spec inputWatermark processingTime).1.window = state.window ∧
      (fireState state spec inputWatermark processingTime).1.evaluatedThisRun = true := by
  unfold fireState
  dsimp only
  split
  · exact ⟨rfl, rfl, rfl⟩
  · split <;> exact ⟨rfl, rfl, rfl⟩

/-- An open group closes exactly when its window expires. -/
theorem fireState_closed {state : WindowState} (spec : TriggerSpec)
    (inputWatermark processingTime : Int64) (hOpen : state.closed = false) :
    (fireState state spec inputWatermark processingTime).1.closed =
      windowExpired spec state.window inputWatermark := by
  unfold fireState
  dsimp only [triggerContext]
  cases hExpired : windowExpired spec state.window inputWatermark with
  | true => simp [hOpen]; split <;> rfl
  | false =>
      split
      · exact hOpen
      · split <;> simp [hOpen]

include hDiscarding in
/-- A firing moves elements from the group to its pane. -/
theorem fireState_items (state : WindowState) (inputWatermark processingTime : Int64) :
    (fireState state spec inputWatermark processingTime).1.items ++
        (fireState state spec inputWatermark processingTime).2.toList.flatMap paneItems =
      state.items := by
  unfold fireState
  dsimp only
  split
  · simp [WindowState.items]
  · split
    · next hEmpty =>
        have hNil : state.elements = [] := by simpa using hEmpty
        simp [WindowState.items, hNil]
    · simp [WindowState.items, paneItems_groupPane]

include hDiscarding in
/-- Closing a group empties it. -/
theorem fireState_closed_items {state : WindowState} {inputWatermark processingTime : Int64}
    (hOpen : state.closed = false)
    (hClosed : (fireState state spec inputWatermark processingTime).1.closed = true) :
    (fireState state spec inputWatermark processingTime).1.items = [] := by
  unfold fireState at hClosed ⊢
  dsimp only at hClosed ⊢
  split
  · next hIdle =>
      rw [if_pos hIdle, hOpen] at hClosed
      cases hClosed
  · split <;> simp [WindowState.items]

end FireState

namespace InMemoryGbkState

/-- Every group is stored open under its own identity. -/
def Grouped (states : Store GroupIdentity WindowState) : Prop :=
  Forall (fun identity state => identity = groupIdentity state.key state.window ∧
    state.window.CoderIdFits ∧ state.closed = false) states

/-- All elements held by the groups, with the group they belong to. -/
def heldItems (states : Store GroupIdentity WindowState) : Multiset GroupItem :=
  held WindowState.items states

section Settle

variable {spec : TriggerSpec} {inputWatermark processingTime : Int64}
  {states : Store GroupIdentity WindowState} {identity : GroupIdentity} {state : WindowState}

/-- An evaluated state stays under its own identity. -/
theorem Grouped.settle (hStates : Grouped states)
    (hIdentity : identity = groupIdentity state.key state.window)
    (hFits : state.window.CoderIdFits) :
    Grouped (settle states identity (fireState state spec inputWatermark processingTime).1) := by
  obtain ⟨hKey, hWindow, _⟩ := fireState_key state spec inputWatermark processingTime
  unfold InMemoryGbkState.settle
  split
  · exact hStates.erase identity
  · next hClosed =>
      refine hStates.insert ⟨?_, ?_, by simpa using hClosed⟩
      · rw [hKey, hWindow]
        exact hIdentity
      · rw [hWindow]
        exact hFits

/-- Evaluating a group moves its elements into its pane or leaves them stored:
a group is only dropped when it closes, and closing empties it. -/
theorem heldItems_settle (hDiscarding : spec.accumulation = .discarding)
    (inputWatermark processingTime : Int64) (states : Store GroupIdentity WindowState)
    (identity : GroupIdentity) (hOpen : state.closed = false) :
    heldItems (settle states identity (fireState state spec inputWatermark processingTime).1) +
        ((fireState state spec inputWatermark processingTime).2.toList.flatMap paneItems :
          List GroupItem) =
      heldItems (states.erase identity) + (state.items : List GroupItem) := by
  have hItems := congrArg (fun items : List GroupItem => (items : Multiset GroupItem))
    (fireState_items hDiscarding state inputWatermark processingTime)
  rw [← Multiset.coe_add] at hItems
  unfold InMemoryGbkState.settle
  split
  · next hClosed =>
      rw [fireState_closed_items hDiscarding hOpen hClosed, Multiset.coe_nil, zero_add] at hItems
      rw [hItems]
  · have hInsert := held_insert WindowState.items identity
      (fireState state spec inputWatermark processingTime).1 states
    rw [heldItems, hInsert, ← hItems, heldItems]
    abel

end Settle

/-! An invariant of a history relates the groups fed so far, the stored states
and the panes emitted so far. It holds over whole runs once it is kept by the
three things a run does to the state. -/

section Rules

variable {I : List GroupInput → Store GroupIdentity WindowState → List WindowedValue → Prop}
  {spec : TriggerSpec} {inputWatermark processingTime : Int64} {fed : List GroupInput}
  {emitted : List WindowedValue}

/-- What each evaluation keeps, the scan of the ready groups keeps. -/
theorem scanReady_rule
    (hEvaluate : ∀ states emitted identity state, I fed states emitted →
      states.lookup identity = some state →
      I fed (settle states identity (fireState state spec inputWatermark processingTime).1)
        (emitted ++ (fireState state spec inputWatermark processingTime).2.toList))
    (limit : Nat) (scan : List GroupIdentity) {states : Store GroupIdentity WindowState}
    (output : List WindowedValue) (h : I fed states (emitted ++ output)) :
    I fed (scanReady spec inputWatermark processingTime limit scan states output).2.1
      (emitted ++ (scanReady spec inputWatermark processingTime limit scan states output).2.2) := by
  induction scan generalizing states output with
  | nil => exact h
  | cons identity scan ih =>
      rw [scanReady]
      by_cases hFull : limit ≤ output.length
      · rw [if_pos hFull]
        exact h
      rw [if_neg hFull]
      cases hLookup : states.lookup identity with
      | none => exact ih output h
      | some state =>
          dsimp only
          split
          · exact ih output h
          · refine ih _ ?_
            rw [← List.append_assoc]
            exact hEvaluate states _ identity state h hLookup

/-- So does the drain of all of them. -/
theorem drainReady_rule
    (hEvaluate : ∀ states emitted identity state, I fed states emitted →
      states.lookup identity = some state →
      I fed (settle states identity (fireState state spec inputWatermark processingTime).1)
        (emitted ++ (fireState state spec inputWatermark processingTime).2.toList))
    (order : List GroupIdentity → List GroupIdentity) (fuel : Nat) {inner : InMemoryGbkState}
    (h : I fed inner.states emitted) :
    I fed (drainReady spec order inputWatermark processingTime fuel inner).1.states
      (emitted ++ (drainReady spec order inputWatermark processingTime fuel inner).2) := by
  induction fuel generalizing inner emitted with
  | zero =>
      rw [drainReady, List.append_nil]
      exact h
  | succ fuel ih =>
      have hTaken : I fed (inner.takeReady order spec inputWatermark processingTime
          outputBatchSize).1.states (emitted ++ (inner.takeReady order spec inputWatermark
            processingTime outputBatchSize).2) :=
        scanReady_rule hEvaluate outputBatchSize _ [] (by rw [List.append_nil]; exact h)
      rw [drainReady]
      dsimp only
      split
      · next hNone =>
          rw [List.isEmpty_iff.mp hNone] at hTaken
          exact hTaken
      · dsimp only
        rw [← List.append_assoc]
        exact ih hTaken

/-- What feeding a group keeps, feeding them all keeps. -/
theorem applyGroups_rule (groups : List GroupInput)
    (hFeed : ∀ fed (inner : InMemoryGbkState) emitted, I fed inner.states emitted →
      ∀ group ∈ groups, I (fed ++ [group])
        (inner.applyGroup group.key group.window group.elements spec inputWatermark
          processingTime).1.states
        (emitted ++ (inner.applyGroup group.key group.window group.elements spec inputWatermark
          processingTime).2.toList))
    {inner : InMemoryGbkState} (h : I fed inner.states emitted) :
    I (fed ++ groups) (inner.applyGroups spec inputWatermark processingTime groups).1.states
      (emitted ++ (inner.applyGroups spec inputWatermark processingTime groups).2) := by
  induction groups generalizing inner fed emitted with
  | nil =>
      rw [applyGroups, List.append_nil, List.append_nil]
      exact h
  | cons group groups ih =>
      have hFirst := hFeed fed inner emitted h group (by simp)
      have hRest := ih (fun fed inner emitted hI other hOther =>
        hFeed fed inner emitted hI other (by simp [hOther])) hFirst
      rw [List.append_assoc, List.append_assoc] at hRest
      exact hRest

end Rules

/-- The three obligations of an invariant over runs at the given watermarks. -/
structure Preserved (I : List GroupInput → Store GroupIdentity WindowState →
    List WindowedValue → Prop) (spec : TriggerSpec) (run : GbkRun) : Prop where
  begin : ∀ fed states emitted, I fed states emitted →
    I fed (mapValues WindowState.begun states) emitted
  feed : ∀ fed (inner : InMemoryGbkState) emitted, I fed inner.states emitted →
    ∀ group ∈ run.groups, I (fed ++ [group])
      (inner.applyGroup group.key group.window group.elements spec run.inputWatermark
        run.processingTime).1.states
      (emitted ++ (inner.applyGroup group.key group.window group.elements spec run.inputWatermark
        run.processingTime).2.toList)
  evaluate : ∀ fed states emitted identity state, I fed states emitted →
    states.lookup identity = some state →
    I fed (settle states identity
        (fireState state spec run.inputWatermark run.processingTime).1)
      (emitted ++ (fireState state spec run.inputWatermark run.processingTime).2.toList)

namespace Preserved

variable {I : List GroupInput → Store GroupIdentity WindowState → List WindowedValue → Prop}
  {spec : TriggerSpec} {fed : List GroupInput} {emitted : List WindowedValue}
  {inner : InMemoryGbkState}

/-- The invariant holds through the groups of a run. -/
theorem applyGroups {run : GbkRun} (hRun : Preserved I spec run)
    (h : I fed inner.states emitted) :
    I (fed ++ run.groups)
      (inner.beginRun.applyGroups spec run.inputWatermark run.processingTime run.groups).1.states
      (emitted ++
        (inner.beginRun.applyGroups spec run.inputWatermark run.processingTime run.groups).2) :=
  applyGroups_rule run.groups hRun.feed (hRun.begin _ _ _ h)

/-- It holds through a run. -/
theorem executeRun {run : GbkRun} (hRun : Preserved I spec run)
    (h : I fed inner.states emitted) :
    I (fed ++ run.groups) (inner.executeRun spec run).1.states
      (emitted ++ (inner.executeRun spec run).2) := by
  have hDrained := drainReady_rule (hRun.evaluate _) run.order
    ((inner.beginRun.applyGroups spec run.inputWatermark run.processingTime
      run.groups).1.states.entries.length + 1) (hRun.applyGroups h)
  rw [List.append_assoc] at hDrained
  exact hDrained

/-- It holds through every sequence of runs. -/
theorem executeRuns (runs : List GbkRun) (hRuns : ∀ run ∈ runs, Preserved I spec run)
    (h : I fed inner.states emitted) :
    I (fed ++ runs.flatMap GbkRun.groups) (inner.executeRuns spec runs).1.states
      (emitted ++ (inner.executeRuns spec runs).2) := by
  induction runs generalizing inner fed emitted with
  | nil =>
      rw [InMemoryGbkState.executeRuns, List.flatMap_nil, List.append_nil, List.append_nil]
      exact h
  | cons run runs ih =>
      have hNext := (hRuns run (by simp)).executeRun h
      have hRest := ih (fun other hOther => hRuns other (by simp [hOther])) hNext
      rw [List.append_assoc, List.append_assoc] at hRest
      exact hRest

end Preserved

section Conservation

variable {spec : TriggerSpec} (hDiscarding : spec.accumulation = .discarding)

/-- A run that begins leaves every state under its identity. -/
theorem Grouped.begin {states : Store GroupIdentity WindowState} (h : Grouped states) :
    Grouped (mapValues WindowState.begun states) :=
  h.mapValues fun _ _ hState => hState

/-- The stored or new state of a group carries the group's own key and window. -/
theorem groupState_spec {inner : InMemoryGbkState} (hGrouped : Grouped inner.states) {group : GroupInput}
    (hFits : group.window.CoderIdFits) (trigger : TriggerRunner) :
    let state := (inner.states.lookup (groupIdentity group.key group.window)).getD
      (WindowState.new group.key group.window trigger)
    state.key = group.key ∧ state.window = group.window ∧ state.closed = false ∧
      heldItems inner.states =
        heldItems (inner.states.erase (groupIdentity group.key group.window)) + state.items := by
  cases hLookup : inner.states.lookup (groupIdentity group.key group.window) with
  | none =>
      refine ⟨rfl, rfl, rfl, ?_⟩
      rw [erase_of_lookup_none hLookup]
      exact (add_zero _).symm
  | some state =>
      obtain ⟨hIdentity, hStateFits, hOpen⟩ := hGrouped _ state hLookup
      obtain ⟨hKey, hWindow⟩ := groupIdentity_injective hFits hStateFits hIdentity
      refine ⟨hKey.symm, hWindow.symm, hOpen, ?_⟩
      rw [heldItems, held_of_lookup WindowState.items hLookup, add_comm]
      rfl

include hDiscarding in
/-- Feeding a group conserves elements. -/
theorem applyGroup_conserves (inputWatermark processingTime : Int64)
    {inner : InMemoryGbkState} (hGrouped : Grouped inner.states) {group : GroupInput}
    (hFits : group.window.CoderIdFits) :
    Grouped (inner.applyGroup group.key group.window group.elements spec inputWatermark
        processingTime).1.states ∧
      heldItems (inner.applyGroup group.key group.window group.elements spec inputWatermark
          processingTime).1.states +
        ((inner.applyGroup group.key group.window group.elements spec inputWatermark
          processingTime).2.toList.flatMap paneItems : List GroupItem) =
        heldItems inner.states + group.items := by
  unfold applyGroup
  split
  · refine ⟨hGrouped, ?_⟩
    simp [paneItems_groupPane, GroupInput.items]
  · dsimp only
    obtain ⟨hKey, hWindow, hOpen, hHeld⟩ :=
      groupState_spec hGrouped hFits (TriggerRunner.new spec.trigger)
    generalize (inner.states.lookup (groupIdentity group.key group.window)).getD
      (WindowState.new group.key group.window (TriggerRunner.new spec.trigger)) = state at *
    have hAddedOpen : (addElements state group.elements processingTime).closed = false := hOpen
    have hAddedItems : ((addElements state group.elements processingTime).items :
        Multiset GroupItem) = state.items + group.items := by
      simp [addElements, WindowState.items, GroupInput.items, hKey, hWindow]
    refine ⟨hGrouped.settle ?_ ?_, ?_⟩
    · show _ = groupIdentity state.key state.window
      rw [hKey, hWindow]
    · show state.window.CoderIdFits
      rw [hWindow]
      exact hFits
    · rw [heldItems_settle hDiscarding inputWatermark processingTime _ _ hAddedOpen, hAddedItems,
        hHeld, add_assoc]

/-- Elements fed, held and emitted so far, each under its own group. -/
structure Conserved (fed : List GroupInput) (states : Store GroupIdentity WindowState)
    (emitted : List WindowedValue) : Prop where
  grouped : Grouped states
  balance : heldItems states + (emitted.flatMap paneItems : List GroupItem) =
    (fed.flatMap GroupInput.items : List GroupItem)

include hDiscarding in
/-- Every run conserves the elements. -/
theorem conserved_preserved {run : GbkRun}
    (hFits : ∀ group ∈ run.groups, group.window.CoderIdFits) :
    Preserved Conserved spec run where
  begin fed states emitted h := by
    refine ⟨h.grouped.begin, ?_⟩
    have hSame : ∀ state : WindowState, state.begun.items = state.items := fun _ => rfl
    rw [heldItems, held_mapValues hSame]
    exact h.balance
  feed fed inner emitted h group hGroup := by
    obtain ⟨hGrouped, hMoved⟩ := applyGroup_conserves hDiscarding run.inputWatermark
      run.processingTime h.grouped (hFits group hGroup)
    refine ⟨hGrouped, ?_⟩
    rw [List.flatMap_append, ← Multiset.coe_add, add_left_comm, hMoved, List.flatMap_append,
      ← Multiset.coe_add, ← h.balance, List.flatMap_singleton]
    abel
  evaluate fed states emitted identity state h hLookup := by
    obtain ⟨hIdentity, hFits, hOpen⟩ := h.grouped identity state hLookup
    have hMoved := heldItems_settle hDiscarding run.inputWatermark run.processingTime states
      identity hOpen
    refine ⟨h.grouped.settle hIdentity hFits, ?_⟩
    rw [List.flatMap_append, ← Multiset.coe_add, add_left_comm, hMoved, ← h.balance, heldItems,
      heldItems, held_of_lookup WindowState.items hLookup]
    abel

end Conservation
end InMemoryGbkState
end FlareDB
