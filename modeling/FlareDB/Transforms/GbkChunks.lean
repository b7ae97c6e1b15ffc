import FlareDB.Transforms.GbkGroup

/-! Draining the ready groups chunk by chunk. A scan resumes where the one
before it stopped and starts over once it has run dry; the mark on an evaluated
group is what keeps the drain loop from firing a group again. -/
namespace FlareDB

open KeyedStore

namespace InMemoryGbkState

/-- One `applyGroup` call of a run. -/
structure GroupCall where
  group : GroupInput
  spec : TriggerSpec
  inputWatermark : Int64
  processingTime : Int64

/-- The backend after a list of `applyGroup` calls. -/
def applyCalls (inner : InMemoryGbkState) : List GroupCall → InMemoryGbkState
  | [] => inner
  | call :: calls =>
      applyCalls (inner.applyGroup call.group.key call.group.window call.group.elements call.spec
        call.inputWatermark call.processingTime).1 calls

/-- A stored group this run has not evaluated. -/
def Due (states : Store GroupIdentity WindowState) (identity : GroupIdentity) : Prop :=
  ∃ state, states.lookup identity = some state ∧ state.evaluatedThisRun = false

/-- The mark on every stored group tells whether it was among those handed in. -/
def Marked (handed : List GroupIdentity) (states : Store GroupIdentity WindowState) : Prop :=
  ∀ identity state, states.lookup identity = some state →
    (state.evaluatedThisRun = true ↔ identity ∈ handed)

theorem marked_beginRun (inner : InMemoryGbkState) : Marked [] inner.beginRun.states := by
  intro identity state hLookup
  obtain ⟨before, -, rfl⟩ := Option.map_eq_some_iff.mp
    ((lookup_mapValues WindowState.begun inner.states identity).symm.trans hLookup)
  simp [WindowState.begun]

theorem marked_applyGroup {handed : List GroupIdentity} {inner : InMemoryGbkState}
    (h : Marked handed inner.states) (call : GroupCall) :
    Marked (call.group.identity :: handed) (inner.applyGroup call.group.key call.group.window
      call.group.elements call.spec call.inputWatermark call.processingTime).1.states := by
  intro identity state hLookup
  unfold applyGroup at hLookup
  split at hLookup
  · -- only an empty backend emits directly
    next hDirect =>
      rw [lookup_of_emitsDirectly hDirect] at hLookup
      cases hLookup
  · dsimp only at hLookup
    rw [lookup_settle] at hLookup
    by_cases hSame : identity = call.group.identity
    · rw [if_pos (show identity = groupIdentity call.group.key call.group.window from hSame),
        WindowState.kept] at hLookup
      split at hLookup
      · cases hLookup
      · rw [← Option.some.inj hLookup, evaluated_fireState]
        simp [hSame]
    · rw [if_neg (show ¬ identity = groupIdentity call.group.key call.group.window from hSame)]
        at hLookup
      rw [h identity state hLookup, List.mem_cons, or_iff_right hSame]

theorem marked_applyCalls {handed : List GroupIdentity} {inner : InMemoryGbkState}
    (h : Marked handed inner.states) (calls : List GroupCall) :
    Marked ((calls.map fun call => call.group.identity).reverse ++ handed)
      (inner.applyCalls calls).states := by
  induction calls generalizing handed inner with
  | nil => exact h
  | cons call calls ih =>
      rw [applyCalls, List.map_cons, List.reverse_cons, List.append_assoc]
      exact ih (marked_applyGroup h call)

/-- Which groups a run has still to evaluate after its calls. -/
theorem due_applyCalls (inner : InMemoryGbkState) (calls : List GroupCall)
    (identity : GroupIdentity) :
    Due (inner.beginRun.applyCalls calls).states identity ↔
      ((inner.beginRun.applyCalls calls).states.lookup identity).isSome ∧
        ∀ call ∈ calls, call.group.identity ≠ identity := by
  have hMarked := marked_applyCalls (marked_beginRun inner) calls
  have hHanded : (∀ call ∈ calls, call.group.identity ≠ identity) ↔
      identity ∉ (calls.map fun call => call.group.identity).reverse ++ [] := by simp
  rw [hHanded, Option.isSome_iff_exists]
  constructor
  · rintro ⟨state, hLookup, hDue⟩
    refine ⟨⟨state, hLookup⟩, fun hMem => ?_⟩
    rw [(hMarked identity state hLookup).mpr hMem] at hDue
    cases hDue
  · rintro ⟨⟨state, hLookup⟩, hNot⟩
    exact ⟨state, hLookup, Bool.eq_false_iff.mpr fun hSet =>
      hNot ((hMarked identity state hLookup).mp hSet)⟩

theorem readyScan_applyCalls (inner : InMemoryGbkState) (calls : List GroupCall) :
    (inner.applyCalls calls).readyScan = inner.readyScan := by
  induction calls generalizing inner with
  | nil => rfl
  | cons call calls ih =>
      rw [applyCalls, ih, applyGroup]
      split <;> rfl

section Chunks

variable (spec : TriggerSpec) (inputWatermark processingTime : Int64)

/-- The groups `scanReady` evaluates, in order. -/
def scanEvaluated (limit : Nat) :
    List GroupIdentity → Store GroupIdentity WindowState → List WindowedValue → List GroupIdentity
  | [], _, _ => []
  | identity :: scan, states, output =>
      if limit ≤ output.length then []
      else match states.lookup identity with
        | none => scanEvaluated limit scan states output
        | some state =>
            if state.evaluatedThisRun then scanEvaluated limit scan states output
            else
              let (state, value) := fireState state spec inputWatermark processingTime
              identity :: scanEvaluated limit scan (settle states identity state)
                (output ++ value.toList)

/-- The groups one `takeReady` call evaluates, in order. -/
def takeReadyEvaluated (inner : InMemoryGbkState)
    (order : List GroupIdentity → List GroupIdentity) (limit : Nat) : List GroupIdentity :=
  if limit = 0 then []
  else scanEvaluated spec inputWatermark processingTime limit
    (inner.readyScan.getD (order inner.states.keys)) inner.states []

/-- Call `takeReady` until it returns no pane, with the groups evaluated on the
way. The hash map may be listed in a new order each time a scan starts; `none`
when the loop has not ended within the given rounds. -/
def drainChunks (limit : Nat) (orders : Nat → List GroupIdentity → List GroupIdentity) :
    Nat → Nat → InMemoryGbkState →
      Option (InMemoryGbkState × List WindowedValue × List GroupIdentity)
  | 0, _, _ => none
  | fuel + 1, round, inner =>
      let evaluated := inner.takeReadyEvaluated spec inputWatermark processingTime (orders round)
        limit
      let (next, ready) := inner.takeReady (orders round) spec inputWatermark processingTime limit
      if ready.isEmpty then some (next, [], evaluated)
      else
        (drainChunks limit orders fuel (round + 1) next).map fun (last, panes, later) =>
          (last, ready ++ panes, evaluated ++ later)

/-- Firing a list of groups one after another, each due when its turn comes. -/
inductive Fires : List GroupIdentity → Store GroupIdentity WindowState →
    Store GroupIdentity WindowState → List WindowedValue → Prop where
  | nil {states : Store GroupIdentity WindowState} : Fires [] states states []
  | cons {identity : GroupIdentity} {fired : List GroupIdentity} {state : WindowState}
      {states after : Store GroupIdentity WindowState} {panes : List WindowedValue}
      (hLookup : states.lookup identity = some state) (hDue : state.evaluatedThisRun = false)
      (hRest : Fires fired
        (settle states identity (fireState state spec inputWatermark processingTime).1) after
        panes) :
      Fires (identity :: fired) states after
        ((fireState state spec inputWatermark processingTime).2.toList ++ panes)

namespace Fires

variable {spec inputWatermark processingTime} {fired later : List GroupIdentity}
  {states middle after : Store GroupIdentity WindowState} {panes rest : List WindowedValue}

theorem append (h : Fires spec inputWatermark processingTime fired states middle panes)
    (hLater : Fires spec inputWatermark processingTime later middle after rest) :
    Fires spec inputWatermark processingTime (fired ++ later) states after (panes ++ rest) := by
  induction h with
  | nil => exact hLater
  | cons hLookup hDue _ ih =>
      rw [List.append_assoc]
      exact .cons hLookup hDue (ih hLater)

/-- Firing a group leaves it evaluated or gone. -/
theorem not_due_settle {identity : GroupIdentity} {state : WindowState} :
    ¬ Due (settle states identity (fireState state spec inputWatermark processingTime).1)
      identity := by
  rintro ⟨next, hLookup, hDue⟩
  rw [lookup_settle, if_pos rfl, WindowState.kept] at hLookup
  split at hLookup
  · cases hLookup
  · rw [← Option.some.inj hLookup, evaluated_fireState] at hDue
    cases hDue

theorem due_settle_ne {identity other : GroupIdentity} {state : WindowState}
    (hNe : other ≠ identity) :
    Due (settle states identity state) other ↔ Due states other := by
  rw [Due, lookup_settle, if_neg hNe]
  rfl

/-- No group falls due again. -/
theorem not_due (h : Fires spec inputWatermark processingTime fired states after panes)
    {identity : GroupIdentity} (hNot : ¬ Due states identity) : ¬ Due after identity := by
  induction h with
  | nil => exact hNot
  | @cons other _ _ _ _ _ _ _ _ ih =>
      refine ih ?_
      by_cases hSame : identity = other
      · rw [hSame]
        exact not_due_settle
      · rwa [due_settle_ne hSame]

/-- What was due before is due after unless it was fired. -/
theorem due_iff (h : Fires spec inputWatermark processingTime fired states after panes)
    (identity : GroupIdentity) : Due after identity ↔ Due states identity ∧ identity ∉ fired := by
  induction h with
  | nil => simp
  | @cons other fired _ _ _ _ _ _ hRest ih =>
      by_cases hSame : identity = other
      · subst hSame
        simpa using hRest.not_due not_due_settle
      · rw [ih, due_settle_ne hSame, List.mem_cons, or_iff_right hSame]

theorem due_of_mem (h : Fires spec inputWatermark processingTime fired states after panes)
    {identity : GroupIdentity} (hMem : identity ∈ fired) : Due states identity := by
  induction h with
  | nil => cases hMem
  | @cons other _ state _ _ _ hLookup hDue _ ih =>
      by_cases hSame : identity = other
      · subst hSame
        exact ⟨state, hLookup, hDue⟩
      · rw [← due_settle_ne hSame]
        exact ih ((List.mem_cons.mp hMem).resolve_left hSame)

/-- No group is fired twice. -/
theorem nodup (h : Fires spec inputWatermark processingTime fired states after panes) :
    fired.Nodup := by
  induction h with
  | nil => exact List.nodup_nil
  | cons _ _ hRest ih =>
      exact List.nodup_cons.mpr ⟨fun hMem => not_due_settle (hRest.due_of_mem hMem), ih⟩

/-- Each group ends as if it alone had been evaluated. -/
theorem lookup (h : Fires spec inputWatermark processingTime fired states after panes)
    (identity : GroupIdentity) :
    after.lookup identity =
      if identity ∈ fired then
        (evaluateGroup spec inputWatermark processingTime (states.lookup identity)).1
      else states.lookup identity := by
  induction h with
  | nil => simp
  | @cons other fired state states _ _ hLookup hDue hRest ih =>
      rw [ih, lookup_settle]
      by_cases hSame : identity = other
      · subst hSame
        have hNot : identity ∉ fired := fun hMem => not_due_settle (hRest.due_of_mem hMem)
        rw [if_neg hNot, if_pos rfl, if_pos List.mem_cons_self, hLookup, evaluateGroup,
          if_neg (by rw [hDue]; decide)]
      · rw [if_neg hSame]
        simp only [List.mem_cons, hSame, false_or]

/-- The panes are those of the groups fired, each on its own. -/
theorem panes_eq (h : Fires spec inputWatermark processingTime fired states after panes) :
    panes = fired.flatMap fun identity =>
      (evaluateGroup spec inputWatermark processingTime (states.lookup identity)).2 := by
  induction h with
  | nil => rfl
  | @cons other fired state states _ panes hLookup hDue hRest ih =>
      have hApart : ∀ identity ∈ fired,
          (settle states other (fireState state spec inputWatermark processingTime).1).lookup
            identity = states.lookup identity := by
        intro identity hMem
        have hNe : identity ≠ other := by
          rintro rfl
          exact not_due_settle (hRest.due_of_mem hMem)
        rw [lookup_settle, if_neg hNe]
      have hPanes : panes = fired.flatMap fun identity =>
          (evaluateGroup spec inputWatermark processingTime (states.lookup identity)).2 := by
        rw [ih]
        exact List.flatMap_congr fun identity hMem => by rw [hApart identity hMem]
      rw [List.flatMap_cons, hLookup, evaluateGroup, if_neg (by rw [hDue]; decide), hPanes]

variable {other : List GroupIdentity} {last : Store GroupIdentity WindowState}
  {panes' : List WindowedValue}

/-- The order in which every due group is fired makes no difference. -/
theorem confluent (h : Fires spec inputWatermark processingTime fired states after panes)
    (hOther : Fires spec inputWatermark processingTime other states last panes')
    (hDone : ∀ identity, ¬ Due after identity) (hOtherDone : ∀ identity, ¬ Due last identity) :
    fired.Perm other ∧ (∀ identity, after.lookup identity = last.lookup identity) ∧
      panes.Perm panes' := by
  have hMem : ∀ identity, identity ∈ fired ↔ identity ∈ other := by
    intro identity
    constructor
    · intro hFired
      by_contra hNot
      exact hOtherDone identity ((hOther.due_iff identity).mpr ⟨h.due_of_mem hFired, hNot⟩)
    · intro hFired
      by_contra hNot
      exact hDone identity ((h.due_iff identity).mpr ⟨hOther.due_of_mem hFired, hNot⟩)
  have hPerm : fired.Perm other := (List.perm_ext_iff_of_nodup h.nodup hOther.nodup).mpr hMem
  refine ⟨hPerm, fun identity => ?_, ?_⟩
  · rw [h.lookup, hOther.lookup]
    simp only [hMem identity]
  · rw [h.panes_eq, hOther.panes_eq]
    exact hPerm.flatMap_right _

end Fires

/-- A scan fires the due groups it passes, and stops early only with a full
batch. -/
theorem scanReady_fires (limit : Nat) (scan : List GroupIdentity)
    (states : Store GroupIdentity WindowState) (output : List WindowedValue) :
    let result := scanReady spec inputWatermark processingTime limit scan states output
    ∃ passed panes, scan = passed ++ result.1 ∧ result.2.2 = output ++ panes ∧
      Fires spec inputWatermark processingTime
        (scanEvaluated spec inputWatermark processingTime limit scan states output) states
        result.2.1 panes ∧
      (∀ identity ∈ passed, ¬ Due result.2.1 identity) ∧
      (result.1 ≠ [] → limit ≤ result.2.2.length) := by
  induction scan generalizing states output with
  | nil =>
      exact ⟨[], [], rfl, (List.append_nil _).symm, .nil, by simp, fun hNe => absurd rfl hNe⟩
  | cons identity scan ih =>
      rw [scanReady, scanEvaluated]
      by_cases hFull : limit ≤ output.length
      · rw [if_pos hFull, if_pos hFull]
        exact ⟨[], [], rfl, (List.append_nil _).symm, .nil, by simp, fun _ => hFull⟩
      rw [if_neg hFull, if_neg hFull]
      cases hLookup : states.lookup identity with
      | none =>
          obtain ⟨passed, panes, hScan, hOutput, hFires, hPassed, hStop⟩ := ih states output
          have hNot : ¬ Due states identity := by
            rintro ⟨_, hSome, -⟩
            rw [hLookup] at hSome
            cases hSome
          exact ⟨identity :: passed, panes, congrArg _ hScan, hOutput, hFires,
            List.forall_mem_cons.mpr ⟨hFires.not_due hNot, hPassed⟩, hStop⟩
      | some state =>
          dsimp only
          cases hEvaluated : state.evaluatedThisRun with
          | true =>
              rw [if_pos rfl, if_pos rfl]
              obtain ⟨passed, panes, hScan, hOutput, hFires, hPassed, hStop⟩ := ih states output
              have hNot : ¬ Due states identity := by
                rintro ⟨_, hSome, hDue⟩
                rw [hLookup] at hSome
                rw [← Option.some.inj hSome, hEvaluated] at hDue
                cases hDue
              exact ⟨identity :: passed, panes, congrArg _ hScan, hOutput, hFires,
                List.forall_mem_cons.mpr ⟨hFires.not_due hNot, hPassed⟩, hStop⟩
          | false =>
              rw [if_neg (by decide), if_neg (by decide)]
              obtain ⟨passed, panes, hScan, hOutput, hFires, hPassed, hStop⟩ := ih
                (settle states identity (fireState state spec inputWatermark processingTime).1)
                (output ++ (fireState state spec inputWatermark processingTime).2.toList)
              rw [List.append_assoc] at hOutput
              exact ⟨identity :: passed, _, congrArg _ hScan, hOutput,
                .cons hLookup hEvaluated hFires,
                List.forall_mem_cons.mpr ⟨hFires.not_due Fires.not_due_settle, hPassed⟩, hStop⟩

/-- A scan under way has every due group still before it. -/
def Covers (inner : InMemoryGbkState) : Prop :=
  ∀ scan, inner.readyScan = some scan → ∀ identity, Due inner.states identity → identity ∈ scan

theorem covers_of_none {inner : InMemoryGbkState} (h : inner.readyScan = none) : Covers inner :=
  fun _ hScan => by
    rw [h] at hScan
    cases hScan

theorem mem_keys_of_due {states : Store GroupIdentity WindowState} {identity : GroupIdentity}
    (h : Due states identity) : identity ∈ states.keys := by
  obtain ⟨state, hLookup, -⟩ := h
  exact AList.lookup_isSome.mp (by rw [hLookup]; rfl)

/-- One round fires the groups up to where the next one resumes; a round that
does not fill its batch has left nothing due. -/
theorem takeReady_fires {inner : InMemoryGbkState} (h : Covers inner)
    {order : List GroupIdentity → List GroupIdentity}
    (hOrder : ∀ identities, (order identities).Perm identities) {limit : Nat} (hLimit : 1 ≤ limit) :
    let result := inner.takeReady order spec inputWatermark processingTime limit
    Fires spec inputWatermark processingTime
        (inner.takeReadyEvaluated spec inputWatermark processingTime order limit) inner.states
        result.1.states result.2 ∧
      Covers result.1 ∧
      (result.2.length < limit → result.1.readyScan = none ∧
        ∀ identity, ¬ Due result.1.states identity) := by
  have hScanned : ∀ identity, Due inner.states identity →
      identity ∈ inner.readyScan.getD (order inner.states.keys) := by
    intro identity hDue
    cases hScan : inner.readyScan with
    | none => exact (hOrder _).mem_iff.mpr (mem_keys_of_due hDue)
    | some scan => exact h scan hScan identity hDue
  obtain ⟨passed, panes, hSplit, hOutput, hFires, hPassed, hStop⟩ := scanReady_fires spec
    inputWatermark processingTime limit (inner.readyScan.getD (order inner.states.keys))
    inner.states []
  rw [takeReady, takeReadyEvaluated, if_neg (by omega), if_neg (by omega)]
  dsimp only
  generalize scanReady spec inputWatermark processingTime limit
    (inner.readyScan.getD (order inner.states.keys)) inner.states [] = result at *
  obtain ⟨remaining, states, output⟩ := result
  dsimp only at *
  rw [List.nil_append] at hOutput
  subst hOutput
  have hAhead : ∀ identity, Due states identity → identity ∈ remaining := by
    intro identity hDue
    have hMem := hScanned identity ((hFires.due_iff identity).mp hDue).1
    rw [hSplit] at hMem
    exact (List.mem_append.mp hMem).resolve_left fun hIn => hPassed identity hIn hDue
  refine ⟨hFires, ?_, fun hShort => ?_⟩
  · intro scan hScan identity hDue
    cases remaining with
    | nil => cases hScan
    | cons first remaining =>
        rw [← Option.some.inj hScan]
        exact hAhead identity hDue
  · cases remaining with
    | nil => exact ⟨rfl, fun identity hDue => absurd (hAhead identity hDue) List.not_mem_nil⟩
    | cons first remaining =>
        have hFull := hStop (List.cons_ne_nil _ _)
        omega

/-- The drain loop ends, having fired every due group. -/
theorem drainChunks_fires {limit : Nat} (hLimit : 1 ≤ limit)
    {orders : Nat → List GroupIdentity → List GroupIdentity}
    (hOrders : ∀ round identities, (orders round identities).Perm identities)
    {fuel : Nat} (round : Nat) {inner : InMemoryGbkState} (h : Covers inner)
    (hFuel : unevaluated inner.states < fuel) :
    ∃ last panes evaluated,
      drainChunks spec inputWatermark processingTime limit orders fuel round inner =
        some (last, panes, evaluated) ∧
      Fires spec inputWatermark processingTime evaluated inner.states last.states panes ∧
      last.readyScan = none ∧ ∀ identity, ¬ Due last.states identity := by
  induction fuel generalizing round inner with
  | zero => cases hFuel
  | succ fuel ih =>
      obtain ⟨hFires, hCovers, hShort⟩ := takeReady_fires spec inputWatermark processingTime h
        (hOrders round) hLimit
      have hLeft := unevaluated_takeReady spec inputWatermark processingTime (orders round) inner
        limit
      rw [drainChunks]
      dsimp only
      generalize inner.takeReady (orders round) spec inputWatermark processingTime limit = result
        at *
      obtain ⟨next, ready⟩ := result
      dsimp only at *
      cases ready with
      | nil => exact ⟨next, [], _, rfl, hFires, hShort hLimit⟩
      | cons pane ready =>
          rw [List.length_cons] at hLeft
          obtain ⟨last, panes, evaluated, hDrain, hLater, hEnd⟩ := ih (round + 1) hCovers
            (by omega)
          rw [if_neg (by simp), hDrain]
          exact ⟨last, _, _, rfl, hFires.append hLater, hEnd⟩

/-- What a drain in chunks and one call without a limit have in common. -/
structure DrainsAlike (calls : List GroupCall) (fed : InMemoryGbkState)
    (drained whole : InMemoryGbkState × List WindowedValue) (evaluated : List GroupIdentity) :
    Prop where
  panes : drained.2.Perm whole.2
  states : ∀ identity, drained.1.states.lookup identity = whole.1.states.lookup identity
  readyScan : drained.1.readyScan = whole.1.readyScan
  once : evaluated.Nodup
  rest : ∀ identity, identity ∈ evaluated ↔
    (fed.states.lookup identity).isSome ∧ ∀ call ∈ calls, call.group.identity ≠ identity

/-- Draining in chunks of any size is draining at once: the loop ends, every
group not handed in during the run is evaluated once, and panes and state are
those of a single call. -/
theorem drainChunks_takeReady (inner : InMemoryGbkState) (calls : List GroupCall)
    {limit unbounded fuel : Nat} (hLimit : 1 ≤ limit)
    {orders : Nat → List GroupIdentity → List GroupIdentity}
    (hOrders : ∀ round identities, (orders round identities).Perm identities)
    {order : List GroupIdentity → List GroupIdentity}
    (hOrder : ∀ identities, (order identities).Perm identities)
    (hUnbounded : (inner.beginRun.applyCalls calls).states.entries.length < unbounded)
    (hFuel : (inner.beginRun.applyCalls calls).states.entries.length < fuel) :
    let fed := inner.beginRun.applyCalls calls
    ∃ last panes evaluated,
      drainChunks spec inputWatermark processingTime limit orders fuel 0 fed =
        some (last, panes, evaluated) ∧
      DrainsAlike calls fed (last, panes)
        (fed.takeReady order spec inputWatermark processingTime unbounded) evaluated := by
  intro fed
  have hCount : unevaluated fed.states ≤ fed.states.entries.length := unevaluated_le_length _
  have hCovers : Covers fed := covers_of_none (readyScan_applyCalls inner.beginRun calls)
  obtain ⟨last, panes, evaluated, hDrain, hFires, hScan, hDone⟩ := drainChunks_fires spec
    inputWatermark processingTime hLimit hOrders 0 hCovers (hCount.trans_lt hFuel)
  obtain ⟨hWhole, -, hShort⟩ := takeReady_fires spec inputWatermark processingTime hCovers hOrder
    (show 1 ≤ unbounded by omega)
  have hLeft := unevaluated_takeReady spec inputWatermark processingTime order fed unbounded
  obtain ⟨hWholeScan, hWholeDone⟩ := hShort
    (((Nat.le_add_left _ _).trans hLeft).trans_lt (hCount.trans_lt hUnbounded))
  obtain ⟨-, hStates, hPanes⟩ := hFires.confluent hWhole hDone hWholeDone
  refine ⟨last, panes, evaluated, hDrain, hPanes, hStates, hScan.trans hWholeScan.symm,
    hFires.nodup, fun identity => ?_⟩
  rw [← due_applyCalls inner calls identity]
  constructor
  · exact hFires.due_of_mem
  · intro hDue
    by_contra hNot
    exact hDone identity ((hFires.due_iff identity).mpr ⟨hDue, hNot⟩)

end Chunks

/-- One element for a group of an always ready trigger. -/
def alwaysCall (key : Bool) : GroupCall where
  group := ⟨.bool key, .interval 0 100, [⟨.primitive (.bool true), 5⟩]⟩
  spec := ⟨.always, .accumulating, .endOfWindow, 1000⟩
  inputWatermark := 10
  processingTime := 0

/-- Two stored groups of an always ready trigger, one handed in again, drained
one pane at a time. -/
theorem drainChunks_takeReady_always :
    let spec : TriggerSpec := ⟨.always, .accumulating, .endOfWindow, 1000⟩
    let fed := ((empty.applyCalls [alwaysCall true, alwaysCall false]).beginRun.applyCalls
      [alwaysCall true])
    ∃ last panes evaluated,
      drainChunks spec 60 0 1 (fun _ => id) 3 0 fed = some (last, panes, evaluated) ∧
      DrainsAlike [alwaysCall true] fed (last, panes) (fed.takeReady id spec 60 0 3) evaluated :=
  drainChunks_takeReady ⟨.always, .accumulating, .endOfWindow, 1000⟩ 60 0
    (empty.applyCalls [alwaysCall true, alwaysCall false]) [alwaysCall true] (by decide)
    (fun _ _ => .refl _) (fun _ => .refl _) (by decide +kernel) (by decide +kernel)

end InMemoryGbkState
end FlareDB
