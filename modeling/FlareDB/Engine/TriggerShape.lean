import FlareDB.Engine.TriggerReadiness

/-! The trigger functions with every index of a state's children checked, and
the shape of the state that keeps each of these indices in bounds. -/
namespace FlareDB

namespace Trigger

mutual

/-- `element`, where an index out of bounds is no answer. -/
def elementChecked (processingTime : Int64) : Trigger → NodeState → Option NodeState
  | .elementCount _, state => some { state with count := state.count + 1 }
  | .afterProcessingTime _, state =>
      some (if state.firstArrival.isNone then { state with firstArrival := some processingTime }
        else state)
  | .afterWatermark early late, state =>
      if !state.firedOnce then elementCheckedOption processingTime early state 0
      else elementCheckedOption processingTime late state 1
  | .afterAll subs, state | .afterAny subs, state | .afterEach subs, state =>
      (elementCheckedAll processingTime subs state.children).map fun children =>
        { state with children }
  | .repeating sub, state => match state.children with
      | first :: rest => (elementChecked processingTime sub first).map fun first =>
          { state with children := first :: rest }
      | [] => some state
  | .orFinally main finally_, state => do
      let first ← state.children[0]?
      let state := setChild state 0 (← elementChecked processingTime main first)
      let second ← state.children[1]?
      return setChild state 1 (← elementChecked processingTime finally_ second)
  | _, state => some state

def elementCheckedOption (processingTime : Int64) :
    Option Trigger → NodeState → Nat → Option NodeState
  | some trigger, state, position => do
      let child ← state.children[position]?
      return setChild state position (← elementChecked processingTime trigger child)
  | none, state, _ => some state

def elementCheckedAll (processingTime : Int64) :
    List Trigger → List NodeState → Option (List NodeState)
  | sub :: subs, state :: states => do
      let state ← elementChecked processingTime sub state
      return state :: (← elementCheckedAll processingTime subs states)
  | _, states => some states

end

mutual

/-- `shouldFire`, where an index out of bounds is no answer. -/
def shouldFireChecked (ctx : TriggerContext) : Trigger → NodeState → Option Bool
  | .afterWatermark early late, state =>
      if !ctx.endOfWindow then shouldFireCheckedOption ctx false early state 0
      else if !state.firedOnce then some true
      else shouldFireCheckedOption ctx true late state 1
  | .afterAll subs, state => shouldFireCheckedAll ctx subs state.children
  | .afterAny subs, state => shouldFireCheckedAny ctx subs state.children
  | .afterEach subs, state =>
      shouldFireCheckedAt ctx subs state.index state.children[state.index]?
  | .repeating sub, state => match state.children with
      | first :: _ => shouldFireChecked ctx sub first
      | [] => some false
  | .orFinally main finally_, state =>
      if state.finished then some false
      else do
        let first ← state.children[0]?
        if ← shouldFireChecked ctx main first then return true
        else
          let second ← state.children[1]?
          shouldFireChecked ctx finally_ second
  | leaf, state => some (shouldFire ctx leaf state)

def shouldFireCheckedOption (ctx : TriggerContext) (missing : Bool) :
    Option Trigger → NodeState → Nat → Option Bool
  | some trigger, state, position => do
      let child ← state.children[position]?
      shouldFireChecked ctx trigger child
  | none, _, _ => some missing

def shouldFireCheckedAll (ctx : TriggerContext) : List Trigger → List NodeState → Option Bool
  | sub :: subs, state :: states => do
      if ← shouldFireChecked ctx sub state then shouldFireCheckedAll ctx subs states
      else return false
  | _, _ => some true

def shouldFireCheckedAny (ctx : TriggerContext) : List Trigger → List NodeState → Option Bool
  | sub :: subs, state :: states => do
      if ← shouldFireChecked ctx sub state then return true
      else shouldFireCheckedAny ctx subs states
  | _, _ => some false

def shouldFireCheckedAt (ctx : TriggerContext) :
    List Trigger → Nat → Option NodeState → Option Bool
  | sub :: _, 0, child => do shouldFireChecked ctx sub (← child)
  | _ :: subs, index + 1, child => shouldFireCheckedAt ctx subs index child
  | [], _, _ => some false

end

mutual

/-- `fire`, where an index out of bounds is no answer. A repeated trigger is
fired before it is replaced. -/
def fireChecked (ctx : TriggerContext) : Trigger → NodeState → Option NodeState
  | .afterWatermark early late, state =>
      if !ctx.endOfWindow then fireCheckedOption ctx early state 0
      else if !state.firedOnce then
        let state := { state with firedOnce := true }
        match early with
        | some early => do
            let _ ← state.children[0]?
            return setChild state 0 (fresh early)
        | none => some state
      else fireCheckedOption ctx late state 1
  | .afterAll subs, state | .afterAny subs, state =>
      (fireCheckedAll ctx subs state.children).map fun children => { state with children }
  | .afterEach subs, state => do
      let state ← fireCheckedAt ctx subs state.index state
      let index := state.index + 1
      return { state with index, finished := state.finished || decide (index ≥ subs.length) }
  | .repeating sub, state => match state.children with
      | first :: rest => do
          let _ ← fireChecked ctx sub first
          return { state with children := fresh sub :: rest }
      | [] => some state
  | .orFinally main finally_, state => do
      let second ← state.children[1]?
      if ← shouldFireChecked ctx finally_ second then return { state with finished := true }
      else
        let first ← state.children[0]?
        return setChild state 0 (← fireChecked ctx main first)
  | leaf, state => some (fire ctx leaf state)

def fireCheckedOption (ctx : TriggerContext) :
    Option Trigger → NodeState → Nat → Option NodeState
  | some trigger, state, position => do
      let child ← state.children[position]?
      return setChild state position (← fireChecked ctx trigger child)
  | none, state, _ => some state

def fireCheckedAll (ctx : TriggerContext) :
    List Trigger → List NodeState → Option (List NodeState)
  | sub :: subs, state :: states => do
      let state ← fireChecked ctx sub state
      return state :: (← fireCheckedAll ctx subs states)
  | _, states => some states

/-- Fire the subtrigger at a position, in the child at the state's own index. -/
def fireCheckedAt (ctx : TriggerContext) : List Trigger → Nat → NodeState → Option NodeState
  | sub :: _, 0, state => do
      let child ← state.children[state.index]?
      return setChild state state.index (← fireChecked ctx sub child)
  | _ :: subs, index + 1, state => fireCheckedAt ctx subs index state
  | [], _, state => some state

end

mutual

/-- A state whose children are those of the trigger. -/
def Mirrors : Trigger → NodeState → Prop
  | .afterWatermark early late, state =>
      ∃ first second, state.children = [first, second] ∧ MirrorsOption early first ∧
        MirrorsOption late second
  | .afterAll subs, state | .afterAny subs, state | .afterEach subs, state =>
      MirrorsAll subs state.children
  | .repeating sub, state => ∃ first, state.children = [first] ∧ Mirrors sub first
  | .orFinally main finally_, state =>
      ∃ first second, state.children = [first, second] ∧ Mirrors main first ∧
        Mirrors finally_ second
  | _, state => state.children = []

def MirrorsOption : Option Trigger → NodeState → Prop
  | some trigger, state => Mirrors trigger state
  | none, state => state.children = []

def MirrorsAll : List Trigger → List NodeState → Prop
  | [], [] => True
  | sub :: subs, state :: states => Mirrors sub state ∧ MirrorsAll subs states
  | _, _ => False

end

/-- A fresh state has the shape of its trigger. -/
theorem mirrors_fresh (trigger : Trigger) : Mirrors trigger (fresh trigger) := by
  induction trigger using ofSubtriggers with
  | step trigger ih =>
      have hOption : ∀ {sub : Option Trigger},
          (∀ trigger ∈ sub, Mirrors trigger (fresh trigger)) →
            MirrorsOption sub (freshOption sub) := by
        intro sub hSub
        cases sub with
        | none => rfl
        | some sub => exact hSub sub rfl
      cases trigger with
      | afterWatermark early late =>
          exact ⟨_, _, rfl, hOption fun sub h => ih sub (by simp_all [subtriggers]),
            hOption fun sub h => ih sub (by simp_all [subtriggers])⟩
      | afterAll subs | afterAny subs | afterEach subs =>
          exact freshAll_of_fresh trivial (fun hSub hRest => ⟨hSub, hRest⟩) ih
      | repeating sub => exact ⟨_, rfl, ih sub (by simp [subtriggers])⟩
      | orFinally main finally_ =>
          exact ⟨_, _, rfl, ih main (by simp [subtriggers]), ih finally_ (by simp [subtriggers])⟩
      | default | never | always | elementCount count | afterProcessingTime delayMillis
      | afterSynchronizedProcessingTime => rfl

/-- Calls of all subtriggers keep their shapes. -/
theorem MirrorsAll.applyAll {f : Trigger → NodeState → NodeState} {subs : List Trigger}
    {states : List NodeState} (h : MirrorsAll subs states)
    (hSubs : ∀ sub ∈ subs, ∀ state, Mirrors sub state → Mirrors sub (f sub state)) :
    MirrorsAll subs (applyAll f subs states) := by
  induction subs generalizing states with
  | nil => exact h
  | cons sub subs ih =>
      cases states with
      | nil => exact h
      | cons state states =>
          obtain ⟨hSub, hRest⟩ := List.forall_mem_cons.mp hSubs
          exact ⟨hSub state h.1, ih h.2 hRest⟩

/-- A trigger has a state at exactly the positions of its subtriggers. -/
theorem MirrorsAll.getElem? {subs : List Trigger} {states : List NodeState}
    (h : MirrorsAll subs states) {index : Nat} {sub : Trigger} (hSub : subs[index]? = some sub) :
    ∃ state, states[index]? = some state ∧ Mirrors sub state := by
  induction subs generalizing states index with
  | nil => cases hSub
  | cons first subs ih =>
      cases states with
      | nil => cases h
      | cons state states =>
          cases index with
          | zero =>
              cases hSub
              exact ⟨state, rfl, h.1⟩
          | succ index => exact ih h.2 hSub

/-- A subtrigger may be replaced by a state of its shape. -/
theorem MirrorsAll.set {subs : List Trigger} {states : List NodeState} (h : MirrorsAll subs states)
    {index : Nat} {sub : Trigger} {next : NodeState} (hSub : subs[index]? = some sub)
    (hNext : Mirrors sub next) : MirrorsAll subs (states.set index next) := by
  induction subs generalizing states index with
  | nil => cases hSub
  | cons first subs ih =>
      cases states with
      | nil => cases h
      | cons state states =>
          cases index with
          | zero =>
              cases hSub
              exact ⟨hNext, h.2⟩
          | succ index => exact ⟨h.1, ih h.2 hSub⟩

theorem MirrorsAll.length {subs : List Trigger} {states : List NodeState}
    (h : MirrorsAll subs states) : subs.length = states.length := by
  induction subs generalizing states with
  | nil =>
      cases states with
      | nil => rfl
      | cons state states => cases h
  | cons sub subs ih =>
      cases states with
      | nil => cases h
      | cons state states => rw [List.length_cons, List.length_cons, ih h.2]

theorem child_of_getElem? {state next : NodeState} {position : Nat}
    (h : state.children[position]? = some next) : child state position = next := by
  simp [child, List.getD_eq_getElem?_getD, h]

theorem setChild_eq_self {state next : NodeState} {position : Nat}
    (h : state.children.set position next = state.children) :
    setChild state position next = state := by
  rw [setChild, h]
  cases state
  rfl

theorem setChild_self {state next : NodeState} {position : Nat}
    (h : state.children[position]? = some next) : setChild state position next = state := by
  obtain ⟨hBound, hNext⟩ := List.getElem?_eq_some_iff.mp h
  refine setChild_eq_self ?_
  rw [← hNext, List.set_getElem_self]

section Element

variable {processingTime : Int64}

/-- The checked call of an optional subtrigger succeeds on its shape. -/
theorem elementCheckedOption_eq {sub : Option Trigger} {state next : NodeState} {position : Nat}
    (hSub : ∀ trigger ∈ sub, ∀ state, Mirrors trigger state →
      elementChecked processingTime trigger state = some (element processingTime trigger state) ∧
        Mirrors trigger (element processingTime trigger state))
    (hChild : state.children[position]? = some next) (h : MirrorsOption sub next) :
    elementCheckedOption processingTime sub state position =
        some (setChild state position (elementOption processingTime sub (child state position))) ∧
      MirrorsOption sub (elementOption processingTime sub next) := by
  rw [child_of_getElem? hChild]
  cases sub with
  | none => exact ⟨by rw [elementOption, setChild_self hChild]; rfl, h⟩
  | some sub =>
      obtain ⟨hChecked, hMirrors⟩ := hSub sub rfl next h
      refine ⟨?_, hMirrors⟩
      simp [elementCheckedOption, elementOption, hChild, hChecked]

/-- So do the checked calls of all. -/
theorem elementCheckedAll_eq {subs : List Trigger} {states : List NodeState}
    (hSubs : ∀ sub ∈ subs, ∀ state, Mirrors sub state →
      elementChecked processingTime sub state = some (element processingTime sub state))
    (h : MirrorsAll subs states) :
    elementCheckedAll processingTime subs states = some (elementAll processingTime subs states) := by
  induction subs generalizing states with
  | nil => cases states <;> rfl
  | cons sub subs ih =>
      cases states with
      | nil => cases h
      | cons state states =>
          obtain ⟨hSub, hRest⟩ := List.forall_mem_cons.mp hSubs
          simp [elementCheckedAll, elementAll, hSub state h.1, ih hRest h.2]

/-- Feeding an element to a state of the trigger's shape indexes no child that
is not there, and keeps the shape. -/
theorem elementChecked_spec (processingTime : Int64) (trigger : Trigger) (state : NodeState)
    (h : Mirrors trigger state) :
    elementChecked processingTime trigger state = some (element processingTime trigger state) ∧
      Mirrors trigger (element processingTime trigger state) := by
  induction trigger using ofSubtriggers generalizing state with
  | step trigger ih =>
      cases trigger with
      | default | never | always | elementCount count | afterSynchronizedProcessingTime =>
          exact ⟨rfl, h⟩
      | afterProcessingTime delayMillis =>
          refine ⟨rfl, ?_⟩
          simp only [element]
          split <;> exact h
      | afterWatermark early late =>
          obtain ⟨first, second, hChildren, hEarly, hLate⟩ := h
          simp only [elementChecked, element]
          cases state.firedOnce with
          | false =>
              have hFirst : state.children[0]? = some first := by rw [hChildren]; rfl
              obtain ⟨hChecked, hMirrors⟩ := elementCheckedOption_eq
                (fun sub hSub => ih sub (by simp_all [subtriggers])) hFirst hEarly
              refine ⟨hChecked, _, second, ?_, hMirrors, hLate⟩
              simp [setChild, child, hChildren]
          | true =>
              have hSecond : state.children[1]? = some second := by rw [hChildren]; rfl
              obtain ⟨hChecked, hMirrors⟩ := elementCheckedOption_eq
                (fun sub hSub => ih sub (by simp_all [subtriggers])) hSecond hLate
              refine ⟨hChecked, first, _, ?_, hEarly, hMirrors⟩
              simp [setChild, child, hChildren]
      | afterAll subs | afterAny subs | afterEach subs =>
          have hChecked : elementCheckedAll processingTime subs state.children =
              some (elementAll processingTime subs state.children) :=
            elementCheckedAll_eq (fun sub hSub state hState => (ih sub hSub state hState).1) h
          simp only [elementChecked, element, hChecked]
          refine ⟨rfl, ?_⟩
          simp only [Mirrors, elementAll_eq]
          exact MirrorsAll.applyAll h fun sub hSub state hState => (ih sub hSub state hState).2
      | repeating sub =>
          obtain ⟨first, hChildren, hFirst⟩ := h
          obtain ⟨hChecked, hMirrors⟩ := ih sub (by simp [subtriggers]) first hFirst
          simp [elementChecked, element, Mirrors, hChildren, hChecked, hMirrors]
      | orFinally main finally_ =>
          obtain ⟨first, second, hChildren, hMain, hFinally⟩ := h
          obtain ⟨hFirst, hMirrorsFirst⟩ := ih main (by simp [subtriggers]) first hMain
          obtain ⟨hSecond, hMirrorsSecond⟩ := ih finally_ (by simp [subtriggers]) second hFinally
          simp [elementChecked, element, Mirrors, setChild, child, hChildren, hFirst, hSecond,
            hMirrorsFirst, hMirrorsSecond]

end Element

section ShouldFire

variable {ctx : TriggerContext}

/-- So does asking all of them. -/
theorem shouldFireCheckedAll_eq {subs : List Trigger} {states : List NodeState}
    (hSubs : ∀ sub ∈ subs, ∀ state, Mirrors sub state →
      shouldFireChecked ctx sub state = some (shouldFire ctx sub state))
    (h : MirrorsAll subs states) :
    shouldFireCheckedAll ctx subs states = some (shouldFireAll ctx subs states) ∧
      shouldFireCheckedAny ctx subs states = some (shouldFireAny ctx subs states) := by
  induction subs generalizing states with
  | nil => cases states <;> exact ⟨rfl, rfl⟩
  | cons sub subs ih =>
      cases states with
      | nil => cases h
      | cons state states =>
          obtain ⟨hSub, hRest⟩ := List.forall_mem_cons.mp hSubs
          obtain ⟨hAll, hAny⟩ := ih hRest h.2
          simp only [shouldFireCheckedAll, shouldFireCheckedAny, shouldFireAll, shouldFireAny,
            hSub state h.1, hAll, hAny]
          cases shouldFire ctx sub state <;> exact ⟨rfl, rfl⟩

/-- Asking the one at an index is asking that subtrigger. -/
theorem shouldFireCheckedAt_eq (subs : List Trigger) (index : Nat) (child : Option NodeState) :
    shouldFireCheckedAt ctx subs index child =
      subs[index]?.elim (some false) fun sub =>
        child.bind fun child => shouldFireChecked ctx sub child := by
  induction subs generalizing index with
  | nil => rfl
  | cons sub subs ih =>
      cases index with
      | zero => rfl
      | succ index => exact ih index

/-- Whether a state of the trigger's shape is ready is answered without an index
out of bounds. -/
theorem shouldFireChecked_eq (trigger : Trigger) (state : NodeState) (h : Mirrors trigger state) :
    shouldFireChecked ctx trigger state = some (shouldFire ctx trigger state) := by
  induction trigger using ofSubtriggers generalizing state with
  | step trigger ih =>
      cases trigger with
      | default | never | always | elementCount count | afterProcessingTime delayMillis
      | afterSynchronizedProcessingTime => rfl
      | afterWatermark early late =>
          obtain ⟨first, second, hChildren, hEarly, hLate⟩ := h
          simp only [shouldFireChecked, shouldFire]
          cases ctx.endOfWindow with
          | false =>
              cases early with
              | none => rfl
              | some early =>
                  have hFirst := ih early (by simp [subtriggers]) first hEarly
                  simpa [shouldFireCheckedOption, shouldFireOption, child, hChildren] using hFirst
          | true =>
              cases state.firedOnce with
              | false => rfl
              | true =>
                  cases late with
                  | none => rfl
                  | some late =>
                      have hSecond := ih late (by simp [subtriggers]) second hLate
                      simpa [shouldFireCheckedOption, shouldFireOption, child, hChildren]
                        using hSecond
      | afterAll subs => exact (shouldFireCheckedAll_eq ih h).1
      | afterAny subs => exact (shouldFireCheckedAll_eq ih h).2
      | afterEach subs =>
          simp only [shouldFireChecked, shouldFire, shouldFireCheckedAt_eq, shouldFireAt_eq]
          cases hSub : subs[state.index]? with
          | none => rfl
          | some sub =>
              obtain ⟨next, hNext, hMirrors⟩ := MirrorsAll.getElem? h hSub
              rw [hNext, child_of_getElem? hNext]
              exact ih sub (List.mem_of_getElem? hSub) next hMirrors
      | repeating sub =>
          obtain ⟨first, hChildren, hFirst⟩ := h
          simp only [shouldFireChecked, shouldFire, hChildren]
          exact ih sub (by simp [subtriggers]) first hFirst
      | orFinally main finally_ =>
          obtain ⟨first, second, hChildren, hMain, hFinally⟩ := h
          have hFirst := ih main (by simp [subtriggers]) first hMain
          have hSecond := ih finally_ (by simp [subtriggers]) second hFinally
          simp only [shouldFireChecked, shouldFire, child, hChildren]
          cases state.finished with
          | true => rfl
          | false =>
              simp only [List.getElem?_cons_zero, List.getElem?_cons_succ, Option.bind_eq_bind,
                Option.bind_some, hFirst, hSecond, List.getD_cons_zero, List.getD_cons_succ]
              cases shouldFire ctx main first <;> rfl

end ShouldFire

section Fire

variable {ctx : TriggerContext}

/-- Firing an optional subtrigger succeeds on its shape. -/
theorem fireCheckedOption_eq {sub : Option Trigger} {state next : NodeState} {position : Nat}
    (hSub : ∀ trigger ∈ sub, ∀ state, Mirrors trigger state →
      fireChecked ctx trigger state = some (fire ctx trigger state) ∧
        Mirrors trigger (fire ctx trigger state))
    (hChild : state.children[position]? = some next) (h : MirrorsOption sub next) :
    fireCheckedOption ctx sub state position =
        some (setChild state position (fireOption ctx sub (child state position))) ∧
      MirrorsOption sub (fireOption ctx sub next) := by
  rw [child_of_getElem? hChild]
  cases sub with
  | none => exact ⟨by rw [fireOption, setChild_self hChild]; rfl, h⟩
  | some sub =>
      obtain ⟨hChecked, hMirrors⟩ := hSub sub rfl next h
      refine ⟨?_, hMirrors⟩
      simp [fireCheckedOption, fireOption, hChild, hChecked]

/-- So does firing all of them. -/
theorem fireCheckedAll_eq {subs : List Trigger} {states : List NodeState}
    (hSubs : ∀ sub ∈ subs, ∀ state, Mirrors sub state →
      fireChecked ctx sub state = some (fire ctx sub state))
    (h : MirrorsAll subs states) :
    fireCheckedAll ctx subs states = some (fireAll ctx subs states) := by
  induction subs generalizing states with
  | nil => cases states <;> rfl
  | cons sub subs ih =>
      cases states with
      | nil => cases h
      | cons state states =>
          obtain ⟨hSub, hRest⟩ := List.forall_mem_cons.mp hSubs
          simp [fireCheckedAll, fireAll, hSub state h.1, ih hRest h.2]

/-- Firing the one at an index is firing that subtrigger. -/
theorem fireCheckedAt_eq (subs : List Trigger) (index : Nat) (state : NodeState) :
    fireCheckedAt ctx subs index state =
      subs[index]?.elim (some state) fun sub =>
        state.children[state.index]?.bind fun child =>
          (fireChecked ctx sub child).map (setChild state state.index) := by
  induction subs generalizing index with
  | nil => rfl
  | cons sub subs ih =>
      cases index with
      | zero =>
          rw [fireCheckedAt, List.getElem?_cons_zero, Option.elim_some]
          refine Option.bind_congr fun child _ => ?_
          rw [Option.map_eq_bind]
          rfl
      | succ index => exact ih index

theorem fireAt_eq (subs : List Trigger) (index : Nat) (state : NodeState) :
    fireAt ctx subs index state =
      subs[index]?.elim state fun sub => fire ctx sub state := by
  induction subs generalizing index with
  | nil => rfl
  | cons sub subs ih =>
      cases index with
      | zero => rfl
      | succ index => exact ih index

/-- Firing a state of the trigger's shape indexes no child that is not there,
and keeps the shape. -/
theorem fireChecked_spec (ctx : TriggerContext) (trigger : Trigger) (state : NodeState)
    (h : Mirrors trigger state) :
    fireChecked ctx trigger state = some (fire ctx trigger state) ∧
      Mirrors trigger (fire ctx trigger state) := by
  induction trigger using ofSubtriggers generalizing state with
  | step trigger ih =>
      cases trigger with
      | default | never | always | elementCount count | afterProcessingTime delayMillis
      | afterSynchronizedProcessingTime => exact ⟨rfl, h⟩
      | afterWatermark early late =>
          obtain ⟨first, second, hChildren, hEarly, hLate⟩ := h
          have hFirst : state.children[0]? = some first := by rw [hChildren]; rfl
          have hSecond : state.children[1]? = some second := by rw [hChildren]; rfl
          simp only [fireChecked, fire]
          cases ctx.endOfWindow with
          | false =>
              obtain ⟨hChecked, hMirrors⟩ := fireCheckedOption_eq
                (fun sub hSub => ih sub (by simp_all [subtriggers])) hFirst hEarly
              refine ⟨hChecked, _, second, ?_, hMirrors, hLate⟩
              simp [setChild, child, hChildren]
          | true =>
              cases state.firedOnce with
              | false =>
                  cases early with
                  | none => exact ⟨rfl, first, second, hChildren, hEarly, hLate⟩
                  | some early =>
                      refine ⟨by simp [hFirst], fresh early, second, ?_, mirrors_fresh early, hLate⟩
                      simp [setChild, hChildren]
              | true =>
                  obtain ⟨hChecked, hMirrors⟩ := fireCheckedOption_eq
                    (fun sub hSub => ih sub (by simp_all [subtriggers])) hSecond hLate
                  refine ⟨hChecked, first, _, ?_, hEarly, hMirrors⟩
                  simp [setChild, child, hChildren]
      | afterAll subs | afterAny subs =>
          have hChecked : fireCheckedAll ctx subs state.children =
              some (fireAll ctx subs state.children) :=
            fireCheckedAll_eq (fun sub hSub state hState => (ih sub hSub state hState).1) h
          simp only [fireChecked, fire, hChecked]
          refine ⟨rfl, ?_⟩
          simp only [Mirrors, fireAll_eq]
          exact MirrorsAll.applyAll h fun sub hSub state hState => (ih sub hSub state hState).2
      | afterEach subs =>
          simp only [fireChecked, fire, fireCheckedAt_eq, fireAt_eq]
          cases hSub : subs[state.index]? with
          | none =>
              have hPast : state.children.length ≤ state.index := by
                rw [← MirrorsAll.length h]
                exact List.getElem?_eq_none_iff.mp hSub
              have hSame : setChild state state.index (child state state.index) = state :=
                setChild_eq_self (List.set_eq_of_length_le hPast)
              simp only [Option.elim_none, hSame]
              exact ⟨rfl, h⟩
          | some sub =>
              obtain ⟨next, hNext, hMirrors⟩ := MirrorsAll.getElem? h hSub
              obtain ⟨hChecked, hFired⟩ := ih sub (List.mem_of_getElem? hSub) next hMirrors
              simp only [Option.elim_some, hNext, child_of_getElem? hNext, Option.bind_some,
                hChecked]
              exact ⟨rfl, MirrorsAll.set h hSub hFired⟩
      | repeating sub =>
          obtain ⟨first, hChildren, hFirst⟩ := h
          obtain ⟨hChecked, _⟩ := ih sub (by simp [subtriggers]) first hFirst
          simp [fireChecked, fire, Mirrors, hChildren, hChecked, mirrors_fresh]
      | orFinally main finally_ =>
          obtain ⟨first, second, hChildren, hMain, hFinally⟩ := h
          obtain ⟨hChecked, hMirrors⟩ := ih main (by simp [subtriggers]) first hMain
          have hReady : shouldFireChecked ctx finally_ second =
              some (shouldFire ctx finally_ second) := shouldFireChecked_eq finally_ second hFinally
          simp only [fireChecked, fire, child, hChildren, List.getElem?_cons_zero,
            List.getElem?_cons_succ, Option.bind_eq_bind, Option.bind_some, hReady,
            List.getD_cons_zero, List.getD_cons_succ, hChecked]
          cases shouldFire ctx finally_ second with
          | true => exact ⟨by simp, first, second, by simp, hMain, hFinally⟩
          | false =>
              refine ⟨rfl, fire ctx main first, second, ?_, hMirrors, hFinally⟩
              simp [setChild, hChildren]

end Fire

/-- What a finished root means: it is a sequence past its last subtrigger, or a
trigger ended by another. No other trigger finishes. -/
def EndReached : Trigger → NodeState → Prop
  | .afterEach subs, state => state.finished = true → subs.length ≤ state.index
  | .orFinally _ _, _ => True
  | _, state => state.finished = false

/-- A fresh state is not finished before its end. -/
theorem endReached_fresh (trigger : Trigger) : EndReached trigger (fresh trigger) := by
  cases trigger with
  | afterEach subs => exact fun h => by cases h
  | orFinally main finally_ => trivial
  | default | never | always | elementCount count | afterProcessingTime delayMillis
  | afterSynchronizedProcessingTime | afterWatermark early late | afterAll subs | afterAny subs
  | repeating sub => rfl

/-- An element changes neither the end of a trigger nor how far it has come. -/
theorem element_finished (processingTime : Int64) (trigger : Trigger) (state : NodeState) :
    (element processingTime trigger state).finished = state.finished ∧
      (element processingTime trigger state).index = state.index := by
  cases trigger with
  | default | never | always | elementCount count | afterSynchronizedProcessingTime
  | afterAll subs | afterAny subs | afterEach subs | orFinally main finally_ => exact ⟨rfl, rfl⟩
  | afterProcessingTime delayMillis | afterWatermark early late =>
      simp only [element]
      split <;> exact ⟨rfl, rfl⟩
  | repeating sub =>
      simp only [element]
      cases state.children <;> exact ⟨rfl, rfl⟩

/-- An element does not finish a trigger before its end. -/
theorem EndReached.element {trigger : Trigger} {state : NodeState} (h : EndReached trigger state)
    (processingTime : Int64) : EndReached trigger (trigger.element processingTime state) := by
  obtain ⟨hFinished, hIndex⟩ := element_finished processingTime trigger state
  cases trigger <;> simp only [EndReached, hFinished, hIndex] at h ⊢ <;> exact h

/-- Nor does a firing, and what is finished stays so. -/
theorem EndReached.fire {trigger : Trigger} {state : NodeState} (h : EndReached trigger state)
    (ctx : TriggerContext) : EndReached trigger (trigger.fire ctx state) ∧
      (state.finished = true → (trigger.fire ctx state).finished = true) := by
  cases trigger with
  | default | never | always | elementCount count | afterProcessingTime delayMillis
  | afterSynchronizedProcessingTime | afterAll subs | afterAny subs => exact ⟨h, id⟩
  | afterWatermark early late =>
      have hKept : (Trigger.fire ctx (.afterWatermark early late) state).finished =
          state.finished := by
        simp only [Trigger.fire]
        split
        · rfl
        · split
          · cases early <;> rfl
          · rfl
      exact ⟨hKept.trans h, fun hFinished => hKept.trans hFinished⟩
  | repeating sub =>
      have hKept : (Trigger.fire ctx (.repeating sub) state).finished = state.finished := by
        simp only [Trigger.fire]
        cases state.children <;> rfl
      exact ⟨hKept.trans h, fun hFinished => hKept.trans hFinished⟩
  | afterEach subs =>
      refine ⟨fun hFinished => ?_, fun hFinished => ?_⟩
      · simp only [Trigger.fire, finished_setChild, Bool.or_eq_true, decide_eq_true_eq] at hFinished
        simp only [Trigger.fire]
        exact hFinished.elim (fun hBefore => Nat.le_succ_of_le (h hBefore)) id
      · simp [Trigger.fire, hFinished]
  | orFinally main finally_ =>
      refine ⟨trivial, fun hFinished => ?_⟩
      simp only [Trigger.fire]
      split
      · rfl
      · exact hFinished

/-- A finished trigger asks for no pane. -/
theorem shouldFire_of_finished {trigger : Trigger} {state : NodeState}
    (h : EndReached trigger state) (hFinished : state.finished = true) (ctx : TriggerContext) :
    shouldFire ctx trigger state = false := by
  cases trigger with
  | afterEach subs =>
      rw [shouldFire, shouldFireAt_eq, List.getElem?_eq_none (h hFinished)]
      rfl
  | orFinally main finally_ => simp [shouldFire, hFinished]
  | default | never | always | elementCount count | afterProcessingTime delayMillis
  | afterSynchronizedProcessingTime | afterWatermark early late | afterAll subs | afterAny subs
  | repeating sub => exact absurd (h.symm.trans hFinished) Bool.false_ne_true

end Trigger

/-- A call on a trigger runner. -/
inductive TriggerCall where
  | onElement (processingTime : Int64)
  | shouldFire (ctx : TriggerContext)
  | onFire (ctx : TriggerContext)

namespace TriggerRunner

variable (runner : TriggerRunner)

/-- Whether the trigger has finished and will never fire again. -/
def isFinished : Bool :=
  runner.state.finished

def call : TriggerCall → TriggerRunner
  | .onElement processingTime => runner.onElement processingTime
  | .shouldFire _ => runner
  | .onFire ctx => runner.onFire ctx

def shouldFireChecked (ctx : TriggerContext) : Option Bool :=
  runner.trigger.shouldFireChecked ctx runner.state

/-- A call that fails when it indexes a child that is not there. -/
def callChecked : TriggerCall → Option TriggerRunner
  | .onElement processingTime =>
      (runner.trigger.elementChecked processingTime runner.state).map fun state =>
        { runner with state }
  | .shouldFire ctx => (runner.shouldFireChecked ctx).map fun _ => runner
  | .onFire ctx =>
      (runner.trigger.fireChecked ctx runner.state).map fun state => { runner with state }

/-- A runner whose state has the shape of its trigger, and whose end is final. -/
structure Sound : Prop where
  mirrors : runner.trigger.Mirrors runner.state
  endReached : runner.trigger.EndReached runner.state

variable {runner}

theorem sound_new (trigger : Trigger) : (new trigger).Sound :=
  ⟨trigger.mirrors_fresh, trigger.endReached_fresh⟩

/-- What one call does: it indexes only children that are there, and neither the
trigger, nor the shape of the state, nor an end is lost. -/
theorem Sound.call (h : runner.Sound) (call : TriggerCall) :
    runner.callChecked call = some (runner.call call) ∧ (runner.call call).Sound ∧
      (runner.call call).trigger = runner.trigger ∧
      (runner.isFinished = true → (runner.call call).isFinished = true) := by
  cases call with
  | onElement processingTime =>
      obtain ⟨hChecked, hMirrors⟩ :=
        Trigger.elementChecked_spec processingTime _ _ h.mirrors
      refine ⟨by rw [callChecked, hChecked]; rfl, ⟨hMirrors, h.endReached.element _⟩, rfl, ?_⟩
      exact fun hFinished => (Trigger.element_finished _ _ _).1.trans hFinished
  | shouldFire ctx =>
      refine ⟨?_, h, rfl, id⟩
      rw [callChecked, shouldFireChecked, Trigger.shouldFireChecked_eq _ _ h.mirrors]
      rfl
  | onFire ctx =>
      obtain ⟨hChecked, hMirrors⟩ := Trigger.fireChecked_spec ctx _ _ h.mirrors
      obtain ⟨hEnd, hFinished⟩ := h.endReached.fire ctx
      exact ⟨by rw [callChecked, hChecked]; rfl, ⟨hMirrors, hEnd⟩, rfl, hFinished⟩

/-- The checked calls all succeed, and what they leave is sound. -/
theorem Sound.calls (h : runner.Sound) (calls : List TriggerCall) :
    calls.foldlM callChecked runner = some (calls.foldl TriggerRunner.call runner) ∧
      (calls.foldl TriggerRunner.call runner).Sound ∧
      (calls.foldl TriggerRunner.call runner).trigger = runner.trigger ∧
      (runner.isFinished = true → (calls.foldl TriggerRunner.call runner).isFinished = true) := by
  induction calls generalizing runner with
  | nil => exact ⟨rfl, h, rfl, id⟩
  | cons call rest ih =>
      obtain ⟨hChecked, hSound, hTrigger, hFinished⟩ := h.call call
      obtain ⟨hRest, hEnd, hKept, hStays⟩ := ih hSound
      rw [List.foldlM_cons, hChecked, List.foldl_cons]
      exact ⟨hRest, hEnd, hKept.trans hTrigger, fun h => hStays (hFinished h)⟩

/-- Whatever a parsed trigger is asked, every index of a child is in bounds, its
state keeps the shape of the trigger, and once it has finished it stays so and
is never ready. -/
theorem calls_mirror (proto : Option TriggerProto) (calls : List TriggerCall) :
    calls.foldlM callChecked (new (Trigger.fromProto proto)) =
        some (calls.foldl call (new (Trigger.fromProto proto))) ∧
      (Trigger.fromProto proto).Mirrors (calls.foldl call (new (Trigger.fromProto proto))).state ∧
      ∀ later, (calls.foldl call (new (Trigger.fromProto proto))).isFinished = true →
        ((calls ++ later).foldl call (new (Trigger.fromProto proto))).isFinished = true ∧
          ∀ ctx, ((calls ++ later).foldl call
            (new (Trigger.fromProto proto))).shouldFireChecked ctx = some false := by
  have hNew := sound_new (Trigger.fromProto proto)
  obtain ⟨hChecked, hSound, hTrigger, _⟩ := hNew.calls calls
  refine ⟨hChecked, ?_, fun later hFinished => ?_⟩
  · have hMirrors := hSound.mirrors
    rwa [hTrigger] at hMirrors
  · obtain ⟨_, hLater, _, hStays⟩ := hSound.calls later
    rw [List.foldl_append]
    refine ⟨hStays hFinished, fun ctx => ?_⟩
    rw [shouldFireChecked, Trigger.shouldFireChecked_eq _ _ hLater.mirrors,
      Trigger.shouldFire_of_finished hLater.endReached (hStays hFinished)]

/-- Two elements, and after them the first of two triggers of which one is nested
twice. -/
def elementsThenAny : TriggerProto :=
  .afterEach [.elementCount 2, .afterAny [.never, .afterAll [.elementCount 1, .always]]]

/-- It fires for the first two elements and for the one after them. -/
def elementsThenAnyCalls : List TriggerCall :=
  [.onElement 5, .onElement 6, .shouldFire ⟨false, false, 6⟩, .onFire ⟨false, false, 6⟩,
    .onElement 7, .shouldFire ⟨false, false, 7⟩, .onFire ⟨false, false, 7⟩]

/-- The trigger fires twice, has finished then, and is never ready again. -/
theorem calls_mirror_elementsThenAny :
    let start := new (Trigger.fromProto (some elementsThenAny))
    ((elementsThenAnyCalls.take 2).foldl call start).shouldFireChecked ⟨false, false, 6⟩ =
        some true ∧
      ((elementsThenAnyCalls.take 5).foldl call start).shouldFireChecked ⟨false, false, 7⟩ =
        some true ∧
      elementsThenAnyCalls.foldlM callChecked start = some (elementsThenAnyCalls.foldl call start) ∧
      (elementsThenAnyCalls.foldl call start).isFinished = true ∧
      ((elementsThenAnyCalls ++ [TriggerCall.onElement 8]).foldl call start).shouldFireChecked
        ⟨true, true, 9⟩ = some false := by
  intro start
  have hFinished : (elementsThenAnyCalls.foldl call start).isFinished = true := by decide +kernel
  obtain ⟨hChecked, _, hStays⟩ := calls_mirror (some elementsThenAny) elementsThenAnyCalls
  refine ⟨by decide +kernel, by decide +kernel, hChecked, hFinished, ?_⟩
  exact (hStays [.onElement 8] hFinished).2 ⟨true, true, 9⟩

end TriggerRunner

end FlareDB
