import FlareDB.Engine.TriggerProto

/-! A trigger that is ready stays ready until it is fired, whatever elements
arrive and however the context advances. -/
namespace FlareDB

namespace Trigger

/-- The triggers a trigger evaluates. -/
def subtriggers : Trigger → List Trigger
  | .afterWatermark early late => early.toList ++ late.toList
  | .afterAll subs | .afterAny subs | .afterEach subs => subs
  | .repeating sub => [sub]
  | .orFinally main finally_ => [main, finally_]
  | _ => []

mutual

/-- What holds of a trigger whenever it holds of its subtriggers holds of every
trigger. -/
theorem ofSubtriggers {P : Trigger → Prop}
    (step : ∀ trigger, (∀ sub ∈ trigger.subtriggers, P sub) → P trigger) : ∀ trigger, P trigger
  | .default | .never | .always | .elementCount _ | .afterProcessingTime _
  | .afterSynchronizedProcessingTime => step _ (fun _ h => by cases h)
  | .afterWatermark early late => step _ (fun sub h => (List.mem_append.mp h).elim
      (fun h => ofSubtriggersOption step early sub (Option.mem_toList.mp h))
      (fun h => ofSubtriggersOption step late sub (Option.mem_toList.mp h)))
  | .afterAll subs | .afterAny subs | .afterEach subs => step _ (ofSubtriggersAll step subs)
  | .repeating sub => step _ (fun other h => by
      cases List.mem_singleton.mp h
      exact ofSubtriggers step sub)
  | .orFinally main finally_ => step _ (fun other h => by
      simp only [subtriggers, List.mem_cons, List.not_mem_nil, or_false] at h
      cases h with
      | inl h => exact h ▸ ofSubtriggers step main
      | inr h => exact h ▸ ofSubtriggers step finally_)

theorem ofSubtriggersOption {P : Trigger → Prop}
    (step : ∀ trigger, (∀ sub ∈ trigger.subtriggers, P sub) → P trigger) :
    ∀ (sub : Option Trigger), ∀ trigger ∈ sub, P trigger
  | some sub, trigger, h => by
      cases Option.mem_some_iff.mp h
      exact ofSubtriggers step sub
  | none, _, h => by cases h

theorem ofSubtriggersAll {P : Trigger → Prop}
    (step : ∀ trigger, (∀ sub ∈ trigger.subtriggers, P sub) → P trigger) :
    ∀ (subs : List Trigger), ∀ trigger ∈ subs, P trigger
  | [], _, h => by cases h
  | sub :: subs, trigger, h => (List.mem_cons.mp h).elim
      (fun h => h ▸ ofSubtriggers step sub) (ofSubtriggersAll step subs trigger)

end

/-- A child that is replaced is the new one, unless the state has no such child
and nothing is replaced. -/
theorem child_setChild {P : NodeState → Prop} {state next : NodeState} {position : Nat}
    (hNext : P next) (hOld : P (child state position)) :
    P (child (setChild state position next) position) := by
  by_cases hBound : position < state.children.length
  · simpa [child, setChild, hBound] using hNext
  · rw [setChild, List.set_eq_of_length_le (Nat.le_of_not_lt hBound)]
    exact hOld

@[simp] theorem child_setChild_ne {state next : NodeState} {position other : Nat}
    (hNe : position ≠ other) : child (setChild state position next) other = child state other := by
  simp [child, setChild, List.getD_eq_getElem?_getD, List.getElem?_set_ne hNe]

theorem children_setChild {P Q : NodeState → Prop} {state first second : NodeState}
    (hFirst : P first) (hSecond : Q second) (hMain : P (child state 0))
    (hFinally : Q (child state 1)) :
    P (child (setChild (setChild state 0 first) 1 second) 0) ∧
      Q (child (setChild (setChild state 0 first) 1 second) 1) := by
  constructor
  · rw [child_setChild_ne Nat.one_ne_zero]
    exact child_setChild hFirst hMain
  · refine child_setChild hSecond ?_
    rwa [child_setChild_ne Nat.zero_ne_one]

@[simp] theorem firedOnce_setChild (state next : NodeState) (position : Nat) :
    (setChild state position next).firedOnce = state.firedOnce := rfl

@[simp] theorem finished_setChild (state next : NodeState) (position : Nat) :
    (setChild state position next).finished = state.finished := rfl

/-- Apply a function to the states of the subtriggers that have one. -/
def applyAll (f : Trigger → NodeState → NodeState) : List Trigger → List NodeState →
    List NodeState
  | sub :: subs, state :: states => f sub state :: applyAll f subs states
  | _, states => states

theorem elementAll_eq (processingTime : Int64) (subs : List Trigger) (states : List NodeState) :
    elementAll processingTime subs states = applyAll (element processingTime) subs states := by
  induction subs generalizing states with
  | nil => rfl
  | cons sub subs ih =>
      cases states with
      | nil => rfl
      | cons state states => exact congrArg _ (ih states)

theorem fireAll_eq (ctx : TriggerContext) (subs : List Trigger) (states : List NodeState) :
    fireAll ctx subs states = applyAll (fire ctx) subs states := by
  induction subs generalizing states with
  | nil => rfl
  | cons sub subs ih =>
      cases states with
      | nil => rfl
      | cons state states => exact congrArg _ (ih states)

@[simp] theorem length_applyAll (f : Trigger → NodeState → NodeState) (subs : List Trigger)
    (states : List NodeState) : (applyAll f subs states).length = states.length := by
  induction subs generalizing states with
  | nil => rfl
  | cons sub subs ih =>
      cases states with
      | nil => rfl
      | cons state states => simp [applyAll, ih]

theorem zip_applyAll (f : Trigger → NodeState → NodeState) (subs : List Trigger)
    (states : List NodeState) :
    subs.zip (applyAll f subs states) =
      (subs.zip states).map fun entry => (entry.1, f entry.1 entry.2) := by
  induction subs generalizing states with
  | nil => rfl
  | cons sub subs ih =>
      cases states with
      | nil => rfl
      | cons state states => simp [applyAll, ih]

/-- The child at the position of a subtrigger is the one the function gives,
unless there is no such child. -/
theorem getD_applyAll {P : NodeState → Prop} {f : Trigger → NodeState → NodeState}
    {subs : List Trigger} {states : List NodeState} {index : Nat} {sub : Trigger}
    (hSub : subs[index]? = some sub) (hNew : P (f sub (states.getD index {})))
    (hOld : P (states.getD index {})) : P ((applyAll f subs states).getD index {}) := by
  induction subs generalizing states index with
  | nil => cases hSub
  | cons first subs ih =>
      cases states with
      | nil => exact hOld
      | cons state states =>
          cases index with
          | zero =>
              cases hSub
              exact hNew
          | succ index => exact ih hSub hNew hOld

/-- All subtriggers are ready when each is. -/
theorem shouldFireAll_iff (ctx : TriggerContext) (subs : List Trigger)
    (states : List NodeState) :
    shouldFireAll ctx subs states = true ↔
      ∀ entry ∈ subs.zip states, shouldFire ctx entry.1 entry.2 = true := by
  induction subs generalizing states with
  | nil => simp [shouldFireAll]
  | cons sub subs ih =>
      cases states with
      | nil => simp [shouldFireAll]
      | cons state states => simp [shouldFireAll, ih]

/-- One is ready when some subtrigger is. -/
theorem shouldFireAny_iff (ctx : TriggerContext) (subs : List Trigger)
    (states : List NodeState) :
    shouldFireAny ctx subs states = true ↔
      ∃ entry ∈ subs.zip states, shouldFire ctx entry.1 entry.2 = true := by
  induction subs generalizing states with
  | nil => simp [shouldFireAny]
  | cons sub subs ih =>
      cases states with
      | nil => simp [shouldFireAny]
      | cons state states => simp [shouldFireAny, ih]

/-- The one at an index decides. -/
theorem shouldFireAt_eq (ctx : TriggerContext) (subs : List Trigger) (index : Nat)
    (state : NodeState) :
    shouldFireAt ctx subs index state =
      (subs[index]?.map fun sub => shouldFire ctx sub state).getD false := by
  induction subs generalizing index with
  | nil => rfl
  | cons sub subs ih =>
      cases index with
      | zero => rfl
      | succ index => exact ih index

end Trigger

/-- A context that some later evaluation can have: the window may have ended or
expired, and processing time has not gone back. -/
structure TriggerContext.Precedes (ctx later : TriggerContext) : Prop where
  endOfWindow : ctx.endOfWindow = true → later.endOfWindow = true
  expired : ctx.expired = true → later.expired = true
  processingTime : ctx.processingTime ≤ later.processingTime

namespace Trigger

mutual

/-- No part of the trigger that is evaluated before the end of the window has
fired its on-time pane. -/
def BeforeOnTime : Trigger → NodeState → Prop
  | .afterWatermark early _, state =>
      state.firedOnce = false ∧ BeforeOnTimeOption early (child state 0)
  | .afterAll subs, state | .afterAny subs, state | .afterEach subs, state =>
      BeforeOnTimeAll subs state.children
  | .repeating sub, state => match state.children with
      | first :: _ => BeforeOnTime sub first
      | [] => True
  | .orFinally main finally_, state =>
      BeforeOnTime main (child state 0) ∧ BeforeOnTime finally_ (child state 1)
  | _, _ => True

def BeforeOnTimeOption : Option Trigger → NodeState → Prop
  | some trigger, state => BeforeOnTime trigger state
  | none, _ => True

def BeforeOnTimeAll : List Trigger → List NodeState → Prop
  | sub :: subs, state :: states => BeforeOnTime sub state ∧ BeforeOnTimeAll subs states
  | _, _ => True

end

/-- All subtriggers are before the on-time firing when each is. -/
theorem beforeOnTimeAll_iff (subs : List Trigger) (states : List NodeState) :
    BeforeOnTimeAll subs states ↔ ∀ entry ∈ subs.zip states, BeforeOnTime entry.1 entry.2 := by
  induction subs generalizing states with
  | nil => simp [BeforeOnTimeAll]
  | cons sub subs ih =>
      cases states with
      | nil => simp [BeforeOnTimeAll]
      | cons state states => simp [BeforeOnTimeAll, ih]

/-- Calls that keep each of them before it keep them all. -/
theorem beforeOnTimeAll_applyAll {f : Trigger → NodeState → NodeState} {subs : List Trigger}
    {states : List NodeState}
    (hSubs : ∀ sub ∈ subs, ∀ state, BeforeOnTime sub state → BeforeOnTime sub (f sub state))
    (h : BeforeOnTimeAll subs states) : BeforeOnTimeAll subs (applyAll f subs states) := by
  rw [beforeOnTimeAll_iff] at h ⊢
  rw [zip_applyAll, List.forall_mem_map]
  intro entry hEntry
  exact hSubs entry.1 (List.of_mem_zip hEntry).1 entry.2 (h entry hEntry)

theorem beforeOnTime_empty (trigger : Trigger) : BeforeOnTime trigger {} := by
  induction trigger using ofSubtriggers with
  | step trigger ih =>
      cases trigger with
      | afterWatermark early late =>
          refine ⟨rfl, ?_⟩
          cases early with
          | none => trivial
          | some early => exact ih early (by simp [subtriggers])
      | afterAll subs | afterAny subs | afterEach subs => cases subs <;> trivial
      | orFinally main finally_ =>
          exact ⟨ih main (by simp [subtriggers]), ih finally_ (by simp [subtriggers])⟩
      | repeating sub => trivial
      | default | never | always | elementCount count | afterProcessingTime delayMillis
      | afterSynchronizedProcessingTime => trivial

theorem BeforeOnTimeAll.getD {subs : List Trigger} {states : List NodeState}
    (h : BeforeOnTimeAll subs states) {index : Nat} {sub : Trigger}
    (hSub : subs[index]? = some sub) : BeforeOnTime sub (states.getD index {}) := by
  induction subs generalizing states index with
  | nil => cases hSub
  | cons first subs ih =>
      cases states with
      | nil => exact beforeOnTime_empty sub
      | cons state states =>
          cases index with
          | zero =>
              cases hSub
              exact h.1
          | succ index => exact ih h.2 hSub

/-- What holds of the fresh states of some triggers one by one, holds of them
together. -/
theorem freshAll_of_fresh {P : Trigger → NodeState → Prop} {Q : List Trigger → List NodeState → Prop}
    (hNil : Q [] []) (hCons : ∀ {sub state subs states}, P sub state → Q subs states →
      Q (sub :: subs) (state :: states)) {subs : List Trigger}
    (h : ∀ sub ∈ subs, P sub (fresh sub)) : Q subs (freshAll subs) := by
  induction subs with
  | nil => exact hNil
  | cons sub subs ih =>
      obtain ⟨hSub, hRest⟩ := List.forall_mem_cons.mp h
      exact hCons hSub (ih hRest)

/-- A fresh trigger is before its on-time firing. -/
theorem beforeOnTime_fresh (trigger : Trigger) : BeforeOnTime trigger (fresh trigger) := by
  induction trigger using ofSubtriggers with
  | step trigger ih =>
      cases trigger with
      | afterWatermark early late =>
          refine ⟨rfl, ?_⟩
          cases early with
          | none => trivial
          | some early => exact ih early (by simp [subtriggers])
      | afterAll subs | afterAny subs | afterEach subs =>
          exact freshAll_of_fresh trivial (fun hSub hRest => ⟨hSub, hRest⟩) ih
      | repeating sub => exact ih sub (by simp [subtriggers])
      | orFinally main finally_ =>
          exact ⟨ih main (by simp [subtriggers]), ih finally_ (by simp [subtriggers])⟩
      | default | never | always | elementCount count | afterProcessingTime delayMillis
      | afterSynchronizedProcessingTime => trivial

/-- An element does not bring the on-time firing about. -/
theorem beforeOnTime_element (processingTime : Int64) (trigger : Trigger) (state : NodeState)
    (h : BeforeOnTime trigger state) :
    BeforeOnTime trigger (element processingTime trigger state) := by
  induction trigger using ofSubtriggers generalizing state with
  | step trigger ih =>
      cases trigger with
      | afterWatermark early late =>
          obtain ⟨hFired, hEarly⟩ := h
          simp only [element, hFired, Bool.not_false, if_true]
          refine ⟨hFired, child_setChild ?_ hEarly⟩
          cases early with
          | none => trivial
          | some early => exact ih early (by simp [subtriggers]) _ hEarly
      | afterAll subs | afterAny subs | afterEach subs =>
          simp only [element, elementAll_eq]
          exact beforeOnTimeAll_applyAll ih h
      | repeating sub =>
          simp only [element]
          simp only [BeforeOnTime] at h ⊢
          cases hChildren : state.children with
          | nil => simp [hChildren]
          | cons first rest =>
              rw [hChildren] at h
              exact ih sub (by simp [subtriggers]) first h
      | orFinally main finally_ =>
          obtain ⟨hMain, hFinally⟩ := h
          simp only [element, child_setChild_ne Nat.zero_ne_one]
          exact children_setChild (ih main (by simp [subtriggers]) _ hMain)
            (ih finally_ (by simp [subtriggers]) _ hFinally) hMain hFinally
      | default | never | always | elementCount count | afterProcessingTime delayMillis
      | afterSynchronizedProcessingTime => trivial

/-- A trigger fired before the end of the window has still not fired on time. -/
theorem beforeOnTime_fire {ctx : TriggerContext} (hEarly : ctx.endOfWindow = false)
    (trigger : Trigger) (state : NodeState) (h : BeforeOnTime trigger state) :
    BeforeOnTime trigger (fire ctx trigger state) := by
  induction trigger using ofSubtriggers generalizing state with
  | step trigger ih =>
      have hAt : ∀ {subs : List Trigger} {states : List NodeState} (index : Nat),
          (∀ sub ∈ subs, ∀ state, BeforeOnTime sub state → BeforeOnTime sub (fire ctx sub state)) →
          BeforeOnTimeAll subs states →
            BeforeOnTimeAll subs (states.set index (fireAt ctx subs index (states.getD index {}))) := by
        intro subs states index hSubs hStates
        induction subs generalizing states index with
        | nil => trivial
        | cons sub subs ihSubs =>
            cases states with
            | nil => trivial
            | cons state states =>
                obtain ⟨hSub, hRest⟩ := List.forall_mem_cons.mp hSubs
                cases index with
                | zero => exact ⟨hSub state hStates.1, hStates.2⟩
                | succ index => exact ⟨hStates.1, ihSubs index hRest hStates.2⟩
      cases trigger with
      | afterWatermark early late =>
          obtain ⟨hFired, hEarlyChild⟩ := h
          simp only [fire, hEarly, Bool.not_false, if_true]
          refine ⟨hFired, child_setChild ?_ hEarlyChild⟩
          cases early with
          | none => trivial
          | some early => exact ih early (by simp [subtriggers]) _ hEarlyChild
      | afterAll subs | afterAny subs =>
          simp only [fire, fireAll_eq]
          exact beforeOnTimeAll_applyAll ih h
      | afterEach subs => exact hAt state.index ih h
      | repeating sub =>
          simp only [fire]
          cases hChildren : state.children with
          | nil => exact h
          | cons first rest => exact beforeOnTime_fresh sub
      | orFinally main finally_ =>
          obtain ⟨hMain, hFinally⟩ := h
          simp only [fire]
          split
          · exact ⟨hMain, hFinally⟩
          · refine ⟨child_setChild (ih main (by simp [subtriggers]) _ hMain) hMain, ?_⟩
            rwa [child_setChild_ne Nat.zero_ne_one]
      | default | never | always | elementCount count | afterProcessingTime delayMillis
      | afterSynchronizedProcessingTime => trivial

/-- A trigger that is ready is ready in every later context. Only a trigger that
already fired on time could answer with its late part, and it has not. -/
theorem shouldFire_later {ctx later : TriggerContext} (hLater : ctx.Precedes later)
    (trigger : Trigger) (state : NodeState)
    (hBefore : ctx.endOfWindow = false → BeforeOnTime trigger state)
    (hReady : shouldFire ctx trigger state = true) :
    shouldFire later trigger state = true := by
  induction trigger using ofSubtriggers generalizing state with
  | step trigger ih =>
      cases trigger with
      | default =>
          simp only [shouldFire, Bool.and_eq_true] at hReady ⊢
          exact ⟨hLater.endOfWindow hReady.1, hReady.2⟩
      | never =>
          simp only [shouldFire, Bool.and_eq_true] at hReady ⊢
          exact ⟨hLater.expired hReady.1, hReady.2⟩
      | always | elementCount count | afterSynchronizedProcessingTime => exact hReady
      | afterProcessingTime delayMillis =>
          simp only [shouldFire, Bool.and_eq_true] at hReady ⊢
          refine ⟨?_, hReady.2⟩
          cases hArrival : state.firstArrival with
          | none => simp [hArrival] at hReady
          | some first =>
              simp only [hArrival, decide_eq_true_eq, ge_iff_le] at hReady ⊢
              exact Int64.le_trans hReady.1 hLater.processingTime
      | afterWatermark early late =>
          simp only [shouldFire] at hReady ⊢
          cases hEnd : ctx.endOfWindow with
          | false =>
              obtain ⟨hFired, hEarly⟩ := hBefore hEnd
              cases hLaterEnd : later.endOfWindow with
              | true => simp [hFired]
              | false =>
                  simp only [hEnd, Bool.not_false, if_true] at hReady ⊢
                  cases early with
                  | none => exact hReady
                  | some early =>
                      exact ih early (by simp [subtriggers]) _ (fun _ => hEarly) hReady
          | true =>
              simp only [hEnd, hLater.endOfWindow hEnd, Bool.not_true, Bool.false_eq_true,
                if_false] at hReady ⊢
              cases hFired : state.firedOnce with
              | false => rfl
              | true =>
                  simp only [hFired, Bool.not_true, Bool.false_eq_true, if_false] at hReady ⊢
                  cases late with
                  | none => rfl
                  | some late =>
                      exact ih late (by simp [subtriggers]) _ (fun h => by simp [hEnd] at h) hReady
      | afterAll subs =>
          simp only [shouldFire, shouldFireAll_iff] at hReady ⊢
          intro entry hEntry
          exact ih entry.1 (List.of_mem_zip hEntry).1 entry.2
            (fun h => (beforeOnTimeAll_iff _ _).mp (hBefore h) entry hEntry) (hReady entry hEntry)
      | afterAny subs =>
          simp only [shouldFire, shouldFireAny_iff] at hReady ⊢
          obtain ⟨entry, hEntry, hFires⟩ := hReady
          exact ⟨entry, hEntry, ih entry.1 (List.of_mem_zip hEntry).1 entry.2
            (fun h => (beforeOnTimeAll_iff _ _).mp (hBefore h) entry hEntry) hFires⟩
      | afterEach subs =>
          simp only [shouldFire, shouldFireAt_eq] at hReady ⊢
          cases hSub : subs[state.index]? with
          | none => simp [hSub] at hReady
          | some sub =>
              simp only [hSub, Option.map_some, Option.getD_some] at hReady ⊢
              exact ih sub (List.mem_of_getElem? hSub) _
                (fun h => BeforeOnTimeAll.getD (hBefore h) hSub) hReady
      | repeating sub =>
          simp only [shouldFire, BeforeOnTime] at hReady hBefore ⊢
          cases hChildren : state.children with
          | nil => simp [hChildren] at hReady
          | cons first rest =>
              simp only [hChildren] at hReady hBefore ⊢
              exact ih sub (by simp [subtriggers]) first hBefore hReady
      | orFinally main finally_ =>
          simp only [shouldFire, Bool.and_eq_true, Bool.or_eq_true] at hReady ⊢
          refine ⟨hReady.1, hReady.2.imp ?_ ?_⟩
          · exact ih main (by simp [subtriggers]) _ fun h => (hBefore h).1
          · exact ih finally_ (by simp [subtriggers]) _ fun h => (hBefore h).2

/-- A trigger that is ready is ready after another element. -/
theorem shouldFire_element {ctx : TriggerContext} (processingTime : Int64) (trigger : Trigger)
    (state : NodeState) (hBefore : ctx.endOfWindow = false → BeforeOnTime trigger state)
    (hReady : shouldFire ctx trigger state = true) :
    shouldFire ctx trigger (element processingTime trigger state) = true := by
  induction trigger using ofSubtriggers generalizing state with
  | step trigger ih =>
      cases trigger with
      | default | never | always | afterSynchronizedProcessingTime => exact hReady
      | elementCount count =>
          simp only [shouldFire, element, Bool.and_eq_true, decide_eq_true_eq, ge_iff_le] at hReady ⊢
          exact ⟨Nat.le_succ_of_le hReady.1, hReady.2⟩
      | afterProcessingTime delayMillis =>
          cases hArrival : state.firstArrival with
          | none => simp [shouldFire, hArrival] at hReady
          | some first => simpa [element, hArrival] using hReady
      | afterWatermark early late =>
          simp only [shouldFire] at hReady ⊢
          cases hEnd : ctx.endOfWindow with
          | false =>
              obtain ⟨hFired, hEarly⟩ := hBefore hEnd
              simp only [hEnd, Bool.not_false, if_true] at hReady ⊢
              simp only [element, hFired, Bool.not_false, if_true]
              refine child_setChild (P := fun state => shouldFireOption ctx false early state = true)
                ?_ hReady
              cases early with
              | none => exact hReady
              | some early => exact ih early (by simp [subtriggers]) _ (fun _ => hEarly) hReady
          | true =>
              cases hFired : state.firedOnce with
              | false => simp [element, hFired]
              | true =>
                  simp only [hEnd, hFired, Bool.not_true, Bool.false_eq_true, if_false] at hReady ⊢
                  simp only [element, hFired, Bool.not_true, Bool.false_eq_true, if_false,
                    firedOnce_setChild]
                  refine child_setChild (P := fun state => shouldFireOption ctx true late state = true)
                    ?_ hReady
                  cases late with
                  | none => rfl
                  | some late =>
                      exact ih late (by simp [subtriggers]) _ (fun h => by simp [hEnd] at h) hReady
      | afterAll subs =>
          simp only [shouldFire, element, elementAll_eq, shouldFireAll_iff, zip_applyAll,
            List.forall_mem_map] at hReady ⊢
          intro entry hEntry
          exact ih entry.1 (List.of_mem_zip hEntry).1 entry.2
            (fun h => (beforeOnTimeAll_iff _ _).mp (hBefore h) entry hEntry) (hReady entry hEntry)
      | afterAny subs =>
          simp only [shouldFire, element, elementAll_eq, shouldFireAny_iff, zip_applyAll] at hReady ⊢
          obtain ⟨entry, hEntry, hFires⟩ := hReady
          exact ⟨_, List.mem_map_of_mem hEntry, ih entry.1 (List.of_mem_zip hEntry).1 entry.2
            (fun h => (beforeOnTimeAll_iff _ _).mp (hBefore h) entry hEntry) hFires⟩
      | afterEach subs =>
          simp only [shouldFire, element, elementAll_eq, shouldFireAt_eq] at hReady ⊢
          cases hSub : subs[state.index]? with
          | none => simp [hSub] at hReady
          | some sub =>
              simp only [hSub, Option.map_some, Option.getD_some] at hReady ⊢
              exact getD_applyAll (P := fun state => shouldFire ctx sub state = true) hSub
                (ih sub (List.mem_of_getElem? hSub) _
                  (fun h => BeforeOnTimeAll.getD (hBefore h) hSub) hReady) hReady
      | repeating sub =>
          simp only [shouldFire, BeforeOnTime, element] at hReady hBefore ⊢
          cases hChildren : state.children with
          | nil => simp [hChildren] at hReady
          | cons first rest =>
              simp only [hChildren] at hReady hBefore ⊢
              exact ih sub (by simp [subtriggers]) first hBefore hReady
      | orFinally main finally_ =>
          simp only [shouldFire, element, child_setChild_ne Nat.zero_ne_one, finished_setChild,
            Bool.and_eq_true, Bool.or_eq_true] at hReady ⊢
          refine ⟨hReady.1, hReady.2.imp (fun hMain => ?_) (fun hFinally => ?_)⟩
          · rw [child_setChild_ne Nat.one_ne_zero]
            exact child_setChild (P := fun state => shouldFire ctx main state = true)
              (ih main (by simp [subtriggers]) _ (fun h => (hBefore h).1) hMain) hMain
          · refine child_setChild (P := fun state => shouldFire ctx finally_ state = true)
              (ih finally_ (by simp [subtriggers]) _ (fun h => (hBefore h).2) hFinally) ?_
            rwa [child_setChild_ne Nat.zero_ne_one]

end Trigger

namespace TriggerRunner

/-- A runner some calls lead to, the context of its evaluations having advanced
to the one given. -/
inductive Reached (trigger : Trigger) : TriggerContext → TriggerRunner → Prop where
  | new (ctx : TriggerContext) : Reached trigger ctx (.new trigger)
  | onElement {ctx : TriggerContext} {runner : TriggerRunner}
      (prior : Reached trigger ctx runner) (processingTime : Int64) :
      Reached trigger ctx (runner.onElement processingTime)
  | onFire {ctx : TriggerContext} {runner : TriggerRunner}
      (prior : Reached trigger ctx runner) : Reached trigger ctx (runner.onFire ctx)
  | advance {ctx later : TriggerContext} {runner : TriggerRunner}
      (prior : Reached trigger ctx runner) (hLater : ctx.Precedes later) :
      Reached trigger later runner

/-- A runner that was only evaluated before the end of its window has fired
nothing on time. -/
theorem Reached.beforeOnTime {trigger : Trigger} {ctx : TriggerContext} {runner : TriggerRunner}
    (h : Reached trigger ctx runner) :
    runner.trigger = trigger ∧
      (ctx.endOfWindow = false → trigger.BeforeOnTime runner.state) := by
  induction h with
  | new ctx => exact ⟨rfl, fun _ => trigger.beforeOnTime_fresh⟩
  | onElement prior processingTime ih =>
      obtain ⟨rfl, hBefore⟩ := ih
      exact ⟨rfl, fun hEnd => Trigger.beforeOnTime_element processingTime _ _ (hBefore hEnd)⟩
  | onFire prior ih =>
      obtain ⟨rfl, hBefore⟩ := ih
      exact ⟨rfl, fun hEnd => Trigger.beforeOnTime_fire hEnd _ _ (hBefore hEnd)⟩
  | advance prior hLater ih =>
      obtain ⟨rfl, hBefore⟩ := ih
      refine ⟨rfl, fun hEnd => hBefore ?_⟩
      cases hEarlier : TriggerContext.endOfWindow _ with
      | false => rfl
      | true => rw [hLater.endOfWindow hEarlier] at hEnd; cases hEnd

/-- Further elements keep a runner reached. -/
theorem Reached.elements {trigger : Trigger} {ctx : TriggerContext} {runner : TriggerRunner}
    (h : Reached trigger ctx runner) (times : List Int64) :
    Reached trigger ctx (times.foldl TriggerRunner.onElement runner) := by
  induction times generalizing runner with
  | nil => exact h
  | cons time rest ih => exact ih (h.onElement time)

/-- Further elements keep a ready runner ready. -/
theorem Reached.shouldFire_elements {trigger : Trigger} {ctx : TriggerContext}
    {runner : TriggerRunner} (h : Reached trigger ctx runner)
    (hReady : runner.shouldFire ctx = true) (times : List Int64) :
    (times.foldl TriggerRunner.onElement runner).shouldFire ctx = true := by
  induction times generalizing runner with
  | nil => exact hReady
  | cons time rest ih =>
      refine ih (h.onElement time) ?_
      obtain ⟨rfl, hBefore⟩ := h.beforeOnTime
      exact Trigger.shouldFire_element time _ _ hBefore hReady

/-- A trigger that is ready stays ready, whatever elements arrive and however
the context advances, until it is fired. -/
theorem shouldFire_stable {trigger : Trigger} {ctx : TriggerContext} {runner : TriggerRunner}
    (h : Reached trigger ctx runner) (hReady : runner.shouldFire ctx = true)
    (times : List Int64) {later : TriggerContext} (hLater : ctx.Precedes later) :
    (times.foldl TriggerRunner.onElement runner).shouldFire later = true := by
  obtain ⟨hTrigger, hBefore⟩ := (h.elements times).beforeOnTime
  have hFed := h.shouldFire_elements hReady times
  rw [TriggerRunner.shouldFire, hTrigger] at hFed ⊢
  exact Trigger.shouldFire_later hLater trigger _ hBefore hFed

/-- An early firing that is ready is not lost when the window ends first. -/
theorem shouldFire_stable_windowEnds :
    ([7].foldl TriggerRunner.onElement
      ((TriggerRunner.new (.afterWatermark (some (.elementCount 1)) none)).onElement 3)).shouldFire
        { endOfWindow := true, expired := false, processingTime := 9 } = true :=
  shouldFire_stable
    ((Reached.new { endOfWindow := false, expired := false, processingTime := 3 }).onElement 3)
    (by decide +kernel) [7] ⟨fun _ => rfl, fun h => h, by decide⟩

end TriggerRunner

end FlareDB
