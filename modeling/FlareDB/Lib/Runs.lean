import Mathlib.Logic.Relation

/-! Runs of a machine whose steps are named by actions and may be refused. A
run takes only the actions an `allowed` predicate admits, so that one machine
serves a claim about every run and a claim about the runs that meet a
condition. -/
namespace Runs

variable {σ α : Type}

/-- The states a machine reaches by allowed actions. -/
def Reaches (step : σ → α → Option σ) (allowed : σ → α → Prop) : σ → σ → Prop :=
  Relation.ReflTransGen fun before after =>
    ∃ action, allowed before action ∧ step before action = some after

/-- Take a list of actions, if none of them is refused. -/
def play (step : σ → α → Option σ) : σ → List α → Option σ
  | state, [] => some state
  | state, action :: rest => (step state action).bind fun next => play step next rest

variable {step : σ → α → Option σ} {allowed : σ → α → Prop}

theorem Reaches.refl (state : σ) : Reaches step allowed state state :=
  Relation.ReflTransGen.refl

theorem Reaches.snoc {start middle finish : σ} (hRun : Reaches step allowed start middle)
    (action : α) (hAllowed : allowed middle action) (hStep : step middle action = some finish) :
    Reaches step allowed start finish :=
  Relation.ReflTransGen.tail hRun ⟨action, hAllowed, hStep⟩

/-- What every allowed step preserves holds in every state reached. -/
theorem Reaches.invariant {Inv : σ → Prop}
    (hStep : ∀ before action after, allowed before action → step before action = some after →
      Inv before → Inv after)
    {start finish : σ} (hRun : Reaches step allowed start finish) (hStart : Inv start) :
    Inv finish := by
  induction hRun with
  | refl => exact hStart
  | tail _ hLast ih =>
      obtain ⟨action, hAllowed, hTaken⟩ := hLast
      exact hStep _ action _ hAllowed hTaken ih

theorem play_append (start : σ) (first second : List α) :
    play step start (first ++ second) =
      (play step start first).bind fun middle => play step middle second := by
  induction first generalizing start with
  | nil => rfl
  | cons action rest ih =>
      rw [List.cons_append, play, play, Option.bind_assoc]
      exact Option.bind_congr fun next _ => ih next

/-- A list of actions that are all taken is a run. -/
theorem reaches_of_play (hAllowed : ∀ state action, allowed state action) {start finish : σ}
    {actions : List α} (hPlay : play step start actions = some finish) :
    Reaches step allowed start finish := by
  induction actions generalizing start with
  | nil =>
      cases hPlay
      exact Reaches.refl _
  | cons action rest ih =>
      obtain ⟨next, hNext, hRest⟩ := Option.bind_eq_some_iff.mp hPlay
      exact Relation.ReflTransGen.head ⟨action, hAllowed _ _, hNext⟩ (ih hRest)

/-- A step that is taken, to whatever state it leads. -/
theorem Reaches.snoc_getD {start middle : σ} (hRun : Reaches step allowed start middle)
    (action : α) (hAllowed : allowed middle action)
    (hStep : (step middle action).isSome = true) (other : σ) :
    Reaches step allowed start ((step middle action).getD other) := by
  obtain ⟨finish, hFinish⟩ := Option.isSome_iff_exists.mp hStep
  rw [hFinish, Option.getD_some]
  exact hRun.snoc action hAllowed hFinish

theorem reaches_getD_play (hAllowed : ∀ state action, allowed state action) {start : σ}
    {actions : List α} (hPlay : (play step start actions).isSome = true) (other : σ) :
    Reaches step allowed start ((play step start actions).getD other) := by
  obtain ⟨finish, hFinish⟩ := Option.isSome_iff_exists.mp hPlay
  rw [hFinish, Option.getD_some]
  exact reaches_of_play hAllowed hFinish

/-- Actions that are allowed in every state, taken at the end of a run. -/
theorem Reaches.play {start middle finish : σ} (hRun : Reaches step allowed start middle)
    (actions : List α) (hAllowed : ∀ action ∈ actions, ∀ state, allowed state action)
    (hPlay : Runs.play step middle actions = some finish) : Reaches step allowed start finish := by
  induction actions generalizing middle with
  | nil =>
      cases hPlay
      exact hRun
  | cons action rest ih =>
      obtain ⟨next, hNext, hRest⟩ := Option.bind_eq_some_iff.mp hPlay
      have hFirst := hRun.snoc action (hAllowed action List.mem_cons_self middle) hNext
      exact ih hFirst (fun other hOther => hAllowed other (List.mem_cons_of_mem _ hOther)) hRest

/-- Take a list of actions, if none of them is refused or not allowed. -/
def playAllowed (step : σ → α → Option σ) (allowed : σ → α → Prop)
    [∀ state action, Decidable (allowed state action)] : σ → List α → Option σ :=
  play fun state action => if allowed state action then step state action else none

theorem reaches_getD_playAllowed [∀ state action, Decidable (allowed state action)] {start : σ}
    {actions : List α} (hPlay : (playAllowed step allowed start actions).isSome = true)
    (other : σ) : Reaches step allowed start ((playAllowed step allowed start actions).getD other) := by
  obtain ⟨finish, hFinish⟩ := Option.isSome_iff_exists.mp hPlay
  rw [hFinish, Option.getD_some]
  clear hPlay
  induction actions generalizing start with
  | nil =>
      cases hFinish
      exact Reaches.refl _
  | cons action rest ih =>
      obtain ⟨next, hNext, hRest⟩ := Option.bind_eq_some_iff.mp hFinish
      simp only at hNext
      split at hNext
      next hAllowed => exact Relation.ReflTransGen.head ⟨action, hAllowed, hNext⟩ (ih hRest)
      · cases hNext

end Runs
