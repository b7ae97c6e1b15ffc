import Mathlib.Data.List.Forall2

/-! Computations with fuel, and loops over a queue of work: every item taken
off the front may change the state and add items at the back, or fail. -/
namespace Worklist

variable {σ α β ε : Type}

/-- A computation that may fail, or run out of fuel. -/
abbrev Attempt (ε α : Type) := ExceptT ε Option α

def done (value : α) : Attempt ε α := some (.ok value)

def fail (reason : ε) : Attempt ε α := some (.error reason)

def attempt (result : Except ε α) : Attempt ε α := some result

def outOfFuel : Attempt ε α := (none : Option (Except ε α))

theorem attempt_eq_done {result : Except ε α} {value : α}
    (h : attempt result = (done value : Attempt ε α)) : result = .ok value :=
  Option.some.inj h

theorem done_inj {first second : α} (h : (done first : Attempt ε α) = done second) :
    first = second :=
  Except.ok.inj (Option.some.inj h)

theorem bind_eq_done {first : Attempt ε α} {f : α → Attempt ε β} {value : β}
    (h : first >>= f = done value) : ∃ found, first = done found ∧ f found = done value := by
  match first, h with
  | some (.ok found), h => exact ⟨found, rfl, h⟩
  | some (.error reason), h => cases h
  | none, h => cases h

theorem mapM_eq_done {f : α → Attempt ε β} {xs : List α} {ys : List β}
    (h : xs.mapM f = done ys) : List.Forall₂ (fun x y => f x = done y) xs ys := by
  induction xs generalizing ys with
  | nil =>
      rw [List.mapM_nil] at h
      cases h
      exact .nil
  | cons x xs ih =>
      rw [List.mapM_cons] at h
      obtain ⟨y, hHead, hRest⟩ := bind_eq_done h
      obtain ⟨rest, hTail, hPure⟩ := bind_eq_done hRest
      cases hPure
      exact .cons hHead (ih hTail)

/-- A computation is done with a value that passes a test. -/
def passes (first : Attempt ε α) (test : α → Bool) : Bool :=
  match first with
  | some (.ok value) => test value
  | _ => false

theorem exists_done_of_passes {first : Attempt ε α} {test : α → Bool}
    (h : passes first test = true) : ∃ value, first = done value ∧ test value = true := by
  match first, h with
  | some (.ok value), h => exact ⟨value, rfl, h⟩

def run (visit : σ → α → Attempt ε (σ × List α)) : Nat → σ → List α → Attempt ε σ
  | _, state, [] => done state
  | 0, _, _ :: _ => outOfFuel
  | fuel + 1, state, item :: queue => do
      let (next, more) ← visit state item
      run visit fuel next (queue ++ more)

variable {visit : σ → α → Attempt ε (σ × List α)}

/-- What every visit preserves holds when the queue is empty. -/
theorem run_invariant {Inv : σ → List α → Prop}
    (hVisit : ∀ state item queue next more, visit state item = done (next, more) →
      Inv state (item :: queue) → Inv next (queue ++ more))
    {fuel : Nat} {state finish : σ} {queue : List α} (hStart : Inv state queue)
    (hRun : run visit fuel state queue = done finish) : Inv finish [] := by
  induction fuel generalizing state queue with
  | zero =>
      cases queue with
      | nil =>
          cases hRun
          exact hStart
      | cons item queue => cases hRun
  | succ fuel ih =>
      cases queue with
      | nil =>
          cases hRun
          exact hStart
      | cons item queue =>
          rw [run] at hRun
          obtain ⟨visited, hNext, hRest⟩ := bind_eq_done hRun
          exact ih (hVisit state item queue _ _ hNext hStart) hRest

end Worklist
