import Mathlib.Order.Basic

/-! Repeating a pass over a state until it reports no change. A pass that lowers
a potential whenever it reports a change is repeated at most that often, so a
loop with that much fuel ends in a state the pass leaves alone. -/
namespace Stabilize

variable {σ : Type}

/-- Repeat a pass while it reports a change, at most `fuel` times. -/
def loop (pass : σ → σ × Bool) : Nat → σ → σ
  | 0, state => state
  | fuel + 1, state =>
      if (pass state).2 then loop pass fuel (pass state).1 else (pass state).1

variable {pass : σ → σ × Bool}

theorem loop_induction {P : σ → Prop} (hPass : ∀ state, P state → P (pass state).1)
    (fuel : Nat) {state : σ} (h : P state) : P (loop pass fuel state) := by
  induction fuel generalizing state with
  | zero => exact h
  | succ fuel ih =>
      rw [loop]
      split
      · exact ih (hPass state h)
      · exact hPass state h

/-- A loop with more fuel than the potential of its start ends in a state the
pass leaves alone. -/
theorem pass_loop (potential : σ → Nat)
    (hLower : ∀ state, (pass state).2 = true → potential (pass state).1 < potential state)
    (hQuiet : ∀ state, (pass state).2 = false → (pass state).1 = state)
    {fuel : Nat} {state : σ} (hFuel : potential state < fuel) :
    (pass (loop pass fuel state)).2 = false := by
  induction fuel generalizing state with
  | zero => omega
  | succ fuel ih =>
      rw [loop]
      split
      next hChanged =>
        have hNext := hLower state hChanged
        exact ih (by omega)
      next hChanged =>
        have hSame := hQuiet state (by simpa using hChanged)
        rw [hSame]
        simpa using hChanged

/-- Fuel beyond the potential of the start is not used. -/
theorem loop_eq (potential : σ → Nat)
    (hLower : ∀ state, (pass state).2 = true → potential (pass state).1 < potential state)
    {fuel more : Nat} {state : σ} (hFuel : potential state < fuel) (hMore : potential state < more) :
    loop pass more state = loop pass fuel state := by
  induction fuel generalizing more state with
  | zero => omega
  | succ fuel ih =>
      obtain ⟨more, rfl⟩ : ∃ n, more = n + 1 := ⟨more - 1, by omega⟩
      rw [loop, loop]
      split
      next hChanged =>
        have hNext := hLower state hChanged
        exact ih (by omega) (by omega)
      · rfl

end Stabilize
