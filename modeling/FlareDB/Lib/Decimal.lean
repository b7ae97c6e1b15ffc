import Mathlib.Algebra.Ring.Int.Defs
import Mathlib.Data.List.Basic
import Mathlib.Tactic.Common

/-! Signed decimal text read with overflow checks, as machine integers are. -/
namespace Decimal

/-- The value of a decimal digit. -/
def digit (c : Char) : Option Nat :=
  if c.isDigit then some (c.toNat - '0'.toNat) else none

def checked (lo hi value : Int) : Option Int :=
  if lo ≤ value ∧ value ≤ hi then some value else none

/-- Digits added to what has been read, each step checked against the bounds. -/
def accumulate (lo hi sign : Int) : List Char → Int → Option Int
  | [], result => some result
  | c :: digits, result => do
      let value ← digit c
      let scaled ← checked lo hi (result * 10)
      let next ← checked lo hi (scaled + sign * value)
      accumulate lo hi sign digits next

/-- An optional sign and at least one digit. -/
def parse (lo hi : Int) : List Char → Option Int
  | [] => none
  | ['+'] => none
  | ['-'] => none
  | '+' :: digits => accumulate lo hi 1 digits 0
  | '-' :: digits => accumulate lo hi (-1) digits 0
  | digits => accumulate lo hi 1 digits 0

variable {lo hi sign : Int}

theorem checked_of_le {value : Int} (h : lo ≤ value ∧ value ≤ hi) :
    checked lo hi value = some value :=
  if_pos h

/-- A sign does not take a smaller number out of bounds. -/
theorem signed_bounds (hZero : lo ≤ 0 ∧ 0 ≤ hi) (hSign : sign = 1 ∨ sign = -1) {small large : Nat}
    (hLe : small ≤ large) (h : lo ≤ sign * large ∧ sign * large ≤ hi) :
    lo ≤ sign * small ∧ sign * small ≤ hi := by
  rcases hSign with rfl | rfl <;> omega

theorem le_ofDigitChars (digits : List Char) (value : Nat) :
    value ≤ Nat.ofDigitChars 10 digits value := by
  induction digits generalizing value with
  | nil => simp
  | cons c digits ih =>
      rw [Nat.ofDigitChars_cons]
      exact le_trans (by omega) (ih _)

/-- Reading the digits of a number within the bounds meets no overflow. -/
theorem accumulate_digits (hZero : lo ≤ 0 ∧ 0 ≤ hi) (hSign : sign = 1 ∨ sign = -1)
    (digits : List Char) (value : Nat) (hDigits : ∀ c ∈ digits, c.isDigit = true)
    (h : lo ≤ sign * Nat.ofDigitChars 10 digits value ∧
      sign * Nat.ofDigitChars 10 digits value ≤ hi) :
    accumulate lo hi sign digits (sign * value) =
      some (sign * Nat.ofDigitChars 10 digits value) := by
  induction digits generalizing value with
  | nil => simp [accumulate]
  | cons c digits ih =>
      rw [Nat.ofDigitChars_cons] at h ⊢
      have hNext := le_ofDigitChars digits (10 * value + (c.toNat - '0'.toNat))
      have hScaled := signed_bounds hZero hSign (show 10 * value ≤ _ by omega) h
      have hAdded := signed_bounds hZero hSign hNext h
      have hTen : sign * (value : Int) * 10 = sign * ((10 * value : Nat) : Int) := by
        push_cast
        rw [Int.mul_comm 10, Int.mul_assoc]
      have hSum : sign * ((10 * value : Nat) : Int) + sign * ((c.toNat - '0'.toNat : Nat) : Int) =
          sign * ((10 * value + (c.toNat - '0'.toNat) : Nat) : Int) := by
        rw [← Int.mul_add, ← Nat.cast_add]
      rw [accumulate, digit, if_pos (hDigits c List.mem_cons_self), hTen, checked_of_le hScaled]
      simp only [Option.bind_eq_bind, Option.bind_some, hSum, checked_of_le hAdded]
      exact ih _ (fun other hOther => hDigits other (List.mem_cons_of_mem _ hOther)) h

theorem isDigit_of_mem_repr {value : Nat} {c : Char} (h : c ∈ value.repr.toList) :
    c.isDigit = true := by
  rw [Nat.toList_repr] at h
  exact Nat.isDigit_of_mem_toDigits (by decide) (by decide) h

theorem repr_ne_nil (value : Nat) : value.repr.toList ≠ [] := by
  rw [Nat.toList_repr]
  exact Nat.toDigits_ne_nil

/-- Text that starts with a digit has no sign to strip. -/
theorem parse_of_digit {c : Char} (digits : List Char) (h : c.isDigit = true) :
    parse lo hi (c :: digits) = accumulate lo hi 1 (c :: digits) 0 := by
  unfold parse
  split
  · contradiction
  · cases ‹c :: digits = _›
    exact absurd h (by decide)
  · cases ‹c :: digits = _›
    exact absurd h (by decide)
  · cases ‹c :: digits = _›
    exact absurd h (by decide)
  · cases ‹c :: digits = _›
    exact absurd h (by decide)
  · rfl

theorem parse_minus {digits : List Char} (h : digits ≠ []) :
    parse lo hi ('-' :: digits) = accumulate lo hi (-1) digits 0 := by
  cases digits with
  | nil => contradiction
  | cons c digits => rfl

/-- A number within the bounds is read back from its text. -/
theorem parse_repr (hZero : lo ≤ 0 ∧ 0 ≤ hi) {value : Int} (h : lo ≤ value ∧ value ≤ hi) :
    parse lo hi value.repr.toList = some value := by
  rw [Int.repr_eq_if]
  split
  · next hNonneg =>
      obtain ⟨n, rfl⟩ := Int.eq_ofNat_of_zero_le hNonneg
      have hRead := accumulate_digits hZero (.inl rfl) n.repr.toList 0
        (fun _ hMem => isDigit_of_mem_repr hMem) (by simpa using h)
      rw [Int.toNat_natCast]
      cases hText : n.repr.toList with
      | nil => exact absurd hText (repr_ne_nil n)
      | cons c digits =>
          have hDigit : c.isDigit = true := isDigit_of_mem_repr (hText ▸ List.mem_cons_self)
          rw [parse_of_digit digits hDigit, ← hText]
          simpa using hRead
  · next hNegative =>
      obtain ⟨n, hNeg⟩ := Int.eq_ofNat_of_zero_le (show 0 ≤ -value by omega)
      have hValue : value = -1 * (n : Int) := by omega
      have hRead := accumulate_digits hZero (.inr rfl) n.repr.toList 0
        (fun _ hMem => isDigit_of_mem_repr hMem) (by simpa [← hValue] using h)
      rw [hNeg, Int.toNat_natCast, String.toList_append]
      have hMinus : "-".toList = ['-'] := rfl
      rw [hMinus, List.singleton_append, parse_minus (repr_ne_nil n)]
      simpa [hValue] using hRead

/-- The text of a number holds digits and a sign only. -/
theorem notMem_toString {c : Char} (hDigit : c.isDigit = false) (hMinus : c ≠ '-') (value : Int) :
    c ∉ (toString value).toList := by
  have hNat : ∀ n : Nat, c ∉ n.repr.toList := by
    intro n hMem
    rw [isDigit_of_mem_repr hMem] at hDigit
    cases hDigit
  rw [Int.toString_eq_repr, Int.repr_eq_if]
  split
  · exact hNat _
  · rw [String.toList_append]
    exact List.not_mem_append (by simpa using hMinus) (hNat _)

end Decimal
