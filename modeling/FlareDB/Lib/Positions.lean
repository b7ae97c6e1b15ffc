import Mathlib.Data.List.Basic
import Mathlib.Data.Nat.Bitwise
import Mathlib.Tactic.Common

/-! Lists and bitmaps that are written position by position. -/
namespace Positions

variable {α : Type}

/-- Writing some positions of a list leaves the others as they are. -/
theorem getElem?_foldl_set (order : List Nat) (value : Nat → α) (list : List α) (index : Nat) :
    (order.foldl (fun list position => list.set position (value position)) list)[index]? =
      if index ∈ order ∧ index < list.length then some (value index) else list[index]? := by
  induction order generalizing list with
  | nil => simp
  | cons position order ih =>
      rw [List.foldl_cons, ih, List.length_set, List.getElem?_set]
      by_cases hIn : index < list.length
      · by_cases hHere : position = index
        · subst hHere
          simp [hIn]
        · have hOther : index ≠ position := fun hSame => hHere hSame.symm
          simp [hIn, hHere, hOther]
      · simp [hIn]
        omega

/-- A list whose positions are all written holds what was written. -/
theorem foldl_set_eq {order : List Nat} {list values : List α} {value : Nat → α}
    (hLength : list.length = values.length) (hAll : ∀ index < values.length, index ∈ order)
    (hValue : ∀ index found, values[index]? = some found → value index = found) :
    order.foldl (fun list position => list.set position (value position)) list = values := by
  refine List.ext_getElem? fun index => ?_
  rw [getElem?_foldl_set, hLength]
  by_cases hIn : index < values.length
  · rw [if_pos ⟨hAll index hIn, hIn⟩, List.getElem?_eq_getElem hIn,
      hValue index _ (List.getElem?_eq_getElem hIn)]
  · rw [if_neg fun h => hIn h.2, List.getElem?_eq_none (by omega), List.getElem?_eq_none (by omega)]

/-! Bits of a byte. -/

theorem toNat_shifted_one {bit : Nat} (h : bit < 8) :
    (1 <<< UInt8.ofNat bit : UInt8).toNat = 2 ^ bit := by
  have hPow : 2 ^ bit < 2 ^ 8 := Nat.pow_lt_pow_right (by decide) h
  rw [UInt8.toNat_shiftLeft, UInt8.toNat_ofNat', Nat.mod_eq_of_lt (a := bit) (by omega),
    Nat.mod_eq_of_lt (a := bit) h, Nat.shiftLeft_eq, UInt8.toNat_one, Nat.one_mul,
    Nat.mod_eq_of_lt hPow]

theorem and_shifted_ne_zero_iff (byte : UInt8) {bit : Nat} (h : bit < 8) :
    byte &&& 1 <<< UInt8.ofNat bit ≠ 0 ↔ byte.toNat.testBit bit = true := by
  rw [ne_eq, ← UInt8.toNat_inj, UInt8.toNat_and, toNat_shifted_one h, Nat.and_two_pow]
  cases byte.toNat.testBit bit with
  | false => simp
  | true => simp

/-- Setting a bit sets that bit alone. -/
theorem or_shifted_and_shifted (byte : UInt8) {set bit : Nat} (hSet : set < 8) (hBit : bit < 8) :
    (byte ||| 1 <<< UInt8.ofNat set) &&& 1 <<< UInt8.ofNat bit ≠ 0 ↔
      byte &&& 1 <<< UInt8.ofNat bit ≠ 0 ∨ set = bit := by
  rw [and_shifted_ne_zero_iff _ hBit, and_shifted_ne_zero_iff _ hBit, UInt8.toNat_or,
    toNat_shifted_one hSet, Nat.testBit_or, Nat.testBit_two_pow, Bool.or_eq_true, decide_eq_true_eq]

end Positions
