import Mathlib.Algebra.Ring.Int.Defs
import Mathlib.Algebra.Ring.Nat
import Mathlib.Data.List.Basic
import Mathlib.Tactic.Common

/-! Fixed-width big-endian byte strings, most significant byte first. -/
namespace BigEndian

/-- The low `width` bytes of `value`, most significant first. -/
def toBytes : Nat → Nat → List UInt8
  | 0, _ => []
  | width + 1, value => UInt8.ofNat (value / 256 ^ width) :: toBytes width value

/-- The natural number written by a big-endian byte string. -/
def toNat : List UInt8 → Nat
  | [] => 0
  | byte :: rest => byte.toNat * 256 ^ rest.length + toNat rest

@[simp] theorem toBytes_length (width value : Nat) : (toBytes width value).length = width := by
  induction width with
  | zero => rfl
  | succ width ih => simp [toBytes, ih]

theorem toNat_toBytes (width value : Nat) :
    toNat (toBytes width value) = value % 256 ^ width := by
  induction width with
  | zero => simp [toBytes, toNat, Nat.mod_one]
  | succ width ih =>
      have hSplit : value % (256 ^ width * 256) =
          value % 256 ^ width + 256 ^ width * (value / 256 ^ width % 256) := Nat.mod_mul
      have hByte : (UInt8.ofNat (value / 256 ^ width)).toNat = value / 256 ^ width % 256 :=
        UInt8.toNat_ofNat'
      rw [toBytes, toNat, ih, toBytes_length, hByte, Nat.pow_succ 256 width, hSplit]
      rw [Nat.mul_comm, Nat.add_comm]

theorem toNat_toBytes_of_lt {width value : Nat} (h : value < 256 ^ width) :
    toNat (toBytes width value) = value := by
  rw [toNat_toBytes, Nat.mod_eq_of_lt h]

/-- Distinct values of one width have distinct byte strings. -/
theorem toBytes_injective {width a b : Nat} (ha : a < 256 ^ width) (hb : b < 256 ^ width)
    (h : toBytes width a = toBytes width b) : a = b := by
  rw [← toNat_toBytes_of_lt ha, ← toNat_toBytes_of_lt hb, h]

/-- Only the low bytes of a number are written. -/
theorem toBytes_mod (width value : Nat) :
    toBytes width (value % 256 ^ width) = toBytes width value := by
  induction width generalizing value with
  | zero => rfl
  | succ width ih =>
      have hPos : 0 < 256 ^ width := Nat.pow_pos (by decide)
      have hLow : value % 256 ^ (width + 1) % 256 ^ width = value % 256 ^ width :=
        Nat.mod_mod_of_dvd _ (Nat.pow_dvd_pow 256 (Nat.le_succ width))
      have hByte : value % 256 ^ (width + 1) / 256 ^ width = value / 256 ^ width % 256 := by
        rw [Nat.pow_succ, Nat.mod_mul_right_div_self]
      rw [toBytes, toBytes, hByte, ← ih (value % 256 ^ (width + 1)), hLow, ih]
      congr 1
      exact UInt8.toNat_inj.mp (by simp)

theorem toNat_lt (bytes : List UInt8) : toNat bytes < 256 ^ bytes.length := by
  induction bytes with
  | nil => simp [toNat]
  | cons byte rest ih =>
      have hByte : byte.toNat + 1 ≤ 256 := byte.toNat_lt
      have hScaled : (byte.toNat + 1) * 256 ^ rest.length ≤ 256 * 256 ^ rest.length :=
        Nat.mul_le_mul_right _ hByte
      rw [toNat, List.length_cons, Nat.pow_succ]
      rw [Nat.add_mul] at hScaled
      omega

/-- A byte string is the encoding of the number it writes. -/
theorem toBytes_toNat (bytes : List UInt8) : toBytes bytes.length (toNat bytes) = bytes := by
  induction bytes with
  | nil => rfl
  | cons byte rest ih =>
      have hRest : toNat rest < 256 ^ rest.length := toNat_lt rest
      have hPos : 0 < 256 ^ rest.length := Nat.pow_pos (by decide)
      have hHead : (byte.toNat * 256 ^ rest.length + toNat rest) / 256 ^ rest.length =
          byte.toNat := by
        rw [Nat.mul_comm, Nat.mul_add_div hPos, Nat.div_eq_of_lt hRest, Nat.add_zero]
      have hTail : toBytes rest.length (byte.toNat * 256 ^ rest.length + toNat rest) = rest := by
        rw [← toBytes_mod, Nat.mul_add_mod_self_right, Nat.mod_eq_of_lt hRest, ih]
      rw [toNat, List.length_cons, toBytes, hHead, hTail, UInt8.ofNat_toNat]

/-- Byte strings of one width are ordered as the numbers they write. -/
theorem toBytes_lt_toBytes {width a b : Nat} (ha : a < 256 ^ width) (hb : b < 256 ^ width) :
    toBytes width a < toBytes width b ↔ a < b := by
  induction width generalizing a b with
  | zero =>
      rw [Nat.pow_zero, Nat.lt_one_iff] at ha hb
      simp [toBytes, ha, hb]
  | succ width ih =>
      have hPos : 0 < 256 ^ width := Nat.pow_pos (by decide)
      have hTop : ∀ {n : Nat}, n < 256 ^ (width + 1) →
          (UInt8.ofNat (n / 256 ^ width)).toNat = n / 256 ^ width := by
        intro n hn
        refine UInt8.toNat_ofNat_of_lt ?_
        rw [Nat.pow_succ] at hn
        exact Nat.div_lt_of_lt_mul hn
      have hLow : toBytes width a < toBytes width b ↔ a % 256 ^ width < b % 256 ^ width := by
        rw [← toBytes_mod width a, ← toBytes_mod width b]
        exact ih (Nat.mod_lt _ hPos) (Nat.mod_lt _ hPos)
      have hA := Nat.div_add_mod a (256 ^ width)
      have hB := Nat.div_add_mod b (256 ^ width)
      rw [toBytes, toBytes, List.cons_lt_cons_iff, UInt8.lt_iff_toNat_lt, ← UInt8.toNat_inj,
        hTop ha, hTop hb, hLow]
      constructor
      · rintro (hDiv | ⟨hDiv, hMod⟩)
        · exact lt_of_not_ge fun hGe => absurd (Nat.div_le_div_right hGe) (Nat.not_le.mpr hDiv)
        · rw [← hA, ← hB, hDiv]
          exact Nat.add_lt_add_left hMod _
      · intro hLt
        rcases Nat.lt_or_eq_of_le (Nat.div_le_div_right (Nat.le_of_lt hLt)) with hDiv | hDiv
        · exact .inl hDiv
        · rw [hDiv] at hA
          exact .inr ⟨hDiv, by omega⟩

/-- Strings of equal length in front decide the order unless they are equal. -/
theorem append_lt_append {first second rest others : List UInt8}
    (h : first.length = second.length) :
    first ++ rest < second ++ others ↔ first < second ∨ first = second ∧ rest < others := by
  induction first generalizing second with
  | nil =>
      rw [List.length_nil, eq_comm, List.length_eq_zero_iff] at h
      simp [h]
  | cons byte first ih =>
      cases second with
      | nil => simp at h
      | cons other second =>
          rw [List.cons_append, List.cons_append, List.cons_lt_cons_iff, List.cons_lt_cons_iff,
            ih (by simpa using h), List.cons.injEq]
          tauto

/-- Parts written behind their lengths can be told apart. -/
theorem counted_injective {width : Nat} {parts others : List (List UInt8)}
    (hParts : ∀ part ∈ parts, part.length < 256 ^ width)
    (hOthers : ∀ part ∈ others, part.length < 256 ^ width)
    (hCount : parts.length = others.length)
    (h : (parts.flatMap fun part => toBytes width part.length ++ part) =
      others.flatMap fun part => toBytes width part.length ++ part) : parts = others := by
  induction parts generalizing others with
  | nil => exact (List.length_eq_zero_iff.mp hCount.symm).symm
  | cons part parts ih =>
      cases others with
      | nil => simp at hCount
      | cons other others =>
          rw [List.flatMap_cons, List.flatMap_cons, List.append_assoc, List.append_assoc] at h
          obtain ⟨hLength, hRest⟩ := List.append_inj h (by simp)
          have hSame := toBytes_injective (hParts part List.mem_cons_self)
            (hOthers other List.mem_cons_self) hLength
          obtain ⟨rfl, hTail⟩ := List.append_inj hRest hSame
          rw [ih (fun next hNext => hParts next (List.mem_cons_of_mem _ hNext))
            (fun next hNext => hOthers next (List.mem_cons_of_mem _ hNext)) (by simpa using hCount)
            hTail]

end BigEndian
