import FlareDB.Coders.Varint

/-! What a varint is worth over the integers, and when the word that the decoder
returns is worth as much. -/
namespace FlareDB

open ByteDecoder

/-- The bytes as base-128 digits, the first one at `index`. -/
def groupSum : Nat → List UInt8 → Nat
  | _, [] => 0
  | index, byte :: bytes => (byte &&& 0x7F).toNat * 2 ^ (7 * index) + groupSum (index + 1) bytes

/-- The value that is returned is the integer that the bytes read stand for. -/
def ExactVarint (bytes : List UInt8) : Prop :=
  ∀ value rest, decodeVarint bytes = .ok value rest →
    ∃ read, bytes = read ++ rest ∧ value.toNat = groupSum 0 read

def Continues (byte : UInt8) : Prop := byte &&& 0x80 ≠ 0

/-- The bytes of a varint: all of them continue but the last. -/
def IsVarint (read : List UInt8) : Prop :=
  ∃ front last, read = front ++ [last] ∧ (∀ byte ∈ front, Continues byte) ∧ ¬ Continues last

/-- No bit of the byte at `index` is past the word. -/
def FitsWord (index : Nat) (byte : UInt8) : Prop :=
  (byte &&& 0x7F).toNat * 2 ^ (7 * index) < 2 ^ 64

/-- Where the bytes begin with a varint, all its bits are within the word. -/
def VarintFits (bytes : List UInt8) : Prop :=
  ∀ read rest, bytes = read ++ rest → IsVarint read →
    ∀ index byte, read[index]? = some byte → FitsWord index byte

theorem toNat_group_lt (byte : UInt8) : (byte &&& 0x7F).toNat < 128 := by
  rw [UInt8.toNat_and]
  exact Nat.lt_succ_of_le Nat.and_le_right

theorem fitsWord_past {index : Nat} {byte : UInt8} (h : FitsWord index byte)
    (hPast : 64 ≤ 7 * index) : byte &&& 0x7F = 0 := by
  have hPow : 2 ^ 64 ≤ 2 ^ (7 * index) := Nat.pow_le_pow_right (by decide) hPast
  have hNone : (byte &&& 0x7F).toNat = 0 := by
    by_contra hSome
    have hGe : 2 ^ (7 * index) ≤ (byte &&& 0x7F).toNat * 2 ^ (7 * index) :=
      Nat.le_mul_of_pos_left _ (by omega)
    unfold FitsWord at h
    omega
  exact UInt8.toNat_inj.mp hNone

/-- One byte that fits adds its group to the value so far. -/
theorem toNat_accumulate_group {index : Nat} {byte : UInt8} {result : UInt64}
    (hFits : FitsWord index byte) (hResult : result.toNat < 2 ^ (7 * index)) :
    (result ||| ((byte &&& 0x7F).toUInt64 <<< UInt64.ofNat (7 * index))).toNat =
      result.toNat + (byte &&& 0x7F).toNat * 2 ^ (7 * index) := by
  by_cases hShift : 7 * index < 64
  · exact toNat_accumulate result (byte &&& 0x7F) (7 * index) hShift hResult hFits
  · rw [fitsWord_past hFits (by omega)]
    simp

section Loop

variable {front : List UInt8} {last : UInt8}

theorem decodeVarintLoop_cons {byte : UInt8} (h : Continues byte) (shift : Nat) (result : UInt64)
    (bytes : List UInt8) :
    decodeVarintLoop shift result (byte :: bytes) =
      decodeVarintLoop (shift + 7) (result ||| ((byte &&& 0x7F).toUInt64 <<< UInt64.ofNat shift))
        bytes := by
  rw [decodeVarintLoop]
  exact if_neg h

theorem decodeVarintLoop_last {byte : UInt8} (h : ¬ Continues byte) (shift : Nat) (result : UInt64)
    (rest : List UInt8) :
    decodeVarintLoop shift result (byte :: rest) =
      .ok (result ||| ((byte &&& 0x7F).toUInt64 <<< UInt64.ofNat shift)) rest := by
  rw [decodeVarintLoop]
  exact if_pos (not_not.mp h)

/-- The bits so far are below those to come, so the groups add up. -/
theorem decodeVarintLoop_exact (hFront : ∀ byte ∈ front, Continues byte) (hLast : ¬ Continues last)
    (index : Nat) (result : UInt64) (hResult : result.toNat < 2 ^ (7 * index))
    (hFits : ∀ offset byte, (front ++ [last])[offset]? = some byte →
      FitsWord (index + offset) byte) (rest : List UInt8) :
    ∃ value, decodeVarintLoop (7 * index) result (front ++ [last] ++ rest) = .ok value rest ∧
      value.toNat = result.toNat + groupSum index (front ++ [last]) := by
  induction front generalizing index result with
  | nil =>
      have hHere : FitsWord index last := hFits 0 last rfl
      refine ⟨_, decodeVarintLoop_last hLast _ _ rest, ?_⟩
      rw [toNat_accumulate_group hHere hResult]
      simp [groupSum]
  | cons byte front ih =>
      have hHere : FitsWord index byte := hFits 0 byte rfl
      have hByte := toNat_accumulate_group hHere hResult
      have hGroup := toNat_group_lt byte
      have hNext : (result ||| ((byte &&& 0x7F).toUInt64 <<< UInt64.ofNat (7 * index))).toNat <
          2 ^ (7 * (index + 1)) := by
        have hPow : 2 ^ (7 * (index + 1)) = 128 * 2 ^ (7 * index) := by
          rw [Nat.mul_succ, Nat.pow_add, Nat.mul_comm]
        have hScale : (byte &&& 0x7F).toNat * 2 ^ (7 * index) ≤ 127 * 2 ^ (7 * index) :=
          Nat.mul_le_mul_right _ (by omega)
        omega
      obtain ⟨value, hValue, hSum⟩ := ih
        (fun other hMem => hFront other (List.mem_cons_of_mem _ hMem)) (index + 1) _ hNext
        (fun offset other hAt => by
          have hSame : index + 1 + offset = index + (offset + 1) := by omega
          rw [hSame]
          exact hFits (offset + 1) other (by simpa using hAt))
      refine ⟨value, ?_, ?_⟩
      · rw [List.cons_append, List.cons_append,
          decodeVarintLoop_cons (hFront byte List.mem_cons_self)]
        exact hValue
      · rw [hSum, hByte, List.cons_append, groupSum]
        omega

theorem decodeVarintLoop_eq_ok {shift : Nat} {result value : UInt64} {bytes rest : List UInt8}
    (h : decodeVarintLoop shift result bytes = .ok value rest) :
    ∃ read, bytes = read ++ rest ∧ IsVarint read := by
  induction bytes generalizing shift result with
  | nil => cases h
  | cons byte bytes ih =>
      by_cases hByte : Continues byte
      · rw [decodeVarintLoop_cons hByte] at h
        obtain ⟨read, rfl, front, last, rfl, hFront, hLast⟩ := ih h
        refine ⟨byte :: (front ++ [last]), rfl, byte :: front, last, rfl, ?_, hLast⟩
        intro other hMem
        rcases List.mem_cons.mp hMem with rfl | hMem
        · exact hByte
        · exact hFront other hMem
      · rw [decodeVarintLoop_last hByte] at h
        cases h
        exact ⟨[byte], rfl, [], byte, rfl, by simp, hByte⟩

end Loop

/-- Every varint is read to its end, whatever it is worth. -/
theorem decodeVarint_returns {read : List UInt8} (h : IsVarint read) (rest : List UInt8) :
    ∃ value, decodeVarint (read ++ rest) = .ok value rest := by
  obtain ⟨front, last, rfl, hFront, hLast⟩ := h
  unfold decodeVarint
  generalize 0 = shift
  generalize (0 : UInt64) = result
  induction front generalizing shift result with
  | nil => exact ⟨_, decodeVarintLoop_last hLast _ _ rest⟩
  | cons byte front ih =>
      rw [List.cons_append, List.cons_append, decodeVarintLoop_cons (hFront byte List.mem_cons_self)]
      exact ih (fun other hMem => hFront other (List.mem_cons_of_mem _ hMem)) _ _

theorem group_le_groupSum {bytes : List UInt8} {index offset : Nat} {byte : UInt8}
    (h : bytes[offset]? = some byte) :
    (byte &&& 0x7F).toNat * 2 ^ (7 * (index + offset)) ≤ groupSum index bytes := by
  induction bytes generalizing index offset with
  | nil => simp at h
  | cons first bytes ih =>
      rw [groupSum]
      cases offset with
      | zero =>
          cases h
          exact Nat.le_add_right _ _
      | succ offset =>
          have hSame : index + (offset + 1) = index + 1 + offset := by omega
          rw [hSame]
          exact Nat.le_trans (ih (by simpa using h)) (Nat.le_add_left _ _)

theorem exactVarint_of_fits {bytes : List UInt8} (h : VarintFits bytes) : ExactVarint bytes := by
  intro value rest hValue
  obtain ⟨read, rfl, hRead⟩ := decodeVarintLoop_eq_ok hValue
  obtain ⟨front, last, rfl, hFront, hLast⟩ := id hRead
  obtain ⟨word, hWord, hSum⟩ := decodeVarintLoop_exact hFront hLast 0 0 (by simp)
    (fun offset byte hAt => by
      rw [Nat.zero_add]
      exact h _ rest rfl hRead offset byte hAt) rest
  rw [decodeVarint, ← Nat.mul_zero 7, hWord] at hValue
  cases hValue
  exact ⟨_, rfl, by simpa using hSum⟩

theorem fits_of_exactVarint {bytes : List UInt8} (h : ExactVarint bytes) : VarintFits bytes := by
  rintro read rest rfl hRead index byte hAt
  obtain ⟨value, hValue⟩ := decodeVarint_returns hRead rest
  obtain ⟨same, hSame, hSum⟩ := h value rest hValue
  rw [← List.append_cancel_right hSame] at hSum
  -- A word is less than the sum as soon as one group is past it.
  have hGroup : (byte &&& 0x7F).toNat * 2 ^ (7 * (0 + index)) ≤ groupSum 0 read :=
    group_le_groupSum hAt
  rw [Nat.zero_add, ← hSum] at hGroup
  exact Nat.lt_of_le_of_lt hGroup value.toNat_lt

/-- What is encoded is read back, and what is read is worth its bytes exactly where
no bit of the varint is past the word. -/
theorem decodeVarint_exact_iff (bytes : List UInt8) :
    ((∀ value suffix, decodeVarint (encodeVarint value ++ suffix) = .ok value suffix) ∧
      ExactVarint bytes) ↔ VarintFits bytes :=
  ⟨fun h => fits_of_exactVarint h.2,
    fun h => ⟨fun value suffix => (encodeVarint_segment value).frames suffix,
      exactVarint_of_fits h⟩⟩

/-- Eleven bytes wrap around the word, and bits of the tenth are dropped. -/
theorem not_decodeVarint_exact_wrapped :
    ¬ ExactVarint [0x80, 0x80, 0x80, 0x80, 0x80, 0x80, 0x80, 0x80, 0x80, 0x80, 0x01] ∧
      ¬ ExactVarint [0x80, 0x80, 0x80, 0x80, 0x80, 0x80, 0x80, 0x80, 0x80, 0x02] := by
  constructor
  · intro h
    obtain ⟨read, hRead, hSum⟩ := h 64 [] (by decide)
    rw [List.append_nil] at hRead
    rw [← hRead] at hSum
    exact absurd hSum (by decide)
  · intro h
    obtain ⟨read, hRead, hSum⟩ := h 0 [] (by decide)
    rw [List.append_nil] at hRead
    rw [← hRead] at hSum
    exact absurd hSum (by decide)

end FlareDB
