import FlareDB.Lib.ByteDecoder

/-! Beam's base-128 varint and the length-delimited reads built on it. The
decoder follows the release build: a shift amount is reduced modulo the word
width and bits pushed out of the word are dropped. -/
namespace FlareDB

open ByteDecoder

/-- Coder failures that are returned rather than unwound. -/
inductive CodersError where
  | whileDecoding (message : String)
  | whileEncoding (message : String)
deriving DecidableEq, Repr

abbrev CoderDecoder (α : Type) := Decoder CodersError α

/-- Ten groups of seven bits cover every `u64`, so the loop never runs out. -/
def encodeVarintLoop : Nat → UInt64 → List UInt8
  | 0, _ => []
  | fuel + 1, value =>
      let byte := (value &&& 0x7F).toUInt8
      let value := value >>> 7
      if value ≠ 0 then (byte ||| 0x80) :: encodeVarintLoop fuel value else [byte]

def encodeVarint (value : UInt64) : List UInt8 :=
  encodeVarintLoop 10 value

def decodeVarintLoop (shift : Nat) (result : UInt64) : CoderDecoder UInt64
  | [] => .panic
  | byte :: rest =>
      let result := result ||| ((byte &&& 0x7F).toUInt64 <<< UInt64.ofNat shift)
      if byte &&& 0x80 = 0 then .ok result rest
      else decodeVarintLoop (shift + 7) result rest

def decodeVarint : CoderDecoder UInt64 :=
  decodeVarintLoop 0 0

def encodeSignedVarint (value : Int64) : List UInt8 :=
  encodeVarint value.toUInt64

def decodeSignedVarint : CoderDecoder Int64 := do
  let value ← decodeVarint
  pure value.toInt64

/-- Read a varint length and that many bytes. A short body is reported, while a
short length prefix unwinds inside `decodeVarint`. -/
def decodeLengthDelimited (coderName : String) : CoderDecoder (List UInt8) := do
  let encodedLen ← decodeVarint
  let len := encodedLen.toNat
  let remaining ← Decoder.remaining
  if len > remaining then
    Decoder.fail (.whileDecoding
      s!"{coderName}: declared length {len} exceeds remaining bytes {remaining}")
  else Decoder.take len

/-- The framing shared by the string, bytes, pickle and length-prefix coders. -/
def encodeLengthDelimited (value : List UInt8) : List UInt8 :=
  encodeVarint (UInt64.ofNat value.length) ++ value

/-! Signed words. -/

/-- Signed addition that refuses to overflow. -/
def checkedAdd (a b : Int64) : Option Int64 :=
  if -2 ^ 63 ≤ a.toInt + b.toInt ∧ a.toInt + b.toInt < 2 ^ 63 then some (a + b) else none

theorem toInt_add_of_fits {a b : Int64} (hLow : -2 ^ 63 ≤ a.toInt + b.toInt)
    (hHigh : a.toInt + b.toInt < 2 ^ 63) : (a + b).toInt = a.toInt + b.toInt := by
  rw [Int64.toInt_add]
  exact Int.bmod_eq_of_le (by omega) (by omega)

/-! The machine operations of one loop iteration, as arithmetic. -/

theorem toNat_shiftRight_seven (value : UInt64) : (value >>> 7).toNat = value.toNat / 128 := by
  rw [UInt64.toNat_shiftRight]
  simp [Nat.shiftRight_eq_div_pow]

theorem toNat_low_seven (value : UInt64) :
    (value &&& 0x7F).toUInt8.toNat = value.toNat % 128 := by
  have hMask : (value &&& 0x7F).toNat = value.toNat % 128 := by
    rw [UInt64.toNat_and]
    exact Nat.and_two_pow_sub_one_eq_mod value.toNat 7
  rw [UInt64.toNat_toUInt8, hMask]
  omega

/-- Setting the continuation bit keeps the payload and clears the test. -/
theorem continuation_byte (byte : UInt8) (h : byte.toNat < 128) :
    ((byte ||| 0x80) &&& 0x7F) = byte ∧ (byte ||| 0x80) &&& 0x80 ≠ 0 := by
  have hAll : ∀ small : Fin 128,
      ((UInt8.ofNat small.val ||| 0x80) &&& 0x7F) = UInt8.ofNat small.val ∧
        (UInt8.ofNat small.val ||| 0x80) &&& 0x80 ≠ 0 := by decide +kernel
  simpa using hAll ⟨byte.toNat, h⟩

theorem final_byte (byte : UInt8) (h : byte.toNat < 128) :
    (byte &&& 0x7F) = byte ∧ byte &&& 0x80 = 0 := by
  have hAll : ∀ small : Fin 128,
      (UInt8.ofNat small.val &&& 0x7F) = UInt8.ofNat small.val ∧
        UInt8.ofNat small.val &&& 0x80 = 0 := by decide +kernel
  simpa using hAll ⟨byte.toNat, h⟩

/-- Placing a payload group above an accumulator that stays below it adds it. -/
theorem toNat_accumulate (result : UInt64) (byte : UInt8) (shift : Nat) (hShift : shift < 64)
    (hResult : result.toNat < 2 ^ shift) (hFit : byte.toNat * 2 ^ shift < 2 ^ 64) :
    (result ||| (byte.toUInt64 <<< UInt64.ofNat shift)).toNat =
      result.toNat + byte.toNat * 2 ^ shift := by
  have hAmount : (UInt64.ofNat shift).toNat % 64 = shift := by
    rw [UInt64.toNat_ofNat', Nat.mod_eq_of_lt (show shift < 2 ^ 64 by omega),
      Nat.mod_eq_of_lt hShift]
  rw [UInt64.toNat_or, UInt64.toNat_shiftLeft, UInt8.toNat_toUInt64, hAmount, Nat.shiftLeft_eq,
    Nat.mod_eq_of_lt hFit, Nat.or_comm, Nat.mul_comm, ← Nat.two_pow_add_eq_or_of_lt hResult]
  omega

/-- The loop invariant: the accumulator holds the groups read so far, all of
them below `shift`, and the unread groups are those of `value`. -/
theorem decodeVarintLoop_segment (fuel : Nat) (shift : Nat) (value result : UInt64)
    (hFuel : value.toNat < 128 ^ fuel) (hPos : 0 < fuel) (hShift : shift < 64)
    (hResult : result.toNat < 2 ^ shift)
    (hFit : result.toNat + value.toNat * 2 ^ shift < 2 ^ 64) :
    Segment (decodeVarintLoop shift result) (encodeVarintLoop fuel value)
      (List.replicate (encodeVarintLoop fuel value).length false)
      (UInt64.ofNat (result.toNat + value.toNat * 2 ^ shift)) := by
  induction fuel generalizing shift value result with
  | zero => omega
  | succ fuel ih =>
      have hLow := toNat_low_seven value
      have hHigh := toNat_shiftRight_seven value
      have hSplit := Nat.div_add_mod value.toNat 128
      have hScale : value.toNat % 128 * 2 ^ shift ≤ value.toNat * 2 ^ shift :=
        Nat.mul_le_mul_right _ (Nat.mod_le _ _)
      have hAcc := toNat_accumulate result (value &&& 0x7F).toUInt8 shift hShift hResult
        (by rw [hLow]; omega)
      rw [hLow] at hAcc
      by_cases hMore : value >>> 7 ≠ 0
      · have hNonzero : 1 ≤ value.toNat / 128 := by
          rw [← hHigh]
          by_contra hZero
          exact hMore (UInt64.toNat_inj.mp (by simp; omega))
        have hPow : 2 ^ (shift + 7) = 128 * 2 ^ shift := by rw [Nat.pow_add, Nat.mul_comm]
        have hMul : value.toNat * 2 ^ shift =
            value.toNat / 128 * 2 ^ (shift + 7) + value.toNat % 128 * 2 ^ shift := by
          rw [hPow, ← Nat.mul_assoc, ← Nat.add_mul, Nat.mul_comm _ 128, hSplit]
        have hNextShift : shift + 7 < 64 := by
          have hGe : 2 ^ (shift + 7) ≤ value.toNat / 128 * 2 ^ (shift + 7) :=
            Nat.le_mul_of_pos_left _ hNonzero
          exact (Nat.pow_lt_pow_iff_right (by decide : 1 < 2)).mp (by omega)
        have hGroup : value.toNat % 128 * 2 ^ shift + 2 ^ shift ≤ 128 * 2 ^ shift := by
          rw [← Nat.succ_mul]
          exact Nat.mul_le_mul_right _ (Nat.mod_lt _ (by decide))
        obtain ⟨hPayload, hContinue⟩ :=
          continuation_byte (value &&& 0x7F).toUInt8 (by rw [hLow]; omega)
        have hTail := ih (shift + 7) (value >>> 7)
          (result ||| ((value &&& 0x7F).toUInt8.toUInt64 <<< UInt64.ofNat shift))
          (by rw [hHigh]; exact Nat.div_lt_of_lt_mul (by rwa [Nat.mul_comm, ← Nat.pow_succ]))
          (by
            cases fuel with
            | zero => simp at hFuel; omega
            | succ fuel => omega)
          hNextShift (by rw [hAcc, hPow]; omega) (by rw [hAcc, hHigh]; omega)
        rw [hAcc, hHigh, Nat.add_assoc, Nat.add_comm (value.toNat % 128 * 2 ^ shift), ← hMul] at hTail
        simp only [encodeVarintLoop, if_pos hMore, List.length_cons, List.replicate_succ]
        refine Segment.cons rfl (fun rest => ?_) hTail
        simp only [decodeVarintLoop, hPayload, if_neg hContinue]
      · have hZero : value.toNat / 128 = 0 := by
          rw [← hHigh]
          have hEq : value >>> 7 = 0 := by simpa using hMore
          rw [hEq]
          rfl
        obtain ⟨hPayload, hStop⟩ := final_byte (value &&& 0x7F).toUInt8 (by rw [hLow]; omega)
        have hValue : value.toNat % 128 = value.toNat := by omega
        rw [hValue] at hAcc
        simp only [encodeVarintLoop, if_neg hMore, List.length_singleton, List.replicate_one]
        refine Segment.cons rfl (fun rest => ?_) (Segment.pure _)
        simp only [decodeVarintLoop, hPayload, if_pos hStop]
        rw [← hAcc, UInt64.ofNat_toNat]
        rfl

theorem encodeVarint_segment (value : UInt64) :
    Segment decodeVarint (encodeVarint value)
      (List.replicate (encodeVarint value).length false) value := by
  have hBound := value.toNat_lt
  have h := decodeVarintLoop_segment 10 0 value 0 (by omega) (by decide) (by decide) (by simp)
    (by simpa using hBound)
  simpa [decodeVarint, encodeVarint] using h

theorem encodeSignedVarint_segment (value : Int64) :
    Segment decodeSignedVarint (encodeSignedVarint value)
      (List.replicate (encodeSignedVarint value).length false) value :=
  (encodeVarint_segment value.toUInt64).bind_pure (by rw [Int64.toInt64_toUInt64])

/-- Reading a length-delimited body: the prefix unwinds, the body reports. -/
theorem encodeLengthDelimited_segment (coderName : String) (value : List UInt8)
    (hLength : value.length < 2 ^ 64) :
    Segment (decodeLengthDelimited coderName) (encodeLengthDelimited value)
      (List.replicate (encodeVarint (UInt64.ofNat value.length)).length false ++
        List.replicate value.length true) value := by
  refine (encodeVarint_segment (UInt64.ofNat value.length)).bind ?_
  have hLen : (UInt64.ofNat value.length).toNat = value.length := by
    rw [UInt64.toNat_ofNat']
    exact Nat.mod_eq_of_lt hLength
  simp only [hLen]
  constructor
  · intro rest
    have hEnough : ¬ value.length > (value ++ rest).length := by simp
    rw [Decoder.bind_apply, Decoder.remaining]
    simp only [if_neg hEnough]
    exact (Segment.take value).frames rest
  · simp
  · intro k flag hFlag
    obtain ⟨hk, hEq⟩ := List.getElem?_eq_some_iff.mp hFlag
    rw [List.length_replicate] at hk
    have hTrue : flag = true := by simpa using hEq.symm
    subst hTrue
    have hShort : value.length > (value.take k).length := by
      rw [List.length_take]
      omega
    rw [Decoder.bind_apply, Decoder.remaining]
    simp only [if_pos hShort]
    exact ⟨_, rfl⟩

end FlareDB
