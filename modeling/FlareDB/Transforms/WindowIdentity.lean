import FlareDB.Lib.Decimal
import FlareDB.Store.BatchRoundTrip
import FlareDB.Transforms.GbkMerge

/-! The two identities of a window. Groups, merges and timers name windows by
text or by bytes; both forms are lossless, so it does not matter which. -/
namespace FlareDB

/-! Text parsing. -/

/-- The text before and after the first separator. -/
def splitOnce (sep : Char) : List Char → Option (List Char × List Char)
  | [] => none
  | c :: text =>
      if c = sep then some ([], text)
      else (splitOnce sep text).map fun (before, after) => (c :: before, after)

/-- The text before and after the last separator. -/
def rsplitOnce (sep : Char) (text : List Char) : Option (List Char × List Char) :=
  (splitOnce sep text.reverse).map fun (after, before) => (before.reverse, after.reverse)

def parseI64 (text : List Char) : Option Int64 :=
  (Decimal.parse Int64.minValue.toInt Int64.maxValue.toInt text).map Int64.ofInt

/-- The value of a hexadecimal digit of either case. -/
def toDigit16 (byte : UInt8) : Option UInt8 :=
  if 48 ≤ byte ∧ byte ≤ 57 then some (byte - 48)
  else if 97 ≤ byte ∧ byte ≤ 102 then some (byte - 87)
  else if 65 ≤ byte ∧ byte ≤ 70 then some (byte - 55)
  else none

def hexPairs : List UInt8 → Option (List UInt8)
  | high :: low :: rest => do
      let high ← toDigit16 high
      let low ← toDigit16 low
      let decoded ← hexPairs rest
      pure (((high <<< 4) ||| low) :: decoded)
  | _ => some []

/-- Pairs of digits, counted in bytes of the text. -/
def hexDecode (encoded : List Char) : Option (List UInt8) :=
  let bytes := encoded.flatMap String.utf8EncodeChar
  if bytes.length % 2 = 0 then hexPairs bytes else none

/-- Parse a text identity; a malformed one is rejected. -/
def BeamWindow.fromCanonicalKey (key : String) : Option BeamWindow :=
  if key = "global" then some .global
  else match "opaque:".toList.isPrefixOf? key.toList with
    | some rest => do
        let (coderId, encoded) ← rsplitOnce ':' rest
        let bytes ← hexDecode encoded
        pure (.opaqueWindow (String.ofList coderId) bytes)
    | none => do
        let bounds ← "interval:".toList.isPrefixOf? key.toList
        let (startText, endText) ← splitOnce ':' bounds
        let startMillis ← parseI64 startText
        let endMillis ← parseI64 endText
        pure (.interval startMillis endMillis)

theorem splitOnce_append {sep : Char} {before : List Char} (h : sep ∉ before) (after : List Char) :
    splitOnce sep (before ++ sep :: after) = some (before, after) := by
  induction before with
  | nil => simp [splitOnce]
  | cons c before ih =>
      rw [List.mem_cons, not_or] at h
      rw [List.cons_append, splitOnce, if_neg (Ne.symm h.1), ih h.2]
      rfl

theorem rsplitOnce_append {sep : Char} (before : List Char) {after : List Char} (h : sep ∉ after) :
    rsplitOnce sep (before ++ sep :: after) = some (before, after) := by
  rw [rsplitOnce, List.reverse_append, List.reverse_cons, List.append_assoc,
    List.singleton_append, splitOnce_append (by simpa using h)]
  simp

theorem parseI64_toString (value : Int64) :
    parseI64 (toString value.toInt).toList = some value := by
  rw [parseI64, Int.toString_eq_repr, Decimal.parse_repr (by decide)
    ⟨Int64.minValue_le_toInt value, Int64.toInt_le value⟩]
  simp

theorem hexEncode_toList (bytes : List UInt8) : (hexEncode bytes).toList =
    bytes.flatMap fun (byte : UInt8) => [hexDigit (byte >>> 4), hexDigit (byte &&& 0x0f)] :=
  String.toList_ofList

/-- The two digits of a byte: no separators, one byte each, and read back. -/
private theorem hexDigits_byte (byte : UInt8) :
    hexDigit (byte >>> 4) ≠ ':' ∧ hexDigit (byte &&& 0x0f) ≠ ':' ∧
      ∃ high low, String.utf8EncodeChar (hexDigit (byte >>> 4)) = [high] ∧
        String.utf8EncodeChar (hexDigit (byte &&& 0x0f)) = [low] ∧
        hexPairs [high, low] = some [byte] := by
  have hAll : ∀ small : Fin 256,
      hexDigit (UInt8.ofNat small.val >>> 4) ≠ ':' ∧
        hexDigit (UInt8.ofNat small.val &&& 0x0f) ≠ ':' ∧
        (String.utf8EncodeChar (hexDigit (UInt8.ofNat small.val >>> 4))).length = 1 ∧
        (String.utf8EncodeChar (hexDigit (UInt8.ofNat small.val &&& 0x0f))).length = 1 ∧
        hexPairs (String.utf8EncodeChar (hexDigit (UInt8.ofNat small.val >>> 4)) ++
          String.utf8EncodeChar (hexDigit (UInt8.ofNat small.val &&& 0x0f))) =
          some [UInt8.ofNat small.val] := by
    decide +kernel
  have hByte := hAll ⟨byte.toNat, byte.toNat_lt⟩
  simp only [UInt8.ofNat_toNat] at hByte
  obtain ⟨hHighColon, hLowColon, hHigh, hLow, hPair⟩ := hByte
  obtain ⟨high, hHigh⟩ := List.length_eq_one_iff.mp hHigh
  obtain ⟨low, hLow⟩ := List.length_eq_one_iff.mp hLow
  rw [hHigh, hLow] at hPair
  exact ⟨hHighColon, hLowColon, high, low, hHigh, hLow, hPair⟩

theorem colon_notMem_hexEncode (bytes : List UInt8) : ':' ∉ (hexEncode bytes).toList := by
  rw [hexEncode_toList, List.mem_flatMap]
  rintro ⟨byte, _, hMem⟩
  obtain ⟨hHigh, hLow, _⟩ := hexDigits_byte byte
  rcases List.mem_cons.mp hMem with hEq | hMem
  · exact hHigh hEq.symm
  · exact hLow (List.mem_singleton.mp hMem).symm

theorem hexDecode_hexEncode (bytes : List UInt8) :
    hexDecode (hexEncode bytes).toList = some bytes := by
  have hBytes : ((hexEncode bytes).toList.flatMap String.utf8EncodeChar).length % 2 = 0 ∧
      hexPairs ((hexEncode bytes).toList.flatMap String.utf8EncodeChar) = some bytes := by
    rw [hexEncode_toList]
    induction bytes with
    | nil => exact ⟨rfl, rfl⟩
    | cons byte bytes ih =>
        obtain ⟨_, _, high, low, hHigh, hLow, hPair⟩ := hexDigits_byte byte
        simp only [List.flatMap_cons, hHigh, hLow, List.cons_append, List.nil_append]
        refine ⟨by rw [List.length_cons, List.length_cons]; omega, ?_⟩
        simp only [hexPairs, Option.pure_def, Option.bind_eq_bind, Option.bind_eq_some_iff,
          Option.some.injEq, List.cons.injEq] at hPair
        obtain ⟨highValue, hHighValue, lowValue, hLowValue, hPair⟩ := hPair
        obtain ⟨_, rfl, hByte⟩ := hPair
        simp [hexPairs, hHighValue, hLowValue, ih.2, hByte]
  rw [hexDecode, if_pos hBytes.1, hBytes.2]

theorem isPrefixOf?_append (front rest : List Char) : front.isPrefixOf? (front ++ rest) = some rest :=
  List.isPrefixOf?_eq_some_iff_append_eq.mpr rfl

namespace BeamWindow

theorem fromCanonicalKey_canonicalKey (window : BeamWindow) :
    fromCanonicalKey window.canonicalKey = some window := by
  cases window with
  | global => rfl
  | interval startMillis endMillis =>
      have hText : (interval startMillis endMillis).canonicalKey.toList =
          "interval:".toList ++ ((toString startMillis.toInt).toList ++
            ':' :: (toString endMillis.toInt).toList) := by
        simp [canonicalKey]
      have hNotGlobal : (interval startMillis endMillis).canonicalKey ≠ "global" := by
        intro hSame
        rw [hSame] at hText
        simp at hText
      have hNotOpaque : "opaque:".toList.isPrefixOf?
          ("interval:".toList ++ ((toString startMillis.toInt).toList ++
            ':' :: (toString endMillis.toInt).toList)) = none := rfl
      rw [fromCanonicalKey, if_neg hNotGlobal, hText, hNotOpaque, isPrefixOf?_append]
      simp only [Option.bind_eq_bind, Option.bind_some]
      rw [splitOnce_append (Decimal.notMem_toString (by decide) (by decide) _)]
      simp only [Option.bind_some, parseI64_toString]
      rfl
  | opaqueWindow coderId bytes =>
      have hText : (opaqueWindow coderId bytes).canonicalKey.toList =
          "opaque:".toList ++ (coderId.toList ++ ':' :: (hexEncode bytes).toList) := by
        simp [canonicalKey]
      have hNotGlobal : (opaqueWindow coderId bytes).canonicalKey ≠ "global" := by
        intro hSame
        rw [hSame] at hText
        simp at hText
      rw [fromCanonicalKey, if_neg hNotGlobal, hText, isPrefixOf?_append]
      simp only [Option.bind_eq_bind]
      rw [rsplitOnce_append _ (colon_notMem_hexEncode bytes)]
      simp [hexDecode_hexEncode]

/-- Only the window itself has its text identity. -/
theorem canonicalKey_injective {first second : BeamWindow}
    (h : first.canonicalKey = second.canonicalKey) : first = second := by
  have hFirst := fromCanonicalKey_canonicalKey first
  rw [h, fromCanonicalKey_canonicalKey second] at hFirst
  exact (Option.some.inj hFirst).symm

end BeamWindow

/-! Binary identities. -/

theorem orderedI64Bytes_of_fromBytes {bytes : List UInt8} {value : Int64}
    (h : orderedI64FromBytes bytes = some value) : orderedI64Bytes value = bytes := by
  rw [orderedI64FromBytes] at h
  split at h
  · next hLength =>
      cases h
      have hSmall : BigEndian.toNat bytes < 2 ^ 64 := by
        have hLt := BigEndian.toNat_lt bytes
        rwa [hLength] at hLt
      have hBack : UInt64.ofNat (BigEndian.toNat bytes) ^^^ signBit ^^^ signBit =
          UInt64.ofNat (BigEndian.toNat bytes) := by
        rw [UInt64.xor_assoc, UInt64.xor_self, UInt64.xor_zero]
      rw [orderedI64Bytes, UInt64.toUInt64_toInt64, hBack, UInt64.toNat_ofNat_of_lt' hSmall, ← hLength,
        BigEndian.toBytes_toNat]
  · cases h

/-- Only identities are accepted. -/
theorem BeamWindow.toBinaryKey_of_fromBinaryKey {key : List UInt8} {window : BeamWindow}
    (h : fromBinaryKey key = some window) : window.CoderIdFits ∧ window.toBinaryKey = key := by
  unfold fromBinaryKey at h
  split at h
  · cases h
    exact ⟨trivial, rfl⟩
  · next bounds =>
      split at h
      · next hLength =>
          obtain ⟨startMillis, hStart, hRest⟩ := Option.bind_eq_some_iff.mp h
          obtain ⟨endMillis, hEnd, hWindow⟩ := Option.bind_eq_some_iff.mp hRest
          cases hWindow
          refine ⟨trivial, ?_⟩
          rw [toBinaryKey, orderedI64Bytes_of_fromBytes hStart, orderedI64Bytes_of_fromBytes hEnd,
            List.take_append_drop]
      · cases h
  · next body =>
      dsimp only at h
      split at h
      · next hLength =>
          obtain ⟨coderId, hText, hWindow⟩ := Option.bind_eq_some_iff.mp h
          cases hWindow
          rw [Nat.add_sub_cancel_left] at hText
          have hBytes := utf8Bytes_of_fromUTF8 hText
          have hFour : (body.take 4).length = 4 := List.length_take_of_le hLength.1
          have hCount : (utf8Bytes coderId).length = BigEndian.toNat (body.take 4) := by
            rw [hBytes, List.length_take, List.length_drop]
            omega
          have hSmall := BigEndian.toNat_lt (body.take 4)
          rw [hFour] at hSmall
          refine ⟨?_, ?_⟩
          · show (utf8Bytes coderId).length < 2 ^ 32
            rw [hCount]
            exact hSmall
          · have hHead := BigEndian.toBytes_toNat (body.take 4)
            rw [hFour] at hHead
            rw [toBinaryKey, hCount, hHead, hBytes, ← List.drop_drop, List.take_append_drop,
              List.take_append_drop]
      · cases h
  · cases h

/-- Flipping the sign bit is adding it. -/
theorem toNat_xor_signBit (word : UInt64) : (word ^^^ signBit).toNat = (word.toNat + 2 ^ 63) % 2 ^ 64 := by
  have hSign : signBit.toNat = 2 ^ 63 := by decide
  have hLow : ∀ low < 2 ^ 63, low ^^^ 2 ^ 63 = low + 2 ^ 63 := by
    intro low hLt
    have hOr := Nat.two_pow_add_eq_or_of_lt hLt 1
    rw [Nat.mul_one] at hOr
    rw [Nat.add_comm, hOr]
    refine Nat.eq_of_testBit_eq fun i => ?_
    rw [Nat.testBit_xor, Nat.testBit_or, Nat.testBit_two_pow]
    by_cases hTop : 63 = i
    · rw [← hTop, Nat.testBit_lt_two_pow hLt]
      rfl
    · simp [hTop]
  have hWord : word.toNat < 2 ^ 64 := word.toNat_lt
  rw [UInt64.toNat_xor, hSign]
  rcases Nat.lt_or_ge word.toNat (2 ^ 63) with hSmall | hLarge
  · rw [hLow _ hSmall, Nat.mod_eq_of_lt (by omega)]
  · obtain ⟨low, hWordEq⟩ : ∃ low, word.toNat = low + 2 ^ 63 := ⟨word.toNat - 2 ^ 63, by omega⟩
    rw [hWordEq, ← hLow low (by omega), Nat.xor_assoc, Nat.xor_self, Nat.xor_zero,
      hLow low (by omega)]
    omega

theorem orderedI64Bytes_lt {a b : Int64} : orderedI64Bytes a < orderedI64Bytes b ↔ a < b := by
  have hNat : ∀ value : Int64,
      (((value.toUInt64 ^^^ signBit).toNat : Nat) : Int) = value.toInt + 2 ^ 63 := by
    intro value
    have hBits : value.toInt = if 2 * value.toUInt64.toNat < 2 ^ 64 then (value.toUInt64.toNat : Int)
        else value.toUInt64.toNat - 2 ^ 64 := BitVec.toInt_eq_toNat_cond _
    have hLt : value.toUInt64.toNat < 2 ^ 64 := value.toUInt64.toNat_lt
    rw [toNat_xor_signBit]
    split at hBits <;> omega
  rw [orderedI64Bytes, orderedI64Bytes,
    BigEndian.toBytes_lt_toBytes (UInt64.toNat_lt _) (UInt64.toNat_lt _), Int64.lt_iff_toInt_lt]
  have hA := hNat a
  have hB := hNat b
  omega

/-- The binary identities of intervals are ordered as their bounds. -/
theorem BeamWindow.toBinaryKey_interval_lt {startMillis endMillis otherStart otherEnd : Int64} :
    (interval startMillis endMillis).toBinaryKey < (interval otherStart otherEnd).toBinaryKey ↔
      startMillis < otherStart ∨ startMillis = otherStart ∧ endMillis < otherEnd := by
  have hEqual : orderedI64Bytes startMillis = orderedI64Bytes otherStart ↔
      startMillis = otherStart := by
    constructor
    · intro hSame
      have hRead := orderedI64FromBytes_orderedI64Bytes startMillis
      rw [hSame, orderedI64FromBytes_orderedI64Bytes] at hRead
      exact (Option.some.inj hRead).symm
    · rintro rfl
      rfl
  rw [toBinaryKey, toBinaryKey, List.cons_lt_cons_iff, or_iff_right (by decide),
    and_iff_right rfl, BigEndian.append_lt_append (by simp [orderedI64Bytes]), orderedI64Bytes_lt,
    orderedI64Bytes_lt, hEqual]

/-- The two identities of a window agree, and each can be read back. -/
theorem windowIdentities_lossless {first second : BeamWindow} (hFirst : first.CoderIdFits)
    (hSecond : second.CoderIdFits) :
    (first.canonicalKey = second.canonicalKey ↔ first.toBinaryKey = second.toBinaryKey) ∧
      (first.toBinaryKey = second.toBinaryKey ↔ first = second) ∧
      BeamWindow.fromCanonicalKey first.canonicalKey = some first ∧
      BeamWindow.fromBinaryKey first.toBinaryKey = some first ∧
      (∀ key window, BeamWindow.fromBinaryKey key = some window → window.toBinaryKey = key) ∧
      ∀ startMillis endMillis otherStart otherEnd : Int64,
        (BeamWindow.interval startMillis endMillis).toBinaryKey <
            (BeamWindow.interval otherStart otherEnd).toBinaryKey ↔
          startMillis < otherStart ∨ startMillis = otherStart ∧ endMillis < otherEnd := by
  have hBinary : first.toBinaryKey = second.toBinaryKey ↔ first = second :=
    ⟨BeamWindow.toBinaryKey_injective hFirst hSecond, congrArg _⟩
  refine ⟨?_, hBinary, BeamWindow.fromCanonicalKey_canonicalKey first,
    BeamWindow.fromBinaryKey_toBinaryKey hFirst,
    fun key window hKey => (BeamWindow.toBinaryKey_of_fromBinaryKey hKey).2,
    fun _ _ _ _ => BeamWindow.toBinaryKey_interval_lt⟩
  rw [hBinary]
  exact ⟨BeamWindow.canonicalKey_injective, congrArg _⟩

/-- Two custom windows whose coder ids hold separators. -/
theorem windowIdentities_lossless_separators :
    let first : BeamWindow := .opaqueWindow "a:b" [0x1f]
    let second : BeamWindow := .opaqueWindow "a" [0xb1, 0xf0]
    (first.canonicalKey = second.canonicalKey ↔ first.toBinaryKey = second.toBinaryKey) ∧
      (first.toBinaryKey = second.toBinaryKey ↔ first = second) ∧
      BeamWindow.fromCanonicalKey first.canonicalKey = some first ∧
      BeamWindow.fromBinaryKey first.toBinaryKey = some first := by
  have hAll := windowIdentities_lossless (show (BeamWindow.opaqueWindow "a:b" [0x1f]).CoderIdFits by decide)
    (show (BeamWindow.opaqueWindow "a" [0xb1, 0xf0]).CoderIdFits by decide)
  exact ⟨hAll.1, hAll.2.1, hAll.2.2.1, hAll.2.2.2.1⟩

end FlareDB
