import FlareDB.Coders.RoundTrip
import FlareDB.Coders.VarintWidth
import FlareDB.Engine.Metrics
import FlareDB.Lib.Consumption

/-! Metric payloads are read back as they were written, and reading any bytes ends
with a value or an error. -/
namespace FlareDB.Metrics

open ByteDecoder Decoder

/-! Varints. -/

/-- A varint is written in as many bytes as the loop has fuel at most. -/
theorem length_encodeVarintLoop_le (fuel : Nat) (value : UInt64) :
    (encodeVarintLoop fuel value).length ≤ fuel := by
  induction fuel generalizing value with
  | zero => exact Nat.le_refl _
  | succ fuel ih =>
      rw [encodeVarintLoop]
      split
      · rw [List.length_cons]
        exact Nat.succ_le_succ (ih _)
      · simp

/-- The check does not fail as long as the shift stays within the word. -/
theorem decodeVarintCheckedLoop_of_short {read rest : List UInt8} {shift : Nat}
    {result value : UInt64} (h : decodeVarintLoop shift result (read ++ rest) = .ok value rest)
    (hShort : shift + 7 * read.length ≤ 70) :
    decodeVarintCheckedLoop shift result (read ++ rest) = .ok value rest := by
  induction read generalizing shift result with
  | nil =>
      obtain ⟨other, hRest, front, last, hOther, -⟩ := decodeVarintLoop_eq_ok h
      rw [hOther, List.nil_append] at hRest
      have hLength := congrArg List.length hRest
      simp only [List.length_append, List.length_cons] at hLength
      omega
  | cons byte read ih =>
      rw [List.length_cons] at hShort
      have hShift : shift < 64 := by omega
      rw [List.cons_append] at h ⊢
      rw [decodeVarintCheckedLoop, if_pos hShift]
      dsimp only
      by_cases hByte : Continues byte
      · rw [decodeVarintLoop_cons hByte] at h
        rw [if_neg hByte]
        exact ih h (by omega)
      · rw [decodeVarintLoop_last hByte] at h
        rw [if_pos (not_not.mp hByte)]
        obtain ⟨hValue, hRest⟩ := Outcome.ok.inj h
        rw [hValue, hRest]

/-- A varint is read back and ends where it stands. -/
theorem delimited_varint (value : UInt64) :
    Delimited decodeVarintChecked (encodeVarint value) value := by
  intro rest
  have hLength := length_encodeVarintLoop_le 10 value
  exact decodeVarintCheckedLoop_of_short ((encodeVarint_segment value).frames rest)
    (by rw [encodeVarint]; omega)

/-- A signed varint is read back as it was written, negative values in ten bytes. -/
theorem delimited_signedVarint (value : Int64) :
    Delimited decodeSignedVarint (encodeSignedVarint value) value :=
  (delimited_varint value.toUInt64).bind_pure (by rw [Int64.toInt64_toUInt64])

/-- A varint that was read took a byte at least. -/
theorem decodeVarintCheckedLoop_eq_ok {bytes rest : List UInt8} {shift : Nat}
    {result value : UInt64} (h : decodeVarintCheckedLoop shift result bytes = .ok value rest) :
    ∃ byte read, bytes = byte :: (read ++ rest) := by
  induction bytes generalizing shift result with
  | nil => cases h
  | cons byte bytes ih =>
      rw [decodeVarintCheckedLoop] at h
      split at h
      · dsimp only at h
        split at h
        · cases h
          exact ⟨byte, [], rfl⟩
        · obtain ⟨next, read, rfl⟩ := ih h
          exact ⟨byte, next :: read, rfl⟩
      · cases h

/-- Reading a varint makes progress. -/
theorem decodeVarintChecked_advances : Advances decodeVarintChecked := by
  intro bytes value rest h
  obtain ⟨byte, read, rfl⟩ := decodeVarintCheckedLoop_eq_ok h
  rw [List.length_cons, List.length_append]
  omega

/-- Reading a varint leaves a part of the bytes it was given. -/
theorem consumes_varint : Consumes decodeVarintChecked := by
  intro bytes value rest h
  obtain ⟨byte, read, rfl⟩ := decodeVarintCheckedLoop_eq_ok h
  exact List.suffix_append (byte :: read) rest

/-- Reading a payload never unwinds. -/
abbrev Quiet {α : Type} (d : MetricDecoder α) : Prop :=
  Reports (fun _ => True) d

/-- Reading a varint from any bytes does not unwind. -/
theorem quiet_varint : Quiet decodeVarintChecked := by
  have hLoop : ∀ (bytes : List UInt8) (shift : Nat) (result : UInt64),
      decodeVarintCheckedLoop shift result bytes ≠ .panic := by
    intro bytes
    induction bytes with
    | nil =>
        intro shift result h
        cases h
    | cons byte bytes ih =>
        intro shift result h
        rw [decodeVarintCheckedLoop] at h
        split at h
        · dsimp only at h
          split at h
          · cases h
          · exact ih _ _ h
        · cases h
  exact fun bytes => ⟨hLoop bytes 0 0, fun _ _ => trivial⟩

theorem quiet_signedVarint : Quiet decodeSignedVarint :=
  quiet_varint.bind fun value => reports_pure _ value.toInt64

/-! Distributions and gauges. -/

/-- A distribution is read back from its four varints. -/
theorem delimited_distribution (distribution : Distribution) :
    Delimited readDistribution (encodeDistribution distribution) distribution := by
  rw [encodeDistribution, List.append_assoc, List.append_assoc]
  exact (delimited_signedVarint _).bind ((delimited_signedVarint _).bind
    ((delimited_signedVarint _).bind ((delimited_signedVarint _).bind_pure rfl)))

theorem quiet_distribution : Quiet readDistribution :=
  quiet_signedVarint.bind fun _ => quiet_signedVarint.bind fun _ =>
    quiet_signedVarint.bind fun _ => quiet_signedVarint.bind fun _ => reports_pure _ _

/-- A gauge is read back from its two varints. -/
theorem delimited_gauge (gauge : Gauge) : Delimited readGauge (encodeGauge gauge) gauge :=
  (delimited_signedVarint _).bind ((delimited_signedVarint _).bind_pure rfl)

theorem quiet_gauge : Quiet readGauge :=
  quiet_signedVarint.bind fun _ => quiet_signedVarint.bind fun _ => reports_pure _ _

/-! String sets. -/

/-- A string is read back behind its length. -/
theorem delimited_string {value : String} (h : (utf8Bytes value).length < 2 ^ 64) :
    Delimited decodeString (encodeString value) value := by
  refine (delimited_varint _).bind fun rest => ?_
  have hLen : (UInt64.ofNat (utf8Bytes value).length).toNat = (utf8Bytes value).length := by
    rw [UInt64.toNat_ofNat']
    exact Nat.mod_eq_of_lt h
  have hEnough : ¬ (utf8Bytes value ++ rest).length < (utf8Bytes value).length := by simp
  rw [hLen, bind_apply, takeChecked_apply, if_neg hEnough]
  simp only [List.take_left, List.drop_left, fromUTF8_utf8Bytes]
  rfl

theorem quiet_string : Quiet decodeString := by
  refine quiet_varint.bind fun len => (reports_takeChecked trivial _).bind fun bytes => ?_
  split
  · exact reports_pure _ _
  · exact reports_fail trivial

/-- A string that was read is as long as its length said. -/
theorem ensures_string : Ensures (fun value => (utf8Bytes value).length < 2 ^ 64) decodeString := by
  intro bytes value rest h
  obtain ⟨len, middle, -, h⟩ := bind_eq_ok h
  obtain ⟨raw, last, hRaw, h⟩ := bind_eq_ok h
  rw [takeChecked_apply] at hRaw
  split at hRaw
  · cases hRaw
  · cases hRaw
    cases hFound : String.fromUTF8? ⟨(middle.take len.toNat).toArray⟩ with
    | none =>
        rw [hFound] at h
        cases h
    | some found =>
        rw [hFound] at h
        cases h
        rw [utf8Bytes_of_fromUTF8 hFound, List.length_take]
        exact Nat.lt_of_le_of_lt (Nat.min_le_left _ _) len.toNat_lt

/-- Reading a string takes bytes from the front. -/
theorem consumes_string : Consumes decodeString := by
  refine consumes_varint.bind fun len => (consumes_takeChecked _ _).bind fun bytes => ?_
  split
  · exact consumes_pure _
  · exact consumes_fail _

/-- Each chunk reads its count, so the fuel lasts. -/
theorem readChunks_ne_panic {fuel : Nat} {bytes : List UInt8} (h : bytes.length < fuel) :
    readChunks fuel bytes ≠ .panic := by
  induction fuel generalizing bytes with
  | zero => exact absurd h (Nat.not_lt_zero _)
  | succ fuel ih =>
      intro hPanic
      rw [readChunks, bind_eq_panic] at hPanic
      rcases hPanic with hCount | ⟨count, middle, hCount, hPanic⟩
      · exact (quiet_varint bytes).1 hCount
      · split at hPanic
        · cases hPanic
        · rcases bind_eq_panic.mp hPanic with hValues | ⟨values, last, hValues, hPanic⟩
          · exact ((quiet_string.times _) middle).1 hValues
          · have hShorter := decodeVarintChecked_advances bytes count middle hCount
            have hLast := (consumes_string.times _).length_le hValues
            rcases bind_eq_panic.mp hPanic with hRest | ⟨others, left, -, hPure⟩
            · exact ih (by omega) hRest
            · cases hPure

/-- Reading a string set from any bytes does not unwind, whatever counts stand there. -/
theorem quiet_stringSet : Quiet readStringSet := by
  refine (reports_takeChecked trivial _).bind fun raw => ?_
  split
  · exact (quiet_string.times _).bind fun values => reports_pure _ _
  · split
    · intro bytes
      refine ⟨fun hPanic => ?_, fun _ _ => trivial⟩
      exact readChunks_ne_panic (Nat.lt_succ_self bytes.length) hPanic
    · exact reports_fail trivial

/-- The entries read from a chunked set are short enough to be written again. -/
theorem ensures_chunks (fuel : Nat) :
    Ensures (fun values => ∀ value ∈ values, (utf8Bytes value).length < 2 ^ 64)
      (readChunks fuel) := by
  induction fuel with
  | zero =>
      intro bytes values rest h
      cases h
  | succ fuel ih =>
      refine ensures_bind _ fun count => ?_
      split
      · exact ensures_pure fun value hMem => absurd hMem (Finset.notMem_empty value)
      · refine (ensures_string.times _).bind fun values hValues => ih.bind fun others hOthers => ?_
        refine ensures_pure fun value hMem => ?_
        rcases Finset.mem_union.mp hMem with hValue | hOther
        · exact hValues value (List.mem_toFinset.mp hValue)
        · exact hOthers value hOther

/-- What is read as a string set can be written as one. -/
theorem ensures_stringSet :
    Ensures (fun values => ∀ value ∈ values, (utf8Bytes value).length < 2 ^ 64) readStringSet := by
  refine ensures_bind _ fun raw => ?_
  split
  · refine (ensures_string.times _).bind fun values hValues => ensures_pure fun value hMem => ?_
    exact hValues value (List.mem_toFinset.mp hMem)
  · split
    · exact ensures_bind _ fun remaining => ensures_chunks _
    · exact ensures_fail _ _

/-- Strings that follow one another are read back in turn. -/
theorem delimited_strings {values : List String}
    (h : ∀ value ∈ values, (utf8Bytes value).length < 2 ^ 64) :
    Delimited (decodeString.times values.length) (values.flatMap encodeString) values := by
  induction values with
  | nil => exact Delimited.pure []
  | cons value values ih =>
      have hTail := ih fun other hMem => h other (List.mem_cons_of_mem _ hMem)
      exact (delimited_string (h value List.mem_cons_self)).bind (hTail.bind_pure rfl)

/-- A counted string set is read back from its sorted entries. -/
theorem delimited_stringSet {values : Finset String} (hCount : values.card ≤ i32Max)
    (h : ∀ value ∈ values, (utf8Bytes value).length < 2 ^ 64) :
    Delimited readStringSet (putI32 values.card ++ (values.sort (· ≤ ·)).flatMap encodeString)
      values := by
  have hSmall : values.card < 2 ^ 31 := by
    rw [i32Max] at hCount
    omega
  have hNumber : signedCount (putI32 values.card) = values.card := by
    have hBack : BigEndian.toNat (putI32 values.card) = values.card :=
      BigEndian.toNat_toBytes_of_lt (by omega)
    rw [signedCount, hBack, if_pos hSmall]
  have hStrings : Delimited (decodeString.times (values.sort (· ≤ ·)).length)
      ((values.sort (· ≤ ·)).flatMap encodeString) (values.sort (· ≤ ·)) :=
    delimited_strings fun value hMem => h value ((Finset.mem_sort _).mp hMem)
  rw [Finset.length_sort] at hStrings
  intro rest
  have hEnough : ¬ (putI32 values.card ++
      ((values.sort (· ≤ ·)).flatMap encodeString ++ rest)).length < 4 := by
    rw [List.length_append, putI32, BigEndian.toBytes_length]
    omega
  have hTake : (putI32 values.card).length = 4 := BigEndian.toBytes_length 4 _
  rw [List.append_assoc, readStringSet, bind_apply, takeChecked_apply, if_neg hEnough]
  dsimp only
  rw [List.take_left' hTake, List.drop_left' hTake, hNumber, if_pos (Int.natCast_nonneg _),
    Int.toNat_natCast, bind_apply, hStrings rest]
  dsimp only
  rw [Finset.sort_toFinset]
  rfl

/-! Whole payloads. -/

/-- A payload that ends with its value has no trailing bytes. -/
theorem readPayload_of_delimited {α : Type} {d : MetricDecoder α} {payload : List UInt8} {value : α}
    (h : Delimited d payload value) (trailing : String) :
    readPayload d trailing payload = .ok value := by
  have hAll := h []
  rw [List.append_nil] at hAll
  rw [readPayload, hAll]
  rfl

/-- A payload that is accepted is its value's encoding to the last byte. -/
theorem readPayload_eq_ok {α : Type} {d : MetricDecoder α} {trailing : String}
    {payload : List UInt8} {value : α} (h : readPayload d trailing payload = .ok value) :
    d payload = .ok value [] := by
  rw [readPayload] at h
  split at h
  next found rest hFound =>
    split at h
    next hEmpty =>
      cases h
      rw [hFound, List.isEmpty_iff.mp hEmpty]
    · cases h
  · cases h
  · cases h

/-- Reading a payload with a quiet decoder ends with a value or an error. -/
theorem readPayload_ne_panic {α : Type} {d : MetricDecoder α} (h : Quiet d) (trailing : String)
    (payload : List UInt8) : readPayload d trailing payload ≠ .error .panic := by
  intro hPanic
  rw [readPayload] at hPanic
  split at hPanic
  · split at hPanic
    · cases hPanic
    · cases hPanic
  · cases hPanic
  next hUnwound => exact (h payload).1 hUnwound

end FlareDB.Metrics
