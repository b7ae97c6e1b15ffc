import FlareDB.Coders.Canonical
import FlareDB.Coders.VarintWidth
import FlareDB.Lib.Consumption

/-! Where decoding unwinds. Lengths of strings and doubles are checked, while
varints, bools, null indicators and counts of iterables are read past the end of
a buffer that stops before them. -/
namespace FlareDB

open ByteDecoder Decoder

/-! Primitive reads. -/

/-- No byte ends the varint. -/
def Unfinished (bytes : List UInt8) : Prop :=
  ∀ byte ∈ bytes, Continues byte

/-- A varint unwinds exactly where the buffer ends before its last byte. -/
theorem decodeVarint_eq_panic {bytes : List UInt8} : decodeVarint bytes = .panic ↔ Unfinished bytes := by
  unfold decodeVarint
  generalize 0 = shift
  generalize (0 : UInt64) = result
  induction bytes generalizing shift result with
  | nil => exact iff_of_true rfl fun _ hMem => absurd hMem List.not_mem_nil
  | cons byte bytes ih =>
      by_cases hByte : Continues byte
      · rw [decodeVarintLoop_cons hByte, ih]
        exact (List.forall_mem_cons.trans (and_iff_right hByte)).symm
      · rw [decodeVarintLoop_last hByte]
        refine iff_of_false (fun h => ?_) fun h => hByte (h byte List.mem_cons_self)
        cases h

/-- A byte is read past the end exactly where none is left. -/
theorem getU8_eq_panic {bytes : List UInt8} : getU8 bytes = .panic ↔ bytes = [] := by
  cases bytes with
  | nil => exact iff_of_true rfl rfl
  | cons byte rest => simp [getU8]

/-- A count is read past the end exactly where fewer than four bytes are left. -/
theorem getI32_eq_panic {bytes : List UInt8} : getI32 bytes = .panic ↔ bytes.length < 4 :=
  (map_eq_panic _).trans take_eq_panic

theorem decodeSignedVarint_eq_panic {bytes : List UInt8} :
    decodeSignedVarint bytes = .panic ↔ Unfinished bytes :=
  (map_eq_panic UInt64.toInt64).trans decodeVarint_eq_panic

theorem varInt32Coder_eq_panic {bytes : List UInt8} :
    VarInt32Coder.decode bytes = .panic ↔ Unfinished bytes := by
  refine (bind_eq_panic_of_quiet fun raw rest => ?_).trans decodeVarint_eq_panic
  split
  · exact fun h => by cases h
  · exact fun h => by cases h

/-- The body is read only where it is there. -/
theorem decodeLengthDelimited_eq_panic {coderName : String} {bytes : List UInt8} :
    decodeLengthDelimited coderName bytes = .panic ↔ Unfinished bytes := by
  refine (bind_eq_panic_of_quiet fun encodedLen rest => ?_).trans decodeVarint_eq_panic
  change (if encodedLen.toNat > rest.length then fail _ else take _) rest ≠ .panic
  split
  · exact fun h => by cases h
  next hEnough => exact fun h => hEnough (take_eq_panic.mp h)

/-- A string unwinds only in its length; a body that is cut off is reported. -/
theorem stringUtf8Coder_eq_panic {bytes : List UInt8} :
    StringUtf8Coder.decode bytes = .panic ↔ Unfinished bytes := by
  refine (bind_eq_panic_of_quiet fun raw rest => ?_).trans decodeLengthDelimited_eq_panic
  cases String.fromUTF8? ⟨raw.toArray⟩ with
  | none => exact fun h => by cases h
  | some value => exact fun h => by cases h

/-- A double that is cut off is reported. -/
theorem doubleCoder_ne_panic (bytes : List UInt8) : DoubleCoder.decode bytes ≠ .panic := by
  change (if bytes.length < 8 then fail _ else _) bytes ≠ .panic
  split
  · exact fun h => by cases h
  next hLong => exact fun h => hLong (take_eq_panic.mp ((map_eq_panic _).mp h))

/-! What decoders leave is an end of what they were given. -/

theorem consumes_decodeVarint : Consumes decodeVarint := by
  intro bytes value rest h
  obtain ⟨read, rfl, -⟩ := decodeVarintLoop_eq_ok h
  exact List.suffix_append read rest

theorem advances_decodeVarint : Advances decodeVarint := by
  intro bytes value rest h
  obtain ⟨read, rfl, front, last, rfl, -⟩ := decodeVarintLoop_eq_ok h
  rw [List.length_append, List.length_append, List.length_singleton]
  omega

theorem consumes_getU8 : Consumes getU8 := by
  intro bytes byte rest h
  cases bytes with
  | nil => cases h
  | cons first rest =>
      cases h
      exact List.suffix_cons _ _

theorem consumes_getI32 : Consumes getI32 :=
  (consumes_take 4).bind fun _ => consumes_pure _

theorem consumes_lengthDelimited (coderName : String) : Consumes (decodeLengthDelimited coderName) := by
  refine consumes_decodeVarint.bind fun encodedLen => consumes_remaining.bind fun remaining => ?_
  split
  · exact consumes_fail _
  · exact consumes_take _

theorem consumes_stringUtf8Coder : Consumes StringUtf8Coder.decode := by
  refine (consumes_lengthDelimited _).bind fun raw => ?_
  split
  · exact consumes_pure _
  · exact consumes_fail _

theorem consumes_javaOpaqueCoder : Consumes JavaOpaqueCoder.decode := by
  intro bytes value rest h
  cases h
  exact List.nil_suffix

theorem consumes_varInt32Coder : Consumes VarInt32Coder.decode := by
  refine consumes_decodeVarint.bind fun raw => ?_
  split
  · exact consumes_fail _
  · exact consumes_pure _

theorem consumes_doubleCoder : Consumes DoubleCoder.decode := by
  refine consumes_remaining.bind fun remaining => ?_
  split
  · exact consumes_fail _
  · exact (consumes_take 8).bind fun _ => consumes_pure _

section Elements

variable {element : CoderDecoder BeamRecord}

/-- Chunks of elements are read from the front if the elements are. -/
theorem consumes_chunks (h : Consumes element) (fuel : Nat) :
    Consumes (IterableCoder.decodeChunks element fuel) := by
  induction fuel with
  | zero => exact consumes_abort
  | succ fuel ih =>
      refine consumes_decodeVarint.bind fun chunkCount => ?_
      split
      · exact consumes_pure _
      · exact (h.times _).bind fun values => ih.bind fun others => consumes_pure _

/-- An iterable is read from the front if its elements are. -/
theorem consumes_iterable (h : Consumes element) : Consumes (IterableCoder.decode element) := by
  refine consumes_getI32.bind fun count => ?_
  split
  · exact h.times _
  · split
    · exact consumes_remaining.bind fun remaining => consumes_chunks h _
    · exact consumes_abort

theorem consumes_nullable (h : Consumes element) : Consumes (NullableCoder.decode element) := by
  refine consumes_getU8.bind fun indicator => ?_
  split
  · exact consumes_pure _
  · split
    · exact h
    · exact consumes_fail _

theorem consumes_primitive (h : Consumes element) :
    Consumes (StandardBeamCoders.decodePrimitiveWith element) := by
  refine h.bind fun record => ?_
  split
  · exact consumes_pure _
  · exact consumes_fail _

theorem consumes_key (coder : StandardBeamCoders) (h : Consumes element) :
    Consumes (StandardBeamCoders.decodeKeyWith coder element) := by
  unfold StandardBeamCoders.decodeKeyWith
  split
  · exact consumes_primitive h
  · refine h.bind fun record => ?_
    split
    · exact consumes_pure _
    · exact consumes_abort

end Elements

namespace StandardBeamCoders

mutual

/-- Every coder reads from the front. -/
theorem consumes_decodeNested : ∀ coder : StandardBeamCoders, Consumes coder.decodeNested
  | .stringUtf8 => consumes_stringUtf8Coder.bind fun _ => consumes_pure _
  | .bytes | .pickle | .lengthPrefix =>
      (consumes_lengthDelimited _).bind fun _ => consumes_pure _
  | .javaOpaque => consumes_javaOpaqueCoder.bind fun _ => consumes_pure _
  | .varInt =>
      (consumes_decodeVarint.bind fun _ => consumes_pure _).bind fun _ => consumes_pure _
  | .varInt32 => consumes_varInt32Coder.bind fun _ => consumes_pure _
  | .bool => (consumes_getU8.bind fun _ => consumes_pure _).bind fun _ => consumes_pure _
  | .double => consumes_doubleCoder.bind fun _ => consumes_pure _
  | .void => consumes_pure _
  | .iterable elementCoder =>
      (consumes_iterable (consumes_decodeNested elementCoder)).bind fun _ => consumes_pure _
  | .tuple componentCoders =>
      (consumes_decodeComponents componentCoders).bind fun _ => consumes_pure _
  | .nullable valueCoder => consumes_nullable (consumes_decodeNested valueCoder)
  | .kv keyCoder valueCoder =>
      (consumes_key keyCoder (consumes_decodeNested keyCoder)).bind fun _ =>
        (consumes_decodeNested valueCoder).bind fun _ => consumes_pure _
  | .gbk keyCoder elementCoder =>
      (consumes_key keyCoder (consumes_decodeNested keyCoder)).bind fun _ =>
        (consumes_iterable (consumes_decodeNested elementCoder)).bind fun _ => consumes_pure _

/-- So do the components of a tuple. -/
theorem consumes_decodeComponents :
    ∀ coders : List StandardBeamCoders, Consumes (decodeComponents coders)
  | [] => consumes_pure []
  | coder :: coders =>
      (consumes_primitive (consumes_decodeNested coder)).bind fun _ =>
        (consumes_decodeComponents coders).bind fun _ => consumes_pure _

end

end StandardBeamCoders

/-! Coder trees. -/

section Elements

variable (cut : List UInt8 → Prop) (element : CoderDecoder BeamRecord)

/-- One of the counted elements is cut off. -/
def RunCut (count : Nat) (bytes : List UInt8) : Prop :=
  ∃ before values rest, before < count ∧ element.times before bytes = .ok values rest ∧ cut rest

/-- The chunks stop in a count or in an element. -/
inductive ChunksCut : List UInt8 → Prop where
  | count {bytes : List UInt8} (h : Unfinished bytes) : ChunksCut bytes
  | element {bytes rest : List UInt8} {chunkCount : UInt64}
      (hCount : decodeVarint bytes = .ok chunkCount rest) (hSome : chunkCount ≠ 0)
      (h : RunCut cut element chunkCount.toNat rest) : ChunksCut bytes
  | next {bytes middle rest : List UInt8} {chunkCount : UInt64} {values : List BeamRecord}
      (hCount : decodeVarint bytes = .ok chunkCount middle) (hSome : chunkCount ≠ 0)
      (hValues : element.times chunkCount.toNat middle = .ok values rest) (h : ChunksCut rest) :
      ChunksCut bytes

/-- The count of an iterable is cut off or below the mark of an unknown length,
or one of its elements is cut off. -/
def IterableCut (bytes : List UInt8) : Prop :=
  bytes.length < 4 ∨ ∃ count rest, getI32 bytes = .ok count rest ∧
    ((0 ≤ count ∧ RunCut cut element count.toNat rest) ∨
      (count = -1 ∧ ChunksCut cut element rest) ∨ count < -1)

end Elements

/-- A key is cut off, or it is a composite one that was read from chunks too long
to be written again. -/
def KeyCut (coder : StandardBeamCoders) (cut : List UInt8 → Prop) (bytes : List UInt8) : Prop :=
  cut bytes ∨ coder.isPrimitive = false ∧ ∃ record rest,
    coder.decodeNested bytes = .ok record rest ∧ ¬ coder.LengthsFit record

namespace StandardBeamCoders

mutual

/-- The buffer ends before a varint, a bool, a null indicator or a count does. -/
def CutOff : StandardBeamCoders → List UInt8 → Prop
  | .stringUtf8, buf | .bytes, buf | .pickle, buf | .lengthPrefix, buf | .varInt, buf
  | .varInt32, buf => Unfinished buf
  | .bool, buf => buf = []
  | .javaOpaque, _ | .double, _ | .void, _ => False
  | .nullable valueCoder, buf =>
      buf = [] ∨ ∃ rest, buf = 1 :: rest ∧ CutOff valueCoder rest
  | .iterable elementCoder, buf =>
      IterableCut (CutOff elementCoder) elementCoder.decodeNested buf
  | .tuple componentCoders, buf => ComponentsCut componentCoders buf
  | .kv keyCoder valueCoder, buf =>
      KeyCut keyCoder (CutOff keyCoder) buf ∨
        ∃ key rest, keyCoder.decodeKey buf = .ok key rest ∧ CutOff valueCoder rest
  | .gbk keyCoder elementCoder, buf =>
      KeyCut keyCoder (CutOff keyCoder) buf ∨
        ∃ key rest, keyCoder.decodeKey buf = .ok key rest ∧
          IterableCut (CutOff elementCoder) elementCoder.decodeNested rest

def ComponentsCut : List StandardBeamCoders → List UInt8 → Prop
  | [], _ => False
  | coder :: coders, buf =>
      CutOff coder buf ∨ ∃ value rest,
        decodePrimitiveWith coder.decodeNested buf = .ok value rest ∧ ComponentsCut coders rest

end

end StandardBeamCoders

section Elements

variable {cut : List UInt8 → Prop} {element : CoderDecoder BeamRecord}
  (hElement : ∀ bytes, element bytes = .panic ↔ cut bytes)

include hElement

/-- A run of elements unwinds exactly where one of them is cut off. -/
theorem times_eq_panic_iff_runCut {count : Nat} {bytes : List UInt8} :
    element.times count bytes = .panic ↔ RunCut cut element count bytes := by
  rw [times_eq_panic, RunCut]
  simp only [hElement]

/-- Every chunk reads its count, so the fuel lasts. -/
theorem chunksCut_of_panic (hConsumes : Consumes element) {fuel : Nat} {bytes : List UInt8}
    (hFuel : bytes.length < fuel)
    (h : IterableCoder.decodeChunks element fuel bytes = .panic) : ChunksCut cut element bytes := by
  induction fuel generalizing bytes with
  | zero => omega
  | succ fuel ih =>
      rw [IterableCoder.decodeChunks] at h
      rcases bind_eq_panic.mp h with hCount | ⟨chunkCount, middle, hCount, hRest⟩
      · exact .count (decodeVarint_eq_panic.mp hCount)
      split at hRest
      · cases hRest
      next hSome =>
        rcases bind_eq_panic.mp hRest with hValues | ⟨values, last, hValues, hOthers⟩
        · exact .element hCount hSome ((times_eq_panic_iff_runCut hElement).mp hValues)
        · have hShorter := advances_decodeVarint bytes chunkCount middle hCount
          have hLast := (hConsumes.times _).length_le hValues
          exact .next hCount hSome hValues
            (ih (by omega) ((map_eq_panic (values ++ ·)).mp hOthers))

/-- Chunks that are cut off unwind, before the fuel runs out. -/
theorem panic_of_chunksCut (hConsumes : Consumes element) {bytes : List UInt8}
    (h : ChunksCut cut element bytes) {fuel : Nat} (hFuel : bytes.length < fuel) :
    IterableCoder.decodeChunks element fuel bytes = .panic := by
  induction h generalizing fuel with
  | count hCount =>
      obtain ⟨fuel, rfl⟩ := Nat.exists_eq_add_one_of_ne_zero (Nat.ne_of_gt (Nat.zero_lt_of_lt hFuel))
      exact bind_eq_panic.mpr (.inl (decodeVarint_eq_panic.mpr hCount))
  | element hCount hSome hRun =>
      obtain ⟨fuel, rfl⟩ := Nat.exists_eq_add_one_of_ne_zero (Nat.ne_of_gt (Nat.zero_lt_of_lt hFuel))
      refine bind_eq_panic.mpr (.inr ⟨_, _, hCount, ?_⟩)
      rw [if_neg hSome]
      exact bind_eq_panic.mpr (.inl ((times_eq_panic_iff_runCut hElement).mpr hRun))
  | next hCount hSome hValues _ ih =>
      obtain ⟨fuel, rfl⟩ := Nat.exists_eq_add_one_of_ne_zero (Nat.ne_of_gt (Nat.zero_lt_of_lt hFuel))
      have hShorter := advances_decodeVarint _ _ _ hCount
      have hLast := (hConsumes.times _).length_le hValues
      refine bind_eq_panic.mpr (.inr ⟨_, _, hCount, ?_⟩)
      rw [if_neg hSome]
      refine bind_eq_panic.mpr (.inr ⟨_, _, hValues, ?_⟩)
      exact (map_eq_panic _).mpr (ih (by omega))

/-- An iterable unwinds exactly where it is cut off. -/
theorem iterable_eq_panic (hConsumes : Consumes element) {bytes : List UInt8} :
    IterableCoder.decode element bytes = .panic ↔ IterableCut cut element bytes := by
  rw [IterableCoder.decode, bind_eq_panic, getI32_eq_panic, IterableCut]
  refine or_congr_right (exists_congr fun count => exists_congr fun rest => and_congr_right' ?_)
  by_cases hCounted : 0 ≤ count
  · rw [if_pos hCounted, times_eq_panic_iff_runCut hElement]
    constructor
    · exact fun h => .inl ⟨hCounted, h⟩
    · rintro (⟨-, h⟩ | ⟨hMark, -⟩ | hBelow)
      · exact h
      · omega
      · omega
  · rw [if_neg hCounted]
    by_cases hMark : count = -1
    · rw [if_pos hMark]
      have hChunks : (do
          let remaining ← remaining
          IterableCoder.decodeChunks element (remaining + 1)) rest = .panic ↔
            ChunksCut cut element rest :=
        ⟨chunksCut_of_panic hElement hConsumes (Nat.lt_succ_self rest.length),
          fun h => panic_of_chunksCut hElement hConsumes h (Nat.lt_succ_self rest.length)⟩
      rw [hChunks]
      constructor
      · exact fun h => .inr (.inl ⟨hMark, h⟩)
      · rintro (⟨hNot, -⟩ | ⟨-, h⟩ | hBelow)
        · exact absurd hNot hCounted
        · exact h
        · omega
    · rw [if_neg hMark]
      exact iff_of_true rfl (.inr (.inr (by omega)))

/-- A nullable value unwinds where its indicator is missing or its value is cut off. -/
theorem nullable_eq_panic {bytes : List UInt8} :
    NullableCoder.decode element bytes = .panic ↔
      bytes = [] ∨ ∃ rest, bytes = 1 :: rest ∧ cut rest := by
  rw [NullableCoder.decode, bind_eq_panic, getU8_eq_panic]
  refine or_congr_right ?_
  constructor
  · rintro ⟨indicator, rest, hIndicator, h⟩
    cases bytes with
    | nil => cases hIndicator
    | cons first bytes =>
        cases hIndicator
        split at h
        · cases h
        · split at h
          next hOne => exact ⟨rest, by rw [hOne], (hElement rest).mp h⟩
          · cases h
  · rintro ⟨rest, rfl, hRest⟩
    exact ⟨1, rest, rfl, (hElement rest).mpr hRest⟩

theorem primitive_eq_panic {bytes : List UInt8} :
    StandardBeamCoders.decodePrimitiveWith element bytes = .panic ↔ cut bytes := by
  refine (bind_eq_panic_of_quiet fun record rest => ?_).trans (hElement bytes)
  cases record.getPrimitive with
  | none => exact fun h => by cases h
  | some value => exact fun h => by cases h

omit hElement in
/-- A key unwinds exactly where its coder does. -/
theorem key_eq_panic {coder : StandardBeamCoders}
    (hCoder : ∀ bytes, coder.decodeNested bytes = .panic ↔ cut bytes) {bytes : List UInt8} :
    coder.decodeKey bytes = .panic ↔ KeyCut coder cut bytes := by
  rw [StandardBeamCoders.decodeKey, StandardBeamCoders.decodeKeyWith, KeyCut]
  by_cases hPrimitive : coder.isPrimitive = true
  · rw [if_pos hPrimitive, primitive_eq_panic hCoder, hPrimitive]
    simp
  · rw [if_neg hPrimitive, bind_eq_panic, hCoder, Bool.eq_false_iff.mpr hPrimitive]
    refine or_congr_right ?_
    simp only [true_and]
    refine exists_congr fun record => exists_congr fun rest => and_congr_right fun hRecord => ?_
    rw [← StandardBeamCoders.encodes_iff_lengthsFit coder record ⟨bytes, rest, hRecord⟩]
    cases hRaw : coder.encode record with
    | none =>
        refine iff_of_true rfl ?_
        rintro ⟨raw, hSome⟩
        cases hRaw.symm.trans hSome
    | some raw => exact iff_of_false (fun h => by cases h) fun h => h ⟨raw, hRaw⟩

end Elements

namespace StandardBeamCoders

mutual

/-- Decoding unwinds exactly where the buffer cuts it off. -/
theorem decodeNested_eq_panic_iff : ∀ (coder : StandardBeamCoders) (bytes : List UInt8),
    coder.decodeNested bytes = .panic ↔ coder.CutOff bytes
  | .stringUtf8, _ => by
      rw [decodeNested, CutOff]
      exact (map_eq_panic _).trans stringUtf8Coder_eq_panic
  | .bytes, _ | .pickle, _ | .lengthPrefix, _ => by
      rw [decodeNested, CutOff]
      exact (map_eq_panic _).trans decodeLengthDelimited_eq_panic
  | .varInt, _ => by
      rw [decodeNested, CutOff]
      exact (map_eq_panic _).trans decodeSignedVarint_eq_panic
  | .varInt32, _ => by
      rw [decodeNested, CutOff]
      exact (map_eq_panic _).trans varInt32Coder_eq_panic
  | .bool, _ => by
      rw [decodeNested, CutOff]
      exact (map_eq_panic _).trans ((map_eq_panic _).trans getU8_eq_panic)
  | .javaOpaque, _ | .void, _ => by
      rw [CutOff]
      exact iff_of_false (fun h => by cases h) id
  | .double, buf => by
      rw [decodeNested, CutOff]
      exact iff_of_false (fun h => doubleCoder_ne_panic buf ((map_eq_panic _).mp h)) id
  | .nullable valueCoder, _ => by
      rw [decodeNested, CutOff]
      exact nullable_eq_panic (decodeNested_eq_panic_iff valueCoder)
  | .iterable elementCoder, _ => by
      rw [decodeNested, CutOff]
      exact (map_eq_panic _).trans (iterable_eq_panic (decodeNested_eq_panic_iff elementCoder)
        (consumes_decodeNested elementCoder))
  | .tuple componentCoders, buf => by
      rw [decodeNested, CutOff]
      exact (map_eq_panic _).trans (decodeComponents_eq_panic_iff componentCoders buf)
  | .kv keyCoder valueCoder, _ => by
      rw [decodeNested, CutOff, bind_eq_panic]
      refine or_congr (key_eq_panic (decodeNested_eq_panic_iff keyCoder))
        (exists_congr fun key => exists_congr fun rest => and_congr_right' ?_)
      exact (map_eq_panic _).trans (decodeNested_eq_panic_iff valueCoder rest)
  | .gbk keyCoder elementCoder, _ => by
      rw [decodeNested, CutOff, bind_eq_panic]
      refine or_congr (key_eq_panic (decodeNested_eq_panic_iff keyCoder))
        (exists_congr fun key => exists_congr fun rest => and_congr_right' ?_)
      exact (map_eq_panic _).trans (iterable_eq_panic (decodeNested_eq_panic_iff elementCoder)
        (consumes_decodeNested elementCoder))

/-- A tuple unwinds exactly where one of its components is cut off. -/
theorem decodeComponents_eq_panic_iff : ∀ (coders : List StandardBeamCoders) (bytes : List UInt8),
    decodeComponents coders bytes = .panic ↔ ComponentsCut coders bytes
  | [], _ => by
      rw [ComponentsCut]
      exact iff_of_false (fun h => by cases h) id
  | coder :: coders, _ => by
      rw [decodeComponents, ComponentsCut, bind_eq_panic]
      refine or_congr (primitive_eq_panic (decodeNested_eq_panic_iff coder))
        (exists_congr fun value => exists_congr fun rest => and_congr_right' ?_)
      exact (map_eq_panic _).trans (decodeComponents_eq_panic_iff coders rest)

end

end StandardBeamCoders

end FlareDB
