import FlareDB.Coders.RoundTrip

/-! Windows, panes and the `WindowedValue` framing of an element on a Beam data
boundary: timestamp, windows and pane precede the nested element. -/
namespace FlareDB

open ByteDecoder

/-- Beam's minimum timestamp in millis. -/
def beamMinTimestampMillis : Int64 := -9223372036854775

/-- Beam's maximum timestamp in millis. -/
def beamMaxTimestampMillis : Int64 := 9223372036854775

/-- Max timestamp of the global window: one day below the absolute maximum. -/
def globalWindowMaxTimestampMillis : Int64 := 9223371950454775

/-- A Beam window. Interval bounds are half-open. -/
inductive BeamWindow where
  | global
  | interval (startMillis endMillis : Int64)
  | opaqueWindow (coderId : String) (bytes : List UInt8)
deriving DecidableEq, Repr

/-- The last instant a window can hold. Custom windows cannot be interpreted by
the runner and take the largest timestamp. -/
def BeamWindow.maxTimestampMillis : BeamWindow → Int64
  | .global => globalWindowMaxTimestampMillis
  | .interval _ endMillis => endMillis - 1
  | .opaqueWindow _ _ => beamMaxTimestampMillis

inductive PaneTiming where
  | early
  | onTime
  | late
  | unknown
deriving DecidableEq, Repr

def PaneTiming.fromBits (bits : UInt8) : PaneTiming :=
  if bits = 0 then .early
  else if bits = 1 then .onTime
  else if bits = 2 then .late
  else .unknown

def PaneTiming.bits : PaneTiming → UInt8
  | .early => 0
  | .onTime => 1
  | .late => 2
  | .unknown => 3

/-- How one firing of a window relates to the others. -/
structure PaneInfo where
  isFirst : Bool
  isLast : Bool
  timing : PaneTiming
  index : Int64
  nonSpeculativeIndex : Int64
deriving DecidableEq, Repr

def PaneInfo.noFiring : PaneInfo where
  isFirst := true
  isLast := true
  timing := .unknown
  index := 0
  nonSpeculativeIndex := 0

/-- An element with its event-time and window metadata. -/
structure WindowedValue where
  value : BeamRecord
  timestampMillis : Int64
  windows : List BeamWindow
  pane : PaneInfo
deriving Repr

/-- The window coder resolved from a PCollection's coder graph. -/
inductive WindowCoder where
  | global
  | interval
  | opaqueLengthPrefixed (innerCoderId : String)
deriving DecidableEq, Repr

def signBit : UInt64 := 0x8000000000000000

def encodeTimestampMillis (timestampMillis : Int64) : List UInt8 :=
  BigEndian.toBytes 8 (timestampMillis.toUInt64 ^^^ signBit).toNat

def decodeTimestampMillis : CoderDecoder Int64 := do
  let raw ← Decoder.take 8
  pure (UInt64.ofNat (BigEndian.toNat raw) ^^^ signBit).toInt64

/-- `none` is the panic on a window of another kind. -/
def WindowCoder.encodeWindow : WindowCoder → BeamWindow → Option (List UInt8)
  | .global, .global => some []
  | .interval, .interval startMillis endMillis =>
      some (encodeTimestampMillis endMillis ++
        encodeVarint (endMillis - startMillis).toUInt64)
  | .opaqueLengthPrefixed innerCoderId, .opaqueWindow coderId raw =>
      if coderId = innerCoderId then some (encodeLengthDelimited raw) else none
  | _, _ => none

/-- Unlike the element coders, a short custom window unwinds. -/
def decodeOneWindow : WindowCoder → CoderDecoder BeamWindow
  | .global => pure .global
  | .interval => do
      let endMillis ← decodeTimestampMillis
      let span ← decodeVarint
      pure (.interval (endMillis - span.toInt64) endMillis)
  | .opaqueLengthPrefixed innerCoderId => do
      let len ← decodeVarint
      let raw ← Decoder.take len.toNat
      pure (.opaqueWindow innerCoderId raw)

/-- The count is truncated to 32 bits. -/
def encodeWindows (windows : List BeamWindow) (coder : WindowCoder) : Option (List UInt8) :=
  (windows.mapM coder.encodeWindow).map fun parts => putI32 windows.length ++ parts.flatten

/-- Chunks of counted windows up to a zero count; see
`IterableCoder.decodeChunks` for the fuel. -/
def decodeWindowChunks (coder : WindowCoder) : Nat → CoderDecoder (List BeamWindow)
  | 0 => Decoder.abort
  | fuel + 1 => do
      let chunkCount ← decodeVarint
      if chunkCount = 0 then pure []
      else do
        let windows ← (decodeOneWindow coder).times chunkCount.toNat
        let rest ← decodeWindowChunks coder fuel
        pure (windows ++ rest)

def decodeWindows (coder : WindowCoder) : CoderDecoder (List BeamWindow) := do
  let count ← getI32
  if 0 ≤ count then (decodeOneWindow coder).times count.toNat
  else do
    let remaining ← Decoder.remaining
    decodeWindowChunks coder (remaining + 1)

namespace PaneInfo

def derivedNonSpeculativeIndex (timing : PaneTiming) (index : Int64) : Int64 :=
  if timing = .early then -1 else index

def hasNonSpeculativeIndex (pane : PaneInfo) : Bool :=
  pane.nonSpeculativeIndex != derivedNonSpeculativeIndex pane.timing pane.index

def hasIndex (pane : PaneInfo) : Bool :=
  pane.index != 0

def firstByte (pane : PaneInfo) : UInt8 :=
  (pane.timing.bits <<< 2) ||| (if pane.isFirst then 0x01 else 0) |||
    (if pane.isLast then 0x02 else 0) |||
    (if pane.hasNonSpeculativeIndex then 0x20 else if pane.hasIndex then 0x10 else 0)

end PaneInfo

def encodePaneInfo (pane : PaneInfo) : List UInt8 :=
  pane.firstByte ::
    (if pane.hasNonSpeculativeIndex then
      encodeSignedVarint pane.index ++ encodeSignedVarint pane.nonSpeculativeIndex
    else if pane.hasIndex then encodeSignedVarint pane.index
    else [])

def decodePaneIndex (encoding : UInt8) : CoderDecoder Int64 :=
  if encoding ≥ 1 then decodeSignedVarint else pure 0

def decodeNonSpeculativeIndex (encoding : UInt8) (timing : PaneTiming) (index : Int64) :
    CoderDecoder Int64 :=
  if encoding ≥ 2 then decodeSignedVarint
  else pure (PaneInfo.derivedNonSpeculativeIndex timing index)

def decodePaneInfo : CoderDecoder PaneInfo := do
  let firstByte ← getU8
  let encoding := firstByte >>> 4
  let timing := PaneTiming.fromBits ((firstByte >>> 2) &&& 0x03)
  let isFirst := firstByte &&& 0x01 != 0
  let isLast := firstByte &&& 0x02 != 0
  let index ← decodePaneIndex encoding
  let nonSpeculativeIndex ← decodeNonSpeculativeIndex encoding timing index
  pure { isFirst, isLast, timing, index, nonSpeculativeIndex }

/-- Beam's framing around an element coder. -/
structure WindowedValueCoder where
  elementCoder : StandardBeamCoders
  windowCoder : WindowCoder

namespace WindowedValueCoder

def encode (coder : WindowedValueCoder) (val : WindowedValue) : Option (List UInt8) := do
  let windows ← encodeWindows val.windows coder.windowCoder
  let value ← coder.elementCoder.encode val.value
  pure (encodeTimestampMillis val.timestampMillis ++
    (windows ++ (encodePaneInfo val.pane ++ value)))

def decode (coder : WindowedValueCoder) : CoderDecoder WindowedValue := do
  let timestampMillis ← decodeTimestampMillis
  let windows ← decodeWindows coder.windowCoder
  let pane ← decodePaneInfo
  let value ← coder.elementCoder.decodeNested
  pure { value, timestampMillis, windows, pane }

end WindowedValueCoder

/-! Framing. Every read of the header unwinds when the cursor ends early. -/

theorem encodeTimestampMillis_unwinding (timestampMillis : Int64) :
    Unwinding decodeTimestampMillis (encodeTimestampMillis timestampMillis) timestampMillis := by
  have hLength : (encodeTimestampMillis timestampMillis).length = 8 := BigEndian.toBytes_length 8 _
  have hValue : BigEndian.toNat (encodeTimestampMillis timestampMillis) =
      (timestampMillis.toUInt64 ^^^ signBit).toNat :=
    BigEndian.toNat_toBytes_of_lt (UInt64.toNat_lt _)
  have hTake := Segment.take (ε := CodersError) (encodeTimestampMillis timestampMillis)
  unfold decodeTimestampMillis
  rw [← hLength]
  refine hTake.bind_pure ?_
  have hBack : timestampMillis.toUInt64 ^^^ signBit ^^^ signBit = timestampMillis.toUInt64 := by
    rw [UInt64.xor_assoc, UInt64.xor_self, UInt64.xor_zero]
  rw [hValue, UInt64.ofNat_toNat, hBack, Int64.toInt64_toUInt64]

/-- Window bytes that fit the address space. -/
def BeamWindow.Fits : BeamWindow → Prop
  | .opaqueWindow _ raw => raw.length < 2 ^ 64
  | _ => True

theorem encodeWindow_unwinding {coder : WindowCoder} {window : BeamWindow} (hFits : window.Fits)
    {bytes : List UInt8} (hBytes : coder.encodeWindow window = some bytes) :
    Unwinding (decodeOneWindow coder) bytes window := by
  cases coder with
  | global =>
      cases window with
      | global => cases hBytes; exact Segment.pure _
      | interval _ _ => cases hBytes
      | opaqueWindow _ _ => cases hBytes
  | interval =>
      cases window with
      | global => cases hBytes
      | opaqueWindow _ _ => cases hBytes
      | interval startMillis endMillis =>
          cases hBytes
          refine (encodeTimestampMillis_unwinding endMillis).bind
            (Unwinding.bind_pure (encodeVarint_segment _) ?_)
          have hStart : endMillis - (endMillis - startMillis) = startMillis := by
            rw [Int64.sub_eq_add_neg, Int64.neg_sub, Int64.add_comm, Int64.sub_add_cancel]
          rw [Int64.toInt64_toUInt64, hStart]
  | opaqueLengthPrefixed innerCoderId =>
      cases window with
      | global => cases hBytes
      | interval _ _ => cases hBytes
      | opaqueWindow coderId raw =>
          rw [WindowCoder.encodeWindow] at hBytes
          split at hBytes
          · next hCoder =>
              cases hBytes
              subst hCoder
              have hLen : (UInt64.ofNat raw.length).toNat = raw.length :=
                UInt64.toNat_ofNat_of_lt hFits
              have hTake : Unwinding (Decoder.take (ε := CodersError) raw.length) raw raw :=
                Segment.take raw
              refine Unwinding.bind (encodeVarint_segment _) ?_
              rw [hLen]
              exact hTake.bind_pure rfl
          · cases hBytes

theorem encodeWindows_unwinding {coder : WindowCoder} {windows : List BeamWindow}
    (hCount : windows.length ≤ i32Max) (hFits : ∀ window ∈ windows, window.Fits)
    {bytes : List UInt8} (hBytes : encodeWindows windows coder = some bytes) :
    Unwinding (decodeWindows coder) bytes windows := by
  obtain ⟨parts, hParts, rfl⟩ := Option.map_eq_some_iff.mp hBytes
  have hHead : Unwinding getI32 (putI32 windows.length) (windows.length : Int) := by
    have hPut := putI32_segment hCount
    have hLength : (putI32 windows.length).length = 4 := BigEndian.toBytes_length 4 _
    rw [← hLength] at hPut
    exact hPut
  refine hHead.bind ?_
  rw [if_pos (Int.natCast_nonneg _), Int.toNat_natCast]
  exact Unwinding.times windows
    (fun window hMem _ hWindow => encodeWindow_unwinding (hFits window hMem) hWindow) hParts

/-- The fields packed into the first byte of a pane, read back. -/
private theorem firstByte_fields (pane : PaneInfo) :
    PaneTiming.fromBits ((pane.firstByte >>> 2) &&& 0x03) = pane.timing ∧
      (pane.firstByte &&& 0x01 != 0) = pane.isFirst ∧
      (pane.firstByte &&& 0x02 != 0) = pane.isLast ∧
      pane.firstByte >>> 4 =
        (if pane.hasNonSpeculativeIndex then 2 else if pane.hasIndex then 1 else 0) := by
  unfold PaneInfo.firstByte
  generalize pane.hasNonSpeculativeIndex = extended
  generalize pane.hasIndex = indexed
  generalize pane.timing = timing
  generalize pane.isFirst = isFirst
  generalize pane.isLast = isLast
  cases timing <;> cases isFirst <;> cases isLast <;> cases extended <;> cases indexed <;> decide

/-- The index bytes a pane's layout carries. -/
private theorem paneIndex_unwinding (pane : PaneInfo) :
    ∃ index other, encodePaneInfo pane = [pane.firstByte] ++ (index ++ other) ∧
      Unwinding (decodePaneIndex (pane.firstByte >>> 4)) index pane.index ∧
      Unwinding (decodeNonSpeculativeIndex (pane.firstByte >>> 4) pane.timing pane.index) other
        pane.nonSpeculativeIndex := by
  obtain ⟨_, _, _, hEncoding⟩ := firstByte_fields pane
  have hIndex : Unwinding decodeSignedVarint (encodeSignedVarint pane.index) pane.index :=
    encodeSignedVarint_segment _
  have hOther : Unwinding decodeSignedVarint (encodeSignedVarint pane.nonSpeculativeIndex)
      pane.nonSpeculativeIndex := encodeSignedVarint_segment _
  rw [hEncoding]
  unfold encodePaneInfo
  by_cases hExtended : pane.hasNonSpeculativeIndex = true
  · refine ⟨_, _, by rw [if_pos hExtended]; rfl, ?_, ?_⟩
    · rw [if_pos hExtended]
      exact hIndex
    · rw [if_pos hExtended]
      exact hOther
  · have hDerived : pane.nonSpeculativeIndex =
        PaneInfo.derivedNonSpeculativeIndex pane.timing pane.index := by
      simpa [PaneInfo.hasNonSpeculativeIndex] using hExtended
    rw [if_neg hExtended, if_neg hExtended, hDerived]
    by_cases hIndexed : pane.hasIndex = true
    · refine ⟨_, [], by rw [if_pos hIndexed, List.append_nil]; rfl, ?_, ?_⟩
      · rw [if_pos hIndexed]
        exact hIndex
      · rw [if_pos hIndexed]
        exact Segment.pure _
    · have hZero : pane.index = 0 := by simpa [PaneInfo.hasIndex] using hIndexed
      refine ⟨[], [], by rw [if_neg hIndexed]; rfl, ?_, ?_⟩
      · rw [if_neg hIndexed, hZero]
        exact Segment.pure _
      · rw [if_neg hIndexed]
        exact Segment.pure _

theorem encodePaneInfo_unwinding (pane : PaneInfo) :
    Unwinding decodePaneInfo (encodePaneInfo pane) pane := by
  obtain ⟨hTiming, hFirst, hLast, _⟩ := firstByte_fields pane
  obtain ⟨index, other, hBytes, hIndex, hOther⟩ := paneIndex_unwinding pane
  have hByte : Unwinding getU8 [pane.firstByte] pane.firstByte := getU8_segment _
  rw [hBytes]
  refine hByte.bind ?_
  simp only [hTiming, hFirst, hLast]
  exact hIndex.bind (hOther.bind_pure rfl)

namespace WindowedValueCoder

/-- A value the coder accepts. Its windows can declare their count and their
bytes fit the address space. -/
structure WellTyped (coder : WindowedValueCoder) (val : WindowedValue) : Prop where
  element : coder.elementCoder.WellTyped val.value
  count : val.windows.length ≤ i32Max
  windows : ∀ window ∈ val.windows, window.Fits

def headerLength (coder : WindowedValueCoder) (val : WindowedValue) : Nat :=
  8 + ((encodeWindows val.windows coder.windowCoder).getD []).length +
    (encodePaneInfo val.pane).length

/-- The header unwinds at every cut; the element follows its coder's profile. -/
def underflowProfile (coder : WindowedValueCoder) (val : WindowedValue) : List Bool :=
  List.replicate (coder.headerLength val) false ++ coder.elementCoder.underflowProfile val.value

theorem encode_segment {coder : WindowedValueCoder} {val : WindowedValue}
    (hOpaque : coder.elementCoder.noJavaOpaque = true) (hTyped : coder.WellTyped val)
    {bytes : List UInt8} (hBytes : coder.encode val = some bytes) :
    Segment coder.decode bytes (coder.underflowProfile val) val := by
  obtain ⟨windows, hWindows, hRest⟩ := Option.bind_eq_some_iff.mp hBytes
  obtain ⟨value, hValue, hAppend⟩ := Option.bind_eq_some_iff.mp hRest
  cases hAppend
  have hElement := coder.elementCoder.encode_segment val.value value hOpaque hTyped.element hValue
  have hTimestamp := encodeTimestampMillis_unwinding val.timestampMillis
  have hWindow := encodeWindows_unwinding hTyped.count hTyped.windows hWindows
  have hPane := encodePaneInfo_unwinding val.pane
  have hProfile : coder.underflowProfile val =
      List.replicate (encodeTimestampMillis val.timestampMillis).length false ++
        (List.replicate windows.length false ++
          (List.replicate (encodePaneInfo val.pane).length false ++
            coder.elementCoder.underflowProfile val.value)) := by
    have hEight : (encodeTimestampMillis val.timestampMillis).length = 8 :=
      BigEndian.toBytes_length 8 _
    simp only [underflowProfile, headerLength, hWindows, Option.getD_some, hEight,
      ← List.append_assoc, List.replicate_append_replicate, Nat.add_assoc]
  rw [hProfile]
  exact Segment.bind hTimestamp (Segment.bind hWindow (Segment.bind hPane
    (hElement.bind_pure rfl)))

theorem encode_ne_nil {coder : WindowedValueCoder} {val : WindowedValue} {bytes : List UInt8}
    (hBytes : coder.encode val = some bytes) : bytes ≠ [] := by
  obtain ⟨windows, _, hRest⟩ := Option.bind_eq_some_iff.mp hBytes
  obtain ⟨value, _, hAppend⟩ := Option.bind_eq_some_iff.mp hRest
  cases hAppend
  simp [encodePaneInfo]

end WindowedValueCoder
end FlareDB
