import FlareDB.Coders.Window
import FlareDB.Coders.Yields

/-! Headers of elements on the wire, read back around any element coder that
knows where its own encoding ends. -/
namespace FlareDB

open ByteDecoder

/-- The coder writes the record and finds the end of what it wrote, whatever
follows. -/
def StandardBeamCoders.SelfDelimiting (coder : StandardBeamCoders) (record : BeamRecord) : Prop :=
  ∃ bytes, coder.encode record = some bytes ∧ Delimited coder.decodeNested bytes record

def CodersError.text : CodersError → String
  | .whileDecoding message => "Error while decoding: " ++ message
  | .whileEncoding message => "Error while encoding: " ++ message

theorem StandardBeamCoders.Frames.selfDelimiting {coder : StandardBeamCoders} {record : BeamRecord}
    (h : coder.Frames record) : coder.SelfDelimiting record := by
  obtain ⟨bytes, profile, hBytes, hSegment⟩ := h
  exact ⟨bytes, hBytes, hSegment.delimited⟩

/-- A window the coder is configured for. The span of an interval has to be
representable: the source subtracts without a check. -/
def WindowCoder.Matches : WindowCoder → BeamWindow → Prop
  | .global, .global => True
  | .interval, .interval startMillis endMillis =>
      startMillis.toInt ≤ endMillis.toInt ∧ endMillis.toInt - startMillis.toInt < 2 ^ 63
  | .opaqueLengthPrefixed innerCoderId, .opaqueWindow coderId raw =>
      coderId = innerCoderId ∧ raw.length < 2 ^ 64
  | _, _ => False

namespace WindowCoder.Matches

theorem fits {coder : WindowCoder} {window : BeamWindow} (h : coder.Matches window) :
    window.Fits := by
  cases window with
  | global => trivial
  | interval _ _ => trivial
  | opaqueWindow coderId raw =>
      cases coder with
      | global => exact h.elim
      | interval => exact h.elim
      | opaqueLengthPrefixed innerCoderId => exact h.2

/-- A window that matches the coder is encoded without a panic. -/
theorem exists_encodeWindow {coder : WindowCoder} {window : BeamWindow} (h : coder.Matches window) :
    ∃ bytes, coder.encodeWindow window = some bytes := by
  cases coder with
  | global =>
      cases window with
      | global => exact ⟨_, rfl⟩
      | interval _ _ => exact h.elim
      | opaqueWindow _ _ => exact h.elim
  | interval =>
      cases window with
      | global => exact h.elim
      | interval _ _ => exact ⟨_, rfl⟩
      | opaqueWindow _ _ => exact h.elim
  | opaqueLengthPrefixed innerCoderId =>
      cases window with
      | global => exact h.elim
      | interval _ _ => exact h.elim
      | opaqueWindow coderId raw => exact ⟨_, if_pos h.1⟩

theorem exists_encodeWindows {coder : WindowCoder} {windows : List BeamWindow}
    (h : ∀ window ∈ windows, coder.Matches window) :
    ∃ bytes, encodeWindows windows coder = some bytes := by
  obtain ⟨parts, hParts⟩ := exists_parts fun window hMem => (h window hMem).exists_encodeWindow
  exact ⟨_, by rw [encodeWindows, hParts]; rfl⟩

/-- A counted list of matching windows is read back, whatever follows. -/
theorem windows_unwinding {coder : WindowCoder} {windows : List BeamWindow}
    (h : ∀ window ∈ windows, coder.Matches window) (hCount : windows.length < 2 ^ 31)
    {bytes : List UInt8} (hBytes : encodeWindows windows coder = some bytes) :
    Unwinding (decodeWindows coder) bytes windows :=
  encodeWindows_unwinding (Nat.le_of_lt_succ hCount) (fun window hMem => (h window hMem).fits)
    hBytes

end WindowCoder.Matches

namespace WindowedValueCoder

/-- An encoded element comes back with its metadata and leaves what follows it
unread. -/
theorem decode_framed (coder : WindowedValueCoder) (val : WindowedValue)
    (hWindows : ∀ window ∈ val.windows, coder.windowCoder.Matches window)
    (hCount : val.windows.length < 2 ^ 31)
    (hElement : coder.elementCoder.SelfDelimiting val.value) :
    ∃ bytes, coder.encode val = some bytes ∧
      ∀ rest, coder.decode (bytes ++ rest) = .ok val rest := by
  obtain ⟨windows, hEncoded⟩ := WindowCoder.Matches.exists_encodeWindows hWindows
  obtain ⟨element, hBytes, hDelimited⟩ := hElement
  refine ⟨encodeTimestampMillis val.timestampMillis ++
    (windows ++ (encodePaneInfo val.pane ++ element)), ?_, ?_⟩
  · rw [encode, hEncoded, hBytes]
    rfl
  have hTimestamp := (encodeTimestampMillis_unwinding val.timestampMillis).delimited
  have hWindow := (WindowCoder.Matches.windows_unwinding hWindows hCount hEncoded).delimited
  have hPane := (encodePaneInfo_unwinding val.pane).delimited
  exact hTimestamp.bind (hWindow.bind (hPane.bind (hDelimited.bind_pure rfl)))

/-- A late pane of a value in two interval windows. -/
theorem decode_framed_intervals :
    let coder : WindowedValueCoder := ⟨.nullable .bytes, .interval⟩
    let val : WindowedValue := ⟨.primitive (.bytes [1, 2]), -7, [.interval (-10) 0, .interval 0 10],
      ⟨false, false, .late, 3, 1⟩⟩
    ∃ bytes, coder.encode val = some bytes ∧ ∀ rest, coder.decode (bytes ++ rest) = .ok val rest :=
  decode_framed ⟨.nullable .bytes, .interval⟩
    ⟨.primitive (.bytes [1, 2]), -7, [.interval (-10) 0, .interval 0 10],
      ⟨false, false, .late, 3, 1⟩⟩
    (by simp [WindowCoder.Matches]) (by decide)
    (StandardBeamCoders.frames_nullable (StandardBeamCoders.frames_scalar rfl
      (by simp [StandardBeamCoders.WellTypedPrimitive]))).selfDelimiting

end WindowedValueCoder
end FlareDB
