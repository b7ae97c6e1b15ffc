import FlareDB.Coders.Framing
import FlareDB.Engine.Timer
import FlareDB.Transforms.WindowIdentity

/-! Timers on the wire and in the store. A timer an SDK sets is decoded, stored
under the text of its window, and encoded again when it fires. -/
namespace FlareDB

open ByteDecoder

/-- A decoded user timer. The key is kept encoded. -/
structure WireTimer where
  userKey : List UInt8
  tag : String
  windows : List BeamWindow
  clear : Bool
  fireTimestamp : Int64
  holdTimestamp : Int64
  pane : PaneInfo
deriving Repr

/-- The coders of a timer family. -/
structure TimerCoder where
  keyCoder : StandardBeamCoders
  windowCoder : WindowCoder

namespace TimerCoder

/-- The key is encoded again after it was read: a decoder does not know how many
bytes it took. -/
def decodeUserKey (coder : TimerCoder) : CoderDecoder (List UInt8) := do
  let key ← coder.keyCoder.decode.mapError fun reason =>
    .whileDecoding ("timer key: " ++ reason.text)
  match coder.keyCoder.encode key with
  | some userKey => pure userKey
  | none => Decoder.abort

def decodeTag : CoderDecoder String := do
  let len ← decodeVarint
  let bytes ← Decoder.take len.toNat
  match String.fromUTF8? ⟨bytes.toArray⟩ with
  | some tag => pure tag
  | none => Decoder.fail (.whileDecoding "timer tag: invalid UTF-8")

/-- Firing time, hold and pane; a cleared timer carries none. -/
def decodeFiring (clear : Bool) : CoderDecoder (Int64 × Int64 × PaneInfo) :=
  if clear then pure (0, 0, .noFiring)
  else do
    let fireTimestamp ← decodeTimestampMillis
    let holdTimestamp ← decodeTimestampMillis
    let pane ← decodePaneInfo
    pure (fireTimestamp, holdTimestamp, pane)

def decode (coder : TimerCoder) : CoderDecoder WireTimer := do
  let userKey ← coder.decodeUserKey
  let tag ← decodeTag
  let windows ← decodeWindows coder.windowCoder
  let clearByte ← getU8
  let clear := clearByte != 0
  let (fireTimestamp, holdTimestamp, pane) ← decodeFiring clear
  pure { userKey, tag, windows, clear, fireTimestamp, holdTimestamp, pane }

def encodeFiring (timer : WireTimer) : List UInt8 :=
  if timer.clear then []
  else encodeTimestampMillis timer.fireTimestamp ++
    (encodeTimestampMillis timer.holdTimestamp ++ encodePaneInfo timer.pane)

/-- `none` is the panic on a window of another kind. -/
def encodeInto (coder : TimerCoder) (timer : WireTimer) : Option (List UInt8) := do
  let windows ← encodeWindows timer.windows coder.windowCoder
  pure (timer.userKey ++ (encodeLengthDelimited (utf8Bytes timer.tag) ++
    (windows ++ ((if timer.clear then 1 else 0) :: encodeFiring timer))))

end TimerCoder

/-- The stored entry of a decoded timer. -/
def timerEntry (transformId timerFamilyId : String) (timer : WireTimer) (domain : TimeDomain) :
    TimerEntry where
  key := {
    transformId := transformId
    timerFamilyId := timerFamilyId
    tag := timer.tag
    window := (timer.windows.head?.map BeamWindow.canonicalKey).getD "global"
    userKey := timer.userKey }
  domain := domain
  fireTimestamp := timer.fireTimestamp.toInt
  holdTimestamp := timer.holdTimestamp.toInt

/-- The wire timer of a fired entry. -/
def timerToWire (entry : TimerEntry) : Option WireTimer := do
  let window ← BeamWindow.fromCanonicalKey entry.key.window
  pure {
    userKey := entry.key.userKey
    tag := entry.key.tag
    windows := [window]
    clear := false
    fireTimestamp := Int64.ofInt entry.fireTimestamp
    holdTimestamp := Int64.ofInt entry.holdTimestamp
    pane := .noFiring }

namespace TimerCoder

/-- The user key is what the key coder writes for some key, and reads back. -/
def Keyed (coder : TimerCoder) (userKey : List UInt8) : Prop :=
  ∃ key, coder.keyCoder.SelfDelimiting key ∧ coder.keyCoder.encode key = some userKey

theorem decodeUserKey_delimited {coder : TimerCoder} {userKey : List UInt8}
    (h : coder.Keyed userKey) : Delimited coder.decodeUserKey userKey userKey := by
  obtain ⟨key, ⟨bytes, hBytes, hDelimited⟩, hEncode⟩ := h
  cases hBytes.symm.trans hEncode
  have hRead : Delimited coder.keyCoder.decode userKey key := hDelimited
  refine (hRead.mapError _).bind_pure ?_
  rw [hEncode]

theorem decodeTag_delimited {tag : String} (h : (utf8Bytes tag).length < 2 ^ 64) :
    Delimited decodeTag (encodeLengthDelimited (utf8Bytes tag)) tag := by
  have hLength : (UInt64.ofNat (utf8Bytes tag).length).toNat = (utf8Bytes tag).length :=
    UInt64.toNat_ofNat_of_lt' h
  have hTake := (Segment.take (ε := CodersError) (utf8Bytes tag)).delimited
  refine (encodeVarint_segment _).delimited.bind ?_
  rw [hLength]
  refine hTake.bind_pure ?_
  rw [fromUTF8_utf8Bytes]

theorem decodeFiring_delimited {timer : WireTimer} (hSet : timer.clear = false) :
    Delimited (decodeFiring false) (encodeFiring timer)
      (timer.fireTimestamp, timer.holdTimestamp, timer.pane) := by
  have hFire := (encodeTimestampMillis_unwinding timer.fireTimestamp).delimited
  have hHold := (encodeTimestampMillis_unwinding timer.holdTimestamp).delimited
  have hPane := (encodePaneInfo_unwinding timer.pane).delimited
  rw [encodeFiring, hSet, if_neg (by decide)]
  exact hFire.bind (hHold.bind (hPane.bind_pure rfl))

/-- A timer that is set comes back from its wire form. -/
theorem decode_encodeInto {coder : TimerCoder} {timer : WireTimer} (hSet : timer.clear = false)
    (hKey : coder.Keyed timer.userKey) (hTag : (utf8Bytes timer.tag).length < 2 ^ 64)
    (hWindows : ∀ window ∈ timer.windows, coder.windowCoder.Matches window)
    (hCount : timer.windows.length < 2 ^ 31) :
    ∃ bytes, coder.encodeInto timer = some bytes ∧ Delimited coder.decode bytes timer := by
  obtain ⟨windows, hEncoded⟩ := WindowCoder.Matches.exists_encodeWindows hWindows
  refine ⟨timer.userKey ++ (encodeLengthDelimited (utf8Bytes timer.tag) ++
    (windows ++ ([0] ++ encodeFiring timer))), ?_, ?_⟩
  · rw [encodeInto, hEncoded, hSet]
    rfl
  have hWindow := (WindowCoder.Matches.windows_unwinding hWindows hCount hEncoded).delimited
  have hClear : Delimited getU8 [0] 0 := fun _ => rfl
  refine (decodeUserKey_delimited hKey).bind ((decodeTag_delimited hTag).bind (hWindow.bind
    (hClear.bind ((decodeFiring_delimited hSet).bind_pure ?_))))
  dsimp only
  rw [show ((0 : UInt8) != 0) = false from rfl, ← hSet]

end TimerCoder

/-- The parts of a timer's storage key. -/
def TimerKey.parts (key : TimerKey) : List (List UInt8) :=
  [utf8Bytes key.transformId, utf8Bytes key.timerFamilyId, utf8Bytes key.tag,
    utf8Bytes key.window, key.userKey]

/-- Every part can record its length in four bytes. -/
def TimerKey.Fits (key : TimerKey) : Prop :=
  ∀ part ∈ key.parts, part.length < 2 ^ 32

/-- Timers share a storage key only when they are the same timer. -/
theorem TimerKey.storageKey_injective {first second : TimerKey} (hFirst : first.Fits)
    (hSecond : second.Fits) (h : first.storageKey = second.storageKey) : first = second := by
  have hParts : first.parts = second.parts := BigEndian.counted_injective
    (show ∀ part ∈ first.parts, part.length < 256 ^ 4 from hFirst) hSecond rfl h
  simp only [TimerKey.parts, List.cons.injEq, and_true] at hParts
  obtain ⟨hTransform, hFamily, hTag, hWindow, hUserKey⟩ := hParts
  cases first
  cases second
  rw [TimerKey.mk.injEq]
  exact ⟨utf8Bytes_injective hTransform, utf8Bytes_injective hFamily, utf8Bytes_injective hTag,
    utf8Bytes_injective hWindow, hUserKey⟩

/-- What a stored timer fires as: its pane says nothing of the firing that set
it. -/
theorem timerToWire_timerEntry (transformId timerFamilyId : String) (domain : TimeDomain)
    {timer : WireTimer} {window : BeamWindow} (hSet : timer.clear = false)
    (hWindow : timer.windows = [window]) :
    timerToWire (timerEntry transformId timerFamilyId timer domain) =
      some { timer with pane := .noFiring } := by
  simp [timerToWire, timerEntry, hWindow, hSet, BeamWindow.fromCanonicalKey_canonicalKey]

theorem timerEntry_storageKey {transformId timerFamilyId otherTransform otherFamily : String}
    {domain otherDomain : TimeDomain} {timer other : WireTimer} {window otherWindow : BeamWindow}
    (hWindow : timer.windows = [window]) (hOther : other.windows = [otherWindow])
    (hFits : (timerEntry transformId timerFamilyId timer domain).key.Fits)
    (hOtherFits : (timerEntry otherTransform otherFamily other otherDomain).key.Fits) :
    (timerEntry transformId timerFamilyId timer domain).key.storageKey =
        (timerEntry otherTransform otherFamily other otherDomain).key.storageKey ↔
      transformId = otherTransform ∧ timerFamilyId = otherFamily ∧ timer.tag = other.tag ∧
        window = otherWindow ∧ timer.userKey = other.userKey := by
  constructor
  · intro hSame
    have hKey := TimerKey.storageKey_injective hFits hOtherFits hSame
    simp only [timerEntry, hWindow, hOther, TimerKey.mk.injEq, List.head?_cons, Option.map_some,
      Option.getD_some] at hKey
    exact ⟨hKey.1, hKey.2.1, hKey.2.2.1, BeamWindow.canonicalKey_injective hKey.2.2.2.1,
      hKey.2.2.2.2⟩
  · rintro ⟨rfl, rfl, hTag, rfl, hUserKey⟩
    simp only [timerEntry, hWindow, hOther, hTag, hUserKey]

/-- A timer that was set is stored, fired and decoded as it was, and no other
timer is stored in its place. -/
theorem timer_restored (coder : TimerCoder) (transformId timerFamilyId : String)
    (domain : TimeDomain) {timer : WireTimer} {window : BeamWindow}
    (hSet : timer.clear = false) (hWindow : timer.windows = [window])
    (hMatches : coder.windowCoder.Matches window) (hKey : coder.Keyed timer.userKey)
    (hTag : (utf8Bytes timer.tag).length < 2 ^ 64) :
    (∃ bytes again, coder.encodeInto timer = some bytes ∧
        (∀ rest, coder.decode (bytes ++ rest) = .ok timer rest) ∧
        (timerToWire (timerEntry transformId timerFamilyId timer domain)).bind coder.encodeInto =
          some again ∧
        ∀ rest, coder.decode (again ++ rest) = .ok { timer with pane := .noFiring } rest) ∧
      ∀ (otherTransform otherFamily : String) (otherDomain : TimeDomain) (other : WireTimer)
        (otherWindow : BeamWindow), other.windows = [otherWindow] →
        (timerEntry transformId timerFamilyId timer domain).key.Fits →
        (timerEntry otherTransform otherFamily other otherDomain).key.Fits →
        ((timerEntry transformId timerFamilyId timer domain).key.storageKey =
            (timerEntry otherTransform otherFamily other otherDomain).key.storageKey ↔
          transformId = otherTransform ∧ timerFamilyId = otherFamily ∧ timer.tag = other.tag ∧
            window = otherWindow ∧ timer.userKey = other.userKey) := by
  have hMatching : ∀ other ∈ timer.windows, coder.windowCoder.Matches other := by
    rw [hWindow]
    exact List.forall_mem_singleton.mpr hMatches
  have hCount : timer.windows.length < 2 ^ 31 := by
    rw [hWindow, List.length_singleton]
    decide
  obtain ⟨bytes, hBytes, hDecode⟩ := TimerCoder.decode_encodeInto hSet hKey hTag hMatching hCount
  obtain ⟨again, hAgain, hDecodeAgain⟩ := TimerCoder.decode_encodeInto
    (show ({ timer with pane := .noFiring } : WireTimer).clear = false from hSet) hKey hTag
    hMatching hCount
  refine ⟨⟨bytes, again, hBytes, hDecode, ?_, hDecodeAgain⟩, ?_⟩
  · rw [timerToWire_timerEntry transformId timerFamilyId domain hSet hWindow]
    exact hAgain
  · intro otherTransform otherFamily otherDomain other otherWindow hOther hFits hOtherFits
    exact timerEntry_storageKey hWindow hOther hFits hOtherFits

/-- A timer of a late pane, for a key of one byte. -/
def lateTimer : WireTimer where
  userKey := [1, 7]
  tag := "tag"
  windows := [.interval (-10) 10]
  clear := false
  fireTimestamp := 9
  holdTimestamp := -3
  pane := ⟨false, true, .late, 2, 1⟩

theorem timer_restored_interval :
    let coder : TimerCoder := ⟨.bytes, .interval⟩
    ∃ bytes again, coder.encodeInto lateTimer = some bytes ∧
      (∀ rest, coder.decode (bytes ++ rest) = .ok lateTimer rest) ∧
      (timerToWire (timerEntry "pardo" "family" lateTimer .eventTime)).bind coder.encodeInto =
        some again ∧
      ∀ rest, coder.decode (again ++ rest) = .ok { lateTimer with pane := .noFiring } rest :=
  (timer_restored ⟨.bytes, .interval⟩ "pardo" "family" .eventTime
    (show lateTimer.clear = false from rfl)
    (show lateTimer.windows = [.interval (-10) 10] from rfl) (by simp [WindowCoder.Matches])
    ⟨.primitive (.bytes [7]), (StandardBeamCoders.frames_scalar rfl
      (by simp [StandardBeamCoders.WellTypedPrimitive])).selfDelimiting, rfl⟩ (by decide)).1

end FlareDB
