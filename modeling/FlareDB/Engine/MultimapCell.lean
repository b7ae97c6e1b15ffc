import FlareDB.Engine.State
import FlareDB.Lib.ByteDecoder

/-! The cell of a map state: a counted list of keys, each with a counted list
of values, all behind lengths. Decoding accepts exactly the encodings. -/
namespace FlareDB

open ByteDecoder Decoder KeyedStore

inductive MultimapError where
  | truncatedLength
  | truncatedValue
  | trailingBytes
  | tooManyValues
  | panic
  | state (reason : StateError)
deriving DecidableEq, Repr

structure MultimapEntry where
  key : List UInt8
  values : List (List UInt8)
deriving DecidableEq, Repr

/-! The cell. -/

def putU32 (value : Nat) : List UInt8 :=
  BigEndian.toBytes 4 (value % 2 ^ 32)

def putBytes (value : List UInt8) : List UInt8 :=
  putU32 value.length ++ value

def encodeEntry (entry : MultimapEntry) : List UInt8 :=
  putBytes entry.key ++ (putU32 entry.values.length ++ entry.values.flatMap putBytes)

def encodeEntries (entries : List MultimapEntry) : List UInt8 :=
  putU32 entries.length ++ entries.flatMap encodeEntry

abbrev CellDecoder := Decoder MultimapError

def readU32 : CellDecoder Nat := do
  let bytes ← takeChecked .truncatedLength 4
  pure (BigEndian.toNat bytes)

def readBytes : CellDecoder (List UInt8) := do
  let len ← readU32
  takeChecked .truncatedValue len

def readEntry : CellDecoder MultimapEntry := do
  let key ← readBytes
  let valueCount ← readU32
  let values ← readBytes.times valueCount
  pure ⟨key, values⟩

def readEntries : CellDecoder (List MultimapEntry) := do
  let count ← readU32
  readEntry.times count

def decodeEntries (data : List UInt8) : Except MultimapError (List MultimapEntry) :=
  match readEntries data with
  | .ok entries rest => if rest.isEmpty then .ok entries else .error .trailingBytes
  | .error reason => .error reason
  | .panic => .error .panic

/-- Every length and count of an entry fits its prefix, and its values can be
counted in a reply. -/
def MultimapEntry.Fits (entry : MultimapEntry) : Prop :=
  entry.key.length < 2 ^ 32 ∧ entry.values.length < 2 ^ 31 ∧
    ∀ value ∈ entry.values, value.length < 2 ^ 32

/-- Every length and count of an entry fits its prefix. -/
def MultimapEntry.Prefixed (entry : MultimapEntry) : Prop :=
  entry.key.length < 2 ^ 32 ∧ entry.values.length < 2 ^ 32 ∧
    ∀ value ∈ entry.values, value.length < 2 ^ 32

/-- An entry that fits its cell has lengths that fit their prefixes. -/
theorem MultimapEntry.Fits.prefixed {entry : MultimapEntry} (h : entry.Fits) : entry.Prefixed := by
  obtain ⟨hKey, hCount, hValues⟩ := h
  exact ⟨hKey, by omega, hValues⟩

/-- A number is read back, and every cut of it is reported. -/
theorem reported_readU32 {value : Nat} (h : value < 2 ^ 32) :
    Reported readU32 (putU32 value) value := by
  have hTake : Reported (takeChecked MultimapError.truncatedLength 4) (putU32 value) (putU32 value) :=
    Reported.takeChecked MultimapError.truncatedLength (putU32 value)
  apply hTake.bind_pure
  show Pure.pure (BigEndian.toNat (putU32 value)) = Pure.pure value
  rw [putU32, Nat.mod_eq_of_lt h, BigEndian.toNat_toBytes_of_lt h]

/-- Bytes under their length are read back, and every cut of them is reported. -/
theorem reported_readBytes {value : List UInt8} (h : value.length < 2 ^ 32) :
    Reported readBytes (putBytes value) value :=
  (reported_readU32 h).bind (Reported.takeChecked MultimapError.truncatedValue value)

/-- So is an entry. -/
theorem reported_readEntry {entry : MultimapEntry} (h : entry.Prefixed) :
    Reported readEntry (encodeEntry entry) entry := by
  obtain ⟨hKey, hCount, hValues⟩ := h
  have hRun := Reported.times entry.values fun value hMem => reported_readBytes (hValues value hMem)
  exact (reported_readBytes hKey).bind ((reported_readU32 hCount).bind (hRun.bind_pure rfl))

/-- So are all the entries of a cell. -/
theorem reported_prefixed {entries : List MultimapEntry} (hCount : entries.length < 2 ^ 32)
    (h : ∀ entry ∈ entries, entry.Prefixed) : Reported readEntries (encodeEntries entries) entries :=
  (reported_readU32 hCount).bind (Reported.times entries fun entry hMem => reported_readEntry (h entry hMem))

theorem reported_readEntries {entries : List MultimapEntry} (hCount : entries.length < 2 ^ 32)
    (h : ∀ entry ∈ entries, entry.Fits) : Reported readEntries (encodeEntries entries) entries :=
  reported_prefixed hCount fun entry hMem => (h entry hMem).prefixed

/-- Entries with their prefixes are decoded from their bytes. -/
theorem decodeEntries_of_prefixed {entries : List MultimapEntry} (hCount : entries.length < 2 ^ 32)
    (h : ∀ entry ∈ entries, entry.Prefixed) : decodeEntries (encodeEntries entries) = .ok entries := by
  have hFrames := (reported_prefixed hCount h).frames []
  rw [List.append_nil] at hFrames
  rw [decodeEntries, hFrames]
  rfl

/-- So are entries that fit. -/
theorem decodeEntries_encodeEntries {entries : List MultimapEntry}
    (hCount : entries.length < 2 ^ 32) (h : ∀ entry ∈ entries, entry.Fits) :
    decodeEntries (encodeEntries entries) = .ok entries :=
  decodeEntries_of_prefixed hCount fun entry hMem => (h entry hMem).prefixed

/-- A cell cut short is refused. -/
theorem decodeEntries_cut {entries : List MultimapEntry} (hCount : entries.length < 2 ^ 32)
    (h : ∀ entry ∈ entries, entry.Fits) {k : Nat} (hk : k < (encodeEntries entries).length) :
    ∃ reason, decodeEntries ((encodeEntries entries).take k) = .error reason := by
  obtain ⟨reason, hCut⟩ := (reported_readEntries hCount h).cut hk
  exact ⟨reason, by rw [decodeEntries, hCut]⟩

/-- Bytes after the entries are refused. -/
theorem decodeEntries_trailing {entries : List MultimapEntry} (hCount : entries.length < 2 ^ 32)
    (h : ∀ entry ∈ entries, entry.Fits) {extra : List UInt8} (hExtra : extra ≠ []) :
    decodeEntries (encodeEntries entries ++ extra) = .error .trailingBytes := by
  rw [decodeEntries, (reported_readEntries hCount h).frames extra]
  exact if_neg (by simpa using hExtra)

/-! Only encodings are accepted. -/

theorem canonical_takeChecked {ε : Type} {reason : ε} {count : Nat}
    {bytes value rest : List UInt8}
    (h : takeChecked reason count bytes = .ok value rest) :
    bytes = value ++ rest ∧ value.length = count := by
  rw [takeChecked_apply] at h
  split at h
  · cases h
  next hLong =>
    cases h
    exact ⟨(List.take_append_drop count bytes).symm, by rw [List.length_take]; omega⟩

/-- A number that is read has the bytes it was read from. -/
theorem readU32_eq_ok {bytes rest : List UInt8} {value : Nat} (h : readU32 bytes = .ok value rest) :
    bytes = putU32 value ++ rest ∧ value < 2 ^ 32 := by
  obtain ⟨written, middle, hTake, hPure⟩ := bind_eq_ok h
  cases hPure
  obtain ⟨hBytes, hLength⟩ := canonical_takeChecked hTake
  have hLt : BigEndian.toNat written < 2 ^ 32 := by
    have hBound := BigEndian.toNat_lt written
    rw [hLength] at hBound
    exact hBound
  refine ⟨?_, hLt⟩
  rw [hBytes, putU32, Nat.mod_eq_of_lt hLt, ← hLength, BigEndian.toBytes_toNat]

theorem canonical_readBytes : Canonical readBytes putBytes := by
  intro bytes value rest h
  obtain ⟨len, middle, hLen, hTake⟩ := bind_eq_ok h
  obtain ⟨hMiddle, hLength⟩ := canonical_takeChecked hTake
  rw [(readU32_eq_ok hLen).1, hMiddle, putBytes, hLength, List.append_assoc]

/-- An entry that is read has the bytes it was read from. -/
theorem canonical_readEntry : Canonical readEntry encodeEntry := by
  intro bytes entry rest h
  obtain ⟨key, afterKey, hKey, h⟩ := bind_eq_ok h
  obtain ⟨count, afterCount, hCount, h⟩ := bind_eq_ok h
  obtain ⟨values, last, hValues, hPure⟩ := bind_eq_ok h
  cases hPure
  obtain ⟨hRun, hLength⟩ := canonical_readBytes.times hValues
  rw [canonical_readBytes _ _ _ hKey, (readU32_eq_ok hCount).1, hRun, encodeEntry, hLength]
  simp only [List.append_assoc]

/-- A cell that is accepted is the encoding of its entries. -/
theorem encodeEntries_of_decodeEntries {data : List UInt8} {entries : List MultimapEntry}
    (h : decodeEntries data = .ok entries) : data = encodeEntries entries := by
  rw [decodeEntries] at h
  cases hRead : readEntries data with
  | error reason =>
      rw [hRead] at h
      cases h
  | panic =>
      rw [hRead] at h
      cases h
  | ok found rest =>
      rw [hRead] at h
      simp only [List.isEmpty_iff] at h
      split at h
      next hEnd =>
        cases h
        obtain ⟨count, middle, hCount, hTimes⟩ := bind_eq_ok hRead
        obtain ⟨hMiddle, hLength⟩ := canonical_readEntry.times hTimes
        rw [(readU32_eq_ok hCount).1, hMiddle, hEnd, List.append_nil, encodeEntries, hLength]
      · cases h

/-- What is wrong with a cell that is not accepted. -/
def MultimapError.Malformed (reason : MultimapError) : Prop :=
  reason = .truncatedLength ∨ reason = .truncatedValue ∨ reason = .trailingBytes

theorem reports_readU32 : Reports MultimapError.Malformed readU32 :=
  (reports_takeChecked (.inl rfl) 4).bind fun _ => reports_pure _ _

theorem reports_readBytes : Reports MultimapError.Malformed readBytes :=
  reports_readU32.bind fun len => reports_takeChecked (.inr (.inl rfl)) len

theorem reports_readEntry : Reports MultimapError.Malformed readEntry :=
  reports_readBytes.bind fun _ => reports_readU32.bind fun count =>
    (reports_readBytes.times count).bind fun _ => reports_pure _ _

/-- Whatever is refused is reported as malformed. -/
theorem reports_readEntries : Reports MultimapError.Malformed readEntries :=
  reports_readU32.bind fun count => reports_readEntry.times count

/-- A cell is accepted, or refused for a length, a value or an end that does
not fit. -/
theorem decodeEntries_refused {data : List UInt8} {reason : MultimapError}
    (h : decodeEntries data = .error reason) : reason.Malformed := by
  rw [decodeEntries] at h
  cases hRead : readEntries data with
  | panic => exact absurd hRead (reports_readEntries data).1
  | error found =>
      rw [hRead] at h
      cases h
      exact (reports_readEntries data).2 _ hRead
  | ok found rest =>
      rw [hRead] at h
      simp only [List.isEmpty_iff] at h
      split at h
      · cases h
      · cases h
        exact .inr (.inr rfl)

end FlareDB
