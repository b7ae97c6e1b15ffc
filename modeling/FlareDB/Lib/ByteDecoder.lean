import Mathlib.Algebra.Ring.Int.Defs
import Mathlib.Algebra.Ring.Nat
import Mathlib.Data.List.Basic
import Mathlib.Tactic.Common

/-! Decoders that read a byte cursor front to back. A read past the end of the
cursor either unwinds (`panic`) or is reported as an ordinary failure
(`error`), and a caller may treat the two differently. `Segment` records both
what a decoder does on a complete encoding and which of the two signals it
raises when the encoding is cut short at each offset. -/
namespace ByteDecoder

/-- The result of one decode: a value and the unread bytes, a reported
failure, or an unwinding panic. -/
inductive Outcome (ε α : Type) where
  | ok (value : α) (rest : List UInt8)
  | error (reason : ε)
  | panic
deriving DecidableEq, Repr

def Decoder (ε α : Type) := List UInt8 → Outcome ε α

variable {ε α β : Type}

namespace Decoder

protected def pure (value : α) : Decoder ε α :=
  fun bytes => .ok value bytes

protected def bind (d : Decoder ε α) (f : α → Decoder ε β) : Decoder ε β :=
  fun bytes => match d bytes with
    | .ok value rest => f value rest
    | .error reason => .error reason
    | .panic => .panic

instance : Monad (Decoder ε) where
  pure := Decoder.pure
  bind := Decoder.bind

theorem bind_apply (d : Decoder ε α) (f : α → Decoder ε β) (bytes : List UInt8) :
    (d >>= f) bytes = match d bytes with
      | .ok value rest => f value rest
      | .error reason => .error reason
      | .panic => .panic := rfl

/-- A sequence succeeds only when both parts do, the second on what the first leaves. -/
theorem bind_eq_ok {d : Decoder ε α} {f : α → Decoder ε β} {bytes rest : List UInt8} {value : β}
    (h : (d >>= f) bytes = .ok value rest) :
    ∃ first middle, d bytes = .ok first middle ∧ f first middle = .ok value rest := by
  rw [bind_apply] at h
  cases hFirst : d bytes with
  | ok first middle =>
      rw [hFirst] at h
      exact ⟨first, middle, rfl, h⟩
  | error reason =>
      rw [hFirst] at h
      cases h
  | panic =>
      rw [hFirst] at h
      cases h

/-- Report a failure without reading. -/
def fail (reason : ε) : Decoder ε α :=
  fun _ => .error reason

/-- Unwind without reading. -/
def abort : Decoder ε α :=
  fun _ => .panic

/-- The number of unread bytes. -/
def remaining : Decoder ε Nat :=
  fun bytes => .ok bytes.length bytes

/-- Read exactly `count` bytes, unwinding when fewer remain. -/
def take (count : Nat) : Decoder ε (List UInt8) :=
  fun bytes => if bytes.length < count then .panic
    else .ok (bytes.take count) (bytes.drop count)

/-- Restate the reason of a failure. -/
def mapError {δ : Type} (f : ε → δ) (d : Decoder ε α) : Decoder δ α :=
  fun bytes => match d bytes with
    | .ok value rest => .ok value rest
    | .error reason => .error (f reason)
    | .panic => .panic

/-- Read exactly `count` bytes after a check that they are there, reporting
`reason` when they are not. -/
def takeChecked (reason : ε) (count : Nat) : Decoder ε (List UInt8) := do
  let left ← remaining
  if left < count then fail reason else take count

theorem takeChecked_apply (reason : ε) (count : Nat) (bytes : List UInt8) :
    takeChecked reason count bytes =
      if bytes.length < count then .error reason
      else .ok (bytes.take count) (bytes.drop count) := by
  show (if bytes.length < count then fail reason else take count) bytes = _
  split
  next hShort => rfl
  next hLong => rw [take, if_neg hLong]

/-- Run `d` a fixed number of times, collecting the values in order. -/
def times (d : Decoder ε α) : Nat → Decoder ε (List α)
  | 0 => pure []
  | count + 1 => do
      let value ← d
      let values ← times d count
      pure (value :: values)

/-- Every value of a counted run was read by `d` somewhere. -/
theorem mem_of_times {d : Decoder ε α} {count : Nat} {bytes rest : List UInt8} {values : List α}
    (h : d.times count bytes = .ok values rest) {value : α} (hMem : value ∈ values) :
    ∃ start finish, d start = .ok value finish := by
  induction count generalizing bytes values with
  | zero =>
      cases h
      cases hMem
  | succ count ih =>
      obtain ⟨first, middle, hFirst, hRest⟩ := bind_eq_ok h
      obtain ⟨others, last, hOthers, hPure⟩ := bind_eq_ok hRest
      cases hPure
      rcases List.mem_cons.mp hMem with rfl | hOther
      · exact ⟨bytes, middle, hFirst⟩
      · exact ih hOthers hOther

/-- Every value the decoder returns has the property. -/
def Ensures (P : α → Prop) (d : Decoder ε α) : Prop :=
  ∀ bytes value rest, d bytes = .ok value rest → P value

theorem ensures_pure {P : α → Prop} {value : α} (h : P value) :
    Ensures P (pure value : Decoder ε α) := by
  intro bytes other rest hPure
  cases hPure
  exact h

theorem ensures_fail (P : α → Prop) (reason : ε) : Ensures P (fail reason : Decoder ε α) := by
  intro bytes value rest h
  cases h

/-- What the first part ensures may be used for the second. -/
theorem Ensures.bind {P : α → Prop} {Q : β → Prop} {d : Decoder ε α} {f : α → Decoder ε β}
    (h : Ensures P d) (hNext : ∀ value, P value → Ensures Q (f value)) : Ensures Q (d >>= f) := by
  intro bytes value rest hBind
  obtain ⟨first, middle, hFirst, hRest⟩ := bind_eq_ok hBind
  exact hNext first (h bytes first middle hFirst) middle value rest hRest

/-- The second part alone may ensure the property. -/
theorem ensures_bind {Q : β → Prop} (d : Decoder ε α) {f : α → Decoder ε β}
    (hNext : ∀ value, Ensures Q (f value)) : Ensures Q (d >>= f) :=
  Ensures.bind (fun _ _ _ _ => trivial) fun value (_ : True) => hNext value

/-- A property of one value is one of each in a run of them. -/
theorem Ensures.times {P : α → Prop} {d : Decoder ε α} (h : Ensures P d) (count : Nat) :
    Ensures (fun values => ∀ value ∈ values, P value) (d.times count) := by
  intro bytes values rest hTimes value hMem
  obtain ⟨start, finish, hValue⟩ := mem_of_times hTimes hMem
  exact h start value finish hValue

theorem Ensures.mapError {δ : Type} {P : α → Prop} {d : Decoder ε α} (h : Ensures P d)
    (f : ε → δ) : Ensures P (d.mapError f) := by
  intro bytes value rest hMap
  cases hRead : d bytes with
  | ok first middle =>
      rw [Decoder.mapError, hRead] at hMap
      cases hMap
      exact h bytes value rest hRead
  | error reason =>
      rw [Decoder.mapError, hRead] at hMap
      cases hMap
  | panic =>
      rw [Decoder.mapError, hRead] at hMap
      cases hMap

/-- The decoder accepts nothing but encodings. -/
def Canonical (d : Decoder ε α) (encode : α → List UInt8) : Prop :=
  ∀ bytes value rest, d bytes = .ok value rest → bytes = encode value ++ rest

/-- A run of canonical decoders reads exactly the bytes of its values. -/
theorem Canonical.times {d : Decoder ε α} {encode : α → List UInt8} (h : Canonical d encode)
    {count : Nat} {bytes rest : List UInt8} {values : List α}
    (hTimes : d.times count bytes = .ok values rest) :
    bytes = values.flatMap encode ++ rest ∧ values.length = count := by
  induction count generalizing bytes values with
  | zero =>
      cases hTimes
      exact ⟨rfl, rfl⟩
  | succ count ih =>
      obtain ⟨first, middle, hFirst, hRest⟩ := bind_eq_ok hTimes
      obtain ⟨others, last, hOthers, hPure⟩ := bind_eq_ok hRest
      cases hPure
      obtain ⟨hMiddle, hCount⟩ := ih hOthers
      constructor
      · rw [h bytes first middle hFirst, hMiddle, List.flatMap_cons, List.append_assoc]
      · rw [List.length_cons, hCount]

/-- The decoder never unwinds, and its failures are of one kind. -/
def Reports (P : ε → Prop) (d : Decoder ε α) : Prop :=
  ∀ bytes, d bytes ≠ .panic ∧ ∀ reason, d bytes = .error reason → P reason

theorem reports_pure (P : ε → Prop) (value : α) : Reports P (pure value : Decoder ε α) := by
  intro bytes
  constructor
  · intro h
    cases h
  · intro reason h
    cases h

theorem reports_takeChecked {P : ε → Prop} {reason : ε} (h : P reason) (count : Nat) :
    Reports P (takeChecked reason count) := by
  intro bytes
  rw [takeChecked_apply]
  split
  · refine ⟨nofun, fun other hOther => ?_⟩
    cases hOther
    exact h
  · exact ⟨nofun, nofun⟩

/-- A sequence reports only what its parts do. -/
theorem Reports.bind {P : ε → Prop} {d : Decoder ε α} {f : α → Decoder ε β} (h : Reports P d)
    (hNext : ∀ value, Reports P (f value)) : Reports P (d >>= f) := by
  intro bytes
  rw [bind_apply]
  cases hFirst : d bytes with
  | ok value rest => exact hNext value rest
  | error reason =>
      refine ⟨nofun, fun other hOther => ?_⟩
      cases hOther
      exact (h bytes).2 reason hFirst
  | panic => exact absurd hFirst (h bytes).1

/-- A run reports only what its element does. -/
theorem Reports.times {P : ε → Prop} {d : Decoder ε α} (h : Reports P d) (count : Nat) :
    Reports P (d.times count) := by
  induction count with
  | zero => exact reports_pure P []
  | succ count ih =>
      exact h.bind fun value => ih.bind fun values => reports_pure P (value :: values)

end Decoder

open Decoder

/-- The signal raised on a cursor that ends too early: a reported failure when
the flag is `true`, a panic when it is `false`. -/
def Outcome.Short (flag : Bool) (outcome : Outcome ε α) : Prop :=
  match flag with
  | true => ∃ reason, outcome = .error reason
  | false => outcome = .panic

/-- A first part that runs short makes the sequence run short. -/
theorem Outcome.Short.bind {flag : Bool} {d : Decoder ε α} {bytes : List UInt8}
    (h : (d bytes).Short flag) (f : α → Decoder ε β) : ((d >>= f) bytes).Short flag := by
  cases flag with
  | true =>
      obtain ⟨reason, hReason⟩ := h
      exact ⟨reason, by rw [bind_apply, hReason]⟩
  | false =>
      have hPanic : d bytes = .panic := h
      show (d >>= f) bytes = .panic
      rw [bind_apply, hPanic]

/-- `bytes` is an encoding of `value` for `d`: it is consumed exactly, whatever
follows it, and a cursor holding only its first `k` bytes raises the signal
`profile[k]`. -/
structure Segment (d : Decoder ε α) (bytes : List UInt8) (profile : List Bool)
    (value : α) : Prop where
  frames : ∀ rest, d (bytes ++ rest) = .ok value rest
  length : profile.length = bytes.length
  short : ∀ k flag, profile[k]? = some flag → (d (bytes.take k)).Short flag

namespace Segment

/-- A value that reads nothing has the empty segment. -/
theorem pure (value : α) : Segment (Pure.pure value : Decoder ε α) [] [] value where
  frames _ := rfl
  length := rfl
  short := by simp

/-- Sequencing concatenates encodings and their signal profiles. -/
theorem bind {d : Decoder ε α} {f : α → Decoder ε β} {first second : List UInt8}
    {p q : List Bool} {a : α} {b : β} (hFirst : Segment d first p a)
    (hSecond : Segment (f a) second q b) :
    Segment (d >>= f) (first ++ second) (p ++ q) b where
  frames rest := by
    rw [List.append_assoc, bind_apply, hFirst.frames]
    exact hSecond.frames rest
  length := by simp [hFirst.length, hSecond.length]
  short k flag hFlag := by
    by_cases hk : k < first.length
    · rw [List.getElem?_append_left (by rw [hFirst.length]; exact hk)] at hFlag
      rw [List.take_append_of_le_length (Nat.le_of_lt hk)]
      exact (hFirst.short k flag hFlag).bind f
    · have hLe : first.length ≤ k := Nat.le_of_not_lt hk
      rw [List.getElem?_append_right (by rw [hFirst.length]; exact hLe), hFirst.length] at hFlag
      have hCut := hSecond.short (k - first.length) flag hFlag
      rw [List.take_append, List.take_of_length_le hLe]
      have hRun : (d >>= f) (first ++ second.take (k - first.length)) =
          f a (second.take (k - first.length)) := by
        rw [bind_apply, hFirst.frames]
      rw [hRun]
      exact hCut

/-- A last step that reads nothing. -/
theorem bind_pure {d : Decoder ε α} {f : α → Decoder ε β} {bytes : List UInt8}
    {p : List Bool} {a : α} {b : β} (h : Segment d bytes p a) (hf : f a = Pure.pure b) :
    Segment (d >>= f) bytes p b := by
  have hEnd : Segment (f a) [] [] b := by
    rw [hf]
    exact Segment.pure b
  simpa using h.bind hEnd

/-- Bytes that are taken unchecked unwind at every cut. -/
theorem take (bytes : List UInt8) :
    Segment (Decoder.take bytes.length : Decoder ε (List UInt8)) bytes
      (List.replicate bytes.length false) bytes where
  frames rest := by simp [Decoder.take]
  length := by simp
  short k flag hFlag := by
    obtain ⟨hk, hEq⟩ := List.getElem?_eq_some_iff.mp hFlag
    rw [List.length_replicate] at hk
    have hFlagFalse : flag = false := by simpa using hEq.symm
    subst hFlagFalse
    show Decoder.take bytes.length (bytes.take k) = .panic
    rw [Decoder.take, if_pos (by rw [List.length_take]; omega)]

/-- A decoder that inspects one byte and continues as another decoder. -/
theorem cons {d next : Decoder ε α} {byte : UInt8} {bytes : List UInt8} {flag : Bool}
    {p : List Bool} {value : α} (hEmpty : (d []).Short flag)
    (hByte : ∀ rest, d (byte :: rest) = next rest) (h : Segment next bytes p value) :
    Segment d (byte :: bytes) (flag :: p) value where
  frames rest := by rw [List.cons_append, hByte, h.frames]
  length := by simp [h.length]
  short k signal hSignal := by
    cases k with
    | zero =>
        have hEq : flag = signal := by simpa using hSignal
        rw [← hEq]
        exact hEmpty
    | succ k =>
        rw [List.take_succ_cons, hByte]
        exact h.short k signal (by simpa using hSignal)

/-- Decoding a counted run of elements that were encoded one by one. -/
theorem times {d : Decoder ε α} {encode : α → Option (List UInt8)} {profile : α → List Bool}
    (values : List α)
    (h : ∀ value ∈ values, ∀ bytes, encode value = some bytes →
      Segment d bytes (profile value) value)
    {parts : List (List UInt8)} (hParts : values.mapM encode = some parts) :
    Segment (d.times values.length) parts.flatten (values.flatMap profile) values := by
  induction values generalizing parts with
  | nil =>
      have hNil : parts = [] := by simpa using hParts.symm
      rw [hNil]
      exact Segment.pure []
  | cons value rest ih =>
      cases hFirst : encode value with
      | none => simp [hFirst] at hParts
      | some first =>
          cases hRest : rest.mapM encode with
          | none => simp [hFirst, hRest] at hParts
          | some others =>
              have hEq : parts = first :: others := by simpa [hFirst, hRest] using hParts.symm
              have hHead := h value (by simp) first hFirst
              have hTail := ih (fun other hOther => h other (by simp [hOther])) hRest
              rw [hEq]
              exact hHead.bind (hTail.bind_pure rfl)

end Segment

/-- Values that each have bytes have them together. -/
theorem exists_parts {encode : α → Option (List UInt8)} {values : List α}
    (h : ∀ value ∈ values, ∃ bytes, encode value = some bytes) :
    ∃ parts, values.mapM encode = some parts := by
  induction values with
  | nil => exact ⟨[], rfl⟩
  | cons value values ih =>
      obtain ⟨bytes, hBytes⟩ := h value List.mem_cons_self
      obtain ⟨parts, hParts⟩ := ih fun other hOther => h other (List.mem_cons_of_mem _ hOther)
      exact ⟨bytes :: parts, by rw [List.mapM_cons, hBytes, hParts]; rfl⟩

/-- Bytes found for a list belong to its values one by one. -/
theorem forall₂_parts {encode : α → Option (List UInt8)} {values : List α}
    {parts : List (List UInt8)} (h : values.mapM encode = some parts) :
    List.Forall₂ (fun value bytes => encode value = some bytes) values parts := by
  induction values generalizing parts with
  | nil =>
      cases h
      exact .nil
  | cons value values ih =>
      rw [List.mapM_cons] at h
      obtain ⟨first, hFirst, hOthers⟩ := Option.bind_eq_some_iff.mp h
      obtain ⟨others, hRest, hPure⟩ := Option.bind_eq_some_iff.mp hOthers
      cases hPure
      exact .cons hFirst (ih hRest)

/-- Byte strings that are no longer than others, but as long in total, are the
others. -/
theorem eq_of_flatten_eq {parts others : List (List UInt8)}
    (h : List.Forall₂ (fun part other => other.length ≤ part.length) parts others)
    (hFlatten : parts.flatten = others.flatten) : parts = others := by
  have hTotal : ∀ {parts others : List (List UInt8)},
      List.Forall₂ (fun part other => other.length ≤ part.length) parts others →
      others.flatten.length ≤ parts.flatten.length := by
    intro parts others hAll
    induction hAll with
    | nil => exact Nat.le_refl _
    | cons hHead _ ih =>
        rw [List.flatten_cons, List.flatten_cons, List.length_append, List.length_append]
        omega
  induction h with
  | nil => rfl
  | cons hHead hTail ih =>
      rw [List.flatten_cons, List.flatten_cons] at hFlatten
      have hLengths := congrArg List.length hFlatten
      rw [List.length_append, List.length_append] at hLengths
      have hRest := hTotal hTail
      obtain ⟨rfl, hOthers⟩ := List.append_inj hFlatten (by omega)
      rw [ih hOthers]

/-- `bytes` is read by `d` as `value` and nothing after it is touched. -/
def Delimited (d : Decoder ε α) (bytes : List UInt8) (value : α) : Prop :=
  ∀ rest, d (bytes ++ rest) = .ok value rest

namespace Delimited

theorem pure (value : α) : Delimited (Pure.pure value : Decoder ε α) [] value :=
  fun _ => rfl

theorem bind {d : Decoder ε α} {f : α → Decoder ε β} {first second : List UInt8} {a : α} {b : β}
    (hFirst : Delimited d first a) (hSecond : Delimited (f a) second b) :
    Delimited (d >>= f) (first ++ second) b := by
  intro rest
  rw [List.append_assoc, bind_apply, hFirst]
  exact hSecond rest

theorem bind_pure {d : Decoder ε α} {f : α → Decoder ε β} {bytes : List UInt8} {a : α} {b : β}
    (h : Delimited d bytes a) (hf : f a = Pure.pure b) : Delimited (d >>= f) bytes b := by
  intro rest
  rw [bind_apply, h]
  show f a rest = .ok b rest
  rw [hf]
  rfl

theorem mapError {δ : Type} {d : Decoder ε α} {bytes : List UInt8} {value : α}
    (h : Delimited d bytes value) (f : ε → δ) : Delimited (d.mapError f) bytes value := by
  intro rest
  rw [Decoder.mapError, h]

/-- A check that enough bytes are left passes. -/
theorem guarded {d : Decoder ε α} {bytes : List UInt8} {value : α} (h : Delimited d bytes value)
    {count : Nat} (hLong : count ≤ bytes.length) (reason : ε) :
    Delimited (do
      let remaining ← Decoder.remaining
      if remaining < count then Decoder.fail reason else d) bytes value := by
  intro rest
  have hNot : ¬ (bytes ++ rest).length < count := by
    rw [List.length_append]
    omega
  rw [bind_apply, Decoder.remaining]
  dsimp only
  rw [if_neg hNot]
  exact h rest

/-- A counted run of elements that were encoded one by one. -/
theorem times {d : Decoder ε α} {encode : α → Option (List UInt8)} (values : List α)
    (h : ∀ value ∈ values, ∀ bytes, encode value = some bytes → Delimited d bytes value)
    {parts : List (List UInt8)} (hParts : values.mapM encode = some parts) :
    Delimited (d.times values.length) parts.flatten values := by
  induction values generalizing parts with
  | nil =>
      cases hParts
      exact Delimited.pure []
  | cons value rest ih =>
      rw [List.mapM_cons] at hParts
      obtain ⟨first, hFirst, hOthers⟩ := Option.bind_eq_some_iff.mp hParts
      obtain ⟨others, hRest, hPure⟩ := Option.bind_eq_some_iff.mp hOthers
      cases hPure
      have hTail := ih (fun other hOther => h other (List.mem_cons_of_mem _ hOther)) hRest
      exact (h value List.mem_cons_self first hFirst).bind (hTail.bind_pure rfl)

end Delimited

/-- A segment is delimited once its cuts are forgotten. -/
theorem Segment.delimited {d : Decoder ε α} {bytes : List UInt8} {profile : List Bool} {value : α}
    (h : Segment d bytes profile value) : Delimited d bytes value :=
  h.frames

/-! Decoders that may own the rest of the cursor. -/

/-- Started at the bytes, the decoder takes everything that is left, and what it
returns is written as all of it. -/
def Swallows (d : Decoder ε α) (encode : α → Option (List UInt8)) (bytes : List UInt8) : Prop :=
  ∀ rest value left, d (bytes ++ rest) = .ok value left →
    left = [] ∧ encode value = some (bytes ++ rest)

/-- At the end of the cursor the decoder only returns what is written as nothing. -/
def Idle (d : Decoder ε α) (encode : α → Option (List UInt8)) : Prop :=
  ∀ value left, d [] = .ok value left → left = [] ∧ encode value = some []

/-- The decoder stops at the end of the bytes, or takes everything from there. -/
def Bounded (d : Decoder ε α) (encode : α → Option (List UInt8)) (bytes : List UInt8)
    (value : α) : Prop :=
  Delimited d bytes value ∨ Swallows d encode bytes

section Pairs

variable {γ : Type} {d : Decoder ε α} {e : Decoder ε β} {f : α → β → γ}
  {encodeFirst : α → Option (List UInt8)} {encodeSecond : β → Option (List UInt8)}
  {encodePair : γ → Option (List UInt8)}

/-- Two decoders that idle on the same input idle in sequence. -/
theorem Idle.pair (hFirst : Idle d encodeFirst) (hSecond : Idle e encodeSecond)
    (hPair : ∀ a b x y, encodeFirst a = some x → encodeSecond b = some y →
      encodePair (f a b) = some (x ++ y)) :
    Idle (do let a ← d; let b ← e; pure (f a b)) encodePair := by
  intro value left h
  obtain ⟨a, middle, hA, h⟩ := bind_eq_ok h
  obtain ⟨b, last, hB, h⟩ := bind_eq_ok h
  cases h
  obtain ⟨rfl, hX⟩ := hFirst a middle hA
  obtain ⟨rfl, hY⟩ := hSecond b left hB
  exact ⟨rfl, hPair a b [] [] hX hY⟩

/-- The second of two decoders is reached, or the first has taken everything. -/
theorem Bounded.pair {a : α} {b : β} {x y : List UInt8} (hA : encodeFirst a = some x)
    (hFirst : Bounded d encodeFirst x a) (hSecond : Bounded e encodeSecond y b)
    (hIdle : Idle e encodeSecond)
    (hPair : ∀ a b x y, encodeFirst a = some x → encodeSecond b = some y →
      encodePair (f a b) = some (x ++ y)) :
    Bounded (do let a ← d; let b ← e; pure (f a b)) encodePair (x ++ y) (f a b) := by
  rcases hFirst with hFirst | hFirst
  · rcases hSecond with hSecond | hSecond
    · exact .inl (hFirst.bind (hSecond.bind_pure rfl))
    · refine .inr fun rest value left h => ?_
      rw [List.append_assoc, bind_apply, hFirst] at h
      obtain ⟨found, last, hFound, h⟩ := bind_eq_ok h
      cases h
      obtain ⟨rfl, hY⟩ := hSecond rest found left hFound
      exact ⟨rfl, by rw [hPair a found x _ hA hY, List.append_assoc]⟩
  · refine .inr fun rest value left h => ?_
    obtain ⟨found, middle, hFound, h⟩ := bind_eq_ok h
    obtain ⟨other, last, hOther, h⟩ := bind_eq_ok h
    cases h
    rw [List.append_assoc] at hFound
    obtain ⟨rfl, hX⟩ := hFirst (y ++ rest) found middle hFound
    obtain ⟨rfl, hY⟩ := hIdle other left hOther
    exact ⟨rfl, by rw [hPair found other _ [] hX hY, List.append_nil, List.append_assoc]⟩

end Pairs

/-- How a counted run is written. -/
def encodeRun (encode : α → Option (List UInt8)) (count : Nat) (values : List α) :
    Option (List UInt8) :=
  if values.length = count then (values.mapM encode).map List.flatten else none

theorem encodeRun_cons {encode : α → Option (List UInt8)} {count : Nat} {value : α}
    {values : List α} {x y : List UInt8} (hX : encode value = some x)
    (hY : encodeRun encode count values = some y) :
    encodeRun encode (count + 1) (value :: values) = some (x ++ y) := by
  unfold encodeRun at hY ⊢
  split at hY
  next hCount =>
    obtain ⟨parts, hParts, rfl⟩ := Option.map_eq_some_iff.mp hY
    rw [if_pos (by rw [List.length_cons, hCount]), List.mapM_cons, hX, hParts]
    rfl
  · cases hY

/-- A run of an idle decoder is idle. -/
theorem idle_times {d : Decoder ε α} {encode : α → Option (List UInt8)} (h : Idle d encode)
    (count : Nat) : Idle (d.times count) (encodeRun encode count) := by
  induction count with
  | zero =>
      intro values left hNil
      cases hNil
      exact ⟨rfl, rfl⟩
  | succ count ih => exact h.pair ih fun _ _ _ _ hX hY => encodeRun_cons hX hY

/-- A counted run ends where it stands, or one of its elements takes everything. -/
theorem bounded_times {d : Decoder ε α} {encode : α → Option (List UInt8)} (values : List α)
    (h : ∀ value ∈ values, ∀ bytes, encode value = some bytes → Bounded d encode bytes value)
    (hIdle : values ≠ [] → Idle d encode) {parts : List (List UInt8)}
    (hParts : values.mapM encode = some parts) :
    Bounded (d.times values.length) (encodeRun encode values.length) parts.flatten values := by
  induction values generalizing parts with
  | nil =>
      cases hParts
      exact .inl (Delimited.pure [])
  | cons value rest ih =>
      rw [List.mapM_cons] at hParts
      obtain ⟨first, hFirst, hOthers⟩ := Option.bind_eq_some_iff.mp hParts
      obtain ⟨others, hRest, hPure⟩ := Option.bind_eq_some_iff.mp hOthers
      cases hPure
      have hIdleHere := hIdle (List.cons_ne_nil value rest)
      exact (h value List.mem_cons_self first hFirst).pair hFirst
        (ih (fun other hOther => h other (List.mem_cons_of_mem _ hOther)) (fun _ => hIdleHere) hRest)
        (idle_times hIdleHere rest.length) fun _ _ _ _ hX hY => encodeRun_cons hX hY

/-- An encoding whose every cut unwinds. -/
def Unwinding (d : Decoder ε α) (bytes : List UInt8) (value : α) : Prop :=
  Segment d bytes (List.replicate bytes.length false) value

namespace Unwinding

theorem bind {d : Decoder ε α} {f : α → Decoder ε β} {first second : List UInt8} {a : α} {b : β}
    (hFirst : Unwinding d first a) (hSecond : Unwinding (f a) second b) :
    Unwinding (d >>= f) (first ++ second) b := by
  have hBoth := Segment.bind hFirst hSecond
  rw [List.replicate_append_replicate, ← List.length_append] at hBoth
  exact hBoth

theorem bind_pure {d : Decoder ε α} {f : α → Decoder ε β} {bytes : List UInt8} {a : α} {b : β}
    (h : Unwinding d bytes a) (hf : f a = Pure.pure b) : Unwinding (d >>= f) bytes b :=
  Segment.bind_pure h hf

theorem times {d : Decoder ε α} {encode : α → Option (List UInt8)} (values : List α)
    (h : ∀ value ∈ values, ∀ bytes, encode value = some bytes → Unwinding d bytes value)
    {parts : List (List UInt8)} (hParts : values.mapM encode = some parts) :
    Unwinding (d.times values.length) parts.flatten values := by
  let profile := fun value => List.replicate ((encode value).getD []).length false
  have hSegment : Segment (d.times values.length) parts.flatten (values.flatMap profile) values := by
    refine Segment.times values (fun value hMem bytes hBytes => ?_) hParts
    have hProfile : profile value = List.replicate bytes.length false := by simp [profile, hBytes]
    rw [hProfile]
    exact h value hMem bytes hBytes
  have hUniform : values.flatMap profile = List.replicate parts.flatten.length false := by
    refine List.eq_replicate_iff.mpr ⟨hSegment.length, ?_⟩
    intro flag hFlag
    obtain ⟨value, _, hIn⟩ := List.mem_flatMap.mp hFlag
    exact List.eq_of_mem_replicate hIn
  rw [hUniform] at hSegment
  exact hSegment

end Unwinding

/-- An encoding whose every cut is reported. -/
def Reported (d : Decoder ε α) (bytes : List UInt8) (value : α) : Prop :=
  Segment d bytes (List.replicate bytes.length true) value

namespace Reported

theorem pure (value : α) : Reported (Pure.pure value : Decoder ε α) [] value :=
  Segment.pure value

theorem bind {d : Decoder ε α} {f : α → Decoder ε β} {first second : List UInt8} {a : α} {b : β}
    (hFirst : Reported d first a) (hSecond : Reported (f a) second b) :
    Reported (d >>= f) (first ++ second) b := by
  have hBoth := Segment.bind hFirst hSecond
  rw [List.replicate_append_replicate, ← List.length_append] at hBoth
  exact hBoth

theorem bind_pure {d : Decoder ε α} {f : α → Decoder ε β} {bytes : List UInt8} {a : α} {b : β}
    (h : Reported d bytes a) (hf : f a = Pure.pure b) : Reported (d >>= f) bytes b :=
  Segment.bind_pure h hf

theorem takeChecked (reason : ε) (bytes : List UInt8) :
    Reported (Decoder.takeChecked reason bytes.length) bytes bytes where
  frames rest := by simp [takeChecked_apply]
  length := by simp
  short k flag hFlag := by
    obtain ⟨hk, hEq⟩ := List.getElem?_eq_some_iff.mp hFlag
    rw [List.length_replicate] at hk
    have hTrue : flag = true := by simpa using hEq.symm
    subst hTrue
    refine ⟨reason, ?_⟩
    rw [takeChecked_apply, if_pos (by rw [List.length_take]; omega)]

/-- A counted run of elements that were encoded one by one. -/
theorem times {d : Decoder ε α} {encode : α → List UInt8} (values : List α)
    (h : ∀ value ∈ values, Reported d (encode value) value) :
    Reported (d.times values.length) (values.flatMap encode) values := by
  induction values with
  | nil => exact Reported.pure []
  | cons value rest ih =>
      have hHead := h value (by simp)
      have hTail := ih fun other hOther => h other (by simp [hOther])
      exact hHead.bind (hTail.bind_pure rfl)

/-- An encoding cut short is refused with a reason. -/
theorem cut {d : Decoder ε α} {bytes : List UInt8} {value : α} (h : Reported d bytes value)
    {k : Nat} (hk : k < bytes.length) : ∃ reason, d (bytes.take k) = .error reason :=
  h.short k true (by simp [hk])

end Reported
end ByteDecoder
