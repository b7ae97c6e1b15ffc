import FlareDB.Lib.ByteDecoder

/-! What decoders leave unread, and loops over what is left. -/
namespace ByteDecoder

variable {ε α β : Type}

namespace Decoder

/-- The decoder leaves an end of what it was given. -/
def Consumes (d : Decoder ε α) : Prop :=
  ∀ bytes value rest, d bytes = .ok value rest → rest <:+ bytes

theorem consumes_pure (value : α) : Consumes (pure value : Decoder ε α) := by
  intro bytes found rest h
  cases h
  exact List.suffix_refl _

theorem consumes_fail (reason : ε) : Consumes (fail reason : Decoder ε α) := by
  intro bytes value rest h
  cases h

theorem consumes_abort : Consumes (abort : Decoder ε α) := by
  intro bytes value rest h
  cases h

theorem consumes_remaining : Consumes (remaining : Decoder ε Nat) := by
  intro bytes value rest h
  cases h
  exact List.suffix_refl _

theorem consumes_take (count : Nat) : Consumes (take count : Decoder ε (List UInt8)) := by
  intro bytes value rest h
  rw [take] at h
  split at h
  · cases h
  · cases h
    exact List.drop_suffix _ _

theorem consumes_takeChecked (reason : ε) (count : Nat) :
    Consumes (takeChecked reason count : Decoder ε (List UInt8)) := by
  intro bytes value rest h
  rw [takeChecked_apply] at h
  split at h
  · cases h
  · cases h
    exact List.drop_suffix _ _

/-- A sequence takes bytes from the front when its parts do. -/
theorem Consumes.bind {d : Decoder ε α} {f : α → Decoder ε β} (h : Consumes d)
    (hNext : ∀ value, Consumes (f value)) : Consumes (d >>= f) := by
  intro bytes value rest hBind
  obtain ⟨first, middle, hFirst, hRest⟩ := bind_eq_ok hBind
  exact (hNext first middle value rest hRest).trans (h bytes first middle hFirst)

/-- So does a run of one decoder. -/
theorem Consumes.times {d : Decoder ε α} (h : Consumes d) (count : Nat) :
    Consumes (d.times count) := by
  induction count with
  | zero => exact consumes_pure []
  | succ count ih =>
      exact h.bind fun value => ih.bind fun values => consumes_pure (value :: values)

/-- A decoder leaves no more than it was given. -/
theorem Consumes.length_le {d : Decoder ε α} (h : Consumes d) {bytes rest : List UInt8} {value : α}
    (hValue : d bytes = .ok value rest) : rest.length ≤ bytes.length :=
  (h bytes value rest hValue).length_le

/-- The decoder leaves less than it was given. -/
def Advances (d : Decoder ε α) : Prop :=
  ∀ bytes value rest, d bytes = .ok value rest → rest.length < bytes.length

/-- Two decoders in a row unwind where the first does, or the second after it. -/
theorem bind_eq_panic {d : Decoder ε α} {f : α → Decoder ε β} {bytes : List UInt8} :
    (d >>= f) bytes = .panic ↔
      d bytes = .panic ∨ ∃ value rest, d bytes = .ok value rest ∧ f value rest = .panic := by
  rw [bind_apply]
  cases hFirst : d bytes with
  | ok value rest => simp
  | error reason => simp
  | panic => simp

/-- Nothing after the first decoder unwinds. -/
theorem bind_eq_panic_of_quiet {d : Decoder ε α} {f : α → Decoder ε β} {bytes : List UInt8}
    (h : ∀ value rest, f value rest ≠ .panic) : (d >>= f) bytes = .panic ↔ d bytes = .panic := by
  refine bind_eq_panic.trans (or_iff_left ?_)
  rintro ⟨value, rest, -, hPanic⟩
  exact h value rest hPanic

/-- Mapping the value unwinds exactly where the decoder does. -/
theorem map_eq_panic {d : Decoder ε α} (f : α → β) {bytes : List UInt8} :
    (do let value ← d; pure (f value) : Decoder ε β) bytes = .panic ↔ d bytes = .panic := by
  refine bind_eq_panic_of_quiet fun value rest h => ?_
  cases h

/-- So does mapping the error. -/
theorem mapError_eq_panic {δ : Type} {d : Decoder ε α} {f : ε → δ} {bytes : List UInt8} :
    d.mapError f bytes = .panic ↔ d bytes = .panic := by
  rw [Decoder.mapError]
  cases d bytes <;> simp

theorem mapError_eq_ok {δ : Type} {d : Decoder ε α} {f : ε → δ} {bytes rest : List UInt8} {value : α}
    (h : d.mapError f bytes = .ok value rest) : d bytes = .ok value rest := by
  rw [Decoder.mapError] at h
  cases hRead : d bytes with
  | ok first middle =>
      rw [hRead] at h
      cases h
      rfl
  | error reason =>
      rw [hRead] at h
      cases h
  | panic =>
      rw [hRead] at h
      cases h

/-- Bytes taken unchecked unwind exactly where there are too few. -/
theorem take_eq_panic {count : Nat} {bytes : List UInt8} :
    (take count : Decoder ε (List UInt8)) bytes = .panic ↔ bytes.length < count := by
  rw [take]
  split <;> simp_all

/-- A counted run unwinds where one of its reads does. -/
theorem times_eq_panic {d : Decoder ε α} {count : Nat} {bytes : List UInt8} :
    d.times count bytes = .panic ↔ ∃ before values rest, before < count ∧
      d.times before bytes = .ok values rest ∧ d rest = .panic := by
  induction count generalizing bytes with
  | zero =>
      constructor
      · intro h
        cases h
      · rintro ⟨before, values, rest, hBefore, -⟩
        omega
  | succ count ih =>
      have hTail : ∀ value (rest : List UInt8),
          (do let values ← d.times count; pure (value :: values) : Decoder ε (List α)) rest = .panic ↔
            d.times count rest = .panic := fun value rest => map_eq_panic (value :: ·)
      rw [times, bind_eq_panic]
      constructor
      · rintro (hFirst | ⟨value, middle, hValue, hRest⟩)
        · exact ⟨0, [], bytes, Nat.succ_pos count, rfl, hFirst⟩
        · obtain ⟨before, values, rest, hBefore, hValues, hPanic⟩ :=
            ih.mp ((hTail value middle).mp hRest)
          refine ⟨before + 1, value :: values, rest, by omega, ?_, hPanic⟩
          rw [times, bind_apply, hValue]
          dsimp only
          rw [bind_apply, hValues]
          rfl
      · rintro ⟨before, values, rest, hBefore, hValues, hPanic⟩
        cases before with
        | zero =>
            cases hValues
            exact .inl hPanic
        | succ before =>
            obtain ⟨value, middle, hValue, hOthers⟩ := bind_eq_ok hValues
            obtain ⟨others, last, hOthers, hPure⟩ := bind_eq_ok hOthers
            cases hPure
            refine .inr ⟨value, middle, hValue, (hTail value middle).mpr (ih.mpr ?_)⟩
            exact ⟨before, others, rest, by omega, hOthers, hPanic⟩

theorem reports_fail {P : ε → Prop} {reason : ε} (h : P reason) :
    Reports P (fail reason : Decoder ε α) := by
  intro bytes
  constructor
  · intro hPanic
    cases hPanic
  · intro other hOther
    cases hOther
    exact h

end Decoder

end ByteDecoder
