import Mathlib.Data.List.Forall2

/-! Computations that end with a value or with an error. -/
namespace Results

variable {ε α β : Type}

/-- A sequence succeeds only when both parts do. -/
theorem bind_eq_ok {result : Except ε α} {f : α → Except ε β} {value : β}
    (h : result >>= f = .ok value) : ∃ first, result = .ok first ∧ f first = .ok value := by
  cases result with
  | error message => cases h
  | ok first => exact ⟨first, rfl, h⟩

theorem mapError_eq_ok {δ : Type} {result : Except ε α} {f : ε → δ} {value : α}
    (h : result.mapError f = .ok value) : result = .ok value := by
  cases result with
  | error message => cases h
  | ok first => cases h; rfl

/-- A loop that collects results succeeds step by step. -/
theorem mapM_eq_ok_iff {f : α → Except ε β} {xs : List α} {ys : List β} :
    xs.mapM f = .ok ys ↔ List.Forall₂ (fun x y => f x = .ok y) xs ys := by
  induction xs generalizing ys with
  | nil =>
      rw [List.mapM_nil, List.forall₂_nil_left_iff]
      exact ⟨fun h => (Except.ok.inj h).symm, fun h => by rw [h]; rfl⟩
  | cons x xs ih =>
      rw [List.mapM_cons, List.forall₂_cons_left_iff]
      constructor
      · intro h
        obtain ⟨first, hFirst, hRest⟩ := bind_eq_ok h
        obtain ⟨rest, hRest, hPure⟩ := bind_eq_ok hRest
        exact ⟨first, rest, hFirst, ih.mp hRest, (Except.ok.inj hPure).symm⟩
      · rintro ⟨first, rest, hFirst, hRest, rfl⟩
        rw [hFirst, ih.mpr hRest]
        rfl

/-- Related lists are related row by row. -/
theorem forall₂_row {R : α → β → Prop} {xs : List α} {ys : List β} (h : List.Forall₂ R xs ys)
    {row : Nat} {x : α} (hx : xs[row]? = some x) : ∃ y, ys[row]? = some y ∧ R x y := by
  induction h generalizing row with
  | nil => cases hx
  | cons hHead hTail ih =>
      cases row with
      | zero =>
          cases hx
          exact ⟨_, rfl, hHead⟩
      | succ row => exact ih hx

theorem forall₂_left {R : α → β → Prop} {xs : List α} {ys : List β} (h : List.Forall₂ R xs ys)
    {x : α} (hx : x ∈ xs) : ∃ y ∈ ys, R x y := by
  obtain ⟨row, hRow⟩ := List.mem_iff_getElem?.mp hx
  obtain ⟨y, hy, hR⟩ := forall₂_row h hRow
  exact ⟨y, List.mem_of_getElem? hy, hR⟩

theorem forall₂_right {R : α → β → Prop} {xs : List α} {ys : List β} (h : List.Forall₂ R xs ys)
    {y : β} (hy : y ∈ ys) : ∃ x ∈ xs, R x y :=
  forall₂_left h.flip hy

/-- What every step of a fallible fold keeps holds at its end. -/
theorem foldlM_invariant {σ : Type} (Inv : σ → List α → Prop) {f : σ → α → Except ε σ}
    (hStep : ∀ state x rest next, f state x = .ok next → Inv state (x :: rest) → Inv next rest)
    {xs : List α} {state finish : σ} (hStart : Inv state xs)
    (h : xs.foldlM f state = .ok finish) : Inv finish [] := by
  induction xs generalizing state with
  | nil =>
      cases h
      exact hStart
  | cons x xs ih =>
      rw [List.foldlM_cons] at h
      obtain ⟨next, hNext, hRest⟩ := bind_eq_ok h
      exact ih (hStep state x xs next hNext hStart) hRest

theorem forall₂_map_eq {γ : Type} {R : α → β → Prop} {f : α → γ} {g : β → γ} {xs : List α}
    {ys : List β} (h : ∀ x y, R x y → f x = g y) (hR : List.Forall₂ R xs ys) :
    xs.map f = ys.map g := by
  induction hR with
  | nil => rfl
  | cons hHead hTail ih => rw [List.map_cons, List.map_cons, h _ _ hHead, ih]

/-- Lists that are related row by row are related. -/
theorem forall₂_of_rows {R : α → β → Prop} {xs : List α} {ys : List β}
    (hLength : xs.length = ys.length)
    (h : ∀ (row : Nat) x y, xs[row]? = some x → ys[row]? = some y → R x y) : List.Forall₂ R xs ys := by
  refine List.forall₂_iff_get.mpr ⟨hLength, ?_⟩
  intro row hx hy
  exact h row _ _ (List.getElem?_eq_getElem hx) (List.getElem?_eq_getElem hy)

/-- A weaker relation need hold of the members only. -/
theorem forall₂_imp_mem {R S : α → β → Prop} {xs : List α} {ys : List β}
    (himp : ∀ x ∈ xs, ∀ y, R x y → S x y) (h : List.Forall₂ R xs ys) : List.Forall₂ S xs ys := by
  refine forall₂_of_rows h.length_eq ?_
  intro row x y hx hy
  obtain ⟨found, hFound, hR⟩ := forall₂_row h hx
  cases hFound.symm.trans hy
  exact himp x (List.mem_of_getElem? hx) _ hR

/-- Two relations of the same lists hold together. -/
theorem forall₂_both {R S : α → β → Prop} {xs : List α} {ys : List β} (hR : List.Forall₂ R xs ys)
    (hS : List.Forall₂ S xs ys) : List.Forall₂ (fun x y => R x y ∧ S x y) xs ys := by
  refine forall₂_of_rows hR.length_eq fun row x y hx hy => ⟨?_, ?_⟩
  · obtain ⟨found, hFound, hRow⟩ := forall₂_row hR hx
    cases hFound.symm.trans hy
    exact hRow
  · obtain ⟨found, hFound, hRow⟩ := forall₂_row hS hx
    cases hFound.symm.trans hy
    exact hRow

/-- Two lists that follow the same list are compared row by row. -/
theorem forall₂_compose {γ : Type} {R : α → β → Prop} {S : α → γ → Prop} {T : β → γ → Prop}
    {xs : List α} {ys : List β} {zs : List γ} (hR : List.Forall₂ R xs ys)
    (hS : List.Forall₂ S xs zs) (h : ∀ x y z, R x y → S x z → T y z) : List.Forall₂ T ys zs := by
  induction hR generalizing zs with
  | nil =>
      cases hS
      exact .nil
  | cons hHead hTail ih =>
      cases hS with
      | cons hFirst hRest => exact .cons (h _ _ _ hHead hFirst) (ih hRest)

/-- A map whose every call succeeds succeeds. -/
theorem mapM_eq_some_map {f : α → Option β} {g : α → β} {xs : List α}
    (h : ∀ x ∈ xs, f x = some (g x)) : xs.mapM f = some (xs.map g) := by
  induction xs with
  | nil => rfl
  | cons x xs ih =>
      rw [List.mapM_cons, h x List.mem_cons_self,
        ih fun other hMem => h other (List.mem_cons_of_mem _ hMem)]
      rfl

/-- A loop that collects values goes through step by step. -/
theorem forall₂_of_mapM_eq_some {f : α → Option β} {xs : List α} {ys : List β}
    (h : xs.mapM f = some ys) : List.Forall₂ (fun x y => f x = some y) xs ys := by
  induction xs generalizing ys with
  | nil =>
      cases h
      exact .nil
  | cons x xs ih =>
      rw [List.mapM_cons] at h
      obtain ⟨first, hFirst, hTail⟩ := Option.bind_eq_some_iff.mp h
      obtain ⟨rest, hRest, hPure⟩ := Option.bind_eq_some_iff.mp hTail
      cases hPure
      exact .cons hFirst (ih hRest)

/-- A loop over consecutive positions reads a list element by element. -/
theorem mapM_range'_eq_ok {f : Nat → Except ε α} {list : List α} {start : Nat}
    (h : ∀ (row : Nat) value, list[row]? = some value → f (start + row) = .ok value) :
    (List.range' start list.length).mapM f = .ok list := by
  refine mapM_eq_ok_iff.mpr (forall₂_of_rows (by simp) ?_)
  intro row position value hPosition hValue
  have hRow : row < list.length := (List.getElem?_eq_some_iff.mp hValue).1
  have hEq : position = start + row := by
    rw [List.getElem?_range' hRow, Nat.one_mul] at hPosition
    exact (Option.some.inj hPosition).symm
  rw [hEq]
  exact h row value hValue

/-- A loop of checks succeeds when every check does. -/
theorem forM_eq_ok_iff {f : α → Except ε Unit} {xs : List α} :
    xs.forM f = .ok () ↔ ∀ x ∈ xs, f x = .ok () := by
  induction xs with
  | nil => simp [List.forM, pure, Except.pure]
  | cons x xs ih =>
      rw [List.forall_mem_cons, ← ih]
      constructor
      · intro h
        obtain ⟨_, hFirst, hRest⟩ := bind_eq_ok h
        exact ⟨hFirst, hRest⟩
      · rintro ⟨hFirst, hRest⟩
        show (f x >>= fun _ => xs.forM f) = .ok ()
        rw [hFirst]
        exact hRest

/-! Computations that end with some value. -/

def Succeeds (result : Except ε α) : Prop :=
  ∃ value, result = .ok value

theorem succeeds_ok (value : α) : Succeeds (.ok value : Except ε α) := ⟨value, rfl⟩

theorem not_succeeds_error (message : ε) : ¬ Succeeds (.error message : Except ε α) := by
  rintro ⟨value, h⟩
  cases h

/-- A sequence succeeds exactly when the second part does on the first's value. -/
theorem succeeds_bind_iff {result : Except ε α} {f : α → Except ε β} :
    Succeeds (result >>= f) ↔ ∃ first, result = .ok first ∧ Succeeds (f first) := by
  constructor
  · rintro ⟨value, h⟩
    obtain ⟨first, hFirst, hRest⟩ := bind_eq_ok h
    exact ⟨first, hFirst, value, hRest⟩
  · rintro ⟨first, rfl, value, hRest⟩
    exact ⟨value, hRest⟩

theorem succeeds_mapError_iff {δ : Type} {result : Except ε α} {f : ε → δ} :
    Succeeds (result.mapError f) ↔ Succeeds result := by
  constructor
  · rintro ⟨value, h⟩
    exact ⟨value, mapError_eq_ok h⟩
  · rintro ⟨value, rfl⟩
    exact ⟨value, rfl⟩

theorem succeeds_ite_iff {condition : Prop} [Decidable condition] {value : α} {message : ε} :
    Succeeds (if condition then .ok value else .error message : Except ε α) ↔ condition := by
  split
  · next h => exact iff_of_true (succeeds_ok value) h
  · next h => exact iff_of_false (not_succeeds_error message) h

/-- A map succeeds exactly when every call does. -/
theorem succeeds_mapM_iff {f : α → Except ε β} {xs : List α} :
    Succeeds (xs.mapM f) ↔ ∀ x ∈ xs, Succeeds (f x) := by
  constructor
  · rintro ⟨ys, h⟩ x hx
    obtain ⟨y, -, hy⟩ := forall₂_left (mapM_eq_ok_iff.mp h) hx
    exact ⟨y, hy⟩
  · intro h
    induction xs with
    | nil => exact ⟨[], rfl⟩
    | cons x xs ih =>
        obtain ⟨y, hy⟩ := h x List.mem_cons_self
        obtain ⟨ys, hys⟩ := ih fun other hOther => h other (List.mem_cons_of_mem _ hOther)
        exact ⟨y :: ys, mapM_eq_ok_iff.mpr (.cons hy (mapM_eq_ok_iff.mp hys))⟩

/-- A loop whose steps all succeed collects what a projection picks. -/
theorem mapM_eq_filterMap {f : α → Except ε β} {g : α → Option β} {xs : List α}
    (h : ∀ x ∈ xs, ∃ y, f x = .ok y ∧ g x = some y) : xs.mapM f = .ok (xs.filterMap g) := by
  induction xs with
  | nil => rfl
  | cons x xs ih =>
      obtain ⟨y, hf, hg⟩ := h x List.mem_cons_self
      have hRest := ih fun other hOther => h other (List.mem_cons_of_mem _ hOther)
      rw [List.filterMap_cons_some hg]
      exact mapM_eq_ok_iff.mpr (.cons hf (mapM_eq_ok_iff.mp hRest))

end Results
