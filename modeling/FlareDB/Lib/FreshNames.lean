import FlareDB.Lib.Decimal
import Mathlib.Data.List.DropRight
import Mathlib.Data.List.Perm.Subperm
import Mathlib.Data.Nat.Nth

/-! Names that are made fresh by a number behind a stem, and stems that are made
of a name and a label. -/
namespace FreshNames

def numbered (stem : String) (number : Nat) : String := stem ++ toString number

/-- The first number from `number` on with which the name is fresh. -/
def search (taken : List String) (stem : String) : Nat → Nat → Nat
  | 0, number => number
  | fuel + 1, number =>
      if numbered stem number ∈ taken then search taken stem fuel (number + 1) else number

/-- Among as many numbers as there are names, and one more, one is fresh. -/
def freeNumber (taken : List String) (stem : String) : Nat :=
  search taken stem taken.length 0

def fresh (taken : List String) (stem : String) : String :=
  numbered stem (freeNumber taken stem)

/-- Two numbers give two names. -/
theorem numbered_injective {stem : String} {number other : Nat}
    (h : numbered stem number = numbered stem other) : number = other := by
  have hLists := congrArg String.toList h
  rw [numbered, numbered, String.toList_append, String.toList_append] at hLists
  have hDigits := List.append_cancel_left hLists
  rw [Nat.toString_eq_repr, Nat.toString_eq_repr, Nat.toList_repr, Nat.toList_repr] at hDigits
  simpa using congrArg (fun digits => Nat.ofDigitChars 10 digits 0) hDigits

section Search

variable {taken : List String} {stem : String}

theorem search_le (fuel number : Nat) : search taken stem fuel number ≤ number + fuel := by
  induction fuel generalizing number with
  | zero => exact Nat.le_refl _
  | succ fuel ih =>
      rw [search]
      split
      · exact (ih (number + 1)).trans (by omega)
      · omega

/-- The names that the search passes are taken. -/
theorem search_taken {fuel number other : Nat} (hFrom : number ≤ other)
    (hBefore : other < search taken stem fuel number) : numbered stem other ∈ taken := by
  induction fuel generalizing number with
  | zero =>
      rw [search] at hBefore
      omega
  | succ fuel ih =>
      rw [search] at hBefore
      split at hBefore
      next hTaken =>
        rcases Nat.eq_or_lt_of_le hFrom with rfl | hLater
        · exact hTaken
        · exact ih hLater hBefore
      · omega

/-- The name it stops at, before its fuel ends, is free. -/
theorem search_free {fuel number : Nat} (h : search taken stem fuel number < number + fuel) :
    numbered stem (search taken stem fuel number) ∉ taken := by
  induction fuel generalizing number with
  | zero =>
      rw [search] at h
      omega
  | succ fuel ih =>
      rw [search] at h ⊢
      split
      next hTaken =>
        rw [if_pos hTaken] at h
        exact ih (by omega)
      next hFree => exact hFree

/-- Every smaller number gives a taken name. -/
theorem freeNumber_taken {number : Nat} (h : number < freeNumber taken stem) :
    numbered stem number ∈ taken :=
  search_taken (Nat.zero_le _) h

/-- A fresh name is not taken. -/
theorem fresh_notMem (taken : List String) (stem : String) : fresh taken stem ∉ taken := by
  have hWithin : search taken stem taken.length 0 ≤ 0 + taken.length := search_le _ _
  rcases Nat.lt_or_eq_of_le hWithin with hLess | hAll
  · exact search_free hLess
  · intro hMem
    -- All names but one would be in a list that is too short for them.
    have hSubset : (List.range (taken.length + 1)).map (numbered stem) ⊆ taken := by
      intro name hName
      obtain ⟨number, hRange, rfl⟩ := List.mem_map.mp hName
      rcases Nat.lt_or_eq_of_le (Nat.le_of_lt_succ (List.mem_range.mp hRange)) with hLess | rfl
      · refine freeNumber_taken ?_
        rw [freeNumber, hAll]
        omega
      · rw [fresh, freeNumber, hAll, Nat.zero_add] at hMem
        exact hMem
    have hNodup : ((List.range (taken.length + 1)).map (numbered stem)).Nodup :=
      List.nodup_range.map fun _ _ hSame => numbered_injective hSame
    have hLength := (hNodup.subperm hSubset).length_le
    rw [List.length_map, List.length_range] at hLength
    omega

end Search

/-! Labels behind a slash. -/

def labelled (name label : String) : String := name ++ "/" ++ label

/-- A label has no slash, and it does not end with a digit. -/
structure IsLabel (label : String) : Prop where
  slashFree : '/' ∉ label.toList
  ends : ∃ front c, label.toList = front ++ [c] ∧ c.isDigit = false

theorem rdropWhile_append {α : Type} {p : α → Bool} (front : List α) {back : List α}
    (h : ∀ x ∈ back, p x = true) : (front ++ back).rdropWhile p = front.rdropWhile p := by
  induction back using List.reverseRecOn with
  | nil => rw [List.append_nil]
  | append_singleton back x ih =>
      rw [← List.append_assoc, List.rdropWhile_concat_pos _ _ _ (h x (by simp))]
      exact ih fun y hMem => h y (List.mem_append_left _ hMem)

theorem rdropWhile_numbered {stem : String} {front : List Char} {c : Char}
    (h : stem.toList = front ++ [c]) (hDigit : c.isDigit = false) (number : Nat) :
    (numbered stem number).toList.rdropWhile Char.isDigit = stem.toList := by
  have hDigits : ∀ d ∈ (toString number).toList, d.isDigit = true :=
    fun _ hMem => Decimal.isDigit_of_mem_repr hMem
  rw [numbered, String.toList_append, rdropWhile_append _ hDigits, h,
    List.rdropWhile_concat_neg _ _ _ (by simp [hDigit])]

theorem toList_labelled (name label : String) :
    (labelled name label).toList = name.toList ++ ['/'] ++ label.toList := by
  rw [labelled, String.toList_append, String.toList_append]
  rfl

/-- Labels without a slash are told apart from their names. -/
theorem labelled_injective {name other label otherLabel : String} (hLabel : '/' ∉ label.toList)
    (hOther : '/' ∉ otherLabel.toList) (h : labelled name label = labelled other otherLabel) :
    name = other ∧ label = otherLabel := by
  have hLists := congrArg String.toList h
  rw [toList_labelled, toList_labelled] at hLists
  have hDropped : ∀ (first second : String), '/' ∉ second.toList →
      (first.toList ++ ['/'] ++ second.toList).rdropWhile (· ≠ '/') = first.toList ++ ['/'] := by
    intro first second hSecond
    have hNoSlash : ∀ c ∈ second.toList, decide (c ≠ '/') = true := by
      intro c hMem
      refine decide_eq_true ?_
      rintro rfl
      exact hSecond hMem
    rw [rdropWhile_append _ hNoSlash]
    exact List.rdropWhile_concat_neg _ _ _ (by simp)
  have hNames := congrArg (List.rdropWhile (· ≠ '/')) hLists
  rw [hDropped _ _ hLabel, hDropped _ _ hOther] at hNames
  rw [hNames] at hLists
  exact ⟨String.toList_inj.mp (List.append_cancel_right hNames),
    String.toList_inj.mp (List.append_cancel_left hLists)⟩

/-- A name with a label and a number is taken apart again. -/
theorem numbered_labelled_injective {name other label otherLabel : String} {number otherNumber : Nat}
    (hLabel : IsLabel label) (hOther : IsLabel otherLabel)
    (h : numbered (labelled name label) number = numbered (labelled other otherLabel) otherNumber) :
    name = other ∧ label = otherLabel ∧ number = otherNumber := by
  obtain ⟨front, c, hEnd, hDigit⟩ := hLabel.ends
  obtain ⟨otherFront, d, hOtherEnd, hOtherDigit⟩ := hOther.ends
  have hStems : labelled name label = labelled other otherLabel := by
    have hDropped := congrArg (fun text => text.toList.rdropWhile Char.isDigit) h
    rw [rdropWhile_numbered (by rw [toList_labelled, hEnd, ← List.append_assoc]) hDigit,
      rdropWhile_numbered (by rw [toList_labelled, hOtherEnd, ← List.append_assoc]) hOtherDigit]
      at hDropped
    exact String.toList_inj.mp hDropped
  obtain ⟨rfl, rfl⟩ := labelled_injective hLabel.slashFree hOther.slashFree hStems
  exact ⟨rfl, rfl, numbered_injective h⟩

/-- A stem without a slash never makes a name with a label. -/
theorem numbered_ne_labelled {stem : String} (hStem : '/' ∉ stem.toList) (name label : String)
    (number other : Nat) : numbered stem number ≠ numbered (labelled name label) other := by
  intro h
  have hSlash : '/' ∈ (numbered (labelled name label) other).toList := by
    rw [numbered, String.toList_append, toList_labelled]
    simp
  rw [← h, numbered, String.toList_append] at hSlash
  rcases List.mem_append.mp hSlash with hFront | hDigits
  · exact hStem hFront
  · exact absurd (Decimal.isDigit_of_mem_repr hDigits) (by decide)

/-- A labelled name with a number is never the name itself. -/
theorem numbered_labelled_ne (name label : String) (number : Nat) :
    numbered (labelled name label) number ≠ name := by
  intro h
  have hLength := congrArg (fun text => text.toList.length) h
  rw [numbered, String.toList_append, toList_labelled] at hLength
  simp only [List.length_append, List.length_singleton] at hLength
  omega

/-! Numbers that are used up one after the other. -/

section Counting

variable {free : Nat → Prop} [DecidablePred free]

/-- With the first `used` of the free numbers used up, the next one is the one
with exactly so many before it. -/
theorem count_eq_of_next {used number : Nat} (hCount : used ≤ Nat.count free number)
    (hBefore : ∀ other < number, free other → Nat.count free other < used) :
    Nat.count free number = used := by
  rcases Nat.eq_or_lt_of_le hCount with hSame | hMore
  · exact hSame.symm
  · exfalso
    induction number with
    | zero =>
        rw [Nat.count_zero] at hMore
        omega
    | succ number ih =>
        rw [Nat.count_succ] at hMore
        split at hMore
        next hFree =>
          have hLess := hBefore number (Nat.lt_succ_self _) hFree
          omega
        · exact ih (by omega) (fun other hLess => hBefore other (by omega)) (by omega)

variable {taken : List String} {stem : String} {used : Nat}

/-- The name that is made next is the one with exactly so many free ones before it. -/
theorem eq_freeNumber_iff
    (h : ∀ number, numbered stem number ∈ taken ↔ ¬ free number ∨ Nat.count free number < used)
    {number : Nat} : number = freeNumber taken stem ↔ free number ∧ Nat.count free number = used := by
  have hFresh : free (freeNumber taken stem) ∧ used ≤ Nat.count free (freeNumber taken stem) := by
    have hNot : ¬ numbered stem (freeNumber taken stem) ∈ taken := fresh_notMem taken stem
    rw [h, not_or, not_not, Nat.not_lt] at hNot
    exact hNot
  have hCount : Nat.count free (freeNumber taken stem) = used := by
    refine count_eq_of_next hFresh.2 fun other hLess hFree => ?_
    exact ((h other).mp (freeNumber_taken hLess)).resolve_left (not_not_intro hFree)
  constructor
  · rintro rfl
    exact ⟨hFresh.1, hCount⟩
  · rintro ⟨hFree, hSame⟩
    exact Nat.count_injective hFree hFresh.1 (hSame.trans hCount.symm)

/-- With the next name made, one more of the free ones is used up. -/
theorem taken_next
    (h : ∀ number, numbered stem number ∈ taken ↔ ¬ free number ∨ Nat.count free number < used)
    (number : Nat) :
    (numbered stem number ∈ taken ∨ number = freeNumber taken stem) ↔
      ¬ free number ∨ Nat.count free number < used + 1 := by
  rw [eq_freeNumber_iff h, h]
  by_cases hFree : free number
  · simp only [hFree, not_true_eq_false, false_or, true_and]
    omega
  · simp [hFree]

end Counting

end FreshNames
