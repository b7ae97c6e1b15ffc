import Mathlib.Order.Lattice
import Mathlib.Data.List.Induction

/-! Values grouped under their keys, with the keys in order. -/
namespace SortedGroups

variable {κ ν : Type} [LinearOrder κ]

/-- Add a value to the group of its key. -/
def push (key : κ) (value : ν) : List (κ × List ν) → List (κ × List ν)
  | [] => [(key, [value])]
  | group :: groups =>
      if key < group.1 then (key, [value]) :: group :: groups
      else if key = group.1 then (group.1, group.2 ++ [value]) :: groups
      else group :: push key value groups

def groupBy (keyOf : ν → κ) (values : List ν) : List (κ × List ν) :=
  values.foldl (fun groups value => push (keyOf value) value groups) []

def Ordered (groups : List (κ × List ν)) : Prop :=
  groups.Pairwise fun first second => first.1 < second.1

theorem mem_push {key : κ} {value : ν} {groups : List (κ × List ν)} {group : κ × List ν}
    (h : group ∈ push key value groups) : group ∈ groups ∨ group.1 = key := by
  induction groups with
  | nil =>
      rw [List.mem_singleton.mp h]
      exact .inr rfl
  | cons head groups ih =>
      rw [push] at h
      split at h
      · rcases List.mem_cons.mp h with rfl | hRest
        · exact .inr rfl
        · exact .inl hRest
      · split at h
        next hSame =>
          rcases List.mem_cons.mp h with rfl | hRest
          · exact .inr hSame.symm
          · exact .inl (List.mem_cons_of_mem _ hRest)
        · rcases List.mem_cons.mp h with rfl | hRest
          · exact .inl List.mem_cons_self
          · exact (ih hRest).imp_left (List.mem_cons_of_mem _)

theorem Ordered.push {groups : List (κ × List ν)} (h : Ordered groups) (key : κ) (value : ν) :
    Ordered (push key value groups) := by
  induction groups with
  | nil => exact List.pairwise_singleton _ _
  | cons head groups ih =>
      obtain ⟨hHead, hRest⟩ := List.pairwise_cons.mp h
      rw [SortedGroups.push]
      split
      next hLess =>
        refine List.pairwise_cons.mpr ⟨fun group hGroup => ?_, h⟩
        rcases List.mem_cons.mp hGroup with rfl | hLater
        · exact hLess
        · exact lt_trans hLess (hHead group hLater)
      next hNot =>
        split
        · exact List.pairwise_cons.mpr ⟨hHead, hRest⟩
        next hOther =>
          refine List.pairwise_cons.mpr ⟨fun group hGroup => ?_, ih hRest⟩
          rcases mem_push hGroup with hLater | hNew
          · exact hHead group hLater
          · rw [hNew]
            exact lt_of_le_of_ne (not_lt.mp hNot) (Ne.symm hOther)

theorem filter_push_of_ne {key other : κ} (hOther : other ≠ key) (value : ν)
    (groups : List (κ × List ν)) :
    ((push key value groups).filter fun group => group.1 = other) =
      groups.filter fun group => group.1 = other := by
  induction groups with
  | nil => simp [push, Ne.symm hOther]
  | cons head groups ih =>
      rw [push]
      split
      · simp [Ne.symm hOther]
      · split
        next hSame =>
          have hHead : head.1 ≠ other := fun h => hOther (h.symm.trans hSame.symm)
          simp [hHead]
        · rw [List.filter_cons, List.filter_cons, ih]

/-- No group of a key stands behind a greater one. -/
theorem Ordered.filter_nil {groups : List (κ × List ν)} {key : κ}
    (h : ∀ group ∈ groups, key < group.1) : (groups.filter fun group => group.1 = key) = [] := by
  refine List.filter_eq_nil_iff.mpr fun group hGroup hSame => ?_
  exact absurd (of_decide_eq_true hSame) (ne_of_gt (h group hGroup))

theorem Ordered.filter_push {groups : List (κ × List ν)} (h : Ordered groups) (key : κ)
    (value : ν) : ((SortedGroups.push key value groups).filter fun group => group.1 = key) =
      [(key, (groups.filter fun group => group.1 = key).flatMap Prod.snd ++ [value])] := by
  induction groups with
  | nil => simp [SortedGroups.push]
  | cons head groups ih =>
      obtain ⟨hHead, hRest⟩ := List.pairwise_cons.mp h
      rw [SortedGroups.push]
      split
      next hLess =>
        have hNone := Ordered.filter_nil (List.forall_mem_cons.mpr
          ⟨hLess, fun group hGroup => lt_trans hLess (hHead group hGroup)⟩)
        simp [hNone]
      next hNot =>
        split
        next hSame =>
          have hNone := Ordered.filter_nil hHead
          subst hSame
          simp [hNone]
        next hOther =>
          have hHeadNe : head.1 ≠ key := Ne.symm hOther
          rw [List.filter_cons_of_neg (by simpa using hHeadNe),
            List.filter_cons_of_neg (by simpa using hHeadNe)]
          exact ih hRest

theorem ordered_groupBy (keyOf : ν → κ) (values : List ν) : Ordered (groupBy keyOf values) := by
  induction values using List.reverseRecOn with
  | nil => exact List.Pairwise.nil
  | append_singleton values value ih =>
      rw [groupBy, List.foldl_append]
      exact ih.push (keyOf value) value

/-- A key has one group at most, of its values in their order. -/
theorem filter_groupBy (keyOf : ν → κ) (values : List ν) (key : κ) :
    ((groupBy keyOf values).filter fun group => group.1 = key) =
      if (values.filter fun value => keyOf value = key) = [] then []
      else [(key, values.filter fun value => keyOf value = key)] := by
  induction values using List.reverseRecOn with
  | nil => rfl
  | append_singleton values value ih =>
      have hSplit : groupBy keyOf (values ++ [value]) =
          push (keyOf value) value (groupBy keyOf values) := List.foldl_append
      rw [hSplit, List.filter_append]
      by_cases hSame : keyOf value = key
      · rw [← hSame] at ih ⊢
        rw [(ordered_groupBy keyOf values).filter_push, ih]
        split
        next hNone => simp [hNone]
        · simp
      · rw [filter_push_of_ne (Ne.symm hSame), ih]
        simp [hSame]

theorem mem_groupBy {keyOf : ν → κ} {values : List ν} {group : κ × List ν}
    (h : group ∈ groupBy keyOf values) :
    group.2 = values.filter fun value => keyOf value = group.1 := by
  have hMem : group ∈ (groupBy keyOf values).filter fun other => other.1 = group.1 :=
    List.mem_filter.mpr ⟨h, decide_eq_true rfl⟩
  rw [filter_groupBy] at hMem
  split at hMem
  · exact absurd hMem List.not_mem_nil
  · exact congrArg Prod.snd (List.mem_singleton.mp hMem)

end SortedGroups
