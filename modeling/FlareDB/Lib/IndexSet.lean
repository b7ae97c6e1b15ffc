import Mathlib.Data.List.Flatten
import Mathlib.Data.List.Induction
import Mathlib.Data.List.Nodup
import Mathlib.Data.List.Perm.Subperm

/-! Sets that keep the order of insertion and compare their elements by a key. -/
namespace IndexSet

variable {α κ : Type} [DecidableEq κ] (key : α → κ)

def insert (set : List α) (x : α) : List α :=
  if key x ∈ set.map key then set else set ++ [x]

def extend (set xs : List α) : List α :=
  xs.foldl (insert key) set

variable {key}

theorem mem_of_mem_insert {set : List α} {x y : α} (h : y ∈ insert key set x) :
    y ∈ set ∨ y = x := by
  rw [insert] at h
  split at h
  · exact Or.inl h
  · rcases List.mem_append.mp h with hOld | hNew
    · exact Or.inl hOld
    · exact Or.inr (List.mem_singleton.mp hNew)

theorem mem_keys_insert {set : List α} {x : α} {k : κ} :
    k ∈ (insert key set x).map key ↔ k ∈ set.map key ∨ k = key x := by
  rw [insert]
  split
  next hKey =>
    constructor
    · exact Or.inl
    · rintro (hOld | rfl)
      · exact hOld
      · exact hKey
  · rw [List.map_append, List.mem_append, List.map_singleton, List.mem_singleton]

theorem mem_of_mem_extend {set xs : List α} {y : α} (h : y ∈ extend key set xs) :
    y ∈ set ∨ y ∈ xs := by
  induction xs generalizing set with
  | nil => exact Or.inl h
  | cons x xs ih =>
      rcases ih h with hSet | hTail
      · rcases mem_of_mem_insert hSet with hOld | rfl
        · exact Or.inl hOld
        · exact Or.inr (List.mem_cons_self ..)
      · exact Or.inr (List.mem_cons_of_mem x hTail)

theorem mem_keys_extend {set xs : List α} {k : κ} :
    k ∈ (extend key set xs).map key ↔ k ∈ set.map key ∨ k ∈ xs.map key := by
  induction xs generalizing set with
  | nil => simp [extend]
  | cons x xs ih =>
      show k ∈ (extend key (insert key set x) xs).map key ↔ _
      rw [ih, mem_keys_insert, List.map_cons, List.mem_cons, or_assoc]

/-- Where the key tells the elements apart, a set is extended by every element. -/
theorem mem_extend_iff {set xs : List α} {P : α → Prop}
    (hInj : ∀ x y, P x → P y → key x = key y → x = y) (hSet : ∀ x ∈ set, P x)
    (hXs : ∀ x ∈ xs, P x) {y : α} : y ∈ extend key set xs ↔ y ∈ set ∨ y ∈ xs := by
  constructor
  · exact mem_of_mem_extend
  · intro h
    have hP : P y := h.elim (hSet y) (hXs y)
    have hKey : key y ∈ (extend key set xs).map key :=
      mem_keys_extend.mpr (h.imp (List.mem_map_of_mem (f := key)) (List.mem_map_of_mem (f := key)))
    obtain ⟨found, hFound, hSame⟩ := List.mem_map.mp hKey
    have hFoundP : P found := (mem_of_mem_extend hFound).elim (hSet found) (hXs found)
    exact hInj found y hFoundP hP hSame ▸ hFound

theorem extend_append (set xs : List α) (x : α) :
    extend key set (xs ++ [x]) = insert key (extend key set xs) x := by
  simp [extend]

theorem nodup_keys_insert {set : List α} (h : (set.map key).Nodup) (x : α) :
    ((insert key set x).map key).Nodup := by
  rw [insert]
  split
  · exact h
  next hNew =>
    rw [List.map_append, List.map_singleton]
    refine List.nodup_append.mpr ⟨h, List.nodup_singleton _, ?_⟩
    rintro k hOld _ hLast rfl
    rw [List.mem_singleton.mp hLast] at hOld
    exact hNew hOld

/-- The keys of an index set are distinct. -/
theorem nodup_keys_extend (xs : List α) : ((extend key [] xs).map key).Nodup := by
  induction xs using List.reverseRecOn with
  | nil => exact List.nodup_nil
  | append_singleton xs x ih =>
      rw [extend_append]
      exact nodup_keys_insert ih x

/-- A coarser key keeps some of the elements that a finer one keeps. -/
theorem extend_sublist_extend_id {α : Type} [DecidableEq α] (key : α → κ) (xs : List α) :
    (extend key [] xs).Sublist (extend id [] xs) := by
  induction xs using List.reverseRecOn with
  | nil => exact List.Sublist.slnil
  | append_singleton xs x ih =>
      rw [extend_append, extend_append, insert, insert, List.map_id]
      by_cases hKey : key x ∈ (extend key [] xs).map key
      · rw [if_pos hKey]
        split
        · exact ih
        · exact ih.trans (List.sublist_append_left _ _)
      · have hNew : id x ∉ extend id [] xs := fun hMem => by
          rcases mem_of_mem_extend hMem with hNil | hOld
          · exact List.not_mem_nil hNil
          · exact hKey (mem_keys_extend.mpr (.inr (List.mem_map_of_mem hOld)))
        rw [if_neg hKey, if_neg hNew]
        exact ih.append (List.Sublist.refl [x])

/-- A key that tells the elements apart keeps all that are distinct. -/
theorem extend_eq_extend_id_iff {α : Type} [DecidableEq α] {key : α → κ} {xs : List α} :
    extend key [] xs = extend id [] xs ↔ ((extend id [] xs).map key).Nodup := by
  constructor
  · intro hSame
    rw [← hSame]
    exact nodup_keys_extend xs
  · intro hNodup
    have hSubset : (extend id [] xs).map key ⊆ (extend key [] xs).map key := by
      intro k hKey
      obtain ⟨x, hMem, rfl⟩ := List.mem_map.mp hKey
      exact mem_keys_extend.mpr (.inr (List.mem_map_of_mem
        ((mem_of_mem_extend hMem).resolve_left List.not_mem_nil)))
    have hLength := (hNodup.subperm hSubset).length_le
    rw [List.length_map, List.length_map] at hLength
    exact (extend_sublist_extend_id key xs).eq_of_length_le hLength

/-- Dropping an element that is written shortens what is written. -/
theorem eq_of_sublist_of_flatMap_eq {β : Type} {f : α → List β} (hSome : ∀ x, f x ≠ [])
    {some all : List α} (h : some.Sublist all) (hSame : some.flatMap f = all.flatMap f) :
    some = all := by
  induction h with
  | slnil => rfl
  | cons x hRest ih =>
      have hLength := congrArg List.length hSame
      have hLe := (hRest.flatMap f).length_le
      have hHere := List.length_pos_iff.mpr (hSome x)
      rw [List.flatMap_cons, List.length_append] at hLength
      omega
  | cons_cons x hRest ih =>
      rw [List.flatMap_cons, List.flatMap_cons] at hSame
      rw [ih (List.append_cancel_left hSame)]

end IndexSet
