import FlareDB.Lib.KeyedStore
import Mathlib.Data.Multiset.Filter

/-! Reports folded into a store with one entry for each key. A report may be
skipped, and an accepted one changes the entry of its key only. What an entry
stands for depends on the reports of its key and not on their order. -/
namespace KeyedFold

open KeyedStore

/-- Which reports are accepted, and the key of each. -/
structure Keyed (κ ρ : Type) where
  accepts : ρ → Bool
  key : ρ → κ

namespace Keyed

variable {κ ν ρ : Type} [DecidableEq κ] (keyed : Keyed κ ρ)

/-- The reports that the entry of a key is made of. -/
def reportsOf (key : κ) (reports : Multiset ρ) : Multiset ρ :=
  reports.filter fun report => keyed.accepts report ∧ keyed.key report = key

/-- The entry of each key stands for its reports, and a key without reports has
no entry. -/
def Holds (R : Multiset ρ → ν → Prop) (reports : Multiset ρ) (store : Store κ ν) : Prop :=
  ∀ key, match store.lookup key with
    | none => keyed.reportsOf key reports = 0
    | some entry => keyed.reportsOf key reports ≠ 0 ∧ R (keyed.reportsOf key reports) entry

variable {keyed}

theorem reportsOf_skipped {report : ρ} (h : ¬ keyed.accepts report) (key : κ)
    (reports : Multiset ρ) :
    keyed.reportsOf key (report ::ₘ reports) = keyed.reportsOf key reports :=
  Multiset.filter_cons_of_neg _ fun hBoth => h hBoth.1

theorem reportsOf_accepted {report : ρ} (h : keyed.accepts report) (reports : Multiset ρ) :
    keyed.reportsOf (keyed.key report) (report ::ₘ reports) =
      report ::ₘ keyed.reportsOf (keyed.key report) reports :=
  Multiset.filter_cons_of_pos _ ⟨h, rfl⟩

theorem reportsOf_other {report : ρ} {key : κ} (h : key ≠ keyed.key report)
    (reports : Multiset ρ) :
    keyed.reportsOf key (report ::ₘ reports) = keyed.reportsOf key reports :=
  Multiset.filter_cons_of_neg _ fun hBoth => h hBoth.2.symm

theorem mem_reportsOf {key : κ} {reports : Multiset ρ} {report : ρ} :
    report ∈ keyed.reportsOf key reports ↔
      report ∈ reports ∧ keyed.accepts report ∧ keyed.key report = key :=
  Multiset.mem_filter

section Run

variable {R : Multiset ρ → ν → Prop} {reports : Multiset ρ} {store : Store κ ν} {report : ρ}

theorem holds_empty : keyed.Holds R 0 ∅ :=
  fun _ => rfl

theorem Holds.skip (h : keyed.Holds R reports store) (hSkipped : ¬ keyed.accepts report) :
    keyed.Holds R (report ::ₘ reports) store := by
  intro key
  rw [reportsOf_skipped hSkipped]
  exact h key

/-- The entry of the report's key changes, and the others stay. -/
theorem Holds.insert (h : keyed.Holds R reports store) (hAccepted : keyed.accepts report)
    {entry : ν} (hEntry : R (report ::ₘ keyed.reportsOf (keyed.key report) reports) entry) :
    keyed.Holds R (report ::ₘ reports) (store.insert (keyed.key report) entry) := by
  intro key
  by_cases hKey : key = keyed.key report
  · subst hKey
    rw [AList.lookup_insert, reportsOf_accepted hAccepted]
    exact ⟨Multiset.cons_ne_zero, hEntry⟩
  · rw [AList.lookup_insert_ne hKey, reportsOf_other hKey]
    exact h key

theorem Holds.fresh (h : keyed.Holds R reports store) {key : κ} (hNone : store.lookup key = none) :
    keyed.reportsOf key reports = 0 := by
  have hHere := h key
  rw [hNone] at hHere
  exact hHere

theorem Holds.known (h : keyed.Holds R reports store) {key : κ} {entry : ν}
    (hEntry : store.lookup key = some entry) :
    keyed.reportsOf key reports ≠ 0 ∧ R (keyed.reportsOf key reports) entry := by
  have hHere := h key
  rw [hEntry] at hHere
  exact hHere

/-- A run over the reports, one step for each. -/
theorem holds_run {step : Store κ ν → ρ → Option (Store κ ν)} (reports : List ρ)
    (hStep : ∀ (front : List ρ) (report : ρ) (store : Store κ ν), front ++ [report] <+: reports →
      keyed.Holds R front store →
        ∃ next, step store report = some next ∧ keyed.Holds R (report ::ₘ ↑front) next) :
    ∃ store, reports.foldlM step ∅ = some store ∧ keyed.Holds R reports store := by
  induction reports using List.reverseRecOn with
  | nil => exact ⟨∅, rfl, holds_empty⟩
  | append_singleton front report ih =>
      obtain ⟨middle, hMiddle, hHolds⟩ := ih fun before other store hBefore =>
        hStep before other store (hBefore.trans (List.prefix_append _ _))
      obtain ⟨next, hNext, hAfter⟩ := hStep front report middle (List.prefix_refl _) hHolds
      refine ⟨next, ?_, ?_⟩
      · rw [List.foldlM_append, hMiddle]
        show ([report].foldlM step middle) = some next
        rw [List.foldlM_cons, hNext]
        rfl
      · have hReports : ((front ++ [report] : List ρ) : Multiset ρ) =
            report ::ₘ (front : Multiset ρ) :=
          Multiset.coe_eq_coe.mpr (List.perm_append_singleton report front)
        rw [hReports]
        exact hAfter

end Run

end Keyed

end KeyedFold
