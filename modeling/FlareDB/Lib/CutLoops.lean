import Mathlib.Data.List.Basic

/-! Loops that may stop half way. The failure carries the state that was reached,
so a loop keeps one promise at its end and a weaker one where it stops. -/
namespace CutLoops

variable {ε σ α β : Type}

/-- `Done` holds of the items at the end, `Cut` of a first part of them where the
loop has stopped. -/
def Ends (Done Cut : List α → σ → Prop) (items : List α) : Except (ε × σ) σ → Prop
  | .ok state => Done items state
  | .error failure => ∃ seen, seen <+: items ∧ Cut seen failure.2

variable {Done Later Cut : List α → σ → Prop} {items more : List α}

theorem Ends.stopped {reason : ε} {state : σ} (h : Cut items state) :
    Ends Done Cut (items ++ more) (.error (reason, state)) :=
  ⟨items, List.prefix_append _ _, h⟩

theorem Ends.imp {result : Except (ε × σ) σ} (h : Ends Done Cut items result)
    (hLater : ∀ state, Done items state → Later items state) : Ends Later Cut items result := by
  cases result with
  | ok state => exact hLater state h
  | error failure => exact h

theorem Ends.bind {result : Except (ε × σ) σ} {next : σ → Except (ε × σ) σ}
    (h : Ends Done Cut items result)
    (hNext : ∀ state, Done items state → Ends Later Cut (items ++ more) (next state)) :
    Ends Later Cut (items ++ more) (result >>= next) := by
  cases result with
  | ok state => exact hNext state h
  | error failure =>
      obtain ⟨seen, hSeen, hCut⟩ := h
      exact ⟨seen, hSeen.trans (List.prefix_append _ _), hCut⟩

/-- A step that takes no items. -/
theorem Ends.andThen {result : Except (ε × σ) σ} {next : σ → Except (ε × σ) σ}
    (h : Ends Done Cut items result)
    (hNext : ∀ state, Done items state → Ends Later Cut items (next state)) :
    Ends Later Cut items (result >>= next) := by
  cases result with
  | ok state => exact hNext state h
  | error failure => exact h

/-- What every step keeps holds after all of them, or where one of them stops. -/
theorem Ends.foldlM {step : σ → β → Except (ε × σ) σ} {itemsOf : β → List α}
    (hStep : ∀ seen state x, Done seen state → Ends Done Cut (seen ++ itemsOf x) (step state x))
    (xs : List β) {seen : List α} {state : σ} (h : Done seen state) :
    Ends Done Cut (seen ++ xs.flatMap itemsOf) (xs.foldlM step state) := by
  induction xs generalizing seen state with
  | nil =>
      rw [List.flatMap_nil, List.append_nil]
      exact h
  | cons x xs ih =>
      rw [List.flatMap_cons, ← List.append_assoc, List.foldlM_cons]
      exact (hStep seen state x h).bind fun next hNext => ih hNext

/-- A loop whose steps all succeed comes to its end. -/
theorem foldlM_succeeds {step : σ → β → Except (ε × σ) σ} {xs : List β}
    (hStep : ∀ x ∈ xs, ∀ state, ∃ next, step state x = .ok next) (state : σ) :
    ∃ finish, xs.foldlM step state = .ok finish := by
  induction xs generalizing state with
  | nil => exact ⟨state, rfl⟩
  | cons x xs ih =>
      obtain ⟨next, hNext⟩ := hStep x List.mem_cons_self state
      obtain ⟨finish, hFinish⟩ := ih (fun other hOther => hStep other
        (List.mem_cons_of_mem _ hOther)) next
      refine ⟨finish, ?_⟩
      rw [List.foldlM_cons, hNext]
      exact hFinish

end CutLoops
