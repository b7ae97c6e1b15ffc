import FlareDB.Transforms.GbkGroup

/-! The pane of an expired window that is emitted without being stored is the
one its stored state would emit. -/
namespace FlareDB

open KeyedStore

namespace InMemoryGbkState

/-- `applyGroup` without its shortcut: the group is stored and evaluated. -/
def applyGroupStored (inner : InMemoryGbkState) (key : PrimitiveValue) (window : BeamWindow)
    (elements : List PaneElement) (spec : TriggerSpec) (inputWatermark processingTime : Int64) :
    InMemoryGbkState × Option WindowedValue :=
  let identity := groupIdentity key window
  let state := (inner.states.lookup identity).getD
    (WindowState.new key window (TriggerRunner.new spec.trigger))
  let fired := fireState (addElements state elements processingTime) spec inputWatermark
    processingTime
  ({ inner with states := settle inner.states identity fired.1 }, fired.2)

variable {spec : TriggerSpec} (inner : InMemoryGbkState) (key : PrimitiveValue)
  (window : BeamWindow) {elements : List PaneElement} (inputWatermark processingTime : Int64)

theorem applyGroup_of_not_direct
    (h : inner.emitsDirectly window spec inputWatermark = false) :
    inner.applyGroup key window elements spec inputWatermark processingTime =
      inner.applyGroupStored key window elements spec inputWatermark processingTime := by
  rw [applyGroup, if_neg (by simp [h])]
  rfl

/-- The shortcut emits the pane of a new group that is fed and evaluated, and
that group does not stay stored. -/
theorem applyGroup_eq_applyGroupStored (hLateness : 0 ≤ spec.allowedLateness)
    (hElements : elements ≠ []) :
    inner.applyGroup key window elements spec inputWatermark processingTime =
      inner.applyGroupStored key window elements spec inputWatermark processingTime := by
  cases hDirect : inner.emitsDirectly window spec inputWatermark with
  | false => exact inner.applyGroup_of_not_direct key window inputWatermark processingTime hDirect
  | true =>
      obtain ⟨hEnd, hExpired⟩ := emitsDirectly_pastEnd hLateness hDirect
      let group : GroupInput := ⟨key, window, elements⟩
      let fired := fireState (fedState spec processingTime group none) spec inputWatermark
        processingTime
      have hNone : inner.states.lookup (groupIdentity key window) = none :=
        lookup_of_emitsDirectly hDirect _
      have hFed : (none, [directPane spec group]) = (fired.1.kept, fired.2.toList) :=
        feedGroup_direct spec inputWatermark processingTime hElements hEnd hExpired
      obtain ⟨hKept, hPanes⟩ := Prod.mk.inj hFed
      have hClosed : fired.1.closed = true := by
        by_contra hOpen
        rw [WindowState.kept, if_neg hOpen] at hKept
        cases hKept
      have hPane : fired.2 = some (directPane spec group) := by
        cases hFired : fired.2 with
        | none => rw [hFired] at hPanes; cases hPanes
        | some pane =>
            rw [hFired, Option.toList_some] at hPanes
            rw [List.singleton_inj.mp hPanes]
      have hStored : inner.applyGroupStored key window elements spec inputWatermark
          processingTime = (⟨settle inner.states (groupIdentity key window) fired.1,
            inner.readyScan⟩, fired.2) := by
        rw [applyGroupStored, hNone]
        rfl
      rw [hStored, hPane, settle, if_pos hClosed, erase_of_lookup_none hNone, applyGroup,
        if_pos hDirect]
      rfl

/-- The pane of a group, and what stays stored of it, do not depend on which
other groups are stored, and those are left as they are. -/
theorem applyGroup_shortcut (hLateness : 0 ≤ spec.allowedLateness) (hElements : elements ≠ []) :
    inner.applyGroup key window elements spec inputWatermark processingTime =
        inner.applyGroupStored key window elements spec inputWatermark processingTime ∧
      ∀ other : InMemoryGbkState,
        other.states.lookup (groupIdentity key window) =
            inner.states.lookup (groupIdentity key window) →
          (other.applyGroup key window elements spec inputWatermark processingTime).2 =
              (inner.applyGroup key window elements spec inputWatermark processingTime).2 ∧
            ∀ identity,
              (other.applyGroup key window elements spec inputWatermark
                  processingTime).1.states.lookup identity =
                if identity = groupIdentity key window then
                  (inner.applyGroup key window elements spec inputWatermark
                    processingTime).1.states.lookup identity
                else other.states.lookup identity := by
  refine ⟨inner.applyGroup_eq_applyGroupStored key window inputWatermark processingTime hLateness
    hElements, fun other hSame => ?_⟩
  rw [applyGroup_eq_applyGroupStored inner key window inputWatermark processingTime hLateness
      hElements,
    applyGroup_eq_applyGroupStored other key window inputWatermark processingTime hLateness
      hElements]
  simp only [applyGroupStored, hSame]
  refine ⟨trivial, fun identity => ?_⟩
  rw [lookup_settle, lookup_settle]
  split <;> rfl

/-- A group of an expired window, emitted with nothing else stored. -/
theorem applyGroup_shortcut_expired :
    (InMemoryGbkState.empty.applyGroup (.bool true) (.interval 0 100) [⟨.primitive (.bool true), 7⟩]
        ⟨.default, .discarding, .latestInPane, 0⟩ 200 3) =
      InMemoryGbkState.empty.applyGroupStored (.bool true) (.interval 0 100)
        [⟨.primitive (.bool true), 7⟩] ⟨.default, .discarding, .latestInPane, 0⟩ 200 3 :=
  (applyGroup_shortcut InMemoryGbkState.empty (.bool true) (.interval 0 100) 200 3 (by decide)
    (by simp)).1

end InMemoryGbkState
end FlareDB
