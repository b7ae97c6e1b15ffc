import FlareDB.Engine.Trigger
import Mathlib.Algebra.Order.BigOperators.Group.List
import Mathlib.Algebra.Order.Group.Int

/-! Triggers as pipelines describe them, how they are parsed, and when the
delay of a processing-time trigger is the one described. -/
namespace FlareDB

/-- One step of a processing-time delay. -/
inductive TimestampTransform where
  | unset
  | delay (delayMillis : Int64)
  | alignTo (period offset : Int64)
deriving Repr

/-- The trigger of a windowing strategy. Every submessage may be absent. -/
inductive TriggerProto where
  | unset
  | default
  | never
  | always
  | elementCount (elementCount : Int32)
  | afterProcessingTime (timestampTransforms : List TimestampTransform)
  | afterSynchronizedProcessingTime
  | afterEndOfWindow (earlyFirings lateFirings : Option TriggerProto)
  | afterAll (subtriggers : List TriggerProto)
  | afterAny (subtriggers : List TriggerProto)
  | afterEach (subtriggers : List TriggerProto)
  | repeating (subtrigger : Option TriggerProto)
  | orFinally (main finally_ : Option TriggerProto)

/-- What a transform adds to the delay. Alignments are ignored. -/
def TimestampTransform.delayMillis : TimestampTransform → Option Int64
  | .delay delayMillis => some (max delayMillis 0)
  | .unset | .alignTo _ _ => none

/-- Sum the delays of a processing-time trigger, as plain additions of words. -/
def totalDelayMillis (transforms : List TimestampTransform) : Int64 :=
  (transforms.filterMap TimestampTransform.delayMillis).foldl (· + ·) 0

namespace Trigger

mutual

/-- Parse a trigger that is present. -/
def ofProto : TriggerProto → Trigger
  | .unset | .default => .default
  | .never => .never
  | .always => .always
  | .elementCount count => .elementCount (max count.toInt 1).toNat
  | .afterProcessingTime transforms => .afterProcessingTime (totalDelayMillis transforms)
  | .afterSynchronizedProcessingTime => .afterSynchronizedProcessingTime
  | .afterEndOfWindow early late => .afterWatermark (mapProto early) (mapProto late)
  | .afterAll subs => .afterAll (parseAll subs)
  | .afterAny subs => .afterAny (parseAll subs)
  | .afterEach subs => .afterEach (parseAll subs)
  | .repeating sub => .repeating (fromProto sub)
  | .orFinally main finally_ => .orFinally (fromProto main) (fromProto finally_)

/-- Parse the trigger of a windowing strategy. An absent trigger is the
default. -/
def fromProto : Option TriggerProto → Trigger
  | some proto => ofProto proto
  | none => .default

/-- Parse a trigger that stays absent when it is. -/
def mapProto : Option TriggerProto → Option Trigger
  | some proto => some (ofProto proto)
  | none => none

def parseAll : List TriggerProto → List Trigger
  | [] => []
  | sub :: subs => ofProto sub :: parseAll subs

end

end Trigger

namespace TriggerRunner

/-- A runner of a trigger that has been fed elements at some processing times. -/
def fed (trigger : Trigger) (times : List Int64) : TriggerRunner :=
  times.foldl onElement (new trigger)

end TriggerRunner

section Delay

/-- The sum of the delays over the integers. -/
def delaySum (transforms : List TimestampTransform) : Int :=
  ((transforms.filterMap TimestampTransform.delayMillis).map Int64.toInt).sum

/-- The additions of `totalDelayMillis`, checked. -/
def checkedTotalDelay (transforms : List TimestampTransform) : Option Int64 :=
  (transforms.filterMap TimestampTransform.delayMillis).foldlM checkedAdd 0

/-- Whether no addition on the way to the time a trigger is due overflows. -/
def AdditionsFit (transforms : List TimestampTransform) (first : Int64) : Prop :=
  ((checkedTotalDelay transforms).bind (checkedAdd first)).isSome = true

theorem delay_nonneg (transforms : List TimestampTransform) :
    ∀ delay ∈ transforms.filterMap TimestampTransform.delayMillis, 0 ≤ delay.toInt := by
  intro delay hDelay
  obtain ⟨transform, _, hParsed⟩ := List.mem_filterMap.mp hDelay
  cases transform with
  | delay delayMillis =>
      cases hParsed
      show 0 ≤ (if delayMillis ≤ 0 then 0 else delayMillis).toInt
      split
      · simp
      next hPositive =>
        rw [Int64.le_iff_toInt_le, Int64.toInt_zero] at hPositive
        omega
  | unset | alignTo period offset => cases hParsed

/-- Delays that are not negative add up without overflow exactly when their sum
fits: no partial sum is above the whole. -/
theorem foldlM_checkedAdd {delays : List Int64} (hNonneg : ∀ delay ∈ delays, 0 ≤ delay.toInt)
    (total : Int64) (hTotal : 0 ≤ total.toInt) :
    (total.toInt + (delays.map Int64.toInt).sum < 2 ^ 63 →
      delays.foldlM checkedAdd total = some (delays.foldl (· + ·) total) ∧
        (delays.foldl (· + ·) total).toInt = total.toInt + (delays.map Int64.toInt).sum) ∧
    (2 ^ 63 ≤ total.toInt + (delays.map Int64.toInt).sum →
      delays.foldlM checkedAdd total = none) := by
  induction delays generalizing total with
  | nil =>
      have hFits := Int64.toInt_lt total
      rw [List.map_nil, List.sum_nil, Int.add_zero]
      exact ⟨fun _ => ⟨rfl, rfl⟩, fun h => absurd hFits (by omega)⟩
  | cons delay rest ih =>
      obtain ⟨hDelay, hRest⟩ := List.forall_mem_cons.mp hNonneg
      have hSum : 0 ≤ (rest.map Int64.toInt).sum :=
        List.sum_nonneg (List.forall_mem_map.mpr hRest)
      rw [List.map_cons, List.sum_cons, List.foldlM_cons, List.foldl_cons, checkedAdd]
      by_cases hFits : total.toInt + delay.toInt < 2 ^ 63
      · have hAdd : (total + delay).toInt = total.toInt + delay.toInt :=
          toInt_add_of_fits (by omega) hFits
        have hNext := ih hRest (total + delay) (by omega)
        rw [hAdd] at hNext
        rw [if_pos (show _ ∧ _ from ⟨by omega, hFits⟩), ← Int.add_assoc]
        exact hNext
      · rw [if_neg (show ¬(_ ∧ _) from fun h => hFits h.2)]
        exact ⟨fun h => absurd h (by omega), fun _ => rfl⟩

/-- The checked sum of the delays is the sum over the integers, when it fits. -/
theorem checkedTotalDelay_spec (transforms : List TimestampTransform) :
    (delaySum transforms < 2 ^ 63 →
      checkedTotalDelay transforms = some (totalDelayMillis transforms) ∧
        (totalDelayMillis transforms).toInt = delaySum transforms) ∧
    (2 ^ 63 ≤ delaySum transforms → checkedTotalDelay transforms = none) := by
  have h := foldlM_checkedAdd (delay_nonneg transforms) 0 (by simp)
  rw [Int64.toInt_zero, Int.zero_add] at h
  exact h

theorem delaySum_nonneg (transforms : List TimestampTransform) : 0 ≤ delaySum transforms :=
  List.sum_nonneg (List.forall_mem_map.mpr (delay_nonneg transforms))

/-- No addition overflows exactly when the sum of the delays fits, and so does
the time the trigger is due. -/
theorem additionsFit_iff (transforms : List TimestampTransform) (first : Int64) :
    AdditionsFit transforms first ↔
      delaySum transforms < 2 ^ 63 ∧ first.toInt + delaySum transforms < 2 ^ 63 := by
  have hNonneg := delaySum_nonneg transforms
  have hFirst := Int64.le_toInt first
  unfold AdditionsFit
  by_cases hSum : delaySum transforms < 2 ^ 63
  · obtain ⟨hChecked, hTotal⟩ := (checkedTotalDelay_spec transforms).1 hSum
    rw [hChecked, Option.bind_some, checkedAdd, hTotal]
    split
    next hFits => exact iff_of_true rfl ⟨hSum, hFits.2⟩
    next hFits => exact iff_of_false (by simp) fun h => hFits ⟨by omega, h.2⟩
  · rw [(checkedTotalDelay_spec transforms).2 (by omega)]
    exact iff_of_false (by simp) fun h => hSum h.1

/-- What a processing-time trigger knows of its elements: when the first of
them arrived. -/
theorem fed_afterProcessingTime (delayMillis first : Int64) (rest : List Int64) :
    TriggerRunner.fed (.afterProcessingTime delayMillis) (first :: rest) =
      { trigger := .afterProcessingTime delayMillis, state := { firstArrival := some first } } := by
  have hFirst : (TriggerRunner.new (.afterProcessingTime delayMillis)).onElement first =
      { trigger := .afterProcessingTime delayMillis, state := { firstArrival := some first } } := by
    simp [TriggerRunner.new, TriggerRunner.onElement, Trigger.fresh, Trigger.element]
  rw [TriggerRunner.fed, List.foldl_cons, hFirst]
  induction rest with
  | nil => rfl
  | cons next rest ih =>
      rw [List.foldl_cons]
      simpa [TriggerRunner.onElement, Trigger.element] using ih

/-- The moment a parsed processing-time trigger is due is the one described, and
is computed without overflow, exactly when the sum of the delays fits a word and
so does the first arrival plus that sum. -/
theorem afterProcessingTime_ready_iff (transforms : List TimestampTransform) (first : Int64)
    (rest : List Int64) (ctx : TriggerContext) :
    (AdditionsFit transforms first ∧
      ((TriggerRunner.fed (Trigger.fromProto (some (.afterProcessingTime transforms)))
          (first :: rest)).shouldFire ctx = true ↔
        delaySum transforms ≤ ctx.processingTime.toInt - first.toInt)) ↔
      delaySum transforms < 2 ^ 63 ∧ first.toInt + delaySum transforms < 2 ^ 63 := by
  rw [← additionsFit_iff, and_iff_left_iff_imp]
  intro hFits
  obtain ⟨hSum, hDue⟩ := (additionsFit_iff transforms first).mp hFits
  have hFirst := Int64.le_toInt first
  have hNonneg := delaySum_nonneg transforms
  obtain ⟨_, hTotal⟩ := (checkedTotalDelay_spec transforms).1 hSum
  have hAdd : (first + totalDelayMillis transforms).toInt =
      first.toInt + delaySum transforms := by
    rw [toInt_add_of_fits (by omega) (by omega), hTotal]
  have hReady : (TriggerRunner.fed (Trigger.fromProto (some (.afterProcessingTime transforms)))
      (first :: rest)).shouldFire ctx =
        decide (ctx.processingTime ≥ first + totalDelayMillis transforms) := by
    rw [Trigger.fromProto, Trigger.ofProto, fed_afterProcessingTime]
    simp [TriggerRunner.shouldFire, Trigger.shouldFire]
  rw [hReady, decide_eq_true_eq, ge_iff_le, Int64.le_iff_toInt_le, hAdd]
  omega

/-- The largest delay, meant as "never", is due at once. -/
theorem not_afterProcessingTime_ready_largestDelay :
    ¬∀ transforms first rest (ctx : TriggerContext),
      (TriggerRunner.fed (Trigger.fromProto (some (.afterProcessingTime transforms)))
          (first :: rest)).shouldFire ctx = true ↔
        delaySum transforms ≤ ctx.processingTime.toInt - first.toInt := by
  intro h
  have hDue := (h [.delay (Int64.ofInt (2 ^ 63 - 1))] 1 []
    { endOfWindow := false, expired := false, processingTime := 1 }).mp (by decide +kernel)
  exact absurd hDue (by decide)

end Delay

end FlareDB
