import Mathlib.Order.Basic

/-! Maximal stretches of covered instants. A set of covered instants on a line
has gaps; between two neighbouring gaps lies one stretch, and every interval
that does not itself reach over a gap lies in exactly one. -/
namespace Stretch

/-- The stretch of the covered instants an interval lies in: from the last gap
at or below its lower end to the first gap above that one. An empty interval at
a gap is a stretch of its own. -/
def Spans (covered : Int → Prop) (low high start finish : Int) : Prop :=
  start ≤ low ∧ ¬ covered start ∧ (∀ t, start < t → t ≤ low → covered t) ∧
    if start = low ∧ high ≤ low then finish = high
    else start < finish ∧ ¬ covered finish ∧ ∀ t, start < t → t < finish → covered t

namespace Spans

variable {covered other : Int → Prop} {low high start finish start' finish' : Int}

theorem start_eq (h : Spans covered low high start finish)
    (h' : Spans covered low high start' finish') : start = start' := by
  obtain ⟨hLow, hGap, hFill, _⟩ := h
  obtain ⟨hLow', hGap', hFill', _⟩ := h'
  rcases Int.lt_trichotomy start start' with hLess | hSame | hMore
  · exact absurd (hFill start' hLess hLow') hGap'
  · exact hSame
  · exact absurd (hFill' start hMore hLow) hGap

/-- An interval lies in one stretch only. -/
theorem unique (h : Spans covered low high start finish)
    (h' : Spans covered low high start' finish') : start = start' ∧ finish = finish' := by
  have hStart := h.start_eq h'
  subst hStart
  refine ⟨rfl, ?_⟩
  have hEnd := h.2.2.2
  have hEnd' := h'.2.2.2
  split at hEnd
  · next hEmpty =>
      rw [if_pos hEmpty] at hEnd'
      rw [hEnd, hEnd']
  · next hLong =>
      rw [if_neg hLong] at hEnd'
      rcases Int.lt_trichotomy finish finish' with hLess | hSame | hMore
      · exact absurd (hEnd'.2.2 finish hEnd.1 hLess) hEnd.2.1
      · exact hSame
      · exact absurd (hEnd.2.2 finish' hEnd'.1 hMore) hEnd'.2.1

/-- Covering more instants keeps a stretch whose two ends stay gaps. -/
theorem of_covered_more (h : Spans covered low high start finish)
    (hMore : ∀ t, covered t → other t) (hStart : ¬ other start)
    (hFinish : start < finish → ¬ other finish) : Spans other low high start finish := by
  obtain ⟨hLow, _, hFill, hEnd⟩ := h
  refine ⟨hLow, hStart, fun t hAbove hBelow => hMore t (hFill t hAbove hBelow), ?_⟩
  split
  · next hEmpty =>
      rw [if_pos hEmpty] at hEnd
      exact hEnd
  · next hLong =>
      rw [if_neg hLong] at hEnd
      exact ⟨hEnd.1, hFinish hEnd.1, fun t hAbove hBelow => hMore t (hEnd.2.2 t hAbove hBelow)⟩

/-- The end of a stretch of positive length is a gap. -/
theorem gap_finish (h : Spans covered low high start finish) (hLess : start < finish) :
    ¬ covered finish := by
  have hEnd := h.2.2.2
  split at hEnd
  · omega
  · exact hEnd.2.1

end Spans
end Stretch
