import FlareDB.Lib.Stretch
import FlareDB.Transforms.GbkGroup

/-! The session merge of one key. Sweeping the windows in order of their starts
puts each into the stretch of instants it shares with the windows around it:
a session begins and ends where no window of the key reaches over. -/
namespace FlareDB

open Stretch

namespace IntervalGroup

def low (group : IntervalGroup) : Int := group.startMillis.toInt

def high (group : IntervalGroup) : Int := group.endMillis.toInt

/-- The order the merge sorts by. -/
def atMost (a b : IntervalGroup) : Bool :=
  decide (a.startMillis < b.startMillis ∨
    a.startMillis = b.startMillis ∧ a.endMillis ≤ b.endMillis)

theorem atMost_iff {a b : IntervalGroup} :
    a.atMost b = true ↔ a.low < b.low ∨ a.low = b.low ∧ a.high ≤ b.high := by
  rw [atMost, decide_eq_true_iff, Int64.lt_iff_toInt_lt, ← Int64.toInt_inj,
    Int64.le_iff_toInt_le]
  rfl

end IntervalGroup

/-- An instant strictly inside one of the windows. -/
def CoveredBy (intervals : List IntervalGroup) (t : Int) : Prop :=
  ∃ interval ∈ intervals, interval.low < t ∧ t < interval.high

/-- A session and the windows merged into it. -/
structure SessionOf (covered : Int → Prop) (session : IntervalGroup)
    (block : List IntervalGroup) : Prop where
  values : session.values = block.flatMap IntervalGroup.values
  starts : ∃ interval ∈ block, interval.startMillis = session.startMillis
  ends : ∃ interval ∈ block, interval.endMillis = session.endMillis
  spans : ∀ interval ∈ block,
    Spans covered interval.low interval.high session.low session.high

/-- The sweep with an open session: the windows left behind, those merged into
the session and those to come. -/
structure Sweep (before block : List IntervalGroup) (current : IntervalGroup)
    (rest : List IntervalGroup) : Prop where
  values : current.values = block.flatMap IntervalGroup.values
  starts : ∃ interval ∈ block, interval.startMillis = current.startMillis
  ends : ∃ interval ∈ block, interval.endMillis = current.endMillis
  behind : ∀ interval ∈ before, interval.low ≤ current.low ∧ interval.high ≤ current.low
  within : ∀ interval ∈ block, current.low ≤ interval.low ∧ interval.high ≤ current.high
  ahead : ∀ interval ∈ rest, current.low ≤ interval.low
  sorted : rest.Pairwise fun a b => a.atMost b = true
  single : current.high ≤ current.low →
    ∀ interval ∈ block, interval.low = current.low ∧ interval.high = current.high
  long : current.low < current.high →
    (∀ t, current.low < t → t < current.high → CoveredBy block t) ∧
      (∀ interval ∈ block, interval.low < current.high) ∧
      ∀ interval ∈ block ++ rest, interval.low = current.low → interval.low < interval.high

namespace Sweep

variable {before block rest : List IntervalGroup} {current next : IntervalGroup}

/-- A single window opens a session. -/
theorem opens (hBehind : ∀ interval ∈ before, interval.low ≤ next.low ∧ interval.high ≤ next.low)
    (hSorted : (next :: rest).Pairwise fun a b => a.atMost b = true) :
    Sweep before [next] next rest where
  values := by simp
  starts := ⟨next, by simp, rfl⟩
  ends := ⟨next, by simp, rfl⟩
  behind := hBehind
  within := by simp
  ahead := by
    intro interval hInterval
    have hLe := IntervalGroup.atMost_iff.mp ((List.pairwise_cons.mp hSorted).1 interval hInterval)
    omega
  sorted := (List.pairwise_cons.mp hSorted).2
  single := by simp
  long := by
    intro hLong
    refine ⟨fun t hAbove hBelow => ⟨next, by simp, hAbove, hBelow⟩, by simpa using hLong, ?_⟩
    intro interval hInterval hSame
    rcases List.mem_cons.mp hInterval with rfl | hRest
    · exact hLong
    · have hLe := IntervalGroup.atMost_iff.mp ((List.pairwise_cons.mp hSorted).1 interval hRest)
      omega

/-- A window that starts before the session's end joins it. -/
theorem joins (h : Sweep before block current (next :: rest))
    (hJoin : next.low < current.high) :
    Sweep before (block ++ [next])
      ⟨current.startMillis, max current.endMillis next.endMillis, current.values ++ next.values⟩
      rest := by
  have hNext : current.low ≤ next.low := h.ahead next (by simp)
  have hLong : current.low < current.high := by omega
  obtain ⟨hCovered, hBelow, hProper⟩ := h.long hLong
  have hHigh : (⟨current.startMillis, max current.endMillis next.endMillis,
      current.values ++ next.values⟩ : IntervalGroup).high = max current.high next.high :=
    toInt_max _ _
  have hLow : (⟨current.startMillis, max current.endMillis next.endMillis,
      current.values ++ next.values⟩ : IntervalGroup).low = current.low := rfl
  refine ⟨?_, ?_, ?_, h.behind, ?_, ?_, (List.pairwise_cons.mp h.sorted).2, ?_, ?_⟩
  · simp [h.values]
  · obtain ⟨interval, hInterval, hStart⟩ := h.starts
    exact ⟨interval, List.mem_append_left _ hInterval, hStart⟩
  · obtain ⟨interval, hInterval, hEnd⟩ := h.ends
    by_cases hMax : current.endMillis ≤ next.endMillis
    · exact ⟨next, by simp, (if_pos hMax).symm⟩
    · exact ⟨interval, List.mem_append_left _ hInterval, hEnd.trans (if_neg hMax).symm⟩
  · intro interval hInterval
    rw [hLow, hHigh]
    rcases List.mem_append.mp hInterval with hBlock | hLast
    · have hWithin := h.within interval hBlock
      omega
    · rw [List.mem_singleton.mp hLast]
      omega
  · intro interval hInterval
    exact h.ahead interval (by simp [hInterval])
  · intro hEmpty
    rw [hLow, hHigh] at hEmpty
    omega
  · intro _
    rw [hLow, hHigh]
    refine ⟨?_, ?_, ?_⟩
    · intro t hAbove hUnder
      by_cases hInner : t < current.high
      · obtain ⟨interval, hInterval, hInside⟩ := hCovered t hAbove hInner
        exact ⟨interval, List.mem_append_left _ hInterval, hInside⟩
      · exact ⟨next, by simp, by omega, by omega⟩
    · intro interval hInterval
      rcases List.mem_append.mp hInterval with hBlock | hLast
      · have hOld := hBelow interval hBlock
        omega
      · rw [List.mem_singleton.mp hLast]
        omega
    · intro interval hInterval
      rw [List.append_assoc, List.singleton_append] at hInterval
      exact hProper interval hInterval

/-- A session is complete once no window to come starts before its end. -/
theorem closes (h : Sweep before block current rest)
    (hRest : ∀ interval ∈ rest, current.high ≤ interval.low) :
    SessionOf (CoveredBy (before ++ block ++ rest)) current block := by
  refine ⟨h.values, h.starts, h.ends, ?_⟩
  have hGapStart : ¬ CoveredBy (before ++ block ++ rest) current.low := by
    rintro ⟨interval, hInterval, hBelow, hAbove⟩
    rcases List.mem_append.mp hInterval with hOld | hRestMem
    · rcases List.mem_append.mp hOld with hBefore | hBlock
      · have hBehind := h.behind interval hBefore
        omega
      · have hWithin := h.within interval hBlock
        omega
    · have hAhead := h.ahead interval hRestMem
      omega
  intro interval hInterval
  obtain ⟨hAtLeast, hAtMost⟩ := h.within interval hInterval
  by_cases hEmpty : current.high ≤ current.low
  · obtain ⟨hSameLow, hSameHigh⟩ := h.single hEmpty interval hInterval
    refine ⟨by omega, hGapStart, fun t hAbove hBelow => by omega, ?_⟩
    rw [if_pos (by omega)]
    exact hSameHigh.symm
  · obtain ⟨hCovered, hBelow, hProper⟩ := h.long (by omega)
    have hInside : ∀ t, current.low < t → t < current.high →
        CoveredBy (before ++ block ++ rest) t := by
      intro t hAbove hUnder
      obtain ⟨other, hOther, hIn⟩ := hCovered t hAbove hUnder
      exact ⟨other, List.mem_append_left _ (List.mem_append_right _ hOther), hIn⟩
    have hUnder := hBelow interval hInterval
    refine ⟨by omega, hGapStart, fun t hAbove hTo => hInside t hAbove (by omega), ?_⟩
    have hNotEmpty : ¬ (current.low = interval.low ∧ interval.high ≤ interval.low) := by
      rintro ⟨hSame, hFlat⟩
      have hPositive := hProper interval (List.mem_append_left _ hInterval) hSame.symm
      omega
    rw [if_neg hNotEmpty]
    refine ⟨by omega, ?_, hInside⟩
    rintro ⟨other, hOther, hFrom, hOver⟩
    rcases List.mem_append.mp hOther with hOld | hRestMem
    · rcases List.mem_append.mp hOld with hBefore | hBlock
      · have hBehind := h.behind other hBefore
        omega
      · have hWithin := h.within other hBlock
        omega
    · have hLater := hRest other hRestMem
      omega

/-- The sweep cuts the windows into blocks, one for each session. -/
theorem mergeSorted_blocks (h : Sweep before block current rest) :
    ∃ blocks, blocks.flatten = block ++ rest ∧
      List.Forall₂ (SessionOf (CoveredBy (before ++ block ++ rest)))
        (mergeSorted current rest) blocks := by
  induction rest generalizing before block current with
  | nil =>
      refine ⟨[block], by simp, ?_⟩
      rw [mergeSorted]
      exact .cons (h.closes (by simp)) .nil
  | cons next rest ih =>
      rw [mergeSorted]
      have hLess : next.startMillis < current.endMillis ↔ next.low < current.high :=
        Int64.lt_iff_toInt_lt
      split
      · next hJoin =>
          obtain ⟨blocks, hFlat, hSessions⟩ := ih (h.joins (hLess.mp hJoin))
          refine ⟨blocks, by simpa using hFlat, ?_⟩
          simpa [List.append_assoc] using hSessions
      · next hApart =>
          rw [hLess] at hApart
          have hLater : ∀ interval ∈ next :: rest, current.high ≤ interval.low := by
            intro interval hInterval
            rcases List.mem_cons.mp hInterval with rfl | hRest
            · omega
            · have hLe := IntervalGroup.atMost_iff.mp
                ((List.pairwise_cons.mp h.sorted).1 interval hRest)
              omega
          have hNext := h.ahead next (by simp)
          have hBehind : ∀ interval ∈ before ++ block,
              interval.low ≤ next.low ∧ interval.high ≤ next.low := by
            intro interval hInterval
            rcases List.mem_append.mp hInterval with hBefore | hBlock
            · have hOld := h.behind interval hBefore
              omega
            · have hWithin := h.within interval hBlock
              by_cases hEmpty : current.high ≤ current.low
              · have hSame := h.single hEmpty interval hBlock
                omega
              · have hUnder := (h.long (by omega)).2.1 interval hBlock
                omega
          obtain ⟨blocks, hFlat, hSessions⟩ := ih (opens hBehind h.sorted)
          refine ⟨block :: blocks, by simp [hFlat], .cons (h.closes hLater) ?_⟩
          simpa [List.append_assoc] using hSessions

end Sweep

namespace IntervalGroup

/-- Before another window in the sorting order and different from it. -/
def Precedes (a b : IntervalGroup) : Prop :=
  a.low < b.low ∨ a.low = b.low ∧ a.high < b.high

theorem low_inj {a b : IntervalGroup} (h : a.low = b.low) : a.startMillis = b.startMillis :=
  Int64.toInt_inj.mp h

theorem high_inj {a b : IntervalGroup} (h : a.high = b.high) : a.endMillis = b.endMillis :=
  Int64.toInt_inj.mp h

end IntervalGroup

/-- Sessions come out in order, each before the next. -/
theorem mergeSorted_precedes {current : IntervalGroup} {rest : List IntervalGroup}
    (hSorted : rest.Pairwise IntervalGroup.Precedes)
    (hAhead : ∀ interval ∈ rest, current.low ≤ interval.low)
    (hSingle : current.high ≤ current.low → ∀ interval ∈ rest, current.Precedes interval) :
    (∀ session ∈ mergeSorted current rest,
        current.low < session.low ∨ current.low = session.low ∧ current.high ≤ session.high) ∧
      (mergeSorted current rest).Pairwise IntervalGroup.Precedes := by
  induction rest generalizing current with
  | nil => simp [mergeSorted]
  | cons next rest ih =>
      rw [List.pairwise_cons] at hSorted
      have hNext := hAhead next (by simp)
      have hLess : next.startMillis < current.endMillis ↔ next.low < current.high :=
        Int64.lt_iff_toInt_lt
      rw [mergeSorted]
      split
      · next hJoin =>
          rw [hLess] at hJoin
          have hHigh : (⟨current.startMillis, max current.endMillis next.endMillis,
              current.values ++ next.values⟩ : IntervalGroup).high =
              max current.high next.high := toInt_max _ _
          have hLow : (⟨current.startMillis, max current.endMillis next.endMillis,
              current.values ++ next.values⟩ : IntervalGroup).low = current.low := rfl
          have hRest : ∀ interval ∈ rest, (⟨current.startMillis, max current.endMillis
              next.endMillis, current.values ++ next.values⟩ : IntervalGroup).low ≤ interval.low :=
            fun interval hInterval => hAhead interval (by simp [hInterval])
          obtain ⟨hFirst, hPairs⟩ := ih hSorted.2 hRest
            (fun hFlat => by rw [hLow, hHigh] at hFlat; omega)
          refine ⟨fun session hSession => ?_, hPairs⟩
          have hFrom := hFirst session hSession
          rw [hLow, hHigh] at hFrom
          omega
      · next hApart =>
          rw [hLess] at hApart
          obtain ⟨hFirst, hPairs⟩ := ih hSorted.2
            (fun interval hInterval => by
              have hStep := hSorted.1 interval hInterval
              rw [IntervalGroup.Precedes] at hStep
              omega)
            (fun _ => hSorted.1)
          have hLater : ∀ session ∈ mergeSorted next rest, current.Precedes session := by
            intro session hSession
            have hFrom := hFirst session hSession
            rw [IntervalGroup.Precedes]
            by_cases hFlat : current.high ≤ current.low
            · have hStep := hSingle hFlat next (by simp)
              rw [IntervalGroup.Precedes] at hStep
              omega
            · omega
          refine ⟨fun session hSession => ?_, List.pairwise_cons.mpr ⟨hLater, hPairs⟩⟩
          rcases List.mem_cons.mp hSession with rfl | hRest
          · exact .inr ⟨rfl, Int.le_refl _⟩
          · have hAfter := hLater session hRest
            rw [IntervalGroup.Precedes] at hAfter
            omega

/-- The bounds of an interval window, with its elements. -/
def intervalOf : BeamWindow × List PaneElement → IntervalGroup
  | (.interval startMillis endMillis, values) => ⟨startMillis, endMillis, values⟩
  | (_, values) => ⟨0, 0, values⟩

def IntervalGroup.window (group : IntervalGroup) : BeamWindow :=
  .interval group.startMillis group.endMillis

theorem intervalOf_window {entry : BeamWindow × List PaneElement}
    (h : isInterval entry.1 = true) : (intervalOf entry).window = entry.1 := by
  obtain ⟨window, values⟩ := entry
  cases window with
  | interval startMillis endMillis => rfl
  | global => cases h
  | opaqueWindow coderId bytes => cases h

theorem intervalOf_values (entry : BeamWindow × List PaneElement) :
    (intervalOf entry).values = entry.2 := by
  obtain ⟨window, values⟩ := entry
  cases window <;> rfl

theorem mapM_toIntervalGroup {groups : List (BeamWindow × List PaneElement)}
    (h : ∀ entry ∈ groups, isInterval entry.1 = true) :
    groups.mapM toIntervalGroup = .ok (groups.map intervalOf) := by
  induction groups with
  | nil => rfl
  | cons entry groups ih =>
      obtain ⟨window, values⟩ := entry
      rw [List.mapM_cons, ih fun other hOther => h other (by simp [hOther])]
      cases window with
      | interval startMillis endMillis => rfl
      | global =>
          have hNot := h (.global, values) (by simp)
          cases hNot
      | opaqueWindow coderId bytes =>
          have hNot := h (.opaqueWindow coderId bytes, values) (by simp)
          cases hNot

/-- The sessions of intervals sorted by start. -/
def sortedSessions : List IntervalGroup → List IntervalGroup
  | [] => []
  | first :: rest => mergeSorted first rest

theorem mergeIntervalGroups_sorted (key : PrimitiveValue)
    {groups : List (BeamWindow × List PaneElement)}
    (hIntervals : ∀ entry ∈ groups, isInterval entry.1 = true) :
    mergeIntervalGroups key groups =
      .ok ((sortedSessions ((groups.map intervalOf).mergeSort IntervalGroup.atMost)).map
        fun session => ⟨key, session.window, session.values⟩) := by
  rw [mergeIntervalGroups, mapM_toIntervalGroup hIntervals]
  generalize hSorted : (groups.map intervalOf).mergeSort IntervalGroup.atMost = sorted
  have hSame : (groups.map intervalOf).mergeSort (fun a b => decide
      (a.startMillis < b.startMillis ∨
        a.startMillis = b.startMillis ∧ a.endMillis ≤ b.endMillis)) = sorted := hSorted
  simp only [bind, Except.bind, hSame]
  cases sorted with
  | nil => rfl
  | cons first rest => rfl

/-- What the merge of one key makes of its windows. -/
structure MergesSessions (intervals sessions : List IntervalGroup) : Prop where
  apart : sessions.Pairwise IntervalGroup.Precedes
  blocks : ∃ blocks, blocks.flatten.Perm intervals ∧
    List.Forall₂ (SessionOf (CoveredBy intervals)) sessions blocks

theorem mergeIntervalGroups_sessions (key : PrimitiveValue)
    {groups : List (BeamWindow × List PaneElement)}
    (hIntervals : ∀ entry ∈ groups, isInterval entry.1 = true)
    (hDistinct : (groups.map Prod.fst).Nodup) :
    ∃ sessions, mergeIntervalGroups key groups = .ok (sessions.map fun session =>
        ⟨key, session.window, session.values⟩) ∧
      MergesSessions (groups.map intervalOf) sessions := by
  have hPerm := List.mergeSort_perm (groups.map intervalOf) IntervalGroup.atMost
  have hSorted : ((groups.map intervalOf).mergeSort IntervalGroup.atMost).Pairwise
      fun a b => a.atMost b = true := by
    apply List.pairwise_mergeSort
    · intro a b c hab hbc
      rw [IntervalGroup.atMost_iff] at *
      omega
    · intro a b
      simp only [Bool.or_eq_true, IntervalGroup.atMost_iff]
      omega
  have hCovered : CoveredBy ((groups.map intervalOf).mergeSort IntervalGroup.atMost) =
      CoveredBy (groups.map intervalOf) := by
    funext t
    exact propext (exists_congr fun interval => and_congr_left fun _ => hPerm.mem_iff)
  have hApart : ((groups.map intervalOf).mergeSort IntervalGroup.atMost).Pairwise
      IntervalGroup.Precedes := by
    have hWindows : ((groups.map intervalOf).map IntervalGroup.window).Nodup := by
      have hSame : (groups.map intervalOf).map IntervalGroup.window = groups.map Prod.fst := by
        rw [List.map_map]
        exact List.map_congr_left fun entry hEntry => intervalOf_window (hIntervals entry hEntry)
      rw [hSame]
      exact hDistinct
    have hNodup := (hPerm.map IntervalGroup.window).nodup_iff.mpr hWindows
    refine List.Pairwise.imp₂ ?_ hSorted (List.pairwise_map.mp hNodup)
    intro a b hLe hNe
    rw [IntervalGroup.atMost_iff] at hLe
    rcases hLe with hLess | ⟨hSame, hHigh⟩
    · exact .inl hLess
    · refine .inr ⟨hSame, lt_of_le_of_ne hHigh fun hEnds => hNe ?_⟩
      rw [IntervalGroup.window, IntervalGroup.window, IntervalGroup.low_inj hSame,
        IntervalGroup.high_inj hEnds]
  rw [mergeIntervalGroups_sorted key hIntervals]
  generalize hList : (groups.map intervalOf).mergeSort IntervalGroup.atMost = sorted at *
  cases sorted with
  | nil =>
      exact ⟨[], rfl, List.Pairwise.nil, [], hPerm, .nil⟩
  | cons first rest =>
      have hSweep : Sweep [] [first] first rest := Sweep.opens (by simp) hSorted
      obtain ⟨blocks, hFlat, hSessions⟩ := hSweep.mergeSorted_blocks
      rw [List.pairwise_cons] at hApart
      obtain ⟨_, hPairs⟩ := mergeSorted_precedes hApart.2
        (fun interval hInterval => hSweep.ahead interval hInterval) (fun _ => hApart.1)
      refine ⟨mergeSorted first rest, rfl, hPairs, blocks, ?_, ?_⟩
      · rw [hFlat]
        exact hPerm
      · rw [← hCovered]
        exact hSessions

end FlareDB
