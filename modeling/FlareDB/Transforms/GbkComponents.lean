import FlareDB.Transforms.GbkSessions

/-! The session merge of proper windows, those that start before they end. The
merged windows are the connected components of overlap, and every element ends
up in the component of its window. -/
namespace FlareDB

namespace IntervalGroup

/-- A window and the windows inside it. -/
def Contains (session a : IntervalGroup) : Prop :=
  session.low ≤ a.low ∧ a.high ≤ session.high

instance (session a : IntervalGroup) : Decidable (session.Contains a) :=
  inferInstanceAs (Decidable (_ ∧ _))

/-- Windows that share more than an end. -/
def Overlaps (a b : IntervalGroup) : Prop :=
  a.low < b.high ∧ b.low < a.high

/-- A chain of windows, each overlapping the one before it. -/
def Linked (intervals : List IntervalGroup) : IntervalGroup → IntervalGroup → Prop :=
  Relation.ReflTransGen fun a b => b ∈ intervals ∧ a.Overlaps b

/-- Linked intervals stay linked among more. -/
theorem Linked.mono {intervals more : List IntervalGroup} {a b : IntervalGroup}
    (h : Linked intervals a b) (hMore : ∀ interval ∈ intervals, interval ∈ more) :
    Linked more a b :=
  Relation.ReflTransGen.mono (fun _ _ hStep => ⟨hMore _ hStep.1, hStep.2⟩) a b h

end IntervalGroup

open IntervalGroup

open KeyedStore

/-- A session over the windows merged into it so far: their hull, their elements
in order, and each of them linked to all others. -/
structure Hull (block : List IntervalGroup) (session : IntervalGroup) : Prop where
  values : session.values = block.flatMap IntervalGroup.values
  starts : ∃ interval ∈ block, interval.startMillis = session.startMillis
  ends : ∃ interval ∈ block, interval.endMillis = session.endMillis
  within : ∀ interval ∈ block, session.Contains interval
  linked : ∀ a ∈ block, ∀ b ∈ block, Linked block a b

namespace Hull

variable {block rest : List IntervalGroup} {current next : IntervalGroup}

/-- An interval is the hull of itself. -/
theorem single (next : IntervalGroup) : Hull [next] next where
  values := by simp
  starts := ⟨next, by simp, rfl⟩
  ends := ⟨next, by simp, rfl⟩
  within := by simp [Contains]
  linked := by
    intro a hA b hB
    rw [List.mem_singleton.mp hA, List.mem_singleton.mp hB]
    exact Relation.ReflTransGen.refl

/-- A proper window that starts before the session's end overlaps the window the
session ends with, and so is linked to all of them. -/
theorem joins (h : Hull block current) (hSorted : ∀ interval ∈ block, interval.low ≤ next.low)
    (hProper : next.low < next.high) (hJoin : next.low < current.high) :
    Hull (block ++ [next])
      ⟨current.startMillis, max current.endMillis next.endMillis, current.values ++ next.values⟩
    where
  values := by simp [h.values]
  starts := by
    obtain ⟨interval, hInterval, hStart⟩ := h.starts
    exact ⟨interval, List.mem_append_left _ hInterval, hStart⟩
  ends := by
    obtain ⟨interval, hInterval, hEnd⟩ := h.ends
    by_cases hMax : current.endMillis ≤ next.endMillis
    · exact ⟨next, by simp, (if_pos hMax).symm⟩
    · exact ⟨interval, List.mem_append_left _ hInterval, hEnd.trans (if_neg hMax).symm⟩
  within := by
    intro interval hInterval
    have hHigh : (⟨current.startMillis, max current.endMillis next.endMillis,
        current.values ++ next.values⟩ : IntervalGroup).high = max current.high next.high :=
      toInt_max _ _
    obtain ⟨first, hFirst, hStart⟩ := h.starts
    have hBefore := hSorted first hFirst
    have hLow : first.low = current.low := congrArg Int64.toInt hStart
    rw [Contains, hHigh]
    show current.low ≤ interval.low ∧ _
    rcases List.mem_append.mp hInterval with hBlock | hLast
    · obtain ⟨hFrom, hTo⟩ := h.within interval hBlock
      omega
    · rw [List.mem_singleton.mp hLast]
      omega
  linked := by
    obtain ⟨last, hLast, hEnd⟩ := h.ends
    have hHigh : last.high = current.high := congrArg Int64.toInt hEnd
    have hBefore := hSorted last hLast
    have hOverlap : last.Overlaps next := ⟨by omega, by omega⟩
    have hOld : ∀ a ∈ block, ∀ b ∈ block, Linked (block ++ [next]) a b :=
      fun a hA b hB => (h.linked a hA b hB).mono fun _ hMem => List.mem_append_left _ hMem
    have hTo : Linked (block ++ [next]) last next :=
      Relation.ReflTransGen.single ⟨by simp, hOverlap⟩
    have hFrom : Linked (block ++ [next]) next last :=
      Relation.ReflTransGen.single ⟨List.mem_append_left _ hLast, hOverlap.2, hOverlap.1⟩
    intro a hA b hB
    rcases List.mem_append.mp hA with hA | hA
    · rcases List.mem_append.mp hB with hB | hB
      · exact hOld a hA b hB
      · rw [List.mem_singleton.mp hB]
        exact (hOld a hA last hLast).trans hTo
    · rw [List.mem_singleton.mp hA]
      rcases List.mem_append.mp hB with hB | hB
      · exact hFrom.trans (hOld last hLast b hB)
      · rw [List.mem_singleton.mp hB]
        exact Relation.ReflTransGen.refl

/-- The sweep cuts the sorted windows into blocks, and the hulls of the blocks
come out one after the other, none reaching into the next. -/
theorem mergeSorted (h : Hull block current)
    (hSorted : (block ++ rest).Pairwise fun a b => a.low ≤ b.low)
    (hProper : ∀ interval ∈ rest, interval.low < interval.high) :
    ∃ blocks, blocks.flatten = block ++ rest ∧
      List.Forall₂ Hull blocks (FlareDB.mergeSorted current rest) ∧
      (FlareDB.mergeSorted current rest).Pairwise (fun a b => a.high ≤ b.low) ∧
      ∀ session ∈ FlareDB.mergeSorted current rest, current.low ≤ session.low := by
  induction rest generalizing block current with
  | nil =>
      refine ⟨[block], by simp, .cons h .nil, List.pairwise_singleton _ _, ?_⟩
      simp [FlareDB.mergeSorted]
  | cons next rest ih =>
      obtain ⟨hNext, hRest⟩ := List.forall_mem_cons.mp hProper
      obtain ⟨hBlock, hAhead, hBefore⟩ := List.pairwise_append.mp hSorted
      have hLess : next.startMillis < current.endMillis ↔ next.low < current.high :=
        Int64.lt_iff_toInt_lt
      rw [FlareDB.mergeSorted]
      split
      · next hJoin =>
          have hJoined := h.joins (fun interval hInterval => hBefore interval hInterval next (by simp))
            hNext (hLess.mp hJoin)
          have hFlat : block ++ [next] ++ rest = block ++ next :: rest := by simp
          obtain ⟨blocks, hBlocks, hHulls, hApart, hAfter⟩ := ih hJoined (by rwa [hFlat]) hRest
          exact ⟨blocks, hBlocks.trans hFlat, hHulls, hApart, hAfter⟩
      · next hGap =>
          rw [hLess, not_lt] at hGap
          obtain ⟨blocks, hBlocks, hHulls, hApart, hAfter⟩ :=
            ih (single next) (by simpa using hAhead) hRest
          obtain ⟨first, hFirst, hStart⟩ := h.starts
          have hLow : first.low = current.low := congrArg Int64.toInt hStart
          have hFrom := hBefore first hFirst next (by simp)
          refine ⟨block :: blocks, by simp [hBlocks], .cons h hHulls,
            List.pairwise_cons.mpr ⟨fun session hSession => hGap.trans (hAfter session hSession),
              hApart⟩, ?_⟩
          intro session hSession
          rcases List.mem_cons.mp hSession with rfl | hLater
          · exact Int.le_refl _
          · have hNextLow := hAfter session hLater
            omega

end Hull

/-- What the merge makes of proper windows. A window is absorbed by the session
that contains it. -/
structure SessionComponents (intervals sessions : List IntervalGroup) : Prop where
  apart : sessions.Pairwise fun a b => a.high ≤ b.low
  starts : ∀ session ∈ sessions,
    ∃ interval ∈ intervals, session.Contains interval ∧ interval.startMillis = session.startMillis
  ends : ∀ session ∈ sessions,
    ∃ interval ∈ intervals, session.Contains interval ∧ interval.endMillis = session.endMillis
  covers : ∀ interval ∈ intervals, ∃ session ∈ sessions, session.Contains interval
  linked : ∀ a ∈ intervals, ∀ b ∈ intervals,
    (∃ session ∈ sessions, session.Contains a ∧ session.Contains b) ↔ Linked intervals a b
  values : ∀ session ∈ sessions, session.values.Perm
    ((intervals.filter fun interval => decide (session.Contains interval)).flatMap
      IntervalGroup.values)
  elements : (sessions.flatMap IntervalGroup.values).Perm
    (intervals.flatMap IntervalGroup.values)

section Blocks

variable {blocks : List (List IntervalGroup)} {sessions : List IntervalGroup}

/-- Every interval is in one of the sessions. -/
theorem exists_session_of_mem (h : List.Forall₂ Hull blocks sessions) {interval : IntervalGroup}
    (hMem : interval ∈ blocks.flatten) : ∃ session ∈ sessions, session.Contains interval := by
  induction h with
  | nil => cases hMem
  | cons hHull _ ih =>
      rw [List.flatten_cons, List.mem_append] at hMem
      rcases hMem with hHead | hTail
      · exact ⟨_, List.mem_cons_self, hHull.within interval hHead⟩
      · obtain ⟨session, hSession, hContains⟩ := ih hTail
        exact ⟨session, List.mem_cons_of_mem _ hSession, hContains⟩

/-- The windows a session contains are those of its block, since no window of
another block reaches into it. -/
theorem exists_block_of_mem (h : List.Forall₂ Hull blocks sessions)
    (hApart : sessions.Pairwise fun a b => a.high ≤ b.low)
    (hProper : ∀ interval ∈ blocks.flatten, interval.low < interval.high)
    {session : IntervalGroup} (hMem : session ∈ sessions) :
    Hull (blocks.flatten.filter fun interval => decide (session.Contains interval)) session := by
  induction h with
  | nil => cases hMem
  | @cons block first blocks sessions hHull hRest ih =>
      rw [List.pairwise_cons] at hApart
      rw [List.flatten_cons, List.forall_mem_append] at hProper
      rw [List.flatten_cons, List.filter_append]
      rcases List.mem_cons.mp hMem with rfl | hLater
      · have hOwn : (block.filter fun interval => decide (session.Contains interval)) = block :=
          List.filter_eq_self.mpr fun interval hInterval =>
            decide_eq_true (hHull.within interval hInterval)
        have hOthers : (blocks.flatten.filter fun interval =>
            decide (session.Contains interval)) = [] := by
          refine List.filter_eq_nil_iff.mpr fun interval hInterval hInside => ?_
          have hHere : session.Contains interval := of_decide_eq_true hInside
          obtain ⟨other, hOther, hThere⟩ := exists_session_of_mem hRest hInterval
          have hGap := hApart.1 other hOther
          have hLength := hProper.2 interval hInterval
          unfold Contains at hHere hThere
          omega
        rw [hOwn, hOthers, List.append_nil]
        exact hHull
      · have hOthers : (block.filter fun interval => decide (session.Contains interval)) = [] := by
          refine List.filter_eq_nil_iff.mpr fun interval hInterval hInside => ?_
          have hHere : session.Contains interval := of_decide_eq_true hInside
          have hThere := hHull.within interval hInterval
          have hGap := hApart.1 session hLater
          have hLength := hProper.1 interval hInterval
          unfold Contains at hHere hThere
          omega
        rw [hOthers, List.nil_append]
        exact ih hApart.2 hProper.2 hLater

/-- The sessions have the elements of the intervals, in order. -/
theorem flatMap_values_eq (h : List.Forall₂ Hull blocks sessions) :
    sessions.flatMap IntervalGroup.values = blocks.flatten.flatMap IntervalGroup.values := by
  induction h with
  | nil => rfl
  | cons hHull _ ih =>
      rw [List.flatMap_cons, List.flatten_cons, List.flatMap_append, ih, hHull.values]

/-- Proper windows that overlap are in one session. -/
theorem contains_of_overlaps (hApart : sessions.Pairwise fun a b => a.high ≤ b.low)
    {session other a b : IntervalGroup} (hSession : session ∈ sessions) (hOther : other ∈ sessions)
    (hA : session.Contains a) (hB : other.Contains b) (hOverlap : a.Overlaps b) :
    session = other := by
  have hPair : sessions.Pairwise fun a b => a = b ∨ a.high ≤ b.low ∨ b.high ≤ a.low :=
    hApart.imp fun hGap => .inr (.inl hGap)
  have hSymm : Std.Symm fun a b : IntervalGroup => a = b ∨ a.high ≤ b.low ∨ b.high ≤ a.low :=
    ⟨fun a b h => h.imp Eq.symm Or.symm⟩
  rcases hPair.forall_of_forall (fun _ _ => .inl rfl) hSession hOther with hSame | hGap | hGap
  · exact hSame
  · unfold Contains at hA hB
    unfold Overlaps at hOverlap
    omega
  · unfold Contains at hA hB
    unfold Overlaps at hOverlap
    omega

/-- The hulls of the blocks are the components of their windows. -/
theorem components_of_blocks {intervals : List IntervalGroup}
    (h : List.Forall₂ Hull blocks sessions) (hPerm : blocks.flatten.Perm intervals)
    (hApart : sessions.Pairwise fun a b => a.high ≤ b.low)
    (hProper : ∀ interval ∈ intervals, interval.low < interval.high) :
    SessionComponents intervals sessions := by
  have hFlat : ∀ interval ∈ blocks.flatten, interval.low < interval.high :=
    fun interval hInterval => hProper interval (hPerm.mem_iff.mp hInterval)
  have hBlock := fun session (hSession : session ∈ sessions) =>
    exists_block_of_mem h hApart hFlat hSession
  have hCovers : ∀ interval ∈ intervals, ∃ session ∈ sessions, session.Contains interval :=
    fun interval hInterval => exists_session_of_mem h (hPerm.mem_iff.mpr hInterval)
  have hInside : ∀ {session interval : IntervalGroup},
      interval ∈ blocks.flatten.filter (fun interval => decide (session.Contains interval)) ↔
        interval ∈ intervals ∧ session.Contains interval := by
    intro session interval
    rw [List.mem_filter, hPerm.mem_iff, decide_eq_true_iff]
  refine ⟨hApart, fun session hSession => ?_, fun session hSession => ?_, hCovers,
    fun a hA b hB => ⟨?_, fun hLinked => ?_⟩, fun session hSession => ?_, ?_⟩
  · obtain ⟨interval, hInterval, hStart⟩ := (hBlock session hSession).starts
    exact ⟨interval, (hInside.mp hInterval).1, (hInside.mp hInterval).2, hStart⟩
  · obtain ⟨interval, hInterval, hEnd⟩ := (hBlock session hSession).ends
    exact ⟨interval, (hInside.mp hInterval).1, (hInside.mp hInterval).2, hEnd⟩
  · rintro ⟨session, hSession, hContainsA, hContainsB⟩
    exact ((hBlock session hSession).linked a (hInside.mpr ⟨hA, hContainsA⟩) b
      (hInside.mpr ⟨hB, hContainsB⟩)).mono fun interval hInterval => (hInside.mp hInterval).1
  · obtain ⟨session, hSession, hContains⟩ := hCovers a hA
    refine ⟨session, hSession, hContains, ?_⟩
    clear hB
    induction hLinked with
    | refl => exact hContains
    | tail _ hStep ih =>
        obtain ⟨other, hOther, hThere⟩ := hCovers _ hStep.1
        rw [contains_of_overlaps hApart hSession hOther ih hThere hStep.2]
        exact hThere
  · rw [(hBlock session hSession).values]
    exact (hPerm.filter _).flatMap_right _
  · rw [flatMap_values_eq h]
    exact hPerm.flatMap_right _

end Blocks

section Order

/-- The bounds of windows, which is all the sort and the sweep look at. -/
def IntervalGroup.bounds (group : IntervalGroup) : Int64 × Int64 :=
  (group.startMillis, group.endMillis)

/-- The bounds of the sessions depend on the bounds of the intervals alone. -/
theorem mergeSorted_bounds {current other : IntervalGroup} {rest others : List IntervalGroup}
    (hCurrent : current.bounds = other.bounds)
    (hRest : rest.map IntervalGroup.bounds = others.map IntervalGroup.bounds) :
    (mergeSorted current rest).map IntervalGroup.bounds =
      (mergeSorted other others).map IntervalGroup.bounds := by
  induction rest generalizing current other others with
  | nil =>
      cases others with
      | nil => simpa [mergeSorted] using hCurrent
      | cons next others => cases hRest
  | cons next rest ih =>
      cases others with
      | nil => cases hRest
      | cons next' others =>
          obtain ⟨hNext, hTail⟩ := List.cons.inj hRest
          obtain ⟨hStart, hEnd⟩ := Prod.mk.inj hCurrent
          obtain ⟨hNextStart, hNextEnd⟩ := Prod.mk.inj hNext
          rw [mergeSorted, mergeSorted, hNextStart, hEnd]
          split
          · refine ih ?_ hTail
            simp [IntervalGroup.bounds, hStart, hNextEnd]
          · rw [List.map_cons, List.map_cons, hCurrent, ih hNext hTail]

/-- So do those of all sessions, once sorted. -/
theorem sortedSessions_bounds {intervals others : List IntervalGroup}
    (h : intervals.map IntervalGroup.bounds = others.map IntervalGroup.bounds) :
    (sortedSessions intervals).map IntervalGroup.bounds =
      (sortedSessions others).map IntervalGroup.bounds := by
  cases intervals with
  | nil =>
      cases others with
      | nil => rfl
      | cons other others => cases h
  | cons first rest =>
      cases others with
      | nil => cases h
      | cons other others =>
          obtain ⟨hFirst, hRest⟩ := List.cons.inj h
          exact mergeSorted_bounds hFirst hRest

theorem pairwise_mergeSort_atMost (intervals : List IntervalGroup) :
    (intervals.mergeSort atMost).Pairwise fun a b => a.atMost b = true := by
  apply List.pairwise_mergeSort
  · intro a b c hAB hBC
    rw [IntervalGroup.atMost_iff] at *
    omega
  · intro a b
    simp only [Bool.or_eq_true, IntervalGroup.atMost_iff]
    omega

theorem bounds_of_atMost {a b : IntervalGroup} (hAB : a.atMost b = true)
    (hBA : b.atMost a = true) : a.bounds = b.bounds := by
  rw [IntervalGroup.atMost_iff] at hAB hBA
  have hLow : a.startMillis = b.startMillis := IntervalGroup.low_inj (by omega)
  have hHigh : a.endMillis = b.endMillis := IntervalGroup.high_inj (by omega)
  rw [IntervalGroup.bounds, hLow, hHigh]
  rfl

/-- The bounds of the sorted windows do not depend on the order they come in. -/
theorem mergeSort_bounds {intervals others : List IntervalGroup} (h : intervals.Perm others) :
    (intervals.mergeSort atMost).map IntervalGroup.bounds =
      (others.mergeSort atMost).map IntervalGroup.bounds := by
  let before (a b : Int64 × Int64) : Prop := (⟨a.1, a.2, []⟩ : IntervalGroup).atMost ⟨b.1, b.2, []⟩
  have hSorted : ∀ windows : List IntervalGroup,
      ((windows.mergeSort atMost).map IntervalGroup.bounds).Pairwise before :=
    fun windows => List.pairwise_map.mpr (pairwise_mergeSort_atMost windows)
  have hSame : ∀ a b, before a b → before b a → a = b := fun a b => bounds_of_atMost
  exact List.Perm.eq_of_pairwise (fun a b _ _ => hSame a b) (hSorted _) (hSorted _)
    (((List.mergeSort_perm _ _).trans (h.trans (List.mergeSort_perm _ _).symm)).map _)

/-- Windows that differ are sorted the same way in whatever order they come. -/
theorem mergeSort_eq_of_perm {intervals others : List IntervalGroup} (h : intervals.Perm others)
    (hDistinct : (intervals.map IntervalGroup.bounds).Nodup) :
    intervals.mergeSort atMost = others.mergeSort atMost := by
  refine List.Perm.eq_of_pairwise (fun a b hA hB hAB hBA => ?_) (pairwise_mergeSort_atMost _)
    (pairwise_mergeSort_atMost _)
    ((List.mergeSort_perm _ _).trans (h.trans (List.mergeSort_perm _ _).symm))
  have hMemA := List.mem_mergeSort.mp hA
  have hMemB := h.mem_iff.mpr (List.mem_mergeSort.mp hB)
  exact List.inj_on_of_nodup_map hDistinct hMemA hMemB (bounds_of_atMost hAB hBA)

end Order

/-- Collect the windows of each key under the text of the key. -/
def groupByText (keyText : PrimitiveValue → String) :
    List GroupInput → Store String (PrimitiveValue × List IntervalGroup) →
      Except String (Store String (PrimitiveValue × List IntervalGroup))
  | [], byKey => .ok byKey
  | group :: rest, byKey =>
      match group.window with
      | .interval startMillis endMillis =>
          let (key, windows) := (byKey.lookup (keyText group.key)).getD (group.key, [])
          groupByText keyText rest (byKey.insert (keyText group.key)
            (key, windows ++ [⟨startMillis, endMillis, group.elements⟩]))
      | _ => .error "native interval merge received a non-interval window"

/-- The session merge of the windows of several keys. `order` is the iteration
order of the hash map of keys. -/
def mergeKeyedIntervalGroups (keyText : PrimitiveValue → String)
    (order : List (PrimitiveValue × List IntervalGroup) → List (PrimitiveValue × List IntervalGroup))
    (groups : List GroupInput) : Except String (List GroupInput) := do
  let byKey ← groupByText keyText groups ∅
  pure ((order (byKey.entries.map Sigma.snd)).flatMap fun (key, windows) =>
    (sortedSessions (windows.mergeSort atMost)).map fun session =>
      ⟨key, session.window, session.values⟩)

/-- The windows of one key, as its caller hands them over. -/
def keyedWindows (key : PrimitiveValue) (groups : List (BeamWindow × List PaneElement)) :
    List GroupInput :=
  groups.map fun entry => ⟨key, entry.1, entry.2⟩

/-- The windows of one key are grouped under its text. -/
theorem groupByText_key (keyText : PrimitiveValue → String) (key : PrimitiveValue)
    (groups : List (BeamWindow × List PaneElement)) (windows : List IntervalGroup) :
    groupByText keyText (keyedWindows key groups)
        ((∅ : Store String (PrimitiveValue × List IntervalGroup)).insert (keyText key)
          (key, windows)) =
      (groups.mapM toIntervalGroup).map fun intervals =>
        (∅ : Store String (PrimitiveValue × List IntervalGroup)).insert (keyText key)
          (key, windows ++ intervals) := by
  induction groups generalizing windows with
  | nil => simp [groupByText, keyedWindows, Except.map, pure, Except.pure]
  | cons entry groups ih =>
      obtain ⟨window, values⟩ := entry
      rw [List.mapM_cons]
      cases window with
      | interval startMillis endMillis =>
          have hNext := ih (windows ++ [⟨startMillis, endMillis, values⟩])
          simp only [keyedWindows, List.map_cons, groupByText, AList.lookup_insert,
            Option.getD_some, AList.insert_insert] at hNext ⊢
          rw [hNext]
          cases groups.mapM toIntervalGroup <;>
            simp [toIntervalGroup, Except.map, bind, Except.bind, pure, Except.pure]
      | global => rfl
      | opaqueWindow coderId bytes => rfl

/-- The windows of a single key are merged as `mergeIntervalGroups` merges them,
whatever text stands for the key. -/
theorem mergeKeyedIntervalGroups_key (keyText : PrimitiveValue → String)
    {order : List (PrimitiveValue × List IntervalGroup) →
      List (PrimitiveValue × List IntervalGroup)} (hOrder : ∀ entries, (order entries).Perm entries)
    (key : PrimitiveValue) (groups : List (BeamWindow × List PaneElement)) :
    mergeKeyedIntervalGroups keyText order (keyedWindows key groups) =
      mergeIntervalGroups key groups := by
  cases groups with
  | nil =>
      have hNone : order [] = [] := (hOrder []).eq_nil
      rw [mergeKeyedIntervalGroups, keyedWindows, List.map_nil, groupByText]
      simp [bind, Except.bind, pure, Except.pure, hNone, mergeIntervalGroups]
  | cons entry groups =>
      obtain ⟨window, values⟩ := entry
      rw [mergeKeyedIntervalGroups, mergeIntervalGroups, List.mapM_cons]
      cases window with
      | interval startMillis endMillis =>
          have hFirst : groupByText keyText (keyedWindows key
              ((.interval startMillis endMillis, values) :: groups)) ∅ =
              groupByText keyText (keyedWindows key groups)
                ((∅ : Store String (PrimitiveValue × List IntervalGroup)).insert (keyText key)
                  (key, [⟨startMillis, endMillis, values⟩])) := rfl
          rw [hFirst, groupByText_key]
          cases groups.mapM toIntervalGroup with
          | error message => rfl
          | ok intervals =>
              let all : List IntervalGroup := ⟨startMillis, endMillis, values⟩ :: intervals
              have hOne : order [(key, all)] = [(key, all)] :=
                List.perm_singleton.mp (hOrder [(key, all)])
              have hMerged : (order [(key, all)]).flatMap (fun entry =>
                  (sortedSessions (entry.2.mergeSort atMost)).map
                    fun (session : IntervalGroup) =>
                      (⟨entry.1, session.window, session.values⟩ : GroupInput)) =
                  (sortedSessions (all.mergeSort atMost)).map
                    fun (session : IntervalGroup) =>
                      (⟨key, session.window, session.values⟩ : GroupInput) := by
                rw [hOne, List.flatMap_singleton]
              refine (congrArg Except.ok hMerged).trans ?_
              have hSorted : (⟨startMillis, endMillis, values⟩ :: intervals).mergeSort
                  (fun first second : IntervalGroup => decide
                    (first.startMillis < second.startMillis ∨
                      first.startMillis = second.startMillis ∧
                        first.endMillis ≤ second.endMillis)) = all.mergeSort atMost := rfl
              dsimp only [toIntervalGroup, bind, Except.bind, pure, Except.pure]
              rw [hSorted]
              cases all.mergeSort atMost <;> rfl
      | global => rfl
      | opaqueWindow coderId bytes => rfl

/-- A group of a window that starts before it ends. -/
def ProperInterval (entry : BeamWindow × List PaneElement) : Prop :=
  ∃ startMillis endMillis, entry.1 = .interval startMillis endMillis ∧ startMillis < endMillis

theorem ProperInterval.isInterval {entry : BeamWindow × List PaneElement}
    (h : ProperInterval entry) : isInterval entry.1 = true := by
  obtain ⟨startMillis, endMillis, hWindow, _⟩ := h
  rw [hWindow]
  rfl

theorem ProperInterval.low_lt_high {entry : BeamWindow × List PaneElement}
    (h : ProperInterval entry) : (intervalOf entry).low < (intervalOf entry).high := by
  obtain ⟨window, values⟩ := entry
  obtain ⟨startMillis, endMillis, hWindow, hLess⟩ := h
  cases hWindow
  exact Int64.lt_iff_toInt_lt.mp hLess

/-- The sessions the merge of one key's windows emits. -/
def sessionsOf (groups : List (BeamWindow × List PaneElement)) : List IntervalGroup :=
  sortedSessions ((groups.map intervalOf).mergeSort atMost)

/-- The sessions of proper intervals are the components of their overlap. -/
theorem components_sessionsOf {groups : List (BeamWindow × List PaneElement)}
    (hProper : ∀ entry ∈ groups, ProperInterval entry) :
    SessionComponents (groups.map intervalOf) (sessionsOf groups) := by
  have hPerm := List.mergeSort_perm (groups.map intervalOf) atMost
  have hSorted := pairwise_mergeSort_atMost (groups.map intervalOf)
  have hLength : ∀ interval ∈ groups.map intervalOf, interval.low < interval.high :=
    List.forall_mem_map.mpr fun entry hEntry => (hProper entry hEntry).low_lt_high
  have hSortedLength : ∀ interval ∈ (groups.map intervalOf).mergeSort atMost,
      interval.low < interval.high :=
    fun interval hInterval => hLength interval (hPerm.mem_iff.mp hInterval)
  rw [sessionsOf]
  generalize (groups.map intervalOf).mergeSort atMost = sorted at *
  cases sorted with
  | nil => exact components_of_blocks .nil hPerm List.Pairwise.nil hLength
  | cons first rest =>
      have hLow : ([first] ++ rest).Pairwise fun a b => a.low ≤ b.low := by
        refine hSorted.imp fun hAtMost => ?_
        rw [IntervalGroup.atMost_iff] at hAtMost
        omega
      obtain ⟨blocks, hFlat, hHulls, hApart, _⟩ := (Hull.single first).mergeSorted hLow
        (List.forall_mem_cons.mp hSortedLength).2
      exact components_of_blocks hHulls (by rw [hFlat]; exact hPerm) hApart hLength

/-- Windows in another order make the same sessions with the same elements, and
the very same list when no window occurs twice. -/
theorem sessionsOf_perm {groups others : List (BeamWindow × List PaneElement)}
    (hProper : ∀ entry ∈ groups, ProperInterval entry) (hPerm : others.Perm groups) :
    List.Forall₂ (fun a b => a.window = b.window ∧ a.values.Perm b.values) (sessionsOf others)
        (sessionsOf groups) ∧
      ((groups.map Prod.fst).Nodup → sessionsOf others = sessionsOf groups) := by
  have hIntervals := hPerm.map intervalOf
  have hHere := components_sessionsOf hProper
  have hThere : SessionComponents (others.map intervalOf) (sessionsOf others) :=
    components_sessionsOf fun entry hEntry => hProper entry (hPerm.mem_iff.mp hEntry)
  have hBounds : (sessionsOf others).map IntervalGroup.bounds =
      (sessionsOf groups).map IntervalGroup.bounds :=
    sortedSessions_bounds (mergeSort_bounds hIntervals)
  refine ⟨?_, fun hDistinct => ?_⟩
  · have hPairs : List.Forall₂ (fun a b => a.bounds = b.bounds) (sessionsOf others)
        (sessionsOf groups) := by
      rw [← List.forall₂_map_right_iff, ← List.forall₂_map_left_iff, hBounds,
        List.forall₂_eq_eq_eq]
    obtain ⟨hLength, hZip⟩ := List.forall₂_iff_zip.mp hPairs
    refine List.forall₂_iff_zip.mpr ⟨hLength, fun {a b} hMem => ?_⟩
    obtain ⟨hA, hB⟩ := List.of_mem_zip hMem
    obtain ⟨hStart, hEnd⟩ := Prod.mk.inj (hZip hMem)
    have hContains : a.Contains = b.Contains := by
      funext interval
      show (a.startMillis.toInt ≤ interval.low ∧ interval.high ≤ a.endMillis.toInt) = _
      rw [hStart, hEnd]
      rfl
    refine ⟨by rw [IntervalGroup.window, IntervalGroup.window, hStart, hEnd], ?_⟩
    refine (hThere.values a hA).trans (List.Perm.trans ?_ (hHere.values b hB).symm)
    simp only [hContains]
    exact (hIntervals.filter _).flatMap_right _
  · rw [sessionsOf, sessionsOf, mergeSort_eq_of_perm hIntervals.symm]
    refine List.Nodup.of_map (fun bounds => BeamWindow.interval bounds.1 bounds.2) ?_
    have hWindows : ((groups.map intervalOf).map IntervalGroup.bounds).map
        (fun bounds => BeamWindow.interval bounds.1 bounds.2) = groups.map Prod.fst := by
      rw [List.map_map, List.map_map]
      exact List.map_congr_left fun entry hEntry =>
        intervalOf_window (hProper entry hEntry).isInterval
    rw [hWindows]
    exact hDistinct

/-- The merge of the windows of one key: its sessions are the connected
components of overlap, and the order of the windows makes no difference. -/
theorem mergeKeyedIntervalGroups_components (keyText : PrimitiveValue → String)
    {order : List (PrimitiveValue × List IntervalGroup) →
      List (PrimitiveValue × List IntervalGroup)} (hOrder : ∀ entries, (order entries).Perm entries)
    (key : PrimitiveValue) {groups : List (BeamWindow × List PaneElement)}
    (hProper : ∀ entry ∈ groups, ProperInterval entry) :
    mergeKeyedIntervalGroups keyText order (keyedWindows key groups) =
        .ok ((sessionsOf groups).map fun session => ⟨key, session.window, session.values⟩) ∧
      SessionComponents (groups.map intervalOf) (sessionsOf groups) ∧
      ∀ others : List (BeamWindow × List PaneElement), others.Perm groups →
        mergeKeyedIntervalGroups keyText order (keyedWindows key others) =
            .ok ((sessionsOf others).map fun session => ⟨key, session.window, session.values⟩) ∧
          List.Forall₂ (fun a b => a.window = b.window ∧ a.values.Perm b.values)
            (sessionsOf others) (sessionsOf groups) ∧
          ((groups.map Prod.fst).Nodup → sessionsOf others = sessionsOf groups) := by
  have hMerged : ∀ windows : List (BeamWindow × List PaneElement),
      (∀ entry ∈ windows, ProperInterval entry) →
        mergeKeyedIntervalGroups keyText order (keyedWindows key windows) =
          .ok ((sessionsOf windows).map fun session => ⟨key, session.window, session.values⟩) :=
    fun windows hWindows => (mergeKeyedIntervalGroups_key keyText hOrder key windows).trans
      (mergeIntervalGroups_sorted key fun entry hEntry => (hWindows entry hEntry).isInterval)
  refine ⟨hMerged groups hProper, components_sessionsOf hProper, fun others hPerm => ?_⟩
  have hOthers : ∀ entry ∈ others, ProperInterval entry :=
    fun entry hEntry => hProper entry (hPerm.mem_iff.mp hEntry)
  exact ⟨hMerged others hOthers, sessionsOf_perm hProper hPerm⟩

/-- Two windows that overlap and one that only touches them, the latest first. -/
def touchingWindows : List (BeamWindow × List PaneElement) :=
  [(.interval 10 12, [⟨.primitive (.bool true), 11⟩]),
    (.interval 5 10, [⟨.primitive (.bool true), 6⟩]),
    (.interval 0 7, [⟨.primitive (.bool false), 1⟩])]

theorem mergeKeyedIntervalGroups_components_touching :
    mergeKeyedIntervalGroups (fun _ => "Bool(true)") id (keyedWindows (.bool true) touchingWindows) =
        .ok ((sessionsOf touchingWindows).map fun session =>
          ⟨.bool true, session.window, session.values⟩) ∧
      SessionComponents (touchingWindows.map intervalOf) (sessionsOf touchingWindows) := by
  have hProper : ∀ entry ∈ touchingWindows, ProperInterval entry := by
    intro entry hEntry
    simp only [touchingWindows, List.mem_cons, List.not_mem_nil, or_false] at hEntry
    rcases hEntry with rfl | rfl | rfl <;> exact ⟨_, _, rfl, by decide⟩
  obtain ⟨hMerged, hComponents, _⟩ := mergeKeyedIntervalGroups_components (fun _ => "Bool(true)")
    (fun entries => List.Perm.refl (id entries)) (.bool true) hProper
  exact ⟨hMerged, hComponents⟩

end FlareDB
