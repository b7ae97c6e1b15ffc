import FlareDB.Engine.SdfWork

/-! The channel splits of a bundle over its whole run. Each accepted split moves
the boundary of what the bundle still processes down, and hands back exactly the
elements between the new boundary and the old one. -/
namespace FlareDB

/-- A slice of a list; `none` is the panic on bounds that are not in order or
past the end. -/
def slice {α : Type} (xs : List α) (start stop : Nat) : Option (List α) :=
  if start ≤ stop ∧ stop ≤ xs.length then some ((xs.take stop).drop start) else none

/-- The byte range of the elements a channel split newly hands back, with their
count; the outer `none` is the panic on an index out of bounds. -/
def channelSplitRange (spans : List SdfInputSpan) (handedBackFrom : Option Int)
    (firstResidualElement : Int) : Option (Option (Nat × Nat × Int)) :=
  let first := asUsize firstResidualElement
  let upper := handBackLimit spans handedBackFrom
  if first < upper then do
    let start ← spans[first]?
    let stop ← spans[upper - 1]?
    pure (some (start.start, stop.stop, ((upper - first : Nat) : Int)))
  else pure none

/-- The event times of the elements a channel split newly hands back. -/
def channelItemTimestamps (spans : List SdfInputSpan) (handedBackFrom : Option Int)
    (firstResidualElement : Int) : Option (List Timestamp) :=
  let first := asUsize firstResidualElement
  let upper := handBackLimit spans handedBackFrom
  if upper ≤ first then some []
  else (slice spans first upper).map fun handedBack => handedBack.map SdfInputSpan.timestampMillis

/-- A work item together with the elements it hands back. -/
structure HandedBackItem where
  first : Nat
  upper : Nat
  item : SdfWorkItem

/-- What the channel splits of a bundle have done so far. -/
structure SplitState where
  handedBackFrom : Option Int
  channelItems : List HandedBackItem

namespace SplitState

/-- A bundle before its first split. -/
def start : SplitState where
  handedBackFrom := none
  channelItems := []

variable (stage : SplittableStage) (inputBytes : List UInt8) (spans : List SdfInputSpan)

/-- One channel split of a response. A dispatcher that no longer takes items only
ends the polling for splits, before the split has any effect. -/
def channelSplit (state : SplitState) (first : Int) : Option SplitState :=
  if first < 0 ∨ spans.length < first then some state
  else if state.handedBackFrom.any fun previous => previous < first then some state
  else do
    match ← channelSplitRange spans state.handedBackFrom first with
    | none => pure state
    | some (start, stop, count) =>
        let timestamps ← channelItemTimestamps spans state.handedBackFrom first
        let seed ← slice inputBytes start stop
        -- the assertion on the count
        if 0 < count then
          pure {
            handedBackFrom := some first
            channelItems := state.channelItems ++ [{
              first := asUsize first
              upper := handBackLimit spans state.handedBackFrom
              item := { seed := seed, holds := channelItemHolds stage timestamps } }] }
        else none

/-- The channel splits of the responses of a bundle, in order. -/
def channelSplits (state : SplitState) : List (List Int) → Option SplitState
  | [] => some state
  | response :: responses => do
      let next ← response.foldlM (channelSplit stage inputBytes spans) state
      channelSplits next responses

end SplitState

/-- The boundary once a split asks to hand back from a position on: a position of
the input moves it down, and never up. -/
def lowered (count : Nat) (boundary : Option Int) (first : Int) : Option Int :=
  if 0 ≤ first ∧ first < count then
    some (boundary.elim first fun previous => min previous first)
  else boundary

/-- Splits one after the other leave the lowest position that any of them names. -/
theorem foldl_lowered (count : Nat) (boundary : Option Int) (firsts : List Int) :
    firsts.foldl (lowered count) boundary =
      (boundary.toList ++ firsts.filter fun first => decide (0 ≤ first ∧ first < (count : Int))).min? := by
  induction firsts generalizing boundary with
  | nil => cases boundary <;> rfl
  | cons first rest ih =>
      rw [List.foldl_cons, ih, lowered, List.filter_cons]
      by_cases hInside : 0 ≤ first ∧ first < count
      · rw [if_pos hInside, if_pos (decide_eq_true hInside)]
        cases boundary <;> rfl
      · rw [if_neg hInside, if_neg (by simpa using hInside)]

/-- The bytes of one element. -/
def SdfInputSpan.bytes (inputBytes : List UInt8) (span : SdfInputSpan) : List UInt8 :=
  (inputBytes.take span.stop).drop span.start

/-- The spans follow one another from a position to the end of the input. -/
def Contiguous (inputBytes : List UInt8) : Nat → List SdfInputSpan → Prop
  | position, [] => position = inputBytes.length
  | position, span :: spans =>
      span.start = position ∧ position ≤ span.stop ∧ Contiguous inputBytes span.stop spans

/-- Spans that follow one another stay within the input. -/
theorem Contiguous.le_length {inputBytes : List UInt8} {position : Nat}
    {spans : List SdfInputSpan} (h : Contiguous inputBytes position spans) :
    position ≤ inputBytes.length := by
  induction spans generalizing position with
  | nil => exact Nat.le_of_eq h
  | cons span spans ih =>
      obtain ⟨_, hLe, hRest⟩ := h
      exact hLe.trans (ih hRest)

/-- Two neighbouring stretches make one. -/
theorem take_drop_append {α : Type} (xs : List α) {start middle stop : Nat} (hStart : start ≤ middle)
    (hStop : middle ≤ stop) :
    (xs.take middle).drop start ++ (xs.take stop).drop middle = (xs.take stop).drop start := by
  have hMiddle : (xs.take stop).take middle = xs.take middle := by
    rw [List.take_take, Nat.min_eq_left hStop]
  have hSplit := List.take_append_drop (middle - start) ((xs.take stop).drop start)
  rw [List.take_drop, List.drop_drop, Nat.add_sub_cancel' hStart, hMiddle] at hSplit
  exact hSplit

/-- The bytes between two elements are those of the elements in between. -/
theorem Contiguous.slice_eq {inputBytes : List UInt8} {position : Nat}
    {spans : List SdfInputSpan} (h : Contiguous inputBytes position spans) {first upper : Nat}
    (hFirst : first < upper) (hUpper : upper ≤ spans.length) :
    ∃ startSpan stopSpan, spans[first]? = some startSpan ∧ spans[upper - 1]? = some stopSpan ∧
      slice inputBytes startSpan.start stopSpan.stop =
        some (((spans.take upper).drop first).flatMap (SdfInputSpan.bytes inputBytes)) := by
  induction spans generalizing position first upper with
  | nil => simp at hUpper; omega
  | cons span spans ih =>
      obtain ⟨hStart, hStop, hRest⟩ := h
      obtain ⟨upper, rfl⟩ : ∃ n, upper = n + 1 := ⟨upper - 1, by omega⟩
      rw [List.length_cons] at hUpper
      cases first with
      | succ first =>
          obtain ⟨startSpan, stopSpan, hFrom, hTo, hSlice⟩ := ih hRest
            (show first < upper by omega) (by omega)
          have hTop : (span :: spans)[upper + 1 - 1]? = spans[upper - 1]? := by
            obtain ⟨upper, rfl⟩ : ∃ n, upper = n + 1 := ⟨upper - 1, by omega⟩
            rfl
          exact ⟨startSpan, stopSpan, hFrom, hTop.trans hTo, hSlice⟩
      | zero =>
          cases upper with
          | zero =>
              refine ⟨span, span, rfl, rfl, ?_⟩
              have hEnd := hRest.le_length
              rw [slice, if_pos ⟨by omega, hEnd⟩]
              simp [SdfInputSpan.bytes]
          | succ upper =>
              obtain ⟨startSpan, stopSpan, hFrom, hTo, hSlice⟩ := ih hRest
                (show 0 < upper + 1 by omega) (by omega)
              have hNext : startSpan.start = span.stop := by
                cases spans with
                | nil => cases hFrom
                | cons next spans =>
                    cases hFrom
                    exact hRest.1
              rw [slice] at hSlice
              split at hSlice
              next hBounds =>
                refine ⟨span, stopSpan, rfl, hTo, ?_⟩
                rw [hNext] at hBounds hSlice
                rw [slice, if_pos ⟨by omega, hBounds.2⟩, List.take_succ_cons, List.drop_zero,
                  List.flatMap_cons]
                rw [List.drop_zero] at hSlice
                rw [← Option.some.inj hSlice, SdfInputSpan.bytes,
                  take_drop_append inputBytes (by omega) hBounds.1]
              · cases hSlice

theorem asUsize_of_nonneg {value : Int} (hNonneg : 0 ≤ value) (hSmall : value < 2 ^ 64) :
    asUsize value = value.toNat := by
  rw [asUsize, Int.emod_eq_of_lt hNonneg hSmall]

/-- The elements between two positions. -/
def elementsBetween (spans : List SdfInputSpan) (first upper : Nat) : List SdfInputSpan :=
  (spans.take upper).drop first

/-- What the splits of a bundle have handed back: disjoint runs of elements that
together are everything from the boundary on, each with its own bytes and event
times. -/
structure HandsBack (stage : SplittableStage) (inputBytes : List UInt8)
    (spans : List SdfInputSpan) (state : SplitState) : Prop where
  boundary : ∀ position, state.handedBackFrom = some position →
    0 ≤ position ∧ position < spans.length
  disjoint : state.channelItems.Pairwise fun earlier later => later.upper ≤ earlier.first
  covered : ∀ k : Nat, (∃ item ∈ state.channelItems, item.first ≤ k ∧ k < item.upper) ↔
    ∃ position, state.handedBackFrom = some position ∧ position ≤ k ∧ k < spans.length
  nonempty : ∀ item ∈ state.channelItems, item.first < item.upper
  seeds : ∀ item ∈ state.channelItems, item.item.seed =
    (elementsBetween spans item.first item.upper).flatMap (SdfInputSpan.bytes inputBytes)
  holds : ∀ item ∈ state.channelItems, item.item.holds = channelItemHolds stage
    ((elementsBetween spans item.first item.upper).map SdfInputSpan.timestampMillis)

namespace HandsBack

variable {stage : SplittableStage} {inputBytes : List UInt8} {spans : List SdfInputSpan}
  {state : SplitState}

/-- Before the first split nothing has been handed back. -/
theorem start : HandsBack stage inputBytes spans SplitState.start := by
  refine ⟨?_, List.Pairwise.nil, ?_, ?_, ?_, ?_⟩ <;> simp [SplitState.start]

/-- The boundary as an upper limit: all elements before the first split. -/
theorem limit_le (h : HandsBack stage inputBytes spans state) (hCount : spans.length < 2 ^ 63) :
    handBackLimit spans state.handedBackFrom ≤ spans.length ∧
      ∀ k : Nat, handBackLimit spans state.handedBackFrom ≤ k ∧ k < spans.length ↔
        ∃ position, state.handedBackFrom = some position ∧ position ≤ k ∧ k < spans.length := by
  rw [handBackLimit]
  cases hFrom : state.handedBackFrom with
  | none => exact ⟨Nat.le_refl _, fun k => by simp⟩
  | some position =>
      obtain ⟨hNonneg, hBelow⟩ := h.boundary position hFrom
      have hUsize : asUsize position = position.toNat := asUsize_of_nonneg hNonneg (by omega)
      simp only [Option.map_some, Option.getD_some, hUsize, Option.some.injEq, exists_eq_left']
      exact ⟨by omega, fun k => by omega⟩

/-- Once a split was accepted, the bundle processes the elements before its boundary. -/
theorem limit_of_some (h : HandsBack stage inputBytes spans state) (hCount : spans.length < 2 ^ 63)
    {position : Int} (hFrom : state.handedBackFrom = some position) :
    handBackLimit spans state.handedBackFrom = position.toNat := by
  obtain ⟨hNonneg, hBelow⟩ := h.boundary position hFrom
  rw [handBackLimit, hFrom, Option.map_some, Option.getD_some,
    asUsize_of_nonneg hNonneg (by omega)]

/-- A split moves the boundary exactly where it names an element below the limit. -/
theorem lowered_eq (h : HandsBack stage inputBytes spans state) (hCount : spans.length < 2 ^ 63)
    (first : Int) : lowered spans.length state.handedBackFrom first =
      if 0 ≤ first ∧ first.toNat < handBackLimit spans state.handedBackFrom then some first
      else state.handedBackFrom := by
  rw [lowered]
  cases hFrom : state.handedBackFrom with
  | none =>
      have hLimit : handBackLimit spans none = spans.length := rfl
      rw [hLimit]
      split <;> split <;> first | rfl | omega
  | some position =>
      have hLimit := h.limit_of_some hCount hFrom
      obtain ⟨hNonneg, hBelow⟩ := h.boundary position hFrom
      rw [hFrom] at hLimit
      rw [hLimit, Option.elim_some]
      split <;> split <;> first | rfl | (congr 1; omega)

/-- A split between the limit and the start hands back the elements above it. -/
theorem add (h : HandsBack stage inputBytes spans state) (hCount : spans.length < 2 ^ 63)
    {first : Int} (hNonneg : 0 ≤ first)
    (hBelow : first.toNat < handBackLimit spans state.handedBackFrom) :
    HandsBack stage inputBytes spans {
      handedBackFrom := some first
      channelItems := state.channelItems ++ [{
        first := first.toNat
        upper := handBackLimit spans state.handedBackFrom
        item := {
          seed := (elementsBetween spans first.toNat
            (handBackLimit spans state.handedBackFrom)).flatMap (SdfInputSpan.bytes inputBytes)
          holds := channelItemHolds stage ((elementsBetween spans first.toNat
            (handBackLimit spans state.handedBackFrom)).map SdfInputSpan.timestampMillis) } }] } := by
  obtain ⟨hLimit, hAbove⟩ := h.limit_le hCount
  have hOld : ∀ k : Nat, (∃ item ∈ state.channelItems, item.first ≤ k ∧ k < item.upper) ↔
      handBackLimit spans state.handedBackFrom ≤ k ∧ k < spans.length := fun k =>
    (h.covered k).trans (hAbove k).symm
  refine ⟨?_, ?_, ?_, ?_, ?_, ?_⟩
  · intro position hPosition
    cases hPosition
    omega
  · refine List.pairwise_append.mpr ⟨h.disjoint, List.pairwise_singleton _ _, ?_⟩
    intro item hItem other hOther
    rw [List.mem_singleton.mp hOther]
    exact ((hOld item.first).mp ⟨item, hItem, Nat.le_refl _, h.nonempty item hItem⟩).1
  · intro k
    have hSplit : ∀ added : HandedBackItem,
        (∃ item ∈ state.channelItems ++ [added], item.first ≤ k ∧ k < item.upper) ↔
          (∃ item ∈ state.channelItems, item.first ≤ k ∧ k < item.upper) ∨
            added.first ≤ k ∧ k < added.upper := by
      intro added
      simp only [List.mem_append, List.mem_singleton, or_and_right, exists_or, exists_eq_left]
    rw [hSplit, hOld]
    simp only [Option.some.injEq, exists_eq_left']
    omega
  · exact List.forall_mem_append.mpr ⟨h.nonempty, List.forall_mem_singleton.mpr hBelow⟩
  · exact List.forall_mem_append.mpr ⟨h.seeds, List.forall_mem_singleton.mpr rfl⟩
  · exact List.forall_mem_append.mpr ⟨h.holds, List.forall_mem_singleton.mpr rfl⟩

/-- A channel split stays within bounds, whatever boundary the SDK names. -/
theorem channelSplit (h : HandsBack stage inputBytes spans state)
    (hInput : Contiguous inputBytes 0 spans) (hCount : spans.length < 2 ^ 63) (first : Int) :
    ∃ next, state.channelSplit stage inputBytes spans first = some next ∧
      HandsBack stage inputBytes spans next ∧
      next.handedBackFrom = lowered spans.length state.handedBackFrom first := by
  have hLowered := h.lowered_eq hCount first
  rw [SplitState.channelSplit]
  split
  next hOutside => exact ⟨state, rfl, h, by rw [lowered, if_neg (by omega)]⟩
  next hRange =>
    rw [not_or] at hRange
    split
    next hRegressed =>
      refine ⟨state, rfl, h, ?_⟩
      obtain ⟨previous, hPrevious, hAbove⟩ := (Option.any_eq_true _ _).mp hRegressed
      have hLimit : handBackLimit spans state.handedBackFrom = previous.toNat :=
        h.limit_of_some hCount hPrevious
      rw [hLowered, if_neg]
      have hBelow : previous < first := of_decide_eq_true hAbove
      omega
    · have hUsize : asUsize first = first.toNat := asUsize_of_nonneg (by omega) (by omega)
      obtain ⟨hLimit, -⟩ := h.limit_le hCount
      by_cases hBelow : first.toNat < handBackLimit spans state.handedBackFrom
      · obtain ⟨startSpan, stopSpan, hFrom, hTo, hSlice⟩ := hInput.slice_eq hBelow hLimit
        have hTimes : slice spans first.toNat (handBackLimit spans state.handedBackFrom) =
            some (elementsBetween spans first.toNat (handBackLimit spans state.handedBackFrom)) :=
          if_pos ⟨by omega, hLimit⟩
        have hSome : 0 < ((handBackLimit spans state.handedBackFrom - first.toNat : Nat) : Int) := by
          omega
        refine ⟨_, ?_, h.add hCount (by omega) hBelow, ?_⟩
        · simp only [channelSplitRange, channelItemTimestamps, hUsize, if_pos hBelow,
            if_neg (Nat.not_le.mpr hBelow), hFrom, hTo, hTimes, hSlice, Option.pure_def,
            Option.bind_eq_bind, Option.bind_some, Option.map_some, if_pos hSome]
          rfl
        · rw [hLowered, if_pos ⟨by omega, hBelow⟩]
      · refine ⟨state, ?_, h, by rw [hLowered, if_neg (fun hSplit => hBelow hSplit.2)]⟩
        simp only [channelSplitRange, hUsize, if_neg hBelow, Option.pure_def,
          Option.bind_eq_bind, Option.bind_some]

/-- One response keeps the account, and lowers the boundary to the splits it accepts. -/
theorem response (h : HandsBack stage inputBytes spans state)
    (hInput : Contiguous inputBytes 0 spans) (hCount : spans.length < 2 ^ 63)
    (response : List Int) :
    ∃ next, response.foldlM (SplitState.channelSplit stage inputBytes spans) state = some next ∧
      HandsBack stage inputBytes spans next ∧
      next.handedBackFrom = response.foldl (lowered spans.length) state.handedBackFrom := by
  induction response generalizing state with
  | nil => exact ⟨state, rfl, h, rfl⟩
  | cons first rest ih =>
      obtain ⟨middle, hMiddle, hHanded, hFirst⟩ := h.channelSplit hInput hCount first
      obtain ⟨next, hNext, hAll, hRest⟩ := ih hHanded
      refine ⟨next, ?_, hAll, ?_⟩
      · rw [List.foldlM_cons, hMiddle]
        exact hNext
      · rw [hRest, hFirst, List.foldl_cons]

/-- So do all responses of a bundle. -/
theorem responses (h : HandsBack stage inputBytes spans state)
    (hInput : Contiguous inputBytes 0 spans) (hCount : spans.length < 2 ^ 63)
    (responses : List (List Int)) :
    ∃ next, state.channelSplits stage inputBytes spans responses = some next ∧
      HandsBack stage inputBytes spans next ∧
      next.handedBackFrom = responses.flatten.foldl (lowered spans.length) state.handedBackFrom := by
  induction responses generalizing state with
  | nil => exact ⟨state, rfl, h, rfl⟩
  | cons splits rest ih =>
      obtain ⟨middle, hMiddle, hHanded, hSplits⟩ := h.response hInput hCount splits
      obtain ⟨next, hNext, hAll, hRest⟩ := ih hHanded
      refine ⟨next, ?_, hAll, ?_⟩
      · rw [SplitState.channelSplits, hMiddle]
        exact hNext
      · rw [hRest, hSplits, List.flatten_cons, List.foldl_append]

/-- Every item of a channel split is made of consecutive elements of the input,
at least one, and holds what such elements hold. -/
theorem origin (h : HandsBack stage inputBytes spans state)
    {item : HandedBackItem} (hItem : item ∈ state.channelItems) :
    item.first < item.upper ∧ item.upper ≤ spans.length ∧
      item.item.holds = (SdfOrigin.channelSplit ((elementsBetween spans item.first item.upper).map
        SdfInputSpan.timestampMillis)).holds stage := by
  have hNonempty := h.nonempty item hItem
  obtain ⟨_, _, _, hInside⟩ := (h.covered (item.upper - 1)).mp ⟨item, hItem, by omega, by omega⟩
  exact ⟨hNonempty, by omega, h.holds item hItem⟩

end HandsBack

/-- Whatever splits an SDK answers with, the final boundary is the lowest element
that any of them names, every element is handed back at most once, and those
handed back are the ones from that boundary on. -/
theorem channelSplits_handBack (stage : SplittableStage) {inputBytes : List UInt8}
    {spans : List SdfInputSpan} (hInput : Contiguous inputBytes 0 spans)
    (hCount : spans.length < 2 ^ 63) (responses : List (List Int)) :
    ∃ state, SplitState.start.channelSplits stage inputBytes spans responses = some state ∧
      HandsBack stage inputBytes spans state ∧
      state.handedBackFrom = (responses.flatten.filter fun first =>
        decide (0 ≤ first ∧ first < (spans.length : Int))).min? := by
  obtain ⟨state, hState, hHanded, hBoundary⟩ := HandsBack.start.responses hInput hCount responses
  exact ⟨state, hState, hHanded, hBoundary.trans (foldl_lowered _ _ _)⟩

/-- Three elements, split at the last one, past the end, behind the boundary and
at the first one. -/
theorem channelSplits_handBack_regressed :
    let stage : SplittableStage := ⟨["out"], ∅⟩
    let inputBytes : List UInt8 := [10, 11, 20, 30, 31]
    let spans : List SdfInputSpan := [⟨0, 2, 100⟩, ⟨2, 3, 200⟩, ⟨3, 5, 300⟩]
    ∃ state, SplitState.start.channelSplits stage inputBytes spans [[2, 7], [3], [-1, 0]] =
        some state ∧ HandsBack stage inputBytes spans state ∧ state.handedBackFrom = some 0 ∧
      state.channelItems = [⟨2, 3, ⟨[30, 31], [300]⟩⟩, ⟨0, 2, ⟨[10, 11, 20], [100]⟩⟩] := by
  intro stage inputBytes spans
  have hInput : Contiguous inputBytes 0 spans := by simp [inputBytes, spans, Contiguous]
  obtain ⟨state, hState, hHanded, hBoundary⟩ :=
    channelSplits_handBack stage hInput (by decide) [[2, 7], [3], [-1, 0]]
  refine ⟨state, hState, hHanded, hBoundary, ?_⟩
  have hItems : (SplitState.start.channelSplits stage inputBytes spans
      [[2, 7], [3], [-1, 0]]).map SplitState.channelItems =
        some [⟨2, 3, ⟨[30, 31], [300]⟩⟩, ⟨0, 2, ⟨[10, 11, 20], [100]⟩⟩] := rfl
  rw [hState] at hItems
  exact Option.some.inj hItems

end FlareDB
