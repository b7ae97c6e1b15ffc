import Mathlib.Data.List.Count

/-! Following a value that others replace. A channel is the history of its
values, and its readers see the last one only. A feed is a task that reads the
value, passes it on, and sleeps until the value was replaced since it last
woke, until it passed on a value that ends the feed. -/
namespace Watch

variable {α : Type}

inductive Phase where
  | reading
  /-- The value read stands at `place` of the history, and is being passed on. -/
  | offering (place : Nat)
  | sleeping
  /-- The feed passed on a value that ends it. -/
  | ended
  /-- The reader left, or the channel was closed. -/
  | stopped
deriving DecidableEq

/-- `seen` is how many values there were when the feed last woke, and `places`
tells where what it passed on stood in the history. -/
structure Feed where
  phase : Phase
  seen : Nat
  places : List Nat
deriving DecidableEq

inductive Act where
  | read
  | pass
  | leave
  | wake
  | close
deriving DecidableEq

namespace Feed

/-- A feed of a channel that has had `count` values. -/
def subscribe (count : Nat) : Feed where
  phase := .reading
  seen := count
  places := []

def passed (feed : Feed) (place : Nat) (stops : Bool) : Feed where
  phase := if stops then .ended else .sleeping
  seen := feed.seen
  places := feed.places ++ [place]

/-- What the feed does next. Only a feed that sleeps on the last value learns
that the channel is closed. -/
def step (stops : α → Bool) (history : List α) (feed : Feed) : Act → Option Feed
  | .read =>
      match feed.phase with
      | .reading => some { feed with phase := .offering (history.length - 1) }
      | _ => none
  | .pass =>
      match feed.phase with
      | .offering place =>
          match history[place]? with
          | some value => some (feed.passed place (stops value))
          | none => none
      | _ => none
  | .leave =>
      match feed.phase with
      | .offering _ => some { feed with phase := .stopped }
      | _ => none
  | .wake =>
      match feed.phase with
      | .sleeping =>
          if feed.seen = history.length then none
          else some { feed with phase := .reading, seen := history.length }
      | _ => none
  | .close =>
      match feed.phase with
      | .sleeping => if feed.seen = history.length then some { feed with phase := .stopped } else none
      | _ => none

/-- The values passed on. -/
def values (feed : Feed) (history : List α) : List α :=
  feed.places.filterMap (history[·]?)

/-- The value at a place of the history does not end the feed. -/
def Goes (stops : α → Bool) (history : List α) (place : Nat) : Prop :=
  ∃ value, history[place]? = some value ∧ stops value = false

def Stops (stops : α → Bool) (history : List α) (place : Nat) : Prop :=
  ∃ value, history[place]? = some value ∧ stops value = true

/-- Nothing after the value the feed woke on was passed on yet, and that value
once at most. -/
def Awake (feed : Feed) : Prop :=
  (∀ place ∈ feed.places, place < feed.seen) ∧ feed.places.count (feed.seen - 1) ≤ 1

/-- The last place is the only one after the value the feed woke on, and no
place is before it. -/
def Caught (feed : Feed) : Prop :=
  (∀ place ∈ feed.places.getLast?, feed.seen ≤ place + 1) ∧
    feed.places ≠ [] ∧ ∀ place, feed.seen ≤ place → feed.places.count place ≤ 1

structure Follows (stops : α → Bool) (since : Nat) (history : List α) (feed : Feed) : Prop where
  some_value : 1 ≤ since
  since_seen : since ≤ feed.seen
  seen_length : feed.seen ≤ history.length
  inside : ∀ place ∈ feed.places, since ≤ place + 1 ∧ place < history.length
  sorted : feed.places.Pairwise (· ≤ ·)
  twice : ∀ place, feed.places.count place ≤ 2
  phase : match feed.phase with
    | .reading => feed.Awake ∧ ∀ place ∈ feed.places, Goes stops history place
    | .offering place => feed.Awake ∧ (∀ place ∈ feed.places, Goes stops history place) ∧
        feed.seen ≤ place + 1 ∧ place < history.length
    | .sleeping => feed.Caught ∧ ∀ place ∈ feed.places, Goes stops history place
    | .ended => ∃ before place, feed.places = before ++ [place] ∧ Stops stops history place ∧
        ∀ earlier ∈ before, Goes stops history earlier
    | .stopped => ∀ place ∈ feed.places, Goes stops history place

variable {stops : α → Bool} {since : Nat} {history : List α} {feed : Feed}

theorem goes_append {place : Nat} (h : Goes stops history place) (value : α) :
    Goes stops (history ++ [value]) place := by
  obtain ⟨old, hOld, hGoes⟩ := h
  have hBound := (List.getElem?_eq_some_iff.mp hOld).1
  exact ⟨old, (List.getElem?_append_left hBound).trans hOld, hGoes⟩

theorem stops_append {place : Nat} (h : Stops stops history place) (value : α) :
    Stops stops (history ++ [value]) place := by
  obtain ⟨old, hOld, hStops⟩ := h
  have hBound := (List.getElem?_eq_some_iff.mp hOld).1
  exact ⟨old, (List.getElem?_append_left hBound).trans hOld, hStops⟩

theorem Follows.subscribe (hValue : history ≠ []) :
    Follows stops history.length history (Feed.subscribe history.length) where
  some_value := List.length_pos_iff.mpr hValue
  since_seen := Nat.le_refl _
  seen_length := Nat.le_refl _
  inside _ hPlace := absurd hPlace List.not_mem_nil
  sorted := List.Pairwise.nil
  twice _ := Nat.zero_le _
  phase := ⟨⟨fun _ hPlace => absurd hPlace List.not_mem_nil, Nat.zero_le _⟩,
    fun _ hPlace => absurd hPlace List.not_mem_nil⟩

/-- A value that is published disturbs no feed. -/
theorem Follows.publish (h : Follows stops since history feed) (value : α) :
    Follows stops since (history ++ [value]) feed where
  some_value := h.some_value
  since_seen := h.since_seen
  seen_length := by
    have hSeen := h.seen_length
    simp only [List.length_append, List.length_singleton]
    omega
  inside place hPlace := by
    have hInside := h.inside place hPlace
    simp only [List.length_append, List.length_singleton]
    omega
  sorted := h.sorted
  twice := h.twice
  phase := by
    have hPhase := h.phase
    cases hCase : feed.phase with
    | reading =>
        rw [hCase] at hPhase
        exact ⟨hPhase.1, fun place hPlace => goes_append (hPhase.2 place hPlace) value⟩
    | offering place =>
        rw [hCase] at hPhase
        obtain ⟨hAwake, hGoes, hSeen, hBound⟩ := hPhase
        refine ⟨hAwake, fun place hPlace => goes_append (hGoes place hPlace) value, hSeen, ?_⟩
        simp only [List.length_append, List.length_singleton]
        omega
    | sleeping =>
        rw [hCase] at hPhase
        exact ⟨hPhase.1, fun place hPlace => goes_append (hPhase.2 place hPlace) value⟩
    | ended =>
        rw [hCase] at hPhase
        obtain ⟨before, place, hPlaces, hStops, hGoes⟩ := hPhase
        exact ⟨before, place, hPlaces, stops_append hStops value,
          fun earlier hEarlier => goes_append (hGoes earlier hEarlier) value⟩
    | stopped =>
        rw [hCase] at hPhase
        exact fun place hPlace => goes_append (hPhase place hPlace) value

/-- What is passed on comes after all that was. -/
theorem Awake.sorted_snoc (h : feed.Awake) (hSorted : feed.places.Pairwise (· ≤ ·)) {place : Nat}
    (hPlace : feed.seen ≤ place + 1) : (feed.places ++ [place]).Pairwise (· ≤ ·) := by
  refine List.pairwise_append.mpr ⟨hSorted, List.pairwise_singleton _ _, ?_⟩
  intro earlier hEarlier last hLast
  have hBefore := h.1 earlier hEarlier
  rw [List.mem_singleton.mp hLast]
  omega

theorem Awake.count_le (h : feed.Awake) {place : Nat} (hPlace : feed.seen ≤ place + 1) :
    feed.places.count place ≤ 1 := by
  by_cases hSame : place = feed.seen - 1
  · rw [hSame]
    exact h.2
  · rw [List.count_eq_zero.mpr]
    · exact Nat.zero_le _
    · intro hMem
      have := h.1 place hMem
      omega

theorem Awake.caught (h : feed.Awake) {place : Nat} (hPlace : feed.seen ≤ place + 1) (flag : Bool) :
    (feed.passed place flag).Caught := by
  refine ⟨?_, by simp [passed], fun other hOther => ?_⟩
  · intro last hLast
    simp only [passed, List.getLast?_concat, Option.mem_def, Option.some.injEq] at hLast
    subst hLast
    exact hPlace
  · have hZero : feed.places.count other = 0 := by
      refine List.count_eq_zero.mpr fun hMem => ?_
      have := h.1 other hMem
      simp only [passed] at hOther
      omega
    simp only [passed, List.count_append, hZero, List.count_singleton]
    split <;> omega

/-- A feed that has caught up may wake again. -/
theorem Caught.awake (h : feed.Caught) {count : Nat}
    (hInside : ∀ place ∈ feed.places, place < count) (hMore : feed.seen < count) :
    Awake { feed with phase := .reading, seen := count } :=
  ⟨hInside, h.2.2 (count - 1) (by omega)⟩

theorem Follows.step {after : Feed} {act : Act} (h : Follows stops since history feed)
    (hStep : feed.step stops history act = some after) : Follows stops since history after := by
  have hPhase := h.phase
  have hSome := h.some_value
  have hSince := h.since_seen
  have hSeen := h.seen_length
  cases act with
  | read =>
      simp only [Feed.step] at hStep
      split at hStep <;> cases hStep
      next hReading =>
        rw [hReading] at hPhase
        have hPlace : feed.seen ≤ history.length - 1 + 1 := by omega
        have hBound : history.length - 1 < history.length := by omega
        exact ⟨hSome, hSince, hSeen, h.inside, h.sorted, h.twice, hPhase.1, hPhase.2, hPlace, hBound⟩
  | pass =>
      simp only [Feed.step] at hStep
      split at hStep
      next place hOffering =>
        rw [hOffering] at hPhase
        obtain ⟨hAwake, hGoes, hPlace, hBound⟩ := hPhase
        split at hStep <;> cases hStep
        next value hValue =>
          refine ⟨hSome, hSince, hSeen, ?_, hAwake.sorted_snoc h.sorted hPlace, ?_, ?_⟩
          · intro other hOther
            rcases List.mem_append.mp hOther with hOther | hOther
            · exact h.inside other hOther
            · rw [List.mem_singleton.mp hOther]
              exact ⟨by omega, hBound⟩
          · intro other
            simp only [passed, List.count_append, List.count_singleton]
            by_cases hSame : place = other
            · have := hAwake.count_le hPlace
              simp only [← hSame, beq_self_eq_true, if_true]
              omega
            · simp only [beq_iff_eq, hSame, if_false]
              exact h.twice other
          · have hCaught := hAwake.caught hPlace (stops value)
            cases hStops : stops value with
            | true => exact ⟨feed.places, place, rfl, ⟨value, hValue, hStops⟩, hGoes⟩
            | false =>
                rw [hStops] at hCaught
                refine ⟨hCaught, fun other hOther => ?_⟩
                rcases List.mem_append.mp hOther with hOther | hOther
                · exact hGoes other hOther
                · rw [List.mem_singleton.mp hOther]
                  exact ⟨value, hValue, hStops⟩
      · cases hStep
  | leave =>
      simp only [Feed.step] at hStep
      split at hStep <;> cases hStep
      next place hOffering =>
        rw [hOffering] at hPhase
        exact ⟨hSome, hSince, hSeen, h.inside, h.sorted, h.twice, hPhase.2.1⟩
  | wake =>
      simp only [Feed.step] at hStep
      split at hStep
      next hSleeping =>
        rw [hSleeping] at hPhase
        split at hStep <;> cases hStep
        next hMore =>
          refine ⟨hSome, Nat.le_trans hSince hSeen, Nat.le_refl _, h.inside, h.sorted, h.twice, ?_,
            hPhase.2⟩
          exact hPhase.1.awake (fun place hPlace => (h.inside place hPlace).2) (by omega)
      · cases hStep
  | close =>
      simp only [Feed.step] at hStep
      split at hStep
      next hSleeping =>
        rw [hSleeping] at hPhase
        split at hStep <;> cases hStep
        exact ⟨hSome, hSince, hSeen, h.inside, h.sorted, h.twice, hPhase.2⟩
      · cases hStep

/-- A feed that sleeps has passed on a value as late as the one it woke on; if
none came since, that is the last. -/
theorem Follows.sleeps_on_last (h : Follows stops since history feed)
    (hSleeping : feed.phase = .sleeping) (hSeen : feed.seen = history.length) :
    feed.places.getLast? = some (history.length - 1) := by
  have hPhase := h.phase
  rw [hSleeping] at hPhase
  obtain ⟨⟨hLast, hSome, _⟩, _⟩ := hPhase
  have hMem := List.getLast_mem hSome
  have hPlace := hLast _ (List.getLast?_eq_some_getLast hSome)
  have hBound := (h.inside _ hMem).2
  rw [List.getLast?_eq_some_getLast hSome]
  congr 1
  omega

/-- A feed goes to sleep on a value that does not end it only, so it wakes for
one that does. -/
theorem Follows.wakes (h : Follows stops since history feed) (hSleeping : feed.phase = .sleeping)
    (hStops : Stops stops history (history.length - 1)) :
    (feed.step stops history .wake).isSome = true := by
  have hPhase := h.phase
  rw [hSleeping] at hPhase
  have hNot : feed.seen ≠ history.length := by
    intro hSeen
    have hLast := List.mem_of_getLast? (h.sleeps_on_last hSleeping hSeen)
    obtain ⟨value, hValue, hGoes⟩ := hPhase.2 _ hLast
    obtain ⟨last, hSame, hStop⟩ := hStops
    rw [hValue] at hSame
    cases hSame
    rw [hGoes] at hStop
    cases hStop
  simp [Feed.step, hSleeping, hNot]

/-- Until a feed ends it passed on no value that ends it, and then that value
last. -/
theorem Follows.values_eq (h : Follows stops since history feed) :
    (feed.phase ≠ .ended → ∀ value ∈ feed.values history, stops value = false) ∧
      (feed.phase = .ended → ∃ before last, feed.values history = before ++ [last] ∧
        stops last = true ∧ ∀ value ∈ before, stops value = false) := by
  have hGone : ∀ places : List Nat, (∀ place ∈ places, Goes stops history place) →
      ∀ value ∈ places.filterMap (history[·]?), stops value = false := by
    intro places hGoes value hValue
    obtain ⟨place, hPlace, hRead⟩ := List.mem_filterMap.mp hValue
    obtain ⟨same, hSame, hStop⟩ := hGoes place hPlace
    rw [hRead] at hSame
    cases hSame
    exact hStop
  have hPhase := h.phase
  constructor
  · intro hNot
    cases hCase : feed.phase with
    | reading =>
        rw [hCase] at hPhase
        exact hGone _ hPhase.2
    | offering place =>
        rw [hCase] at hPhase
        exact hGone _ hPhase.2.1
    | sleeping =>
        rw [hCase] at hPhase
        exact hGone _ hPhase.2
    | ended => exact absurd hCase hNot
    | stopped =>
        rw [hCase] at hPhase
        exact hGone _ hPhase
  · intro hEnded
    rw [hEnded] at hPhase
    obtain ⟨before, place, hPlaces, ⟨last, hLast, hStop⟩, hGoes⟩ := hPhase
    refine ⟨before.filterMap (history[·]?), last, ?_, hStop, hGone before hGoes⟩
    simp [values, hPlaces, hLast]

end Feed

end Watch
