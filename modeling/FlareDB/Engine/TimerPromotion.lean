import FlareDB.Engine.Scheduler
import FlareDB.Engine.Watermark.Graph

/-! The race between the promotion of due event-time timers and the bundles in
flight that set and clear them. A promotion reads the timers, and then deletes
the due ones by identity and queues them for delivery; a flush of a running
bundle may land between the two. -/
namespace FlareDB

open KeyedStore

/-- The timer store and a promotion in progress over it. `selected` holds what
the promotion has read as due and not yet deleted. The last two fields record
the last write of each identity and what has been delivered for it since. -/
structure TimerRun where
  scheduler : NodeScheduler
  store : TimerStore
  selected : List (StageId × List TimerEntry)
  pendingTimers : Store StageId (List TimerEntry)
  lastWrite : StorageKey → Option TimerEntry
  delivered : StorageKey → List TimerEntry

/-- The steps that interleave: the two halves of a promotion, a flush of a
running bundle, a bundle taking its timers, and any other scheduling. -/
inductive TimerAction where
  | read
  | delete
  | write (timers : List TimerOutput)
  | take (stage : StageId)
  | schedule (watermarks : WatermarkManager)

namespace TimerRun

def start (scheduler : NodeScheduler) : TimerRun where
  scheduler := scheduler
  store := ∅
  selected := []
  pendingTimers := ∅
  lastWrite _ := none
  delivered _ := []

/-- One step. A promotion reads only when the previous one has deleted all it
selected. -/
def step (run : TimerRun) : TimerAction → Option TimerRun
  | .read =>
      if run.selected.isEmpty then
        if run.store.allEventTimeTimers.isEmpty then some run
        else
          let promoted := run.scheduler.promoteDueEventTimeTimers run.store.allEventTimeTimers
          some { run with scheduler := promoted.1, selected := promoted.2 }
      else none
  | .delete =>
      match run.selected with
      | [] => none
      | (stage, timers) :: rest =>
          some { run with
            store := run.store.deleteAll timers
            selected := rest
            pendingTimers := queueTimers run.pendingTimers stage timers
            delivered := fun key => run.delivered key ++
              timers.filter fun entry => decide (entry.key.storageKey = key) }
  | .write timers =>
      some { run with
        store := flushTimers run.store timers
        lastWrite := fun key => ((timerWrites timers).lookup key).getD (run.lastWrite key)
        delivered := fun key =>
          if ((timerWrites timers).lookup key).isSome then [] else run.delivered key }
  | .take stage => some { run with pendingTimers := run.pendingTimers.erase stage }
  | .schedule watermarks =>
      some { run with scheduler := { run.scheduler with watermarks := watermarks } }

/-- No flush rewrites a timer that a promotion has read and not yet deleted,
except with the very entry that was read. -/
def Undisturbed (run : TimerRun) : TimerAction → Prop
  | .write timers => ∀ entry ∈ run.selected.flatMap fun group => group.2, ∀ write,
      (timerWrites timers).lookup entry.key.storageKey = some write → write = some entry
  | _ => True

/-- No timer is lost: an identity whose last write set an entry has that entry
stored or delivered, and one whose last write cleared it has had nothing
delivered since. -/
def TimersKept (run : TimerRun) : Prop :=
  ∀ key,
    (∀ entry, run.lastWrite key = some entry →
      run.store.lookup key = some entry ∨ entry ∈ run.delivered key) ∧
    (run.lastWrite key = none → run.delivered key = [])

/-- What holds along an undisturbed run: the store holds last writes only, and
what a promotion has selected is still stored. -/
structure Consistent (run : TimerRun) : Prop where
  keyed : WellKeyed run.store
  stored : ∀ key entry, run.store.lookup key = some entry → run.lastWrite key = some entry
  selected : ∀ entry ∈ run.selected.flatMap fun group => group.2,
    run.store.lookup entry.key.storageKey = some entry
  distinct : ((run.selected.flatMap fun group => group.2).map
    fun entry => entry.key.storageKey).Nodup
  kept : run.TimersKept

theorem keys_timers {store : TimerStore} (h : WellKeyed store) :
    (store.timers.map fun entry => entry.key.storageKey) = store.keys := by
  rw [TimerStore.timers, List.map_map, AList.keys, List.keys]
  refine List.map_congr_left fun entry hEntry => ?_
  exact h entry.1 entry.2 (AList.mem_lookup_iff.mpr hEntry)

theorem lookup_of_mem_timers {store : TimerStore} (h : WellKeyed store) {entry : TimerEntry}
    (hEntry : entry ∈ store.timers) : store.lookup entry.key.storageKey = some entry := by
  obtain ⟨stored, hStored, rfl⟩ := List.mem_map.mp hEntry
  have hLookup := AList.mem_lookup_iff.mpr hStored
  rw [h stored.1 stored.2 hLookup]
  exact hLookup

theorem Consistent.start (scheduler : NodeScheduler) : (start scheduler).Consistent where
  keyed := forall_empty _
  stored := by simp [TimerRun.start]
  selected := by simp [TimerRun.start]
  distinct := by simp [TimerRun.start]
  kept := by simp [TimersKept, TimerRun.start]

theorem Consistent.read {run : TimerRun} (h : run.Consistent) :
    ({ run with
      scheduler := (run.scheduler.promoteDueEventTimeTimers run.store.allEventTimeTimers).1
      selected := (run.scheduler.promoteDueEventTimeTimers
        run.store.allEventTimeTimers).2 } : TimerRun).Consistent := by
  obtain ⟨due, hSub, hPerm⟩ := run.scheduler.promote_groups
    (fun manager stage entry => decide (entry.domain = .eventTime) &&
      entry.isDueAtWatermark ((manager.effectiveInputWatermark stage).getD minTimestamp))
    run.store.allEventTimeTimers
  have hTimers : List.Sublist due run.store.timers := hSub.trans List.filter_sublist
  refine ⟨h.keyed, h.stored, fun entry hEntry => ?_, ?_, h.kept⟩
  · exact lookup_of_mem_timers h.keyed (hTimers.subset (hPerm.mem_iff.mp hEntry))
  · refine (hPerm.map _).nodup_iff.mpr (List.Nodup.sublist (hTimers.map _) ?_)
    rw [keys_timers h.keyed]
    exact AList.keys_nodup _

theorem Consistent.delete {run : TimerRun} (h : run.Consistent) {stage : StageId}
    {timers : List TimerEntry} {rest : List (StageId × List TimerEntry)}
    (hSelected : run.selected = (stage, timers) :: rest) :
    ({ run with
      store := run.store.deleteAll timers
      selected := rest
      pendingTimers := queueTimers run.pendingTimers stage timers
      delivered := fun key => run.delivered key ++
        timers.filter fun entry => decide (entry.key.storageKey = key) } : TimerRun).Consistent := by
  have hAll := h.selected
  have hDistinct := h.distinct
  rw [hSelected, List.flatMap_cons] at hAll hDistinct
  rw [List.map_append, List.nodup_append] at hDistinct
  refine ⟨h.keyed.deleteAll timers, ?_, ?_, hDistinct.2.1, ?_⟩
  · intro key entry hEntry
    rw [lookup_deleteAll] at hEntry
    split at hEntry
    · cases hEntry
    · exact h.stored key entry hEntry
  · intro entry hEntry
    have hKey := List.mem_map_of_mem (f := fun entry => entry.key.storageKey) hEntry
    rw [lookup_deleteAll, if_neg]
    · exact hAll entry (List.mem_append_right _ hEntry)
    · exact fun hDeleted => hDistinct.2.2 _ hDeleted _ hKey rfl
  · intro key
    obtain ⟨hSet, hClear⟩ := h.kept key
    by_cases hDeleted : key ∈ timers.map fun entry => entry.key.storageKey
    · -- What is deleted here is what was read, and that is the last write.
      obtain ⟨read, hRead, rfl⟩ := List.mem_map.mp hDeleted
      have hLast := h.stored _ _ (hAll read (List.mem_append_left _ hRead))
      refine ⟨fun entry hEntry => Or.inr ?_, fun hNone => ?_⟩
      · rw [hLast] at hEntry
        cases hEntry
        exact List.mem_append_right _ (List.mem_filter.mpr ⟨hRead, by simp⟩)
      · rw [hLast] at hNone
        cases hNone
    · have hNothing : (timers.filter fun entry => decide (entry.key.storageKey = key)) = [] := by
        rw [List.filter_eq_nil_iff]
        intro entry hEntry hKey
        exact hDeleted (List.mem_map.mpr ⟨entry, hEntry, by simpa using hKey⟩)
      refine ⟨fun entry hEntry => ?_, fun hNone => ?_⟩
      · simp only [lookup_deleteAll, if_neg hDeleted, hNothing, List.append_nil]
        exact hSet entry hEntry
      · simp only [hNothing, List.append_nil]
        exact hClear hNone

theorem Consistent.write {run : TimerRun} (h : run.Consistent) {timers : List TimerOutput}
    (hUndisturbed : run.Undisturbed (.write timers)) :
    ({ run with
      store := flushTimers run.store timers
      lastWrite := fun key => ((timerWrites timers).lookup key).getD (run.lastWrite key)
      delivered := fun key =>
        if ((timerWrites timers).lookup key).isSome then [] else run.delivered key } :
      TimerRun).Consistent := by
  refine ⟨h.keyed.flushTimers timers, ?_, ?_, h.distinct, ?_⟩
  · intro key entry hEntry
    rw [lookup_flushTimers] at hEntry
    cases hWrite : (timerWrites timers).lookup key with
    | none =>
        rw [hWrite] at hEntry
        simpa [hWrite] using h.stored key entry hEntry
    | some write =>
        rw [hWrite] at hEntry
        simpa [hWrite] using hEntry
  · intro entry hEntry
    rw [lookup_flushTimers]
    cases hWrite : (timerWrites timers).lookup entry.key.storageKey with
    | none => exact h.selected entry hEntry
    | some write =>
        rw [Option.getD_some]
        exact hUndisturbed entry hEntry write hWrite
  · intro key
    simp only [lookup_flushTimers]
    cases hWrite : (timerWrites timers).lookup key with
    | none => simpa [hWrite] using h.kept key
    | some write => simp

theorem Consistent.step {run after : TimerRun} {action : TimerAction} (h : run.Consistent)
    (hUndisturbed : run.Undisturbed action) (hStep : run.step action = some after) :
    after.Consistent := by
  cases action with
  | read =>
      simp only [TimerRun.step] at hStep
      split at hStep
      · split at hStep
        · cases hStep
          exact h
        · cases hStep
          exact h.read
      · cases hStep
  | delete =>
      simp only [TimerRun.step] at hStep
      split at hStep
      · cases hStep
      next stage timers rest hSelected =>
        cases hStep
        exact h.delete hSelected
  | write timers =>
      cases hStep
      exact h.write hUndisturbed
  | take stage =>
      cases hStep
      exact ⟨h.keyed, h.stored, h.selected, h.distinct, h.kept⟩
  | schedule watermarks =>
      cases hStep
      exact ⟨h.keyed, h.stored, h.selected, h.distinct, h.kept⟩

/-- In every interleaving in which no flush rewrites a timer between the read
that selected it and its deletion, no timer is lost. -/
theorem timersKept_of_undisturbed {scheduler : NodeScheduler} {run : TimerRun}
    (hRun : Runs.Reaches step Undisturbed (start scheduler) run) : run.TimersKept :=
  (hRun.invariant (fun _ _ _ hUndisturbed hStep hBefore => hBefore.step hUndisturbed hStep)
    (Consistent.start scheduler)).kept

/-- What a promotion that runs to its end does: everything selected is deleted
and delivered. -/
theorem play_deletes (run : TimerRun) :
    ∃ after, Runs.play step run (List.replicate run.selected.length .delete) = some after ∧
      after.selected = [] ∧ after.lastWrite = run.lastWrite ∧
      ∀ key, after.delivered key = run.delivered key ++
          ((run.selected.flatMap fun group => group.2).filter
            fun entry => decide (entry.key.storageKey = key)) ∧
        after.store.lookup key =
          if key ∈ (run.selected.flatMap fun group => group.2).map
            fun entry => entry.key.storageKey then none else run.store.lookup key := by
  induction hSelected : run.selected generalizing run with
  | nil => exact ⟨run, rfl, hSelected, rfl, by simp⟩
  | cons group rest ih =>
      obtain ⟨stage, timers⟩ := group
      let next : TimerRun := { run with
        store := run.store.deleteAll timers
        selected := rest
        pendingTimers := queueTimers run.pendingTimers stage timers
        delivered := fun key => run.delivered key ++
          timers.filter fun entry => decide (entry.key.storageKey = key) }
      have hNext : run.step .delete = some next := by
        simp [TimerRun.step, hSelected, next]
      obtain ⟨after, hPlay, hEmpty, hLast, hAfter⟩ := ih next rfl
      refine ⟨after, ?_, hEmpty, hLast, fun key => ?_⟩
      · rw [List.length_cons, List.replicate_succ, Runs.play, hNext]
        exact hPlay
      · obtain ⟨hDelivered, hStore⟩ := hAfter key
        rw [hDelivered, hStore, List.flatMap_cons]
        simp only [next, lookup_deleteAll, List.filter_append, List.append_assoc, List.map_append,
          List.mem_append]
        refine ⟨trivial, ?_⟩
        by_cases hRest : key ∈ (rest.flatMap fun group => group.2).map
            fun entry => entry.key.storageKey
        · simp only [hRest, or_true, if_true]
        · simp only [hRest, or_false, if_false]

/-- The condition is exact: a flush that does rewrite a selected timer loses it
once the promotion has run to its end. -/
theorem not_timersKept_of_disturbed {run : TimerRun} (h : run.Consistent)
    {timers : List TimerOutput} (hDisturbed : ¬run.Undisturbed (.write timers)) :
    ∃ after, Runs.play step run
        (.write timers :: List.replicate run.selected.length .delete) = some after ∧
      after.selected = [] ∧ ¬after.TimersKept := by
  simp only [Undisturbed, not_forall] at hDisturbed
  obtain ⟨read, hRead, write, hWrite, hOther⟩ := hDisturbed
  let next : TimerRun := { run with
    store := flushTimers run.store timers
    lastWrite := fun key => ((timerWrites timers).lookup key).getD (run.lastWrite key)
    delivered := fun key =>
      if ((timerWrites timers).lookup key).isSome then [] else run.delivered key }
  obtain ⟨after, hPlay, hEmpty, hLast, hAfter⟩ := play_deletes next
  obtain ⟨hDelivered, hStore⟩ := hAfter read.key.storageKey
  refine ⟨after, hPlay, hEmpty, fun hKept => ?_⟩
  have hLastWrite : after.lastWrite read.key.storageKey = write := by
    rw [hLast]
    simp [next, hWrite]
  have hGone : after.store.lookup read.key.storageKey = none := by
    rw [hStore, if_pos (List.mem_map.mpr ⟨read, hRead, rfl⟩)]
  have hOnly : ∀ entry, entry ∈ after.delivered read.key.storageKey ↔ entry = read := by
    intro entry
    rw [hDelivered]
    simp only [next, hWrite, Option.isSome_some, if_true, List.nil_append, List.mem_filter,
      decide_eq_true_eq]
    refine ⟨fun ⟨hEntry, hKey⟩ => List.inj_on_of_nodup_map h.distinct hEntry hRead hKey, ?_⟩
    rintro rfl
    exact ⟨hRead, rfl⟩
  obtain ⟨hSet, hClear⟩ := hKept read.key.storageKey
  cases hValue : write with
  | none =>
      have hNothing := hClear (hLastWrite.trans hValue)
      have hMem := (hOnly read).mpr rfl
      rw [hNothing] at hMem
      cases hMem
  | some entry =>
      rcases hSet entry (hLastWrite.trans hValue) with hFound | hFound
      · rw [hGone] at hFound
        cases hFound
      · exact hOther (by rw [hValue, (hOnly entry).mp hFound])

/-- A bounded source has finished, and the stage that owns the timers runs its
first bundle over its rows. -/
def workRunning : NodeScheduler where
  watermarks := (Runs.play WatermarkManager.step
    (WatermarkManager.build [readStage, workStage .ordinary minTimestamp 1])
    [.startBundle "read", .reportSourceFinished "read", .completeBundle "read" none (some 1),
      .refresh, .startBundle "work"]).getD WatermarkManager.new
  nodes := ofPairs [("read", .runner), ("work", .worker)]
  transformToStage := ofPairs [("count", "work")]

theorem timersKept_of_undisturbed_delivery :
    let run := (Runs.play step (start workRunning)
      [.write [⟨alarm 10, false⟩], .read, .delete]).getD (start workRunning)
    run.delivered (alarm 10).key.storageKey = [alarm 10] ∧ run.TimersKept := by
  refine ⟨by decide +kernel, ?_⟩
  have hWrite : Runs.Reaches step Undisturbed (start workRunning)
      (((start workRunning).step (.write [⟨alarm 10, false⟩])).getD (start workRunning)) :=
    Runs.Reaches.snoc_getD (Runs.Reaches.refl _) (TimerAction.write [⟨alarm 10, false⟩])
      (by simp [Undisturbed, start]) (by decide +kernel) _
  have hRead := hWrite.snoc_getD TimerAction.read trivial (by decide +kernel) (start workRunning)
  exact timersKept_of_undisturbed
    (hRead.snoc_getD TimerAction.delete trivial (by decide +kernel) (start workRunning))

/-- A timer can be lost: the bundle sets it to 20 after the promotion has read
it at 10, and the deletion by identity removes the new one. -/
theorem not_timersKept_reset :
    ¬∀ scheduler run, Runs.Reaches step (fun _ _ => True) (start scheduler) run →
      run.selected = [] → run.TimersKept := by
  intro h
  let lost := (Runs.play step (start workRunning) [.write [⟨alarm 10, false⟩], .read,
    .write [⟨alarm 20, false⟩], .delete]).getD (start workRunning)
  have hLast : lost.lastWrite (alarm 10).key.storageKey = some (alarm 20) := by decide +kernel
  have hStored : lost.store.lookup (alarm 10).key.storageKey = none := by decide +kernel
  have hDelivered : alarm 20 ∉ lost.delivered (alarm 10).key.storageKey := by decide +kernel
  have hKept := h workRunning lost
    (Runs.reaches_getD_play (fun _ _ => trivial) (by decide +kernel) (start workRunning))
    (List.isEmpty_iff.mp (by decide +kernel))
  rcases (hKept (alarm 10).key.storageKey).1 _ hLast with hFound | hFound
  · rw [hStored] at hFound
    cases hFound
  · exact hDelivered hFound

/-- A cleared timer can still be delivered: the bundle clears it after the
promotion has read it and before the promotion deletes it. -/
theorem not_timersKept_clear :
    ¬∀ scheduler run, Runs.Reaches step (fun _ _ => True) (start scheduler) run →
      ∀ key, run.lastWrite key = none → run.delivered key = [] := by
  intro h
  let fired := (Runs.play step (start workRunning) [.write [⟨alarm 10, false⟩], .read,
    .write [⟨alarm 10, true⟩], .delete]).getD (start workRunning)
  have hLast : fired.lastWrite (alarm 10).key.storageKey = none := by decide +kernel
  have hDelivered : fired.delivered (alarm 10).key.storageKey = [alarm 10] := by decide +kernel
  have hNothing := h workRunning fired
    (Runs.reaches_getD_play (fun _ _ => trivial) (by decide +kernel) (start workRunning))
    (alarm 10).key.storageKey hLast
  rw [hDelivered] at hNothing
  cases hNothing

end TimerRun

end FlareDB
