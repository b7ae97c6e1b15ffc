import FlareDB.Engine.DispatcherInput

/-! The input of a splittable stage. Its first bundle runs the initialization
stages over the input; every later bundle processes a queued work item or an
empty seed. So the stage sees its input exactly when its producers are done with
it before that first bundle starts. -/
namespace FlareDB

open KeyedStore

namespace InputRun

open Dispatcher WatermarkManager StageState

/-- A stage none of whose bundles has started. -/
def Fresh (stage : StageState) : Prop :=
  stage.inFlight = 0 ∧ stage.completed = false

instance (stage : StageState) : Decidable (Fresh stage) :=
  inferInstanceAs (Decidable (_ ∧ _))

/-- No producer of a stage's main input completes once a bundle of the stage has
started. -/
def FedBeforeStart (id : StageId) (run : InputRun) : DispatchAction → Prop
  | .join index _ => ∀ bundle ∈ run.dispatcher.running[index]?,
      writesTo run.dispatcher.manager bundle.stage id = true →
        ∀ stage ∈ run.dispatcher.manager.stages.lookup id, Fresh stage
  | _ => True

/-- What holds of a splittable stage along a run: before its first bundle it is
not initialized and unread input is pending; after that everything is read. -/
structure SplittableKept (specs : List StageSpec) (id : StageId) (run : InputRun) : Prop where
  tallied : Tallied specs run.dispatcher
  splittable : run.dispatcher.scheduler.nodes.lookup id = some .splittable
  fresh : ∀ stage, run.dispatcher.manager.stages.lookup id = some stage → Fresh stage →
    stage.timeSortedInputClosed = false ∧ (run.dispatcher.sdfQueue id).initialized = false ∧
      (run.unread id = true → stage.pending ≠ ∅)
  read : ∀ stage, run.dispatcher.manager.stages.lookup id = some stage → ¬Fresh stage →
    run.unread id = false ∧ stage.pending = ∅
  registered : run.unread id = true →
    ∃ stage, run.dispatcher.manager.stages.lookup id = some stage

section Steps

variable {specs : List StageSpec} {id : StageId} {run after : InputRun}

theorem fresh_of_sameInput {old stage : StageState} (h : SameInput old stage) :
    Fresh stage ↔ Fresh old := by
  rw [Fresh, Fresh, h.inFlight, h.completed]

/-- Once started, a stage is not fresh again. -/
theorem not_fresh_started {stage : StageState} {count : Nat}
    (h : ¬Fresh stage ∨ 0 < count) : ¬Fresh (StageState.started^[count] stage) := by
  rintro ⟨hFlight, hCompleted⟩
  have hSame : (StageState.started^[count] stage).completed = stage.completed := by
    rw [(begun_iterate count stage).same]
  rw [Tallied.inFlight_iterate] at hFlight
  rw [hSame] at hCompleted
  rcases h with hOld | hCount
  · exact hOld ⟨by omega, hCompleted⟩
  · omega

theorem SplittableKept.sameInput (h : SplittableKept specs id run)
    (hTallied : Tallied specs after.dispatcher)
    (hNodes : after.dispatcher.scheduler.nodes = run.dispatcher.scheduler.nodes)
    (hUnread : after.unread = run.unread)
    (hSame : Touches SameInput run.dispatcher.manager after.dispatcher.manager)
    (hInitialized : ∀ stage, run.dispatcher.manager.stages.lookup id = some stage → Fresh stage →
      (after.dispatcher.sdfQueue id).initialized =
        (run.dispatcher.sdfQueue id).initialized) : SplittableKept specs id after where
  tallied := hTallied
  splittable := by
    rw [hNodes]
    exact h.splittable
  fresh stage hStage hFresh := by
    obtain ⟨old, hOld, hInput⟩ := hSame.exists_before hStage
    rw [fresh_of_sameInput hInput] at hFresh
    rw [hInput.closed, hInput.pending, hUnread, hInitialized old hOld hFresh]
    exact h.fresh old hOld hFresh
  read stage hStage hStarted := by
    obtain ⟨old, hOld, hInput⟩ := hSame.exists_before hStage
    rw [fresh_of_sameInput hInput] at hStarted
    rw [hInput.pending, hUnread]
    exact h.read old hOld hStarted
  registered hAfter := by
    rw [hUnread] at hAfter
    obtain ⟨old, hOld⟩ := h.registered hAfter
    obtain ⟨stage, hStage, _⟩ := hSame.exists_after hOld
    exact ⟨stage, hStage⟩

/-- Every bundle that a turn hands out of a stage that is not initialized runs
the initialization stages over its input. -/
theorem readsInput_of_not_initialized (h : SplittableKept specs id run) {next : Dispatcher}
    (hNext : run.dispatcher.schedule = .ok next)
    (hQueue : (run.dispatcher.sdfQueue id).initialized = false) {bundle : RunningBundle}
    (hBundle : bundle ∈ run.dispatcher.handedOut next) (hStage : bundle.stage = id) :
    bundle.kind = .splittable ∧ bundle.initialized = false ∧ bundle.readsInput = true := by
  obtain ⟨_, _, hHanded⟩ := schedule_handedOut hNext
  have hKeeps := run.dispatcher.prepare_spec.1.trans run.dispatcher.keeps_launched
  have hKind : bundle.kind = .splittable := by
    rw [hHanded.kind bundle hBundle, hKeeps.nodes, hStage, h.splittable]
    rfl
  have hSeeded : bundle.initialized = false := by
    rw [hHanded.seeded bundle hBundle hKind, hStage, sdfQueue, hKeeps.sdfQueues]
    exact hQueue
  exact ⟨hKind, hSeeded, by simp [RunningBundle.readsInput, hKind, hSeeded]⟩

theorem SplittableKept.schedule (h : SplittableKept specs id run)
    (hNext : run.dispatcher.schedule = .ok after.dispatcher)
    (hUnread : after.unread id = true → run.unread id = true ∧
      ∀ bundle ∈ run.dispatcher.handedOut after.dispatcher, bundle.stage = id →
        bundle.readsInput = false) : SplittableKept specs id after := by
  obtain ⟨hStages, _, hHanded⟩ := schedule_handedOut hNext
  obtain ⟨f, hSame, hRewrites⟩ := schedule_rewrites hNext
  have hKeeps := run.dispatcher.prepare_spec.1.trans run.dispatcher.keeps_launched
  have hQueue : (after.dispatcher.sdfQueue id).initialized =
      (run.dispatcher.sdfQueue id).initialized := by
    rw [hHanded.initialized, sdfQueue, hKeeps.sdfQueues, sdfQueue]
  refine ⟨h.tallied.schedule hNext, ?_, ?_, ?_, ?_⟩
  · rw [hHanded.scheduler, hKeeps.nodes]
    exact h.splittable
  · intro stage hStage hFresh
    obtain ⟨old, hOld, hStarted⟩ := hRewrites.exists_before hStage
    have hCount : run.dispatcher.chosen.count id = 0 := by
      by_contra hHandedOut
      rw [hStarted] at hFresh
      exact not_fresh_started (Or.inr (Nat.pos_of_ne_zero hHandedOut)) hFresh
    rw [hCount, Function.iterate_zero_apply] at hStarted
    rw [hStarted] at hFresh ⊢
    rw [fresh_of_sameInput (hSame id old)] at hFresh
    rw [(hSame id old).closed, (hSame id old).pending, hQueue]
    obtain ⟨hClosed, hInitialized, hPending⟩ := h.fresh old hOld hFresh
    exact ⟨hClosed, hInitialized, fun hAfter => hPending (hUnread hAfter).1⟩
  · intro stage hStage hNotFresh
    obtain ⟨old, hOld, hStarted⟩ := hRewrites.exists_before hStage
    by_cases hFresh : Fresh old
    · -- The stage starts its first bundle, which initializes over everything pending.
      obtain ⟨_, hInitialized, _⟩ := h.fresh old hOld hFresh
      have hCount : 0 < run.dispatcher.chosen.count id := by
        by_contra hNone
        rw [Nat.eq_zero_of_not_pos hNone, Function.iterate_zero_apply] at hStarted
        rw [hStarted, fresh_of_sameInput (hSame id old)] at hNotFresh
        exact hNotFresh hFresh
      have hIdle : (f id old).inFlight = 0 := by rw [(hSame id old).inFlight, hFresh.1]
      refine ⟨?_, by rw [hStarted, pending_iterate_of_idle hIdle hCount]⟩
      by_contra hAfter
      rw [Bool.not_eq_false] at hAfter
      have hChosen := List.count_pos_iff.mp hCount
      rw [← hStages] at hChosen
      obtain ⟨bundle, hBundle, hBundleStage⟩ := List.mem_map.mp hChosen
      obtain ⟨_, _, hReads⟩ :=
        readsInput_of_not_initialized h hNext hInitialized hBundle hBundleStage
      rw [(hUnread hAfter).2 bundle hBundle hBundleStage] at hReads
      cases hReads
    · obtain ⟨hRead, hPending⟩ := h.read old hOld hFresh
      refine ⟨?_, ?_⟩
      · by_contra hAfter
        rw [Bool.not_eq_false] at hAfter
        rw [(hUnread hAfter).1] at hRead
        cases hRead
      · have hBefore : (f id old).pending = ∅ := by rw [(hSame id old).pending, hPending]
        rw [hStarted]
        by_cases hIdle : (f id old).inFlight = 0
        · rcases Nat.eq_zero_or_pos (run.dispatcher.chosen.count id) with hNone | hCount
          · rw [hNone]
            exact hBefore
          · exact pending_iterate_of_idle hIdle hCount
        · rw [(begun_iterate _ _).pending_eq (Nat.pos_of_ne_zero hIdle), hBefore]
  · intro hAfter
    obtain ⟨old, hOld⟩ := h.registered (hUnread hAfter).1
    exact ⟨_, hRewrites.lookup_of_before hOld⟩

theorem SplittableKept.join (h : SplittableKept specs id run) {index : Nat}
    {outcome : BundleOutcome} (hFed : run.FedBeforeStart id (.join index outcome))
    (hSplits : ∀ split ∈ outcome.splits,
      ∃ bundle ∈ run.dispatcher.running, bundle.stage = split.1)
    (hNext : run.dispatcher.join index outcome = .ok after.dispatcher)
    (hUnread : after.unread id = true → run.unread id = true ∨
      ∃ bundle, run.dispatcher.running[index]? = some bundle ∧
        writesTo run.dispatcher.manager bundle.stage id = true) :
    SplittableKept specs id after := by
  obtain ⟨bundle, producer, reported, completed, hBundle, _, hJoined⟩ := join_stage h.tallied hNext
  have hRunning := List.mem_of_getElem? hBundle
  have hWrites : after.unread id = true → run.unread id = true ∨
      writesTo run.dispatcher.manager bundle.stage id = true := by
    intro hAfter
    refine (hUnread hAfter).imp_right ?_
    rintro ⟨found, hFound, hWritten⟩
    rw [hBundle] at hFound
    cases hFound
    exact hWritten
  refine ⟨h.tallied.join hNext, ?_, ?_, ?_, ?_⟩
  · rw [hJoined.nodes]
    exact h.splittable
  · intro stage hStage hFresh
    obtain ⟨old, hOld, hDelivered⟩ := hJoined.exists_before h.tallied.shape hStage
    have hOther : id ≠ bundle.stage := by
      rintro rfl
      have hCompleted := hDelivered.completed
      rw [if_pos rfl, hFresh.2] at hCompleted
      cases hCompleted
    have hOldFresh : Fresh old := by
      have hFlight := hDelivered.inFlight
      have hCompleted := hDelivered.completed
      rw [if_neg hOther] at hFlight hCompleted
      exact ⟨hFlight ▸ hFresh.1, hCompleted ▸ hFresh.2⟩
    obtain ⟨hClosed, hInitialized, hPending⟩ := h.fresh old hOld hOldFresh
    refine ⟨hDelivered.closed.trans hClosed, ?_, fun hAfter => ?_⟩
    · -- A split comes from a running bundle, so it is not of a fresh stage.
      have hNew : ∀ split ∈ outcome.splits, split.1 ≠ id := by
        rintro split hSplit rfl
        obtain ⟨source, hSource, hStageId⟩ := hSplits split hSplit
        rw [← hStageId] at hOld
        exact Nat.pos_iff_ne_zero.mp (h.tallied.inFlight_pos hSource hOld) hOldFresh.1
      rw [hJoined.initialized id hOther hNew, hInitialized]
    · rcases hWrites hAfter with hBefore | hWritten
      · obtain ⟨pcollection, hMem⟩ := Finset.nonempty_iff_ne_empty.mpr (hPending hBefore)
        exact Finset.ne_empty_of_mem (hDelivered.pending_subset hMem)
      · obtain ⟨writer, reader, hWriter, hReader, output, hOutput, hRead⟩ :=
          writesTo_iff.mp hWritten
        rw [hJoined.lookup] at hWriter
        cases hWriter
        rw [hOld] at hReader
        cases hReader
        exact hDelivered.pending_of_read output hOutput hRead hClosed
  · intro stage hStage hNotFresh
    obtain ⟨old, hOld, hDelivered⟩ := hJoined.exists_before h.tallied.shape hStage
    have hOldStarted : ¬Fresh old := by
      by_cases hId : id = bundle.stage
      · subst hId
        exact fun hFresh => absurd hFresh.1
          (Nat.pos_iff_ne_zero.mp (h.tallied.inFlight_pos hRunning hOld))
      · have hFlight := hDelivered.inFlight
        have hCompleted := hDelivered.completed
        rw [if_neg hId] at hFlight hCompleted
        exact fun hFresh => hNotFresh ⟨hFlight.trans hFresh.1, hCompleted.trans hFresh.2⟩
    obtain ⟨hRead, hPending⟩ := h.read old hOld hOldStarted
    -- The stage has started, so the joined bundle does not write its input.
    have hNotWritten : ¬writesTo run.dispatcher.manager bundle.stage id = true :=
      fun hWritten => hOldStarted (hFed bundle hBundle hWritten old hOld)
    refine ⟨?_, ?_⟩
    · by_contra hAfter
      rw [Bool.not_eq_false] at hAfter
      rcases hWrites hAfter with hBefore | hWritten
      · rw [hBefore] at hRead
        cases hRead
      · exact hNotWritten hWritten
    · rw [hDelivered.pending_eq fun output hOutput hInput => hNotWritten
        (writesTo_iff.mpr ⟨producer, old, hJoined.lookup, hOld, output, hOutput, hInput⟩), hPending]
  · intro hAfter
    have hOld : ∃ old, run.dispatcher.manager.stages.lookup id = some old := by
      rcases hWrites hAfter with hBefore | hWritten
      · exact h.registered hBefore
      · obtain ⟨_, reader, _, hReader, _⟩ := writesTo_iff.mp hWritten
        exact ⟨reader, hReader⟩
    obtain ⟨old, hOld⟩ := hOld
    obtain ⟨stage, hStage, _⟩ := hJoined.exists_after h.tallied.shape hOld
    exact ⟨stage, hStage⟩

theorem SplittableKept.step (h : SplittableKept specs id run) {action : DispatchAction}
    (hFed : run.FedBeforeStart id action) (hStep : run.step action = some after) :
    SplittableKept specs id after := by
  have hTallied := h.tallied.step (dispatcher_step hStep)
  rcases step_cases hStep with ⟨rfl, hNext, hUnread⟩ |
    ⟨index, outcome, rfl, hSplits, hNext, hUnread⟩ | ⟨other, item, rfl, hRunning, hNext, hUnread⟩ |
    ⟨reports, now, rfl, hNext, hUnread⟩
  · exact h.schedule hNext (hUnread id)
  · exact h.join hFed hSplits hNext (hUnread id)
  · have hQueues := enqueueSdfItems_ok hNext
    refine h.sameInput hTallied hQueues.nodes hUnread hQueues.sameInput
      fun stage hStage hFresh => hQueues.initialized id ?_
    -- A split comes from a running bundle, so its stage is not fresh.
    rintro rfl
    obtain ⟨bundle, hBundle, rfl⟩ := hRunning
    exact Nat.pos_iff_ne_zero.mp (h.tallied.inFlight_pos hBundle hStage) hFresh.1
  · have hKeeps := (idle_ok hNext).1
    refine h.sameInput hTallied hKeeps.nodes hUnread (sameInput_idle hNext) fun _ _ _ => ?_
    rw [sdfQueue, hKeeps.sdfQueues, sdfQueue]

theorem splittableKept_start (hDistinct : (specs.map StageSpec.id).Nodup)
    {nodes : Store StageId NodeKind} (hSplittable : nodes.lookup id = some .splittable)
    (transformToStage : Store String StageId) :
    SplittableKept specs id (start ⟨build specs, nodes, transformToStage⟩) where
  tallied := Tallied.start hDistinct nodes transformToStage
  splittable := hSplittable
  fresh stage hStage _ := by
    obtain ⟨spec, _, _, rfl⟩ := lookup_build specs hStage
    exact ⟨rfl, rfl, fun hUnread => by cases hUnread⟩
  read stage hStage hStarted := by
    obtain ⟨spec, _, _, rfl⟩ := lookup_build specs hStage
    exact absurd ⟨rfl, rfl⟩ hStarted
  registered hUnread := by cases hUnread

end Steps

/-- In every run in which the producers of a splittable stage are done before its
first bundle starts, a bundle that takes pending input runs the initialization
stages over it, and input that no initialization has covered is pending at a
stage that is still to be initialized. -/
theorem readsInput_of_fedBeforeStart {specs : List StageSpec}
    (hDistinct : (specs.map StageSpec.id).Nodup) {nodes : Store StageId NodeKind}
    {transformToStage : Store String StageId} {id : StageId}
    (hSplittable : nodes.lookup id = some .splittable) {run : InputRun}
    (hRun : Runs.Reaches step (FedBeforeStart id)
      (start ⟨build specs, nodes, transformToStage⟩) run) :
    (∀ next, run.dispatcher.schedule = .ok next →
      ∀ stage, run.dispatcher.manager.stages.lookup id = some stage → stage.inFlight = 0 →
        stage.pending ≠ ∅ → ∀ bundle ∈ run.dispatcher.handedOut next, bundle.stage = id →
          bundle.kind = .splittable ∧ bundle.initialized = false ∧ bundle.readsInput = true) ∧
      (run.unread id = true → ∃ stage,
        run.dispatcher.manager.stages.lookup id = some stage ∧ stage.pending ≠ ∅ ∧
          (run.dispatcher.sdfQueue id).initialized = false) := by
  have hKept : SplittableKept specs id run :=
    hRun.invariant (fun _ _ _ hFed hStep hBefore => hBefore.step hFed hStep)
      (splittableKept_start hDistinct hSplittable transformToStage)
  refine ⟨?_, ?_⟩
  · intro next hNext stage hStage _ hPending bundle hBundle hBundleStage
    have hFresh : Fresh stage := by
      by_contra hStarted
      exact hPending (hKept.read stage hStage hStarted).2
    exact readsInput_of_not_initialized hKept hNext
      (hKept.fresh stage hStage hFresh).2.1 hBundle hBundleStage
  · intro hUnread
    obtain ⟨stage, hStage⟩ := hKept.registered hUnread
    have hFresh : Fresh stage := by
      by_contra hStarted
      rw [(hKept.read stage hStage hStarted).1] at hUnread
      cases hUnread
    obtain ⟨_, hInitialized, hPending⟩ := hKept.fresh stage hStage hFresh
    exact ⟨stage, hStage, hPending hUnread, hInitialized⟩

instance (id : StageId) (run : InputRun) (action : DispatchAction) :
    Decidable (run.FedBeforeStart id action) :=
  match action with
  | .join _ _ => inferInstanceAs (Decidable (∀ bundle ∈ _, _ → ∀ stage ∈ _, Fresh stage))
  | .schedule | .split _ _ | .idle _ _ => inferInstanceAs (Decidable True)

/-- A source that is run again, and a splittable stage that reads it. -/
def streamThenSplittable : NodeScheduler where
  watermarks := build [streamStage, workStage .ordinary minTimestamp 1]
  nodes := ofPairs [("read", .runner), ("work", .splittable)]
  transformToStage := ∅

/-- The source has written its first rows. -/
def firstRows : InputRun :=
  (Runs.playAllowed step (FedBeforeStart "work") (start streamThenSplittable)
    [.schedule, .join 0 ⟨some 1, 1, [], [], []⟩]).getD (start streamThenSplittable)

theorem readsInput_of_fedBeforeStart_firstRows :
    firstRows.unread "work" = true ∧
      (∀ next, firstRows.dispatcher.schedule = .ok next →
        ∀ stage, firstRows.dispatcher.manager.stages.lookup "work" = some stage →
          stage.inFlight = 0 → stage.pending ≠ ∅ →
            ∀ bundle ∈ firstRows.dispatcher.handedOut next, bundle.stage = "work" →
              bundle.kind = .splittable ∧ bundle.initialized = false ∧
                bundle.readsInput = true) ∧
      (firstRows.unread "work" = true → ∃ stage,
        firstRows.dispatcher.manager.stages.lookup "work" = some stage ∧ stage.pending ≠ ∅ ∧
          (firstRows.dispatcher.sdfQueue "work").initialized = false) :=
  ⟨by decide +kernel, readsInput_of_fedBeforeStart
    (wellFormed_sourceThenWork false .ordinary minTimestamp_le_maxTimestamp 1).distinct
    (by decide +kernel)
    (Runs.reaches_getD_playAllowed (by decide +kernel) (start streamThenSplittable))⟩

/-- The stage has initialized over the first rows, and the source has written
more. -/
def moreRows : InputRun :=
  (Runs.play step (start streamThenSplittable)
    [.schedule, .join 0 ⟨some 1, 1, [], [], []⟩, .schedule, .join 0 ⟨some 1, 1, [], [], []⟩, .schedule,
      .idle [⟨"read", some 100, false⟩] 0, .schedule, .join 0 ⟨some 2, 1, [], [], []⟩]).getD
    (start streamThenSplittable)

/-- Input of a splittable stage can be skipped: the bundle that takes the later
rows is initialized and gets an empty seed. -/
theorem not_readsInput_moreRows :
    ¬∀ specs, WellFormed specs → ∀ nodes transformToStage id,
      nodes.lookup id = some .splittable → ∀ run,
        Runs.Reaches step (fun _ _ => True) (start ⟨build specs, nodes, transformToStage⟩) run →
          ∀ next, run.dispatcher.schedule = .ok next →
            ∀ stage, run.dispatcher.manager.stages.lookup id = some stage → stage.inFlight = 0 →
              stage.pending ≠ ∅ → ∀ bundle ∈ run.dispatcher.handedOut next, bundle.stage = id →
                bundle.initialized = false := by
  intro h
  have hState : (moreRows.dispatcher.manager.stages.lookup "work").map
      (fun stage => (stage.inFlight, stage.pending)) = some (0, {"lines"}) := by decide +kernel
  have hNext : moreRows.dispatcher.schedule.toOption.map (fun next =>
      (moreRows.dispatcher.handedOut next).map fun bundle =>
        (bundle.stage, bundle.initialized, bundle.seed)) = some [("work", true, none)] := by
    decide +kernel
  obtain ⟨stage, hStage, hFields⟩ := Option.map_eq_some_iff.mp hState
  obtain ⟨next, hSchedule, hHanded⟩ := Option.map_eq_some_iff.mp hNext
  obtain ⟨bundle, hBundle, hSkipped⟩ :
      ∃ bundle ∈ moreRows.dispatcher.handedOut next,
        (bundle.stage, bundle.initialized, bundle.seed) = ("work", true, none) := by
    refine List.mem_map.mp ?_
    rw [hHanded]
    exact List.mem_singleton.mpr rfl
  simp only [Prod.mk.injEq] at hFields hSkipped
  have hReads := h _ (wellFormed_sourceThenWork false .ordinary minTimestamp_le_maxTimestamp 1) _ _
    "work" (by decide +kernel) moreRows
    (Runs.reaches_getD_play (fun _ _ => trivial) (by decide +kernel) (start streamThenSplittable))
    next (toOption_eq_some hSchedule) stage hStage hFields.1 (by rw [hFields.2]; decide) bundle
    hBundle hSkipped.1
  rw [hSkipped.2.1] at hReads
  cases hReads

end InputRun

end FlareDB
