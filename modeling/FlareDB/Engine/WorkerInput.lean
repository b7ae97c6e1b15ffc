import FlareDB.Engine.DispatcherInput

/-! No input of a worker stage is forgotten: what its producers appended since it
last read is still pending. Two bundles take pending input without reading it to
the end of the run: those of a stage whose time-sorted input is closed, by
design, and those that were handed timers. -/
namespace FlareDB

open KeyedStore

theorem StageState.closed_iterate {stage : StageState}
    (h : stage.timeSortedInputClosed = true → stage.kind = .timeSortedInputWatermarkGated)
    (count : Nat) (hClosed : (StageState.started^[count] stage).timeSortedInputClosed = true) :
    stage.kind = .timeSortedInputWatermarkGated := by
  induction count generalizing stage with
  | zero => exact h hClosed
  | succ count ih =>
      rw [Function.iterate_succ_apply] at hClosed
      have hKind : stage.started.kind = stage.kind := by rw [stage.begun_started.same]
      rw [← hKind]
      refine ih (fun hStarted => ?_) hClosed
      rw [hKind]
      have hNow : (stage.timeSortedInputClosed ||
          (decide (stage.kind = .timeSortedInputWatermarkGated) &&
            decide (stage.requiredWatermark ≤ stage.input))) = true := by
        unfold StageState.started at hStarted
        split at hStarted <;> exact hStarted
      rcases Bool.or_eq_true_iff.mp hNow with hOld | hGate
      · exact h hOld
      · exact of_decide_eq_true (Bool.and_eq_true_iff.mp hGate).1

namespace InputRun

open Dispatcher WatermarkManager StageState

/-- What holds of a worker stage along a run. -/
structure WorkerKept (specs : List StageSpec) (id : StageId) (run : InputRun) : Prop where
  tallied : Tallied specs run.dispatcher
  worker : run.dispatcher.scheduler.nodes.lookup id = some .worker
  closed : ∀ stage, run.dispatcher.manager.stages.lookup id = some stage →
    stage.timeSortedInputClosed = true → stage.kind = .timeSortedInputWatermarkGated
  unread : run.unread id = true → ∃ stage, run.dispatcher.manager.stages.lookup id = some stage ∧
    (stage.timeSortedInputClosed = true ∨ stage.pending ≠ ∅)

/-- A bundle that takes pending input of a stage is handed no timers. -/
def TimersApart (id : StageId) (run : InputRun) : DispatchAction → Prop
  | .schedule => ∀ stage ∈ run.dispatcher.manager.stages.lookup id, stage.inFlight = 0 →
      stage.pending ≠ ∅ → id ∈ run.dispatcher.chosen →
        (run.dispatcher.prepare.pendingTimers.lookup id).getD [] = []
  | _ => True

section Steps

variable {specs : List StageSpec} {id : StageId} {run after : InputRun}

theorem WorkerKept.sameInput (h : WorkerKept specs id run)
    (hTallied : Tallied specs after.dispatcher)
    (hNodes : after.dispatcher.scheduler.nodes = run.dispatcher.scheduler.nodes)
    (hUnread : after.unread = run.unread)
    (hSame : Touches SameInput run.dispatcher.manager after.dispatcher.manager) :
    WorkerKept specs id after where
  tallied := hTallied
  worker := by
    rw [hNodes]
    exact h.worker
  closed stage hStage hClosed := by
    obtain ⟨old, hOld, hInput⟩ := hSame.exists_before hStage
    have hKind : stage.kind = old.kind := congrArg Wiring.kind hInput.wiring
    rw [hKind]
    exact h.closed old hOld (by rwa [← hInput.closed])
  unread hAfter := by
    rw [hUnread] at hAfter
    obtain ⟨old, hOld, hPending⟩ := h.unread hAfter
    obtain ⟨stage, hStage, hInput⟩ := hSame.exists_after hOld
    exact ⟨stage, hStage, by rwa [hInput.closed, hInput.pending]⟩

/-- Every bundle of a stage that a turn hands out reads, when no timers are
queued for the stage. -/
theorem readsInput_of_no_timers (h : WorkerKept specs id run) {next : Dispatcher}
    (hNext : run.dispatcher.schedule = .ok next)
    (hTimers : (run.dispatcher.prepare.pendingTimers.lookup id).getD [] = [])
    {bundle : RunningBundle} (hBundle : bundle ∈ run.dispatcher.handedOut next)
    (hStage : bundle.stage = id) : bundle.readsInput = true := by
  obtain ⟨_, _, hHanded⟩ := schedule_handedOut hNext
  have hNodes : run.dispatcher.launched.scheduler.nodes = run.dispatcher.scheduler.nodes :=
    run.dispatcher.keeps_launched.nodes.trans run.dispatcher.prepare_spec.1.nodes
  have hKind : bundle.kind = .worker := by
    rw [hHanded.kind bundle hBundle, hNodes, hStage, h.worker]
    rfl
  have hQueued : (run.dispatcher.launched.pendingTimers.lookup id).getD [] = [] := hTimers
  have hNone : bundle.timers = [] := by
    refine List.eq_nil_iff_forall_not_mem.mpr fun timer hTimer => ?_
    have hDelivered := hHanded.delivered bundle hBundle hTimer
    rw [hStage, hQueued] at hDelivered
    cases hDelivered
  simp [RunningBundle.readsInput, hKind, hNone]

theorem WorkerKept.schedule (h : WorkerKept specs id run) (hApart : run.TimersApart id .schedule)
    (hNext : run.dispatcher.schedule = .ok after.dispatcher)
    (hUnread : after.unread id = true → run.unread id = true ∧
      ∀ bundle ∈ run.dispatcher.handedOut after.dispatcher, bundle.stage = id →
        bundle.readsInput = false) : WorkerKept specs id after := by
  obtain ⟨hStages, _, hHanded⟩ := schedule_handedOut hNext
  obtain ⟨f, hSame, hRewrites⟩ := schedule_rewrites hNext
  refine ⟨h.tallied.schedule hNext, ?_, ?_, ?_⟩
  · rw [hHanded.scheduler, run.dispatcher.keeps_launched.nodes,
      run.dispatcher.prepare_spec.1.nodes]
    exact h.worker
  · intro stage hStage hClosed
    obtain ⟨old, hOld, hStarted⟩ := hRewrites.exists_before hStage
    have hKind : (f id old).kind = old.kind := congrArg Wiring.kind (hSame id old).wiring
    have hStartedKind : stage.kind = (f id old).kind := by
      rw [hStarted, (begun_iterate _ (f id old)).same]
    rw [hStarted] at hClosed
    rw [hStartedKind]
    refine closed_iterate (fun hBefore => ?_) _ hClosed
    rw [hKind]
    exact h.closed old hOld (by rwa [← (hSame id old).closed])
  · intro hAfter
    obtain ⟨hBefore, hNone⟩ := hUnread hAfter
    obtain ⟨old, hOld, hKept⟩ := h.unread hBefore
    have hBegun := begun_iterate (run.dispatcher.chosen.count id) (f id old)
    refine ⟨_, hRewrites.lookup_of_before hOld, ?_⟩
    rcases hKept with hClosed | hPending
    · exact Or.inl (hBegun.closed (by rwa [(hSame id old).closed]))
    · right
      by_cases hFlight : old.inFlight = 0
      · by_cases hChosen : id ∈ run.dispatcher.chosen
        · -- The first bundle of the wave takes what is pending, so it has to read it.
          have hTimers := hApart old hOld hFlight hPending hChosen
          rw [← hStages] at hChosen
          obtain ⟨bundle, hBundle, hStage⟩ := List.mem_map.mp hChosen
          have hReads := readsInput_of_no_timers h hNext hTimers hBundle hStage
          rw [hNone bundle hBundle hStage] at hReads
          cases hReads
        · rw [List.count_eq_zero_of_not_mem hChosen, Function.iterate_zero_apply,
            (hSame id old).pending]
          exact hPending
      · rw [hBegun.pending_eq (by rw [(hSame id old).inFlight]; exact Nat.pos_of_ne_zero hFlight),
          (hSame id old).pending]
        exact hPending

theorem WorkerKept.join (h : WorkerKept specs id run) {index : Nat} {outcome : BundleOutcome}
    (hNext : run.dispatcher.join index outcome = .ok after.dispatcher)
    (hUnread : after.unread id = true → run.unread id = true ∨
      ∃ bundle, run.dispatcher.running[index]? = some bundle ∧
        writesTo run.dispatcher.manager bundle.stage id = true) : WorkerKept specs id after := by
  obtain ⟨bundle, producer, reported, completed, hBundle, _, hJoined⟩ := join_stage h.tallied hNext
  refine ⟨h.tallied.join hNext, ?_, ?_, ?_⟩
  · rw [hJoined.nodes]
    exact h.worker
  · intro stage hStage hClosed
    obtain ⟨old, hOld, hDelivered⟩ := hJoined.exists_before h.tallied.shape hStage
    have hKind : stage.kind = old.kind := congrArg Wiring.kind hDelivered.wiring
    rw [hKind]
    exact h.closed old hOld (by rwa [← hDelivered.closed])
  · intro hAfter
    rcases hUnread hAfter with hBefore | ⟨found, hFound, hWrites⟩
    · obtain ⟨old, hOld, hKept⟩ := h.unread hBefore
      obtain ⟨stage, hStage, hDelivered⟩ := hJoined.exists_after h.tallied.shape hOld
      refine ⟨stage, hStage, hKept.imp (fun hClosed => by rwa [hDelivered.closed]) ?_⟩
      intro hPending
      obtain ⟨pcollection, hMem⟩ := Finset.nonempty_iff_ne_empty.mpr hPending
      exact Finset.ne_empty_of_mem (hDelivered.pending_subset hMem)
    · rw [hBundle] at hFound
      cases hFound
      obtain ⟨writer, old, hWriter, hOld, output, hOutput, hRead⟩ := writesTo_iff.mp hWrites
      rw [hJoined.lookup] at hWriter
      cases hWriter
      obtain ⟨stage, hStage, hDelivered⟩ := hJoined.exists_after h.tallied.shape hOld
      refine ⟨stage, hStage, ?_⟩
      cases hClosed : old.timeSortedInputClosed with
      | true => exact Or.inl (hDelivered.closed.trans hClosed)
      | false => exact Or.inr (hDelivered.pending_of_read output hOutput hRead hClosed)

theorem WorkerKept.step (h : WorkerKept specs id run) {action : DispatchAction}
    (hApart : run.TimersApart id action) (hStep : run.step action = some after) :
    WorkerKept specs id after := by
  have hTallied := h.tallied.step (dispatcher_step hStep)
  rcases step_cases hStep with ⟨rfl, hNext, hUnread⟩ | ⟨index, outcome, rfl, _, hNext, hUnread⟩ |
    ⟨other, item, rfl, _, hNext, hUnread⟩ | ⟨reports, now, rfl, hNext, hUnread⟩
  · exact h.schedule hApart hNext (hUnread id)
  · exact h.join hNext (hUnread id)
  · have hQueues := enqueueSdfItems_ok hNext
    exact h.sameInput hTallied hQueues.nodes hUnread hQueues.sameInput
  · have hKeeps := (idle_ok hNext).1
    exact h.sameInput hTallied hKeeps.nodes hUnread (sameInput_idle hNext)

theorem workerKept_start (hDistinct : (specs.map StageSpec.id).Nodup)
    {nodes : Store StageId NodeKind} (hWorker : nodes.lookup id = some .worker)
    (transformToStage : Store String StageId) :
    WorkerKept specs id (start ⟨build specs, nodes, transformToStage⟩) where
  tallied := Tallied.start hDistinct nodes transformToStage
  worker := hWorker
  closed stage hStage hClosed := by
    obtain ⟨spec, _, _, rfl⟩ := lookup_build specs hStage
    cases hClosed
  unread hUnread := by cases hUnread

end Steps

theorem not_isComplete_of_pending {manager : WatermarkManager} {id : StageId} {stage : StageState}
    (hStage : manager.stages.lookup id = some stage) (hPending : stage.pending ≠ ∅) :
    stage.isDone = false ∧ manager.isComplete = false := by
  have hDone : stage.isDone = false := by simp [isDone, hPending]
  refine ⟨hDone, ?_⟩
  unfold isComplete
  rw [List.all_eq_false]
  exact ⟨⟨id, stage⟩, AList.mem_lookup_iff.mp hStage, by simp [hDone]⟩

/-- In every run in which no bundle takes pending input of a worker stage while it
is handed timers, input the stage has not read is pending at it, so the graph is
not complete, unless the time-sorted input of the stage has been closed. -/
theorem pending_of_unread {specs : List StageSpec} (hDistinct : (specs.map StageSpec.id).Nodup)
    {nodes : Store StageId NodeKind} {transformToStage : Store String StageId} {id : StageId}
    (hWorker : nodes.lookup id = some .worker) {run : InputRun}
    (hRun : Runs.Reaches step (TimersApart id) (start ⟨build specs, nodes, transformToStage⟩) run)
    (hUnread : run.unread id = true) :
    ∃ stage, run.dispatcher.manager.stages.lookup id = some stage ∧
      ((stage.kind = .timeSortedInputWatermarkGated ∧ stage.timeSortedInputClosed = true) ∨
        (stage.pending ≠ ∅ ∧ stage.isDone = false ∧
          run.dispatcher.manager.isComplete = false)) := by
  have hKept : WorkerKept specs id run :=
    hRun.invariant (fun _ _ _ hApart hStep hBefore => hBefore.step hApart hStep)
      (workerKept_start hDistinct hWorker transformToStage)
  obtain ⟨stage, hStage, hInput⟩ := hKept.unread hUnread
  refine ⟨stage, hStage, ?_⟩
  rcases hInput with hClosed | hPending
  · exact Or.inl ⟨hKept.closed stage hStage hClosed, hClosed⟩
  · exact Or.inr ⟨hPending, not_isComplete_of_pending hStage hPending⟩

instance (id : StageId) (run : InputRun) (action : DispatchAction) :
    Decidable (run.TimersApart id action) :=
  match action with
  | .schedule => inferInstanceAs (Decidable (∀ stage ∈ _, _ → _ → _ → _ = []))
  | .split _ _ | .join _ _ | .idle _ _ => inferInstanceAs (Decidable True)

/-- A source and a worker stage that reads it. -/
def sourceThenWorker (source : StageSpec) (kind : StageKind) (requiredWatermark : Timestamp) :
    NodeScheduler where
  watermarks := build [source, workStage kind requiredWatermark 1]
  nodes := ofPairs [("read", .runner), ("work", .worker)]
  transformToStage := ofPairs [("count", "work")]

/-- The source has written its rows. -/
def rowsWritten : InputRun :=
  (Runs.playAllowed step (TimersApart "work")
    (start (sourceThenWorker readStage .ordinary minTimestamp))
    [.schedule, .join 0 ⟨some 5, 1, [], [], []⟩]).getD
      (start (sourceThenWorker readStage .ordinary minTimestamp))

theorem pending_of_unread_rowsWritten :
    rowsWritten.unread "work" = true ∧
      ∃ stage, rowsWritten.dispatcher.manager.stages.lookup "work" = some stage ∧
        ((stage.kind = .timeSortedInputWatermarkGated ∧ stage.timeSortedInputClosed = true) ∨
          (stage.pending ≠ ∅ ∧ stage.isDone = false ∧
            rowsWritten.dispatcher.manager.isComplete = false)) := by
  have hUnread : rowsWritten.unread "work" = true := by decide +kernel
  refine ⟨hUnread, ?_⟩
  exact pending_of_unread
    (wellFormed_sourceThenWork true .ordinary minTimestamp_le_maxTimestamp 1).distinct
    (by decide +kernel) (Runs.reaches_getD_playAllowed (by decide +kernel) _) hUnread

/-- The stage reads time-sorted input and has run at its gate, and the source
writes one more row. -/
def rowAfterGate : InputRun :=
  (Runs.play step (start (sourceThenWorker streamStage .timeSortedInputWatermarkGated 100))
    [.schedule, .join 0 ⟨some 1, 1, [], [], []⟩, .schedule, .idle [⟨"read", some 100, false⟩] 0,
      .schedule, .join 0 ⟨some 2, 1, [], [], []⟩, .schedule, .join 0 ⟨some 1, 2, [], [], []⟩, .schedule,
      .idle [⟨"read", none, false⟩] 0, .schedule, .join 0 ⟨some 99, 1, [], [], []⟩]).getD
    (start (sourceThenWorker streamStage .timeSortedInputWatermarkGated 100))

/-- Rows behind a closed time-sorted input are dropped as late: nothing is
pending, although the stage has not read them. -/
theorem not_pending_rowAfterGate :
    ¬∀ specs, WellFormed specs → ∀ nodes transformToStage id,
      nodes.lookup id = some .worker → ∀ run,
        Runs.Reaches step (fun _ _ => True) (start ⟨build specs, nodes, transformToStage⟩) run →
          run.unread id = true → ∀ stage, run.dispatcher.manager.stages.lookup id = some stage →
            stage.inFlight = 0 → stage.pending ≠ ∅ := by
  intro h
  have hState : (rowAfterGate.dispatcher.manager.stages.lookup "work").map
      (fun stage => (stage.inFlight, stage.pending)) = some (0, ∅) := by decide +kernel
  obtain ⟨stage, hStage, hFields⟩ := Option.map_eq_some_iff.mp hState
  simp only [Prod.mk.injEq] at hFields
  exact h _ (wellFormed_sourceThenWork false .timeSortedInputWatermarkGated (by decide) 1) _ _
    "work" (by decide +kernel) rowAfterGate
    (Runs.reaches_getD_play (fun _ _ => trivial) (by decide +kernel) _) (by decide +kernel) stage
    hStage hFields.1 hFields.2

/-- The stage that reads the timed stage has a timer of its own. -/
def timedReader : NodeScheduler where
  watermarks := build [readStage, workStage .ordinary minTimestamp 1, sinkStage]
  nodes := ofPairs [("read", .runner), ("work", .worker), ("sink", .worker)]
  transformToStage := ofPairs [("count", "work"), ("tally", "sink")]

/-- While the reader runs, the timed stage writes a row at 10; the reader's bundle
sets a timer at 8, and the bundle that fires it is the next one. -/
def timerFired : InputRun :=
  (Runs.play step (start timedReader)
    [.schedule, .join 0 ⟨some 5, 1, [], [], []⟩, .schedule,
      .join 0 ⟨some 5, 1, [⟨alarm 10, false⟩], [], []⟩, .schedule, .join 1 ⟨some 10, 0, [], [], []⟩,
      .schedule, .join 0 ⟨none, 1, [⟨{ alarm 8 with
        key := { (alarm 8).key with transformId := "tally" } }, false⟩], [], []⟩, .schedule,
      .join 0 ⟨none, 0, [], [], []⟩]).getD (start timedReader)

/-- A bundle that is handed timers forgets what it takes: the graph is complete
and the stage has not read its input. -/
theorem isComplete_timerFired :
    timerFired.unread "sink" = true ∧ timerFired.dispatcher.running.isEmpty = true ∧
      timerFired.dispatcher.manager.isComplete = true := by
  decide +kernel

end InputRun

end FlareDB
