import FlareDB.Lib.Runs
import Mathlib.Logic.Function.Basic

/-! Job-scoped health of the streams to the worker. Streams report failures and
the job waits for one. Each of them takes several steps, and a shutdown or the
begin of the next job may fall between any two. -/
namespace FlareDB

/-- What the streams and the job share. -/
structure HarnessStatus where
  failure : Option String
  intentionalShutdown : Bool

namespace HarnessStatus

def new : HarnessStatus where
  failure := none
  intentionalShutdown := false

def beginJob (status : HarnessStatus) : HarnessStatus :=
  { status with intentionalShutdown := false, failure := none }

def beginIntentionalShutdown (status : HarnessStatus) : HarnessStatus :=
  { status with intentionalShutdown := true }

def failureMessage (stream error : String) : String :=
  stream ++ " failed before the job completed: " ++ error

/-- The first unexpected failure is kept. -/
def reportFailure (status : HarnessStatus) (stream error : String) :
    HarnessStatus × Option String :=
  if status.intentionalShutdown then (status, none)
  else if status.failure.isSome then (status, none)
  else
    let message := failureMessage stream error
    ({ status with failure := some message }, some message)

end HarnessStatus

/-- Where a call stands. A `Notified` future remembers how many notifications
were sent before it was made. -/
inductive StatusCall where
  | idle
  /-- `report_failure`, with no shutdown seen. -/
  | reporting (message : String)
  /-- `report_failure`, with the failure stored and nobody notified yet. -/
  | recorded (message : String)
  | reported (answer : Option String)
  /-- `wait_for_failure`, before it reads the failure. -/
  | listening (seen : Nat)
  /-- `wait_for_failure`, awaiting its future. -/
  | parked (seen : Nat)
  | failed (message : String)
  /-- `begin_job`, with the flag cleared. -/
  | beginning

/-- The status with the calls on it. `jobs` lists what was recorded since each
job began, the current job first. -/
structure StatusRun where
  status : HarnessStatus
  notifications : Nat
  calls : Nat → StatusCall
  jobs : List (List String)

inductive StatusAction where
  | report (call : Nat) (stream error : String)
  | record (call : Nat)
  | notify (call : Nat)
  | listen (call : Nat)
  | read (call : Nat)
  | wake (call : Nat)
  | shutdown
  | beginJob (call : Nat)
  | clear (call : Nat)

namespace StatusRun

def start : StatusRun where
  status := .new
  notifications := 0
  calls _ := .idle
  jobs := [[]]

def move (run : StatusRun) (call : Nat) (phase : StatusCall) : StatusRun :=
  { run with calls := Function.update run.calls call phase }

/-- The report of a failure goes to the job that runs. -/
def noteFailure (message : String) : List (List String) → List (List String)
  | [] => []
  | job :: earlier => (job ++ [message]) :: earlier

def storeFailure (run : StatusRun) (call : Nat) (message : String) : StatusRun :=
  { run.move call (.recorded message) with
    status := { run.status with failure := some message }
    jobs := noteFailure message run.jobs }

def notifyWaiters (run : StatusRun) (call : Nat) (message : String) : StatusRun :=
  { run.move call (.reported (some message)) with notifications := run.notifications + 1 }

def setShutdown (run : StatusRun) (flag : Bool) : StatusRun :=
  { run with status := { run.status with intentionalShutdown := flag } }

def clearFailure (run : StatusRun) (call : Nat) : StatusRun :=
  { run.move call .idle with
    status := { run.status with failure := none }
    jobs := [] :: run.jobs }

def step (run : StatusRun) : StatusAction → Option StatusRun
  | .report call stream error =>
      match run.calls call with
      | .idle =>
          if run.status.intentionalShutdown then some (run.move call (.reported none))
          else some (run.move call (.reporting (HarnessStatus.failureMessage stream error)))
      | _ => none
  | .record call =>
      match run.calls call with
      | .reporting message =>
          if run.status.failure.isSome then some (run.move call (.reported none))
          else some (run.storeFailure call message)
      | _ => none
  | .notify call =>
      match run.calls call with
      | .recorded message => some (run.notifyWaiters call message)
      | _ => none
  | .listen call =>
      match run.calls call with
      | .idle => some (run.move call (.listening run.notifications))
      | _ => none
  | .read call =>
      match run.calls call with
      | .listening seen =>
          match run.status.failure with
          | some message => some (run.move call (.failed message))
          | none => some (run.move call (.parked seen))
      | _ => none
  | .wake call =>
      match run.calls call with
      | .parked seen =>
          if seen < run.notifications then some (run.move call (.listening run.notifications))
          else none
      | _ => none
  | .shutdown => some (run.setShutdown true)
  | .beginJob call =>
      match run.calls call with
      | .idle => some ((run.move call .beginning).setShutdown false)
      | _ => none
  | .clear call =>
      match run.calls call with
      | .beginning => some (run.clearFailure call)
      | _ => none

/-- What a call may hold, given what has been sent and recorded. -/
def Holds (run : StatusRun) : StatusCall → Prop
  | .listening seen => seen ≤ run.notifications
  | .parked seen => seen ≤ run.notifications
  | .failed message => message ∈ run.jobs.flatten
  | .recorded message => message ∈ run.jobs.flatten
  | .reported (some message) => message ∈ run.jobs.flatten
  | _ => True

/-- Somebody is about to notify. -/
def Notifying (run : StatusRun) : Prop :=
  ∃ call message, run.calls call = .recorded message

/-- A call that waits while a failure is stored has been notified, or will be.
Where the next job has cleared the failure before the call reads it, the call
waits again and was told nothing. -/
def Wakeable (run : StatusRun) : Prop :=
  ∀ call seen, run.calls call = .parked seen → run.status.failure.isSome →
    seen < run.notifications ∨ run.Notifying

structure Coherent (run : StatusRun) : Prop where
  calls : ∀ call, run.Holds (run.calls call)
  wakeable : run.Wakeable
  current : ∃ earlier, run.jobs = run.status.failure.toList :: earlier
  single : ∀ job ∈ run.jobs, job.length ≤ 1

theorem Coherent.start : start.Coherent where
  calls _ := trivial
  wakeable _ _ hParked := by simp [StatusRun.start] at hParked
  current := ⟨[], rfl⟩
  single := by simp [StatusRun.start]

theorem Holds.mono {run after : StatusRun} (hSent : run.notifications ≤ after.notifications)
    (hJobs : run.jobs.flatten ⊆ after.jobs.flatten) {phase : StatusCall} (h : run.Holds phase) :
    after.Holds phase := by
  cases phase with
  | listening seen => exact Nat.le_trans h hSent
  | parked seen => exact Nat.le_trans h hSent
  | failed message => exact hJobs h
  | recorded message => exact hJobs h
  | reported answer =>
      cases answer with
      | none => trivial
      | some message => exact hJobs h
  | idle => trivial
  | reporting message => trivial
  | beginning => trivial

theorem Notifying.update {calls : Nat → StatusCall} {call other : Nat} {message : String}
    {phase : StatusCall} (h : calls other = .recorded message)
    (hFrom : ∀ text, calls call ≠ .recorded text) :
    Function.update calls call phase other = .recorded message := by
  rw [Function.update_of_ne, h]
  intro hSame
  subst hSame
  exact hFrom message h

/-- A call that does not notify moves, and waits only if nothing has failed. -/
theorem Coherent.move {run : StatusRun} (h : run.Coherent) {call : Nat} {phase : StatusCall}
    (hHolds : run.Holds phase) (hFrom : ∀ message, run.calls call ≠ .recorded message)
    (hTo : ∀ seen, phase = .parked seen → run.status.failure = none) :
    (run.move call phase).Coherent where
  calls := by
    refine (Function.forall_update_iff run.calls fun _ phase => (run.move call _).Holds phase).mpr ?_
    exact ⟨hHolds, fun other _ => h.calls other⟩
  wakeable := by
    intro other seen hParked hFailure
    by_cases hOther : other = call
    · subst hOther
      have hPhase : phase = .parked seen := by simpa [StatusRun.move] using hParked
      have hNone : run.status.failure = none := hTo seen hPhase
      simp [StatusRun.move, hNone] at hFailure
    · have hBefore : run.calls other = .parked seen := by
        simpa [StatusRun.move, Function.update_of_ne hOther] using hParked
      rcases h.wakeable other seen hBefore hFailure with hSeen | ⟨notifier, message, hNotifier⟩
      · exact Or.inl hSeen
      · exact Or.inr ⟨notifier, message, Notifying.update hNotifier hFrom⟩
  current := h.current
  single := h.single

theorem Coherent.record {run : StatusRun} (h : run.Coherent) {call : Nat} {message : String}
    (hNone : run.status.failure = none) :
    (run.storeFailure call message).Coherent := by
  obtain ⟨earlier, hJobs⟩ := h.current
  have hNow : run.jobs = [] :: earlier := by rw [hJobs, hNone, Option.toList_none]
  have hNoted : noteFailure message run.jobs = [message] :: earlier := by
    rw [hNow, noteFailure, List.nil_append]
  constructor
  · refine (Function.forall_update_iff run.calls
      fun _ phase => (run.storeFailure call message).Holds phase).mpr ⟨?_, ?_⟩
    · simp [Holds, storeFailure, hNoted]
    · intro other _
      refine Holds.mono ?_ ?_ (h.calls other)
      · exact Nat.le_refl _
      · simp [storeFailure, noteFailure, hNow]
  · intro _ _ _ _
    exact Or.inr ⟨call, message, Function.update_self ..⟩
  · exact ⟨earlier, hNoted⟩
  · have hEarlier : ∀ job ∈ earlier, job.length ≤ 1 := by
      intro job hJob
      exact h.single job (by simp [hNow, hJob])
    simpa [storeFailure, hNoted] using hEarlier

/-- Whoever waited before a notification has it. -/
theorem Coherent.notify {run : StatusRun} (h : run.Coherent) {call : Nat} {message : String}
    (hRecorded : run.calls call = .recorded message) :
    (run.notifyWaiters call message).Coherent := by
  have hMessage : message ∈ run.jobs.flatten := by
    have hHolds := h.calls call
    rwa [hRecorded] at hHolds
  constructor
  · refine (Function.forall_update_iff run.calls
      fun _ phase => (run.notifyWaiters call message).Holds phase).mpr ⟨hMessage, ?_⟩
    intro other _
    refine Holds.mono ?_ ?_ (h.calls other)
    · exact Nat.le_succ _
    · exact List.Subset.refl _
  · intro other seen hParked _
    by_cases hOther : other = call
    · simp [notifyWaiters, StatusRun.move, hOther] at hParked
    · have hHolds := h.calls other
      have hBefore : run.calls other = .parked seen := by
        simpa [notifyWaiters, StatusRun.move, Function.update_of_ne hOther] using hParked
      rw [hBefore] at hHolds
      exact Or.inl (Nat.lt_succ_of_le hHolds)
  · exact h.current
  · exact h.single

/-- The flag is read by reports only. -/
theorem Coherent.flag {run : StatusRun} (h : run.Coherent) (flag : Bool) :
    (run.setShutdown flag).Coherent where
  calls call := (h.calls call).mono (Nat.le_refl _) (List.Subset.refl _)
  wakeable := h.wakeable
  current := h.current
  single := h.single

theorem Coherent.clear {run : StatusRun} (h : run.Coherent) {call : Nat} :
    (run.clearFailure call).Coherent where
  calls := by
    refine (Function.forall_update_iff run.calls
      fun _ phase => (run.clearFailure call).Holds phase).mpr ⟨trivial, ?_⟩
    intro other _
    refine Holds.mono ?_ ?_ (h.calls other)
    · exact Nat.le_refl _
    · simp [clearFailure]
  wakeable _ _ _ hFailure := by simp [clearFailure] at hFailure
  current := ⟨run.jobs, rfl⟩
  single := by simpa [clearFailure] using h.single

theorem Coherent.step {run after : StatusRun} {action : StatusAction} (h : run.Coherent)
    (hStep : run.step action = some after) : after.Coherent := by
  cases action with
  | report call stream error =>
      simp only [StatusRun.step] at hStep
      split at hStep
      next hIdle =>
        split at hStep <;> cases hStep
        · exact h.move trivial (by simp [hIdle]) (by simp)
        · exact h.move trivial (by simp [hIdle]) (by simp)
      · cases hStep
  | record call =>
      simp only [StatusRun.step] at hStep
      split at hStep
      next message hReporting =>
        split at hStep <;> cases hStep
        · exact h.move trivial (by simp [hReporting]) (by simp)
        next hNone => exact h.record (by simpa using hNone)
      · cases hStep
  | notify call =>
      simp only [StatusRun.step] at hStep
      split at hStep
      next message hRecorded =>
        cases hStep
        exact h.notify hRecorded
      · cases hStep
  | listen call =>
      simp only [StatusRun.step] at hStep
      split at hStep
      next hIdle =>
        cases hStep
        exact h.move (Nat.le_refl _) (by simp [hIdle]) (by simp)
      · cases hStep
  | read call =>
      simp only [StatusRun.step] at hStep
      split at hStep
      next seen hListening =>
        have hSeen := h.calls call
        rw [hListening] at hSeen
        split at hStep
        next message hFailure =>
          cases hStep
          obtain ⟨earlier, hJobs⟩ := h.current
          have hNow : run.jobs = [message] :: earlier := by rw [hJobs, hFailure, Option.toList_some]
          exact h.move (by simp [Holds, hNow]) (by simp [hListening]) (by simp)
        next hNone =>
          cases hStep
          exact h.move hSeen (by simp [hListening]) fun _ _ => hNone
      · cases hStep
  | wake call =>
      simp only [StatusRun.step] at hStep
      split at hStep
      next seen hParked =>
        split at hStep
        · cases hStep
          exact h.move (Nat.le_refl _) (by simp [hParked]) (by simp)
        · cases hStep
      · cases hStep
  | shutdown =>
      cases hStep
      exact h.flag true
  | beginJob call =>
      simp only [StatusRun.step] at hStep
      split at hStep
      next hIdle =>
        cases hStep
        have hMoved : (run.move call .beginning).Coherent :=
          h.move trivial (by simp [hIdle]) (by simp)
        exact hMoved.flag false
      · cases hStep
  | clear call =>
      simp only [StatusRun.step] at hStep
      split at hStep
      · cases hStep
        exact h.clear
      · cases hStep

/-- No job begins. -/
def WithinJob : StatusAction → Prop
  | .beginJob _ => False
  | .clear _ => False
  | _ => True

/-- The job has failed, or is being shut down with no report past the flag. -/
def Settled (run : StatusRun) : Prop :=
  run.status.failure.isSome ∨
    (run.status.intentionalShutdown = true ∧ ∀ call message, run.calls call ≠ .reporting message)

theorem Settled.move {run : StatusRun} (h : run.Settled) {call : Nat} {phase : StatusCall}
    (hPhase : run.status.failure.isSome ∨ ∀ message, phase ≠ .reporting message) :
    (run.move call phase).Settled := by
  rcases h with hFailure | ⟨hFlag, hQuiet⟩
  · exact Or.inl hFailure
  rcases hPhase with hFailure | hPhase
  · exact Or.inl hFailure
  refine Or.inr ⟨hFlag, fun other message => ?_⟩
  simp only [StatusRun.move, Function.update_apply]
  split
  · exact hPhase message
  · exact hQuiet other message

theorem Settled.step {run after : StatusRun} {action : StatusAction} (h : run.Settled)
    (hWithin : WithinJob action) (hStep : run.step action = some after) :
    after.Settled ∧ after.status.failure = run.status.failure := by
  cases action with
  | report call stream error =>
      simp only [StatusRun.step] at hStep
      split at hStep
      · split at hStep <;> cases hStep
        · exact ⟨h.move (Or.inr (by simp)), rfl⟩
        next hFlag => exact ⟨h.move (Or.inl (h.resolve_right fun hShut => hFlag hShut.1)), rfl⟩
      · cases hStep
  | record call =>
      simp only [StatusRun.step] at hStep
      split at hStep
      next message hReporting =>
        have hFailure := h.resolve_right fun hShut => hShut.2 call message hReporting
        rw [if_pos hFailure] at hStep
        cases hStep
        exact ⟨h.move (Or.inl hFailure), rfl⟩
      · cases hStep
  | notify call =>
      simp only [StatusRun.step] at hStep
      split at hStep <;> cases hStep
      exact ⟨h.move (Or.inr (by simp)), rfl⟩
  | listen call =>
      simp only [StatusRun.step] at hStep
      split at hStep <;> cases hStep
      exact ⟨h.move (Or.inr (by simp)), rfl⟩
  | read call =>
      simp only [StatusRun.step] at hStep
      split at hStep
      · split at hStep <;> cases hStep
        · exact ⟨h.move (Or.inr (by simp)), rfl⟩
        · exact ⟨h.move (Or.inr (by simp)), rfl⟩
      · cases hStep
  | wake call =>
      simp only [StatusRun.step] at hStep
      split at hStep
      · split at hStep <;> cases hStep
        exact ⟨h.move (Or.inr (by simp)), rfl⟩
      · cases hStep
  | shutdown =>
      cases hStep
      exact ⟨h.imp id fun hShut => ⟨rfl, hShut.2⟩, rfl⟩
  | beginJob call => exact hWithin.elim
  | clear call => exact hWithin.elim

/-- Until the next job begins, a stored failure stays, and a shutdown that no
report has overtaken lets none be stored. -/
theorem failure_settled {run after : StatusRun} (h : run.Settled)
    (hRun : Runs.Reaches step (fun _ action => WithinJob action) run after) :
    after.status.failure = run.status.failure := by
  let still : StatusRun → Prop := fun state =>
    state.Settled ∧ state.status.failure = run.status.failure
  have hAfter : still after := by
    refine hRun.invariant ?_ ⟨h, rfl⟩
    intro before action next hWithin hStep hBefore
    obtain ⟨hSettled, hSame⟩ := hBefore.1.step hWithin hStep
    exact ⟨hSettled, hSame.trans hBefore.2⟩
  exact hAfter.2

/-- A report that nothing interrupts is `report_failure`. -/
theorem play_report {run : StatusRun} {call : Nat} (hIdle : run.calls call = .idle)
    (stream error : String) :
    ∃ after, Runs.Reaches step (fun _ action => WithinJob action) run after ∧
      after.status = (run.status.reportFailure stream error).1 ∧
      after.calls call = .reported (run.status.reportFailure stream error).2 := by
  have hReport : run.step (.report call stream error) =
      if run.status.intentionalShutdown then some (run.move call (.reported none))
      else some (run.move call (.reporting (HarnessStatus.failureMessage stream error))) := by
    simp only [StatusRun.step, hIdle]
  cases hFlag : run.status.intentionalShutdown with
  | true =>
      rw [hFlag, if_pos rfl] at hReport
      refine ⟨_, (Runs.Reaches.refl run).snoc (.report call stream error) trivial hReport, ?_, ?_⟩
      · simp [HarnessStatus.reportFailure, hFlag, move]
      · simp [HarnessStatus.reportFailure, hFlag, move]
  | false =>
      rw [hFlag, if_neg Bool.false_ne_true] at hReport
      have hReporting : Runs.Reaches step (fun _ action => WithinJob action) run
          (run.move call (.reporting (HarnessStatus.failureMessage stream error))) :=
        (Runs.Reaches.refl run).snoc (.report call stream error) trivial hReport
      cases hFailure : run.status.failure with
      | some stored =>
          refine ⟨(run.move call (.reporting (HarnessStatus.failureMessage stream error))).move call
            (.reported none), hReporting.snoc (.record call) trivial ?_, ?_, ?_⟩
          · simp [StatusRun.step, move, hFailure]
          · simp [HarnessStatus.reportFailure, hFlag, hFailure, move]
          · simp [HarnessStatus.reportFailure, hFlag, hFailure, move]
      | none =>
          let noted := (run.move call (.reporting (HarnessStatus.failureMessage stream error))).storeFailure
            call (HarnessStatus.failureMessage stream error)
          have hNoted : Runs.Reaches step (fun _ action => WithinJob action) run noted := by
            refine hReporting.snoc (.record call) trivial ?_
            simp [StatusRun.step, move, hFailure, noted]
          refine ⟨noted.notifyWaiters call (HarnessStatus.failureMessage stream error),
            hNoted.snoc (.notify call) trivial ?_, ?_, ?_⟩
          · simp [StatusRun.step, noted, storeFailure, move]
          · simp [HarnessStatus.reportFailure, hFlag, hFailure, notifyWaiters, noted, storeFailure,
              move]
          · simp [HarnessStatus.reportFailure, hFlag, hFailure, notifyWaiters, move]

/-- In every interleaving: a waiter sleeps through no failure unless another job
begins before it has read it, a job has one failure at most, which the status
shows until the next job begins, and whoever was told of a failure was told of
one that some job had. -/
theorem failure_reaches_waiters {run : StatusRun}
    (hRun : Runs.Reaches step (fun _ _ => True) start run) :
    run.Wakeable ∧ (∀ job ∈ run.jobs, job.length ≤ 1) ∧
      run.status.failure = (run.jobs.headD []).head? ∧
      (∀ call message,
        run.calls call = .failed message ∨ run.calls call = .reported (some message) →
          message ∈ run.jobs.flatten) ∧
      ∀ after, run.Settled → Runs.Reaches step (fun _ action => WithinJob action) run after →
        after.status.failure = run.status.failure := by
  have h : run.Coherent :=
    hRun.invariant (fun _ _ _ _ hStep hBefore => hBefore.step hStep) Coherent.start
  obtain ⟨earlier, hJobs⟩ := h.current
  refine ⟨h.wakeable, h.single, ?_, ?_, fun _ hSettled hAfter => failure_settled hSettled hAfter⟩
  · rw [hJobs, List.headD_cons]
    cases run.status.failure with
    | none => rfl
    | some message => rfl
  · intro call message hTold
    have hHolds := h.calls call
    rcases hTold with hTold | hTold
    · rwa [hTold] at hHolds
    · rwa [hTold] at hHolds

/-- A waiter parks before the failure is stored, and is told of it. -/
def wokenRun : StatusRun :=
  (Runs.play step start [.listen 1, .read 1, .report 0 "BeamFnData" "broken pipe", .record 0,
    .notify 0, .wake 1, .read 1]).getD start

theorem failure_reaches_waiters_woken :
    wokenRun.calls 1 = .failed "BeamFnData failed before the job completed: broken pipe" ∧
      "BeamFnData failed before the job completed: broken pipe" ∈ wokenRun.jobs.flatten := by
  have hRun : Runs.Reaches step (fun _ _ => True) start wokenRun :=
    Runs.reaches_getD_play (fun _ _ => trivial) (by decide) start
  have hFailed : wokenRun.calls 1 =
      .failed "BeamFnData failed before the job completed: broken pipe" := rfl
  exact ⟨hFailed, (failure_reaches_waiters hRun).2.2.2.1 1 _ (Or.inl hFailed)⟩

end StatusRun

end FlareDB
