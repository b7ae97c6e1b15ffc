import FlareDB.Engine.Metrics
import FlareDB.Harness.Status
import FlareDB.Lib.Watch

/-! The job service. A job runs inside the request that asks for it. Requests
share one dispatcher under a lock, which a run takes and gives back several
times before its pipeline executes, the metrics of its bundles go to an
accumulator that a run empties before it asks for the lock, and the state of a
job is published on a channel that `GetStateStream` follows. -/
namespace FlareDB

inductive JobState where
  | unspecified
  | stopped
  | running
  | done
  | failed
  | cancelled
  | updated
  | draining
  | drained
  | starting
  | cancelling
  | updating
deriving DecidableEq

def isTerminalState : JobState → Bool
  | .done | .failed | .cancelled | .stopped | .drained => true
  | _ => false

/-- The longest prefix whose bytes are within the budget. -/
def charPrefix (budget : Nat) : List Char → List Char
  | [] => []
  | char :: rest =>
      if char.utf8Size ≤ budget then char :: charPrefix (budget - char.utf8Size) rest else []

def truncateGrpcError (message : String) : String :=
  if message.utf8ByteSize ≤ 2048 then message
  else String.ofList (charPrefix 2048 message.toList) ++ "… [truncated, " ++
    toString message.utf8ByteSize ++ " bytes total]"

inductive JobRequest where
  | run (job : String)
  | cancel (job : String)
deriving DecidableEq

/-- What a request does with the dispatcher at a time. A run resets the channels to
install the accumulator it has looked up. -/
inductive LockedPart where
  | resetChannels (metrics : String × Nat)
  | setLogTarget
  | setJobStore
  | waitConnected
  | runPipeline
  | shutDown (result : Except String Unit)
deriving DecidableEq

inductive JobAnswer where
  | invalidArgument (message : String)
  | notFound (message : String)
  | internal (message : String)
  /-- The worker manager's own error. -/
  | worker (error : String)
  | completed (job : String)
  | cancelled
deriving DecidableEq

/-- Where a request stands. -/
inductive JobCall where
  | idle
  | waiting (request : JobRequest) (part : LockedPart)
  | inside (request : JobRequest) (part : LockedPart)
  /-- `reset_channels` with the harness status cleared. -/
  | resetting (job : String) (metrics : String × Nat)
  | spawning (job : String)
  | executing (job : String)
  | stopping (request : JobRequest) (result : Except String Unit)
  | answered (answer : JobAnswer)
deriving DecidableEq

/-- The lock is held between an acquisition and the end of its part. -/
def JobCall.holds : JobCall → Bool
  | .inside _ _ | .resetting _ _ | .executing _ => true
  | _ => false

/-- The job a request to run is still busy with. -/
def JobCall.runs : JobCall → Option String
  | .waiting (.run job) _ | .inside (.run job) _ | .stopping (.run job) _ => some job
  | .resetting job _ | .spawning job | .executing job => some job
  | _ => none

def JobCall.busy : JobCall → Bool
  | .idle | .answered _ => false
  | _ => true

/-- What the requests share under the lock: the health of the streams, the
accumulator that is given the metrics of bundles, and the job whose store was
installed last. -/
structure SharedDispatcher where
  status : HarnessStatus
  metrics : Option (String × Nat)
  store : Option String

/-- A subscriber follows one of the channels made for its job. -/
structure StateStream where
  channel : String × Nat
  since : Nat
  feed : Watch.Feed
deriving DecidableEq

/-- The service with its requests and streams. Every preparation of a job makes
a channel and an accumulator, which holds what `Metrics.recordCalls` makes of the
reports it has been given since it was emptied. `abandoned` lists the jobs whose
worker failed to spawn. -/
structure JobServiceRun where
  prepared : String → Nat
  histories : String × Nat → List JobState
  collected : String × Nat → List (List Metrics.MonitoringInfo)
  dispatcher : SharedDispatcher
  holder : Option Nat
  calls : Nat → JobCall
  streams : Nat → Option StateStream
  abandoned : List String

inductive JobAction where
  | prepare (job : String)
  | run (call : Nat) (job : String)
  | cancel (call : Nat) (job : String)
  | acquire (call : Nat)
  | beginJob (call : Nat)
  | install (call : Nat)
  | setLogTarget (call : Nat)
  | spawnWorker (call : Nat) (result : Except String Unit)
  | setJobStore (call : Nat) (result : Except String Unit)
  | connect (call : Nat) (result : Except String Unit)
  | timeout (call : Nat) (seconds : Nat)
  | preparePipeline (call : Nat) (result : Except String Unit)
  | completeBundle (call : Nat) (monitoringInfos : List Metrics.MonitoringInfo)
  | runPipeline (call : Nat) (result : Except String Unit)
  | harnessFailed (call : Nat)
  | shutDown (call : Nat)
  | stopWorker (call : Nat) (result : Except String Unit)
  | reportFailure (stream error : String)
  | subscribe (reader : Nat) (job : String)
  | follow (reader : Nat) (act : Watch.Act)

namespace JobServiceRun

def start : JobServiceRun where
  prepared _ := 0
  histories _ := []
  collected _ := []
  dispatcher := ⟨.new, none, none⟩
  holder := none
  calls _ := .idle
  streams _ := none
  abandoned := []

/-- The channel that `job_states` keeps for a job, and the accumulator that
`job_metrics` does. -/
def channelOf (run : JobServiceRun) (job : String) : Option (String × Nat) :=
  match run.prepared job with
  | 0 => none
  | count + 1 => some (job, count)

def currentJobState (run : JobServiceRun) (job : String) : Option JobState :=
  (run.channelOf job).bind fun channel => (run.histories channel).getLast?

def prepare (run : JobServiceRun) (job : String) : JobServiceRun :=
  { run with
    prepared := Function.update run.prepared job (run.prepared job + 1)
    histories := Function.update run.histories (job, run.prepared job) [.starting] }

def setJobState (run : JobServiceRun) (job : String) (state : JobState) : JobServiceRun :=
  match run.channelOf job with
  | none => run
  | some channel =>
      { run with
        histories := Function.update run.histories channel (run.histories channel ++ [state]) }

def move (run : JobServiceRun) (call : Nat) (phase : JobCall) : JobServiceRun :=
  { run with calls := Function.update run.calls call phase }

def acquire (run : JobServiceRun) (call : Nat) (phase : JobCall) : JobServiceRun :=
  { run.move call phase with holder := some call }

def release (run : JobServiceRun) (call : Nat) (phase : JobCall) : JobServiceRun :=
  { run.move call phase with holder := none }

def setStatus (run : JobServiceRun) (status : HarnessStatus) : JobServiceRun :=
  { run with dispatcher := { run.dispatcher with status := status } }

/-- The status is cleared, and no accumulator is installed until the next one. -/
def resetChannels (run : JobServiceRun) : JobServiceRun :=
  { run with dispatcher := { run.dispatcher with
      status := run.dispatcher.status.beginJob, metrics := none } }

def setJobMetrics (run : JobServiceRun) (metrics : String × Nat) : JobServiceRun :=
  { run with dispatcher := { run.dispatcher with metrics := some metrics } }

def clearMetrics (run : JobServiceRun) (metrics : String × Nat) : JobServiceRun :=
  { run with collected := Function.update run.collected metrics [] }

/-- What a bundle reports goes to the installed accumulator, if there is one. -/
def recordMetrics (run : JobServiceRun) (monitoringInfos : List Metrics.MonitoringInfo) :
    JobServiceRun :=
  match run.dispatcher.metrics with
  | none => run
  | some metrics =>
      { run with
        collected := Function.update run.collected metrics
          (run.collected metrics ++ [monitoringInfos]) }

def setJobStore (run : JobServiceRun) (job : String) : JobServiceRun :=
  { run with dispatcher := { run.dispatcher with store := some job } }

def abandon (run : JobServiceRun) (job : String) : JobServiceRun :=
  { run with abandoned := job :: run.abandoned }

def setStream (run : JobServiceRun) (reader : Nat) (stream : StateStream) : JobServiceRun :=
  { run with streams := Function.update run.streams reader (some stream) }

/-- The end of `execute_spawned_job`. -/
def afterExecution (job : String) (result : Except String Unit) : JobCall :=
  .waiting (.run job) (.shutDown result)

/-- How a run ends, from the results of its execution and of its cleanup. -/
def runAnswer (job : String) : Except String Unit → Except String Unit → JobState × JobAnswer
  | .error error, .ok () =>
      (.failed, .internal (truncateGrpcError
        ("job " ++ job ++ " failed: " ++ error ++ "; worker terminated")))
  | .error error, .error stopError =>
      (.failed, .internal (truncateGrpcError
        ("job " ++ job ++ " failed: " ++ error ++ "; worker cleanup also failed: " ++ stopError)))
  | .ok (), .error error =>
      (.failed, .internal (truncateGrpcError
        ("job " ++ job ++ " completed but worker cleanup failed: " ++ error)))
  | .ok (), .ok () => (.done, .completed job)

/-- A run that has ended publishes an end, never that it is running. -/
theorem runAnswer_ne_running (job : String) (result stopped : Except String Unit) :
    (runAnswer job result stopped).1 ≠ .running := by
  unfold runAnswer
  split <;> simp

def step (run : JobServiceRun) : JobAction → Option JobServiceRun
  | .prepare job => some (run.prepare job)
  | .run call job =>
      match run.calls call with
      | .idle =>
          if job = "" then
            some (run.move call (.answered (.invalidArgument "preparation_id is required")))
          else
            match run.channelOf job with
            | none =>
                some (run.move call (.answered (.notFound ("unknown preparation_id: " ++ job))))
            | some metrics =>
                some (((run.clearMetrics metrics).setJobState job .running).move call
                  (.waiting (.run job) (.resetChannels metrics)))
      | _ => none
  | .cancel call job =>
      match run.calls call with
      | .idle => some (run.move call (.waiting (.cancel job) (.shutDown (.ok ()))))
      | _ => none
  | .acquire call =>
      match run.calls call with
      | .waiting request part =>
          if run.holder = none then some (run.acquire call (.inside request part)) else none
      | _ => none
  | .beginJob call =>
      match run.calls call with
      | .inside (.run job) (.resetChannels metrics) =>
          some (run.resetChannels.move call (.resetting job metrics))
      | _ => none
  | .install call =>
      match run.calls call with
      | .resetting job metrics =>
          some ((run.setJobMetrics metrics).release call (.waiting (.run job) .setLogTarget))
      | _ => none
  | .setLogTarget call =>
      -- its error is logged only
      match run.calls call with
      | .inside (.run job) .setLogTarget => some (run.release call (.spawning job))
      | _ => none
  | .spawnWorker call result =>
      match run.calls call with
      | .spawning job =>
          match result with
          | .ok () => some (run.move call (.waiting (.run job) .setJobStore))
          | .error error => some ((run.abandon job).move call (.answered (.worker error)))
      | _ => none
  | .setJobStore call result =>
      match run.calls call with
      | .inside (.run job) .setJobStore =>
          match result with
          | .ok () =>
              some ((run.setJobStore job).release call (.waiting (.run job) .waitConnected))
          | .error error =>
              some (run.release call
                (afterExecution job (.error ("failed to set job store: " ++ error))))
      | _ => none
  | .connect call result =>
      match run.calls call with
      | .inside (.run job) .waitConnected =>
          match result with
          | .ok () => some (run.release call (.waiting (.run job) .runPipeline))
          | .error error =>
              some (run.release call (afterExecution job (.error
                ("failed waiting for harness connection for job " ++ job ++ ": " ++ error))))
      | _ => none
  | .timeout call seconds =>
      -- the wait for the lock counts too
      match run.calls call with
      | .waiting (.run job) .waitConnected =>
          some (run.move call (afterExecution job (.error
            ("harness did not connect within " ++ toString seconds ++ "s for job " ++ job))))
      | .inside (.run job) .waitConnected =>
          some (run.release call (afterExecution job (.error
            ("harness did not connect within " ++ toString seconds ++ "s for job " ++ job))))
      | _ => none
  | .preparePipeline call result =>
      match run.calls call with
      | .inside (.run job) .runPipeline =>
          match result with
          | .ok () => some (run.move call (.executing job))
          | .error error =>
              some (run.release call (afterExecution job (.error
                ("failed to prepare pipeline for job " ++ job ++ ": " ++ error))))
      | _ => none
  | .completeBundle call monitoringInfos =>
      match run.calls call with
      | .executing _ => some (run.recordMetrics monitoringInfos)
      | _ => none
  | .runPipeline call result =>
      match run.calls call with
      | .executing job => some (run.release call (afterExecution job result))
      | _ => none
  | .harnessFailed call =>
      match run.calls call, run.dispatcher.status.failure with
      | .executing job, some message => some (run.release call (afterExecution job (.error message)))
      | _, _ => none
  | .shutDown call =>
      match run.calls call with
      | .inside request (.shutDown result) =>
          some ((run.setStatus run.dispatcher.status.beginIntentionalShutdown).release call
            (.stopping request result))
      | _ => none
  | .stopWorker call stopped =>
      match run.calls call with
      | .stopping (.run job) result =>
          some ((run.setJobState job (runAnswer job result stopped).1).move call
            (.answered (runAnswer job result stopped).2))
      | .stopping (.cancel job) _ =>
          match stopped with
          | .ok () => some ((run.setJobState job .cancelled).move call (.answered .cancelled))
          | .error error => some (run.move call (.answered (.worker error)))
      | _ => none
  | .reportFailure stream error =>
      some (run.setStatus (run.dispatcher.status.reportFailure stream error).1)
  | .subscribe reader job =>
      match run.streams reader, run.channelOf job with
      | none, some channel =>
          some (run.setStream reader ⟨channel, (run.histories channel).length,
            .subscribe (run.histories channel).length⟩)
      | _, _ => none
  | .follow reader act =>
      match run.streams reader with
      | some stream =>
          -- a channel closes when its job is prepared again
          if act = .close ∧ run.channelOf stream.channel.1 = some stream.channel then none
          else
            (stream.feed.step isTerminalState (run.histories stream.channel) act).map fun feed =>
              run.setStream reader { stream with feed := feed }
      | none => none

/-- A published running state is owed to a request in progress, or to a worker
that failed to spawn. -/
def Owed (run : JobServiceRun) (job : String) : Prop :=
  job ∈ run.abandoned ∨ ∃ call, (run.calls call).runs = some job

structure Coherent (run : JobServiceRun) : Prop where
  locked : ∀ call, (run.calls call).holds = true ↔ run.holder = some call
  owed : ∀ job, run.currentJobState job = some .running → run.Owed job
  known : ∀ job channel, channel < run.prepared job → run.histories (job, channel) ≠ []
  opened : ∀ reader stream, run.streams reader = some stream →
    stream.channel.2 < run.prepared stream.channel.1
  follows : ∀ reader stream, run.streams reader = some stream →
    stream.feed.Follows isTerminalState stream.since (run.histories stream.channel)

/-- The channel of a job is one of those that were prepared for it. -/
theorem channelOf_eq_some {run : JobServiceRun} {job : String} {channel : String × Nat}
    (h : run.channelOf job = some channel) :
    channel.1 = job ∧ channel.2 < run.prepared job := by
  unfold channelOf at h
  split at h <;> cases h
  next count hCount => exact ⟨rfl, by omega⟩

theorem setJobState_move (run : JobServiceRun) (job : String) (state : JobState) (call : Nat)
    (phase : JobCall) :
    (run.setJobState job state).move call phase = (run.move call phase).setJobState job state := by
  have hChannel : (run.move call phase).channelOf job = run.channelOf job := rfl
  unfold setJobState
  rw [hChannel]
  cases run.channelOf job with
  | none => rfl
  | some channel => rfl

/-- Publishing a state of a job that was not prepared changes nothing. -/
theorem setJobState_unknown {run : JobServiceRun} {job : String} (hChannel : run.channelOf job = none)
    (state : JobState) : run.setJobState job state = run := by
  unfold setJobState
  rw [hChannel]

/-- A published state is appended to the history of the job's channel. -/
theorem histories_setJobState {run : JobServiceRun} {job : String} {channel : String × Nat}
    (hChannel : run.channelOf job = some channel) (state : JobState) :
    run.setJobState job state = { run with
      histories := Function.update run.histories channel (run.histories channel ++ [state]) } := by
  unfold setJobState
  rw [hChannel]

/-- Publishing a state replaces that of its own job only. -/
theorem currentJobState_setJobState (run : JobServiceRun) (job other : String) (state : JobState) :
    (run.setJobState job state).currentJobState other =
      if other = job then (run.channelOf job).map fun _ => state
      else run.currentJobState other := by
  cases hChannel : run.channelOf job with
  | none =>
      rw [setJobState_unknown hChannel]
      by_cases hSame : other = job
      · simp [hSame, currentJobState, hChannel]
      · rw [if_neg hSame]
  | some channel =>
      have hJob := (channelOf_eq_some hChannel).1
      rw [histories_setJobState hChannel]
      split
      next hSame =>
        subst hSame
        have hHere : JobServiceRun.channelOf { run with
            histories := Function.update run.histories channel (run.histories channel ++ [state]) }
            other = some channel := hChannel
        simp [currentJobState, hHere]
      next hOther =>
        cases hFound : run.channelOf other with
        | none =>
            have hHere : JobServiceRun.channelOf { run with
                histories := Function.update run.histories channel
                  (run.histories channel ++ [state]) } other = none := hFound
            simp [currentJobState, hFound, hHere]
        | some found =>
            have hHere : JobServiceRun.channelOf { run with
                histories := Function.update run.histories channel
                  (run.histories channel ++ [state]) } other = some found := hFound
            have hNe : found ≠ channel := by
              intro hSame
              exact hOther ((channelOf_eq_some hFound).1.symm.trans (hSame ▸ hJob))
            simp [currentJobState, hFound, hHere, Function.update_of_ne hNe]

theorem Coherent.start : start.Coherent where
  locked call := by simp [JobServiceRun.start, JobCall.holds]
  owed job hCurrent := by simp [JobServiceRun.start, currentJobState, channelOf] at hCurrent
  known job channel hChannel := by simp [JobServiceRun.start] at hChannel
  opened reader stream hStream := by simp [JobServiceRun.start] at hStream
  follows reader stream hStream := by simp [JobServiceRun.start] at hStream

/-- A request that moves on, taking or giving back the lock, still owes what it
owed. -/
theorem Coherent.moved {run : JobServiceRun} (h : run.Coherent) {call : Nat} {phase : JobCall}
    {holder : Option Nat} (hHolds : phase.holds = true ↔ holder = some call)
    (hOthers : ∀ other, other ≠ call → (run.holder = some other ↔ holder = some other))
    (hRuns : ∀ job, (run.calls call).runs = some job → phase.runs = some job) :
    Coherent { run.move call phase with holder := holder } where
  locked other := by
    by_cases hSame : other = call
    · subst hSame
      simpa [JobServiceRun.move] using hHolds
    · have hOther := (h.locked other).trans (hOthers other hSame)
      simpa [JobServiceRun.move, Function.update_of_ne hSame] using hOther
  owed job hCurrent := by
    refine (h.owed job hCurrent).imp id ?_
    rintro ⟨other, hOther⟩
    by_cases hSame : other = call
    · subst hSame
      exact ⟨other, by simpa [JobServiceRun.move] using hRuns job hOther⟩
    · exact ⟨other, by simpa [JobServiceRun.move, Function.update_of_ne hSame] using hOther⟩
  known := h.known
  opened := h.opened
  follows := h.follows

/-- A call moves on without taking or giving back the lock. -/
theorem Coherent.move {run : JobServiceRun} (h : run.Coherent) {call : Nat} {phase : JobCall}
    (hHolds : phase.holds = (run.calls call).holds)
    (hRuns : ∀ job, (run.calls call).runs = some job → phase.runs = some job) :
    (run.move call phase).Coherent := by
  refine h.moved ?_ (fun _ _ => Iff.rfl) hRuns
  rw [hHolds]
  exact h.locked call

/-- A call takes the lock when nobody holds it. -/
theorem Coherent.acquire {run : JobServiceRun} (h : run.Coherent) {call : Nat} {phase : JobCall}
    (hFree : run.holder = none) (hHolds : phase.holds = true)
    (hRuns : ∀ job, (run.calls call).runs = some job → phase.runs = some job) :
    (run.acquire call phase).Coherent := by
  refine h.moved (by simp [hHolds]) (fun other hOther => ?_) hRuns
  simp [hFree, Ne.symm hOther]

/-- A call gives back the lock it holds. -/
theorem Coherent.release {run : JobServiceRun} (h : run.Coherent) {call : Nat} {phase : JobCall}
    (hHeld : (run.calls call).holds = true) (hHolds : phase.holds = false)
    (hRuns : ∀ job, (run.calls call).runs = some job → phase.runs = some job) :
    (run.release call phase).Coherent := by
  have hHolder := (h.locked call).mp hHeld
  refine h.moved (by simp [hHolds]) (fun other hOther => ?_) hRuns
  simp [hHolder, Ne.symm hOther]

/-- Only a job that a request runs is said to be running. -/
theorem Coherent.setJobState {run : JobServiceRun} (h : run.Coherent) {job : String}
    {state : JobState} (hOwed : state = .running → run.Owed job) :
    (run.setJobState job state).Coherent := by
  cases hChannel : run.channelOf job with
  | none =>
      rw [setJobState_unknown hChannel]
      exact h
  | some channel =>
      rw [histories_setJobState hChannel]
      refine ⟨h.locked, fun other hRunning => ?_, fun other place hPlace => ?_, h.opened,
        fun reader stream hStream => ?_⟩
      · rw [← histories_setJobState hChannel, currentJobState_setJobState] at hRunning
        split at hRunning
        next hSame =>
          rw [hChannel, Option.map_some, Option.some.injEq] at hRunning
          exact hSame ▸ hOwed hRunning
        · exact h.owed other hRunning
      · by_cases hSame : (other, place) = channel
        · simp [hSame]
        · simpa [Function.update_of_ne hSame] using h.known other place hPlace
      · by_cases hSame : stream.channel = channel
        · simpa [hSame] using (hSame ▸ h.follows reader stream hStream).publish state
        · simpa [Function.update_of_ne hSame] using h.follows reader stream hStream

/-- A request that ends publishes a state other than running. -/
theorem Coherent.finish {run : JobServiceRun} (h : run.Coherent) {call : Nat} {answer : JobAnswer}
    {job : String} {state : JobState} (hState : state ≠ .running)
    (hHolds : (run.calls call).holds = false)
    (hRuns : ∀ other, (run.calls call).runs = some other → other = job) :
    ((run.setJobState job state).move call (.answered answer)).Coherent := by
  have hSet : (run.setJobState job state).Coherent :=
    h.setJobState fun hRunning => absurd hRunning hState
  have hCalls : (run.setJobState job state).calls = run.calls := by
    unfold JobServiceRun.setJobState
    split <;> rfl
  have hAbandoned : (run.setJobState job state).abandoned = run.abandoned := by
    unfold JobServiceRun.setJobState
    split <;> rfl
  refine ⟨fun other => ?_, fun other hRunning => ?_, hSet.known, hSet.opened, hSet.follows⟩
  · by_cases hSame : other = call
    · have hLocked := hSet.locked other
      rw [hCalls, hSame, hHolds] at hLocked
      simpa [JobServiceRun.move, hSame, JobCall.holds] using hLocked
    · simpa [JobServiceRun.move, Function.update_of_ne hSame] using hSet.locked other
  · have hCurrent : (run.setJobState job state).currentJobState other = some .running := hRunning
    have hOther : other ≠ job := by
      intro hSame
      rw [currentJobState_setJobState, if_pos hSame] at hCurrent
      obtain ⟨_, _, hStill⟩ := Option.map_eq_some_iff.mp hCurrent
      exact hState hStill
    refine (hSet.owed other hCurrent).imp id ?_
    rintro ⟨running, hRunning⟩
    rw [hCalls] at hRunning
    have hNe : running ≠ call := fun hSame => hOther (hRuns other (hSame ▸ hRunning))
    refine ⟨running, ?_⟩
    simpa [JobServiceRun.move, Function.update_of_ne hNe, hCalls] using hRunning

/-- Emptying an accumulator of metrics concerns neither the lock nor the states. -/
theorem Coherent.clearMetrics {run : JobServiceRun} (h : run.Coherent) (metrics : String × Nat) :
    (run.clearMetrics metrics).Coherent :=
  ⟨h.locked, h.owed, h.known, h.opened, h.follows⟩

/-- Recording metrics concerns neither the lock nor the states. -/
theorem Coherent.recordMetrics {run : JobServiceRun} (h : run.Coherent)
    (monitoringInfos : List Metrics.MonitoringInfo) :
    (run.recordMetrics monitoringInfos).Coherent := by
  unfold JobServiceRun.recordMetrics
  split
  · exact h
  · exact ⟨h.locked, h.owed, h.known, h.opened, h.follows⟩

/-- A run whose worker fails to spawn ends with the job still published as running. -/
theorem Coherent.abandon {run : JobServiceRun} (h : run.Coherent) {call : Nat} {answer : JobAnswer}
    {job : String} (hSpawning : run.calls call = .spawning job) :
    ((run.abandon job).move call (.answered answer)).Coherent := by
  refine ⟨fun other => ?_, fun other hRunning => ?_, h.known, h.opened, h.follows⟩
  · by_cases hSame : other = call
    · have hLocked := h.locked other
      rw [hSame, hSpawning] at hLocked
      simpa [JobServiceRun.move, JobServiceRun.abandon, hSame, JobCall.holds] using hLocked
    · simpa [JobServiceRun.move, JobServiceRun.abandon, Function.update_of_ne hSame]
        using h.locked other
  · by_cases hJob : other = job
    · exact Or.inl (by simp [JobServiceRun.move, JobServiceRun.abandon, hJob])
    · refine (h.owed other hRunning).imp (List.mem_cons_of_mem _) ?_
      rintro ⟨running, hRuns⟩
      have hNe : running ≠ call := by
        intro hSame
        rw [hSame, hSpawning] at hRuns
        exact hJob (Option.some.inj hRuns).symm
      refine ⟨running, ?_⟩
      simpa [JobServiceRun.move, JobServiceRun.abandon, Function.update_of_ne hNe] using hRuns

/-- Preparing a job opens a channel that nobody reads yet. -/
theorem Coherent.prepare {run : JobServiceRun} (h : run.Coherent) (job : String) :
    (run.prepare job).Coherent where
  locked := h.locked
  owed other hRunning := by
    by_cases hSame : other = job
    · subst hSame
      simp [JobServiceRun.prepare, currentJobState, channelOf] at hRunning
    · refine h.owed other ?_
      have hPrepared : (run.prepare job).prepared other = run.prepared other :=
        Function.update_of_ne hSame _ _
      have hChannel : (run.prepare job).channelOf other = run.channelOf other := by
        simp only [channelOf, hPrepared]
      rw [currentJobState, hChannel] at hRunning
      rw [currentJobState]
      cases hFound : run.channelOf other with
      | none =>
          rw [hFound] at hRunning
          cases hRunning
      | some found =>
          have hNe : found ≠ (job, run.prepared job) := by
            intro hPair
            have := (channelOf_eq_some hFound).1
            exact hSame (by rw [← this, hPair])
          rw [hFound] at hRunning
          simpa [JobServiceRun.prepare, Function.update_of_ne hNe] using hRunning
  known other channel hChannel := by
    by_cases hSame : (other, channel) = (job, run.prepared job)
    · simp [JobServiceRun.prepare, hSame]
    · have hBefore : channel < run.prepared other := by
        by_cases hJob : other = job
        · subst hJob
          simp only [JobServiceRun.prepare, Function.update_self] at hChannel
          have hNe : channel ≠ run.prepared other := fun hCount => hSame (by rw [hCount])
          omega
        · simpa [JobServiceRun.prepare, Function.update_of_ne hJob] using hChannel
      simpa [JobServiceRun.prepare, Function.update_of_ne hSame] using h.known other channel hBefore
  opened reader stream hStream := by
    have hOpened := h.opened reader stream hStream
    by_cases hJob : stream.channel.1 = job
    · rw [hJob] at hOpened
      simp only [JobServiceRun.prepare, hJob, Function.update_self]
      omega
    · simpa [JobServiceRun.prepare, Function.update_of_ne hJob] using hOpened
  follows reader stream hStream := by
    have hNe : stream.channel ≠ (job, run.prepared job) := by
      intro hSame
      have hOpened := h.opened reader stream hStream
      rw [hSame] at hOpened
      exact Nat.lt_irrefl _ hOpened
    simpa [JobServiceRun.prepare, Function.update_of_ne hNe] using h.follows reader stream hStream

/-- A stream moves on along its channel. -/
theorem Coherent.setStream {run : JobServiceRun} (h : run.Coherent) {reader : Nat}
    {stream : StateStream} (hOpened : stream.channel.2 < run.prepared stream.channel.1)
    (hFollows : stream.feed.Follows isTerminalState stream.since (run.histories stream.channel)) :
    (run.setStream reader stream).Coherent := by
  refine ⟨h.locked, h.owed, h.known, fun other found hFound => ?_, fun other found hFound => ?_⟩
  · by_cases hSame : other = reader
    · simp only [JobServiceRun.setStream, hSame, Function.update_self, Option.some.injEq] at hFound
      exact hFound ▸ hOpened
    · simp only [JobServiceRun.setStream, Function.update_of_ne hSame] at hFound
      exact h.opened other found hFound
  · by_cases hSame : other = reader
    · simp only [JobServiceRun.setStream, hSame, Function.update_self, Option.some.injEq] at hFound
      exact hFound ▸ hFollows
    · simp only [JobServiceRun.setStream, Function.update_of_ne hSame] at hFound
      exact h.follows other found hFound

/-- Every step keeps the lock, the states and the streams coherent. -/
theorem Coherent.step {run after : JobServiceRun} {action : JobAction} (h : run.Coherent)
    (hStep : run.step action = some after) : after.Coherent := by
  cases action with
  | prepare job =>
      cases hStep
      exact h.prepare job
  | run call job =>
      simp only [JobServiceRun.step] at hStep
      split at hStep
      next hIdle =>
        have hMove : ∀ phase : JobCall, phase.holds = false → (run.move call phase).Coherent := by
          intro phase hHolds
          exact h.move (by rw [hIdle, hHolds]; rfl) (by rw [hIdle]; exact fun _ hNone => by cases hNone)
        split at hStep
        · cases hStep
          exact hMove _ rfl
        · split at hStep <;> cases hStep
          · exact hMove _ rfl
          next metrics hChannel =>
            have hCleared := (hMove (.waiting (.run job) (.resetChannels metrics)) rfl).clearMetrics
              metrics
            rw [setJobState_move]
            exact hCleared.setJobState fun _ =>
              Or.inr ⟨call, by simp [JobServiceRun.clearMetrics, JobServiceRun.move, JobCall.runs]⟩
      · cases hStep
  | cancel call job =>
      simp only [JobServiceRun.step] at hStep
      split at hStep <;> cases hStep
      next hIdle =>
        exact h.move (by rw [hIdle]; rfl) (by rw [hIdle]; exact fun _ hNone => by cases hNone)
  | acquire call =>
      simp only [JobServiceRun.step] at hStep
      split at hStep
      next request part hWaiting =>
        split at hStep <;> cases hStep
        next hFree =>
          refine h.acquire hFree rfl fun job hRuns => ?_
          rw [hWaiting] at hRuns
          cases request with
          | run job => exact hRuns
          | cancel job => cases hRuns
      · cases hStep
  | beginJob call =>
      simp only [JobServiceRun.step] at hStep
      split at hStep <;> cases hStep
      next job metrics hInside =>
        have hReset : run.resetChannels.Coherent :=
          ⟨h.locked, h.owed, h.known, h.opened, h.follows⟩
        refine hReset.move ?_ ?_
        · simp [resetChannels, hInside, JobCall.holds]
        · simp [resetChannels, hInside, JobCall.runs]
  | install call =>
      simp only [JobServiceRun.step] at hStep
      split at hStep <;> cases hStep
      next job metrics hResetting =>
        have hSet : (run.setJobMetrics metrics).Coherent :=
          ⟨h.locked, h.owed, h.known, h.opened, h.follows⟩
        refine hSet.release ?_ rfl ?_
        · simp [setJobMetrics, hResetting, JobCall.holds]
        · simp [setJobMetrics, hResetting, JobCall.runs]
  | setLogTarget call =>
      simp only [JobServiceRun.step] at hStep
      split at hStep <;> cases hStep
      next job hInside => exact h.release (by rw [hInside]; rfl) rfl (by simp [hInside, JobCall.runs])
  | spawnWorker call result =>
      simp only [JobServiceRun.step] at hStep
      split at hStep
      next job hSpawning =>
        split at hStep <;> cases hStep
        · exact h.move (by rw [hSpawning]; rfl) (by simp [hSpawning, JobCall.runs])
        · exact h.abandon hSpawning
      · cases hStep
  | setJobStore call result =>
      simp only [JobServiceRun.step] at hStep
      split at hStep
      next job hInside =>
        split at hStep <;> cases hStep
        · have hSet : (run.setJobStore job).Coherent :=
            ⟨h.locked, h.owed, h.known, h.opened, h.follows⟩
          refine hSet.release ?_ rfl ?_
          · simp [JobServiceRun.setJobStore, hInside, JobCall.holds]
          · simp [JobServiceRun.setJobStore, hInside, JobCall.runs]
        · exact h.release (by rw [hInside]; rfl) rfl (by simp [hInside, JobCall.runs, afterExecution])
      · cases hStep
  | connect call result =>
      simp only [JobServiceRun.step] at hStep
      split at hStep
      next job hInside =>
        split at hStep <;> cases hStep
        · exact h.release (by rw [hInside]; rfl) rfl (by simp [hInside, JobCall.runs])
        · exact h.release (by rw [hInside]; rfl) rfl (by simp [hInside, JobCall.runs, afterExecution])
      · cases hStep
  | timeout call seconds =>
      simp only [JobServiceRun.step] at hStep
      split at hStep <;> cases hStep
      next job hWaiting =>
        exact h.move (by rw [hWaiting]; rfl) (by simp [hWaiting, JobCall.runs, afterExecution])
      next job hInside =>
        exact h.release (by rw [hInside]; rfl) rfl (by simp [hInside, JobCall.runs, afterExecution])
  | preparePipeline call result =>
      simp only [JobServiceRun.step] at hStep
      split at hStep
      next job hInside =>
        split at hStep <;> cases hStep
        · exact h.move (by rw [hInside]; rfl) (by simp [hInside, JobCall.runs])
        · exact h.release (by rw [hInside]; rfl) rfl (by simp [hInside, JobCall.runs, afterExecution])
      · cases hStep
  | completeBundle call monitoringInfos =>
      simp only [JobServiceRun.step] at hStep
      split at hStep <;> cases hStep
      exact h.recordMetrics monitoringInfos
  | runPipeline call result =>
      simp only [JobServiceRun.step] at hStep
      split at hStep <;> cases hStep
      next job hExecuting =>
        exact h.release (by rw [hExecuting]; rfl) rfl
          (by simp [hExecuting, JobCall.runs, afterExecution])
  | harnessFailed call =>
      simp only [JobServiceRun.step] at hStep
      split at hStep <;> cases hStep
      next job message hExecuting _ =>
        exact h.release (by rw [hExecuting]; rfl) rfl
          (by simp [hExecuting, JobCall.runs, afterExecution])
  | shutDown call =>
      simp only [JobServiceRun.step] at hStep
      split at hStep <;> cases hStep
      next request result hInside =>
        have hSet : (run.setStatus run.dispatcher.status.beginIntentionalShutdown).Coherent :=
          ⟨h.locked, h.owed, h.known, h.opened, h.follows⟩
        refine hSet.release ?_ rfl ?_
        · simp [setStatus, hInside, JobCall.holds]
        · cases request <;> simp [setStatus, hInside, JobCall.runs]
  | stopWorker call stopped =>
      simp only [JobServiceRun.step] at hStep
      split at hStep
      next job result hStopping =>
        cases hStep
        refine h.finish (runAnswer_ne_running job result stopped) (by rw [hStopping]; rfl) ?_
        simp [hStopping, JobCall.runs]
      next job result hStopping =>
        split at hStep <;> cases hStep
        · exact h.finish (by decide) (by rw [hStopping]; rfl) (by simp [hStopping, JobCall.runs])
        · exact h.move (by rw [hStopping]; rfl) (by simp [hStopping, JobCall.runs])
      · cases hStep
  | reportFailure stream error =>
      cases hStep
      exact ⟨h.locked, h.owed, h.known, h.opened, h.follows⟩
  | subscribe reader job =>
      simp only [JobServiceRun.step] at hStep
      split at hStep <;> cases hStep
      next channel _ hChannel =>
        obtain ⟨hJob, hKnown⟩ := channelOf_eq_some hChannel
        refine h.setStream (hJob ▸ hKnown) (.subscribe ?_)
        exact h.known channel.1 channel.2 (hJob ▸ hKnown)
  | follow reader act =>
      simp only [JobServiceRun.step] at hStep
      split at hStep
      next stream hStream =>
        split at hStep
        · cases hStep
        · obtain ⟨feed, hFeed, rfl⟩ := Option.map_eq_some_iff.mp hStep
          exact h.setStream (h.opened reader stream hStream)
            ((h.follows reader stream hStream).step hFeed)
      · cases hStep

/-- Whatever requests come, in whatever order, the service stays coherent. -/
theorem Coherent.of_reaches {run : JobServiceRun} {allowed : JobServiceRun → JobAction → Prop}
    (hRun : Runs.Reaches JobServiceRun.step allowed JobServiceRun.start run) : run.Coherent :=
  hRun.invariant (fun _ _ _ _ hStep hBefore => Coherent.step hBefore hStep) Coherent.start

/-- In every interleaving of requests and subscribers: a job is said to be
running while a request runs it or after its worker failed to spawn, and never
otherwise; a stream passes on the states of its channel in order, from the one
at the subscription on, none more than twice, up to the first that is terminal;
and a stream that sleeps has passed on the last, or can wake. -/
theorem job_states_reach_their_streams {run : JobServiceRun}
    (hRun : Runs.Reaches step (fun _ _ => True) start run) :
    (∀ job, run.currentJobState job = some .running → run.Owed job) ∧
      ∀ reader stream, run.streams reader = some stream →
        (∀ place ∈ stream.feed.places,
          stream.since ≤ place + 1 ∧ place < (run.histories stream.channel).length) ∧
        stream.feed.places.Pairwise (· ≤ ·) ∧
        (∀ place, stream.feed.places.count place ≤ 2) ∧
        (stream.feed.phase ≠ .ended →
          ∀ state ∈ stream.feed.values (run.histories stream.channel), isTerminalState state = false) ∧
        (stream.feed.phase = .ended →
          ∃ before last, stream.feed.values (run.histories stream.channel) = before ++ [last] ∧
            isTerminalState last = true ∧ ∀ state ∈ before, isTerminalState state = false) ∧
        (stream.feed.phase = .sleeping →
          (stream.feed.seen = (run.histories stream.channel).length →
            stream.feed.places.getLast? = some ((run.histories stream.channel).length - 1)) ∧
          ∀ state, (run.histories stream.channel).getLast? = some state →
            isTerminalState state = true → (run.step (.follow reader .wake)).isSome = true) := by
  have h := Coherent.of_reaches hRun
  refine ⟨h.owed, fun reader stream hStream => ?_⟩
  have hFollows := h.follows reader stream hStream
  obtain ⟨hBefore, hEnded⟩ := hFollows.values_eq
  refine ⟨hFollows.inside, hFollows.sorted, hFollows.twice, hBefore, hEnded, fun hSleeping => ?_⟩
  refine ⟨hFollows.sleeps_on_last hSleeping, fun state hState hTerminal => ?_⟩
  rw [List.getLast?_eq_getElem?] at hState
  have hWakes := hFollows.wakes hSleeping ⟨state, hState, hTerminal⟩
  obtain ⟨feed, hFeed⟩ := Option.isSome_iff_exists.mp hWakes
  simp [JobServiceRun.step, hStream, hFeed]

/-- A subscriber from before the run sees the job start and end. -/
def watchedRun : JobServiceRun :=
  (Runs.play step start [.prepare "job", .subscribe 0 "job", .follow 0 .read, .follow 0 .pass,
    .run 0 "job", .acquire 0, .beginJob 0, .install 0, .acquire 0, .setLogTarget 0,
    .spawnWorker 0 (.ok ()), .acquire 0, .setJobStore 0 (.ok ()), .acquire 0, .connect 0 (.ok ()),
    .acquire 0, .preparePipeline 0 (.ok ()), .runPipeline 0 (.ok ()), .acquire 0, .shutDown 0,
    .stopWorker 0 (.ok ()), .follow 0 .wake, .follow 0 .read, .follow 0 .pass]).getD start

theorem job_states_reach_their_streams_done :
    watchedRun.histories ("job", 0) = [.starting, .running, .done] ∧
      ∃ stream, watchedRun.streams 0 = some stream ∧ stream.feed.places = [0, 2] ∧
        ∃ before last, stream.feed.values (watchedRun.histories stream.channel) = before ++ [last] ∧
          isTerminalState last = true := by
  have hRun : Runs.Reaches step (fun _ _ => True) start watchedRun :=
    Runs.reaches_getD_play (fun _ _ => trivial) (by decide +kernel) start
  have hStream : watchedRun.streams 0 = some ⟨("job", 0), 1, ⟨.ended, 3, [0, 2]⟩⟩ := by
    decide +kernel
  obtain ⟨before, last, hValues, hTerminal, _⟩ :=
    ((job_states_reach_their_streams hRun).2 0 _ hStream).2.2.2.2.1 rfl
  exact ⟨by decide +kernel, _, hStream, rfl, before, last, hValues, hTerminal⟩

/-- The request that takes a step. -/
def actor : JobAction → Option Nat
  | .run call _ | .cancel call _ | .acquire call | .beginJob call | .install call
  | .setLogTarget call | .spawnWorker call _ | .setJobStore call _ | .connect call _
  | .timeout call _ | .preparePipeline call _ | .completeBundle call _ | .runPipeline call _
  | .harnessFailed call | .shutDown call | .stopWorker call _ => some call
  | .prepare _ | .reportFailure _ _ | .subscribe _ _ | .follow _ _ => none

/-- A request stands where it stood, what is shared is as it was, and whoever
waited for the lock waits on, unless its wait for the harness timed out. -/
structure Undisturbed (call : Nat) (run after : JobServiceRun) : Prop where
  same : after.calls call = run.calls call
  metrics : after.dispatcher.metrics = run.dispatcher.metrics
  store : after.dispatcher.store = run.dispatcher.store
  shutdown : after.dispatcher.status.intentionalShutdown =
    run.dispatcher.status.intentionalShutdown
  waiting : ∀ other request part, run.calls other = .waiting request part →
    part ≠ .waitConnected → after.calls other = .waiting request part

theorem Undisturbed.refl (call : Nat) (run : JobServiceRun) : Undisturbed call run run :=
  ⟨rfl, rfl, rfl, rfl, fun _ _ _ hWaiting _ => hWaiting⟩

/-- An execution that is disturbed neither first nor then is not disturbed. -/
theorem Undisturbed.trans {call : Nat} {run middle after : JobServiceRun}
    (hFirst : Undisturbed call run middle) (hSecond : Undisturbed call middle after) :
    Undisturbed call run after where
  same := hSecond.same.trans hFirst.same
  metrics := hSecond.metrics.trans hFirst.metrics
  store := hSecond.store.trans hFirst.store
  shutdown := hSecond.shutdown.trans hFirst.shutdown
  waiting other request part hWaiting hPart :=
    hSecond.waiting other request part (hFirst.waiting other request part hWaiting hPart) hPart

/-- Another call's own progress does not disturb an execution. -/
theorem Undisturbed.move {call other : Nat} (hOther : other ≠ call) {run : JobServiceRun}
    (phase : JobCall)
    (hWaiting : ∀ request part, run.calls other = .waiting request part → part = .waitConnected) :
    Undisturbed call run (run.move other phase) where
  same := Function.update_of_ne (Ne.symm hOther) _ _
  metrics := rfl
  store := rfl
  shutdown := rfl
  waiting third request part hThird hPart := by
    have hNe : third ≠ other := by
      intro hSame
      exact hPart (hWaiting request part (hSame ▸ hThird))
    exact (Function.update_of_ne hNe _ _).trans hThird

/-- Publishing a state does not disturb an execution. -/
theorem Undisturbed.setJobState (call : Nat) (run : JobServiceRun) (job : String)
    (state : JobState) : Undisturbed call run (run.setJobState job state) := by
  unfold JobServiceRun.setJobState
  split
  · exact .refl call run
  · exact ⟨rfl, rfl, rfl, rfl, fun _ _ _ hWaiting _ => hWaiting⟩

/-- A failure that is reported leaves the mark of a shutdown as it is. -/
theorem reportFailure_shutdown (status : HarnessStatus) (stream error : String) :
    (status.reportFailure stream error).1.intentionalShutdown = status.intentionalShutdown := by
  unfold HarnessStatus.reportFailure
  split
  · rfl
  · split <;> rfl

/-- Nobody else is under the lock while a request is. -/
theorem Coherent.not_holds {run : JobServiceRun} (h : run.Coherent) {call other : Nat}
    (hHolds : (run.calls call).holds = true) (hOther : other ≠ call) :
    (run.calls other).holds = false := by
  refine Bool.eq_false_iff.mpr fun hAlso => ?_
  have hFirst := (h.locked call).mp hHolds
  rw [(h.locked other).mp hAlso] at hFirst
  exact hOther (Option.some.inj hFirst)

/-- A step of anyone else does not disturb the call that holds the lock. -/
theorem Coherent.undisturbed {run after : JobServiceRun} {action : JobAction} (h : run.Coherent)
    {call : Nat} (hHolds : (run.calls call).holds = true) (hActor : actor action ≠ some call)
    (hStep : run.step action = some after) : Undisturbed call run after := by
  have hFree : ∀ other, actor action = some other → (run.calls other).holds = false :=
    fun other hOther => h.not_holds hHolds fun hSame => hActor (hSame ▸ hOther)
  have hNe : ∀ other, actor action = some other → other ≠ call :=
    fun other hOther hSame => hActor (hSame ▸ hOther)
  cases action with
  | prepare job =>
      cases hStep
      exact ⟨rfl, rfl, rfl, rfl, fun _ _ _ hWaiting _ => hWaiting⟩
  | run other job =>
      simp only [JobServiceRun.step] at hStep
      split at hStep
      next hIdle =>
        have hMove : ∀ phase, Undisturbed call run (run.move other phase) := by
          intro phase
          refine .move (hNe other rfl) phase fun request part hWaiting => ?_
          rw [hIdle] at hWaiting
          cases hWaiting
        split at hStep
        · cases hStep
          exact hMove _
        · split at hStep <;> cases hStep
          · exact hMove _
          next metrics hChannel =>
            have hMoved := hMove (.waiting (.run job) (.resetChannels metrics))
            have hCleared : Undisturbed call run ((run.clearMetrics metrics).move other
                (.waiting (.run job) (.resetChannels metrics))) :=
              ⟨hMoved.same, rfl, rfl, rfl, hMoved.waiting⟩
            rw [setJobState_move]
            exact hCleared.trans (.setJobState call _ job .running)
      · cases hStep
  | cancel other job =>
      simp only [JobServiceRun.step] at hStep
      split at hStep <;> cases hStep
      next hIdle =>
        refine .move (hNe other rfl) _ fun request part hWaiting => ?_
        rw [hIdle] at hWaiting
        cases hWaiting
  | acquire other =>
      simp only [JobServiceRun.step] at hStep
      split at hStep
      · rw [(h.locked call).mp hHolds] at hStep
        cases hStep
      · cases hStep
  | spawnWorker other result =>
      simp only [JobServiceRun.step] at hStep
      split at hStep
      next job hSpawning =>
        have hNot : ∀ request part, run.calls other = .waiting request part → part = .waitConnected := by
          intro request part hWaiting
          rw [hSpawning] at hWaiting
          cases hWaiting
        split at hStep <;> cases hStep
        · exact .move (hNe other rfl) _ hNot
        · have hMove := Undisturbed.move (hNe other rfl) (.answered (.worker ‹String›)) hNot
          exact ⟨hMove.same, rfl, rfl, rfl, hMove.waiting⟩
      · cases hStep
  | timeout other seconds =>
      simp only [JobServiceRun.step] at hStep
      split at hStep <;> cases hStep
      next job hWaiting =>
        refine .move (hNe other rfl) _ fun request part hPart => ?_
        rw [hWaiting] at hPart
        cases hPart
        rfl
      next job hInside =>
        have hHeld := hFree other rfl
        rw [hInside] at hHeld
        cases hHeld
  | stopWorker other stopped =>
      simp only [JobServiceRun.step] at hStep
      have hMove : ∀ request result, run.calls other = .stopping request result →
          ∀ phase, Undisturbed call run (run.move other phase) := by
        intro request result hStopping phase
        refine .move (hNe other rfl) phase fun _ _ hWaiting => ?_
        rw [hStopping] at hWaiting
        cases hWaiting
      split at hStep
      next job result hStopping =>
        cases hStep
        rw [setJobState_move]
        exact (hMove _ _ hStopping _).trans (.setJobState call _ _ _)
      next job result hStopping =>
        split at hStep <;> cases hStep
        · rw [setJobState_move]
          exact (hMove _ _ hStopping _).trans (.setJobState call _ _ _)
        · exact hMove _ _ hStopping _
      · cases hStep
  | reportFailure stream error =>
      cases hStep
      exact ⟨rfl, rfl, rfl, reportFailure_shutdown _ stream error, fun _ _ _ hWaiting _ => hWaiting⟩
  | subscribe reader job =>
      simp only [JobServiceRun.step] at hStep
      split at hStep <;> cases hStep
      exact ⟨rfl, rfl, rfl, rfl, fun _ _ _ hWaiting _ => hWaiting⟩
  | follow reader act =>
      simp only [JobServiceRun.step] at hStep
      split at hStep
      · split at hStep
        · cases hStep
        · obtain ⟨feed, _, rfl⟩ := Option.map_eq_some_iff.mp hStep
          exact ⟨rfl, rfl, rfl, rfl, fun _ _ _ hWaiting _ => hWaiting⟩
      · cases hStep
  | completeBundle other monitoringInfos =>
      simp only [JobServiceRun.step] at hStep
      split at hStep
      next job hExecuting =>
        have hHeld := hFree other rfl
        rw [hExecuting] at hHeld
        cases hHeld
      · cases hStep
  | harnessFailed other =>
      simp only [JobServiceRun.step] at hStep
      split at hStep
      next job message hExecuting _ =>
        have hHeld := hFree other rfl
        rw [hExecuting] at hHeld
        cases hHeld
      · cases hStep
  | beginJob other | install other | setLogTarget other | setJobStore other result
  | connect other result | preparePipeline other result | runPipeline other result
  | shutDown other =>
      -- these act under the lock, which the request has
      have hHeld := hFree other rfl
      simp only [JobServiceRun.step] at hStep
      split at hStep
      next hCall =>
        simp only [hCall, JobCall.holds, reduceCtorEq] at hHeld
      · cases hStep

/-- Nor does any run of the others, for as long as the call makes no step itself. -/
theorem Undisturbed.of_reaches {run after : JobServiceRun} {call : Nat} (h : run.Coherent)
    (hHolds : (run.calls call).holds = true)
    (hAfter : Runs.Reaches JobServiceRun.step (fun _ action => actor action ≠ some call) run after) :
    Undisturbed call run after := by
  let still : JobServiceRun → Prop := fun now => now.Coherent ∧ Undisturbed call run now
  have hBoth : still after := by
    refine hAfter.invariant ?_ ⟨h, .refl call run⟩
    rintro before action next hActor hStep ⟨hBefore, hSo⟩
    refine ⟨hBefore.step hStep, hSo.trans (hBefore.undisturbed ?_ hActor hStep)⟩
    rw [hSo.same]
    exact hHolds
  exact hBoth.2

theorem collected_setJobState (run : JobServiceRun) (job : String) (state : JobState) :
    (run.setJobState job state).collected = run.collected := by
  unfold JobServiceRun.setJobState
  split <;> rfl

/-- Accumulators change in two ways: a request to run empties the one of its job,
and a bundle of the pipeline that executes reports. -/
theorem collected_step {run after : JobServiceRun} {action : JobAction}
    (hStep : run.step action = some after) : after.collected = run.collected ∨
      (∃ call job metrics, action = .run call job ∧ run.channelOf job = some metrics ∧
        after.collected = Function.update run.collected metrics []) ∨
      ∃ call job monitoringInfos, action = .completeBundle call monitoringInfos ∧
        run.calls call = .executing job ∧ after = run.recordMetrics monitoringInfos := by
  cases action with
  | prepare job | reportFailure stream error =>
      cases hStep
      exact Or.inl rfl
  | run call job =>
      simp only [JobServiceRun.step] at hStep
      split at hStep
      · split at hStep
        · cases hStep
          exact Or.inl rfl
        · split at hStep <;> cases hStep
          · exact Or.inl rfl
          next metrics hChannel =>
            exact Or.inr (Or.inl ⟨call, job, metrics, rfl, hChannel, collected_setJobState ..⟩)
      · cases hStep
  | completeBundle call monitoringInfos =>
      simp only [JobServiceRun.step] at hStep
      split at hStep <;> cases hStep
      next job hExecuting =>
        exact Or.inr (Or.inr ⟨call, job, monitoringInfos, rfl, hExecuting, rfl⟩)
  | cancel call job | beginJob call | install call | setLogTarget call | timeout call seconds
  | runPipeline call result | harnessFailed call | shutDown call | subscribe reader job =>
      simp only [JobServiceRun.step] at hStep
      split at hStep <;> cases hStep <;> exact Or.inl rfl
  | acquire call | spawnWorker call result | setJobStore call result | connect call result
  | preparePipeline call result =>
      simp only [JobServiceRun.step] at hStep
      split at hStep
      · split at hStep <;> cases hStep <;> exact Or.inl rfl
      · cases hStep
  | stopWorker call stopped =>
      simp only [JobServiceRun.step] at hStep
      split at hStep
      · cases hStep
        exact Or.inl (collected_setJobState ..)
      · split at hStep <;> cases hStep
        · exact Or.inl (collected_setJobState ..)
        · exact Or.inl rfl
      · cases hStep
  | follow reader act =>
      simp only [JobServiceRun.step] at hStep
      split at hStep
      · split at hStep
        · cases hStep
        · obtain ⟨feed, _, rfl⟩ := Option.map_eq_some_iff.mp hStep
          exact Or.inl rfl
      · cases hStep

/-- Only a request to run the job of an accumulator takes from it what it has. -/
theorem collected_of_reaches {run after : JobServiceRun} {call : Nat} (h : run.Coherent)
    (hHolds : (run.calls call).holds = true) {metrics : String × Nat}
    (hAfter : Runs.Reaches JobServiceRun.step (fun _ action => actor action ≠ some call ∧
      ∀ other, action ≠ .run other metrics.1) run after) :
    after.collected metrics = run.collected metrics := by
  let still : JobServiceRun → Prop := fun now =>
    now.Coherent ∧ Undisturbed call run now ∧ now.collected metrics = run.collected metrics
  have hAll : still after := by
    refine hAfter.invariant ?_ ⟨h, .refl call run, rfl⟩
    rintro before action next ⟨hActor, hNoRun⟩ hStep ⟨hBefore, hSo, hSame⟩
    have hStill : (before.calls call).holds = true := by rw [hSo.same, hHolds]
    refine ⟨hBefore.step hStep, hSo.trans (hBefore.undisturbed hStill hActor hStep), ?_⟩
    rcases collected_step hStep with hCollected | ⟨other, job, cleared, rfl, hChannel, hCollected⟩ |
      ⟨other, job, monitoringInfos, rfl, hExecuting, _⟩
    · rw [hCollected, hSame]
    · have hNe : metrics ≠ cleared := by
        rintro rfl
        exact hNoRun other (by rw [(channelOf_eq_some hChannel).1])
      rw [hCollected, Function.update_of_ne hNe, hSame]
    · -- a bundle reports while its pipeline has the lock
      have hFree := hBefore.not_holds hStill fun hOther => hActor (congrArg some hOther)
      rw [hExecuting] at hFree
      cases hFree
  exact hAll.2.2

/-- Requests come one after the other. -/
def Serial (run : JobServiceRun) : JobAction → Prop
  | .run _ _ | .cancel _ _ => ∀ other, (run.calls other).busy = false
  | _ => True

/-- What the dispatcher is set to for the part a request to run stands at. -/
def Serves (dispatcher : SharedDispatcher) : JobCall → Prop
  | .waiting (.run job) (.resetChannels metrics) | .inside (.run job) (.resetChannels metrics) =>
      metrics.1 = job
  | .resetting job metrics => dispatcher.status.intentionalShutdown = false ∧ metrics.1 = job
  | .spawning job | .waiting (.run job) .setLogTarget | .inside (.run job) .setLogTarget
  | .waiting (.run job) .setJobStore | .inside (.run job) .setJobStore =>
      dispatcher.status.intentionalShutdown = false ∧ dispatcher.metrics.map Prod.fst = some job
  | .executing job | .waiting (.run job) .waitConnected | .inside (.run job) .waitConnected
  | .waiting (.run job) .runPipeline | .inside (.run job) .runPipeline =>
      dispatcher.status.intentionalShutdown = false ∧
        dispatcher.metrics.map Prod.fst = some job ∧ dispatcher.store = some job
  | _ => True

structure OneByOne (run : JobServiceRun) : Prop where
  alone : ∀ call other, (run.calls call).busy = true → (run.calls other).busy = true → call = other
  serves : ∀ call, Serves run.dispatcher (run.calls call)

/-- A call that is not busy asks nothing of the dispatcher. -/
theorem serves_of_idle {phase : JobCall} (h : phase.busy = false) (dispatcher : SharedDispatcher) :
    Serves dispatcher phase := by
  cases phase with
  | idle => trivial
  | answered answer => trivial
  | waiting | inside | resetting | spawning | executing | stopping => cases h

theorem OneByOne.start : start.OneByOne where
  alone _ _ h := by simp [JobServiceRun.start, JobCall.busy] at h
  serves _ := trivial

/-- The only request there is moves on, and sets what is shared for itself. -/
theorem OneByOne.of_alone {run after : JobServiceRun} {call : Nat} {phase : JobCall}
    (hAlone : ∀ other, (run.calls other).busy = true → other = call)
    (hCalls : after.calls = Function.update run.calls call phase)
    (hServes : Serves after.dispatcher phase) : after.OneByOne := by
  have hBusy : ∀ other, (after.calls other).busy = true → other = call := by
    intro other hOther
    by_cases hSame : other = call
    · exact hSame
    · rw [hCalls, Function.update_of_ne hSame] at hOther
      exact hAlone other hOther
  refine ⟨fun first second hFirst hSecond => ?_, fun other => ?_⟩
  · rw [hBusy first hFirst, hBusy second hSecond]
  · by_cases hSame : other = call
    · rw [hSame, hCalls, Function.update_self]
      exact hServes
    · refine serves_of_idle ?_ _
      exact Bool.eq_false_iff.mpr fun hOther => hSame (hBusy other hOther)

theorem setJobState_calls (run : JobServiceRun) (job : String) (state : JobState) :
    (run.setJobState job state).calls = run.calls := by
  unfold setJobState
  split <;> rfl

theorem setJobState_move_calls (run : JobServiceRun) (job : String) (state : JobState) (call : Nat)
    (phase : JobCall) :
    ((run.setJobState job state).move call phase).calls = Function.update run.calls call phase := by
  rw [move, setJobState_calls]

/-- Requests that come one after the other leave the dispatcher with the one at work. -/
theorem OneByOne.step {run after : JobServiceRun} {action : JobAction} (h : run.OneByOne)
    (hSerial : Serial run action) (hStep : run.step action = some after) : after.OneByOne := by
  have hAlone : ∀ call, (run.calls call).busy = true →
      ∀ other, (run.calls other).busy = true → other = call :=
    fun call hCall other hOther => h.alone other call hOther hCall
  cases action with
  | prepare job =>
      cases hStep
      exact ⟨h.alone, h.serves⟩
  | run call job =>
      have hNobody : ∀ other, (run.calls other).busy = true → other = call := by
        intro other hOther
        rw [hSerial other] at hOther
        cases hOther
      simp only [JobServiceRun.step] at hStep
      split at hStep
      · split at hStep
        · cases hStep
          exact .of_alone hNobody rfl trivial
        · split at hStep <;> cases hStep
          · exact .of_alone hNobody rfl trivial
          next metrics hChannel =>
            exact .of_alone hNobody (setJobState_move_calls ..) (channelOf_eq_some hChannel).1
      · cases hStep
  | cancel call job =>
      have hNobody : ∀ other, (run.calls other).busy = true → other = call := by
        intro other hOther
        rw [hSerial other] at hOther
        cases hOther
      simp only [JobServiceRun.step] at hStep
      split at hStep <;> cases hStep
      exact .of_alone hNobody rfl trivial
  | acquire call =>
      simp only [JobServiceRun.step] at hStep
      split at hStep
      next request part hWaiting =>
        have hServes := h.serves call
        split at hStep <;> cases hStep
        refine .of_alone (hAlone call (by rw [hWaiting]; rfl)) rfl ?_
        rw [hWaiting] at hServes
        cases request with
        | cancel job => trivial
        | run job =>
            cases part with
            | shutDown result => trivial
            | resetChannels metrics | setLogTarget | setJobStore | waitConnected | runPipeline => exact hServes
      · cases hStep
  | beginJob call =>
      simp only [JobServiceRun.step] at hStep
      split at hStep <;> cases hStep
      next job metrics hInside =>
        have hServes := h.serves call
        rw [hInside] at hServes
        exact .of_alone (hAlone call (by rw [hInside]; rfl)) rfl ⟨rfl, hServes⟩
  | install call =>
      simp only [JobServiceRun.step] at hStep
      split at hStep <;> cases hStep
      next job metrics hResetting =>
        have hServes := h.serves call
        rw [hResetting] at hServes
        exact .of_alone (hAlone call (by rw [hResetting]; rfl)) rfl
          ⟨hServes.1, congrArg some hServes.2⟩
  | setLogTarget call =>
      simp only [JobServiceRun.step] at hStep
      split at hStep <;> cases hStep
      next job hInside =>
        have hServes := h.serves call
        rw [hInside] at hServes
        exact .of_alone (hAlone call (by rw [hInside]; rfl)) rfl hServes
  | spawnWorker call result =>
      simp only [JobServiceRun.step] at hStep
      split at hStep
      next job hSpawning =>
        have hServes := h.serves call
        rw [hSpawning] at hServes
        split at hStep <;> cases hStep
        · exact .of_alone (hAlone call (by rw [hSpawning]; rfl)) rfl hServes
        · exact .of_alone (hAlone call (by rw [hSpawning]; rfl)) rfl trivial
      · cases hStep
  | setJobStore call result =>
      simp only [JobServiceRun.step] at hStep
      split at hStep
      next job hInside =>
        have hServes := h.serves call
        rw [hInside] at hServes
        split at hStep <;> cases hStep
        · exact .of_alone (hAlone call (by rw [hInside]; rfl)) rfl ⟨hServes.1, hServes.2, rfl⟩
        · exact .of_alone (hAlone call (by rw [hInside]; rfl)) rfl trivial
      · cases hStep
  | connect call result | preparePipeline call result =>
      simp only [JobServiceRun.step] at hStep
      split at hStep
      next job hInside =>
        have hServes := h.serves call
        rw [hInside] at hServes
        split at hStep <;> cases hStep
        · exact .of_alone (hAlone call (by rw [hInside]; rfl)) rfl hServes
        · exact .of_alone (hAlone call (by rw [hInside]; rfl)) rfl trivial
      · cases hStep
  | timeout call seconds =>
      simp only [JobServiceRun.step] at hStep
      split at hStep <;> cases hStep
      next job hWaiting => exact .of_alone (hAlone call (by rw [hWaiting]; rfl)) rfl trivial
      next job hInside => exact .of_alone (hAlone call (by rw [hInside]; rfl)) rfl trivial
  | completeBundle call monitoringInfos =>
      simp only [JobServiceRun.step] at hStep
      split at hStep <;> cases hStep
      rw [recordMetrics]
      split
      · exact h
      · exact ⟨h.alone, h.serves⟩
  | runPipeline call result =>
      simp only [JobServiceRun.step] at hStep
      split at hStep <;> cases hStep
      next job hExecuting => exact .of_alone (hAlone call (by rw [hExecuting]; rfl)) rfl trivial
  | harnessFailed call =>
      simp only [JobServiceRun.step] at hStep
      split at hStep <;> cases hStep
      next job message hExecuting _ =>
        exact .of_alone (hAlone call (by rw [hExecuting]; rfl)) rfl trivial
  | shutDown call =>
      simp only [JobServiceRun.step] at hStep
      split at hStep <;> cases hStep
      next request result hInside =>
        refine .of_alone (hAlone call (by rw [hInside]; rfl)) rfl ?_
        cases request <;> trivial
  | stopWorker call stopped =>
      simp only [JobServiceRun.step] at hStep
      split at hStep
      next job result hStopping =>
        cases hStep
        exact .of_alone (hAlone call (by rw [hStopping]; rfl)) (setJobState_move_calls ..) trivial
      next job result hStopping =>
        split at hStep <;> cases hStep
        · exact .of_alone (hAlone call (by rw [hStopping]; rfl)) (setJobState_move_calls ..) trivial
        · exact .of_alone (hAlone call (by rw [hStopping]; rfl)) rfl trivial
      · cases hStep
  | reportFailure stream error =>
      cases hStep
      refine ⟨h.alone, fun call => ?_⟩
      have hServes := h.serves call
      have hShutdown := reportFailure_shutdown run.dispatcher.status stream error
      revert hServes
      simp only [setStatus, Serves, hShutdown]
      exact id
  | subscribe reader job =>
      simp only [JobServiceRun.step] at hStep
      split at hStep <;> cases hStep
      exact ⟨h.alone, h.serves⟩
  | follow reader act =>
      simp only [JobServiceRun.step] at hStep
      split at hStep
      · split at hStep
        · cases hStep
        · obtain ⟨feed, _, rfl⟩ := Option.map_eq_some_iff.mp hStep
          exact ⟨h.alone, h.serves⟩
      · cases hStep

variable {run : JobServiceRun}

/-- A request to run that finds the lock free each time gets as far as its wait
for the harness, with its own accumulator and store in place. -/
theorem reaches_connection {call : Nat} {job : String} {metrics : String × Nat}
    (hFree : run.holder = none) (hIdle : run.calls call = .idle) (hName : job ≠ "")
    (hChannel : run.channelOf job = some metrics) :
    ∃ after, Runs.Reaches step (fun _ _ => True) run after ∧ after.holder = none ∧
      after.calls = Function.update run.calls call (.waiting (.run job) .waitConnected) ∧
      after.dispatcher.store = some job ∧ after.dispatcher.metrics = some metrics := by
  let started := ((run.clearMetrics metrics).setJobState job .running).move call
    (.waiting (.run job) (.resetChannels metrics))
  have hStarted : Runs.Reaches step (fun _ _ => True) run started :=
    (Runs.Reaches.refl run).snoc (.run call job) trivial
      (by simp [step, hIdle, hName, hChannel, started])
  have hHolder : started.holder = none := by
    simp only [started, JobServiceRun.setJobState, move]
    split <;> exact hFree
  have hCalls : started.calls =
      Function.update run.calls call (.waiting (.run job) (.resetChannels metrics)) :=
    setJobState_move_calls ..
  have hPlay : (Runs.play step started [.acquire call, .beginJob call, .install call, .acquire call,
      .setLogTarget call, .spawnWorker call (.ok ()), .acquire call,
      .setJobStore call (.ok ())]).isSome = true := by
    simp [Runs.play, step, hHolder, hCalls, acquire, release, move, resetChannels, setJobMetrics]
  obtain ⟨after, hAfter⟩ := Option.isSome_iff_exists.mp hPlay
  refine ⟨after, hStarted.trans (Runs.reaches_of_play (fun _ _ => trivial) hAfter), ?_⟩
  simp [Runs.play, step, hHolder, hCalls, acquire, release, move, resetChannels, setJobMetrics,
    JobServiceRun.setJobStore] at hAfter
  subst hAfter
  exact ⟨rfl, rfl, rfl, rfl⟩

/-- A request that waits for the harness goes on to execute with whatever is
shared by then. -/
theorem reaches_execution {call : Nat} {job : String} (hFree : run.holder = none)
    (hWaiting : run.calls call = .waiting (.run job) .waitConnected) :
    ∃ after, Runs.Reaches step (fun _ _ => True) run after ∧
      after.calls = Function.update run.calls call (.executing job) ∧
      after.dispatcher = run.dispatcher := by
  have hPlay : Runs.play step run [.acquire call, .connect call (.ok ()), .acquire call,
      .preparePipeline call (.ok ())] =
        some ((((run.acquire call (.inside (.run job) .waitConnected)).release call
          (.waiting (.run job) .runPipeline)).acquire call (.inside (.run job) .runPipeline)).move call
            (.executing job)) := by
    simp [Runs.play, step, hFree, hWaiting, acquire, release, move]
  refine ⟨_, Runs.reaches_of_play (fun _ _ => trivial) hPlay, ?_, rfl⟩
  simp [acquire, release, move]

/-- A request to cancel, of whatever job, marks the shutdown of the harness
there is. -/
theorem reaches_shutdown {call : Nat} (job : String) (hFree : run.holder = none)
    (hIdle : run.calls call = .idle) :
    ∃ after, Runs.Reaches step (fun _ _ => True) run after ∧ after.holder = none ∧
      after.calls = Function.update run.calls call (.stopping (.cancel job) (.ok ())) ∧
      after.dispatcher.status = run.dispatcher.status.beginIntentionalShutdown := by
  have hPlay : Runs.play step run [.cancel call job, .acquire call, .shutDown call] =
      some ((((run.move call (.waiting (.cancel job) (.shutDown (.ok ())))).acquire call
        (.inside (.cancel job) (.shutDown (.ok ())))).setStatus
          run.dispatcher.status.beginIntentionalShutdown).release call
            (.stopping (.cancel job) (.ok ()))) := by
    simp [Runs.play, step, hFree, hIdle, acquire, release, move, setStatus]
  refine ⟨_, Runs.reaches_of_play (fun _ _ => trivial) hPlay, rfl, ?_, rfl⟩
  simp [acquire, release, move, setStatus]

/-- A second request to run the job of an accumulator empties it at once, whoever
has the lock. -/
theorem clears_accumulator {call : Nat} {metrics : String × Nat} (hIdle : run.calls call = .idle)
    (hName : metrics.1 ≠ "") (hChannel : run.channelOf metrics.1 = some metrics) :
    ∃ after, run.step (.run call metrics.1) = some after ∧ after.dispatcher = run.dispatcher ∧
      after.calls = Function.update run.calls call
        (.waiting (.run metrics.1) (.resetChannels metrics)) ∧
      after.collected metrics = [] := by
  let after := ((run.clearMetrics metrics).setJobState metrics.1 .running).move call
    (.waiting (.run metrics.1) (.resetChannels metrics))
  have hStep : run.step (.run call metrics.1) = some after := by
    simp only [JobServiceRun.step, hIdle, if_neg hName, hChannel, after]
  refine ⟨after, hStep, ?_, setJobState_move_calls .., ?_⟩
  · simp only [after, JobServiceRun.setJobState, move]
    split <;> rfl
  · have hCollected : after.collected = (run.clearMetrics metrics).collected :=
      collected_setJobState ..
    rw [hCollected]
    exact Function.update_self _ _ _

/-- A request to run that waits for the harness is overtaken by one for another
job, and executes on what that one has put there. -/
theorem overtaken {call other : Nat} {job third : String} {metrics : String × Nat}
    (hFree : run.holder = none) (hWaiting : run.calls call = .waiting (.run job) .waitConnected)
    (hIdle : run.calls other = .idle) (hName : third ≠ "")
    (hChannel : run.channelOf third = some metrics) :
    ∃ after, Runs.Reaches step (fun _ _ => True) run after ∧
      after.calls call = .executing job ∧ after.dispatcher.store = some third ∧
      after.dispatcher.metrics = some metrics := by
  obtain ⟨middle, hMiddle, hHolder, hCalls, hStore, hMetrics⟩ :=
    reaches_connection hFree hIdle hName hChannel
  have hNe : call ≠ other := by
    intro hSame
    rw [hSame, hIdle] at hWaiting
    cases hWaiting
  have hStill : middle.calls call = .waiting (.run job) .waitConnected := by
    rw [hCalls, Function.update_of_ne hNe, hWaiting]
  obtain ⟨after, hAfter, hExecuting, hShared⟩ := reaches_execution hHolder hStill
  refine ⟨after, hMiddle.trans hAfter, ?_, hShared ▸ hStore, hShared ▸ hMetrics⟩
  rw [hExecuting, Function.update_self]

/-- A cancellation that is marked before a waiting run executes silences every
failure of that run. -/
theorem silenced {call other : Nat} {job : String} (third : String) (hFree : run.holder = none)
    (hWaiting : run.calls call = .waiting (.run job) .waitConnected)
    (hIdle : run.calls other = .idle) :
    ∃ after, Runs.Reaches step (fun _ _ => True) run after ∧
      after.calls call = .executing job ∧ after.calls other = .stopping (.cancel third) (.ok ()) ∧
      after.dispatcher.status.failure = run.dispatcher.status.failure ∧
      ∀ stream error, after.step (.reportFailure stream error) = some after := by
  obtain ⟨middle, hMiddle, hHolder, hCalls, hStatus⟩ := reaches_shutdown third hFree hIdle
  have hNe : call ≠ other := by
    intro hSame
    rw [hSame, hIdle] at hWaiting
    cases hWaiting
  have hStill : middle.calls call = .waiting (.run job) .waitConnected := by
    rw [hCalls, Function.update_of_ne hNe, hWaiting]
  obtain ⟨after, hAfter, hExecuting, hShared⟩ := reaches_execution hHolder hStill
  have hSilent : after.dispatcher.status = run.dispatcher.status.beginIntentionalShutdown := by
    rw [hShared, hStatus]
  refine ⟨after, hMiddle.trans hAfter, ?_, ?_, ?_, fun stream error => ?_⟩
  · rw [hExecuting, Function.update_self]
  · rw [hExecuting, Function.update_of_ne (Ne.symm hNe), hCalls, Function.update_self]
  · rw [hSilent]
    rfl
  · have hSame : (after.dispatcher.status.reportFailure stream error).1 =
        after.dispatcher.status := by
      rw [hSilent]
      rfl
    rw [JobServiceRun.step, hSame]
    rfl

/-- While a pipeline executes, no other request touches what it works with, and
a request to cancel that waits goes on waiting; and when requests come one after
the other, it works with its own store and metrics, and failures are reported to
it. Requests that overlap break either: between the time its store is set and
the execution, another run puts its own store and accumulator there, and a
cancellation of any job silences the failures. What bundles have reported is kept
unless the job of the accumulator is asked to run again, which loses it at once. -/
theorem executions_are_apart (hRun : Runs.Reaches step (fun _ _ => True) start run) :
    (∀ call job after, run.calls call = .executing job →
      Runs.Reaches step (fun _ action => actor action ≠ some call) run after →
        Undisturbed call run after) ∧
      (∀ call job metrics, run.calls call = .executing job →
        (∀ after, Runs.Reaches step (fun _ action => actor action ≠ some call ∧
          ∀ other, action ≠ .run other metrics.1) run after →
            after.collected metrics = run.collected metrics) ∧
        ∀ other, run.calls other = .idle → metrics.1 ≠ "" →
          run.channelOf metrics.1 = some metrics →
          ∃ after, run.step (.run other metrics.1) = some after ∧
            after.calls call = .executing job ∧ after.dispatcher = run.dispatcher ∧
            after.collected metrics = []) ∧
      (∀ after call job, Runs.Reaches step Serial start after → after.calls call = .executing job →
        after.dispatcher.store = some job ∧ after.dispatcher.metrics.map Prod.fst = some job ∧
          after.dispatcher.status.intentionalShutdown = false) ∧
      ∀ call job other third, run.holder = none →
        run.calls call = .waiting (.run job) .waitConnected → run.calls other = .idle →
        (∀ metrics, third ≠ "" → run.channelOf third = some metrics →
          ∃ after, Runs.Reaches step (fun _ _ => True) run after ∧
            after.calls call = .executing job ∧ after.dispatcher.store = some third ∧
            after.dispatcher.metrics = some metrics) ∧
        ∃ after, Runs.Reaches step (fun _ _ => True) run after ∧
          after.calls call = .executing job ∧ after.calls other = .stopping (.cancel third) (.ok ()) ∧
          after.dispatcher.status.failure = run.dispatcher.status.failure ∧
          ∀ stream error, after.step (.reportFailure stream error) = some after := by
  have hCoherent := Coherent.of_reaches hRun
  refine ⟨fun call job after hExecuting hAfter => ?_, fun call job metrics hExecuting => ?_,
    fun after call job hSerial hExecuting => ?_, ?_⟩
  · exact .of_reaches hCoherent (by rw [hExecuting]; rfl) hAfter
  · refine ⟨fun after hAfter => collected_of_reaches hCoherent (by rw [hExecuting]; rfl) hAfter,
      fun other hIdle hName hChannel => ?_⟩
    have hNe : call ≠ other := by
      intro hSame
      rw [hSame, hIdle] at hExecuting
      cases hExecuting
    obtain ⟨after, hAfter, hShared, hCalls, hLost⟩ := clears_accumulator hIdle hName hChannel
    refine ⟨after, hAfter, ?_, hShared, hLost⟩
    rw [hCalls, Function.update_of_ne hNe, hExecuting]
  · have hOne : after.OneByOne := hSerial.invariant
      (fun _ _ _ hAllowed hStep hBefore => OneByOne.step hBefore hAllowed hStep) OneByOne.start
    have hServes := hOne.serves call
    rw [hExecuting] at hServes
    exact ⟨hServes.2.2, hServes.2.1, hServes.1⟩
  · exact fun call job other third hFree hWaiting hIdle =>
      ⟨fun metrics hName hChannel => overtaken hFree hWaiting hIdle hName hChannel,
        silenced third hFree hWaiting hIdle⟩

/-- One run waits for its harness, and another is asked for. -/
def overlappedRun : JobServiceRun :=
  (Runs.play step start [.prepare "first", .prepare "second", .run 0 "first", .acquire 0,
    .beginJob 0, .install 0, .acquire 0, .setLogTarget 0, .spawnWorker 0 (.ok ()), .acquire 0,
    .setJobStore 0 (.ok ())]).getD start

/-- A counter of three. -/
def counterInfo : Metrics.MonitoringInfo where
  urn := "beam:metric:user:test:v1"
  type := Metrics.sumInt64Type
  payload := [3]
  labels := ∅
  startTime := none

/-- The first run executes, and a bundle of it has reported. -/
def reportedRun : JobServiceRun :=
  (Runs.play step overlappedRun [.acquire 0, .connect 0 (.ok ()), .acquire 0,
    .preparePipeline 0 (.ok ()), .completeBundle 0 [counterInfo]]).getD start

theorem executions_are_apart_overlapped :
    overlappedRun.dispatcher.store = some "first" ∧
      (∃ after, Runs.Reaches step (fun _ _ => True) overlappedRun after ∧
        after.calls 0 = .executing "first" ∧ after.dispatcher.store = some "second" ∧
          after.dispatcher.metrics = some ("second", 0)) ∧
      reportedRun.dispatcher.metrics = some ("first", 0) ∧
      (reportedRun.collected ("first", 0)).length = 1 ∧
      ∃ after, reportedRun.step (.run 1 "first") = some after ∧
        after.calls 0 = .executing "first" ∧ after.dispatcher = reportedRun.dispatcher ∧
        after.collected ("first", 0) = [] := by
  have hRun : Runs.Reaches step (fun _ _ => True) start overlappedRun :=
    Runs.reaches_getD_play (fun _ _ => trivial) (by decide +kernel) start
  have hReported : Runs.Reaches step (fun _ _ => True) overlappedRun reportedRun :=
    Runs.reaches_getD_play (fun _ _ => trivial) (by decide +kernel) start
  refine ⟨by decide +kernel, ?_, by decide +kernel, by decide +kernel, ?_⟩
  · exact ((executions_are_apart hRun).2.2.2 0 "first" 1 "second" (by decide +kernel)
      (by decide +kernel) (by decide +kernel)).1 ("second", 0) (by decide) (by decide +kernel)
  · exact ((executions_are_apart (hRun.trans hReported)).2.1 0 "first" ("first", 0)
      (by decide +kernel)).2 1 (by decide +kernel) (by decide) (by decide +kernel)

end JobServiceRun

end FlareDB
