import FlareDB.Engine.OutputElements
import FlareDB.Lib.Runs
import FlareDB.Lib.Results

/-! The outputs of one bundle of a worker stage. Every output PCollection has a
task of its own, which receives, decodes and commits; another task awaits them
in order; and the executor selects between the control response, that task and
a failure of the input pump. -/
namespace FlareDB

open Runs Results

/-- The output channel of one PCollection: the messages the worker sends, and
whether the channel is closed after them. -/
structure OutputStream where
  edge : OutputEdge
  messages : List ElementStreamPayload
  closes : Bool

/-- Where a decode task is. An ended task has committed what it decoded, or has
failed; `closed` tells an end by a closed channel from one by `is_last`. -/
inductive TaskPhase where
  | receiving (buffer : List UInt8) (batch : List WindowedValue)
      (remaining : List ElementStreamPayload)
  | ended (closed : Bool) (result : Except OutputError (List WindowedValue))

namespace OutputStream

variable (stream : OutputStream)

/-- A task receives one message, or sees its channel closed. -/
def receiveNext : TaskPhase → Option TaskPhase
  | .receiving buffer batch [] =>
      if stream.closes then some (.ended true (OutputEdge.finish buffer batch)) else none
  | .receiving buffer batch (.timers :: remaining) => some (.receiving buffer batch remaining)
  | .receiving buffer batch (.data bytes isLast :: remaining) =>
      match stream.edge.drain isLast (buffer ++ bytes).length (buffer ++ bytes) batch with
      | .error reason => some (.ended false (.error reason))
      | .ok (buffer, batch) =>
          if isLast then some (.ended false (OutputEdge.finish buffer batch))
          else some (.receiving buffer batch remaining)
  | .ended _ _ => none

def start : TaskPhase :=
  .receiving [] [] stream.messages

/-- How a task ends on the messages left, if it ends. -/
def outcomeFrom (buffer : List UInt8) (batch : List WindowedValue) :
    List ElementStreamPayload → Option (Bool × Except OutputError (List WindowedValue))
  | [] => if stream.closes then some (true, OutputEdge.finish buffer batch) else none
  | .timers :: remaining => outcomeFrom buffer batch remaining
  | .data bytes isLast :: remaining =>
      match stream.edge.drain isLast (buffer ++ bytes).length (buffer ++ bytes) batch with
      | .error reason => some (false, .error reason)
      | .ok (buffer, batch) =>
          if isLast then some (false, OutputEdge.finish buffer batch)
          else outcomeFrom buffer batch remaining

def outcome : Option (Bool × Except OutputError (List WindowedValue)) :=
  stream.outcomeFrom [] [] stream.messages

def outcomeOf : TaskPhase → Option (Bool × Except OutputError (List WindowedValue))
  | .receiving buffer batch remaining => stream.outcomeFrom buffer batch remaining
  | .ended closed result => some (closed, result)

end OutputStream

/-- What the environment of a bundle does: the output streams, the control
response (an error is `false`), and whether the input pump fails. -/
structure BundleEvents where
  outputs : List OutputStream
  response : Option Bool
  inputFails : Bool

/-- The task that awaits the decode tasks in order. -/
inductive AwaitPhase where
  | awaiting (index : Nat)
  | done
  | failed
deriving DecidableEq, Repr

/-- The executor: selecting, with the response and awaiting the decode tasks,
with the decode tasks and awaiting the response, or returned. -/
inductive ExecutorPhase where
  | selecting (watchInput : Bool)
  | responded
  | drained
  | succeeded
  | failed
deriving DecidableEq, Repr

structure BundleWorld where
  tasks : List TaskPhase
  commits : List (Nat × List WindowedValue)
  awaiting : AwaitPhase
  executor : ExecutorPhase

inductive BundleStep where
  | receive (index : Nat)
  | join
  | takeResponse
  | takeDecode
  | takeInputError
  | inputFinished
deriving DecidableEq, Repr

/-- The commit a task makes when it ends: its call of `PCollectionWriter::commit`.
A stream without rows makes the call as well, and the writer then writes nothing. -/
def commitOf (index : Nat) : TaskPhase → List (Nat × List WindowedValue)
  | .ended _ (.ok rows) => [(index, rows)]
  | _ => []

namespace BundleEvents

variable (bundle : BundleEvents)

def initial : BundleWorld where
  tasks := bundle.outputs.map OutputStream.start
  commits := []
  awaiting := .awaiting 0
  executor := .selecting true

def receive (world : BundleWorld) (index : Nat) : Option BundleWorld :=
  match bundle.outputs[index]?, world.tasks[index]? with
  | some stream, some phase => (stream.receiveNext phase).map fun next =>
      { world with
        tasks := world.tasks.set index next
        commits := world.commits ++ commitOf index next }
  | _, _ => none

def join (world : BundleWorld) : Option BundleWorld :=
  match world.awaiting with
  | .awaiting index => match world.tasks[index]? with
      | none => some { world with awaiting := .done }
      | some (.ended _ (.ok _)) => some { world with awaiting := .awaiting (index + 1) }
      | some (.ended _ (.error _)) => some { world with awaiting := .failed }
      | some (.receiving _ _ _) => none
  | _ => none

/-- The control response. Without outputs there is nothing else to await. -/
def takeResponse (world : BundleWorld) : Option BundleWorld :=
  match world.executor, bundle.response with
  | .selecting _, some true =>
      some { world with executor := if bundle.outputs.isEmpty then .succeeded else .responded }
  | .drained, some true => some { world with executor := .succeeded }
  | .selecting _, some false | .drained, some false => some { world with executor := .failed }
  | _, _ => none

def takeDecode (world : BundleWorld) : Option BundleWorld :=
  if bundle.outputs.isEmpty then none
  else match world.executor, world.awaiting with
    | .selecting _, .done => some { world with executor := .drained }
    | .responded, .done => some { world with executor := .succeeded }
    | .selecting _, .failed | .responded, .failed => some { world with executor := .failed }
    | _, _ => none

def step (world : BundleWorld) : BundleStep → Option BundleWorld
  | .receive index => bundle.receive world index
  | .join => join world
  | .takeResponse => bundle.takeResponse world
  | .takeDecode => bundle.takeDecode world
  | .takeInputError =>
      if world.executor = .selecting true ∧ bundle.inputFails = true then
        some { world with executor := .failed }
      else none
  | .inputFinished =>
      if world.executor = .selecting true ∧ bundle.inputFails = false then
        some { world with executor := .selecting false }
      else none

end BundleEvents

/-- A task that failed, or whose channel was closed before `is_last`. -/
def TaskPhase.Broken : TaskPhase → Prop
  | .ended _ (.error _) => True
  | .ended closed (.ok _) => closed = true
  | .receiving _ _ _ => False

/-- The bundle has failed: the executor returned an error, an output could not
be decoded, or an output channel was closed too early. -/
def BundleWorld.Fails (world : BundleWorld) : Prop :=
  world.executor = .failed ∨ ∃ phase ∈ world.tasks, phase.Broken

/-- What was committed to one output. -/
def BundleWorld.commitsTo (world : BundleWorld) (index : Nat) : List (Nat × List WindowedValue) :=
  world.commits.filter fun commit => commit.1 = index

/-- A failed bundle has published nothing; one that succeeded has committed
every output once, with its decoded elements. -/
def BundleEvents.Atomic (bundle : BundleEvents) (world : BundleWorld) : Prop :=
  (world.Fails → world.commits = []) ∧
  (world.executor = .succeeded → ∀ index stream, bundle.outputs[index]? = some stream →
    ∃ rows, stream.edge.processOutputElements stream.messages = .ok rows ∧
      world.commitsTo index = [(index, rows)])

namespace OutputStream

variable {stream : OutputStream}

/-- Receiving does not change what a task will come to. -/
theorem outcomeOf_receiveNext {phase next : TaskPhase} (h : stream.receiveNext phase = some next) :
    stream.outcomeOf next = stream.outcomeOf phase := by
  match phase, h with
  | .receiving buffer batch [], h =>
      simp only [receiveNext] at h
      split at h
      next hCloses =>
        cases h
        simp [outcomeOf, outcomeFrom, hCloses]
      · cases h
  | .receiving buffer batch (.timers :: remaining), h =>
      cases h
      rfl
  | .receiving buffer batch (.data bytes isLast :: remaining), h =>
      simp only [receiveNext] at h
      simp only [outcomeOf, outcomeFrom]
      split at h
      next hDrain =>
        cases h
        rfl
      next hDrain =>
        split at h
        next hLast =>
          cases h
          exact (if_pos hLast).symm
        next hMore =>
          cases h
          exact (if_neg hMore).symm

/-- A task that ends has decoded what the receive loop decodes. -/
theorem receive_of_outcomeFrom {buffer : List UInt8} {batch : List WindowedValue}
    {messages : List ElementStreamPayload} {closed : Bool}
    {result : Except OutputError (List WindowedValue)}
    (h : stream.outcomeFrom buffer batch messages = some (closed, result)) :
    stream.edge.receive buffer batch messages = result := by
  induction messages generalizing buffer batch with
  | nil =>
      rw [outcomeFrom] at h
      split at h
      · cases h
        rfl
      · cases h
  | cons message messages ih =>
      cases message with
      | timers => exact ih h
      | data bytes isLast =>
          rw [outcomeFrom] at h
          rw [OutputEdge.receive]
          cases hDrain : stream.edge.drain isLast (buffer ++ bytes).length (buffer ++ bytes) batch with
          | error reason =>
              rw [hDrain] at h
              cases h
              rfl
          | ok drained =>
              rw [hDrain] at h
              cases isLast with
              | true =>
                  cases h
                  rfl
              | false => exact ih h

end OutputStream

/-- A task that has committed. -/
def TaskPhase.Committed (phase : TaskPhase) : Prop :=
  ∃ closed rows, phase = .ended closed (.ok rows)

/-- A task that could not decode its stream. -/
def TaskPhase.Undecodable (phase : TaskPhase) : Prop :=
  ∃ closed reason, phase = .ended closed (.error reason)

/-- What the awaiting task has seen. -/
def AwaitPhase.Saw (tasks : List TaskPhase) : AwaitPhase → Prop
  | .awaiting index => ∀ earlier < index, ∃ phase, tasks[earlier]? = some phase ∧ phase.Committed
  | .done => ∀ phase ∈ tasks, phase.Committed
  | .failed => ∃ phase ∈ tasks, phase.Undecodable

/-- What the executor has seen. -/
def ExecutorPhase.Saw (bundle : BundleEvents) (tasks : List TaskPhase) : ExecutorPhase → Prop
  | .selecting _ => True
  | .responded => bundle.response = some true
  | .drained => ∀ phase ∈ tasks, phase.Committed
  | .succeeded => bundle.response = some true ∧ ∀ phase ∈ tasks, phase.Committed
  | .failed => bundle.response = some false ∨ bundle.inputFails = true ∨
      ∃ phase ∈ tasks, phase.Undecodable

/-- The invariant of a bundle. -/
structure BundleEvents.Tracks (bundle : BundleEvents) (world : BundleWorld) : Prop where
  tasks : List.Forall₂ (fun stream phase => stream.outcomeOf phase = stream.outcome)
    bundle.outputs world.tasks
  commits : ∀ index, world.commitsTo index = world.tasks[index]?.elim [] (commitOf index)
  awaiting : world.awaiting.Saw world.tasks
  executor : world.executor.Saw bundle world.tasks

/-- A task commits its own output. -/
theorem commitOf_index {index : Nat} {phase : TaskPhase} {commit : Nat × List WindowedValue}
    (h : commit ∈ commitOf index phase) : commit.1 = index := by
  match phase, h with
  | .ended _ (.ok rows), h => rw [List.mem_singleton.mp h]
  | .ended _ (.error _), h => cases h
  | .receiving _ _ _, h => cases h

/-- Only a task that is receiving receives. -/
theorem receiving_of_receiveNext {stream : OutputStream} {phase next : TaskPhase}
    (h : stream.receiveNext phase = some next) :
    ∃ buffer batch remaining, phase = .receiving buffer batch remaining := by
  cases phase with
  | receiving buffer batch remaining => exact ⟨buffer, batch, remaining, rfl⟩
  | ended closed result => cases h

section SetTask

variable {tasks : List TaskPhase} {index : Nat} {buffer : List UInt8} {batch : List WindowedValue}
  {remaining : List ElementStreamPayload} {next : TaskPhase}

/-- A task that has ended is not the one that receives. -/
theorem getElem?_set_ended (hTask : tasks[index]? = some (.receiving buffer batch remaining))
    {other : Nat} {closed : Bool} {result : Except OutputError (List WindowedValue)}
    (h : tasks[other]? = some (.ended closed result)) :
    (tasks.set index next)[other]? = some (.ended closed result) := by
  have hNe : index ≠ other := by
    intro hSame
    rw [hSame, h] at hTask
    cases hTask
  rw [List.getElem?_set_ne hNe, h]

/-- What the awaiting side saw stands while another task receives. -/
theorem AwaitPhase.Saw.set (hTask : tasks[index]? = some (.receiving buffer batch remaining))
    {awaiting : AwaitPhase} (h : awaiting.Saw tasks) : awaiting.Saw (tasks.set index next) := by
  cases awaiting with
  | awaiting limit =>
      intro earlier hLess
      obtain ⟨phase, hPhase, closed, rows, rfl⟩ := h earlier hLess
      exact ⟨_, getElem?_set_ended hTask hPhase, closed, rows, rfl⟩
  | done =>
      obtain ⟨closed, rows, hEnded⟩ := h _ (List.mem_of_getElem? hTask)
      cases hEnded
  | failed =>
      obtain ⟨phase, hMem, closed, reason, rfl⟩ := h
      obtain ⟨other, hOther⟩ := List.mem_iff_getElem?.mp hMem
      exact ⟨_, List.mem_of_getElem? (getElem?_set_ended hTask hOther), closed, reason, rfl⟩

/-- So does what the executor saw. -/
theorem ExecutorPhase.Saw.set {bundle : BundleEvents}
    (hTask : tasks[index]? = some (.receiving buffer batch remaining))
    {executor : ExecutorPhase} (h : executor.Saw bundle tasks) :
    executor.Saw bundle (tasks.set index next) := by
  cases executor with
  | selecting _ => trivial
  | responded => exact h
  | drained =>
      obtain ⟨closed, rows, hEnded⟩ := h _ (List.mem_of_getElem? hTask)
      cases hEnded
  | succeeded =>
      obtain ⟨closed, rows, hEnded⟩ := h.2 _ (List.mem_of_getElem? hTask)
      cases hEnded
  | failed => exact h.imp_right fun hRest => hRest.imp_right fun hFailed =>
      have hSaw : AwaitPhase.failed.Saw tasks := hFailed
      hSaw.set hTask

end SetTask

namespace BundleEvents

variable {bundle : BundleEvents} {world next : BundleWorld}

/-- At the start nobody has seen anything. -/
theorem tracks_initial (bundle : BundleEvents) : bundle.Tracks bundle.initial where
  tasks := by
    show List.Forall₂ _ bundle.outputs (bundle.outputs.map OutputStream.start)
    rw [List.forall₂_map_right_iff]
    exact List.forall₂_same.mpr fun _ _ => rfl
  commits index := by
    show [] = (bundle.outputs.map OutputStream.start)[index]?.elim [] (commitOf index)
    rw [List.getElem?_map]
    cases bundle.outputs[index]? <;> rfl
  awaiting earlier h := absurd h (Nat.not_lt_zero earlier)
  executor := trivial

/-- A task that receives keeps all that was seen true. -/
theorem Tracks.receive (h : bundle.Tracks world) {index : Nat}
    (hStep : bundle.receive world index = some next) : bundle.Tracks next := by
  rw [BundleEvents.receive] at hStep
  cases hStream : bundle.outputs[index]? with
  | none =>
      rw [hStream] at hStep
      cases hStep
  | some stream =>
      cases hPhase : world.tasks[index]? with
      | none =>
          rw [hStream, hPhase] at hStep
          cases hStep
      | some phase =>
          rw [hStream, hPhase] at hStep
          obtain ⟨moved, hMoved, rfl⟩ := Option.map_eq_some_iff.mp hStep
          obtain ⟨buffer, batch, remaining, rfl⟩ := receiving_of_receiveNext hMoved
          have hLess : index < world.tasks.length := (List.getElem?_eq_some_iff.mp hPhase).1
          refine ⟨?_, ?_, h.awaiting.set hPhase, h.executor.set hPhase⟩
          · apply forall₂_of_rows
            · rw [List.length_set, h.tasks.length_eq]
            · intro row found phase hFound hRow
              obtain ⟨old, hOld, hOutcome⟩ := forall₂_row h.tasks hFound
              by_cases hSame : index = row
              · subst hSame
                rw [List.getElem?_set_self hLess] at hRow
                cases hRow
                cases hStream.symm.trans hFound
                cases hPhase.symm.trans hOld
                rw [OutputStream.outcomeOf_receiveNext hMoved, hOutcome]
              · rw [List.getElem?_set_ne hSame, hOld] at hRow
                cases hRow
                exact hOutcome
          · intro other
            show (world.commits ++ commitOf index moved).filter (fun commit => commit.1 = other) =
              (world.tasks.set index moved)[other]?.elim [] (commitOf other)
            have hOld : world.commits.filter (fun commit => commit.1 = other) =
                world.tasks[other]?.elim [] (commitOf other) := h.commits other
            rw [List.filter_append, hOld]
            by_cases hSame : index = other
            · subst hSame
              rw [List.getElem?_set_self hLess, hPhase]
              exact List.filter_eq_self.mpr fun commit hMem => decide_eq_true (commitOf_index hMem)
            · have hNone : (commitOf index moved).filter (fun commit => commit.1 = other) = [] := by
                apply List.filter_eq_nil_iff.mpr
                intro commit hMem hOther
                exact hSame ((commitOf_index hMem).symm.trans (of_decide_eq_true hOther))
              rw [List.getElem?_set_ne hSame, hNone, List.append_nil]

/-- So does a task that is joined. -/
theorem Tracks.join (h : bundle.Tracks world) (hStep : BundleEvents.join world = some next) :
    bundle.Tracks next := by
  rw [BundleEvents.join] at hStep
  cases hAwaiting : world.awaiting with
  | done =>
      rw [hAwaiting] at hStep
      cases hStep
  | failed =>
      rw [hAwaiting] at hStep
      cases hStep
  | awaiting index =>
      have hSaw : (AwaitPhase.awaiting index).Saw world.tasks := hAwaiting ▸ h.awaiting
      rw [hAwaiting] at hStep
      match hPhase : world.tasks[index]? with
      | none =>
          simp only [hPhase] at hStep
          cases hStep
          refine ⟨h.tasks, h.commits, ?_, h.executor⟩
          intro phase hMem
          obtain ⟨row, hRow⟩ := List.mem_iff_getElem?.mp hMem
          have hLess : row < index :=
            Nat.lt_of_lt_of_le (List.getElem?_eq_some_iff.mp hRow).1
              (List.getElem?_eq_none_iff.mp hPhase)
          obtain ⟨found, hFound, hCommitted⟩ := hSaw row hLess
          cases hRow.symm.trans hFound
          exact hCommitted
      | some (.receiving _ _ _) =>
          simp only [hPhase] at hStep
          cases hStep
      | some (.ended closed (.ok rows)) =>
          simp only [hPhase] at hStep
          cases hStep
          refine ⟨h.tasks, h.commits, ?_, h.executor⟩
          intro earlier hEarlier
          rcases Nat.lt_succ_iff_lt_or_eq.mp hEarlier with hLess | rfl
          · exact hSaw earlier hLess
          · exact ⟨_, hPhase, closed, rows, rfl⟩
      | some (.ended closed (.error reason)) =>
          simp only [hPhase] at hStep
          cases hStep
          exact ⟨h.tasks, h.commits, ⟨_, List.mem_of_getElem? hPhase, closed, reason, rfl⟩,
            h.executor⟩

/-- The executor moves, and the tasks stay. -/
theorem Tracks.moveExecutor (h : bundle.Tracks world) (executor : ExecutorPhase)
    (hSaw : executor.Saw bundle world.tasks) :
    bundle.Tracks { world with executor := executor } :=
  ⟨h.tasks, h.commits, h.awaiting, hSaw⟩

/-- With no outputs every task has committed. -/
theorem Tracks.committed_of_isEmpty (h : bundle.Tracks world) (hEmpty : bundle.outputs.isEmpty) :
    ∀ phase ∈ world.tasks, phase.Committed := by
  have hTasks : world.tasks = [] := by
    apply List.forall₂_nil_left_iff.mp
    rw [← List.isEmpty_iff.mp hEmpty]
    exact h.tasks
  rw [hTasks]
  intro phase hMem
  cases hMem

/-- Taking the response keeps all that was seen true. -/
theorem Tracks.takeResponse (h : bundle.Tracks world)
    (hStep : bundle.takeResponse world = some next) : bundle.Tracks next := by
  rw [BundleEvents.takeResponse] at hStep
  split at hStep
  next hResponse =>
    cases hStep
    apply h.moveExecutor
    split
    next hEmpty => exact ⟨hResponse, h.committed_of_isEmpty hEmpty⟩
    · exact hResponse
  next hDrained hResponse =>
    cases hStep
    have hSaw : ExecutorPhase.drained.Saw bundle world.tasks := hDrained ▸ h.executor
    exact h.moveExecutor .succeeded ⟨hResponse, hSaw⟩
  next hResponse =>
    cases hStep
    exact h.moveExecutor .failed (Or.inl hResponse)
  next hResponse =>
    cases hStep
    exact h.moveExecutor .failed (Or.inl hResponse)
  · cases hStep

/-- So does taking what the decoding came to. -/
theorem Tracks.takeDecode (h : bundle.Tracks world)
    (hStep : bundle.takeDecode world = some next) : bundle.Tracks next := by
  rw [BundleEvents.takeDecode] at hStep
  split at hStep
  · cases hStep
  · split at hStep
    next hDone =>
      cases hStep
      have hSaw : AwaitPhase.done.Saw world.tasks := hDone ▸ h.awaiting
      exact h.moveExecutor .drained hSaw
    next hResponded hDone =>
      cases hStep
      have hSaw : AwaitPhase.done.Saw world.tasks := hDone ▸ h.awaiting
      have hResponse : ExecutorPhase.responded.Saw bundle world.tasks := hResponded ▸ h.executor
      exact h.moveExecutor .succeeded ⟨hResponse, hSaw⟩
    next hFailed =>
      cases hStep
      have hSaw : AwaitPhase.failed.Saw world.tasks := hFailed ▸ h.awaiting
      exact h.moveExecutor .failed (Or.inr (Or.inr hSaw))
    next hFailed =>
      cases hStep
      have hSaw : AwaitPhase.failed.Saw world.tasks := hFailed ▸ h.awaiting
      exact h.moveExecutor .failed (Or.inr (Or.inr hSaw))
    · cases hStep

/-- Every step keeps all that was seen true. -/
theorem Tracks.step (h : bundle.Tracks world) (action : BundleStep)
    (hStep : bundle.step world action = some next) : bundle.Tracks next := by
  cases action with
  | receive index => exact h.receive hStep
  | join => exact h.join hStep
  | takeResponse => exact h.takeResponse hStep
  | takeDecode => exact h.takeDecode hStep
  | takeInputError =>
      rw [BundleEvents.step] at hStep
      split at hStep
      next hInput =>
        cases hStep
        exact h.moveExecutor .failed (Or.inr (Or.inl hInput.2))
      · cases hStep
  | inputFinished =>
      rw [BundleEvents.step] at hStep
      split at hStep
      · cases hStep
        exact h.moveExecutor (.selecting false) trivial
      · cases hStep

/-- The states of a bundle, in any order of its tasks. -/
def Reachable (bundle : BundleEvents) (world : BundleWorld) : Prop :=
  Reaches bundle.step (fun _ _ => True) bundle.initial world

/-- So it is true in every reachable state. -/
theorem Reachable.tracks (hRun : bundle.Reachable world) : bundle.Tracks world :=
  Reaches.invariant (fun _ action _ _ hStep hTracks => hTracks.step action hStep) hRun
    (tracks_initial bundle)

theorem step_receive {stream : OutputStream} {index : Nat} {phase moved : TaskPhase}
    (hStream : bundle.outputs[index]? = some stream) (hPhase : world.tasks[index]? = some phase)
    (hMoved : stream.receiveNext phase = some moved) :
    bundle.step world (.receive index) = some { world with
      tasks := world.tasks.set index moved
      commits := world.commits ++ commitOf index moved } := by
  rw [BundleEvents.step, BundleEvents.receive, hStream, hPhase]
  show (stream.receiveNext phase).map _ = _
  rw [hMoved]
  rfl

/-- A run in which only one task moves. -/
def RunsTask (bundle : BundleEvents) (world : BundleWorld) (index : Nat) (phase : TaskPhase) : Prop :=
  ∃ finish, Reaches bundle.step (fun _ _ => True) world finish ∧
    finish.tasks = world.tasks.set index phase ∧ finish.executor = world.executor

/-- Runs of one task compose. -/
theorem RunsTask.trans {index : Nat} {phase : TaskPhase} {middle : BundleWorld} {moved : TaskPhase}
    (hFirst : Reaches bundle.step (fun _ _ => True) world middle)
    (hTasks : middle.tasks = world.tasks.set index moved)
    (hExecutor : middle.executor = world.executor) (h : bundle.RunsTask middle index phase) :
    bundle.RunsTask world index phase := by
  obtain ⟨finish, hRun, hFinish, hStays⟩ := h
  refine ⟨finish, Relation.ReflTransGen.trans hFirst hRun, ?_, hStays.trans hExecutor⟩
  rw [hFinish, hTasks, List.set_set]

/-- A task whose stream ends can be run to that end on its own. -/
theorem runsTask_ended {stream : OutputStream} {index : Nat}
    (hStream : bundle.outputs[index]? = some stream) {closed : Bool}
    {result : Except OutputError (List WindowedValue)} {buffer : List UInt8}
    {batch : List WindowedValue} {remaining : List ElementStreamPayload}
    (hPhase : world.tasks[index]? = some (.receiving buffer batch remaining))
    (hOutcome : stream.outcomeFrom buffer batch remaining = some (closed, result)) :
    bundle.RunsTask world index (.ended closed result) := by
  induction remaining generalizing world buffer batch with
  | nil =>
      rw [OutputStream.outcomeFrom] at hOutcome
      split at hOutcome
      next hCloses =>
        cases hOutcome
        exact ⟨_, (Reaches.refl world).snoc _ trivial (step_receive hStream hPhase (if_pos hCloses)),
          rfl, rfl⟩
      · cases hOutcome
  | cons message remaining ih =>
      have hLess : index < world.tasks.length := (List.getElem?_eq_some_iff.mp hPhase).1
      cases message with
      | timers =>
          apply RunsTask.trans ((Reaches.refl world).snoc _ trivial (step_receive hStream hPhase rfl))
          · rfl
          · rfl
          · exact ih (List.getElem?_set_self hLess) hOutcome
      | data bytes isLast =>
          rw [OutputStream.outcomeFrom] at hOutcome
          have hMoves {moved : TaskPhase} (hMoved : stream.receiveNext
              (.receiving buffer batch (.data bytes isLast :: remaining)) = some moved) :
              Reaches bundle.step (fun _ _ => True) world { world with
                tasks := world.tasks.set index moved
                commits := world.commits ++ commitOf index moved } :=
            (Reaches.refl world).snoc _ trivial (step_receive hStream hPhase hMoved)
          rw [OutputStream.receiveNext] at hMoves
          cases hDrain : stream.edge.drain isLast (buffer ++ bytes).length (buffer ++ bytes)
              batch with
          | error reason =>
              rw [hDrain] at hOutcome hMoves
              cases hOutcome
              exact ⟨_, hMoves rfl, rfl, rfl⟩
          | ok drained =>
              rw [hDrain] at hOutcome hMoves
              cases isLast with
              | true =>
                  cases hOutcome
                  exact ⟨_, hMoves rfl, rfl, rfl⟩
              | false =>
                  apply RunsTask.trans (hMoves rfl) rfl rfl
                  exact ih (List.getElem?_set_self hLess) hOutcome

/-- An output whose stream ends and is decoded: its task commits. -/
def Publishes (bundle : BundleEvents) : Prop :=
  ∃ stream ∈ bundle.outputs, ∃ closed rows, stream.outcome = some (closed, .ok rows)

/-- Something in the bundle goes wrong: an error response, an input error, an
output that is not decoded, or one that is closed before `is_last`. -/
def GoesWrong (bundle : BundleEvents) : Prop :=
  bundle.response = some false ∨ bundle.inputFails = true ∨
    ∃ stream ∈ bundle.outputs, ∃ closed result,
      stream.outcome = some (closed, result) ∧ (TaskPhase.ended closed result).Broken

theorem Tracks.task (h : bundle.Tracks world) {phase : TaskPhase} (hMem : phase ∈ world.tasks) :
    ∃ stream ∈ bundle.outputs, stream.outcomeOf phase = stream.outcome := by
  obtain ⟨index, hPhase⟩ := List.mem_iff_getElem?.mp hMem
  obtain ⟨stream, hStream, hOutcome⟩ := forall₂_row h.tasks.flip hPhase
  exact ⟨stream, List.mem_of_getElem? hStream, hOutcome⟩

/-- A broken task shows that the bundle goes wrong. -/
theorem Tracks.goesWrong_of_broken (h : bundle.Tracks world) {phase : TaskPhase}
    (hMem : phase ∈ world.tasks) (hBroken : phase.Broken) : bundle.GoesWrong := by
  obtain ⟨stream, hStream, hOutcome⟩ := h.task hMem
  cases phase with
  | receiving buffer batch remaining => cases hBroken
  | ended closed result =>
      exact Or.inr (Or.inr ⟨stream, hStream, closed, result, hOutcome.symm, hBroken⟩)

/-- So does a bundle that fails. -/
theorem Tracks.goesWrong_of_fails (h : bundle.Tracks world) (hFails : world.Fails) :
    bundle.GoesWrong := by
  rcases hFails with hExecutor | ⟨phase, hMem, hBroken⟩
  · have hSaw : ExecutorPhase.failed.Saw bundle world.tasks := hExecutor ▸ h.executor
    rcases hSaw with hResponse | hInput | ⟨phase, hMem, closed, reason, rfl⟩
    · exact Or.inl hResponse
    · exact Or.inr (Or.inl hInput)
    · exact h.goesWrong_of_broken hMem trivial
  · exact h.goesWrong_of_broken hMem hBroken

/-- A commit shows that the bundle publishes. -/
theorem Tracks.publishes_of_commits (h : bundle.Tracks world) (hCommits : world.commits ≠ []) :
    bundle.Publishes := by
  obtain ⟨commit, hCommit⟩ := List.exists_mem_of_ne_nil _ hCommits
  have hMem : commit ∈ world.commitsTo commit.1 :=
    List.mem_filter.mpr ⟨hCommit, decide_eq_true rfl⟩
  rw [h.commits] at hMem
  match hPhase : world.tasks[commit.1]?, hMem with
  | some (.ended closed (.ok rows)), _ =>
      obtain ⟨stream, hStream, hOutcome⟩ := h.task (List.mem_of_getElem? hPhase)
      exact ⟨stream, hStream, closed, rows, hOutcome.symm⟩

/-- A bundle that succeeds has committed every output once. -/
theorem Tracks.succeeded (h : bundle.Tracks world) (hExecutor : world.executor = .succeeded)
    {index : Nat} {stream : OutputStream} (hStream : bundle.outputs[index]? = some stream) :
    ∃ rows, stream.edge.processOutputElements stream.messages = .ok rows ∧
      world.commitsTo index = [(index, rows)] := by
  have hSaw : ExecutorPhase.succeeded.Saw bundle world.tasks := hExecutor ▸ h.executor
  obtain ⟨phase, hPhase, hOutcome⟩ := forall₂_row h.tasks hStream
  obtain ⟨closed, rows, rfl⟩ := hSaw.2 phase (List.mem_of_getElem? hPhase)
  refine ⟨rows, OutputStream.receive_of_outcomeFrom hOutcome.symm, ?_⟩
  rw [h.commits, hPhase]
  rfl

/-- The task of an output whose stream ends can be run to that end from the
start of the bundle, with the executor still selecting. -/
theorem runsTask_of_outcome {stream : OutputStream} {index : Nat}
    (hStream : bundle.outputs[index]? = some stream) {closed : Bool}
    {result : Except OutputError (List WindowedValue)}
    (hPhase : world.tasks[index]? = some stream.start)
    (hOutcome : stream.outcome = some (closed, result)) :
    bundle.RunsTask world index (.ended closed result) :=
  runsTask_ended hStream hPhase hOutcome

theorem initial_task {stream : OutputStream} {index : Nat}
    (hStream : bundle.outputs[index]? = some stream) :
    bundle.initial.tasks[index]? = some stream.start := by
  show (bundle.outputs.map OutputStream.start)[index]? = some stream.start
  rw [List.getElem?_map, hStream]
  rfl

/-- An output that publishes does so in a bundle that then fails, when anything
in that bundle goes wrong. -/
theorem exists_fails_committed (hPublishes : bundle.Publishes) (hWrong : bundle.GoesWrong) :
    ∃ world, bundle.Reachable world ∧ world.Fails ∧ world.commits ≠ [] := by
  obtain ⟨stream, hMem, closed, rows, hOutcome⟩ := hPublishes
  obtain ⟨index, hStream⟩ := List.mem_iff_getElem?.mp hMem
  have hInitial := initial_task hStream
  have hLess : index < bundle.initial.tasks.length := (List.getElem?_eq_some_iff.mp hInitial).1
  obtain ⟨world, hRun, hTasks, hExecutor⟩ := runsTask_of_outcome hStream hInitial hOutcome
  -- a task that has committed
  have hNonempty (finish : BundleWorld) (hReached : bundle.Reachable finish)
      (hEnded : finish.tasks[index]? = some (.ended closed (.ok rows))) : finish.commits ≠ [] := by
    intro hNone
    have hCommits := hReached.tracks.commits index
    rw [hEnded, BundleWorld.commitsTo, hNone] at hCommits
    cases hCommits
  have hEnded : world.tasks[index]? = some (.ended closed (.ok rows)) := by
    rw [hTasks, List.getElem?_set_self hLess]
  rcases hWrong with hResponse | hInput | ⟨other, hOther, otherClosed, result, hFailing, hBroken⟩
  · have hStep : bundle.step world .takeResponse = some { world with executor := .failed } := by
      rw [BundleEvents.step, BundleEvents.takeResponse, hExecutor, hResponse]
      rfl
    have hFinish := hRun.snoc _ trivial hStep
    exact ⟨_, hFinish, Or.inl rfl, hNonempty _ hFinish hEnded⟩
  · have hStep : bundle.step world .takeInputError = some { world with executor := .failed } :=
      if_pos ⟨hExecutor, hInput⟩
    have hFinish := hRun.snoc _ trivial hStep
    exact ⟨_, hFinish, Or.inl rfl, hNonempty _ hFinish hEnded⟩
  · obtain ⟨row, hRow⟩ := List.mem_iff_getElem?.mp hOther
    by_cases hSame : index = row
    · subst hSame
      cases hStream.symm.trans hRow
      cases hOutcome.symm.trans hFailing
      exact ⟨world, hRun, Or.inr ⟨_, List.mem_of_getElem? hEnded, hBroken⟩,
        hNonempty world hRun hEnded⟩
    · have hStart : world.tasks[row]? = some other.start := by
        rw [hTasks, List.getElem?_set_ne hSame, initial_task hRow]
      obtain ⟨finish, hMore, hFinish, _⟩ := runsTask_of_outcome hRow hStart hFailing
      have hReached : bundle.Reachable finish := Relation.ReflTransGen.trans hRun hMore
      have hLast : finish.tasks[row]? = some (.ended otherClosed result) := by
        rw [hFinish, List.getElem?_set_self (List.getElem?_eq_some_iff.mp hStart).1]
      have hFirst : finish.tasks[index]? = some (.ended closed (.ok rows)) := by
        rw [hFinish, List.getElem?_set_ne (Ne.symm hSame), hEnded]
      exact ⟨finish, hReached, Or.inr ⟨_, List.mem_of_getElem? hLast, hBroken⟩,
        hNonempty finish hReached hFirst⟩

/-- A bundle is atomic exactly when it can publish nothing, or nothing in it
goes wrong: an output commits on its own as soon as its stream ends. -/
theorem atomic_iff (bundle : BundleEvents) :
    (∀ world, bundle.Reachable world → bundle.Atomic world) ↔
      ¬bundle.Publishes ∨ ¬bundle.GoesWrong := by
  constructor
  · intro hAtomic
    by_contra hBoth
    push Not at hBoth
    obtain ⟨world, hReached, hFails, hCommits⟩ := exists_fails_committed hBoth.1 hBoth.2
    exact hCommits ((hAtomic world hReached).1 hFails)
  · intro hEither world hReached
    have hTracks := hReached.tracks
    constructor
    · intro hFails
      rcases hEither with hSilent | hFine
      · by_contra hCommits
        exact hSilent (hTracks.publishes_of_commits hCommits)
      · exact absurd (hTracks.goesWrong_of_fails hFails) hFine
    · intro hExecutor index stream hStream
      exact hTracks.succeeded hExecutor hStream

/-- Two outputs: the element 7 at time 0, and a frame that is cut short. -/
def shortSibling : BundleEvents where
  outputs :=
    [⟨⟨⟨.varInt, .global⟩, none⟩, [.data [128, 0, 0, 0, 0, 0, 0, 0, 0, 0, 0, 1, 15, 7] true], false⟩,
      ⟨⟨⟨.varInt, .global⟩, none⟩, [.data [128, 0, 0] true], false⟩]
  response := some true
  inputFails := false

/-- The first output is committed, the second cannot be decoded, and the bundle
fails with the commit in place. -/
theorem not_atomic_shortSibling :
    ∃ world, shortSibling.Reachable world ∧ world.executor = .failed ∧
      world.commits = [(0, [⟨.primitive (.int64 7), 0, [.global], .noFiring⟩])] ∧
      ¬shortSibling.Atomic world := by
  have hPlay : (play shortSibling.step shortSibling.initial
      [.receive 0, .receive 1, .takeResponse, .join, .join, .takeDecode]).isSome = true := by
    decide +kernel
  refine ⟨_, reaches_getD_play (fun _ _ => trivial) hPlay shortSibling.initial, by decide +kernel,
    rfl, ?_⟩
  intro hAtomic
  exact absurd (hAtomic.1 (Or.inl (by decide +kernel))) (by decide +kernel)

end BundleEvents
end FlareDB
