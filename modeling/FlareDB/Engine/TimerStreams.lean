import FlareDB.Engine.TimerWire
import FlareDB.Lib.Runs

/-! The timers a bundle sets. One task for each timer endpoint decodes the chunks
that arrive there and commits the last write to each timer in batches. The tasks
of a bundle run at the same time over one store. -/
namespace FlareDB

open ByteDecoder KeyedStore

/-- A timer endpoint, with the coder and the domain of its family. -/
structure TimerEndpoint where
  transformId : String
  timerFamilyId : String
  coder : TimerCoder
  domain : TimeDomain

/-- What arrives at an endpoint. -/
inductive TimerPayload where
  | timers (bytes : List UInt8) (isLast : Bool)
  | data

def flushEvery : Nat := 512

namespace TimerEndpoint

variable (endpoint : TimerEndpoint)

def output (timer : WireTimer) : TimerOutput where
  entry := timerEntry endpoint.transformId endpoint.timerFamilyId timer endpoint.domain
  clear := timer.clear

/-- The timers of a chunk. A timer that cannot be decoded drops the rest of the
chunk; `none` where decoding unwinds. A timer takes at least the byte that says
whether it is cleared, so the fuel is the number of bytes. -/
def decodeTimers : Nat → List UInt8 → Option (List TimerOutput)
  | _, [] => some []
  | 0, _ :: _ => none
  | fuel + 1, bytes => match endpoint.coder.decode bytes with
      | .panic => none
      | .error _ => some []
      | .ok timer rest => (decodeTimers fuel rest).map (endpoint.output timer :: ·)

def chunkOutputs (bytes : List UInt8) : Option (List TimerOutput) :=
  endpoint.decodeTimers bytes.length bytes

/-- The timers of a stream, up to its last chunk or to the end of its channel. -/
def outputsOf : List TimerPayload → Option (List TimerOutput)
  | [] => some []
  | .data :: stream => outputsOf stream
  | .timers bytes isLast :: stream => (endpoint.chunkOutputs bytes).bind fun outputs =>
      if isLast then some outputs else (outputsOf stream).map (outputs ++ ·)

end TimerEndpoint

inductive DrainPhase where
  | receiving
  | flushing (isLast : Bool)
  | ended
  | unwound
deriving DecidableEq, Repr

/-- The task of one endpoint. `stream` is what has yet to arrive before the channel
closes, `decoded` lists all timers so far and `since` those since the last flush. -/
structure DrainTask where
  stream : List TimerPayload
  pending : TimerWrites
  total : Nat
  phase : DrainPhase
  decoded : List TimerOutput
  since : List TimerOutput

namespace DrainTask

def start (stream : List TimerPayload) : DrainTask where
  stream := stream
  pending := ∅
  total := 0
  phase := .receiving
  decoded := []
  since := []

/-- The timers of a chunk are recorded, over earlier writes to the same timers. -/
def record (task : DrainTask) (outputs : List TimerOutput) (isLast : Bool)
    (stream : List TimerPayload) : DrainTask :=
  let pending := outputs.foldl recordTimer task.pending
  { stream
    pending
    total := task.total + outputs.length
    phase := if isLast = true ∨ flushEvery ≤ pending.keys.length then .flushing isLast else .receiving
    decoded := task.decoded ++ outputs
    since := task.since ++ outputs }

/-- Receive one payload, or see the channel closed. -/
def receive (endpoint : TimerEndpoint) (task : DrainTask) : DrainTask :=
  match task.stream with
  | [] => { task with phase := .flushing true }
  | .data :: stream => { task with stream }
  | .timers bytes isLast :: stream => match endpoint.chunkOutputs bytes with
      | none => { task with stream, phase := .unwound }
      | some outputs => task.record outputs isLast stream

/-- The task after a flush, which forgets the writes even where it has failed. -/
def flushed (task : DrainTask) (isLast : Bool) : DrainTask :=
  { task with pending := ∅, since := [], phase := if isLast then .ended else .receiving }

/-- The timers of the whole stream, from those decoded and those to come. -/
def outputs (endpoint : TimerEndpoint) (task : DrainTask) : Option (List TimerOutput) :=
  match task.phase with
  | .receiving | .flushing false =>
      (endpoint.outputsOf task.stream).map (task.decoded ++ ·)
  | .flushing true | .ended => some task.decoded
  | .unwound => none

/-- A bound on the steps a task has left. -/
def left (task : DrainTask) : Nat :=
  match task.phase with
  | .receiving => 2 * task.stream.length + 2
  | .flushing false => 2 * task.stream.length + 3
  | .flushing true => 1
  | .ended | .unwound => 0

/-- What a task keeps about the stream it was started with. -/
structure Kept (endpoint : TimerEndpoint) (stream : List TimerPayload) (task : DrainTask) :
    Prop where
  pending : task.pending = timerWrites task.since
  total : task.total = task.decoded.length
  outputs : task.outputs endpoint = endpoint.outputsOf stream
  own : ∀ output ∈ task.since, ∃ timer, output = endpoint.output timer
  ended : task.phase = .ended → task.since = []

end DrainTask

section Runs

variable {ι : Type} [DecidableEq ι]

/-- The timer store with the tasks on it. `commits` lists the timers committed so
far with their endpoints, and `failed` the endpoints of which a commit failed. -/
structure DrainRun (ι : Type) where
  store : TimerStore
  tasks : ι → DrainTask
  commits : List (ι × TimerOutput)
  failed : List ι

inductive DrainAction (ι : Type) where
  | receive (index : ι)
  | flush (index : ι) (fails : Bool)

namespace DrainRun

def start (store : TimerStore) (streams : ι → List TimerPayload) : DrainRun ι where
  store := store
  tasks index := .start (streams index)
  commits := []
  failed := []

def move (run : DrainRun ι) (index : ι) (task : DrainTask) : DrainRun ι :=
  { run with tasks := Function.update run.tasks index task }

/-- Commit the writes of a task in one batch; without writes there is no commit.
A failed commit changes nothing here, where `SlateKvStore` may have written a
first part of it: only the store is concerned, and `failed` excludes the endpoint. -/
def commit (run : DrainRun ι) (index : ι) (fails : Bool) : DrainRun ι :=
  let task := run.tasks index
  if task.pending.keys.isEmpty then run
  else if fails then { run with failed := index :: run.failed }
  else { run with
    store := run.store.apply task.pending
    commits := run.commits ++ task.since.map fun output => (index, output) }

def step (endpoints : ι → TimerEndpoint) (run : DrainRun ι) : DrainAction ι → Option (DrainRun ι)
  | .receive index => match (run.tasks index).phase with
      | .receiving => some (run.move index ((run.tasks index).receive (endpoints index)))
      | _ => none
  | .flush index fails => match (run.tasks index).phase with
      | .flushing isLast =>
          some ((run.commit index fails).move index ((run.tasks index).flushed isLast))
      | _ => none

end DrainRun

end Runs

/-! Writes. -/

/-- The writes of a stream continue those of its first part. -/
theorem timerWrites_append (first second : List TimerOutput) :
    timerWrites (first ++ second) = second.foldl recordTimer (timerWrites first) := by
  rw [timerWrites, timerWrites, List.foldl_append]

/-- Later writes come before earlier ones. -/
theorem lookup_timerWrites_append (first second : List TimerOutput) (key : StorageKey) :
    (timerWrites (first ++ second)).lookup key =
      ((timerWrites second).lookup key).or ((timerWrites first).lookup key) := by
  induction second using List.reverseRecOn with
  | nil =>
      rw [List.append_nil]
      rfl
  | append_singleton second output ih =>
      rw [← List.append_assoc, timerWrites_append (first ++ second), timerWrites_append second]
      simp only [List.foldl_cons, List.foldl_nil, recordTimer]
      by_cases hKey : key = output.entry.key.storageKey
      · rw [hKey, AList.lookup_insert, AList.lookup_insert]
        rfl
      · rw [AList.lookup_insert_ne hKey, AList.lookup_insert_ne hKey, ih]

/-- A stream that writes nothing has no timers. -/
theorem timerWrites_keys_isEmpty {outputs : List TimerOutput}
    (h : (timerWrites outputs).keys.isEmpty = true) : outputs = [] := by
  rcases List.eq_nil_or_concat outputs with hNone | ⟨front, last, rfl⟩
  · exact hNone
  · have hMem : last.entry.key.storageKey ∈ (timerWrites (front ++ [last])).keys := by
      rw [timerWrites_append]
      exact (AList.mem_insert _).mpr (.inl rfl)
    rw [← List.concat_eq_append, List.isEmpty_iff.mp h] at hMem
    exact absurd hMem List.not_mem_nil

/-- Writes to other keys do not matter to a key. -/
theorem lookup_timerWrites_filter {ι : Type} [DecidableEq ι] {commits : List (ι × TimerOutput)}
    {index : ι} {key : StorageKey}
    (hOthers : ∀ commit ∈ commits, commit.1 ≠ index → commit.2.entry.key.storageKey ≠ key) :
    (timerWrites (commits.map Prod.snd)).lookup key =
      (timerWrites ((commits.filter fun commit => commit.1 = index).map Prod.snd)).lookup key := by
  induction commits using List.reverseRecOn with
  | nil => rfl
  | append_singleton commits commit ih =>
      have hRest := ih fun other hOther => hOthers other (List.mem_append_left _ hOther)
      rw [List.map_append, List.filter_append, lookup_timerWrites_append, hRest]
      by_cases hSame : commit.1 = index
      · rw [List.filter_cons_of_pos (by simpa using hSame), List.map_append,
          lookup_timerWrites_append]
        rfl
      · have hKey := hOthers commit (List.mem_append_right _ List.mem_cons_self) hSame
        rw [List.filter_cons_of_neg (by simpa using hSame), List.filter_nil, List.append_nil]
        simp only [List.map_cons, List.map_nil, timerWrites, List.foldl_cons, List.foldl_nil,
          recordTimer, AList.lookup_insert_ne hKey.symm]
        rfl

/-! What a task keeps. -/

namespace TimerEndpoint

variable {endpoint : TimerEndpoint}

/-- What an endpoint decodes are timers of its own. -/
theorem decodeTimers_eq_some {fuel : Nat} {bytes : List UInt8} {outputs : List TimerOutput}
    (h : endpoint.decodeTimers fuel bytes = some outputs) :
    ∀ output ∈ outputs, ∃ timer, output = endpoint.output timer := by
  induction fuel generalizing bytes outputs with
  | zero =>
      cases bytes with
      | nil =>
          cases h
          exact fun output hMem => absurd hMem List.not_mem_nil
      | cons byte bytes => cases h
  | succ fuel ih =>
      cases bytes with
      | nil =>
          cases h
          exact fun output hMem => absurd hMem List.not_mem_nil
      | cons byte bytes =>
          rw [decodeTimers] at h
          · cases hDecode : endpoint.coder.decode (byte :: bytes) with
            | panic =>
                rw [hDecode] at h
                cases h
            | error reason =>
                rw [hDecode] at h
                cases h
                exact fun output hMem => absurd hMem List.not_mem_nil
            | ok timer rest =>
                rw [hDecode] at h
                obtain ⟨others, hOthers, rfl⟩ := Option.map_eq_some_iff.mp h
                intro output hMem
                rcases List.mem_cons.mp hMem with rfl | hRest
                · exact ⟨timer, rfl⟩
                · exact ih hOthers output hRest
          · exact List.cons_ne_nil _ _

/-- Timers that stand in a chunk as a whole are its timers. -/
theorem chunkOutputs_whole {timers : List WireTimer} {parts : List (List UInt8)}
    (h : List.Forall₂ (fun timer part => part ≠ [] ∧ Delimited endpoint.coder.decode part timer)
      timers parts) :
    endpoint.chunkOutputs parts.flatten = some (timers.map endpoint.output) := by
  have hAll : ∀ fuel, parts.flatten.length ≤ fuel →
      endpoint.decodeTimers fuel parts.flatten = some (timers.map endpoint.output) := by
    induction h with
    | nil =>
        intro fuel _
        cases fuel with
        | zero | succ fuel => rfl
    | @cons timer part timers parts hHead hTail ih =>
        intro fuel hFuel
        have hBytes := List.length_pos_of_ne_nil hHead.1
        rw [List.flatten_cons, List.length_append] at hFuel
        obtain ⟨fuel, rfl⟩ := Nat.exists_eq_add_one_of_ne_zero (show fuel ≠ 0 by omega)
        rw [List.flatten_cons]
        obtain ⟨byte, rest, hPart⟩ := List.exists_cons_of_ne_nil hHead.1
        have hDecode := hHead.2 parts.flatten
        rw [hPart, List.cons_append] at hDecode ⊢
        rw [decodeTimers, hDecode]
        · dsimp only
          rw [ih fuel (by omega)]
          rfl
        · exact List.cons_ne_nil _ _
  exact hAll _ (Nat.le_refl _)

end TimerEndpoint

namespace DrainTask

variable {endpoint : TimerEndpoint} {stream : List TimerPayload} {task : DrainTask}

theorem Kept.start : (DrainTask.start stream).Kept endpoint stream where
  pending := rfl
  total := rfl
  outputs := Option.map_id'
  own _ h := absurd h List.not_mem_nil
  ended _ := rfl

/-- Recording the decoded timers keeps the account of the stream. -/
theorem Kept.record (h : task.Kept endpoint stream) {outputs : List TimerOutput} {isLast : Bool}
    {rest : List TimerPayload} (hOwn : ∀ output ∈ outputs, ∃ timer, output = endpoint.output timer)
    (hOutputs : (if isLast then some outputs else (endpoint.outputsOf rest).map (outputs ++ ·)).map
      (task.decoded ++ ·) = endpoint.outputsOf stream) :
    (task.record outputs isLast rest).Kept endpoint stream where
  pending := by
    simp only [DrainTask.record, h.pending, timerWrites_append]
  total := by
    simp only [DrainTask.record, h.total, List.length_append]
  outputs := by
    rw [← hOutputs, DrainTask.outputs, DrainTask.record]
    cases isLast with
    | true => rfl
    | false =>
        by_cases hFull : flushEvery ≤ (outputs.foldl recordTimer task.pending).keys.length
        · simp [hFull, Function.comp_def]
        · simp [hFull, Function.comp_def]
  own output hMem := (List.mem_append.mp hMem).elim (h.own output) (hOwn output)
  ended hEnded := by
    rw [DrainTask.record] at hEnded
    dsimp only at hEnded
    split at hEnded <;> cases hEnded

/-- So does receiving a chunk. -/
theorem Kept.receive (h : task.Kept endpoint stream) (hPhase : task.phase = .receiving) :
    (task.receive endpoint).Kept endpoint stream := by
  have hOutputs := h.outputs
  rw [DrainTask.outputs, hPhase] at hOutputs
  dsimp only at hOutputs
  rw [DrainTask.receive]
  cases hStream : task.stream with
  | nil =>
      rw [hStream] at hOutputs
      refine ⟨h.pending, h.total, ?_, h.own, fun hEnded => by cases hEnded⟩
      rw [← hOutputs]
      simp [DrainTask.outputs, TimerEndpoint.outputsOf]
  | cons payload rest =>
      rw [hStream] at hOutputs
      cases payload with
      | data =>
          refine ⟨h.pending, h.total, ?_, h.own, h.ended⟩
          rw [DrainTask.outputs, hPhase]
          exact hOutputs
      | timers bytes isLast =>
          rw [TimerEndpoint.outputsOf] at hOutputs
          dsimp only
          cases hChunk : endpoint.chunkOutputs bytes with
          | none =>
              rw [hChunk] at hOutputs
              exact ⟨h.pending, h.total, hOutputs, h.own, fun hEnded => by cases hEnded⟩
          | some outputs =>
              rw [hChunk] at hOutputs
              exact h.record (TimerEndpoint.decodeTimers_eq_some hChunk) hOutputs

/-- So does a flush. -/
theorem Kept.flushed (h : task.Kept endpoint stream) {isLast : Bool}
    (hPhase : task.phase = .flushing isLast) :
    (task.flushed isLast).Kept endpoint stream where
  pending := rfl
  total := h.total
  outputs := by
    rw [← h.outputs, DrainTask.outputs, DrainTask.outputs, hPhase]
    cases isLast <;> rfl
  own output hMem := absurd hMem List.not_mem_nil
  ended _ := rfl

/-- A payload adds the same timers to all those decoded as to those not flushed. -/
theorem receive_decoded (endpoint : TimerEndpoint) (task : DrainTask) :
    ∃ outputs, (task.receive endpoint).decoded = task.decoded ++ outputs ∧
      (task.receive endpoint).since = task.since ++ outputs := by
  rw [DrainTask.receive]
  split
  · exact ⟨[], (List.append_nil _).symm, (List.append_nil _).symm⟩
  · exact ⟨[], (List.append_nil _).symm, (List.append_nil _).symm⟩
  · split
    · exact ⟨[], (List.append_nil _).symm, (List.append_nil _).symm⟩
    · exact ⟨_, rfl, rfl⟩

/-- Receiving brings a task closer to its end. -/
theorem left_receive (endpoint : TimerEndpoint) (hPhase : task.phase = .receiving) :
    (task.receive endpoint).left < task.left := by
  have hLeft : task.left = 2 * task.stream.length + 2 := by
    rw [DrainTask.left, hPhase]
  rw [hLeft, DrainTask.receive]
  cases hStream : task.stream with
  | nil => exact Nat.one_lt_two
  | cons payload rest =>
      rw [List.length_cons]
      cases payload with
      | data =>
          simp only [DrainTask.left, hPhase]
          omega
      | timers bytes isLast =>
          dsimp only
          cases endpoint.chunkOutputs bytes with
          | none => exact Nat.succ_pos _
          | some outputs =>
              simp only [DrainTask.record, DrainTask.left]
              split <;> omega

/-- So does flushing. -/
theorem left_flushed {isLast : Bool} (hPhase : task.phase = .flushing isLast) :
    (task.flushed isLast).left < task.left := by
  cases isLast with
  | true =>
      rw [DrainTask.left, DrainTask.left, hPhase]
      exact Nat.one_pos
  | false =>
      rw [DrainTask.left, DrainTask.left, hPhase]
      exact Nat.lt_succ_self _

end DrainTask

/-! What a run keeps. -/

namespace DrainRun

variable {ι : Type} [DecidableEq ι] {endpoints : ι → TimerEndpoint} {initial : TimerStore}
  {streams : ι → List TimerPayload}

/-- The timers of an endpoint that have been committed. -/
def committed (run : DrainRun ι) (index : ι) : List TimerOutput :=
  (run.commits.filter fun commit => commit.1 = index).map Prod.snd

/-- The store holds what the commits so far have written, and the commits of an
endpoint are the timers it has decoded, up to those it has yet to flush. -/
structure Kept (endpoints : ι → TimerEndpoint) (initial : TimerStore)
    (streams : ι → List TimerPayload) (run : DrainRun ι) : Prop where
  tasks : ∀ index, (run.tasks index).Kept (endpoints index) (streams index)
  stored : ∀ key, run.store.lookup key =
    ((timerWrites (run.commits.map Prod.snd)).lookup key).getD (initial.lookup key)
  committed : ∀ index, index ∉ run.failed →
    run.committed index ++ (run.tasks index).since = (run.tasks index).decoded
  own : ∀ commit ∈ run.commits, ∃ timer, commit.2 = (endpoints commit.1).output timer

theorem Kept.start : (DrainRun.start initial streams).Kept endpoints initial streams where
  tasks _ := .start
  stored _ := rfl
  committed _ _ := rfl
  own _ h := absurd h List.not_mem_nil

theorem Kept.receive {run : DrainRun ι} (h : run.Kept endpoints initial streams) {index : ι}
    (hPhase : (run.tasks index).phase = .receiving) :
    (run.move index ((run.tasks index).receive (endpoints index))).Kept endpoints initial
      streams where
  tasks := (Function.forall_update_iff run.tasks
    fun other task => task.Kept (endpoints other) (streams other)).mpr
      ⟨(h.tasks index).receive hPhase, fun other _ => h.tasks other⟩
  stored := h.stored
  committed other hOther := by
    have hBefore := h.committed other hOther
    by_cases hSame : other = index
    · obtain ⟨outputs, hDecoded, hSince⟩ := DrainTask.receive_decoded (endpoints index)
        (run.tasks index)
      rw [hSame] at hBefore ⊢
      simp only [DrainRun.move, Function.update_self]
      rw [hDecoded, hSince, ← List.append_assoc, ← hBefore]
      rfl
    · simp only [DrainRun.move, Function.update_of_ne hSame]
      exact hBefore
  own := h.own

/-- A commit of one endpoint is not one of another. -/
theorem committed_append (run : DrainRun ι) (index : ι) (outputs : List TimerOutput) (other : ι) :
    ((run.commits ++ outputs.map fun output => (index, output)).filter
      fun commit => commit.1 = other).map Prod.snd =
      run.committed other ++ if index = other then outputs else [] := by
  rw [List.filter_append, List.map_append, List.filter_map, List.map_map]
  by_cases hSame : index = other
  · simp [committed, hSame, Function.comp_def]
  · simp [committed, hSame, Function.comp_def]

/-- The task that flushes has nothing left to commit, or its commit has failed. -/
theorem Kept.flush {run : DrainRun ι} (h : run.Kept endpoints initial streams) {index : ι}
    {isLast : Bool} (hPhase : (run.tasks index).phase = .flushing isLast) (fails : Bool) :
    ((run.commit index fails).move index ((run.tasks index).flushed isLast)).Kept endpoints
      initial streams := by
  have hTask := h.tasks index
  have hTasks := (Function.forall_update_iff run.tasks
    fun other task => task.Kept (endpoints other) (streams other)).mpr
      ⟨hTask.flushed hPhase, fun other _ => h.tasks other⟩
  rw [DrainRun.commit]
  by_cases hEmpty : (run.tasks index).pending.keys.isEmpty = true
  · rw [if_pos hEmpty]
    rw [hTask.pending] at hEmpty
    refine ⟨hTasks, h.stored, fun other hOther => ?_, h.own⟩
    have hBefore := h.committed other hOther
    by_cases hSame : other = index
    · rw [hSame, timerWrites_keys_isEmpty hEmpty] at hBefore
      rw [hSame]
      simp only [DrainRun.move, Function.update_self]
      exact hBefore
    · simp only [DrainRun.move, Function.update_of_ne hSame]
      exact hBefore
  rw [if_neg hEmpty]
  cases fails with
  | true =>
      refine ⟨hTasks, h.stored, fun other hOther => ?_, h.own⟩
      have hSame := List.ne_of_not_mem_cons hOther
      simp only [DrainRun.move, if_true, Function.update_of_ne hSame]
      exact h.committed other (List.not_mem_of_not_mem_cons hOther)
  | false =>
      refine ⟨hTasks, fun key => ?_, fun other hOther => ?_, fun commit hCommit => ?_⟩
      · simp only [DrainRun.move, Bool.false_eq_true, if_false, TimerStore.apply,
          lookup_applyWrites, List.map_append, lookup_timerWrites_append, List.map_map,
          Function.comp_def, List.map_id']
        rw [hTask.pending, h.stored key]
        cases (timerWrites (run.tasks index).since).lookup key <;> rfl
      · have hBefore := h.committed other hOther
        simp only [DrainRun.move, Bool.false_eq_true, if_false, DrainRun.committed]
        rw [committed_append]
        by_cases hSame : other = index
        · rw [hSame, if_pos rfl, Function.update_self]
          rw [hSame] at hBefore
          rw [hBefore]
          exact List.append_nil _
        · rw [if_neg (Ne.symm hSame), List.append_nil, Function.update_of_ne hSame]
          exact hBefore
      · simp only [DrainRun.move, Bool.false_eq_true, if_false] at hCommit
        rcases List.mem_append.mp hCommit with hOld | hNew
        · exact h.own commit hOld
        · obtain ⟨output, hOutput, rfl⟩ := List.mem_map.mp hNew
          exact hTask.own output hOutput

/-- Every step of the run keeps every endpoint's account. -/
theorem Kept.step {run after : DrainRun ι} (h : run.Kept endpoints initial streams)
    {action : DrainAction ι} (hStep : run.step endpoints action = some after) :
    after.Kept endpoints initial streams := by
  cases action with
  | receive index =>
      rw [DrainRun.step] at hStep
      split at hStep
      next hPhase =>
        cases hStep
        exact h.receive hPhase
      · cases hStep
  | flush index fails =>
      rw [DrainRun.step] at hStep
      split at hStep
      next isLast hPhase =>
        cases hStep
        exact h.flush hPhase fails
      · cases hStep

/-- So it stands in every state reached. -/
theorem Kept.of_reaches {run : DrainRun ι}
    (hRun : Runs.Reaches (DrainRun.step endpoints) (fun _ _ => True)
      (DrainRun.start initial streams) run) : run.Kept endpoints initial streams :=
  hRun.invariant (fun _ _ _ _ hStep hKept => hKept.step hStep) .start

/-! What the store holds. -/

/-- A timer of an endpoint that no other endpoint has the timers of. -/
theorem Kept.lookup {run : DrainRun ι} (h : run.Kept endpoints initial streams)
    (hFits : ∀ commit ∈ run.commits, commit.2.entry.key.Fits) {index : ι} {key : TimerKey}
    (hKey : key.Fits)
    (hOthers : ∀ other, other ≠ index → ¬(key.transformId = (endpoints other).transformId ∧
      key.timerFamilyId = (endpoints other).timerFamilyId)) :
    run.store.lookup key.storageKey =
      (flushTimers initial (run.committed index)).lookup key.storageKey := by
  rw [h.stored, lookup_flushTimers]
  congr 1
  refine lookup_timerWrites_filter fun commit hCommit hOther hSame => ?_
  have hTimer := TimerKey.storageKey_injective (hFits commit hCommit) hKey hSame
  obtain ⟨timer, hOutput⟩ := h.own commit hCommit
  apply hOthers commit.1 hOther
  rw [← hTimer, hOutput]
  exact ⟨rfl, rfl⟩

/-- A timer of no endpoint. -/
theorem Kept.lookup_unwritten {run : DrainRun ι} (h : run.Kept endpoints initial streams)
    (hFits : ∀ commit ∈ run.commits, commit.2.entry.key.Fits) {key : TimerKey} (hKey : key.Fits)
    (hOthers : ∀ index, ¬(key.transformId = (endpoints index).transformId ∧
      key.timerFamilyId = (endpoints index).timerFamilyId)) :
    run.store.lookup key.storageKey = initial.lookup key.storageKey := by
  rw [h.stored]
  cases hWrite : (timerWrites (run.commits.map Prod.snd)).lookup key.storageKey with
  | none => rfl
  | some write =>
      obtain ⟨output, hOutput, hSame, _⟩ := lookup_timerWrites _ hWrite
      obtain ⟨commit, hCommit, rfl⟩ := List.mem_map.mp hOutput
      have hTimer := TimerKey.storageKey_injective (hFits commit hCommit) hKey hSame
      obtain ⟨timer, hOwn⟩ := h.own commit hCommit
      apply absurd _ (hOthers commit.1)
      rw [← hTimer, hOwn]
      exact ⟨rfl, rfl⟩

/-- A task whose commits succeed comes to its end by itself, whatever the other
tasks have come to. -/
theorem runs_out (endpoints : ι → TimerEndpoint) (index : ι) (run : DrainRun ι) :
    ∃ actions finish, Runs.play (DrainRun.step endpoints) run actions = some finish ∧
      ((finish.tasks index).phase = .ended ∨ (finish.tasks index).phase = .unwound) ∧
      finish.failed = run.failed ∧ ∀ other, other ≠ index → finish.tasks other = run.tasks other := by
  induction hLeft : (run.tasks index).left using Nat.strong_induction_on generalizing run with
  | _ left ih =>
      -- A step of the task leaves it with less, and the others as they were.
      have hTake : ∀ action task, task.left < left → ∀ next : DrainRun ι,
          run.step endpoints action = some (next.move index task) → next.tasks = run.tasks →
          next.failed = run.failed → ∃ actions finish,
            Runs.play (DrainRun.step endpoints) run actions = some finish ∧
            ((finish.tasks index).phase = .ended ∨ (finish.tasks index).phase = .unwound) ∧
            finish.failed = run.failed ∧
            ∀ other, other ≠ index → finish.tasks other = run.tasks other := by
        intro action task hLess next hStep hTasks hFailed
        have hTask : (next.move index task).tasks index = task := Function.update_self ..
        obtain ⟨actions, finish, hPlay, hEnd, hSame, hOthers⟩ :=
          ih task.left hLess (next.move index task) (by rw [hTask])
        refine ⟨action :: actions, finish, ?_, hEnd, hSame.trans hFailed, fun other hOther => ?_⟩
        · rw [Runs.play, hStep]
          exact hPlay
        · rw [hOthers other hOther, ← hTasks]
          exact Function.update_of_ne hOther ..
      cases hPhase : (run.tasks index).phase with
      | receiving =>
          have hLess := DrainTask.left_receive (endpoints index) hPhase
          refine hTake (.receive index) _ (hLeft ▸ hLess) run ?_ rfl rfl
          rw [DrainRun.step, hPhase]
      | flushing isLast =>
          have hLess := DrainTask.left_flushed hPhase
          refine hTake (.flush index false) _ (hLeft ▸ hLess) (run.commit index false) ?_ ?_ ?_
          · rw [DrainRun.step, hPhase]
          · rw [DrainRun.commit]
            split <;> rfl
          · rw [DrainRun.commit]
            split <;> rfl
      | ended => exact ⟨[], run, rfl, .inl hPhase, rfl, fun _ _ => rfl⟩
      | unwound => exact ⟨[], run, rfl, .inr hPhase, rfl, fun _ _ => rfl⟩

/-- Each endpoint's timers are kept as its stream orders them, whatever order the
tasks take their turns in. At any time the store holds what a first part of the
decoded timers writes, at the end of the stream what all of them write; timers of no
endpoint stay as they were. A task whose commits succeed can run to its end. -/
theorem timers_are_kept (endpoints : ι → TimerEndpoint) (initial : TimerStore)
    (streams : ι → List TimerPayload) {run : DrainRun ι}
    (hApart : ∀ first second, (endpoints first).transformId = (endpoints second).transformId →
      (endpoints first).timerFamilyId = (endpoints second).timerFamilyId → first = second)
    (hRun : Runs.Reaches (DrainRun.step endpoints) (fun _ _ => True)
      (DrainRun.start initial streams) run)
    (hFits : ∀ commit ∈ run.commits, commit.2.entry.key.Fits) :
    (∀ index, index ∉ run.failed → ∃ outputs, outputs <+: (run.tasks index).decoded ∧
      ((run.tasks index).phase = .ended →
        (endpoints index).outputsOf (streams index) = some outputs ∧
          (run.tasks index).total = outputs.length) ∧
      ∀ key : TimerKey, key.Fits → key.transformId = (endpoints index).transformId →
        key.timerFamilyId = (endpoints index).timerFamilyId →
        run.store.lookup key.storageKey = (flushTimers initial outputs).lookup key.storageKey) ∧
    (∀ key : TimerKey, key.Fits →
      (∀ index, ¬(key.transformId = (endpoints index).transformId ∧
        key.timerFamilyId = (endpoints index).timerFamilyId)) →
      run.store.lookup key.storageKey = initial.lookup key.storageKey) ∧
    ∀ index, ∃ actions finish, Runs.play (DrainRun.step endpoints) run actions = some finish ∧
      ((finish.tasks index).phase = .ended ∨ (finish.tasks index).phase = .unwound) ∧
      finish.failed = run.failed ∧
      ∀ other, other ≠ index → finish.tasks other = run.tasks other := by
  have hKept := Kept.of_reaches hRun
  refine ⟨fun index hIndex => ⟨run.committed index, ⟨_, hKept.committed index hIndex⟩, ?_, ?_⟩,
    fun key hKey hOthers => hKept.lookup_unwritten hFits hKey hOthers,
    fun index => runs_out endpoints index run⟩
  · intro hEnded
    have hTask := hKept.tasks index
    have hAll : run.committed index = (run.tasks index).decoded := by
      rw [← hKept.committed index hIndex, hTask.ended hEnded, List.append_nil]
    have hOutputs := hTask.outputs
    rw [DrainTask.outputs, hEnded] at hOutputs
    rw [hAll]
    exact ⟨hOutputs.symm, hTask.total⟩
  · intro key hKey hTransform hFamily
    refine hKept.lookup hFits hKey fun other hOther hSame => hOther ?_
    exact hApart other index (hSame.1.symm.trans hTransform) (hSame.2.symm.trans hFamily)

/-- The endpoints of two transforms, and one timer for each of them: for the second
transform it is set and then cleared. -/
def twoEndpoints (first : Bool) : TimerEndpoint where
  transformId := if first then "first" else "second"
  timerFamilyId := "close"
  coder := ⟨.bytes, .global⟩
  domain := .eventTime

def twoStreams (first : Bool) : List TimerPayload :=
  let bytes := [1, 7, 1, 116, 0, 0, 0, 1, 0, 128, 0, 0, 0, 0, 0, 0, 9, 127, 255, 255, 255, 255,
    255, 255, 253, 15]
  if first then [.timers bytes true]
  else [.timers bytes false, .data, .timers [1, 7, 1, 116, 0, 0, 0, 1, 1] false]

/-- The second transform's channel closes while the first one's timers are being
committed. -/
def twoTurns : List (DrainAction Bool) :=
  [.receive false, .receive true, .receive false, .receive false, .flush true false,
    .receive false, .flush false false]

def twoDrained : DrainRun Bool :=
  (Runs.play (DrainRun.step twoEndpoints) (.start ∅ twoStreams) twoTurns).getD
    (.start ∅ twoStreams)

theorem timers_are_kept_two :
    ((twoDrained.tasks true).phase = .ended ∧ ∃ outputs,
      (twoEndpoints true).outputsOf (twoStreams true) = some outputs ∧
        (twoDrained.tasks true).total = outputs.length) ∧
      (twoDrained.tasks false).phase = .ended ∧ ∃ outputs,
        (twoEndpoints false).outputsOf (twoStreams false) = some outputs ∧
          (twoDrained.tasks false).total = outputs.length := by
  have hRun : Runs.Reaches (DrainRun.step twoEndpoints) (fun _ _ => True)
      (DrainRun.start ∅ twoStreams) twoDrained :=
    Runs.reaches_getD_play (fun _ _ => trivial) (by decide +kernel) _
  have hFits : ∀ commit ∈ twoDrained.commits, commit.2.entry.key.Fits := by
    have hAll : ∀ commit ∈ twoDrained.commits,
        commit.2.entry.key.parts.all (fun part => part.length < 2 ^ 32) = true := by
      decide +kernel
    intro commit hCommit part hPart
    exact of_decide_eq_true (List.all_eq_true.mp (hAll commit hCommit) part hPart)
  have hEnded : ∀ first, (twoDrained.tasks first).phase = .ended := by
    decide +kernel
  have hNone : ∀ first, first ∉ twoDrained.failed := by
    decide +kernel
  have hBoth : ∀ first, (twoDrained.tasks first).phase = .ended ∧ ∃ outputs,
      (twoEndpoints first).outputsOf (twoStreams first) = some outputs ∧
        (twoDrained.tasks first).total = outputs.length := by
    intro first
    obtain ⟨outputs, _, hOutputs, _⟩ := (timers_are_kept twoEndpoints ∅ twoStreams
      (by decide) hRun hFits).1 first (hNone first)
    exact ⟨hEnded first, outputs, hOutputs (hEnded first)⟩
  exact ⟨hBoth true, hBoth false⟩

end DrainRun

end FlareDB
