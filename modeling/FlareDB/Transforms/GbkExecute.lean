import FlareDB.Lib.Results
import FlareDB.Transforms.GbkRunInputs

/-! One execution of GroupByKey with the points where it can fail. The state
backend lives outside the execution, so a failure keeps what was done to it; the
output is kept only once it is committed. -/
namespace FlareDB

open KeyedStore Results

/-- The key groups that one batch completes. -/
def SortedGroupDecoder.pushBatch (current : Option InProgressKeyGroup) (batch : List GbkRow) :
    Option InProgressKeyGroup × List DecodedKeyGroup :=
  let decoder := batch.foldl pushRow ⟨current, []⟩
  (decoder.current, decoder.completed)

/-- One call of `processKeyGroupsBatch`. The output is flushed after the call for
a batch, not after the one for the last key group of a bucket. -/
structure BatchCall where
  keyGroups : List DecodedKeyGroup
  flushes : Bool

/-- The calls for one bucket's sorted batches. -/
def bucketCalls : Option InProgressKeyGroup → List (List GbkRow) → List BatchCall
  | current, [] => current.toList.map fun last => ⟨[last.finished], false⟩
  | current, batch :: batches =>
      let (current, groups) := SortedGroupDecoder.pushBatch current batch
      ⟨groups, true⟩ :: bucketCalls current batches

/-- What an execution reads after its cursor: the sorted batches of every bucket
and the snapshot to move the cursor to. -/
structure GbkInput where
  buckets : List (List (List GbkRow))
  latest : Option Int64

def GbkInput.calls (input : GbkInput) : List BatchCall :=
  input.buckets.flatMap (bucketCalls none)

structure GbkContext where
  spec : TriggerSpec
  needsMerge : Bool
  windowMerger : Option WindowMerger
  inputPcollectionId : String
  inputWatermark : Int64
  processingTime : Int64

/-- The iteration orders of the hash maps of one execution. -/
structure HashOrders where
  merge : List GroupInput → List GroupInput
  scan : List GroupIdentity → List GroupIdentity

/-- Where an execution fails: while it opens its input, in a call for a batch
(reading, decoding or merging), in the flush after a call, in the write of a
round of the drain loop, in the last write, in the commit or at the cursor. -/
inductive FailurePoint where
  | opening
  | batch (index : Nat)
  | flush (index : Nat)
  | drain (round : Nat)
  | output
  | commit
  | cursor
  deriving DecidableEq

/-- What a failed execution leaves behind. -/
structure Failure where
  error : String
  inner : InMemoryGbkState
  committed : List WindowedValue

/-- An execution under way: the backend, the panes collected since the last
flush and the panes handed to the writer. -/
structure Attempt where
  inner : InMemoryGbkState
  output : List WindowedValue
  written : List WindowedValue

/-- The groups that one call feeds. -/
def batchGroups (ctx : GbkContext) (orders : HashOrders) (call : BatchCall) :
    Except String (List GroupInput) := do
  let native ← nativeGroups ctx.needsMerge call.keyGroups
  let merged ← mergedGroups orders.merge ctx.windowMerger ctx.inputPcollectionId
    (customMerges ctx.needsMerge call.keyGroups)
  pure (native ++ merged)

section Execute

variable (ctx : GbkContext) (orders : HashOrders) (failure : Option (FailurePoint × String))

def failsAt (point : FailurePoint) : Option String :=
  match failure with
  | some (other, error) => if other = point then some error else none
  | none => none

/-- Write some panes; nothing is written for an empty batch. -/
def Attempt.write (point : FailurePoint) (values : List WindowedValue) (attempt : Attempt) :
    Except Failure Attempt :=
  if values.isEmpty then .ok attempt
  else match failsAt failure point with
    | some error => .error ⟨error, attempt.inner, []⟩
    | none => .ok { attempt with written := attempt.written ++ values }

def Attempt.flushOutputIfFull (point : FailurePoint) (attempt : Attempt) :
    Except Failure Attempt :=
  if outputBatchSize ≤ attempt.output.length then
    Attempt.write failure point attempt.output { attempt with output := [] }
  else .ok attempt

def Attempt.processBatch (point : FailurePoint) (call : BatchCall) (attempt : Attempt) :
    Except Failure Attempt :=
  match failsAt failure point with
  | some error => .error ⟨error, attempt.inner, []⟩
  | none =>
      match processKeyGroupsBatch attempt.inner orders.merge call.keyGroups ctx.needsMerge
          ctx.windowMerger ctx.inputPcollectionId ctx.spec ctx.inputWatermark
          ctx.processingTime with
      | .error error => .error ⟨error, attempt.inner, []⟩
      | .ok (inner, panes) => .ok { attempt with inner, output := attempt.output ++ panes }

/-- One batch of a bucket, or its last key group. -/
def Attempt.executeCall (index : Nat) (call : BatchCall) (attempt : Attempt) :
    Except Failure Attempt := do
  let attempt ← attempt.processBatch ctx orders failure (.batch index) call
  if call.flushes then attempt.flushOutputIfFull failure (.flush index) else .ok attempt

/-- The loop over the batches of all buckets. -/
def Attempt.executeCalls : Nat → List BatchCall → Attempt → Except Failure Attempt
  | _, [], attempt => .ok attempt
  | index, call :: calls, attempt => do
      let attempt ← attempt.executeCall ctx orders failure index call
      executeCalls (index + 1) calls attempt

/-- The drain loop, with as many rounds as `drainReady` is given. -/
def Attempt.drain : Nat → Nat → Attempt → Except Failure Attempt
  | _, 0, attempt => .ok attempt
  | round, fuel + 1, attempt =>
      let (inner, ready) := attempt.inner.takeReady orders.scan ctx.spec ctx.inputWatermark
        ctx.processingTime outputBatchSize
      if ready.isEmpty then .ok { attempt with inner }
      else do
        let attempt ← Attempt.write failure (.drain round) ready { attempt with inner }
        drain (round + 1) fuel attempt

/-- Without a written batch there is nothing to commit. -/
def Attempt.commit (attempt : Attempt) : Except Failure (List WindowedValue) :=
  if attempt.written.isEmpty then .ok []
  else match failsAt failure .commit with
    | some error => .error ⟨error, attempt.inner, []⟩
    | none => .ok attempt.written

def Attempt.setCursor (latest : Option Int64) (committed : List WindowedValue)
    (attempt : Attempt) : Except Failure (InMemoryGbkState × List WindowedValue) :=
  match latest with
  | none => .ok (attempt.inner, committed)
  | some _ => match failsAt failure .cursor with
    | some error => .error ⟨error, attempt.inner, committed⟩
    | none => .ok (attempt.inner, committed)

/-- Write what has been collected and commit, then advance the cursor. -/
def Attempt.finish (latest : Option Int64) (attempt : Attempt) :
    Except Failure (InMemoryGbkState × List WindowedValue) := do
  let attempt ← attempt.flushOutputIfFull failure .output
  let attempt ← Attempt.write failure .output attempt.output { attempt with output := [] }
  let committed ← attempt.commit failure
  attempt.setCursor failure latest committed

/-- One execution: the backend and the committed panes, or what a failure left. -/
def execute (input : GbkInput) (inner : InMemoryGbkState) :
    Except Failure (InMemoryGbkState × List WindowedValue) :=
  let begun := inner.beginRun
  match failsAt failure .opening with
  | some error => .error ⟨error, begun, []⟩
  | none => do
      let attempt ← Attempt.executeCalls ctx orders failure 0 input.calls ⟨begun, [], []⟩
      let attempt ← Attempt.drain ctx orders failure 0 (attempt.inner.states.entries.length + 1)
        attempt
      attempt.finish failure input.latest

end Execute

/-- Feeding two lists of groups is feeding one after the other. -/
theorem InMemoryGbkState.applyGroups_append (inner : InMemoryGbkState) (spec : TriggerSpec)
    (inputWatermark processingTime : Int64) (first second : List GroupInput) :
    inner.applyGroups spec inputWatermark processingTime (first ++ second) =
      let fed := inner.applyGroups spec inputWatermark processingTime first
      let rest := fed.1.applyGroups spec inputWatermark processingTime second
      (rest.1, fed.2 ++ rest.2) := by
  induction first generalizing inner with
  | nil => rfl
  | cons group first ih =>
      rw [List.cons_append, applyGroups, applyGroups]
      simp only [ih, List.append_assoc]

/-- The calls that have fed their groups when an execution fails. -/
def FailurePoint.fedCalls (calls : List BatchCall) : FailurePoint → List BatchCall
  | .opening => []
  | .batch index => calls.take index
  | .flush index => calls.take (index + 1)
  | _ => calls

/-- The groups that some calls feed, where their merges succeed. -/
def callsGroups (ctx : GbkContext) (orders : HashOrders) (calls : List BatchCall) :
    List GroupInput :=
  calls.flatMap fun call => (batchGroups ctx orders call).toOption.getD []

section Outcome

variable {ctx : GbkContext} {orders : HashOrders} (failure : Option (FailurePoint × String))

variable {failure} in
theorem failsAt_some {point : FailurePoint} {error : String}
    (h : failsAt failure point = some error) : failure = some (point, error) := by
  unfold failsAt at h
  split at h
  · next other reason =>
      split at h
      · next hSame => rw [hSame, Option.some.inj h]
      · cases h
  · cases h

namespace Attempt

/-- A write adds its values, or fails at its own point. -/
theorem write_cases (point : FailurePoint) (values : List WindowedValue) (attempt : Attempt) :
    write failure point values attempt =
        .ok { attempt with written := attempt.written ++ values } ∨
      values ≠ [] ∧ ∃ error, failure = some (point, error) ∧
        write failure point values attempt = .error ⟨error, attempt.inner, []⟩ := by
  unfold write
  split
  · next hEmpty =>
      rw [List.isEmpty_iff.mp hEmpty, List.append_nil]
      exact .inl rfl
  · next hSome =>
      cases hFails : failsAt failure point with
      | none => exact .inl rfl
      | some error =>
          exact .inr ⟨by simpa using hSome, error, failsAt_some hFails, rfl⟩

/-- A flush moves panes from the output to the writer. -/
theorem flushOutputIfFull_cases (point : FailurePoint) (attempt : Attempt) :
    (∃ output written, flushOutputIfFull failure point attempt =
        .ok ⟨attempt.inner, output, written⟩ ∧
        written ++ output = attempt.written ++ attempt.output) ∨
      ∃ error, failure = some (point, error) ∧
        flushOutputIfFull failure point attempt = .error ⟨error, attempt.inner, []⟩ := by
  unfold flushOutputIfFull
  split
  · rcases write_cases failure point attempt.output { attempt with output := [] } with hOk | hFails
    · exact .inl ⟨[], _, hOk, List.append_nil _⟩
    · exact .inr hFails.2
  · exact .inl ⟨_, _, rfl, rfl⟩

/-- A batch feeds its groups and writes their panes, or fails. -/
theorem processBatch_cases (point : FailurePoint) {call : BatchCall} {groups : List GroupInput}
    (hGroups : batchGroups ctx orders call = .ok groups) (attempt : Attempt) :
    let fed := attempt.inner.applyGroups ctx.spec ctx.inputWatermark ctx.processingTime groups
    attempt.processBatch ctx orders failure point call =
        .ok { attempt with inner := fed.1, output := attempt.output ++ fed.2 } ∨
      ∃ error, failure = some (point, error) ∧
        attempt.processBatch ctx orders failure point call = .error ⟨error, attempt.inner, []⟩ := by
  intro fed
  have hProcess : processKeyGroupsBatch attempt.inner orders.merge call.keyGroups ctx.needsMerge
      ctx.windowMerger ctx.inputPcollectionId ctx.spec ctx.inputWatermark ctx.processingTime =
      .ok fed := by
    obtain ⟨native, hNative, hRest⟩ := bind_eq_ok hGroups
    obtain ⟨merged, hMerged, hBoth⟩ := bind_eq_ok hRest
    cases hBoth
    rw [processKeyGroupsBatch, hNative, hMerged]
    rfl
  unfold processBatch
  cases hFails : failsAt failure point with
  | some error => exact .inr ⟨error, failsAt_some hFails, rfl⟩
  | none =>
      rw [hProcess]
      exact .inl rfl

/-- What the calls before a failure, or all of them, have fed. -/
structure Fed (ctx : GbkContext) (groups : List GroupInput) (before after : Attempt) : Prop where
  inner : after.inner =
    (before.inner.applyGroups ctx.spec ctx.inputWatermark ctx.processingTime groups).1
  panes : after.written ++ after.output = before.written ++ before.output ++
    (before.inner.applyGroups ctx.spec ctx.inputWatermark ctx.processingTime groups).2

theorem Fed.refl (ctx : GbkContext) (attempt : Attempt) : Fed ctx [] attempt attempt :=
  ⟨rfl, (List.append_nil _).symm⟩

/-- What is fed in two parts is fed. -/
theorem Fed.trans {first second : List GroupInput} {before middle after : Attempt}
    (hFirst : Fed ctx first before middle) (hSecond : Fed ctx second middle after) :
    Fed ctx (first ++ second) before after := by
  constructor
  · rw [hSecond.inner, hFirst.inner, InMemoryGbkState.applyGroups_append]
  · rw [hSecond.panes, hFirst.panes, hFirst.inner, InMemoryGbkState.applyGroups_append]
    exact List.append_assoc ..

theorem callsGroups_cons {call : BatchCall} {groups : List GroupInput}
    (h : batchGroups ctx orders call = .ok groups) (calls : List BatchCall) :
    callsGroups ctx orders (call :: calls) = groups ++ callsGroups ctx orders calls := by
  rw [callsGroups, List.flatMap_cons, h]
  rfl

/-- A call feeds its groups, or fails at its own point. -/
theorem executeCall_cases (index : Nat) {call : BatchCall} {groups : List GroupInput}
    (hGroups : batchGroups ctx orders call = .ok groups) (attempt : Attempt) :
    (∃ fed, Fed ctx groups attempt fed ∧
        attempt.executeCall ctx orders failure index call = .ok fed) ∨
      (∃ error, failure = some (.batch index, error) ∧
        attempt.executeCall ctx orders failure index call =
          .error ⟨error, attempt.inner, []⟩) ∨
      ∃ error fed, failure = some (.flush index, error) ∧ Fed ctx groups attempt fed ∧
        attempt.executeCall ctx orders failure index call = .error ⟨error, fed.inner, []⟩ := by
  unfold executeCall
  rcases processBatch_cases failure (.batch index) hGroups attempt with
    hOk | ⟨error, hFailure, hError⟩
  · rw [hOk]
    generalize hApplied : attempt.inner.applyGroups ctx.spec ctx.inputWatermark
      ctx.processingTime groups = applied
    have hFed : Fed ctx groups attempt ⟨applied.1, attempt.output ++ applied.2,
        attempt.written⟩ := by
      constructor
      · rw [hApplied]
      · rw [hApplied]
        exact (List.append_assoc ..).symm
    show _ ∨ (∃ error, _ ∧ (if call.flushes then _ else _) = _) ∨ _
    cases call.flushes with
    | false => exact .inl ⟨_, hFed, rfl⟩
    | true =>
        rcases flushOutputIfFull_cases failure (.flush index)
          ⟨applied.1, attempt.output ++ applied.2, attempt.written⟩ with
          ⟨output, written, hFlushed, hSame⟩ | ⟨error, hFailure, hError⟩
        · have hFlushedFed : Fed ctx groups attempt ⟨applied.1, output, written⟩ :=
            ⟨hFed.inner, hSame.trans hFed.panes⟩
          exact .inl ⟨_, hFlushedFed, hFlushed⟩
        · exact .inr (.inr ⟨error, _, hFailure, hFed, hError⟩)
  · rw [hError]
    exact .inr (.inl ⟨error, hFailure, rfl⟩)

/-- A call whose merge fails has no effect. -/
theorem executeCall_merge_error (index : Nat) {call : BatchCall} {message : String}
    (hGroups : batchGroups ctx orders call = .error message) (attempt : Attempt) :
    ∃ error, attempt.executeCall ctx orders failure index call =
      .error ⟨error, attempt.inner, []⟩ := by
  have hProcess : ∃ error, processKeyGroupsBatch attempt.inner orders.merge call.keyGroups
      ctx.needsMerge ctx.windowMerger ctx.inputPcollectionId ctx.spec ctx.inputWatermark
      ctx.processingTime = .error error := by
    unfold batchGroups at hGroups
    unfold processKeyGroupsBatch
    cases hNative : nativeGroups ctx.needsMerge call.keyGroups with
    | error error => exact ⟨error, rfl⟩
    | ok native =>
        rw [hNative] at hGroups
        cases hMerged : mergedGroups orders.merge ctx.windowMerger ctx.inputPcollectionId
          (customMerges ctx.needsMerge call.keyGroups) with
        | error error => exact ⟨error, rfl⟩
        | ok merged =>
            rw [hMerged] at hGroups
            cases hGroups
  obtain ⟨error, hError⟩ := hProcess
  unfold executeCall processBatch
  cases failsAt failure (.batch index) with
  | some failed => exact ⟨failed, rfl⟩
  | none =>
      rw [hError]
      exact ⟨error, rfl⟩

/-- The loop over the batches feeds the groups of all calls, or fails in one of
them: at the point of the failure or because a merge fails. -/
theorem executeCalls_cases (index : Nat) (calls : List BatchCall) (attempt : Attempt) :
    ((∀ call ∈ calls, ∃ groups, batchGroups ctx orders call = .ok groups) ∧
        ∃ fed, Fed ctx (callsGroups ctx orders calls) attempt fed ∧
          executeCalls ctx orders failure index calls attempt = .ok fed) ∨
      ∃ count error fed, (failure = some (.batch (index + count), error) ∧
            Fed ctx (callsGroups ctx orders (calls.take count)) attempt fed ∨
          failure = some (.flush (index + count), error) ∧
            Fed ctx (callsGroups ctx orders (calls.take (count + 1))) attempt fed ∨
          (∃ call ∈ calls, ∃ message, batchGroups ctx orders call = .error message) ∧
            Fed ctx (callsGroups ctx orders (calls.take count)) attempt fed) ∧
        executeCalls ctx orders failure index calls attempt = .error ⟨error, fed.inner, []⟩ := by
  induction calls generalizing index attempt with
  | nil => exact .inl ⟨by simp, attempt, .refl ctx attempt, rfl⟩
  | cons call calls ih =>
      rw [executeCalls]
      cases hGroups : batchGroups ctx orders call with
      | error message =>
          obtain ⟨error, hError⟩ := executeCall_merge_error failure index hGroups attempt
          rw [hError]
          exact .inr ⟨0, error, attempt, .inr (.inr ⟨⟨call, by simp, message, hGroups⟩,
            .refl ctx attempt⟩), rfl⟩
      | ok groups =>
          rw [callsGroups_cons hGroups]
          rcases executeCall_cases failure index hGroups attempt with
            ⟨fed, hFed, hTurn⟩ | ⟨error, hFailure, hTurn⟩ | ⟨error, fed, hFailure, hFed, hTurn⟩
          · rw [hTurn]
            rcases ih (index + 1) fed with
              ⟨hMerges, final, hFinal, hOk⟩ | ⟨count, error, final, hFinal, hError⟩
            · exact .inl ⟨List.forall_mem_cons.mpr ⟨⟨groups, hGroups⟩, hMerges⟩, final,
                hFed.trans hFinal, hOk⟩
            · refine .inr ⟨count + 1, error, final, ?_, hError⟩
              rw [List.take_succ_cons, List.take_succ_cons, callsGroups_cons hGroups,
                callsGroups_cons hGroups, ← Nat.add_assoc, Nat.add_right_comm index count 1]
              refine hFinal.imp (And.imp_right hFed.trans) (.imp (And.imp_right hFed.trans)
                (And.imp ?_ hFed.trans))
              rintro ⟨failed, hFailed, hMessage⟩
              exact ⟨failed, by simp [hFailed], hMessage⟩
          · rw [hTurn]
            exact .inr ⟨0, error, attempt, .inl ⟨hFailure, .refl ctx attempt⟩, rfl⟩
          · rw [hTurn]
            refine .inr ⟨0, error, fed, .inr (.inl ⟨hFailure, ?_⟩), rfl⟩
            rw [List.take_succ_cons, callsGroups_cons hGroups, List.take_zero]
            exact hFed.trans (.refl ctx fed)

/-- The drain loop takes all ready groups, or fails to write a round of them. -/
theorem drain_cases (round fuel : Nat) (attempt : Attempt)
    (h : InMemoryGbkState.Grouped attempt.inner.states) :
    (∃ drained, drained = InMemoryGbkState.drainReady ctx.spec orders.scan ctx.inputWatermark
          ctx.processingTime fuel attempt.inner ∧
        drain ctx orders failure round fuel attempt =
          .ok ⟨drained.1, attempt.output, attempt.written ++ drained.2⟩) ∨
      ∃ count error done inner panes, failure = some (.drain count, error) ∧
        InMemoryGbkState.Evaluates ctx.spec ctx.inputWatermark ctx.processingTime done
          attempt.inner.states inner.states panes ∧ panes ≠ [] ∧
        drain ctx orders failure round fuel attempt = .error ⟨error, inner, []⟩ := by
  induction fuel generalizing round attempt with
  | zero =>
      refine .inl ⟨_, rfl, ?_⟩
      rw [InMemoryGbkState.drainReady, List.append_nil]
      rfl
  | succ fuel ih =>
      obtain ⟨done, _, hDone, _⟩ := InMemoryGbkState.takeReady_evaluates ctx.spec
        ctx.inputWatermark ctx.processingTime h orders.scan
      rw [drain, InMemoryGbkState.drainReady]
      generalize attempt.inner.takeReady orders.scan ctx.spec ctx.inputWatermark
        ctx.processingTime outputBatchSize = taken at *
      obtain ⟨inner, ready⟩ := taken
      dsimp only at hDone ⊢
      by_cases hReady : ready.isEmpty = true
      · rw [if_pos hReady, if_pos hReady]
        refine .inl ⟨_, rfl, ?_⟩
        rw [List.append_nil]
      · rw [if_neg hReady, if_neg hReady]
        rcases write_cases failure (.drain round) ready { attempt with inner } with
          hOk | ⟨hSome, error, hFailure, hError⟩
        · rw [hOk]
          rcases ih (round + 1) ⟨inner, attempt.output, attempt.written ++ ready⟩ hDone.grouped
            with ⟨drained, hDrained, hRest⟩ | ⟨count, error, later, after, panes, hFailure, hLater,
              hSome, hError⟩
          · refine .inl ⟨_, rfl, ?_⟩
            rw [← hDrained, ← List.append_assoc]
            exact hRest
          · exact .inr ⟨count, error, _, after, _, hFailure, hDone.trans hLater,
              fun hNone => hSome (List.append_eq_nil_iff.mp hNone).2, hError⟩
        · rw [hError]
          exact .inr ⟨round, error, done, inner, ready, hFailure, hDone, hSome, rfl⟩

/-- A commit publishes what was written, or fails and publishes nothing. -/
theorem commit_cases (attempt : Attempt) :
    attempt.commit failure = .ok attempt.written ∨ ∃ error, failure = some (.commit, error) ∧
      attempt.commit failure = .error ⟨error, attempt.inner, []⟩ := by
  unfold commit
  split
  · next hNone =>
      rw [List.isEmpty_iff.mp hNone]
      exact .inl rfl
  · cases hFails : failsAt failure .commit with
    | none => exact .inl rfl
    | some error => exact .inr ⟨error, failsAt_some hFails, rfl⟩

/-- The cursor is set, or the failure comes after the commit. -/
theorem setCursor_cases (latest : Option Int64) (committed : List WindowedValue)
    (attempt : Attempt) :
    attempt.setCursor failure latest committed = .ok (attempt.inner, committed) ∨
      ∃ error, failure = some (.cursor, error) ∧
        attempt.setCursor failure latest committed =
          .error ⟨error, attempt.inner, committed⟩ := by
  unfold setCursor
  cases latest with
  | none => exact .inl rfl
  | some snapshot =>
      cases hFails : failsAt failure .cursor with
      | none => exact .inl rfl
      | some error => exact .inr ⟨error, failsAt_some hFails, rfl⟩

/-- The end of an execution: the last write and the commit, then the cursor. -/
theorem finish_cases (latest : Option Int64) (attempt : Attempt) :
    finish failure latest attempt = .ok (attempt.inner, attempt.written ++ attempt.output) ∨
      ∃ point error, failure = some (point, error) ∧
        ((point = .output ∨ point = .commit) ∧
            finish failure latest attempt = .error ⟨error, attempt.inner, []⟩ ∨
          point = .cursor ∧ finish failure latest attempt =
            .error ⟨error, attempt.inner, attempt.written ++ attempt.output⟩) := by
  unfold finish
  rcases flushOutputIfFull_cases failure .output attempt with
    ⟨output, written, hFlushed, hSame⟩ | ⟨error, hFailure, hError⟩
  · rw [hFlushed, ← hSame]
    simp only [bind, Except.bind]
    rcases write_cases failure .output output ⟨attempt.inner, [], written⟩ with
      hOk | ⟨_, error, hFailure, hError⟩
    · rw [hOk]
      dsimp only
      rcases commit_cases failure ⟨attempt.inner, [], written ++ output⟩ with
        hCommit | ⟨error, hFailure, hError⟩
      · rw [hCommit]
        dsimp only
        rcases setCursor_cases failure latest (written ++ output)
          ⟨attempt.inner, [], written ++ output⟩ with hCursor | ⟨error, hFailure, hError⟩
        · exact .inl hCursor
        · exact .inr ⟨_, error, hFailure, .inr ⟨rfl, hError⟩⟩
      · rw [hError]
        exact .inr ⟨_, error, hFailure, .inl ⟨.inr rfl, rfl⟩⟩
    · rw [hError]
      exact .inr ⟨_, error, hFailure, .inl ⟨.inl rfl, rfl⟩⟩
  · rw [hError]
    exact .inr ⟨_, error, hFailure, .inl ⟨.inl rfl, rfl⟩⟩

end Attempt

/-- The run that an execution makes of its input. -/
def GbkContext.run (ctx : GbkContext) (orders : HashOrders) (input : GbkInput) : GbkRun where
  groups := callsGroups ctx orders input.calls
  inputWatermark := ctx.inputWatermark
  processingTime := ctx.processingTime
  order := orders.scan

/-- What an execution that failed at a point leaves of the backend and of its
output. -/
inductive LeavesBehind (ctx : GbkContext) (orders : HashOrders) (input : GbkInput)
    (inner : InMemoryGbkState) : FailurePoint → InMemoryGbkState → List WindowedValue → Prop
  | reading (point : FailurePoint)
      (hReading : point = .opening ∨ (∃ index, point = .batch index) ∨ ∃ index, point = .flush index) :
      LeavesBehind ctx orders input inner point
        (inner.beginRun.applyGroups ctx.spec ctx.inputWatermark ctx.processingTime
          (callsGroups ctx orders (point.fedCalls input.calls))).1 []
  | draining (round : Nat) (done : List GroupIdentity) (panes : List WindowedValue)
      (after : InMemoryGbkState) (hSome : panes ≠ [])
      (hDone : InMemoryGbkState.Evaluates ctx.spec ctx.inputWatermark ctx.processingTime done
        (inner.beginRun.applyGroups ctx.spec ctx.inputWatermark ctx.processingTime
          (callsGroups ctx orders input.calls)).1.states after.states panes) :
      LeavesBehind ctx orders input inner (.drain round) after []
  | writing (point : FailurePoint) (hWriting : point = .output ∨ point = .commit) :
      LeavesBehind ctx orders input inner point
        (inner.executeRun ctx.spec (ctx.run orders input)).1 []
  | cursor (committed : List WindowedValue)
      (hCommitted : committed.Perm (inner.executeRun ctx.spec (ctx.run orders input)).2) :
      LeavesBehind ctx orders input inner .cursor
        (inner.executeRun ctx.spec (ctx.run orders input)).1 committed

/-- Feeding keeps states under their identities. -/
theorem grouped_applyGroups (spec : TriggerSpec) (inputWatermark processingTime : Int64)
    (groups : List GroupInput) {inner : InMemoryGbkState}
    (h : InMemoryGbkState.Grouped inner.states)
    (hFits : ∀ group ∈ groups, group.window.CoderIdFits) :
    InMemoryGbkState.Grouped
      (inner.applyGroups spec inputWatermark processingTime groups).1.states := by
  induction groups generalizing inner with
  | nil => exact h
  | cons group groups ih =>
      have hFirst := (InMemoryGbkState.applyGroup_group spec inputWatermark processingTime h
        (hFits group (by simp)) group.identity).1
      exact ih hFirst fun other hOther => hFits other (by simp [hOther])

/-- An execution is the run over its input, a failure at a point of it, or stops
because a merge fails. -/
theorem execute_cases {input : GbkInput} {inner : InMemoryGbkState}
    (hFits : ∀ group ∈ callsGroups ctx orders input.calls, group.window.CoderIdFits)
    (h : InMemoryGbkState.Grouped inner.states) :
    ((∀ call ∈ input.calls, ∃ groups, batchGroups ctx orders call = .ok groups) ∧
        ∃ committed, committed.Perm (inner.executeRun ctx.spec (ctx.run orders input)).2 ∧
        execute ctx orders failure input inner =
          .ok ((inner.executeRun ctx.spec (ctx.run orders input)).1, committed)) ∨
      (∃ point error after committed, failure = some (point, error) ∧
        LeavesBehind ctx orders input inner point after committed ∧
        execute ctx orders failure input inner = .error ⟨error, after, committed⟩) ∨
      (∃ call ∈ input.calls, ∃ message, batchGroups ctx orders call = .error message) ∧
        ∃ count error, execute ctx orders failure input inner = .error ⟨error,
          (inner.beginRun.applyGroups ctx.spec ctx.inputWatermark ctx.processingTime
            (callsGroups ctx orders (input.calls.take count))).1, []⟩ := by
  unfold execute
  cases hOpening : failsAt failure .opening with
  | some error =>
      exact .inr (.inl ⟨_, error, _, _, failsAt_some hOpening, .reading .opening (.inl rfl),
        rfl⟩)
  | none =>
      simp only [bind, Except.bind]
      rcases Attempt.executeCalls_cases failure 0 input.calls ⟨inner.beginRun, [], []⟩ with
        ⟨hMerges, fed, hFed, hOk⟩ | ⟨count, error, fed, hFailure, hError⟩
      · rw [hOk]
        dsimp only
        have hInner := hFed.inner
        have hPanes := hFed.panes
        have hGrouped : InMemoryGbkState.Grouped fed.inner.states := by
          rw [hInner]
          exact grouped_applyGroups ctx.spec ctx.inputWatermark ctx.processingTime _ h.begin hFits
        rcases Attempt.drain_cases failure 0 (fed.inner.states.entries.length + 1) fed hGrouped
          with ⟨drained, hDrained, hDrain⟩ | ⟨count, error, done, after, panes, hFailure, hDone,
            hSome, hError⟩
        · rw [hDrain]
          dsimp only
          have hRun : inner.executeRun ctx.spec (ctx.run orders input) =
              (drained.1, (fed.written ++ fed.output) ++ drained.2) := by
            rw [hPanes, hDrained, hInner]
            rfl
          rw [hRun]
          have hOrder : (fed.written ++ drained.2 ++ fed.output).Perm
              (fed.written ++ fed.output ++ drained.2) := by
            rw [List.append_assoc, List.append_assoc]
            exact List.perm_append_comm.append_left _
          rcases Attempt.finish_cases failure input.latest
            ⟨drained.1, fed.output, fed.written ++ drained.2⟩ with
            hOk | ⟨point, error, hFailure, ⟨hWriting, hError⟩ | ⟨rfl, hError⟩⟩
          · exact .inl ⟨hMerges, _, hOrder, hOk⟩
          · have hLeaves : LeavesBehind ctx orders input inner point _ [] :=
              .writing point hWriting
            rw [hRun] at hLeaves
            exact .inr (.inl ⟨point, error, _, [], hFailure, hLeaves, hError⟩)
          · have hLeaves : LeavesBehind ctx orders input inner .cursor _
                (fed.written ++ drained.2 ++ fed.output) := .cursor _ (hRun ▸ hOrder)
            rw [hRun] at hLeaves
            exact .inr (.inl ⟨.cursor, error, _, _, hFailure, hLeaves, hError⟩)
        · rw [hError]
          rw [hInner] at hDone
          exact .inr (.inl ⟨_, error, after, [], hFailure,
            .draining count done panes after hSome hDone, rfl⟩)
      · rw [hError]
        simp only [Nat.zero_add] at hFailure
        rcases hFailure with ⟨hFailure, hFed⟩ | ⟨hFailure, hFed⟩ | ⟨hFailed, hFed⟩
        · have hInner := hFed.inner
          refine .inr (.inl ⟨_, error, fed.inner, [], hFailure, ?_, rfl⟩)
          rw [hInner]
          exact .reading (.batch count) (.inr (.inl ⟨count, rfl⟩))
        · have hInner := hFed.inner
          refine .inr (.inl ⟨_, error, fed.inner, [], hFailure, ?_, rfl⟩)
          rw [hInner]
          exact .reading (.flush count) (.inr (.inr ⟨count, rfl⟩))
        · refine .inr (.inr ⟨hFailed, count, error, ?_⟩)
          rw [hFed.inner]

end Outcome

end FlareDB
