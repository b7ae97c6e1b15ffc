import FlareDB.Engine.OutputElements
import FlareDB.Engine.TimerWire
import FlareDB.Engine.TimerStreams
import FlareDB.Harness.Data
import FlareDB.Lib.CutLoops

/-! The input of a bundle. The rows of a PCollection are encoded and sent to the
worker in chunks of as many elements as an estimator asks for, and the stream is
then closed together with the timer endpoints of the stage. -/
namespace FlareDB

open KeyedStore CutLoops

/-- The coders of a boundary: that of the PCollection, and that of the sibling for
opaque framing where the pipeline has one. -/
structure BoundaryCoders where
  logical : StandardBeamCoders
  sibling : Option StandardBeamCoders
  windowCoder : WindowCoder

namespace BoundaryCoders

variable (coders : BoundaryCoders)

def wire : WindowedValueCoder where
  elementCoder := coders.sibling.getD coders.logical
  windowCoder := coders.windowCoder

/-- Whether a structured element crosses the boundary as opaque bytes. -/
def structuredPayload : Bool := coders.sibling.isSome && coders.logical.isStructured

end BoundaryCoders

def StandardBeamCoders.keyCoder : StandardBeamCoders → StandardBeamCoders
  | .kv keyCoder _ => keyCoder
  | .gbk keyCoder _ => keyCoder
  | coder => coder

/-- Failures of the input task. `unwound` is a panic of a coder. -/
inductive InputError where
  | scan
  | voidNotOpaque (pcollectionId : String) (found : BeamRecord)
  | expirationNotKeyed (found : BeamRecord)
  | timers
  | send
  | unwound

/-- The bytes of an element on the wire. A void element is kept as the bytes of its
whole frame and goes out as it is. -/
def BoundaryCoders.encodeElement (coders : BoundaryCoders) (pcollectionId : String)
    (element : WindowedValue) : Except InputError (List UInt8) :=
  if coders.logical.isVoid then match element.value with
    | .primitive (.bytes raw) => .ok raw
    | other => .error (.voidNotOpaque pcollectionId other)
  else
    let wired :=
      if coders.structuredPayload then encodeStructuredBoundaryValue coders.logical element
      else some element
    match wired.bind coders.wire.encode with
    | some bytes => .ok bytes
    | none => .error .unwound

/-- The timers that expire the windows of an element: one for each window and each
family, at the last instant of the window. -/
def windowExpirationTimerEntries (element : WindowedValue) (elementCoder : StandardBeamCoders)
    (timers : List (String × String)) : Except InputError (List TimerEntry) :=
  if timers.isEmpty then .ok []
  else match element.value with
    | .kv key _ => match elementCoder.keyCoder.encodeKey key with
        | none => .error .unwound
        | some userKey => .ok (element.windows.flatMap fun window => timers.map fun timer =>
            { key := {
                transformId := timer.1
                timerFamilyId := timer.2
                tag := ""
                window := window.canonicalKey
                userKey := userKey }
              domain := .eventTime
              fireTimestamp := window.maxTimestampMillis.toInt
              holdTimestamp := window.maxTimestampMillis.toInt })
    | other => .error (.expirationNotKeyed other)

/-- The task that feeds one bundle. -/
structure InputTask where
  instructionId : String
  transformId : String
  pcollectionId : String
  coders : BoundaryCoders
  timerEndpoints : List (String × String)
  windowExpirationTimers : List (String × String)

/-- What the task meets: the sizes it is asked for, by the number of chunks sent; and
the messages, the commits of timers and the scan that fail. -/
structure InputConditions where
  batchSize : Nat → Nat
  sendFails : Nat → Bool
  applyFails : Nat → Bool
  scanFails : Bool

/-- Where the task stands. `encoded` holds `batchLen` elements yet to be sent and
`expirations` the timers of the rows since the last commit. -/
structure InputPump where
  encoded : List UInt8
  batchLen : Nat
  totalSent : Nat
  sent : List Elements
  expirations : TimerWrites
  committed : Nat
  timers : TimerStore

namespace InputTask

variable (task : InputTask)

def chunk (data : List UInt8) : Elements where
  data := [⟨task.instructionId, task.transformId, data, false⟩]
  timers := []

/-- The empty messages that close the data stream and the timer endpoints. -/
def terminators : Elements where
  data := [⟨task.instructionId, task.transformId, [], true⟩]
  timers := task.timerEndpoints.map fun endpoint =>
    ⟨task.instructionId, endpoint.1, endpoint.2, [], true⟩

variable (conditions : InputConditions)

def sendElements (pump : InputPump) (elements : Elements) :
    Except (InputError × InputPump) InputPump :=
  if conditions.sendFails pump.sent.length then .error (.send, pump)
  else .ok { pump with sent := pump.sent ++ [elements] }

def sendChunk (pump : InputPump) : Except (InputError × InputPump) InputPump := do
  let pump ← sendElements conditions pump (task.chunk pump.encoded)
  pure { pump with encoded := [], batchLen := 0 }

def sendElement (pump : InputPump) (element : WindowedValue) :
    Except (InputError × InputPump) InputPump :=
  match windowExpirationTimerEntries element task.coders.logical task.windowExpirationTimers,
      task.coders.encodeElement task.pcollectionId element with
  | .error reason, _ => .error (reason, pump)
  | .ok _, .error reason => .error (reason, pump)
  | .ok entries, .ok bytes =>
      let expirations := entries.foldl
        (fun pending entry => recordTimer pending ⟨entry, false⟩) pump.expirations
      let pump := { pump with
        encoded := pump.encoded ++ bytes
        batchLen := pump.batchLen + 1
        totalSent := pump.totalSent + 1
        expirations }
      if conditions.batchSize pump.sent.length ≤ pump.batchLen then
        task.sendChunk conditions pump
      else .ok pump

/-- One batch of rows, and the commit of the timers they have set. -/
def sendRows (pump : InputPump) (rows : List WindowedValue) :
    Except (InputError × InputPump) InputPump := do
  let pump ← rows.foldlM (task.sendElement conditions) pump
  if conditions.applyFails pump.committed then .error (.timers, pump)
  else pure { pump with
    expirations := ∅
    committed := pump.committed + 1
    timers := pump.timers.apply pump.expirations }

/-- What is left is sent, and the streams are closed. -/
def finish (pump : InputPump) : Except (InputError × InputPump) InputPump := do
  let pump ← if 0 < pump.batchLen then task.sendChunk conditions pump else pure pump
  sendElements conditions pump task.terminators

def start (timers : TimerStore) : InputPump where
  encoded := []
  batchLen := 0
  totalSent := 0
  sent := []
  expirations := ∅
  committed := 0
  timers := timers

/-- Rows in the order of their timestamps; rows of one timestamp keep their order. -/
def sortWindowedValuesByTimestamp (rows : List WindowedValue) : List WindowedValue :=
  rows.insertionSort fun first second => first.timestampMillis ≤ second.timestampMillis

/-- Time-sorted input is read as a whole before any of it is sent. -/
def processInputElements (timers : TimerStore) (requiresTimeSortedInput : Bool)
    (batches : List (List WindowedValue)) : Except (InputError × InputPump) InputPump :=
  if requiresTimeSortedInput then
    if conditions.scanFails then .error (.scan, start timers)
    else do
      let rows := sortWindowedValuesByTimestamp batches.flatten
      let pump ← task.sendRows conditions (start timers) rows
      task.finish conditions pump
  else do
    let pump ← batches.foldlM (task.sendRows conditions) (start timers)
    if conditions.scanFails then .error (.scan, pump) else task.finish conditions pump

/-! What is sent. -/

/-- The timers that some rows set. -/
def expirations (rows : List WindowedValue) : List TimerOutput :=
  rows.flatMap fun row =>
    match windowExpirationTimerEntries row task.coders.logical task.windowExpirationTimers with
    | .ok entries => entries.map fun entry => ⟨entry, false⟩
    | .error _ => []

/-- The elements of some rows, the chunks they have gone out in and those that are
yet to go out. -/
structure Encodes (rows : List WindowedValue) (groups : List (List (List UInt8)))
    (tail : List (List UInt8)) : Prop where
  parts : List.Forall₂ (fun row part => task.coders.encodeElement task.pcollectionId row = .ok part)
    rows (groups.flatten ++ tail)
  nonempty : ∀ group ∈ groups, group ≠ []

/-- The store holds the timers of a first part of the rows. -/
def Expires (initial : TimerStore) (rows applied : List WindowedValue) (pump : InputPump) : Prop :=
  ∃ current, rows = applied ++ current ∧
    pump.expirations = timerWrites (task.expirations current) ∧
    ∀ key, pump.timers.lookup key = (flushTimers initial (task.expirations applied)).lookup key

/-- What holds once some rows have been taken. -/
structure Pumped (initial : TimerStore) (applied rows : List WindowedValue) (pump : InputPump) :
    Prop where
  sent : ∃ groups tail, task.Encodes rows groups tail ∧
    pump.sent = groups.map (fun group => task.chunk group.flatten) ∧
    pump.encoded = tail.flatten ∧ pump.batchLen = tail.length
  counted : pump.totalSent = rows.length
  expires : task.Expires initial rows applied pump

/-- What holds where the task stops: what has gone out are whole elements of a
first part of the rows, and no stream has been closed. -/
def Stopped (initial : TimerStore) (rows : List WindowedValue) (pump : InputPump) : Prop :=
  ∃ applied, task.Pumped initial applied rows pump

variable {task : InputTask} {initial : TimerStore}
  {applied rows : List WindowedValue} {pump : InputPump}

/-- Before the first row nothing is sent. -/
theorem Pumped.start : task.Pumped initial [] [] (InputTask.start initial) where
  sent := ⟨[], [], ⟨.nil, fun _ h => absurd h List.not_mem_nil⟩, rfl, rfl, rfl⟩
  counted := rfl
  expires := ⟨[], rfl, rfl, fun _ => rfl⟩

/-- A chunk takes all that is encoded. -/
theorem Pumped.sendChunk (h : task.Pumped initial applied rows pump)
    (conditions : InputConditions) (hSome : 0 < pump.batchLen) :
    Ends (fun rows next => task.Pumped initial applied rows next ∧ next.batchLen = 0)
      (task.Stopped initial) rows (task.sendChunk conditions pump) := by
  obtain ⟨groups, tail, hEncodes, hSent, hEncoded, hLength⟩ := h.sent
  rw [InputTask.sendChunk, sendElements]
  by_cases hFails : conditions.sendFails pump.sent.length = true
  · rw [if_pos hFails]
    exact ⟨rows, List.prefix_refl rows, applied, h⟩
  · rw [if_neg hFails]
    refine ⟨⟨⟨groups ++ [tail], [], ⟨?_, ?_⟩, ?_, rfl, rfl⟩, h.counted, h.expires⟩, rfl⟩
    · rw [List.flatten_append, List.flatten_singleton, List.append_nil]
      exact hEncodes.parts
    · intro group hGroup
      rcases List.mem_append.mp hGroup with hOld | hNew
      · exact hEncodes.nonempty group hOld
      · rw [List.mem_singleton.mp hNew]
        exact List.ne_nil_of_length_pos (hLength ▸ hSome)
    · rw [List.map_append, ← hSent, hEncoded]
      rfl

/-- The pump after an element, before it is decided whether a chunk goes out. -/
theorem Pumped.encoded (h : task.Pumped initial applied rows pump) {element : WindowedValue}
    {entries : List TimerEntry} {bytes : List UInt8}
    (hEntries : windowExpirationTimerEntries element task.coders.logical
      task.windowExpirationTimers = .ok entries)
    (hBytes : task.coders.encodeElement task.pcollectionId element = .ok bytes) :
    task.Pumped initial applied (rows ++ [element]) { pump with
      encoded := pump.encoded ++ bytes
      batchLen := pump.batchLen + 1
      totalSent := pump.totalSent + 1
      expirations := entries.foldl
        (fun pending entry => recordTimer pending ⟨entry, false⟩) pump.expirations } := by
  obtain ⟨groups, tail, hEncodes, hSent, hEncoded, hLength⟩ := h.sent
  obtain ⟨current, hRows, hPending, hStored⟩ := h.expires
  refine ⟨⟨groups, tail ++ [bytes], ⟨?_, hEncodes.nonempty⟩, hSent, ?_, ?_⟩, ?_,
    current ++ [element], ?_, ?_, hStored⟩
  · rw [← List.append_assoc]
    exact List.rel_append hEncodes.parts (.cons hBytes .nil)
  · rw [List.flatten_append, List.flatten_singleton, ← hEncoded]
  · rw [List.length_append, ← hLength]
    rfl
  · rw [List.length_append, ← h.counted]
    rfl
  · rw [hRows, List.append_assoc]
  · have hNew : task.expirations [element] = entries.map fun entry => ⟨entry, false⟩ := by
      simp only [expirations, List.flatMap_cons, List.flatMap_nil, List.append_nil, hEntries]
    have hAll : task.expirations (current ++ [element]) =
        task.expirations current ++ task.expirations [element] := List.flatMap_append
    rw [hAll, timerWrites_append, ← hPending, hNew, List.foldl_map]

/-- A row that is sent follows those before it. -/
theorem Pumped.sendElement (h : task.Pumped initial applied rows pump)
    (conditions : InputConditions) (element : WindowedValue) :
    Ends (task.Pumped initial applied) (task.Stopped initial) (rows ++ [element])
      (task.sendElement conditions pump element) := by
  rw [InputTask.sendElement]
  cases hEntries : windowExpirationTimerEntries element task.coders.logical
      task.windowExpirationTimers with
  | error reason => exact .stopped ⟨applied, h⟩
  | ok entries =>
      cases hBytes : task.coders.encodeElement task.pcollectionId element with
      | error reason => exact .stopped ⟨applied, h⟩
      | ok bytes =>
          have hEncoded := h.encoded hEntries hBytes
          dsimp only
          split
          · exact (hEncoded.sendChunk conditions (Nat.succ_pos _)).imp fun _ hNext => hNext.1
          · exact hEncoded

/-- After a batch all of its timers are in the store. -/
theorem Pumped.sendRows (h : task.Pumped initial rows rows pump) (conditions : InputConditions)
    (more : List WindowedValue) :
    Ends (fun rows next => task.Pumped initial rows rows next) (task.Stopped initial)
      (rows ++ more) (task.sendRows conditions pump more) := by
  have hLoop : Ends (task.Pumped initial rows) (task.Stopped initial) (rows ++ more)
      (more.foldlM (task.sendElement conditions) pump) := by
    have hEnds := Ends.foldlM (fun seen state element (hSeen : task.Pumped initial rows seen state) =>
      hSeen.sendElement conditions element) more h
    rwa [List.flatMap_singleton'] at hEnds
  rw [InputTask.sendRows]
  refine hLoop.andThen fun next hNext => ?_
  split
  · exact ⟨rows ++ more, List.prefix_refl _, rows, hNext⟩
  · obtain ⟨current, hRows, hPending, hStored⟩ := hNext.expires
    refine ⟨hNext.sent, hNext.counted, [], (List.append_nil _).symm, rfl, fun key => ?_⟩
    have hAll : task.expirations (rows ++ more) =
        task.expirations rows ++ task.expirations current := by
      rw [hRows]
      exact List.flatMap_append
    dsimp only
    rw [TimerStore.apply, lookup_applyWrites, hPending, hStored key, lookup_flushTimers,
      lookup_flushTimers, hAll, lookup_timerWrites_append]
    cases (timerWrites (task.expirations current)).lookup key <;> rfl

/-- What holds when the task has closed its streams: all the rows have gone out, in
order and in whole elements, ahead of the terminators. -/
structure Finished (task : InputTask) (initial : TimerStore) (rows : List WindowedValue)
    (pump : InputPump) : Prop where
  sent : ∃ groups, task.Encodes rows groups [] ∧
    pump.sent = groups.map (fun group => task.chunk group.flatten) ++ [task.terminators]
  counted : pump.totalSent = rows.length
  expires : ∀ key, pump.timers.lookup key = (flushTimers initial (task.expirations rows)).lookup key

/-- The terminators end the streams. -/
theorem Pumped.close (h : task.Pumped initial rows rows pump) (conditions : InputConditions)
    (hEmpty : pump.batchLen = 0) : Ends (task.Finished initial) (task.Stopped initial) rows
      (sendElements conditions pump task.terminators) := by
  obtain ⟨groups, tail, hEncodes, hSent, -, hLength⟩ := h.sent
  obtain ⟨current, hRows, -, hStored⟩ := h.expires
  have hTail : tail = [] := List.eq_nil_of_length_eq_zero (hLength.symm.trans hEmpty)
  rw [sendElements]
  split
  · exact ⟨rows, List.prefix_refl _, rows, h⟩
  · refine ⟨⟨groups, hTail ▸ hEncodes, ?_⟩, h.counted, hStored⟩
    rw [hSent]

/-- So the pump ends with every row sent, or stops. -/
theorem Pumped.finish (h : task.Pumped initial rows rows pump) (conditions : InputConditions) :
    Ends (task.Finished initial) (task.Stopped initial) rows (task.finish conditions pump) := by
  rw [InputTask.finish]
  split
  next hSome =>
    exact (h.sendChunk conditions hSome).andThen fun next hNext => hNext.1.close conditions hNext.2
  next hNone => exact h.close conditions (Nat.eq_zero_of_not_pos hNone)

/-- The rows in the order they are sent. -/
def inputRows (requiresTimeSortedInput : Bool) (batches : List (List WindowedValue)) :
    List WindowedValue :=
  if requiresTimeSortedInput then sortWindowedValuesByTimestamp batches.flatten
  else batches.flatten

/-- Whatever fails, the worker has a first part of the rows, and all of them at
the end. -/
theorem processInputElements_ends (task : InputTask) (conditions : InputConditions)
    (initial : TimerStore) (requiresTimeSortedInput : Bool) (batches : List (List WindowedValue)) :
    Ends (task.Finished initial) (task.Stopped initial)
      (inputRows requiresTimeSortedInput batches)
      (task.processInputElements conditions initial requiresTimeSortedInput batches) := by
  have hStart : task.Pumped initial [] [] (InputTask.start initial) := .start
  rw [processInputElements, inputRows]
  cases requiresTimeSortedInput with
  | true =>
      rw [if_pos rfl, if_pos rfl]
      split
      · exact ⟨[], List.nil_prefix, [], hStart⟩
      · exact (hStart.sendRows conditions (sortWindowedValuesByTimestamp batches.flatten)).andThen
          fun next hNext => hNext.finish conditions
  | false =>
      rw [if_neg Bool.false_ne_true, if_neg Bool.false_ne_true, ← List.flatMap_id]
      have hLoop := Ends.foldlM (fun seen state more (hSeen : task.Pumped initial seen seen state) =>
        hSeen.sendRows conditions more) batches hStart
      refine Ends.andThen hLoop fun next hNext => ?_
      split
      · exact ⟨_, List.prefix_refl _, _, hNext⟩
      · exact hNext.finish conditions

/-! The task comes to its end when nothing fails. -/

/-- An element that can be encoded and whose windows can be expired. -/
def Sends (task : InputTask) (element : WindowedValue) : Prop :=
  (∃ bytes, task.coders.encodeElement task.pcollectionId element = .ok bytes) ∧
    ∃ entries, windowExpirationTimerEntries element task.coders.logical
      task.windowExpirationTimers = .ok entries

/-- A channel that works takes every message. -/
theorem sendElements_succeeds {conditions : InputConditions}
    (hSend : ∀ message, conditions.sendFails message = false) (pump : InputPump)
    (elements : Elements) : ∃ next, sendElements conditions pump elements = .ok next := by
  rw [sendElements, hSend, if_neg Bool.false_ne_true]
  exact ⟨_, rfl⟩

theorem sendChunk_succeeds {conditions : InputConditions}
    (hSend : ∀ message, conditions.sendFails message = false) (task : InputTask)
    (pump : InputPump) : ∃ next, task.sendChunk conditions pump = .ok next := by
  obtain ⟨next, hNext⟩ := sendElements_succeeds hSend pump (task.chunk pump.encoded)
  rw [InputTask.sendChunk, hNext]
  exact ⟨_, rfl⟩

/-- It takes every row that can be encoded. -/
theorem sendElement_succeeds {conditions : InputConditions}
    (hSend : ∀ message, conditions.sendFails message = false) {element : WindowedValue}
    (h : task.Sends element) (pump : InputPump) :
    ∃ next, task.sendElement conditions pump element = .ok next := by
  obtain ⟨⟨bytes, hBytes⟩, entries, hEntries⟩ := h
  rw [InputTask.sendElement, hBytes, hEntries]
  dsimp only
  split
  · exact sendChunk_succeeds hSend task _
  · exact ⟨_, rfl⟩

/-- So it takes all of them. -/
theorem sendRows_succeeds {conditions : InputConditions}
    (hSend : ∀ message, conditions.sendFails message = false)
    (hApply : ∀ batch, conditions.applyFails batch = false)
    (h : ∀ row ∈ rows, task.Sends row) (pump : InputPump) :
    ∃ next, task.sendRows conditions pump rows = .ok next := by
  obtain ⟨next, hNext⟩ := foldlM_succeeds
    (fun row hRow pump => sendElement_succeeds hSend (h row hRow) pump) pump
  rw [InputTask.sendRows, hNext]
  simp only [hApply]
  exact ⟨_, rfl⟩

theorem finish_succeeds {conditions : InputConditions}
    (hSend : ∀ message, conditions.sendFails message = false) (task : InputTask)
    (pump : InputPump) : ∃ next, task.finish conditions pump = .ok next := by
  rw [InputTask.finish]
  split
  · obtain ⟨next, hNext⟩ := sendChunk_succeeds hSend task pump
    rw [hNext]
    exact sendElements_succeeds hSend next task.terminators
  · exact sendElements_succeeds hSend pump task.terminators

/-- Sorting by time loses no row. -/
theorem inputRows_perm (requiresTimeSortedInput : Bool) (batches : List (List WindowedValue)) :
    (inputRows requiresTimeSortedInput batches).Perm batches.flatten := by
  rw [inputRows]
  split
  · exact List.perm_insertionSort _ _
  · exact List.Perm.refl _

/-- Where nothing fails and every row can be encoded, the pump succeeds. -/
theorem processInputElements_succeeds {conditions : InputConditions}
    (hSend : ∀ message, conditions.sendFails message = false)
    (hApply : ∀ batch, conditions.applyFails batch = false) (hScan : conditions.scanFails = false)
    (initial : TimerStore) (requiresTimeSortedInput : Bool) {batches : List (List WindowedValue)}
    (h : ∀ row ∈ batches.flatten, task.Sends row) :
    ∃ pump, task.processInputElements conditions initial requiresTimeSortedInput batches =
      .ok pump := by
  rw [processInputElements, hScan]
  cases requiresTimeSortedInput with
  | true =>
      have hRows : ∀ row ∈ sortWindowedValuesByTimestamp batches.flatten, task.Sends row :=
        fun row hRow => h row ((List.perm_insertionSort _ _).mem_iff.mp hRow)
      obtain ⟨next, hNext⟩ := sendRows_succeeds hSend hApply hRows (InputTask.start initial)
      simp only [if_true, Bool.false_eq_true, if_false, hNext]
      exact finish_succeeds hSend task next
  | false =>
      obtain ⟨next, hNext⟩ := foldlM_succeeds (fun rows hRows pump => sendRows_succeeds hSend hApply
        (fun row hRow => h row (List.mem_flatten.mpr ⟨rows, hRows, hRow⟩)) pump)
        (InputTask.start initial)
      simp only [Bool.false_eq_true, if_false, hNext]
      exact finish_succeeds hSend task next

/-- Ordered by time, and in the order they came in at one time. -/
structure TimeSorted (rows sorted : List WindowedValue) : Prop where
  ordered : sorted.Pairwise fun first second => first.timestampMillis ≤ second.timestampMillis
  stable : ∀ time : Int64, (sorted.filter fun row => row.timestampMillis = time) =
    rows.filter fun row => row.timestampMillis = time

/-- The sort orders rows by time and keeps rows of one time in order. -/
theorem timeSorted_sort (rows : List WindowedValue) :
    TimeSorted rows (sortWindowedValuesByTimestamp rows) := by
  have hTotal : Std.Total fun first second : WindowedValue =>
      first.timestampMillis ≤ second.timestampMillis := ⟨fun _ _ => Int64.le_total _ _⟩
  have hTrans : IsTrans WindowedValue fun first second =>
      first.timestampMillis ≤ second.timestampMillis := ⟨fun _ _ _ => Int64.le_trans⟩
  refine ⟨List.pairwise_insertionSort _ rows, fun time => ?_⟩
  have hSame : (rows.filter fun row => row.timestampMillis = time).Pairwise fun first second =>
      first.timestampMillis ≤ second.timestampMillis := by
    refine List.pairwise_of_forall_mem_list fun first hFirst second hSecond => ?_
    rw [of_decide_eq_true (List.mem_filter.mp hFirst).2,
      of_decide_eq_true (List.mem_filter.mp hSecond).2]
    exact Int64.le_refl _
  have hKept := (List.sublist_insertionSort hSame List.filter_sublist).filter
    fun row => row.timestampMillis = time
  simp only [List.filter_filter, Bool.and_self] at hKept
  have hPerm := (List.perm_insertionSort (fun first second : WindowedValue =>
    first.timestampMillis ≤ second.timestampMillis) rows).filter fun row => row.timestampMillis = time
  exact (hKept.eq_of_length hPerm.length_eq.symm).symm

/-- Whatever the sizes of the chunks and of the batches the rows are read in, the
worker is sent every row once and in order, as whole elements, and then the end of
its streams; where the task fails it has been sent a first part of the rows, and no
end. The store then holds the expiry timers of the rows, or of a first part of them.
When nothing fails the task comes to its end. -/
theorem input_reaches_the_worker (task : InputTask) (conditions : InputConditions)
    (initial : TimerStore) (requiresTimeSortedInput : Bool) (batches : List (List WindowedValue)) :
    (inputRows requiresTimeSortedInput batches).Perm batches.flatten ∧
      (if requiresTimeSortedInput then
        TimeSorted batches.flatten (inputRows requiresTimeSortedInput batches)
      else inputRows requiresTimeSortedInput batches = batches.flatten) ∧
      (match task.processInputElements conditions initial requiresTimeSortedInput batches with
      | .ok pump =>
          task.Finished initial (inputRows requiresTimeSortedInput batches) pump
      | .error (_, pump) =>
          ∃ seen, seen <+: inputRows requiresTimeSortedInput batches ∧
            task.Stopped initial seen pump) ∧
      ((∀ message, conditions.sendFails message = false) →
        (∀ batch, conditions.applyFails batch = false) → conditions.scanFails = false →
        (∀ row ∈ batches.flatten, task.Sends row) →
        ∃ pump, task.processInputElements conditions initial requiresTimeSortedInput batches =
          .ok pump) := by
  refine ⟨inputRows_perm requiresTimeSortedInput batches, ?_, ?_, ?_⟩
  · cases requiresTimeSortedInput with
    | true => exact timeSorted_sort batches.flatten
    | false => rfl
  · have hEnds := processInputElements_ends task conditions initial requiresTimeSortedInput batches
    cases hResult : task.processInputElements conditions initial requiresTimeSortedInput batches with
    | ok pump =>
        rw [hResult] at hEnds
        exact hEnds
    | error failure =>
        rw [hResult] at hEnds
        exact hEnds
  · intro hSend hApply hScan hRows
    exact processInputElements_succeeds hSend hApply hScan initial requiresTimeSortedInput hRows

/-- Two keyed elements of one window, with an expiry timer for each key. -/
def keyedTask : InputTask where
  instructionId := "bundle"
  transformId := "stage/source"
  pcollectionId := "keyed"
  coders := ⟨.kv .varInt .bytes, none, .interval⟩
  timerEndpoints := [("pardo", "expiry")]
  windowExpirationTimers := [("pardo", "expiry")]

def keyedRows : List (List WindowedValue) :=
  [[⟨.kv (.int64 3) (.primitive (.bytes [7])), 5, [.interval 0 10], .noFiring⟩],
    [⟨.kv (.int64 4) (.primitive (.bytes [])), 1, [.interval 0 10], .noFiring⟩]]

theorem input_reaches_the_worker_keyed :
    ∃ pump, keyedTask.processInputElements ⟨fun _ => 2, fun _ => false, fun _ => false, false⟩ ∅
      true keyedRows = .ok pump := by
  refine (input_reaches_the_worker keyedTask _ ∅ true keyedRows).2.2.2 (fun _ => rfl) (fun _ => rfl)
    rfl ?_
  intro row hRow
  have hRows : keyedRows.flatten = [
      ⟨.kv (.int64 3) (.primitive (.bytes [7])), 5, [.interval 0 10], .noFiring⟩,
      ⟨.kv (.int64 4) (.primitive (.bytes [])), 1, [.interval 0 10], .noFiring⟩] := rfl
  rw [hRows, List.mem_pair] at hRow
  rcases hRow with rfl | rfl
  · exact ⟨⟨_, rfl⟩, _, rfl⟩
  · exact ⟨⟨_, rfl⟩, _, rfl⟩

end InputTask

end FlareDB
