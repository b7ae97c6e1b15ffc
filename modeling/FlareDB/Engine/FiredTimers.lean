import FlareDB.Engine.BundleInput
import FlareDB.Lib.SortedGroups
import Mathlib.Data.Prod.Lex
import Mathlib.Data.String.Basic

/-! The timers a bundle is handed. Fired timers go out ahead of the input, in one
message for each timer family, and a bundle that is handed timers takes no input. -/
namespace FlareDB

open ByteDecoder SortedGroups

/-- The coder and the domain of a timer family, where they can be resolved. -/
abbrev TimerFamilies := String → String → Option (TimerCoder × TimeDomain)

def TimerEntry.family (entry : TimerEntry) : String ×ₗ String :=
  toLex (entry.key.transformId, entry.key.timerFamilyId)

/-- The fired timers of a family on the wire. A timer whose window cannot be read is
left out; `none` is a panic of the coder. -/
def TimerCoder.firedBytes (coder : TimerCoder) (entries : List TimerEntry) : Option (List UInt8) :=
  ((entries.filterMap timerToWire).mapM coder.encodeInto).map List.flatten

namespace InputTask

variable (task : InputTask)

/-- The message of a family; the timers of a family that cannot be resolved are
dropped. -/
def firedMessage (families : TimerFamilies) (group : (String ×ₗ String) × List TimerEntry) :
    Option (List Timers) :=
  match families (ofLex group.1).1 (ofLex group.1).2 with
  | none => some []
  | some (coder, _) => (coder.firedBytes group.2).map fun bytes =>
      [⟨task.instructionId, (ofLex group.1).1, (ofLex group.1).2, bytes, false⟩]

def firedMessages (families : TimerFamilies) (timers : List TimerEntry) : Option (List Timers) :=
  ((groupBy TimerEntry.family timers).mapM (task.firedMessage families)).map List.flatten

variable (conditions : InputConditions)

def sendFiredTimers (families : TimerFamilies) (pump : InputPump) (timers : List TimerEntry) :
    Except (InputError × InputPump) InputPump :=
  if timers.isEmpty then .ok pump
  else match task.firedMessages families timers with
    | none => .error (.unwound, pump)
    | some messages =>
        if messages.isEmpty then .ok pump else sendElements conditions pump ⟨[], messages⟩

def terminateBundleInput (pump : InputPump) : Except (InputError × InputPump) InputPump :=
  sendElements conditions pump task.terminators

/-- What a bundle is sent. Without timers nothing has gone out before the input. -/
def feedBundle (families : TimerFamilies) (store : TimerStore) (timers : List TimerEntry)
    (requiresTimeSortedInput : Bool) (batches : List (List WindowedValue)) :
    Except (InputError × InputPump) InputPump := do
  let pump ← task.sendFiredTimers conditions families (start store) timers
  if timers.isEmpty then
    task.processInputElements conditions store requiresTimeSortedInput batches
  else task.terminateBundleInput conditions pump

end InputTask

/-! A fired timer on the wire. -/

/-- The entry was stored for a timer of the endpoint, which its coder can write. -/
def TimerEndpoint.Stored (endpoint : TimerEndpoint) (entry : TimerEntry) : Prop :=
  ∃ timer window,
    entry = timerEntry endpoint.transformId endpoint.timerFamilyId timer endpoint.domain ∧
      timer.clear = false ∧ timer.windows = [window] ∧
      endpoint.coder.windowCoder.Matches window ∧ endpoint.coder.Keyed timer.userKey ∧
      (utf8Bytes timer.tag).length < 2 ^ 64

theorem TimerCoder.encodeInto_ne_nil {coder : TimerCoder} {timer : WireTimer} {bytes : List UInt8}
    (h : coder.encodeInto timer = some bytes) : bytes ≠ [] := by
  obtain ⟨windows, hWindows, hBytes⟩ := Option.bind_eq_some_iff.mp h
  cases hBytes
  simp

/-- A stored timer fires as a wire timer that is read back as the stored entry. -/
theorem TimerEndpoint.Stored.fires {endpoint : TimerEndpoint} {entry : TimerEntry}
    (h : endpoint.Stored entry) : ∃ timer bytes, timerToWire entry = some timer ∧
      endpoint.coder.encodeInto timer = some bytes ∧ bytes ≠ [] ∧
      Delimited endpoint.coder.decode bytes timer ∧ endpoint.output timer = ⟨entry, false⟩ := by
  obtain ⟨timer, window, rfl, hSet, hWindow, hMatches, hKey, hTag⟩ := h
  have hMatching : ∀ other ∈ timer.windows, endpoint.coder.windowCoder.Matches other := by
    rw [hWindow]
    exact List.forall_mem_singleton.mpr hMatches
  have hCount : timer.windows.length < 2 ^ 31 := by
    rw [hWindow, List.length_singleton]
    decide
  obtain ⟨bytes, hBytes, hDecode⟩ := TimerCoder.decode_encodeInto
    (show ({ timer with pane := .noFiring } : WireTimer).clear = false from hSet) hKey hTag
    hMatching hCount
  refine ⟨{ timer with pane := .noFiring }, bytes,
    timerToWire_timerEntry _ _ _ hSet hWindow, hBytes, TimerCoder.encodeInto_ne_nil hBytes,
    hDecode, ?_⟩
  rw [TimerEndpoint.output]
  exact congrArg (TimerOutput.mk _) hSet

theorem TimerEndpoint.firedBytes_read {endpoint : TimerEndpoint} {entries : List TimerEntry}
    (h : ∀ entry ∈ entries, endpoint.Stored entry) :
    ∃ bytes, endpoint.coder.firedBytes entries = some bytes ∧
      endpoint.chunkOutputs bytes = some (entries.map fun entry => ⟨entry, false⟩) := by
  have hAll : ∃ parts,
      (entries.filterMap timerToWire).mapM endpoint.coder.encodeInto = some parts ∧
        List.Forall₂ (fun timer part => part ≠ [] ∧ Delimited endpoint.coder.decode part timer)
          (entries.filterMap timerToWire) parts ∧
        (entries.filterMap timerToWire).map endpoint.output =
          entries.map fun entry => ⟨entry, false⟩ := by
    induction entries with
    | nil => exact ⟨[], rfl, .nil, rfl⟩
    | cons entry entries ih =>
        obtain ⟨timer, bytes, hTimer, hBytes, hSome, hDecode, hOutput⟩ :=
          (h entry List.mem_cons_self).fires
        obtain ⟨parts, hParts, hRead, hOutputs⟩ :=
          ih fun other hOther => h other (List.mem_cons_of_mem _ hOther)
        rw [List.filterMap_cons_some hTimer]
        refine ⟨bytes :: parts, ?_, .cons ⟨hSome, hDecode⟩ hRead, ?_⟩
        · rw [List.mapM_cons, hBytes, hParts]
          rfl
        · rw [List.map_cons, List.map_cons, hOutput, hOutputs]
  obtain ⟨parts, hParts, hRead, hOutputs⟩ := hAll
  refine ⟨parts.flatten, ?_, ?_⟩
  · rw [TimerCoder.firedBytes, hParts]
    rfl
  · rw [TimerEndpoint.chunkOutputs_whole hRead, hOutputs]

/-! What a bundle is sent. -/

/-- The timers of one family among the fired ones. -/
def firedOf (timers : List TimerEntry) (transformId timerFamilyId : String) : List TimerEntry :=
  timers.filter fun entry => entry.family = toLex (transformId, timerFamilyId)

/-- Every family that can be resolved has one message if timers of it have fired, and
the worker reads them there in order; no other family has one. -/
def Carries (task : InputTask) (families : TimerFamilies) (timers : List TimerEntry)
    (messages : List Timers) : Prop :=
  ∀ transformId timerFamilyId,
    match families transformId timerFamilyId with
    | none => ∀ message ∈ messages, message.key ≠ ⟨task.instructionId, transformId, timerFamilyId⟩
    | some (coder, domain) =>
        if firedOf timers transformId timerFamilyId = [] then
          ∀ message ∈ messages, message.key ≠ ⟨task.instructionId, transformId, timerFamilyId⟩
        else ∃ bytes, (messages.filter fun message =>
            message.key = ⟨task.instructionId, transformId, timerFamilyId⟩) =
              [⟨task.instructionId, transformId, timerFamilyId, bytes, false⟩] ∧
          TimerEndpoint.chunkOutputs ⟨transformId, timerFamilyId, coder, domain⟩ bytes =
            some ((firedOf timers transformId timerFamilyId).map fun entry => ⟨entry, false⟩)

namespace InputTask

variable {task : InputTask} {families : TimerFamilies} {timers : List TimerEntry}

theorem key_of_firedMessage {group : (String ×ₗ String) × List TimerEntry} {part : List Timers}
    (h : task.firedMessage families group = some part) : ∀ message ∈ part,
      message.key = ⟨task.instructionId, (ofLex group.1).1, (ofLex group.1).2⟩ := by
  intro message hMessage
  rw [firedMessage] at h
  split at h
  · cases h
    exact absurd hMessage List.not_mem_nil
  · obtain ⟨bytes, -, rfl⟩ := Option.map_eq_some_iff.mp h
    rw [List.mem_singleton.mp hMessage]
    rfl

/-- The messages of one family come from its group. -/
theorem filter_firedMessages {groups : List ((String ×ₗ String) × List TimerEntry)}
    {parts : List (List Timers)}
    (h : List.Forall₂ (fun group part => task.firedMessage families group = some part) groups parts)
    (transformId timerFamilyId : String) :
    ∃ kept, List.Forall₂ (fun group part => task.firedMessage families group = some part)
        (groups.filter fun group => group.1 = toLex (transformId, timerFamilyId)) kept ∧
      (parts.flatten.filter fun message =>
        message.key = ⟨task.instructionId, transformId, timerFamilyId⟩) = kept.flatten := by
  induction h with
  | nil => exact ⟨[], .nil, rfl⟩
  | @cons group part groups parts hHead hTail ih =>
      obtain ⟨kept, hKept, hFilter⟩ := ih
      rw [List.flatten_cons, List.filter_append, hFilter]
      by_cases hSame : group.1 = toLex (transformId, timerFamilyId)
      · refine ⟨part :: kept, ?_, ?_⟩
        · rw [List.filter_cons, if_pos (decide_eq_true hSame)]
          exact .cons hHead hKept
        · have hAll : ∀ message ∈ part,
              message.key = ⟨task.instructionId, transformId, timerFamilyId⟩ := by
            have hKeys := key_of_firedMessage hHead
            rw [hSame] at hKeys
            exact hKeys
          rw [List.filter_eq_self.mpr fun message hMessage => decide_eq_true (hAll message hMessage),
            List.flatten_cons]
      · refine ⟨kept, ?_, ?_⟩
        · rw [List.filter_cons, if_neg (by simpa using hSame)]
          exact hKept
        · have hNone : (part.filter fun message =>
              message.key = ⟨task.instructionId, transformId, timerFamilyId⟩) = [] := by
            refine List.filter_eq_nil_iff.mpr fun message hMessage hKey => hSame ?_
            have hBoth := (key_of_firedMessage hHead message hMessage).symm.trans
              (of_decide_eq_true hKey)
            rw [TimersKey.mk.injEq] at hBoth
            exact congrArg toLex (Prod.ext hBoth.2.1 hBoth.2.2)
          rw [hNone, List.nil_append]

/-- The fired timers were stored by the endpoints of their families. -/
def AllStored (families : TimerFamilies) (timers : List TimerEntry) : Prop :=
  ∀ entry ∈ timers, ∀ coder domain,
    families entry.key.transformId entry.key.timerFamilyId = some (coder, domain) →
      TimerEndpoint.Stored ⟨entry.key.transformId, entry.key.timerFamilyId, coder, domain⟩ entry

theorem AllStored.family (h : AllStored families timers) {transformId timerFamilyId : String}
    {coder : TimerCoder} {domain : TimeDomain}
    (hFamily : families transformId timerFamilyId = some (coder, domain)) :
    ∀ entry ∈ firedOf timers transformId timerFamilyId,
      TimerEndpoint.Stored ⟨transformId, timerFamilyId, coder, domain⟩ entry := by
  intro entry hEntry
  obtain ⟨hMem, hSame⟩ := List.mem_filter.mp hEntry
  have hKey : entry.family = toLex (transformId, timerFamilyId) := of_decide_eq_true hSame
  obtain ⟨rfl, rfl⟩ := Prod.mk.inj (congrArg ofLex hKey)
  exact h entry hMem coder domain hFamily

/-- What a family's group goes out as. -/
theorem AllStored.firedMessage (h : AllStored families timers) (task : InputTask)
    (transformId timerFamilyId : String) :
    ∃ part, task.firedMessage families (toLex (transformId, timerFamilyId),
        firedOf timers transformId timerFamilyId) = some part ∧
      match families transformId timerFamilyId with
      | none => part = []
      | some (coder, domain) => ∃ bytes,
          part = [⟨task.instructionId, transformId, timerFamilyId, bytes, false⟩] ∧
            TimerEndpoint.chunkOutputs ⟨transformId, timerFamilyId, coder, domain⟩ bytes =
              some ((firedOf timers transformId timerFamilyId).map fun entry => ⟨entry, false⟩) := by
  cases hFamily : families transformId timerFamilyId with
  | none =>
      refine ⟨[], ?_, rfl⟩
      rw [InputTask.firedMessage, ofLex_toLex, hFamily]
  | some family =>
      obtain ⟨coder, domain⟩ := family
      obtain ⟨bytes, hBytes, hRead⟩ := TimerEndpoint.firedBytes_read (h.family hFamily)
      refine ⟨_, ?_, bytes, rfl, hRead⟩
      rw [InputTask.firedMessage, ofLex_toLex, hFamily]
      exact Option.map_eq_some_iff.mpr ⟨bytes, hBytes, rfl⟩

theorem AllStored.exists_parts (h : AllStored families timers) (task : InputTask) :
    ∃ parts, (groupBy TimerEntry.family timers).mapM (task.firedMessage families) = some parts := by
  refine ⟨_, Results.mapM_eq_some_map (g := fun group =>
    (task.firedMessage families group).getD []) fun group hGroup => ?_⟩
  obtain ⟨part, hPart, -⟩ := h.firedMessage task (ofLex group.1).1 (ofLex group.1).2
  have hGroupOf : group = (toLex ((ofLex group.1).1, (ofLex group.1).2),
      firedOf timers (ofLex group.1).1 (ofLex group.1).2) := Prod.ext rfl (mem_groupBy hGroup)
  rw [← hGroupOf] at hPart
  rw [hPart]
  rfl

theorem AllStored.carries (h : AllStored families timers) (task : InputTask) :
    ∃ messages, task.firedMessages families timers = some messages ∧
      Carries task families timers messages := by
  obtain ⟨parts, hParts⟩ := h.exists_parts task
  refine ⟨parts.flatten, ?_, fun transformId timerFamilyId => ?_⟩
  · rw [firedMessages, hParts]
    rfl
  obtain ⟨kept, hKept, hFilter⟩ := filter_firedMessages (Results.forall₂_of_mapM_eq_some hParts)
    transformId timerFamilyId
  obtain ⟨part, hPart, hSpec⟩ := h.firedMessage task transformId timerFamilyId
  have hGroups := filter_groupBy TimerEntry.family timers (toLex (transformId, timerFamilyId))
  rw [show (timers.filter fun entry => entry.family = toLex (transformId, timerFamilyId)) =
    firedOf timers transformId timerFamilyId from rfl] at hGroups
  rw [hGroups] at hKept
  have hNone : kept.flatten = [] → ∀ message ∈ parts.flatten,
      message.key ≠ ⟨task.instructionId, transformId, timerFamilyId⟩ := by
    intro hEmpty message hMessage hKey
    rw [hEmpty] at hFilter
    exact List.filter_eq_nil_iff.mp hFilter message hMessage (decide_eq_true hKey)
  by_cases hFired : firedOf timers transformId timerFamilyId = []
  · rw [if_pos hFired] at hKept
    cases hKept
    have hMissing := hNone rfl
    cases hFamily : families transformId timerFamilyId with
    | none => exact hMissing
    | some family => 
        dsimp only
        rw [if_pos hFired]
        exact hMissing
  · rw [if_neg hFired] at hKept
    obtain ⟨same, rest, hSame, hRest, rfl⟩ := List.forall₂_cons_left_iff.mp hKept
    cases hRest
    cases hPart.symm.trans hSame
    cases hFamily : families transformId timerFamilyId with
    | none =>
        rw [hFamily] at hSpec
        exact hNone (by rw [hSpec]; rfl)
    | some family =>
        rw [hFamily] at hSpec
        obtain ⟨bytes, hMessage, hRead⟩ := hSpec
        dsimp only
        rw [if_neg hFired]
        refine ⟨bytes, ?_, hRead⟩
        rw [hFilter, hMessage]
        rfl

theorem sendElements_eq_ok {conditions : InputConditions} {pump next : InputPump}
    {elements : Elements} (h : sendElements conditions pump elements = .ok next) :
    next = { pump with sent := pump.sent ++ [elements] } := by
  rw [sendElements] at h
  split at h
  · cases h
  · exact (Except.ok.inj h).symm

theorem sendElements_eq_error {conditions : InputConditions} {pump next : InputPump}
    {elements : Elements} {reason : InputError}
    (h : sendElements conditions pump elements = .error (reason, next)) : next = pump := by
  rw [sendElements] at h
  split at h
  · exact (Prod.mk.inj (Except.error.inj h)).2.symm
  · cases h

/-- Each family's timers reach the worker ahead of the end of its streams. A bundle
that is handed timers sends each family's in one message, in the order they fired,
and then closes its streams without input; where a message cannot be sent no stream
is closed. -/
theorem fired_timers_arrive (task : InputTask) (conditions : InputConditions)
    (store : TimerStore) (requiresTimeSortedInput : Bool) (batches : List (List WindowedValue))
    (hSome : timers ≠ []) (hStored : AllStored families timers) :
    ∃ messages, Carries task families timers messages ∧
      (∀ pump, task.feedBundle conditions families store timers requiresTimeSortedInput batches =
          .ok pump →
        pump.timers = store ∧ pump.totalSent = 0 ∧
          pump.sent = (if messages = [] then [] else [⟨[], messages⟩]) ++ [task.terminators]) ∧
      (∀ reason pump, task.feedBundle conditions families store timers requiresTimeSortedInput
          batches = .error (reason, pump) →
        pump.timers = store ∧ pump.sent <+: if messages = [] then [] else [⟨[], messages⟩]) ∧
      ((∀ message, conditions.sendFails message = false) →
        ∃ pump, task.feedBundle conditions families store timers requiresTimeSortedInput batches =
          .ok pump) := by
  obtain ⟨messages, hMessages, hCarries⟩ := hStored.carries task
  have hEmpty : timers.isEmpty = false := List.isEmpty_eq_false_iff.mpr hSome
  have hFeed : task.feedBundle conditions families store timers requiresTimeSortedInput batches =
      (if messages = [] then .ok (start store)
        else sendElements conditions (start store) ⟨[], messages⟩) >>= fun pump =>
          sendElements conditions pump task.terminators := by
    rw [feedBundle, sendFiredTimers, hEmpty, hMessages]
    simp only [Bool.false_eq_true, if_false, List.isEmpty_iff]
    rfl
  refine ⟨messages, hCarries, ?_⟩
  rw [hFeed]
  by_cases hNone : messages = []
  · rw [if_pos hNone, if_pos hNone]
    refine ⟨fun pump hPump => ?_, fun reason pump hPump => ?_, fun hSend => ?_⟩
    · rw [sendElements_eq_ok hPump]
      exact ⟨rfl, rfl, rfl⟩
    · rw [sendElements_eq_error hPump]
      exact ⟨rfl, List.prefix_refl _⟩
    · exact sendElements_succeeds hSend _ _
  · rw [if_neg hNone, if_neg hNone]
    refine ⟨fun pump hPump => ?_, fun reason pump hPump => ?_, fun hSend => ?_⟩
    · obtain ⟨fired, hFired, hClosed⟩ := Results.bind_eq_ok hPump
      rw [sendElements_eq_ok hClosed, sendElements_eq_ok hFired]
      exact ⟨rfl, rfl, rfl⟩
    · cases hFired : sendElements conditions (start store) ⟨[], messages⟩ with
      | ok fired =>
          rw [hFired] at hPump
          rw [sendElements_eq_error hPump, sendElements_eq_ok hFired]
          exact ⟨rfl, List.prefix_refl _⟩
      | error failure =>
          rw [hFired] at hPump
          cases hPump
          rw [sendElements_eq_error hFired]
          exact ⟨rfl, List.nil_prefix⟩
    · obtain ⟨fired, hFired⟩ := sendElements_succeeds hSend (start store) ⟨[], messages⟩
      rw [hFired]
      exact sendElements_succeeds hSend fired task.terminators

/-- A timer of a family with a coder, and one of a family without. -/
def firedAlarms : List TimerEntry :=
  [timerEntry "pardo" "close" { lateTimer with tag := "b" } .eventTime,
    timerEntry "other" "close" lateTimer .eventTime,
    timerEntry "pardo" "close" lateTimer .eventTime]

def alarmFamilies : TimerFamilies := fun transformId _ =>
  if transformId = "pardo" then some (⟨.bytes, .interval⟩, .eventTime) else none

theorem fired_timers_arrive_alarms :
    ∃ pump, keyedTask.feedBundle ⟨fun _ => 2, fun _ => false, fun _ => false, false⟩ alarmFamilies ∅
      firedAlarms true keyedRows = .ok pump := by
  have hStored : AllStored alarmFamilies firedAlarms := by
    intro entry hEntry coder domain hFamily
    have hKeyed : (⟨.bytes, .interval⟩ : TimerCoder).Keyed [1, 7] :=
      ⟨.primitive (.bytes [7]), (StandardBeamCoders.frames_scalar rfl
        (by simp [StandardBeamCoders.WellTypedPrimitive])).selfDelimiting, rfl⟩
    have hFound : alarmFamilies "pardo" "close" = some (⟨.bytes, .interval⟩, .eventTime) := rfl
    have hMissing : alarmFamilies "other" "close" = none := rfl
    rcases List.mem_cons.mp hEntry with rfl | hLater
    · cases hFound.symm.trans hFamily
      exact ⟨{ lateTimer with tag := "b" }, .interval (-10) 10, rfl, rfl, rfl,
        by simp [WindowCoder.Matches], hKeyed, by decide⟩
    rcases List.mem_pair.mp hLater with rfl | rfl
    · cases hMissing.symm.trans hFamily
    · cases hFound.symm.trans hFamily
      exact ⟨lateTimer, .interval (-10) 10, rfl, rfl, rfl, by simp [WindowCoder.Matches], hKeyed,
        by decide⟩
  obtain ⟨messages, -, -, -, hSent⟩ := fired_timers_arrive keyedTask
    ⟨fun _ => 2, fun _ => false, fun _ => false, false⟩ ∅ true keyedRows
    (show firedAlarms ≠ [] from List.cons_ne_nil _ _) hStored
  exact hSent fun _ => rfl

end InputTask

end FlareDB
