import FlareDB.Harness.Status
import FlareDB.Lib.PendingReplies

/-! The control channel to the worker. Callers send instructions and wait for
the responses to them, a task reads the responses off the worker's stream, and
workers connect, leave and are replaced in between. -/
namespace FlareDB

open KeyedStore PendingReplies

structure ProcessBundleDescriptor where
  id : String
  body : List UInt8
deriving DecidableEq

inductive ControlRequest where
  | register (descriptor : ProcessBundleDescriptor)
  | processBundle (descriptorId : String)
  | processBundleProgress (instructionId : String)
  | processBundleSplit (instructionId : String) (desiredSplits : List (String × List UInt8))
deriving DecidableEq

inductive ControlPayload where
  | register
  | processBundle (body : List UInt8)
  | processBundleProgress (body : List UInt8)
  | processBundleSplit (body : List UInt8)
  | other (body : List UInt8)
deriving DecidableEq

structure InstructionResponse where
  instructionId : String
  error : String
  response : Option ControlPayload
deriving DecidableEq

inductive ControlAnswer where
  | bundleRegistered
  | processBundleSuccess (body : List UInt8)
  | progress (body : List UInt8)
  | split (body : List UInt8)
deriving DecidableEq

inductive ControlError where
  | notInitialized
  | sendFailed
  | disconnected (id : String)
  | idMismatch (expected got : String)
  | failedAtWorker (error : String)
  | unexpected (response : Option ControlPayload)
deriving DecidableEq

/-- What a call makes of the response it was handed. Registration and bundles
check the id and look at the error last, the other two trust the id and look at
the error first. -/
def ControlRequest.conclude (request : ControlRequest) (id : String)
    (response : InstructionResponse) : Except ControlError ControlAnswer :=
  match request with
  | .register _ =>
      if response.instructionId ≠ id then .error (.idMismatch id response.instructionId)
      else
        match response.response with
        | some .register => .ok .bundleRegistered
        | other =>
            if response.error ≠ "" then .error (.failedAtWorker response.error)
            else .error (.unexpected other)
  | .processBundle _ =>
      if response.instructionId ≠ id then .error (.idMismatch id response.instructionId)
      else
        match response.response with
        | some (.processBundle body) => .ok (.processBundleSuccess body)
        | other =>
            if response.error ≠ "" then .error (.failedAtWorker response.error)
            else .error (.unexpected other)
  | .processBundleProgress _ =>
      if response.error ≠ "" then .error (.failedAtWorker response.error)
      else
        match response.response with
        | some (.processBundleProgress body) => .ok (.progress body)
        | other => .error (.unexpected other)
  | .processBundleSplit _ _ =>
      if response.error ≠ "" then .error (.failedAtWorker response.error)
      else
        match response.response with
        | some (.processBundleSplit body) => .ok (.split body)
        | other => .error (.unexpected other)

/-- Where a call stands. -/
inductive ControlCall where
  | idle
  /-- The sending end for the response is in `pending`. -/
  | inserted (id : String) (request : ControlRequest)
  /-- A registration has stored its descriptor too. -/
  | described (id : String) (request : ControlRequest)
  /-- The outgoing sender has been cloned. -/
  | sending (id : String) (request : ControlRequest) (channel : Nat)
  | awaiting (id : String) (request : ControlRequest)
  | finished (id : String) (request : ControlRequest) (result : Except ControlError ControlAnswer)
  /-- The caller went away. -/
  | dropped (id : String) (request : ControlRequest)
deriving DecidableEq

def ControlCall.id? : ControlCall → Option String
  | .idle => none
  | .inserted id _ => some id
  | .described id _ => some id
  | .sending id _ _ => some id
  | .awaiting id _ => some id
  | .finished id _ _ => some id
  | .dropped id _ => some id

/-- Where a connection of a worker stands. -/
inductive ControlLink where
  | absent
  | attached
  | reading (channel : Nat)
  | gone

/-- How far a reset of the channels has come. -/
inductive ResetStep where
  | off
  | flagCleared
  | failureCleared
  | aborted
  | senderReplaced (channel : Nat)
  | receiverReplaced
  | disconnected
  | descriptorsCleared
deriving DecidableEq

structure ControlRun where
  status : HarnessStatus
  incoming : Bool
  outgoingTx : Option Nat
  outgoingRx : Option Nat
  channels : Nat
  hungUp : Nat → Bool
  sent : Nat → List (String × ControlRequest)
  descriptors : Store String ProcessBundleDescriptor
  replies : Table String InstructionResponse
  calls : Nat → ControlCall
  links : Nat → ControlLink
  tasks : List Nat
  responseTask : Option Nat
  started : Nat
  resetting : ResetStep

inductive ControlAction where
  | call (call : Nat) (id : String) (request : ControlRequest)
  | describe (call : Nat)
  | cloneSender (call : Nat)
  | send (call : Nat)
  | finish (call : Nat)
  | drop (call : Nat)
  | streamResponses
  | respond (task : Nat) (response : InstructionResponse)
  | streamEnds (task : Nat) (error : String)
  | attach (link : Nat)
  | takeRequests (link : Nat)
  | hangUp (link : Nat)
  | shutdown
  | reset

namespace ControlRun

def start : ControlRun where
  status := .new
  incoming := false
  outgoingTx := some 0
  outgoingRx := some 0
  channels := 1
  hungUp _ := false
  sent _ := []
  descriptors := ∅
  replies := .empty
  calls _ := .idle
  links _ := .absent
  tasks := []
  responseTask := none
  started := 0
  resetting := .off

def move (run : ControlRun) (call : Nat) (phase : ControlCall) : ControlRun :=
  { run with calls := Function.update run.calls call phase }

/-- `insert_pending_response`. -/
def insertPendingResponse (run : ControlRun) (call : Nat) (id : String) (request : ControlRequest) :
    ControlRun :=
  { run.move call (.inserted id request) with replies := run.replies.register call id }

/-- The outgoing sender, cloned or missing. A registration is left in `pending`
when it is missing. -/
def cloneSender (run : ControlRun) (call : Nat) (id : String) (request : ControlRequest) :
    ControlRun :=
  match run.outgoingTx with
  | none => run.move call (.finished id request (.error .notInitialized))
  | some channel => run.move call (.sending id request channel)

def send (run : ControlRun) (call : Nat) (id : String) (request : ControlRequest) (channel : Nat) :
    ControlRun :=
  if run.hungUp channel then
    { run.move call (.finished id request (.error .sendFailed)) with
      replies := run.replies.revoke id }
  else
    { run.move call (.awaiting id request) with
      sent := Function.update run.sent channel (run.sent channel ++ [(id, request)]) }

def listens (run : ControlRun) (call : Nat) : Bool :=
  match run.calls call with
  | .dropped _ _ => false
  | _ => true

/-- Replace a receiver that nobody has taken: it is dropped. -/
def replaceReceiver (run : ControlRun) (channel : Nat) : ControlRun :=
  { run with
    outgoingRx := some channel
    hungUp := match run.outgoingRx with
      | none => run.hungUp
      | some old => Function.update run.hungUp old true }

/-- The receiver for a new worker: the one that waits, or that of a fresh
channel when an earlier worker has taken it. -/
def takeRequests (run : ControlRun) (link : Nat) : ControlRun :=
  match run.outgoingRx with
  | some channel =>
      { run with outgoingRx := none, links := Function.update run.links link (.reading channel) }
  | none =>
      { run with
        outgoingTx := some run.channels
        channels := run.channels + 1
        links := Function.update run.links link (.reading run.channels) }

/-- One step of `Channels::reset`. -/
def reset (run : ControlRun) : ControlRun :=
  match run.resetting with
  | .off =>
      { run with
        status := { run.status with intentionalShutdown := false }
        resetting := .flagCleared }
  | .flagCleared =>
      { run with status := { run.status with failure := none }, resetting := .failureCleared }
  | .failureCleared =>
      { run with
        tasks := match run.responseTask with
          | none => run.tasks
          | some task => run.tasks.filter (· ≠ task)
        responseTask := none
        resetting := .aborted }
  | .aborted =>
      { run with
        outgoingTx := some run.channels
        channels := run.channels + 1
        resetting := .senderReplaced run.channels }
  | .senderReplaced channel =>
      { run.replaceReceiver channel with resetting := .receiverReplaced }
  | .receiverReplaced => { run with incoming := false, resetting := .disconnected }
  | .disconnected => { run with descriptors := ∅, resetting := .descriptorsCleared }
  | .descriptorsCleared => { run with replies := run.replies.clear, resetting := .off }

def step (run : ControlRun) : ControlAction → Option ControlRun
  | .call call id request =>
      match run.calls call with
      | .idle => some (run.insertPendingResponse call id request)
      | _ => none
  | .describe call =>
      match run.calls call with
      | .inserted id (.register descriptor) =>
          some { run.move call (.described id (.register descriptor)) with
            descriptors := run.descriptors.insert descriptor.id descriptor }
      | _ => none
  | .cloneSender call =>
      match run.calls call with
      | .inserted _ (.register _) => none
      | .inserted id request => some (run.cloneSender call id request)
      | .described id request => some (run.cloneSender call id request)
      | _ => none
  | .send call =>
      match run.calls call with
      | .sending id request channel => some (run.send call id request channel)
      | _ => none
  | .finish call =>
      match run.calls call with
      | .awaiting id request =>
          match run.replies.slots call with
          | .answered place =>
              (run.replies.replies[place]?).map fun response =>
                run.move call (.finished id request (request.conclude id response))
          | .closed => some (run.move call (.finished id request (.error (.disconnected id))))
          | _ => none
      | _ => none
  | .drop call =>
      match run.calls call with
      | .inserted id request => some (run.move call (.dropped id request))
      | .described id request => some (run.move call (.dropped id request))
      | .sending id request _ => some (run.move call (.dropped id request))
      | .awaiting id request => some (run.move call (.dropped id request))
      | _ => none
  | .streamResponses =>
      some { run with
        tasks := run.started :: run.tasks
        responseTask := some run.started
        started := run.started + 1 }
  | .respond task response =>
      if run.tasks.contains task && run.incoming then
        some { run with
          replies := run.replies.deliver InstructionResponse.instructionId run.listens response }
      else none
  | .streamEnds task error =>
      if run.tasks.contains task && run.incoming then
        some { run with
          status := (run.status.reportFailure "BeamFnControl" error).1
          tasks := run.tasks.filter (· ≠ task) }
      else none
  | .attach link =>
      match run.links link with
      | .absent =>
          some { run with incoming := true, links := Function.update run.links link .attached }
      | _ => none
  | .takeRequests link =>
      match run.links link with
      | .attached => some (run.takeRequests link)
      | _ => none
  | .hangUp link =>
      match run.links link with
      | .reading channel =>
          some { run with
            hungUp := Function.update run.hungUp channel true
            links := Function.update run.links link .gone }
      | _ => none
  | .shutdown => some { run with status := run.status.beginIntentionalShutdown }
  | .reset => some run.reset

/-- A task that reads responses has been started and not been aborted, and if it
has ended then the job has been told or is being shut down. -/
def Watched (run : ControlRun) : Prop :=
  ∀ task, run.responseTask = some task →
    task ∈ run.tasks ∨ run.status.failure.isSome ∨ run.status.intentionalShutdown = true

/-- What a finished call has told its caller. -/
def Told (run : ControlRun) (call : Nat) : ControlCall → Prop
  | .finished id request result =>
      result = .error .sendFailed ∨ result = .error (.disconnected id) ∨
        ∃ place response, run.replies.slots call = .answered place ∧
          run.replies.replies[place]? = some response ∧ result = request.conclude id response
  | _ => True

structure Coherent (run : ControlRun) : Prop where
  routed : run.replies.Routed InstructionResponse.instructionId
  ids : ∀ call, (run.replies.tickets call).map Ticket.key = (run.calls call).id?
  told : ∀ call, run.Told call (run.calls call)
  connected : run.outgoingTx.isSome
  watched : run.resetting ≠ .flagCleared → run.resetting ≠ .failureCleared → run.Watched

theorem Coherent.start : start.Coherent where
  routed := Table.Routed.empty
  ids _ := rfl
  told _ := trivial
  connected := rfl
  watched _ _ _ hTask := by simp [ControlRun.start] at hTask

/-- What a call was told stays true as replies go on. -/
theorem Told.keeps {run after : ControlRun} {call : Nat} {phase : ControlCall}
    (h : run.Told call phase) (hKeeps : run.replies.Keeps after.replies) : after.Told call phase := by
  cases phase with
  | finished id request result =>
      rcases h with h | h | ⟨place, response, hSlot, hResponse, hResult⟩
      · exact Or.inl h
      · exact Or.inr (Or.inl h)
      · obtain ⟨hAfter, hStill⟩ := hKeeps call place response hSlot hResponse
        exact Or.inr (Or.inr ⟨place, response, hAfter, hStill, hResult⟩)
  | idle => trivial
  | inserted id request => trivial
  | described id request => trivial
  | sending id request channel => trivial
  | awaiting id request => trivial
  | dropped id request => trivial

/-- A call moves on without changing its id. -/
theorem Coherent.move {run : ControlRun} (h : run.Coherent) {call : Nat} {phase : ControlCall}
    (hId : (run.calls call).id? = phase.id?) (hTold : run.Told call phase) :
    (run.move call phase).Coherent where
  routed := h.routed
  ids other := by
    by_cases hOther : other = call
    · subst hOther
      simp only [ControlRun.move, Function.update_self]
      exact (h.ids other).trans hId
    · simp only [ControlRun.move, Function.update_of_ne hOther]
      exact h.ids other
  told other := by
    by_cases hOther : other = call
    · subst hOther
      simp only [ControlRun.move, Function.update_self]
      exact hTold.keeps fun _ _ _ hSlot hReply => ⟨hSlot, hReply⟩
    · simp only [ControlRun.move, Function.update_of_ne hOther]
      exact (h.told other).keeps fun _ _ _ hSlot hReply => ⟨hSlot, hReply⟩
  connected := h.connected
  watched := h.watched

/-- The table of pending responses changes, and nobody registers. -/
theorem Coherent.routes {run : ControlRun} (h : run.Coherent)
    {table : Table String InstructionResponse}
    (hRouted : table.Routed InstructionResponse.instructionId)
    (hTickets : table.tickets = run.replies.tickets) (hKeeps : run.replies.Keeps table) :
    ({ run with replies := table } : ControlRun).Coherent where
  routed := hRouted
  ids call := by
    simp only [hTickets]
    exact h.ids call
  told call := (h.told call).keeps hKeeps
  connected := h.connected
  watched := h.watched

/-- A call registers, and a call that waited under the same id is cut off. -/
theorem Coherent.insertPendingResponse {run : ControlRun} (h : run.Coherent) {call : Nat}
    (id : String) (request : ControlRequest) (hIdle : run.calls call = .idle) :
    (run.insertPendingResponse call id request).Coherent := by
  have hFresh : run.replies.tickets call = none := by
    have hId := h.ids call
    rw [hIdle] at hId
    exact Option.map_eq_none_iff.mp hId
  have hKeeps := h.routed.keeps_register id hFresh
  constructor
  · exact h.routed.register id hFresh
  · intro other
    simp only [ControlRun.insertPendingResponse, ControlRun.move, Table.register_tickets]
    by_cases hOther : other = call
    · subst hOther
      simp [ControlCall.id?]
    · simp only [Function.update_of_ne hOther]
      exact h.ids other
  · intro other
    by_cases hOther : other = call
    · subst hOther
      simp [ControlRun.insertPendingResponse, ControlRun.move, Told]
    · simp only [ControlRun.insertPendingResponse, ControlRun.move, Function.update_of_ne hOther]
      exact (h.told other).keeps hKeeps
  · exact h.connected
  · exact h.watched

/-- A call takes the sender of the worker that is connected. -/
theorem Coherent.cloneSender {run : ControlRun} (h : run.Coherent) {call : Nat} {id : String}
    {request : ControlRequest} (hId : (run.calls call).id? = some id) :
    (run.cloneSender call id request).Coherent := by
  unfold ControlRun.cloneSender
  split
  next hNone =>
    have hConnected := h.connected
    rw [hNone] at hConnected
    cases hConnected
  · exact h.move hId trivial

/-- A call sends its request, or fails where the worker has gone. -/
theorem Coherent.send {run : ControlRun} (h : run.Coherent) {call : Nat} {id : String}
    {request : ControlRequest} (channel : Nat) (hId : (run.calls call).id? = some id) :
    (run.send call id request channel).Coherent := by
  unfold ControlRun.send
  split
  · have hMoved : (run.move call (.finished id request (.error .sendFailed))).Coherent :=
      h.move hId (Or.inl rfl)
    exact hMoved.routes (h.routed.revoke id) (Table.revoke_tickets _ _) (h.routed.keeps_revoke id)
  · have hMoved : (run.move call (.awaiting id request)).Coherent := h.move hId trivial
    exact ⟨hMoved.routed, hMoved.ids, hMoved.told, hMoved.connected, hMoved.watched⟩

/-- A reset cuts off everyone who waits. -/
theorem Coherent.reset {run : ControlRun} (h : run.Coherent) : run.reset.Coherent := by
  unfold ControlRun.reset
  cases hStep : run.resetting with
  | off => exact ⟨h.routed, h.ids, h.told, h.connected, fun hNot => absurd rfl hNot⟩
  | flagCleared => exact ⟨h.routed, h.ids, h.told, h.connected, fun _ hNot => absurd rfl hNot⟩
  | failureCleared =>
      refine ⟨h.routed, h.ids, h.told, h.connected, fun _ _ task hTask => ?_⟩
      simp at hTask
  | aborted =>
      exact ⟨h.routed, h.ids, h.told, rfl, fun _ _ => h.watched (by simp [hStep]) (by simp [hStep])⟩
  | senderReplaced channel =>
      exact ⟨h.routed, h.ids, h.told, h.connected,
        fun _ _ => h.watched (by simp [hStep]) (by simp [hStep])⟩
  | receiverReplaced =>
      exact ⟨h.routed, h.ids, h.told, h.connected,
        fun _ _ => h.watched (by simp [hStep]) (by simp [hStep])⟩
  | disconnected =>
      exact ⟨h.routed, h.ids, h.told, h.connected,
        fun _ _ => h.watched (by simp [hStep]) (by simp [hStep])⟩
  | descriptorsCleared =>
      have hCleared := h.routes h.routed.clear rfl (Table.keeps_clear _)
      exact ⟨hCleared.routed, hCleared.ids, hCleared.told, hCleared.connected,
        fun _ _ => h.watched (by simp [hStep]) (by simp [hStep])⟩

/-- A task that ends tells the job, unless the shutdown is intended. -/
theorem reportFailure_watched (status : HarnessStatus) (stream error : String) :
    (status.reportFailure stream error).1.failure.isSome ∨
      (status.reportFailure stream error).1.intentionalShutdown = true := by
  unfold HarnessStatus.reportFailure
  split
  next hFlag => exact Or.inr hFlag
  · split
    next hFailure => exact Or.inl hFailure
    · exact Or.inl rfl

/-- Every step keeps callers, replies and tasks coherent. -/
theorem Coherent.step {run after : ControlRun} {action : ControlAction} (h : run.Coherent)
    (hStep : run.step action = some after) : after.Coherent := by
  cases action with
  | call call id request =>
      simp only [ControlRun.step] at hStep
      split at hStep
      next hIdle =>
        cases hStep
        exact h.insertPendingResponse id request hIdle
      · cases hStep
  | describe call =>
      simp only [ControlRun.step] at hStep
      split at hStep
      next id descriptor hInserted =>
        cases hStep
        have hMoved : (run.move call (.described id (.register descriptor))).Coherent :=
          h.move (by rw [hInserted]; rfl) trivial
        exact ⟨hMoved.routed, hMoved.ids, hMoved.told, hMoved.connected, hMoved.watched⟩
      · cases hStep
  | cloneSender call =>
      simp only [ControlRun.step] at hStep
      split at hStep
      · cases hStep
      next id request hInserted =>
        cases hStep
        exact h.cloneSender (by rw [hInserted]; rfl)
      next id request hDescribed =>
        cases hStep
        exact h.cloneSender (by rw [hDescribed]; rfl)
      · cases hStep
  | send call =>
      simp only [ControlRun.step] at hStep
      split at hStep
      next id request channel hSending =>
        cases hStep
        exact h.send channel (by rw [hSending]; rfl)
      · cases hStep
  | finish call =>
      simp only [ControlRun.step] at hStep
      split at hStep
      next id request hAwaiting =>
        split at hStep
        next place hSlot =>
          obtain ⟨response, hResponse, rfl⟩ := Option.map_eq_some_iff.mp hStep
          exact h.move (by rw [hAwaiting]; rfl)
            (Or.inr (Or.inr ⟨place, response, hSlot, hResponse, rfl⟩))
        · cases hStep
          exact h.move (by rw [hAwaiting]; rfl) (Or.inr (Or.inl rfl))
        · cases hStep
      · cases hStep
  | drop call =>
      simp only [ControlRun.step] at hStep
      split at hStep
      next hBefore =>
        cases hStep
        exact h.move (by rw [hBefore]; rfl) trivial
      next hBefore =>
        cases hStep
        exact h.move (by rw [hBefore]; rfl) trivial
      next hBefore =>
        cases hStep
        exact h.move (by rw [hBefore]; rfl) trivial
      next hBefore =>
        cases hStep
        exact h.move (by rw [hBefore]; rfl) trivial
      · cases hStep
  | streamResponses =>
      cases hStep
      refine ⟨h.routed, h.ids, h.told, h.connected, fun _ _ task hTask => Or.inl ?_⟩
      rw [← Option.some.inj hTask]
      exact List.mem_cons_self ..
  | respond task response =>
      simp only [ControlRun.step] at hStep
      split at hStep
      · cases hStep
        exact h.routes (h.routed.deliver run.listens response) (Table.deliver_tickets _ _ _)
          (h.routed.keeps_deliver run.listens response)
      · cases hStep
  | streamEnds task error =>
      simp only [ControlRun.step] at hStep
      split at hStep
      · cases hStep
        refine ⟨h.routed, h.ids, h.told, h.connected, fun _ _ _ _ => Or.inr ?_⟩
        exact reportFailure_watched run.status "BeamFnControl" error
      · cases hStep
  | attach link =>
      simp only [ControlRun.step] at hStep
      split at hStep <;> cases hStep
      exact ⟨h.routed, h.ids, h.told, h.connected, h.watched⟩
  | takeRequests link =>
      simp only [ControlRun.step] at hStep
      split at hStep <;> cases hStep
      unfold ControlRun.takeRequests
      split
      · exact ⟨h.routed, h.ids, h.told, h.connected, h.watched⟩
      · exact ⟨h.routed, h.ids, h.told, rfl, h.watched⟩
  | hangUp link =>
      simp only [ControlRun.step] at hStep
      split at hStep <;> cases hStep
      exact ⟨h.routed, h.ids, h.told, h.connected, h.watched⟩
  | shutdown =>
      cases hStep
      refine ⟨h.routed, h.ids, h.told, h.connected, fun hFirst hSecond task hTask => ?_⟩
      exact Or.inr (Or.inr rfl)
  | reset =>
      cases hStep
      exact h.reset

/-- The response at `place` is the first to the call's id since it registered. -/
def Answers (run : ControlRun) (call : Nat) (id : String) (place : Nat)
    (response : InstructionResponse) : Prop :=
  ∃ since, run.replies.tickets call = some ⟨id, since⟩ ∧ since ≤ place ∧
    run.replies.replies[place]? = some response ∧ response.instructionId = id ∧
    ∀ earlier other, since ≤ earlier → earlier < place →
      run.replies.replies[earlier]? = some other → other.instructionId ≠ id

/-- No response to the call's id has been read since it registered. -/
def Unanswered (run : ControlRun) (call : Nat) (id : String) : Prop :=
  ∃ since, run.replies.tickets call = some ⟨id, since⟩ ∧
    ∀ place response, since ≤ place → run.replies.replies[place]? = some response →
      response.instructionId ≠ id

/-- Somebody reads responses, or nobody reads them yet (no response task has been
started), a reset is under way, or the job knows that nobody does: a failure or an
intentional shutdown is recorded. -/
def Attended (run : ControlRun) : Prop :=
  run.resetting = .flagCleared ∨ run.resetting = .failureCleared ∨ run.responseTask = none ∨
    run.tasks ≠ [] ∨ run.status.failure.isSome ∨ run.status.intentionalShutdown = true

/-- A caller that waits is attended to. -/
theorem Coherent.attended {run : ControlRun} (h : run.Coherent) : run.Attended := by
  by_cases hFirst : run.resetting = .flagCleared
  · exact Or.inl hFirst
  by_cases hSecond : run.resetting = .failureCleared
  · exact Or.inr (Or.inl hSecond)
  cases hTask : run.responseTask with
  | none => exact Or.inr (Or.inr (Or.inl hTask))
  | some task =>
      rcases h.watched hFirst hSecond task hTask with hRuns | hTold
      · exact Or.inr (Or.inr (Or.inr (Or.inl (List.ne_nil_of_mem hRuns))))
      · exact Or.inr (Or.inr (Or.inr (Or.inr hTold)))

/-- A call with an id holds a ticket for it. -/
theorem Coherent.ticket {run : ControlRun} (h : run.Coherent) {call : Nat} {id : String}
    (hId : (run.calls call).id? = some id) :
    ∃ since, run.replies.tickets call = some ⟨id, since⟩ := by
  have hTicket := h.ids call
  rw [hId] at hTicket
  obtain ⟨⟨key, since⟩, hIssued, rfl⟩ := Option.map_eq_some_iff.mp hTicket
  exact ⟨since, hIssued⟩

/-- A call that was answered got the first response to its id since it registered. -/
theorem Coherent.answers {run : ControlRun} (h : run.Coherent) {call : Nat} {id : String}
    (hId : (run.calls call).id? = some id) {place : Nat}
    (hSlot : run.replies.slots call = .answered place) {response : InstructionResponse}
    (hResponse : run.replies.replies[place]? = some response) :
    run.Answers call id place response := by
  obtain ⟨since, hTicket⟩ := h.ticket hId
  obtain ⟨ticket, reply, hIssued, hReply, hKey, hSince, hSkipped⟩ := h.routed.read call place hSlot
  rw [hTicket] at hIssued
  rw [hResponse] at hReply
  cases hIssued
  cases hReply
  exact ⟨since, hTicket, hSince, hResponse, hKey, fun earlier other => hSkipped earlier other⟩

/-- A response under the id that was asked for is no mismatch. -/
theorem conclude_ne_mismatch {request : ControlRequest} {id : String}
    {response : InstructionResponse} (h : response.instructionId = id) (expected got : String) :
    request.conclude id response ≠ .error (.idMismatch expected got) := by
  cases request <;> simp only [ControlRequest.conclude] <;> grind

/-- In every interleaving of callers, response tasks, workers and resets, with
any ids and any responses: a call ends with the first response to its own id
since it registered or with an error of the channel, no response ends two calls,
and a call that cannot end yet has missed no response and is attended to. -/
theorem responses_reach_their_callers {run : ControlRun}
    (hRun : Runs.Reaches step (fun _ _ => True) start run) :
    (∀ call id request result, run.calls call = .finished id request result →
      result = .error .sendFailed ∨ result = .error (.disconnected id) ∨
        ∃ place response, run.replies.slots call = .answered place ∧
          run.Answers call id place response ∧ result = request.conclude id response ∧
          ∀ expected got, result ≠ .error (.idMismatch expected got)) ∧
      (∀ call other place, run.replies.slots call = .answered place →
        run.replies.slots other = .answered place → call = other) ∧
      ∀ call id request, run.calls call = .awaiting id request →
        (run.step (.finish call)).isSome ∨
          (run.replies.pending.lookup id = some call ∧ run.Unanswered call id ∧ run.Attended) := by
  have h : run.Coherent :=
    hRun.invariant (fun _ _ _ _ hStep hBefore => hBefore.step hStep) Coherent.start
  refine ⟨?_, h.routed.unique, ?_⟩
  · intro call id request result hFinished
    have hTold := h.told call
    rw [hFinished] at hTold
    rcases hTold with hError | hError | ⟨place, response, hSlot, hResponse, hResult⟩
    · exact Or.inl hError
    · exact Or.inr (Or.inl hError)
    · have hAnswers := h.answers (by rw [hFinished]; rfl) hSlot hResponse
      have hId : response.instructionId = id := by
        obtain ⟨_, _, _, _, hId, _⟩ := hAnswers
        exact hId
      refine Or.inr (Or.inr ⟨place, response, hSlot, hAnswers, hResult, fun expected got => ?_⟩)
      rw [hResult]
      exact conclude_ne_mismatch hId expected got
  · intro call id request hAwaiting
    have hId : (run.calls call).id? = some id := by
      rw [hAwaiting]
      rfl
    obtain ⟨since, hTicket⟩ := h.ticket hId
    cases hSlot : run.replies.slots call with
    | unused =>
        have hNone := (h.routed.unused call).mpr hSlot
        rw [hTicket] at hNone
        cases hNone
    | closed => exact Or.inl (by simp [step, hAwaiting, hSlot])
    | answered place =>
        have hPlace := h.routed.answered_lt hSlot
        exact Or.inl (by simp [step, hAwaiting, hSlot, hPlace])
    | waiting =>
        obtain ⟨ticket, hIssued, hKept⟩ := h.routed.held call hSlot
        rw [hTicket] at hIssued
        cases hIssued
        refine Or.inr ⟨hKept, ⟨since, hTicket, ?_⟩, h.attended⟩
        intro place response hSince hResponse
        exact h.routed.unread call _ hSlot hTicket place response hSince
          (List.getElem?_eq_some_iff.mp hResponse).1 hResponse

/-- Two bundles whose responses come in the other order, with one nobody asked
for before them. -/
def crossedRun : ControlRun :=
  (Runs.play step start [.attach 0, .takeRequests 0, .streamResponses,
    .call 0 "first" (.processBundle "read"), .cloneSender 0, .send 0,
    .call 1 "second" (.processBundle "write"), .cloneSender 1, .send 1,
    .respond 0 ⟨"third", "", some (.processBundle [3])⟩,
    .respond 0 ⟨"second", "", some (.processBundle [2])⟩,
    .respond 0 ⟨"first", "", some (.processBundle [1])⟩, .finish 1, .finish 0]).getD start

theorem responses_reach_their_callers_crossed :
    crossedRun.calls 0 =
        .finished "first" (.processBundle "read") (.ok (.processBundleSuccess [1])) ∧
      ∃ place response, crossedRun.Answers 0 "first" place response ∧
        response.response = some (.processBundle [1]) := by
  have hRun : Runs.Reaches step (fun _ _ => True) start crossedRun :=
    Runs.reaches_getD_play (fun _ _ => trivial) (by decide +kernel) start
  have hFinished : crossedRun.calls 0 =
      .finished "first" (.processBundle "read") (.ok (.processBundleSuccess [1])) := by
    decide +kernel
  refine ⟨hFinished, ?_⟩
  rcases (responses_reach_their_callers hRun).1 0 _ _ _ hFinished with
    hError | hError | ⟨place, response, hSlot, hAnswers, hResult, _⟩
  · cases hError
  · cases hError
  · obtain ⟨_, _, _, _, hId, _⟩ := id hAnswers
    refine ⟨place, response, hAnswers, ?_⟩
    simp only [ControlRequest.conclude, hId] at hResult
    grind

end ControlRun

end FlareDB
