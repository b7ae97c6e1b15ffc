import FlareDB.Lib.KeyedStore
import FlareDB.Lib.Runs
import Mathlib.Logic.Function.Basic

/-! The multiplexer of the data plane. Chunks from the worker are routed to one
queue for each key, and the executor fetches the queue of a key it waits on.
Whichever comes first creates the queue: it looks the key up and, when the key
is missing, writes a table of senders and then a table of receivers. -/
namespace FlareDB

open KeyedStore

structure DataKey where
  instructionId : String
  transformId : String
deriving DecidableEq

structure TimersKey where
  instructionId : String
  transformId : String
  timerFamilyId : String
deriving DecidableEq

inductive ElementKey where
  | data (key : DataKey)
  | timers (key : TimersKey)
deriving DecidableEq

structure Data where
  instructionId : String
  transformId : String
  data : List UInt8
  isLast : Bool
deriving DecidableEq

structure Timers where
  instructionId : String
  transformId : String
  timerFamilyId : String
  timers : List UInt8
  isLast : Bool
deriving DecidableEq

structure Elements where
  data : List Data
  timers : List Timers

inductive RoutedPayload where
  | data (key : DataKey) (data : Data)
  | timers (key : TimersKey) (timers : Timers)
deriving DecidableEq

def Data.key (data : Data) : DataKey where
  instructionId := data.instructionId
  transformId := data.transformId

def Timers.key (timers : Timers) : TimersKey where
  instructionId := timers.instructionId
  transformId := timers.transformId
  timerFamilyId := timers.timerFamilyId

def RoutedPayload.key : RoutedPayload → ElementKey
  | .data key _ => .data key
  | .timers key _ => .timers key

/-- What `route_elements` sends, in order: the data and then the timers. -/
def Elements.payloads (elements : Elements) : List RoutedPayload :=
  elements.data.map (fun data => .data data.key data) ++
    elements.timers.map fun timers => .timers timers.key timers

/-- What the caller of `get_or_create_stream` wants the queue for. -/
inductive StreamUse where
  | route (payload : RoutedPayload)
  | receive (key : ElementKey)
deriving DecidableEq

def StreamUse.key : StreamUse → ElementKey
  | .route payload => payload.key
  | .receive key => key

@[simp]
theorem StreamUse.key_route (payload : RoutedPayload) : (route payload).key = payload.key := rfl

@[simp]
theorem StreamUse.key_receive (key : ElementKey) : (receive key).key = key := rfl

/-- Where a call of `get_or_create_stream` stands, and what its caller does with
the queue. Queues are numbered. -/
inductive StreamCall where
  | idle
  | looking (use : StreamUse)
  /-- A sender was found, and its receiver is looked up next. -/
  | found (use : StreamUse) (sender : Nat)
  | missing (use : StreamUse)
  /-- The sender of a new queue is in its table, the receiver is not yet. -/
  | inserted (use : StreamUse) (queue : Nat)
  | opened (use : StreamUse) (sender receiver : Nat)
  | sent (payload : RoutedPayload)
  | receiving (key : ElementKey) (queue epoch : Nat)
  /-- The sender was there without its receiver. -/
  | panicked (key : ElementKey)
deriving DecidableEq

/-- The key of a call that is still in `get_or_create_stream`. -/
def StreamCall.opening : StreamCall → Option ElementKey
  | .looking use => some use.key
  | .found use _ => some use.key
  | .missing use => some use.key
  | .inserted use _ => some use.key
  | _ => none

/-- The tables with the calls on them. `log` holds what was ever sent to a
queue, `read` how much of it was received, and `routed` what was sent for a key
since the last reset. -/
structure MultiplexerRun where
  senders : Store ElementKey Nat
  receivers : Store ElementKey Nat
  queues : Nat
  log : Nat → List RoutedPayload
  read : Nat → Nat
  calls : Nat → StreamCall
  epoch : Nat
  routed : ElementKey → List RoutedPayload

inductive StreamAction where
  | route (call : Nat) (payload : RoutedPayload)
  | getReceiver (call : Nat) (key : ElementKey)
  | lookSender (call : Nat)
  | lookReceiver (call : Nat)
  | insertSender (call : Nat)
  | insertReceiver (call : Nat)
  | useStream (call : Nat)
  | receive (call : Nat)
  | reset
deriving DecidableEq

namespace MultiplexerRun

def start : MultiplexerRun where
  senders := ∅
  receivers := ∅
  queues := 0
  log _ := []
  read _ := 0
  calls _ := .idle
  epoch := 0
  routed _ := []

def move (run : MultiplexerRun) (call : Nat) (phase : StreamCall) : MultiplexerRun :=
  { run with calls := Function.update run.calls call phase }

def insertSender (run : MultiplexerRun) (call : Nat) (use : StreamUse) : MultiplexerRun :=
  { run.move call (.inserted use run.queues) with
    senders := run.senders.insert use.key run.queues
    queues := run.queues + 1 }

def insertReceiver (run : MultiplexerRun) (call : Nat) (use : StreamUse) (queue : Nat) : MultiplexerRun :=
  { run.move call (.opened use queue queue) with
    receivers := run.receivers.insert use.key queue }

def send (run : MultiplexerRun) (call : Nat) (payload : RoutedPayload) (sender : Nat) : MultiplexerRun :=
  { run.move call (.sent payload) with
    log := Function.update run.log sender (run.log sender ++ [payload])
    routed := Function.update run.routed payload.key (run.routed payload.key ++ [payload]) }

def reset (run : MultiplexerRun) : MultiplexerRun :=
  { run with
    senders := ∅
    receivers := ∅
    epoch := run.epoch + 1
    routed := fun _ => [] }

def step (run : MultiplexerRun) : StreamAction → Option MultiplexerRun
  | .route call payload =>
      match run.calls call with
      | .idle => some (run.move call (.looking (.route payload)))
      | _ => none
  | .getReceiver call key =>
      match run.calls call with
      | .idle => some (run.move call (.looking (.receive key)))
      | _ => none
  | .lookSender call =>
      match run.calls call with
      | .looking use =>
          match run.senders.lookup use.key with
          | some sender => some (run.move call (.found use sender))
          | none => some (run.move call (.missing use))
      | _ => none
  | .lookReceiver call =>
      match run.calls call with
      | .found use sender =>
          match run.receivers.lookup use.key with
          | some receiver => some (run.move call (.opened use sender receiver))
          | none => some (run.move call (.panicked use.key))
      | _ => none
  | .insertSender call =>
      match run.calls call with
      | .missing use => some (run.insertSender call use)
      | _ => none
  | .insertReceiver call =>
      match run.calls call with
      | .inserted use queue => some (run.insertReceiver call use queue)
      | _ => none
  | .useStream call =>
      match run.calls call with
      | .opened (.route payload) sender _ => some (run.send call payload sender)
      | .opened (.receive key) _ receiver =>
          some (run.move call (.receiving key receiver run.epoch))
      | _ => none
  | .receive call =>
      match run.calls call with
      | .receiving _ queue _ =>
          if run.read queue < (run.log queue).length then
            some { run with read := Function.update run.read queue (run.read queue + 1) }
          else none
      | _ => none
  | .reset => some run.reset

/-- No two calls open the queue of one key at a time, and a reset waits for the
calls that have a queue in hand. -/
def Apart (run : MultiplexerRun) : StreamAction → Prop
  | .route _ payload => ∀ other, (run.calls other).opening ≠ some payload.key
  | .getReceiver _ key => ∀ other, (run.calls other).opening ≠ some key
  | .reset => ∀ other, (run.calls other).opening = none ∧
      ∀ use sender receiver, run.calls other ≠ .opened use sender receiver
  | _ => True

/-- What a call knows of the tables. -/
def Fits (run : MultiplexerRun) : StreamCall → Prop
  | .found use sender =>
      run.senders.lookup use.key = some sender ∧ run.receivers.lookup use.key = some sender
  | .missing use => run.senders.lookup use.key = none ∧ run.receivers.lookup use.key = none
  | .inserted use queue =>
      run.senders.lookup use.key = some queue ∧ run.receivers.lookup use.key = none
  | .opened use sender receiver => run.senders.lookup use.key = some sender ∧ sender = receiver
  | .receiving key queue epoch =>
      epoch ≤ run.epoch ∧ (epoch = run.epoch → run.senders.lookup key = some queue)
  | .panicked _ => False
  | _ => True

/-- One call at most opens the queue of a key. -/
def Alone (calls : Nat → StreamCall) : Prop :=
  ∀ call other key, (calls call).opening = some key → (calls other).opening = some key →
    call = other

structure Paired (run : MultiplexerRun) : Prop where
  alone : Alone run.calls
  calls : ∀ call, run.Fits (run.calls call)
  pairs : ∀ key, run.senders.lookup key = run.receivers.lookup key ∨
    ∃ call use queue, run.calls call = .inserted use queue ∧ use.key = key
  separate : ∀ key other queue, run.senders.lookup key = some queue →
    run.senders.lookup other = some queue → key = other
  numbered : ∀ key queue, run.senders.lookup key = some queue → queue < run.queues
  fresh : ∀ queue, run.queues ≤ queue → run.log queue = []
  logged : ∀ key, (run.senders.lookup key).elim [] run.log = run.routed key
  keyed : ∀ key, ∀ payload ∈ run.routed key, payload.key = key

theorem Paired.start : start.Paired where
  alone _ _ _ h := by simp [MultiplexerRun.start, StreamCall.opening] at h
  calls _ := trivial
  pairs _ := Or.inl rfl
  separate _ _ _ h := by simp [MultiplexerRun.start] at h
  numbered _ _ h := by simp [MultiplexerRun.start] at h
  fresh _ _ := rfl
  logged _ := rfl
  keyed _ _ hPayload := by simp [MultiplexerRun.start] at hPayload

/-- What a call knows stays true while the keys that are being opened are left alone. -/
theorem Fits.mono {run after : MultiplexerRun} {phase : StreamCall} (h : run.Fits phase)
    (hOpening : ∀ key, phase.opening = some key →
      after.senders.lookup key = run.senders.lookup key ∧
        after.receivers.lookup key = run.receivers.lookup key)
    (hSenders : ∀ key queue, run.senders.lookup key = some queue →
      after.senders.lookup key = some queue)
    (hEpoch : after.epoch = run.epoch) : after.Fits phase := by
  cases phase with
  | found use sender =>
      obtain ⟨hSender, hReceiver⟩ := hOpening use.key rfl
      exact ⟨hSender.trans h.1, hReceiver.trans h.2⟩
  | missing use =>
      obtain ⟨hSender, hReceiver⟩ := hOpening use.key rfl
      exact ⟨hSender.trans h.1, hReceiver.trans h.2⟩
  | inserted use queue =>
      obtain ⟨hSender, hReceiver⟩ := hOpening use.key rfl
      exact ⟨hSender.trans h.1, hReceiver.trans h.2⟩
  | opened use sender receiver => exact ⟨hSenders use.key sender h.1, h.2⟩
  | receiving key queue epoch =>
      refine ⟨hEpoch ▸ h.1, fun hNow => hSenders key queue (h.2 (hNow.trans hEpoch))⟩
  | panicked key => exact h.elim
  | idle => trivial
  | looking use => trivial
  | sent payload => trivial

/-- A call that opens a key nobody else opens is alone on it. -/
theorem Alone.update {calls : Nat → StreamCall} (h : Alone calls) {call : Nat} {phase : StreamCall}
    (hAlone : ∀ key, phase.opening = some key → ∀ other, other ≠ call →
      (calls other).opening ≠ some key) : Alone (Function.update calls call phase) := by
  intro first second key hFirst hSecond
  by_cases hOne : first = call
  · by_cases hTwo : second = call
    · rw [hOne, hTwo]
    · rw [hOne, Function.update_self] at hFirst
      rw [Function.update_of_ne hTwo] at hSecond
      exact absurd hSecond (hAlone key hFirst second hTwo)
  · rw [Function.update_of_ne hOne] at hFirst
    by_cases hTwo : second = call
    · rw [hTwo, Function.update_self] at hSecond
      exact absurd hFirst (hAlone key hSecond first hOne)
    · rw [Function.update_of_ne hTwo] at hSecond
      exact h first second key hFirst hSecond

/-- A call that keeps its key stays alone on it. -/
theorem Alone.keeps {calls : Nat → StreamCall} (h : Alone calls) {call : Nat} {phase : StreamCall}
    (hKey : ∀ key, phase.opening = some key → (calls call).opening = some key) :
    Alone (Function.update calls call phase) := by
  refine h.update fun key hPhase other hOther hSame => ?_
  exact hOther (h other call key hSame (hKey key hPhase))

/-- A call that is not between the tables for a key does not end that another is. -/
theorem inserted_update {calls : Nat → StreamCall} {call : Nat} {phase : StreamCall}
    {key : ElementKey} (hNot : ∀ use queue, calls call = .inserted use queue → use.key ≠ key)
    (h : ∃ other use queue, calls other = .inserted use queue ∧ use.key = key) :
    ∃ other use queue, Function.update calls call phase other = .inserted use queue ∧
      use.key = key := by
  obtain ⟨other, use, queue, hInserted, hKey⟩ := h
  refine ⟨other, use, queue, ?_, hKey⟩
  rw [Function.update_of_ne, hInserted]
  intro hSame
  exact hNot use queue (hSame ▸ hInserted) hKey

/-- A call moves on without touching the tables. -/
theorem Paired.move {run : MultiplexerRun} (h : run.Paired) {call : Nat} {phase : StreamCall}
    (hAlone : Alone (Function.update run.calls call phase)) (hFits : run.Fits phase)
    (hPairs : ∀ use queue, run.calls call ≠ .inserted use queue) :
    (run.move call phase).Paired where
  alone := hAlone
  calls := by
    refine (Function.forall_update_iff run.calls
      fun _ phase => (run.move call _).Fits phase).mpr ⟨?_, fun other _ => ?_⟩
    · exact hFits.mono (fun _ _ => ⟨rfl, rfl⟩) (fun _ _ hKey => hKey) rfl
    · exact (h.calls other).mono (fun _ _ => ⟨rfl, rfl⟩) (fun _ _ hKey => hKey) rfl
  pairs key := (h.pairs key).imp id
    (inserted_update fun use queue hInserted => absurd hInserted (hPairs use queue))
  separate := h.separate
  numbered := h.numbered
  fresh := h.fresh
  logged := h.logged
  keyed := h.keyed

/-- A key that a call has missed is in neither table until the call goes on. -/
theorem Paired.missing {run : MultiplexerRun} (h : run.Paired) {call : Nat} {use : StreamUse}
    (hMissing : run.calls call = .missing use) :
    run.senders.lookup use.key = none ∧ run.receivers.lookup use.key = none := by
  have hFits := h.calls call
  rwa [hMissing] at hFits

/-- The first half of a new queue: its sender is there before its receiver. -/
theorem Paired.insertSender {run : MultiplexerRun} (h : run.Paired) {call : Nat} {use : StreamUse}
    (hMissing : run.calls call = .missing use) : (run.insertSender call use).Paired := by
  obtain ⟨hSender, hReceiver⟩ := h.missing hMissing
  have hOther : ∀ other, other ≠ use.key →
      (run.insertSender call use).senders.lookup other = run.senders.lookup other :=
    fun other hNe => AList.lookup_insert_ne hNe
  have hHere : (run.insertSender call use).senders.lookup use.key = some run.queues :=
    AList.lookup_insert ..
  constructor
  · exact h.alone.keeps fun other hPhase => by rw [hMissing]; exact hPhase
  · refine (Function.forall_update_iff run.calls
      fun _ phase => (run.insertSender call use).Fits phase).mpr ⟨⟨hHere, hReceiver⟩, ?_⟩
    intro other hNe
    refine (h.calls other).mono (fun taken hTaken => ⟨hOther taken ?_, rfl⟩) ?_ rfl
    · intro hSame
      refine hNe (h.alone other call use.key (hSame ▸ hTaken) ?_)
      rw [hMissing]
      rfl
    · intro taken queue hQueue
      refine (hOther taken ?_).trans hQueue
      intro hSame
      rw [hSame, hSender] at hQueue
      cases hQueue
  · intro other
    by_cases hSame : other = use.key
    · exact Or.inr ⟨call, use, run.queues, Function.update_self .., hSame.symm⟩
    · refine (h.pairs other).imp ((hOther other hSame).trans ·) (inserted_update ?_)
      simp [hMissing]
  · intro first second queue hFirst hSecond
    by_cases hOne : first = use.key
    · by_cases hTwo : second = use.key
      · rw [hOne, hTwo]
      · rw [hOne, hHere] at hFirst
        rw [hOther second hTwo] at hSecond
        cases hFirst
        exact absurd (h.numbered second run.queues hSecond) (Nat.lt_irrefl _)
    · rw [hOther first hOne] at hFirst
      by_cases hTwo : second = use.key
      · rw [hTwo, hHere] at hSecond
        cases hSecond
        exact absurd (h.numbered first run.queues hFirst) (Nat.lt_irrefl _)
      · rw [hOther second hTwo] at hSecond
        exact h.separate first second queue hFirst hSecond
  · intro other queue hQueue
    by_cases hSame : other = use.key
    · rw [hSame, hHere] at hQueue
      cases hQueue
      exact Nat.lt_succ_self _
    · rw [hOther other hSame] at hQueue
      exact Nat.lt_succ_of_lt (h.numbered other queue hQueue)
  · exact fun queue hQueue => h.fresh queue (Nat.le_of_succ_le hQueue)
  · intro other
    by_cases hSame : other = use.key
    · have hLogged := h.logged other
      rw [hSame, hSender] at hLogged
      rw [hSame, hHere]
      exact (h.fresh run.queues (Nat.le_refl _)).trans hLogged
    · rw [hOther other hSame]
      exact h.logged other
  · exact h.keyed

/-- The second half: sender and receiver belong together again. -/
theorem Paired.insertReceiver {run : MultiplexerRun} (h : run.Paired) {call : Nat} {use : StreamUse}
    {queue : Nat} (hInserted : run.calls call = .inserted use queue) :
    (run.insertReceiver call use queue).Paired := by
  obtain ⟨hSender, hReceiver⟩ :
      run.senders.lookup use.key = some queue ∧ run.receivers.lookup use.key = none := by
    have hFits := h.calls call
    rwa [hInserted] at hFits
  have hOther : ∀ other, other ≠ use.key →
      (run.insertReceiver call use queue).receivers.lookup other = run.receivers.lookup other :=
    fun other hNe => AList.lookup_insert_ne hNe
  constructor
  · exact h.alone.keeps fun other hPhase => by cases hPhase
  · refine (Function.forall_update_iff run.calls
      fun _ phase => (run.insertReceiver call use queue).Fits phase).mpr ⟨⟨hSender, rfl⟩, ?_⟩
    intro other hNe
    refine (h.calls other).mono (fun taken hTaken => ⟨rfl, hOther taken ?_⟩) (fun _ _ hKey => hKey) rfl
    intro hSame
    refine hNe (h.alone other call use.key (hSame ▸ hTaken) ?_)
    rw [hInserted]
    rfl
  · intro other
    by_cases hSame : other = use.key
    · have hHere : (run.insertReceiver call use queue).receivers.lookup use.key = some queue :=
        AList.lookup_insert ..
      rw [hSame]
      exact Or.inl (hSender.trans hHere.symm)
    · refine (h.pairs other).imp (·.trans (hOther other hSame).symm) (inserted_update ?_)
      intro _ _ hCall
      rw [hInserted] at hCall
      cases hCall
      exact Ne.symm hSame
  · exact h.separate
  · exact h.numbered
  · exact h.fresh
  · exact h.logged
  · exact h.keyed

/-- A sent payload is at the end of the queue of its key. -/
theorem Paired.send {run : MultiplexerRun} (h : run.Paired) {call : Nat} {payload : RoutedPayload}
    {sender receiver : Nat} (hOpened : run.calls call = .opened (.route payload) sender receiver) :
    (run.send call payload sender).Paired := by
  have hSender : run.senders.lookup payload.key = some sender := by
    have hFits := h.calls call
    rw [hOpened] at hFits
    exact hFits.1
  have hMoved : (run.move call (.sent payload)).Paired :=
    h.move (h.alone.keeps fun other hPhase => by cases hPhase) trivial (by simp [hOpened])
  refine ⟨hMoved.alone, fun other => ?_, hMoved.pairs, h.separate, h.numbered, ?_, ?_, ?_⟩
  · exact (hMoved.calls other).mono (fun _ _ => ⟨rfl, rfl⟩) (fun _ _ hKey => hKey) rfl
  · intro queue hQueue
    have hNe : queue ≠ sender := by
      have hNumber := h.numbered payload.key sender hSender
      intro hSame
      exact absurd (hSame ▸ hQueue) (Nat.not_le.mpr hNumber)
    exact (Function.update_of_ne hNe _ _).trans (h.fresh queue hQueue)
  · intro other
    by_cases hSame : other = payload.key
    · have hLogged := h.logged other
      rw [hSame] at hLogged ⊢
      simp only [hSender, Option.elim] at hLogged
      simp [MultiplexerRun.send, MultiplexerRun.move, hSender, hLogged]
    · have hLogged := h.logged other
      simp only [MultiplexerRun.send, MultiplexerRun.move, Function.update_of_ne hSame]
      rw [← hLogged]
      cases hLookup : run.senders.lookup other with
      | none => rfl
      | some queue =>
          have hNe : queue ≠ sender := by
            intro hQueue
            exact hSame (h.separate other payload.key queue hLookup (hQueue ▸ hSender))
          exact Function.update_of_ne hNe _ _
  · intro other routed hRouted
    by_cases hSame : other = payload.key
    · subst hSame
      simp only [MultiplexerRun.send, Function.update_self, List.mem_append, List.mem_singleton] at hRouted
      rcases hRouted with hRouted | rfl
      · exact h.keyed _ routed hRouted
      · rfl
    · simp only [MultiplexerRun.send, Function.update_of_ne hSame] at hRouted
      exact h.keyed other routed hRouted

/-- A reset that falls into no open call forgets all queues. -/
theorem Paired.reset {run : MultiplexerRun} (h : run.Paired) (hApart : run.Apart .reset) :
    run.reset.Paired where
  alone := h.alone
  calls call := by
    obtain ⟨hOpening, hOpened⟩ := hApart call
    have hFits := h.calls call
    cases hCall : run.calls call with
    | idle => simp [MultiplexerRun.reset, hCall, Fits]
    | looking use => simp [MultiplexerRun.reset, hCall, Fits]
    | found use sender => simp [hCall, StreamCall.opening] at hOpening
    | missing use => simp [hCall, StreamCall.opening] at hOpening
    | inserted use queue => simp [hCall, StreamCall.opening] at hOpening
    | opened use sender receiver => exact absurd hCall (hOpened use sender receiver)
    | sent payload => simp [MultiplexerRun.reset, hCall, Fits]
    | receiving key queue epoch =>
        rw [hCall] at hFits
        have hEpoch : epoch ≤ run.epoch := hFits.1
        simp only [MultiplexerRun.reset, hCall, Fits]
        exact ⟨by omega, by omega⟩
    | panicked key =>
        rw [hCall] at hFits
        exact hFits.elim
  pairs _ := Or.inl rfl
  separate _ _ _ hKey := by simp [MultiplexerRun.reset] at hKey
  numbered _ _ hKey := by simp [MultiplexerRun.reset] at hKey
  fresh := h.fresh
  logged _ := rfl
  keyed _ _ hPayload := by simp [MultiplexerRun.reset] at hPayload

/-- Nobody is between the two tables of a key that a call looks up. -/
theorem Paired.paired_looking {run : MultiplexerRun} (h : run.Paired) {call : Nat} {use : StreamUse}
    (hLooking : run.calls call = .looking use) :
    run.senders.lookup use.key = run.receivers.lookup use.key := by
  refine (h.pairs use.key).resolve_right ?_
  rintro ⟨other, taken, queue, hInserted, hKey⟩
  have hSame := h.alone other call use.key (by rw [hInserted, ← hKey]; rfl) (by rw [hLooking]; rfl)
  rw [hSame, hLooking] at hInserted
  cases hInserted

/-- Every step in which no two calls open one key keeps the tables paired. -/
theorem Paired.step {run after : MultiplexerRun} {action : StreamAction} (h : run.Paired)
    (hApart : run.Apart action) (hStep : run.step action = some after) : after.Paired := by
  cases action with
  | route call payload =>
      simp only [MultiplexerRun.step] at hStep
      split at hStep <;> cases hStep
      next hIdle =>
        refine h.move (h.alone.update fun key hKey other _ => ?_) trivial (by simp [hIdle])
        cases hKey
        exact hApart other
  | getReceiver call key =>
      simp only [MultiplexerRun.step] at hStep
      split at hStep <;> cases hStep
      next hIdle =>
        refine h.move (h.alone.update fun taken hTaken other _ => ?_) trivial (by simp [hIdle])
        cases hTaken
        exact hApart other
  | lookSender call =>
      simp only [MultiplexerRun.step] at hStep
      split at hStep
      next use hLooking =>
        have hPair := h.paired_looking hLooking
        split at hStep
        next sender hSender =>
          cases hStep
          refine h.move (h.alone.keeps fun taken hTaken => ?_)
            ⟨hSender, hPair.symm.trans hSender⟩ (by simp [hLooking])
          rw [hLooking]
          exact hTaken
        next hNone =>
          cases hStep
          refine h.move (h.alone.keeps fun taken hTaken => ?_)
            ⟨hNone, hPair.symm.trans hNone⟩ (by simp [hLooking])
          rw [hLooking]
          exact hTaken
      · cases hStep
  | lookReceiver call =>
      simp only [MultiplexerRun.step] at hStep
      split at hStep
      next use sender hFound =>
        obtain ⟨hSender, hReceiver⟩ :
            run.senders.lookup use.key = some sender ∧ run.receivers.lookup use.key = some sender := by
          have hFits := h.calls call
          rwa [hFound] at hFits
        rw [hReceiver] at hStep
        cases hStep
        exact h.move (h.alone.keeps fun taken hTaken => by cases hTaken) ⟨hSender, rfl⟩
          (by simp [hFound])
      · cases hStep
  | insertSender call =>
      simp only [MultiplexerRun.step] at hStep
      split at hStep <;> cases hStep
      next use hMissing => exact h.insertSender hMissing
  | insertReceiver call =>
      simp only [MultiplexerRun.step] at hStep
      split at hStep <;> cases hStep
      next use queue hInserted => exact h.insertReceiver hInserted
  | useStream call =>
      simp only [MultiplexerRun.step] at hStep
      split at hStep
      next payload sender receiver hOpened =>
        cases hStep
        exact h.send hOpened
      next key sender receiver hOpened =>
        obtain ⟨hSender, hSame⟩ : run.senders.lookup key = some sender ∧ sender = receiver := by
          have hFits := h.calls call
          rwa [hOpened] at hFits
        cases hStep
        exact h.move (h.alone.keeps fun taken hTaken => by cases hTaken)
          ⟨Nat.le_refl _, fun _ => hSame ▸ hSender⟩ (by simp [hOpened])
      · cases hStep
  | receive call =>
      simp only [MultiplexerRun.step] at hStep
      split at hStep
      · split at hStep <;> cases hStep
        exact ⟨h.alone, fun other => (h.calls other).mono (fun _ _ => ⟨rfl, rfl⟩)
          (fun _ _ hKey => hKey) rfl, h.pairs, h.separate, h.numbered, h.fresh, h.logged, h.keyed⟩
      · cases hStep
  | reset =>
      cases hStep
      exact h.reset hApart

/-- What the receivers of a queue have got. -/
def received (run : MultiplexerRun) (queue : Nat) : List RoutedPayload :=
  (run.log queue).take (run.read queue)

def queued (run : MultiplexerRun) (queue : Nat) : List RoutedPayload :=
  (run.log queue).drop (run.read queue)

/-- A call that finds the sender of another that is between the tables panics. -/
theorem panics_of_overlap {run : MultiplexerRun} (h : run.Paired) {first second : Nat}
    {use : StreamUse} (hFirst : run.calls first = .missing use)
    (hSecond : run.calls second = .idle) :
    ∃ after, Runs.Reaches step (fun _ _ => True) run after ∧
      after.calls second = .panicked use.key := by
  have hNe : second ≠ first := by
    intro hSame
    rw [hSame, hFirst] at hSecond
    cases hSecond
  have hReceiver := (h.missing hFirst).2
  have hPlay : Runs.play step run
      [.insertSender first, .getReceiver second use.key, .lookSender second, .lookReceiver second] =
        some ((((run.insertSender first use).move second (.looking (.receive use.key))).move second
          (.found (.receive use.key) run.queues)).move second (.panicked use.key)) := by
    simp [Runs.play, step, hFirst, insertSender, move, Function.update_of_ne hNe, hSecond, hReceiver]
  exact ⟨_, Runs.reaches_of_play (fun _ _ => trivial) hPlay, Function.update_self ..⟩

/-- A call that misses the key together with another makes a queue of its own,
and what the other routes is not in it. -/
theorem loses_of_overlap {run : MultiplexerRun} (h : run.Paired) {first second : Nat}
    {payload : RoutedPayload} (hFirst : run.calls first = .missing (.route payload))
    (hSecond : run.calls second = .idle) :
    ∃ after queue, Runs.Reaches step (fun _ _ => True) run after ∧
      after.calls second = .receiving payload.key queue after.epoch ∧
      payload ∈ after.routed payload.key ∧ after.log queue = [] := by
  have hNe : second ≠ first := by
    intro hSame
    rw [hSame, hFirst] at hSecond
    cases hSecond
  have hSender : run.senders.lookup payload.key = none := (h.missing hFirst).1
  let looked := (run.move second (.looking (.receive payload.key))).move second
    (.missing (.receive payload.key))
  let routed := ((looked.insertSender first (.route payload)).insertReceiver first
    (.route payload) run.queues).send first payload run.queues
  let fetched := (routed.insertSender second (.receive payload.key)).insertReceiver second
    (.receive payload.key) routed.queues
  have hPlay : Runs.play step run
      [.getReceiver second payload.key, .lookSender second, .insertSender first,
        .insertReceiver first, .useStream first, .insertSender second, .insertReceiver second,
        .useStream second] =
        some (fetched.move second (.receiving payload.key routed.queues fetched.epoch)) := by
    simp [Runs.play, step, hFirst, hSecond, hSender, move, Function.update_of_ne hNe,
      Function.update_of_ne hNe.symm, insertSender, insertReceiver, send, looked, routed, fetched]
  refine ⟨_, routed.queues, Runs.reaches_of_play (fun _ _ => trivial) hPlay,
    Function.update_self .., ?_, ?_⟩
  · simp [fetched, routed, looked, move, insertSender, insertReceiver, send]
  · have hFresh := h.fresh (run.queues + 1) (Nat.le_succ _)
    simpa [fetched, routed, looked, move, insertSender, insertReceiver, send] using hFresh

/-- The steps of a call that routes a payload and that nobody interrupts. -/
def routeSteps (run : MultiplexerRun) (call : Nat) (payload : RoutedPayload) : List StreamAction :=
  match run.senders.lookup payload.key with
  | some _ => [.route call payload, .lookSender call, .lookReceiver call, .useStream call]
  | none =>
      [.route call payload, .lookSender call, .insertSender call, .insertReceiver call,
        .useStream call]

/-- The calls that `route_elements` makes for a message, one after the other. -/
def routeElements (run : MultiplexerRun) : List (Nat × RoutedPayload) → Option MultiplexerRun
  | [] => some run
  | (call, payload) :: rest =>
      (Runs.play step run (run.routeSteps call payload)).bind fun sent => sent.routeElements rest

/-- A payload routed while nobody opens a queue reaches the queue of its key. -/
theorem routes_payload {run : MultiplexerRun} (h : run.Paired) {call : Nat} (payload : RoutedPayload)
    (hIdle : run.calls call = .idle) (hApart : ∀ other, (run.calls other).opening = none) :
    ∃ after, Runs.play step run (run.routeSteps call payload) = some after ∧
      Runs.Reaches step Apart run after ∧
      after.calls = Function.update run.calls call (.sent payload) ∧
      after.routed =
        Function.update run.routed payload.key (run.routed payload.key ++ [payload]) := by
  have hRouted : run.Apart (.route call payload) := by
    intro other
    rw [hApart other]
    exact fun hNone => by cases hNone
  let looking := run.move call (.looking (.route payload))
  have hLooking : looking.calls call = .looking (.route payload) := Function.update_self ..
  have hTaken : step run (.route call payload) = some looking := by simp [step, hIdle, looking]
  have hLook : Runs.Reaches step Apart run looking :=
    (Runs.Reaches.refl run).snoc (.route call payload) hRouted hTaken
  have hPair := (h.step hRouted hTaken).paired_looking hLooking
  cases hSender : run.senders.lookup payload.key with
  | some sender =>
      have hReceiver : run.receivers.lookup payload.key = some sender := hPair.symm.trans hSender
      let found := looking.move call (.found (.route payload) sender)
      let opened := found.move call (.opened (.route payload) sender sender)
      have hRest : Runs.play step looking [.lookSender call, .lookReceiver call, .useStream call] =
          some (opened.send call payload sender) := by
        simp [Runs.play, step, move, hSender, hReceiver, looking, found, opened]
      refine ⟨opened.send call payload sender, ?_, hLook.play _ (by simp [Apart]) hRest, ?_, rfl⟩
      · rw [routeSteps, hSender, Runs.play, hTaken]
        exact hRest
      · simp [send, move, opened, found, looking]
  | none =>
      let missing := looking.move call (.missing (.route payload))
      let half := missing.insertSender call (.route payload)
      let opened := half.insertReceiver call (.route payload) run.queues
      have hRest : Runs.play step looking
          [.lookSender call, .insertSender call, .insertReceiver call, .useStream call] =
          some (opened.send call payload run.queues) := by
        simp [Runs.play, step, insertReceiver, insertSender, move, hSender, looking, missing, half,
          opened]
      refine ⟨opened.send call payload run.queues, ?_, hLook.play _ (by simp [Apart]) hRest, ?_, rfl⟩
      · rw [routeSteps, hSender, Runs.play, hTaken]
        exact hRest
      · simp [send, insertReceiver, insertSender, move, opened, half, missing, looking]

/-- Nobody interrupts the calls of a message: each sends its payload, and the
queues get the payloads of their keys in order. -/
theorem routes_payloads {run : MultiplexerRun} (h : run.Paired) (payloads : List RoutedPayload)
    {calls : List Nat} (hCalls : calls.Nodup) (hLength : calls.length = payloads.length)
    (hIdle : ∀ call ∈ calls, run.calls call = .idle)
    (hApart : ∀ other, (run.calls other).opening = none) :
    ∃ after, run.routeElements (calls.zip payloads) = some after ∧
      Runs.Reaches step Apart run after ∧
      calls.map after.calls = payloads.map .sent ∧
      (∀ other, other ∉ calls → after.calls other = run.calls other) ∧
      ∀ key, after.routed key = run.routed key ++ payloads.filter (key = ·.key) := by
  induction payloads generalizing run calls with
  | nil =>
      cases List.length_eq_zero_iff.mp hLength
      exact ⟨run, rfl, Runs.Reaches.refl run, rfl, fun _ _ => rfl,
        fun key => (List.append_nil _).symm⟩
  | cons payload rest ih =>
      cases calls with
      | nil => cases hLength
      | cons call others =>
          obtain ⟨hFresh, hOthers⟩ := List.nodup_cons.mp hCalls
          obtain ⟨sent, hSteps, hSent, hSentCalls, hSentRouted⟩ := routes_payload h payload
            (hIdle call List.mem_cons_self) hApart
          have hPaired : sent.Paired := hSent.invariant
            (fun _ _ _ hAllowed hStep hBefore => Paired.step hBefore hAllowed hStep) h
          have hKept : ∀ other, other ≠ call → sent.calls other = run.calls other := by
            intro other hNe
            rw [hSentCalls, Function.update_of_ne hNe]
          have hDone : sent.calls call = .sent payload := by
            rw [hSentCalls, Function.update_self]
          obtain ⟨after, hPlayed, hAfter, hCallsAfter, hOthersAfter, hRouted⟩ :=
            ih hPaired hOthers (Nat.succ.inj hLength)
              (fun other hOther => by
                have hNe : other ≠ call := fun hSame => hFresh (hSame ▸ hOther)
                rw [hKept other hNe]
                exact hIdle other (List.mem_cons_of_mem _ hOther))
              (fun other => by
                by_cases hSame : other = call
                · rw [hSame, hDone]
                  rfl
                · rw [hKept other hSame]
                  exact hApart other)
          refine ⟨after, ?_, hSent.trans hAfter, ?_, fun other hOther => ?_, fun key => ?_⟩
          · rw [List.zip_cons_cons, routeElements, hSteps]
            exact hPlayed
          · rw [List.map_cons, hCallsAfter, hOthersAfter call hFresh, hDone]
            rfl
          · obtain ⟨hNe, hRest⟩ := not_or.mp (List.mem_cons.not.mp hOther)
            rw [hOthersAfter other hRest, hKept other hNe]
          · rw [hRouted, hSentRouted, List.filter_cons]
            by_cases hKey : key = payload.key
            · simp [hKey]
            · simp [hKey]

/-- While no two calls open the queue of one key at a time, and no reset comes
between, what a receiver of a key got and what still waits for it are together
what was routed to the key, in order; nobody panics; and the calls of a message
that nobody interrupts all send their chunk. Two calls that overlap on a missing
key are enough to break the first two. -/
theorem chunks_reach_their_receivers {run : MultiplexerRun} (hRun : Runs.Reaches step Apart start run) :
    (∀ call key, run.calls call ≠ .panicked key) ∧
      (∀ call key queue, run.calls call = .receiving key queue run.epoch →
        run.received queue ++ run.queued queue = run.routed key ∧
          ∀ payload ∈ run.routed key, payload.key = key) ∧
      (∀ (elements : Elements) (calls : List Nat), calls.Nodup →
        calls.length = elements.payloads.length → (∀ call ∈ calls, run.calls call = .idle) →
        (∀ other, (run.calls other).opening = none) →
        ∃ after, run.routeElements (calls.zip elements.payloads) = some after ∧
          Runs.Reaches step Apart run after ∧
          calls.map after.calls = elements.payloads.map .sent ∧
          (∀ other, other ∉ calls → after.calls other = run.calls other) ∧
          ∀ key, after.routed key = run.routed key ++ elements.payloads.filter (key = ·.key)) ∧
      ∀ first second payload, run.calls first = .missing (.route payload) →
        run.calls second = .idle →
        (∃ after, Runs.Reaches step (fun _ _ => True) run after ∧
          after.calls second = .panicked payload.key) ∧
        ∃ after queue, Runs.Reaches step (fun _ _ => True) run after ∧
          after.calls second = .receiving payload.key queue after.epoch ∧
          payload ∈ after.routed payload.key ∧
          payload ∉ after.received queue ++ after.queued queue := by
  have hPaired : run.Paired := hRun.invariant
    (fun _ _ _ hAllowed hStep hBefore => Paired.step hBefore hAllowed hStep) Paired.start
  refine ⟨fun call key hCall => ?_, fun call key queue hCall => ⟨?_, hPaired.keyed key⟩, ?_, ?_⟩
  · have hFits := hPaired.calls call
    rw [hCall] at hFits
    exact hFits
  · have hFits := hPaired.calls call
    rw [hCall] at hFits
    have hLogged := hPaired.logged key
    rw [hFits.2 rfl] at hLogged
    exact (List.take_append_drop _ _).trans hLogged
  · intro elements calls hCalls hLength hIdle hApart
    exact routes_payloads hPaired elements.payloads hCalls hLength hIdle hApart
  · intro first second payload hFirst hSecond
    refine ⟨panics_of_overlap hPaired hFirst hSecond, ?_⟩
    obtain ⟨after, queue, hAfter, hReceiving, hRouted, hEmpty⟩ :=
      loses_of_overlap hPaired hFirst hSecond
    refine ⟨after, queue, hAfter, hReceiving, hRouted, ?_⟩
    rw [received, queued, List.take_append_drop, hEmpty]
    exact List.not_mem_nil

/-- A chunk is routed before its receiver is fetched, and another key is being
opened meanwhile. -/
theorem chunks_reach_their_receivers_early :
    ∃ run, Runs.Reaches step Apart start run ∧
      (∃ key queue payload, run.calls 1 = .receiving key queue run.epoch ∧
        run.received queue ++ run.queued queue = [payload]) ∧
      ∃ after key, Runs.Reaches step (fun _ _ => True) run after ∧
        after.calls 3 = .panicked key := by
  let payload : RoutedPayload := .data ⟨"bundle", "read"⟩ ⟨"bundle", "read", [1], false⟩
  let other : RoutedPayload := .data ⟨"bundle", "write"⟩ ⟨"bundle", "write", [2], true⟩
  let routed := ((((start.move 0 (.looking (.route payload))).move 0
    (.missing (.route payload))).insertSender 0 (.route payload)).insertReceiver 0
    (.route payload) 0).send 0 payload 0
  let fetched := (((routed.move 1 (.looking (.receive payload.key))).move 1
    (.found (.receive payload.key) 0)).move 1 (.opened (.receive payload.key) 0 0)).move 1
    (.receiving payload.key 0 0)
  let run := (fetched.move 2 (.looking (.route other))).move 2 (.missing (.route other))
  have hRouted : Runs.Reaches step Apart start routed := by
    refine ((Runs.Reaches.refl start).snoc (.route 0 payload) ?_ rfl).play
      [.lookSender 0, .insertSender 0, .insertReceiver 0, .useStream 0] ?_ rfl
    · simp [Apart, start, StreamCall.opening]
    · simp [Apart]
  have hFetched : Runs.Reaches step Apart start fetched := by
    refine (hRouted.snoc (.getReceiver 1 payload.key) ?_ rfl).play
      [.lookSender 1, .lookReceiver 1, .useStream 1] ?_ rfl
    · intro call
      by_cases hZero : call = 0
      · simp [hZero, routed, move, insertSender, insertReceiver, send, StreamCall.opening]
      · simp [hZero, routed, move, insertSender, insertReceiver, send, start, StreamCall.opening]
    · simp [Apart]
  have hRun : Runs.Reaches step Apart start run := by
    refine (hFetched.snoc (.route 2 other) ?_ rfl).play [.lookSender 2] ?_ rfl
    · intro call
      by_cases hOne : call = 1
      · simp [hOne, fetched, move, StreamCall.opening]
      · by_cases hZero : call = 0
        · simp [hZero, fetched, routed, move, insertSender, insertReceiver, send, StreamCall.opening]
        · simp [hOne, hZero, fetched, routed, move, insertSender, insertReceiver, send, start,
            StreamCall.opening]
    · simp [Apart]
  obtain ⟨-, hReceived, -, hOverlap⟩ := chunks_reach_their_receivers hRun
  have hReceiving : run.calls 1 = .receiving payload.key 0 run.epoch := rfl
  refine ⟨run, hRun, ⟨payload.key, 0, payload, hReceiving, ?_⟩, ?_⟩
  · exact (hReceived 1 payload.key 0 hReceiving).1
  · obtain ⟨after, hAfter, hPanicked⟩ := (hOverlap 2 3 other rfl rfl).1
    exact ⟨after, other.key, hAfter, hPanicked⟩

end MultiplexerRun

end FlareDB
