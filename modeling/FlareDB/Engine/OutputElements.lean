import FlareDB.Coders.Window

/-! The receive loop of a bundle's output: data messages are appended to a
buffer, complete elements are decoded off its front, and a decode that unwinds
waits for the next message. -/
namespace FlareDB

open ByteDecoder

inductive ElementStreamPayload where
  | data (bytes : List UInt8) (isLast : Bool)
  | timers
deriving Repr

/-- Failures of the receive loop. `unwound` is a panic of the logical coder,
which the loop does not catch. -/
inductive OutputError where
  | coderDecode (reason : CodersError)
  | decodePanic (leftover : Nat)
  | leftoverBytes (leftover : Nat)
  | boundaryNotOpaque
  | logicalCoder (reason : CodersError)
  | incompletePayload
  | unwound
deriving DecidableEq, Repr

/-- The coders of one output edge. `logicalCoder` is present when the boundary
carries a structured element inside an opaque wire payload. -/
structure OutputEdge where
  coder : WindowedValueCoder
  logicalCoder : Option StandardBeamCoders

def encodeStructuredBoundaryValue (logicalCoder : StandardBeamCoders) (val : WindowedValue) :
    Option WindowedValue := do
  let payload ← logicalCoder.encode val.value
  pure { val with value := .primitive (.bytes payload) }

def decodeStructuredBoundaryValue (logicalCoder : StandardBeamCoders) (val : WindowedValue) :
    Except OutputError WindowedValue :=
  match val.value with
  | .primitive (.bytes payload) => match logicalCoder.decode payload with
      | .ok decoded rest =>
          if rest = [] then .ok { val with value := decoded } else .error .incompletePayload
      | .error reason => .error (.logicalCoder reason)
      | .panic => .error .unwound
  | _ => .error .boundaryNotOpaque

namespace OutputEdge

def opaqueVoid (edge : OutputEdge) : Bool :=
  edge.coder.elementCoder.isVoid

/-- What is stored for a decoded value: a void element keeps the encoded
bytes of its whole frame. -/
def stored (edge : OutputEdge) (raw : List UInt8) (val : WindowedValue) : WindowedValue :=
  if edge.opaqueVoid then { val with value := .primitive (.bytes raw) } else val

def deliver (edge : OutputEdge) (raw : List UInt8) (val : WindowedValue) :
    Except OutputError WindowedValue :=
  match edge.logicalCoder with
  | some logicalCoder => do
      let val ← decodeStructuredBoundaryValue logicalCoder val
      pure (edge.stored raw val)
  | none => pure (edge.stored raw val)

/-- Decode complete elements off the front of the buffer. A frame starts with
an eight byte timestamp, so the buffer's length is enough fuel. -/
def drain (edge : OutputEdge) (streamEnded : Bool) :
    Nat → List UInt8 → List WindowedValue → Except OutputError (List UInt8 × List WindowedValue)
  | 0, buffer, batch => .ok (buffer, batch)
  | fuel + 1, buffer, batch =>
      if buffer = [] then .ok (buffer, batch)
      else match edge.coder.decode buffer with
        | .ok val rest => do
            let val ← edge.deliver (buffer.take (buffer.length - rest.length)) val
            edge.drain streamEnded fuel rest (batch ++ [val])
        | .error reason => .error (.coderDecode reason)
        | .panic =>
            if streamEnded then .error (.decodePanic buffer.length) else .ok (buffer, batch)

def finish (buffer : List UInt8) (batch : List WindowedValue) :
    Except OutputError (List WindowedValue) :=
  if buffer = [] then .ok batch else .error (.leftoverBytes buffer.length)

/-- The receive loop over the messages still in the channel; an exhausted
channel is closed. The result is everything handed to the bundle's writer. -/
def receive (edge : OutputEdge) (buffer : List UInt8) (batch : List WindowedValue) :
    List ElementStreamPayload → Except OutputError (List WindowedValue)
  | [] => finish buffer batch
  | .timers :: messages => edge.receive buffer batch messages
  | .data bytes isLast :: messages => do
      let (buffer, batch) ← edge.drain isLast (buffer ++ bytes).length (buffer ++ bytes) batch
      if isLast then finish buffer batch else edge.receive buffer batch messages

def processOutputElements (edge : OutputEdge) (messages : List ElementStreamPayload) :
    Except OutputError (List WindowedValue) :=
  edge.receive [] [] messages

end OutputEdge

/-- One data message per chunk, the last one closing the stream. -/
def dataMessages : List (List UInt8) → List ElementStreamPayload
  | [] => []
  | [chunk] => [.data chunk true]
  | chunk :: next :: chunks => .data chunk false :: dataMessages (next :: chunks)

/-- Offsets at which a message ends before the stream does. -/
def messageCuts : List (List UInt8) → List Nat
  | [] => []
  | [_] => []
  | chunk :: next :: chunks =>
      chunk.length :: (messageCuts (next :: chunks)).map (chunk.length + ·)

namespace OutputEdge

/-- The delivered form of a list of values, in order. -/
def deliverAll (edge : OutputEdge) : List WindowedValue → List (List UInt8) →
    Except OutputError (List WindowedValue)
  | val :: vals, raw :: raws => do
      let first ← edge.deliver raw val
      let rest ← edge.deliverAll vals raws
      pure (first :: rest)
  | _, _ => pure []

/-- The values and their encodings, framed by the edge's coder. -/
def Framed (edge : OutputEdge) (values : List WindowedValue) (parts : List (List UInt8)) : Prop :=
  List.Forall₂ (fun val raw => raw ≠ [] ∧
    Segment edge.coder.decode raw (edge.coder.underflowProfile val) val) values parts

/-- The signal the whole stream raises when it is cut at each offset. -/
def streamProfile (edge : OutputEdge) (values : List WindowedValue) : List Bool :=
  values.flatMap edge.coder.underflowProfile

variable {edge : OutputEdge} {values : List WindowedValue} {parts : List (List UInt8)}

theorem framed_of_encode (hOpaque : edge.coder.elementCoder.noJavaOpaque = true)
    (hTyped : ∀ val ∈ values, edge.coder.WellTyped val)
    (hParts : values.mapM edge.coder.encode = some parts) : edge.Framed values parts := by
  induction values generalizing parts with
  | nil =>
      have hNil : parts = [] := by simpa using hParts.symm
      rw [hNil]
      exact .nil
  | cons val vals ih =>
      cases hFirst : edge.coder.encode val with
      | none => simp [hFirst] at hParts
      | some raw =>
          cases hRest : vals.mapM edge.coder.encode with
          | none => simp [hFirst, hRest] at hParts
          | some raws =>
              have hEq : parts = raw :: raws := by simpa [hFirst, hRest] using hParts.symm
              rw [hEq]
              refine .cons ⟨WindowedValueCoder.encode_ne_nil hFirst, ?_⟩ ?_
              · exact WindowedValueCoder.encode_segment hOpaque (hTyped val (by simp)) hFirst
              · exact ih (fun other hOther => hTyped other (by simp [hOther])) hRest

theorem Framed.profile_length (h : edge.Framed values parts) :
    (edge.streamProfile values).length = parts.flatten.length := by
  induction h with
  | nil => rfl
  | cons hHead _ ih =>
      rw [streamProfile, List.flatMap_cons, List.length_append, List.flatten_cons,
        List.length_append, hHead.2.length]
      exact congrArg _ ih

/-- A prefix of the stream holds some complete frames and a proper prefix of
the next one. -/
theorem Framed.split (h : edge.Framed values parts) {buffer tail : List UInt8}
    (hStream : buffer ++ tail = parts.flatten) :
    ∃ before after beforeParts afterParts rest, values = before ++ after ∧
      parts = beforeParts ++ afterParts ∧ edge.Framed before beforeParts ∧
      edge.Framed after afterParts ∧ buffer = beforeParts.flatten ++ rest ∧
      rest ++ tail = afterParts.flatten ∧
      (rest = [] ∨ ∃ raw raws, afterParts = raw :: raws ∧ rest.length < raw.length) := by
  induction h generalizing buffer with
  | nil =>
      obtain ⟨rfl, rfl⟩ := List.append_eq_nil_iff.mp hStream
      exact ⟨[], [], [], [], [], rfl, rfl, .nil, .nil, rfl, rfl, Or.inl rfl⟩
  | @cons val raw vals raws hHead hTail ih =>
      rw [List.flatten_cons] at hStream
      by_cases hLong : raw.length ≤ buffer.length
      · obtain ⟨buffer', rfl⟩ : ∃ buffer', buffer = raw ++ buffer' := by
          have hRaw : raw <+: raw ++ raws.flatten := List.prefix_append raw _
          have hPrefix := List.prefix_of_prefix_length_le hRaw ⟨tail, hStream⟩ hLong
          exact hPrefix.imp fun _ hEq => hEq.symm
        rw [List.append_assoc, List.append_cancel_left_eq] at hStream
        obtain ⟨before, after, beforeParts, afterParts, rest, rfl, rfl, hBefore, hAfter, rfl,
          hRest, hShort⟩ := ih hStream
        exact ⟨val :: before, after, raw :: beforeParts, afterParts, rest, rfl, rfl,
          .cons hHead hBefore, hAfter, by simp, hRest, hShort⟩
      · exact ⟨[], val :: vals, [], raw :: raws, buffer, rfl, rfl, .nil, .cons hHead hTail,
          rfl, by simpa using hStream, Or.inr ⟨raw, raws, rfl, by omega⟩⟩

/-- Complete frames are delivered in order, whatever follows them. -/
theorem Framed.drain (h : edge.Framed values parts) (streamEnded : Bool) (rest : List UInt8)
    {fuel : Nat} (hFuel : (parts.flatten ++ rest).length ≤ fuel) (batch : List WindowedValue) :
    ∃ fuel', rest.length ≤ fuel' ∧
      edge.drain streamEnded fuel (parts.flatten ++ rest) batch =
        (edge.deliverAll values parts >>= fun delivered =>
          edge.drain streamEnded fuel' rest (batch ++ delivered)) := by
  induction h generalizing fuel batch with
  | nil => exact ⟨fuel, by simpa using hFuel, by simp [deliverAll]⟩
  | @cons val raw vals raws hHead hTail ih =>
      have hPos : 0 < raw.length := List.length_pos_iff.mpr hHead.1
      rw [List.flatten_cons, List.append_assoc, List.length_append] at hFuel
      obtain ⟨fuel, rfl⟩ : ∃ n, fuel = n + 1 := ⟨fuel - 1, by omega⟩
      have hNonempty : raw ++ (raws.flatten ++ rest) ≠ [] := by simp [hHead.1]
      have hTaken : (raw ++ (raws.flatten ++ rest)).take
          ((raw ++ (raws.flatten ++ rest)).length - (raws.flatten ++ rest).length) = raw := by
        rw [List.length_append, Nat.add_sub_cancel, List.take_left]
      rw [List.flatten_cons, List.append_assoc, OutputEdge.drain, if_neg hNonempty,
        hHead.2.frames]
      simp only [hTaken, deliverAll]
      cases hDeliver : edge.deliver raw val with
      | error reason => exact ⟨rest.length, Nat.le_refl _, rfl⟩
      | ok stored =>
          have hLess : (raws.flatten ++ rest).length ≤ fuel := by omega
          obtain ⟨fuel', hFuel', hDrain⟩ := ih hLess (batch ++ [stored])
          refine ⟨fuel', hFuel', ?_⟩
          show edge.drain streamEnded fuel (raws.flatten ++ rest) (batch ++ [stored]) = _
          rw [hDrain]
          cases edge.deliverAll vals raws with
          | error reason => rfl
          | ok delivered => simp [bind, Except.bind, pure, Except.pure]

/-- The first byte of a frame belongs to its timestamp. -/
private theorem streamProfile_zero (edge : OutputEdge) (values : List WindowedValue) :
    (edge.streamProfile values)[0]? ≠ some true := by
  cases values with
  | nil => simp [streamProfile]
  | cons val vals =>
      have hHeader : 0 < edge.coder.headerLength val := by
        rw [WindowedValueCoder.headerLength]
        omega
      rw [streamProfile, List.flatMap_cons, WindowedValueCoder.underflowProfile, List.append_assoc,
        List.getElem?_append_left (by rw [List.length_replicate]; exact hHeader),
        List.getElem?_replicate, if_pos hHeader]
      decide

/-- A buffer that ends inside the next frame raises that frame's signal. -/
private theorem Framed.decode_rest {rest tail raw : List UInt8} {raws : List (List UInt8)}
    (h : edge.Framed values (raw :: raws)) (hStream : rest ++ tail = (raw :: raws).flatten)
    (hShort : rest.length < raw.length) :
    ∃ flag, (edge.streamProfile values)[rest.length]? = some flag ∧
      (edge.coder.decode rest).Short flag := by
  obtain ⟨val, vals, ⟨_, hSegment⟩, _, rfl⟩ := List.forall₂_cons_right_iff.mp h
  have hBound : rest.length < (edge.coder.underflowProfile val).length := by
    rw [hSegment.length]
    exact hShort
  have hTake : raw.take rest.length = rest := by
    have hEq := congrArg (List.take rest.length) hStream
    rw [List.take_left, List.flatten_cons,
      List.take_append_of_le_length (Nat.le_of_lt hShort)] at hEq
    exact hEq.symm
  refine ⟨_, ?_, hTake ▸ hSegment.short rest.length _ (List.getElem?_eq_getElem hBound)⟩
  rw [streamProfile, List.flatMap_cons, List.getElem?_append_left hBound,
    List.getElem?_eq_getElem hBound]

/-- What the loop does with an incomplete frame before the stream has ended. -/
private theorem Framed.drain_rest (h : edge.Framed values parts) {rest tail : List UInt8}
    (hStream : rest ++ tail = parts.flatten)
    (hShort : rest = [] ∨ ∃ raw raws, parts = raw :: raws ∧ rest.length < raw.length)
    {fuel : Nat} (hFuel : rest.length ≤ fuel) :
    ((edge.streamProfile values)[rest.length]? ≠ some true →
      ∀ batch, edge.drain false fuel rest batch = .ok (rest, batch)) ∧
    ((edge.streamProfile values)[rest.length]? = some true →
      ∃ reason, ∀ batch, edge.drain false fuel rest batch = .error (.coderDecode reason)) := by
  by_cases hEmpty : rest = []
  · subst hEmpty
    refine ⟨fun _ batch => ?_, fun hTrue => absurd hTrue (streamProfile_zero edge values)⟩
    cases fuel <;> simp [OutputEdge.drain]
  · obtain ⟨raw, raws, rfl, hLess⟩ := hShort.resolve_left hEmpty
    obtain ⟨flag, hFlag, hSignal⟩ := h.decode_rest hStream hLess
    have hPos : 0 < rest.length := List.length_pos_iff.mpr hEmpty
    obtain ⟨fuel, rfl⟩ : ∃ n, fuel = n + 1 := ⟨fuel - 1, by omega⟩
    simp only [OutputEdge.drain, if_neg hEmpty, hFlag]
    cases flag with
    | false =>
        have hPanic : edge.coder.decode rest = .panic := hSignal
        exact ⟨fun _ batch => by simp [hPanic], fun hTrue => by cases hTrue⟩
    | true =>
        obtain ⟨reason, hError⟩ := hSignal
        exact ⟨fun hFalse => absurd rfl hFalse, fun _ => ⟨reason, fun batch => by rw [hError]⟩⟩

/-- One message that does not end the stream. Its complete frames are delivered
and the loop waits on the incomplete one, unless the message ends where a short
read is reported as a failure. -/
theorem Framed.drain_message (h : edge.Framed values parts) {buffer tail : List UInt8}
    (hStream : buffer ++ tail = parts.flatten) (batch : List WindowedValue) :
    ∃ before after beforeParts afterParts rest, values = before ++ after ∧
      parts = beforeParts ++ afterParts ∧ edge.Framed before beforeParts ∧
      edge.Framed after afterParts ∧
      buffer.length = (edge.streamProfile before).length + rest.length ∧
      rest ++ tail = afterParts.flatten ∧
      ((edge.streamProfile values)[buffer.length]? ≠ some true →
        edge.drain false buffer.length buffer batch =
          (edge.deliverAll before beforeParts >>= fun delivered =>
            .ok (rest, batch ++ delivered))) ∧
      ((edge.streamProfile values)[buffer.length]? = some true →
        ∃ reason, edge.drain false buffer.length buffer batch =
          (edge.deliverAll before beforeParts >>= fun _ => .error (.coderDecode reason))) := by
  obtain ⟨before, after, beforeParts, afterParts, rest, rfl, rfl, hBefore, hAfter, rfl, hRest,
    hShort⟩ := h.split hStream
  have hLength : (beforeParts.flatten ++ rest).length =
      (edge.streamProfile before).length + rest.length := by
    rw [List.length_append, hBefore.profile_length]
  have hOffset : (edge.streamProfile (before ++ after))[(beforeParts.flatten ++ rest).length]? =
      (edge.streamProfile after)[rest.length]? := by
    rw [hLength, streamProfile, List.flatMap_append]
    exact List.getElem?_append_right (Nat.le_add_right _ _) |>.trans (by
      rw [Nat.add_sub_cancel_left]; rfl)
  obtain ⟨fuel, hFuel, hDrain⟩ := hBefore.drain false rest (Nat.le_refl _) batch
  refine ⟨before, after, beforeParts, afterParts, rest, rfl, rfl, hBefore, hAfter, hLength,
    hRest, ?_, ?_⟩
  · intro hWait
    rw [hDrain]
    congr 1
    funext delivered
    exact (hAfter.drain_rest hRest hShort hFuel).1 (hOffset ▸ hWait) _
  · intro hFail
    rw [hOffset] at hFail
    obtain ⟨reason, hReason⟩ := (hAfter.drain_rest hRest hShort hFuel).2 hFail
    refine ⟨reason, ?_⟩
    rw [hDrain]
    congr 1
    funext delivered
    exact hReason _

private theorem deliverAll_append (edge : OutputEdge) {before : List WindowedValue}
    {beforeParts : List (List UInt8)} (hLength : before.length = beforeParts.length)
    (after : List WindowedValue) (afterParts : List (List UInt8)) :
    edge.deliverAll (before ++ after) (beforeParts ++ afterParts) =
      (edge.deliverAll before beforeParts >>= fun first =>
        edge.deliverAll after afterParts >>= fun second => pure (first ++ second)) := by
  induction before generalizing beforeParts with
  | nil =>
      have hNil : beforeParts = [] := List.length_eq_zero_iff.mp hLength.symm
      simp [hNil, deliverAll]
  | cons val vals ih =>
      cases beforeParts with
      | nil => cases hLength
      | cons raw raws =>
          have hRest : vals.length = raws.length := by simpa using hLength
          simp only [List.cons_append, deliverAll, ih hRest]
          cases edge.deliver raw val with
          | error reason => rfl
          | ok stored =>
              cases edge.deliverAll vals raws with
              | error reason => rfl
              | ok first => cases edge.deliverAll after afterParts <;> rfl

private theorem streamProfile_append (edge : OutputEdge) (before after : List WindowedValue)
    (offset : Nat) :
    (edge.streamProfile (before ++ after))[(edge.streamProfile before).length + offset]? =
      (edge.streamProfile after)[offset]? := by
  rw [streamProfile, List.flatMap_append]
  exact (List.getElem?_append_right (Nat.le_add_right _ _)).trans (by
    rw [Nat.add_sub_cancel_left]; rfl)

private theorem Framed.receive_last (h : edge.Framed values parts) {buffer chunk : List UInt8}
    (hStream : buffer ++ chunk = parts.flatten) (batch : List WindowedValue) :
    edge.receive buffer batch (dataMessages [chunk]) =
      (edge.deliverAll values parts >>= fun delivered => .ok (batch ++ delivered)) := by
  obtain ⟨fuel, _, hDrain⟩ := h.drain true [] (Nat.le_refl _) batch
  rw [List.append_nil, ← hStream] at hDrain
  rw [dataMessages, receive, hDrain]
  cases edge.deliverAll values parts with
  | error reason => rfl
  | ok delivered => cases fuel <;> rfl

/-- The invariant of the receive loop: the buffer and the messages still to
come are the frames of the values not yet delivered. -/
theorem Framed.receive (chunks : List (List UInt8)) (h : edge.Framed values parts)
    {buffer : List UInt8} (hStream : buffer ++ chunks.flatten = parts.flatten)
    (hBuffer : chunks = [] → buffer = []) (batch : List WindowedValue)
    (hCuts : ∀ cut ∈ messageCuts chunks,
      (edge.streamProfile values)[buffer.length + cut]? ≠ some true) :
    edge.receive buffer batch (dataMessages chunks) =
      (edge.deliverAll values parts >>= fun delivered => .ok (batch ++ delivered)) := by
  induction chunks generalizing values parts buffer batch with
  | nil =>
      have hEmpty := hBuffer rfl
      subst hEmpty
      have hParts : parts = [] := by
        cases h with
        | nil => rfl
        | cons hHead _ => simp [hHead.1] at hStream
      subst hParts
      cases h
      simp [dataMessages, OutputEdge.receive, finish, deliverAll]
  | cons chunk chunks ih =>
      cases chunks with
      | nil => exact h.receive_last (by simpa using hStream) batch
      | cons next chunks =>
          rw [List.flatten_cons, ← List.append_assoc] at hStream
          obtain ⟨before, after, beforeParts, afterParts, rest, rfl, rfl, hBefore, hAfter, hLength,
            hRest, hWait, _⟩ := h.drain_message hStream batch
          have hFirst := hCuts chunk.length (by simp [messageCuts])
          rw [← List.length_append] at hFirst
          rw [dataMessages, OutputEdge.receive, hWait hFirst,
            deliverAll_append edge hBefore.length_eq]
          cases edge.deliverAll before beforeParts with
          | error reason => rfl
          | ok delivered =>
              have hLater : ∀ cut ∈ messageCuts (next :: chunks),
                  (edge.streamProfile after)[rest.length + cut]? ≠ some true := by
                intro cut hCut
                have hAt := hCuts (chunk.length + cut) (by simp [messageCuts, hCut])
                rw [← Nat.add_assoc, ← List.length_append, hLength, Nat.add_assoc,
                  streamProfile_append] at hAt
                exact hAt
              have hNext := ih hAfter hRest (by simp) (batch ++ delivered) hLater
              refine Eq.trans hNext ?_
              cases edge.deliverAll after afterParts with
              | error reason => rfl
              | ok others => exact congrArg Except.ok (List.append_assoc _ _ _)

/-- Without a logical coder every decoded value is stored. -/
private theorem Framed.deliverAll_plain (hPlain : edge.logicalCoder = none)
    (h : edge.Framed values parts) :
    edge.deliverAll values parts = .ok (List.zipWith edge.stored parts values) := by
  induction h with
  | nil => rfl
  | cons _ _ ih =>
      rw [deliverAll, deliver, hPlain, ih]
      rfl

/-- The stored form of a list of framed values: void elements keep the bytes of
their frames, every other element is stored as it was encoded. -/
private theorem Framed.zipWith_stored (h : edge.Framed values parts) :
    List.zipWith edge.stored parts values =
      if edge.coder.elementCoder.isVoid then
        List.zipWith (fun raw val => { val with value := .primitive (.bytes raw) }) parts values
      else values := by
  cases hVoid : edge.coder.elementCoder.isVoid with
  | true =>
      have hStored : edge.stored =
          fun raw val => { val with value := .primitive (.bytes raw) } := by
        funext raw val
        rw [stored, opaqueVoid, hVoid, if_pos rfl]
      rw [hStored, if_pos rfl]
  | false =>
      have hStored : edge.stored = fun _ val => val := by
        funext raw val
        rw [stored, opaqueVoid, hVoid, if_neg (by decide)]
      rw [hStored, if_neg (by decide)]
      induction h with
      | nil => rfl
      | cons _ _ ih => rw [List.zipWith_cons_cons, ih]

/-- The bytes of a bundle's output may be cut anywhere a short read unwinds:
the loop stores the encoded values in order, as it does for a single message. -/
theorem processOutputElements_chunked (coder : WindowedValueCoder) (values : List WindowedValue)
    (parts chunks : List (List UInt8)) (hOpaque : coder.elementCoder.noJavaOpaque = true)
    (hTyped : ∀ val ∈ values, coder.WellTyped val)
    (hParts : values.mapM coder.encode = some parts) (hChunks : chunks.flatten = parts.flatten)
    (hCuts : ∀ cut ∈ messageCuts chunks,
      (streamProfile ⟨coder, none⟩ values)[cut]? ≠ some true) :
    processOutputElements ⟨coder, none⟩ (dataMessages chunks) =
        .ok (if coder.elementCoder.isVoid then
            List.zipWith (fun raw val => { val with value := .primitive (.bytes raw) })
              parts values
          else values) ∧
      processOutputElements ⟨coder, none⟩ (dataMessages chunks) =
        processOutputElements ⟨coder, none⟩ (dataMessages [parts.flatten]) := by
  have hFramed : Framed ⟨coder, none⟩ values parts := framed_of_encode hOpaque hTyped hParts
  have hDelivered := hFramed.deliverAll_plain rfl
  have hStream : [] ++ chunks.flatten = parts.flatten := hChunks
  have hOne : [] ++ [parts.flatten].flatten = parts.flatten := by simp
  have hRun := hFramed.receive chunks hStream (fun _ => rfl) [] (by simpa using hCuts)
  have hWhole := hFramed.receive [parts.flatten] hOne (fun _ => rfl) [] (by simp [messageCuts])
  refine ⟨?_, hRun.trans hWhole.symm⟩
  rw [hDelivered, hFramed.zipWith_stored] at hRun
  exact hRun

/-- Two keyed elements, cut inside the first timestamp, inside its two byte key
and between the two frames. -/
theorem processOutputElements_chunked_kv :
    ∃ parts : List (List UInt8),
      [WindowedValue.mk (.kv (.int64 300) (.primitive (.bytes [7]))) 5 [.global] .noFiring,
        WindowedValue.mk (.kv (.int64 1) (.primitive (.bytes []))) 6 [.global] .noFiring].mapM
          (WindowedValueCoder.encode ⟨.kv .varInt .bytes, .global⟩) = some parts ∧
      processOutputElements ⟨⟨.kv .varInt .bytes, .global⟩, none⟩
          (dataMessages [parts.flatten.take 3, (parts.flatten.drop 3).take 11,
            (parts.flatten.drop 14).take 3, parts.flatten.drop 17]) =
        .ok [WindowedValue.mk (.kv (.int64 300) (.primitive (.bytes [7]))) 5 [.global] .noFiring,
          WindowedValue.mk (.kv (.int64 1) (.primitive (.bytes []))) 6 [.global] .noFiring] := by
  refine ⟨_, rfl, ?_⟩
  refine (processOutputElements_chunked ⟨.kv .varInt .bytes, .global⟩
    [⟨.kv (.int64 300) (.primitive (.bytes [7])), 5, [.global], .noFiring⟩,
      ⟨.kv (.int64 1) (.primitive (.bytes [])), 6, [.global], .noFiring⟩] _ _ rfl ?_ rfl
    (by decide) (by decide)).1
  intro val hMem
  simp only [List.mem_cons, List.not_mem_nil, or_false] at hMem
  rcases hMem with rfl | rfl
  · exact ⟨⟨trivial, (by decide : [(7 : UInt8)].length < 2 ^ 64)⟩, by decide,
      by simp [BeamWindow.Fits]⟩
  · exact ⟨⟨trivial, (by decide : ([] : List UInt8).length < 2 ^ 64)⟩, by decide,
      by simp [BeamWindow.Fits]⟩

/-- A void element does not come back as itself: its frame is kept instead. -/
theorem not_processOutputElements_original :
    ¬ ∀ (coder : WindowedValueCoder) (values : List WindowedValue)
      (parts chunks : List (List UInt8)), coder.elementCoder.noJavaOpaque = true →
      (∀ val ∈ values, coder.WellTyped val) → values.mapM coder.encode = some parts →
      chunks.flatten = parts.flatten →
      processOutputElements ⟨coder, none⟩ (dataMessages chunks) = .ok values ∧
        processOutputElements ⟨coder, none⟩ (dataMessages chunks) =
          processOutputElements ⟨coder, none⟩ (dataMessages [parts.flatten]) := by
  intro h
  have hVoid := (h ⟨.void, .global⟩ [⟨.primitive .void, 0, [.global], .noFiring⟩] _
    [[128, 0, 0, 0, 0, 0, 0, 0, 0, 0, 0, 1, 15]] rfl (by
      intro val hMem
      rw [List.mem_singleton.mp hMem]
      exact ⟨trivial, by decide, by simp [BeamWindow.Fits]⟩) rfl rfl).1
  injection hVoid with hVoid
  injection hVoid with hVal _
  injection hVal with hValue _ _ _
  injection hValue with hPrimitive
  cases hPrimitive

private theorem Framed.receive_reported (chunks : List (List UInt8))
    (hPlain : edge.logicalCoder = none) (h : edge.Framed values parts) {buffer : List UInt8}
    (hStream : buffer ++ chunks.flatten = parts.flatten) (batch : List WindowedValue) {cut : Nat}
    (hCut : cut ∈ messageCuts chunks)
    (hFail : (edge.streamProfile values)[buffer.length + cut]? = some true) :
    ∃ reason, edge.receive buffer batch (dataMessages chunks) = .error (.coderDecode reason) := by
  induction chunks generalizing values parts buffer batch cut with
  | nil => simp [messageCuts] at hCut
  | cons chunk chunks ih =>
      cases chunks with
      | nil => simp [messageCuts] at hCut
      | cons next chunks =>
          rw [List.flatten_cons, ← List.append_assoc] at hStream
          obtain ⟨before, after, beforeParts, afterParts, rest, rfl, rfl, hBefore, hAfter, hLength,
            hRest, hWait, hReport⟩ := h.drain_message hStream batch
          rw [dataMessages, OutputEdge.receive]
          rw [hBefore.deliverAll_plain hPlain] at hWait hReport
          by_cases hNow : (edge.streamProfile (before ++ after))[(buffer ++ chunk).length]? =
              some true
          · obtain ⟨reason, hDrain⟩ := hReport hNow
            exact ⟨reason, by rw [hDrain]; rfl⟩
          · rw [hWait hNow]
            rw [messageCuts, List.mem_cons, List.mem_map] at hCut
            rcases hCut with rfl | ⟨later, hLater, rfl⟩
            · rw [← List.length_append] at hFail
              exact absurd hFail hNow
            · rw [← Nat.add_assoc, ← List.length_append, hLength, Nat.add_assoc,
                streamProfile_append] at hFail
              exact ih hAfter hRest _ hLater hFail

/-- A message that ends right before or inside the eight bytes of a double, or
between a length prefix and the end of its non-empty body, is not waited on: the
short read is reported and fails the bundle. -/
theorem processOutputElements_reported (coder : WindowedValueCoder) (values : List WindowedValue)
    (parts chunks : List (List UInt8)) (hOpaque : coder.elementCoder.noJavaOpaque = true)
    (hTyped : ∀ val ∈ values, coder.WellTyped val)
    (hParts : values.mapM coder.encode = some parts) (hChunks : chunks.flatten = parts.flatten)
    {cut : Nat} (hCut : cut ∈ messageCuts chunks)
    (hFail : (streamProfile ⟨coder, none⟩ values)[cut]? = some true) :
    ∃ reason, processOutputElements ⟨coder, none⟩ (dataMessages chunks) =
      .error (.coderDecode reason) := by
  have hFramed : Framed ⟨coder, none⟩ values parts := framed_of_encode hOpaque hTyped hParts
  have hStream : [] ++ chunks.flatten = parts.flatten := hChunks
  exact hFramed.receive_reported chunks rfl hStream [] hCut (by simpa using hFail)

/-- A structured element comes back out of the opaque payload that carries it
over the boundary. -/
theorem decodeStructuredBoundaryValue_encode {logicalCoder : StandardBeamCoders}
    {val wire : WindowedValue} (hOpaque : logicalCoder.noJavaOpaque = true)
    (hTyped : logicalCoder.WellTyped val.value)
    (hWire : encodeStructuredBoundaryValue logicalCoder val = some wire) :
    decodeStructuredBoundaryValue logicalCoder wire = .ok val := by
  obtain ⟨payload, hPayload, hEq⟩ := Option.bind_eq_some_iff.mp hWire
  cases hEq
  have hSegment := logicalCoder.encode_segment val.value payload hOpaque hTyped hPayload
  have hDecoded : logicalCoder.decode payload = .ok val.value [] := by
    have hFrames := hSegment.frames []
    rwa [List.append_nil] at hFrames
  simp [decodeStructuredBoundaryValue, hDecoded]

private theorem Framed.deliverAll_structured {logicalCoder : StandardBeamCoders}
    (hLogical : edge.logicalCoder = some logicalCoder)
    (hVoid : edge.coder.elementCoder.isVoid = false)
    (hOpaque : logicalCoder.noJavaOpaque = true) {originals : List WindowedValue}
    (hTyped : ∀ val ∈ originals, logicalCoder.WellTyped val.value)
    (hWire : originals.mapM (encodeStructuredBoundaryValue logicalCoder) = some values)
    (h : edge.Framed values parts) : edge.deliverAll values parts = .ok originals := by
  induction h generalizing originals with
  | nil =>
      cases originals with
      | nil => rfl
      | cons val vals => simp [Option.bind_eq_some_iff] at hWire
  | @cons wire raw wires raws hHead hTail ih =>
      cases originals with
      | nil => simp at hWire
      | cons val vals =>
          simp only [List.mapM_cons, Option.bind_eq_bind, Option.bind_eq_some_iff,
            Option.pure_def, Option.some.injEq, List.cons.injEq] at hWire
          obtain ⟨first, hFirst, rest, hRest, rfl, rfl⟩ := hWire
          have hDecoded := decodeStructuredBoundaryValue_encode hOpaque (hTyped val (by simp)) hFirst
          have hStored : edge.stored raw val = val := by simp [stored, opaqueVoid, hVoid]
          rw [deliverAll, deliver, hLogical,
            ih (fun other hOther => hTyped other (by simp [hOther])) hRest]
          simp [hDecoded, hStored, bind, Except.bind, pure, Except.pure]

/-- Over a boundary that carries structured elements in opaque payloads, the
original elements come back whatever the messages, under the same condition on
where a message ends. -/
theorem processOutputElements_structured (edge : OutputEdge) (logicalCoder : StandardBeamCoders)
    (originals wires : List WindowedValue) (parts chunks : List (List UInt8))
    (hLogical : edge.logicalCoder = some logicalCoder)
    (hVoid : edge.coder.elementCoder.isVoid = false)
    (hOpaque : logicalCoder.noJavaOpaque = true)
    (hTyped : ∀ val ∈ originals, logicalCoder.WellTyped val.value)
    (hWire : originals.mapM (encodeStructuredBoundaryValue logicalCoder) = some wires)
    (hWireOpaque : edge.coder.elementCoder.noJavaOpaque = true)
    (hWireTyped : ∀ val ∈ wires, edge.coder.WellTyped val)
    (hParts : wires.mapM edge.coder.encode = some parts)
    (hChunks : chunks.flatten = parts.flatten)
    (hCuts : ∀ cut ∈ messageCuts chunks, (edge.streamProfile wires)[cut]? ≠ some true) :
    edge.processOutputElements (dataMessages chunks) = .ok originals := by
  have hFramed : edge.Framed wires parts := framed_of_encode hWireOpaque hWireTyped hParts
  have hStream : [] ++ chunks.flatten = parts.flatten := hChunks
  have hRun := hFramed.receive chunks hStream (fun _ => rfl) [] (by simpa using hCuts)
  rw [hFramed.deliverAll_structured hLogical hVoid hOpaque hTyped hWire] at hRun
  exact hRun

end OutputEdge
end FlareDB
