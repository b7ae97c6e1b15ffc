import FlareDB.Engine.BundleInput

/-! From one stage to the next. The elements of a PCollection are read from the
stage that produces them, stored, and sent to a stage that consumes them. -/
namespace FlareDB

namespace BoundaryCoders

variable (coders : BoundaryCoders)

/-- The edge that the output of the producing stage is read with. -/
def outputEdge : OutputEdge where
  coder := coders.wire
  logicalCoder := if coders.structuredPayload then some coders.logical else none

/-- The elements as the producing stage puts them on the wire. -/
def wireForms (values : List WindowedValue) : Option (List WindowedValue) :=
  if coders.structuredPayload then values.mapM (encodeStructuredBoundaryValue coders.logical)
  else some values

/-- What the producing stage may write: elements that its coders can write and read
back. -/
structure Writes (values wires : List WindowedValue) (parts : List (List UInt8)) : Prop where
  void : coders.wire.elementCoder.isVoid = coders.logical.isVoid
  structured : coders.structuredPayload = true → coders.logical.noJavaOpaque = true ∧
    ∀ val ∈ values, coders.logical.WellTyped val.value
  wireDelimited : coders.wire.elementCoder.noJavaOpaque = true
  onWire : coders.wireForms values = some wires
  wireTyped : ∀ val ∈ wires, coders.wire.WellTyped val
  parts : wires.mapM coders.wire.encode = some parts

variable {coders : BoundaryCoders} {values wires : List WindowedValue} {parts : List (List UInt8)}

theorem encodeElement_of_wire {pcollectionId : String} {row wire : WindowedValue}
    {part : List UInt8} (hVoid : coders.logical.isVoid = false)
    (hWire : (if coders.structuredPayload then encodeStructuredBoundaryValue coders.logical row
      else some row) = some wire) (hPart : coders.wire.encode wire = some part) :
    coders.encodeElement pcollectionId row = .ok part := by
  rw [encodeElement, hVoid, if_neg Bool.false_ne_true]
  dsimp only
  rw [hWire, Option.bind_some, hPart]

/-- A frame that was kept as it came goes out as it came. -/
theorem encodeElement_void {pcollectionId : String} (hVoid : coders.logical.isVoid = true)
    (hLength : parts.length = values.length) :
    List.Forall₂ (fun row part => coders.encodeElement pcollectionId row = .ok part)
      (List.zipWith (fun raw val => { val with value := .primitive (.bytes raw) }) parts values)
      parts := by
  induction parts generalizing values with
  | nil => exact .nil
  | cons part parts ih =>
      cases values with
      | nil => cases hLength
      | cons val values =>
          rw [List.zipWith_cons_cons]
          refine .cons ?_ (ih (Nat.succ.inj hLength))
          rw [encodeElement, if_pos hVoid]

theorem not_isVoid_of_structuredPayload (h : coders.structuredPayload = true) :
    coders.logical.isVoid = false := by
  have hStructured := (Bool.and_eq_true_iff.mp h).2
  cases hVoid : coders.logical.isVoid with
  | false => rfl
  | true =>
      cases hLogical : coders.logical <;> rw [hLogical] at hVoid hStructured <;> cases hVoid
      cases hStructured

/-- The rows the runner stores are encoded to the very bytes they were read from. -/
theorem Writes.stored (h : coders.Writes values wires parts) (pcollectionId : String)
    {chunks : List (List UInt8)} (hChunks : chunks.flatten = parts.flatten)
    (hCuts : ∀ cut ∈ messageCuts chunks, (coders.outputEdge.streamProfile wires)[cut]? ≠ some true) :
    ∃ rows, coders.outputEdge.processOutputElements (dataMessages chunks) = .ok rows ∧
      List.Forall₂ (fun row part => coders.encodeElement pcollectionId row = .ok part) rows parts := by
  have hParts := Results.forall₂_of_mapM_eq_some h.parts
  have hOnWire := h.onWire
  rw [wireForms] at hOnWire
  cases hStructured : coders.structuredPayload with
  | true =>
      rw [hStructured, if_pos rfl] at hOnWire
      have hNotVoid := not_isVoid_of_structuredPayload hStructured
      obtain ⟨hDelimited, hTyped⟩ := h.structured hStructured
      refine ⟨values, OutputEdge.processOutputElements_structured coders.outputEdge coders.logical
        values wires parts chunks ?_ (h.void.trans hNotVoid) hDelimited hTyped hOnWire
        h.wireDelimited h.wireTyped h.parts hChunks hCuts, ?_⟩
      · rw [outputEdge, hStructured]
        rfl
      · refine Results.forall₂_compose (Results.forall₂_of_mapM_eq_some hOnWire).flip hParts
          fun wire row part hWire hPart => encodeElement_of_wire hNotVoid ?_ hPart
        rw [hStructured, if_pos rfl]
        exact hWire
  | false =>
      rw [hStructured, if_neg Bool.false_ne_true] at hOnWire
      cases hOnWire
      have hEdge : coders.outputEdge = ⟨coders.wire, none⟩ := by
        rw [outputEdge, hStructured]
        rfl
      rw [hEdge] at hCuts ⊢
      have hRun := (OutputEdge.processOutputElements_chunked coders.wire values parts chunks
        h.wireDelimited h.wireTyped h.parts hChunks hCuts).1
      refine ⟨_, hRun, ?_⟩
      rw [h.void]
      cases hVoid : coders.logical.isVoid with
      | true =>
          rw [if_pos rfl]
          exact encodeElement_void hVoid hParts.length_eq.symm
      | false =>
          rw [if_neg Bool.false_ne_true]
          refine hParts.imp fun row part hPart => encodeElement_of_wire hVoid ?_ hPart
          rw [hStructured]
          rfl

theorem encoded_unique {pcollectionId : String} {rows : List WindowedValue}
    {other : List (List UInt8)}
    (h : List.Forall₂ (fun row part => coders.encodeElement pcollectionId row = .ok part) rows parts)
    (hOther : List.Forall₂ (fun row part => coders.encodeElement pcollectionId row = .ok part) rows
      other) : other = parts := by
  have hSame : List.Forall₂ Eq other parts :=
    Results.forall₂_compose hOther h fun row first second hFirst hSecond =>
      Except.ok.inj (hFirst.symm.trans hSecond)
  rwa [List.forall₂_eq_eq_eq] at hSame

/-- An element crosses from one stage to the next unchanged: what the producing
stage has written, in whatever messages, is what the consuming stage is sent, in
whatever chunks. Each chunk is of whole elements, and the end comes after all. -/
theorem elements_cross_unchanged (h : coders.Writes values wires parts)
    {chunks : List (List UInt8)} (hChunks : chunks.flatten = parts.flatten)
    (hCuts : ∀ cut ∈ messageCuts chunks, (coders.outputEdge.streamProfile wires)[cut]? ≠ some true) :
    ∃ rows, coders.outputEdge.processOutputElements (dataMessages chunks) = .ok rows ∧
      ∀ (task : InputTask) (conditions : InputConditions) (initial : TimerStore)
        (batches : List (List WindowedValue)), task.coders = coders → batches.flatten = rows →
        (∀ pump, task.processInputElements conditions initial false batches = .ok pump →
          ∃ groups : List (List (List UInt8)), groups.flatten = parts ∧
            (∀ group ∈ groups, group ≠ []) ∧
            pump.sent = groups.map (fun group => task.chunk group.flatten) ++
              [task.terminators]) ∧
        (∀ reason pump, task.processInputElements conditions initial false batches =
            .error (reason, pump) →
          ∃ groups : List (List (List UInt8)), groups.flatten <+: parts ∧
            pump.sent = groups.map (fun group => task.chunk group.flatten)) ∧
        ((∀ message, conditions.sendFails message = false) →
          (∀ batch, conditions.applyFails batch = false) → conditions.scanFails = false →
          task.windowExpirationTimers = [] →
          ∃ pump, task.processInputElements conditions initial false batches = .ok pump) := by
  obtain ⟨rows, hRows, -⟩ := h.stored "" hChunks hCuts
  refine ⟨rows, hRows, fun task conditions initial batches hCoders hBatches => ?_⟩
  subst hCoders
  obtain ⟨same, hSame, hEncoded⟩ := h.stored task.pcollectionId hChunks hCuts
  cases hSame.symm.trans hRows
  have hEnds := task.processInputElements_ends conditions initial false batches
  have hInput : InputTask.inputRows false batches = rows := hBatches
  rw [hInput] at hEnds
  refine ⟨fun pump hResult => ?_, fun reason pump hResult => ?_, fun hSend hApply hScan hNone => ?_⟩
  · rw [hResult] at hEnds
    obtain ⟨groups, hEncodes, hSent⟩ := hEnds.sent
    have hParts := hEncodes.parts
    rw [List.append_nil] at hParts
    exact ⟨groups, encoded_unique hEncoded hParts, hEncodes.nonempty, hSent⟩
  · rw [hResult] at hEnds
    obtain ⟨seen, hSeen, applied, hStopped⟩ := hEnds
    obtain ⟨groups, tail, hEncodes, hSent, -⟩ := hStopped.sent
    have hTaken := List.forall₂_take seen.length hEncoded
    rw [← List.prefix_iff_eq_take.mp hSeen] at hTaken
    refine ⟨groups, (List.prefix_append groups.flatten tail).trans ?_, hSent⟩
    rw [encoded_unique hTaken hEncodes.parts]
    exact List.take_prefix _ _
  · refine InputTask.processInputElements_succeeds hSend hApply hScan initial false fun row hRow => ?_
    rw [hBatches] at hRow
    obtain ⟨part, -, hPart⟩ := Results.forall₂_left hEncoded hRow
    refine ⟨⟨part, hPart⟩, [], ?_⟩
    rw [windowExpirationTimerEntries, hNone]
    rfl

/-- Two keyed elements that cross a boundary as opaque bytes. -/
def opaqueCoders : BoundaryCoders where
  logical := .kv .varInt .bytes
  sibling := some .lengthPrefix
  windowCoder := .global

def crossingRows : List WindowedValue :=
  [⟨.kv (.int64 300) (.primitive (.bytes [7])), 5, [.global], .noFiring⟩,
    ⟨.kv (.int64 1) (.primitive (.bytes [])), 6, [.global], .noFiring⟩]

def crossingWires : List WindowedValue :=
  [⟨.primitive (.bytes [172, 2, 1, 7]), 5, [.global], .noFiring⟩,
    ⟨.primitive (.bytes [1, 0]), 6, [.global], .noFiring⟩]

def crossingFrames : List (List UInt8) :=
  [[128, 0, 0, 0, 0, 0, 0, 5, 0, 0, 0, 1, 15, 4, 172, 2, 1, 7],
    [128, 0, 0, 0, 0, 0, 0, 6, 0, 0, 0, 1, 15, 2, 1, 0]]

/-- The messages end inside the first timestamp and between the two frames. -/
def crossingChunks : List (List UInt8) :=
  [[128, 0, 0], [0, 0, 0, 0, 5, 0, 0, 0, 1, 15, 4, 172, 2, 1, 7],
    [128, 0, 0, 0, 0, 0, 0, 6, 0, 0, 0, 1, 15, 2, 1, 0]]

theorem elements_cross_unchanged_opaque :
    ∃ rows, opaqueCoders.outputEdge.processOutputElements (dataMessages crossingChunks) =
      .ok rows := by
  have hTyped : ∀ val ∈ crossingRows, opaqueCoders.logical.WellTyped val.value := by
    intro val hVal
    rcases List.mem_pair.mp hVal with rfl | rfl
    · exact ⟨trivial, (by decide : [(7 : UInt8)].length < 2 ^ 64)⟩
    · exact ⟨trivial, (by decide : ([] : List UInt8).length < 2 ^ 64)⟩
  have hWireTyped : ∀ val ∈ crossingWires, opaqueCoders.wire.WellTyped val := by
    intro val hVal
    rcases List.mem_pair.mp hVal with rfl | rfl
    · exact ⟨(by decide : [(172 : UInt8), 2, 1, 7].length < 2 ^ 64), by decide,
        by simp [BeamWindow.Fits]⟩
    · exact ⟨(by decide : [(1 : UInt8), 0].length < 2 ^ 64), by decide,
        by simp [BeamWindow.Fits]⟩
  have hWrites : opaqueCoders.Writes crossingRows crossingWires crossingFrames :=
    ⟨rfl, fun _ => ⟨rfl, hTyped⟩, rfl, rfl, hWireTyped, rfl⟩
  have hCuts : ∀ cut ∈ messageCuts crossingChunks,
      (opaqueCoders.outputEdge.streamProfile crossingWires)[cut]? ≠ some true := by
    decide
  obtain ⟨rows, hRows, -⟩ := elements_cross_unchanged hWrites
    (show crossingChunks.flatten = crossingFrames.flatten from rfl) hCuts
  exact ⟨rows, hRows⟩

end BoundaryCoders

end FlareDB
