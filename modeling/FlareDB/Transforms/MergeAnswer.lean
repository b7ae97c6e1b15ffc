import FlareDB.Coders.Framing
import FlareDB.Transforms.GbkMergeFlush

/-! The answer of an SDK to a merge request: its wire form, and what an accepted
answer does to the elements of the windows it merges. -/
namespace FlareDB

open ByteDecoder KeyedStore

/-! Decoding. A missing count or nonce is reported; a short header or window
unwinds. -/

abbrev MergeDecoder (α : Type) := Decoder String α

def decodeCount : MergeDecoder Nat := do
  let remaining ← Decoder.remaining
  if remaining < 4 then Decoder.fail "MergeWindows output ended before an iterable length"
  else do
    let count ← getI32.mapError CodersError.text
    if count < 0 then Decoder.fail "MergeWindows output used an unsupported chunked iterable"
    else pure count.toNat

def decodeNestedBytes : MergeDecoder (List UInt8) := do
  let len ← decodeVarint.mapError CodersError.text
  Decoder.takeChecked "MergeWindows output ended before its nonce" len.toNat

def decodeWindowFrom (windowCoder : WindowCoder) : MergeDecoder BeamWindow :=
  (decodeOneWindow windowCoder).mapError CodersError.text

def decodeWindowIterable (windowCoder : WindowCoder) : MergeDecoder (List BeamWindow) := do
  let count ← decodeCount
  (decodeWindowFrom windowCoder).times count

/-- Timestamp, windows and pane in front of an element. -/
def decodeWindowedValueHeader (coder : WindowCoder) :
    MergeDecoder (Int64 × List BeamWindow × PaneInfo) := do
  let timestampMillis ← decodeTimestampMillis.mapError CodersError.text
  let windows ← (decodeWindows coder).mapError CodersError.text
  let pane ← decodePaneInfo.mapError CodersError.text
  pure (timestampMillis, windows, pane)

/-- One merge and the windows it consumes. -/
def decodeMerge (windowCoder : WindowCoder) : MergeDecoder MergedWindows := do
  let merged ← decodeWindowFrom windowCoder
  let originals ← decodeWindowIterable windowCoder
  pure { merged, originals }

/-- A window left alone. -/
def MergedWindows.unmerged (window : BeamWindow) : MergedWindows where
  merged := window
  originals := [window]

def decodeMergeOutputElement (windowCoder : WindowCoder) :
    MergeDecoder (List UInt8 × List MergedWindows) := do
  let (_, outerWindows, _) ← decodeWindowedValueHeader .global
  if outerWindows ≠ [.global] then
    Decoder.fail "MergeWindows output must be in the global window"
  else do
    let nonce ← decodeNestedBytes
    let unmerged ← decodeWindowIterable windowCoder
    let pairCount ← decodeCount
    let merges ← (decodeMerge windowCoder).times pairCount
    pure (nonce, unmerged.map MergedWindows.unmerged ++ merges)

/-- The loop over the elements of an answer. Every element reads a header, so
one more round than there are bytes is enough. -/
def decodeMergeOutputs (windowCoder : WindowCoder) :
    Nat → MergeDecoder (List (List UInt8 × List MergedWindows))
  | 0 => Decoder.abort
  | fuel + 1 => do
      let remaining ← Decoder.remaining
      if remaining = 0 then pure []
      else do
        let result ← decodeMergeOutputElement windowCoder
        let results ← decodeMergeOutputs windowCoder fuel
        pure (result :: results)

def decodeMergeOutputBatch (windowCoder : WindowCoder) :
    MergeDecoder (List (List UInt8 × List MergedWindows)) := do
  let remaining ← Decoder.remaining
  decodeMergeOutputs windowCoder (remaining + 1)

/-! The wire form. -/

/-- One element of an SDK's answer. -/
structure MergeOutput where
  nonce : List UInt8
  unmerged : List BeamWindow
  merges : List MergedWindows

def encodeMerge (windowCoder : WindowCoder) (merge : MergedWindows) : Option (List UInt8) := do
  let merged ← windowCoder.encodeWindow merge.merged
  let originals ← encodeWindows merge.originals windowCoder
  pure (merged ++ originals)

def outputWithMerge (windowCoder : WindowCoder) (output : MergeOutput) : Option (List UInt8) := do
  let outer ← encodeWindows [.global] .global
  let unmerged ← encodeWindows output.unmerged windowCoder
  let merges ← output.merges.mapM (encodeMerge windowCoder)
  pure (encodeTimestampMillis beamMinTimestampMillis ++ (outer ++ (encodePaneInfo .noFiring ++
    (encodeLengthDelimited output.nonce ++ (unmerged ++
      (putI32 output.merges.length ++ merges.flatten))))))

/-- What an element of an answer says. -/
def MergeOutput.decoded (output : MergeOutput) : List UInt8 × List MergedWindows :=
  (output.nonce, output.unmerged.map MergedWindows.unmerged ++ output.merges)

/-! Reading the wire form back. -/

/-- A merge of windows of one coder whose count can be declared. -/
structure MergedWindows.Fits (windowCoder : WindowCoder) (merge : MergedWindows) : Prop where
  merged : windowCoder.Matches merge.merged
  originals : ∀ window ∈ merge.originals, windowCoder.Matches window
  count : merge.originals.length < 2 ^ 31

structure MergeOutput.Fits (windowCoder : WindowCoder) (output : MergeOutput) : Prop where
  nonce : output.nonce.length < 2 ^ 64
  unmerged : ∀ window ∈ output.unmerged, windowCoder.Matches window
  unmergedCount : output.unmerged.length < 2 ^ 31
  merges : ∀ merge ∈ output.merges, merge.Fits windowCoder
  mergesCount : output.merges.length < 2 ^ 31

/-- A count is read back from its own bytes. -/
theorem decodeCount_delimited {count : Nat} (h : count < 2 ^ 31) :
    Delimited decodeCount (putI32 count) count := by
  have hRead := (putI32_segment (Nat.le_of_lt_succ h)).delimited.mapError CodersError.text
  refine Delimited.guarded (hRead.bind_pure ?_)
    (show 4 ≤ (putI32 count).length by rw [putI32, BigEndian.toBytes_length]) _
  rw [if_neg (by omega), Int.toNat_natCast]

/-- A nonce is read back from under its length. -/
theorem decodeNestedBytes_delimited {nonce : List UInt8} (h : nonce.length < 2 ^ 64) :
    Delimited decodeNestedBytes (encodeLengthDelimited nonce) nonce := by
  have hLength : (UInt64.ofNat nonce.length).toNat = nonce.length := UInt64.toNat_ofNat_of_lt' h
  refine ((encodeVarint_segment _).delimited.mapError _).bind ?_
  rw [hLength]
  exact (Reported.takeChecked _ nonce).delimited

/-- A window is read back by its coder. -/
theorem decodeWindowFrom_delimited {windowCoder : WindowCoder} {window : BeamWindow}
    (h : windowCoder.Matches window) {bytes : List UInt8}
    (hBytes : windowCoder.encodeWindow window = some bytes) :
    Delimited (decodeWindowFrom windowCoder) bytes window :=
  (encodeWindow_unwinding h.fits hBytes).delimited.mapError _

/-- So is a list of windows. -/
theorem decodeWindowIterable_delimited {windowCoder : WindowCoder} {windows : List BeamWindow}
    (h : ∀ window ∈ windows, windowCoder.Matches window) (hCount : windows.length < 2 ^ 31)
    {bytes : List UInt8} (hBytes : encodeWindows windows windowCoder = some bytes) :
    Delimited (decodeWindowIterable windowCoder) bytes windows := by
  obtain ⟨parts, hParts, rfl⟩ := Option.map_eq_some_iff.mp hBytes
  exact (decodeCount_delimited hCount).bind (Delimited.times windows
    (fun window hMem _ hWindow => decodeWindowFrom_delimited (h window hMem) hWindow) hParts)

/-- So is a merge with its originals. -/
theorem decodeMerge_delimited {windowCoder : WindowCoder} {merge : MergedWindows}
    (h : merge.Fits windowCoder) {bytes : List UInt8}
    (hBytes : encodeMerge windowCoder merge = some bytes) :
    Delimited (decodeMerge windowCoder) bytes merge := by
  obtain ⟨merged, hMerged, hRest⟩ := Option.bind_eq_some_iff.mp hBytes
  obtain ⟨originals, hOriginals, hPure⟩ := Option.bind_eq_some_iff.mp hRest
  cases hPure
  exact (decodeWindowFrom_delimited h.merged hMerged).bind
    ((decodeWindowIterable_delimited h.originals h.count hOriginals).bind_pure rfl)

/-- A merge that fits its coder can be written. -/
theorem exists_encodeMerge {windowCoder : WindowCoder} {merge : MergedWindows}
    (h : merge.Fits windowCoder) : ∃ bytes, encodeMerge windowCoder merge = some bytes := by
  obtain ⟨merged, hMerged⟩ := h.merged.exists_encodeWindow
  obtain ⟨originals, hOriginals⟩ := WindowCoder.Matches.exists_encodeWindows h.originals
  exact ⟨merged ++ originals, by rw [encodeMerge, hMerged, hOriginals]; rfl⟩

/-- An element of an answer is written and read back. -/
theorem decodeMergeOutputElement_delimited {windowCoder : WindowCoder} {output : MergeOutput}
    (h : output.Fits windowCoder) :
    ∃ bytes, outputWithMerge windowCoder output = some bytes ∧ bytes ≠ [] ∧
      Delimited (decodeMergeOutputElement windowCoder) bytes output.decoded := by
  have hGlobal : ∀ window ∈ [BeamWindow.global], WindowCoder.global.Matches window := by
    simp [WindowCoder.Matches]
  obtain ⟨outer, hOuter⟩ := WindowCoder.Matches.exists_encodeWindows hGlobal
  obtain ⟨unmerged, hUnmerged⟩ := WindowCoder.Matches.exists_encodeWindows h.unmerged
  obtain ⟨merges, hMerges⟩ := exists_parts fun merge hMerge =>
    exists_encodeMerge (h.merges merge hMerge)
  have hHeader : Delimited (decodeWindowedValueHeader .global)
      (encodeTimestampMillis beamMinTimestampMillis ++ (outer ++ encodePaneInfo .noFiring))
      (beamMinTimestampMillis, [.global], .noFiring) :=
    ((encodeTimestampMillis_unwinding _).delimited.mapError _).bind
      (((WindowCoder.Matches.windows_unwinding hGlobal (by decide) hOuter).delimited.mapError _).bind
        (((encodePaneInfo_unwinding _).delimited.mapError _).bind_pure rfl))
  have hPairs : Delimited ((decodeMerge windowCoder).times output.merges.length) merges.flatten
      output.merges :=
    Delimited.times output.merges
      (fun merge hMerge _ hBytes => decodeMerge_delimited (h.merges merge hMerge) hBytes) hMerges
  have hBody := (decodeNestedBytes_delimited h.nonce).bind
    (f := fun nonce => do
      let unmerged ← decodeWindowIterable windowCoder
      let pairCount ← decodeCount
      let merges ← (decodeMerge windowCoder).times pairCount
      pure (nonce, unmerged.map MergedWindows.unmerged ++ merges))
    ((decodeWindowIterable_delimited h.unmerged h.unmergedCount hUnmerged).bind
      ((decodeCount_delimited h.mergesCount).bind (hPairs.bind_pure rfl)))
  have hElement := hHeader.bind (f := fun header =>
    if header.2.1 ≠ [.global] then
      Decoder.fail "MergeWindows output must be in the global window"
    else do
      let nonce ← decodeNestedBytes
      let unmerged ← decodeWindowIterable windowCoder
      let pairCount ← decodeCount
      let merges ← (decodeMerge windowCoder).times pairCount
      pure (nonce, unmerged.map MergedWindows.unmerged ++ merges))
    (by rw [if_neg (by simp)]; exact hBody)
  refine ⟨_, ?_, ?_, hElement⟩
  · rw [outputWithMerge, hOuter, hUnmerged, hMerges]
    simp
  · simp [encodePaneInfo]

/-- A list of elements is written and read back in order. -/
theorem decodeMergeOutputs_encoded {windowCoder : WindowCoder} {outputs : List MergeOutput}
    (h : ∀ output ∈ outputs, output.Fits windowCoder) :
    ∃ parts, outputs.mapM (outputWithMerge windowCoder) = some parts ∧
      outputs.length ≤ parts.flatten.length ∧
      ∀ fuel, outputs.length < fuel → decodeMergeOutputs windowCoder fuel parts.flatten =
        .ok (outputs.map MergeOutput.decoded) [] := by
  induction outputs with
  | nil =>
      refine ⟨[], rfl, Nat.le_refl _, fun fuel hFuel => ?_⟩
      obtain ⟨fuel, rfl⟩ : ∃ n, fuel = n + 1 := ⟨fuel - 1, by omega⟩
      rfl
  | cons output outputs ih =>
      obtain ⟨first, hFirst, hNonempty, hRead⟩ := decodeMergeOutputElement_delimited
        (h output List.mem_cons_self)
      obtain ⟨parts, hParts, hLength, hRest⟩ := ih fun other hOther =>
        h other (List.mem_cons_of_mem _ hOther)
      have hPos : 0 < first.length := List.length_pos_iff.mpr hNonempty
      refine ⟨first :: parts, by rw [List.mapM_cons, hFirst, hParts]; rfl, ?_, fun fuel hFuel => ?_⟩
      · rw [List.flatten_cons, List.length_append, List.length_cons]
        omega
      obtain ⟨fuel, rfl⟩ : ∃ n, fuel = n + 1 := ⟨fuel - 1, by omega⟩
      have hLeft : ¬ (first ++ parts.flatten).length = 0 := by
        rw [List.length_append]
        omega
      rw [List.flatten_cons, decodeMergeOutputs, Decoder.bind_apply, Decoder.remaining]
      dsimp only
      rw [if_neg hLeft, Decoder.bind_apply, hRead]
      dsimp only
      rw [Decoder.bind_apply, hRest fuel (by rw [List.length_cons] at hFuel; omega)]
      rfl

/-- What an SDK writes for its answers is read as these answers. -/
theorem decodeMergeOutputBatch_encoded {windowCoder : WindowCoder} {outputs : List MergeOutput}
    (h : ∀ output ∈ outputs, output.Fits windowCoder) :
    ∃ parts, outputs.mapM (outputWithMerge windowCoder) = some parts ∧
      decodeMergeOutputBatch windowCoder parts.flatten =
        .ok (outputs.map MergeOutput.decoded) [] := by
  obtain ⟨parts, hParts, hLength, hRead⟩ := decodeMergeOutputs_encoded h
  exact ⟨parts, hParts, hRead _ (Nat.lt_succ_of_le hLength)⟩

/-! Coder ids of decoded windows. -/

/-- The coder ids the window coder hands out can be recorded in a binary key. -/
def WindowCoder.CoderIdFits : WindowCoder → Prop
  | .opaqueLengthPrefixed innerCoderId => (utf8Bytes innerCoderId).length < 2 ^ 32
  | _ => True

/-- Every window of a merge can be recorded in a binary key. -/
def MergedWindows.CoderIdsFit (merge : MergedWindows) : Prop :=
  merge.merged.CoderIdFits ∧ ∀ original ∈ merge.originals, original.CoderIdFits

section CoderIds

variable {windowCoder : WindowCoder} (hCoder : windowCoder.CoderIdFits)

include hCoder

/-- A window that was read has a coder id that fits. -/
theorem decodeWindowFrom_coderIdFits :
    Decoder.Ensures BeamWindow.CoderIdFits (decodeWindowFrom windowCoder) := by
  have hWindow : Decoder.Ensures BeamWindow.CoderIdFits (decodeOneWindow windowCoder) := by
    cases windowCoder with
    | global => exact Decoder.ensures_pure trivial
    | interval =>
        exact Decoder.ensures_bind _ fun endMillis => Decoder.ensures_bind _ fun span =>
          Decoder.ensures_pure trivial
    | opaqueLengthPrefixed innerCoderId =>
        exact Decoder.ensures_bind _ fun len => Decoder.ensures_bind _ fun raw =>
          Decoder.ensures_pure hCoder
  exact hWindow.mapError _

theorem decodeWindowIterable_coderIdFits :
    Decoder.Ensures (fun windows => ∀ window ∈ windows, window.CoderIdFits)
      (decodeWindowIterable windowCoder) :=
  Decoder.ensures_bind _ fun count => (decodeWindowFrom_coderIdFits hCoder).times count

theorem decodeMerge_coderIdsFit :
    Decoder.Ensures MergedWindows.CoderIdsFit (decodeMerge windowCoder) :=
  (decodeWindowFrom_coderIdFits hCoder).bind fun _ hMerged =>
    (decodeWindowIterable_coderIdFits hCoder).bind fun _ hOriginals =>
      Decoder.ensures_pure ⟨hMerged, hOriginals⟩

theorem decodeMergeOutputElement_coderIdsFit :
    Decoder.Ensures (fun result => ∀ merge ∈ result.2, merge.CoderIdsFit)
      (decodeMergeOutputElement windowCoder) := by
  refine Decoder.ensures_bind _ fun header => ?_
  dsimp only
  split
  · exact Decoder.ensures_fail _ _
  refine Decoder.ensures_bind _ fun nonce => (decodeWindowIterable_coderIdFits hCoder).bind
    fun unmerged hUnmerged => Decoder.ensures_bind _ fun pairCount =>
      ((decodeMerge_coderIdsFit hCoder).times pairCount).bind fun merges hMerges =>
        Decoder.ensures_pure ?_
  intro merge hMerge
  rcases List.mem_append.mp hMerge with hAlone | hMerged
  · obtain ⟨window, hWindow, rfl⟩ := List.mem_map.mp hAlone
    exact ⟨hUnmerged window hWindow, List.forall_mem_singleton.mpr (hUnmerged window hWindow)⟩
  · exact hMerges merge hMerged

/-- So have all the windows of an answer. -/
theorem decodeMergeOutputs_coderIdsFit (fuel : Nat) :
    Decoder.Ensures (fun results => ∀ result ∈ results, ∀ merge ∈ result.2, merge.CoderIdsFit)
      (decodeMergeOutputs windowCoder fuel) := by
  induction fuel with
  | zero =>
      intro bytes value rest h
      cases h
  | succ fuel ih =>
      refine Decoder.ensures_bind _ fun remaining => ?_
      split
      · exact Decoder.ensures_pure (by simp)
      · exact (decodeMergeOutputElement_coderIdsFit hCoder).bind fun result hResult =>
          ih.bind fun results hResults =>
            Decoder.ensures_pure (List.forall_mem_cons.mpr ⟨hResult, hResults⟩)

end CoderIds

/-! Applying an accepted answer. -/

/-- Elements that belong to one of the windows are listed once. -/
theorem flatMap_owner {windows : List BeamWindow} (hNodup : windows.Nodup) {owner : BeamWindow}
    (hOwner : owner ∈ windows) (values : List PaneElement) :
    (windows.flatMap fun window => if window = owner then values else []) = values := by
  induction windows with
  | nil => cases hOwner
  | cons window windows ih =>
      rw [List.nodup_cons] at hNodup
      rw [List.flatMap_cons]
      by_cases hHere : window = owner
      · have hRest : (windows.flatMap fun other => if other = owner then values else []) = [] := by
          refine List.flatMap_eq_nil_iff.mpr fun other hOther => if_neg ?_
          rintro rfl
          exact hNodup.1 (hHere ▸ hOther)
        rw [if_pos hHere, hRest, List.append_nil]
      · rw [if_neg hHere, List.nil_append]
        exact ih hNodup.2 ((List.mem_cons.mp hOwner).resolve_left (Ne.symm hHere))

/-- When every group has one owner among the windows, collecting by window moves
every element once. -/
theorem collected_perm {answer : List MergedWindows} {windows : List BeamWindow}
    (hNodup : windows.Nodup) {groups : List (BeamWindow × List PaneElement)}
    (hOwner : ∀ entry ∈ groups, ∃ owner ∈ windows, ∀ window,
      MergesTo answer entry.1 window ↔ window = owner) :
    (windows.flatMap (collected answer groups)).Perm (groups.flatMap Prod.snd) := by
  induction groups with
  | nil => simp [collected]
  | cons entry groups ih =>
      obtain ⟨owner, hMem, hOwns⟩ := hOwner entry List.mem_cons_self
      have hCollected : ∀ window, collected answer (entry :: groups) window =
          (if window = owner then entry.2 else []) ++ collected answer groups window := by
        intro window
        rw [collected, List.filter_cons]
        by_cases hHere : window = owner
        · rw [if_pos (decide_eq_true ((hOwns window).mpr hHere)), if_pos hHere]
          rfl
        · rw [if_neg (by simpa using (hOwns window).not.mpr hHere), if_neg hHere]
          rfl
      have hSplit : (windows.flatMap (collected answer (entry :: groups))).Perm
          ((windows.flatMap fun window => if window = owner then entry.2 else []) ++
            windows.flatMap (collected answer groups)) := by
        rw [funext hCollected]
        exact (List.flatMap_append_perm windows _ _).symm
      rw [flatMap_owner hNodup hMem] at hSplit
      rw [List.flatMap_cons]
      exact hSplit.trans ((ih fun other hOther => hOwner other (List.mem_cons_of_mem _ hOther)).append_left _)

/-- What applying an answer to the groups of a key amounts to: a group for each
merged window, holding the elements of the windows merged into it. -/
structure AppliesCleanly (key : PrimitiveValue) (groups : List (BeamWindow × List PaneElement))
    (answer : List MergedWindows) (result : List GroupInput) : Prop where
  key : ∀ group ∈ result, group.key = key
  windows : (result.map GroupInput.window).Perm (answer.map MergedWindows.merged).dedup
  elements : ∀ group ∈ result, group.elements = collected answer groups group.window
  owner : ∀ entry ∈ groups, ∃ group ∈ result, ∀ window,
    MergesTo answer entry.1 window ↔ window = group.window
  conserved : (result.flatMap GroupInput.elements).Perm (groups.flatMap Prod.snd)

/-- An answer that partitions the request applies to its groups. -/
theorem appliesCleanly_of_partition {requested : List BeamWindow} {answer : List MergedWindows}
    (hAnswer : PartitionsRequest requested answer)
    (hFits : ∀ merge ∈ answer, merge.CoderIdsFit)
    {groups : List (BeamWindow × List PaneElement)} (hGroups : (groups.map Prod.fst).Perm requested)
    (key : PrimitiveValue) {order : List GroupInput → List GroupInput}
    (hOrder : ∀ groups, (order groups).Perm groups) :
    ∃ result, applyMergeResults order key groups answer = .ok result ∧
      AppliesCleanly key groups answer result := by
  have hHere : PartitionsRequest (groups.map Prod.fst) answer :=
    ⟨hAnswer.nonempty, fun window => (hAnswer.mem_iff window).trans hGroups.mem_iff.symm,
      hAnswer.nodup⟩
  have hWindowFits : ∀ window ∈ groups.map Prod.fst, window.CoderIdFits := by
    intro window hWindow
    obtain ⟨merge, hMerge, hOriginal⟩ := List.mem_flatMap.mp ((hHere.mem_iff window).mpr hWindow)
    exact (hFits merge hMerge).2 window hOriginal
  obtain ⟨result, hResult, hPerm⟩ := applyMergeResults_spec hOrder
    (show PartitionsRequest ((DecodedKeyGroup.mk key groups).windows.map Prod.fst) answer from hHere)
    (fun entry hEntry => hWindowFits entry.1 (List.mem_map_of_mem hEntry))
    (fun merge hMerge => (hFits merge hMerge).1)
  have hMem : ∀ group, group ∈ result ↔ ∃ window ∈ answer.map MergedWindows.merged,
      group = ⟨key, window, collected answer groups window⟩ := by
    intro group
    rw [hPerm.mem_iff, mergedInputs, List.mem_map]
    simp only [List.mem_dedup, eq_comm]
  have hOwner : ∀ entry ∈ groups, ∃ owner ∈ answer.map MergedWindows.merged, ∀ window,
      MergesTo answer entry.1 window ↔ window = owner := by
    intro entry hEntry
    obtain ⟨merge, hMerge, hOriginal⟩ := List.mem_flatMap.mp
      ((hHere.mem_iff entry.1).mpr (List.mem_map_of_mem hEntry))
    have hTo : MergesTo answer entry.1 merge.merged := ⟨merge, hMerge, rfl, hOriginal⟩
    refine ⟨merge.merged, List.mem_map_of_mem hMerge, fun window => ⟨fun hMaps => ?_, ?_⟩⟩
    · exact MergesTo.unique hHere hWindowFits hMaps hTo
    · rintro rfl
      exact hTo
  refine ⟨result, hResult, ?_, ?_, ?_, ?_, ?_⟩
  · intro group hGroup
    obtain ⟨window, _, rfl⟩ := (hMem group).mp hGroup
    rfl
  · have hWindows := hPerm.map GroupInput.window
    rw [mergedInputs, List.map_map] at hWindows
    simpa [Function.comp_def] using hWindows
  · intro group hGroup
    obtain ⟨window, _, rfl⟩ := (hMem group).mp hGroup
    rfl
  · intro entry hEntry
    obtain ⟨owner, hIn, hOwns⟩ := hOwner entry hEntry
    exact ⟨_, (hMem _).mpr ⟨owner, hIn, rfl⟩, hOwns⟩
  · refine (hPerm.flatMap_right _).trans ?_
    rw [mergedInputs, List.flatMap_map]
    refine collected_perm (List.nodup_dedup _) fun entry hEntry => ?_
    obtain ⟨owner, hIn, hOwns⟩ := hOwner entry hEntry
    exact ⟨owner, List.mem_dedup.mpr hIn, hOwns⟩

/-- An answer that passes validation applies without an error, and the wire form
of answers reads back as it was written. -/
theorem validated_answer_applies {windowCoder : WindowCoder}
    (hCoder : windowCoder.CoderIdFits) :
    (∀ (bytes nonce : List UInt8) (answers : List (List UInt8 × List MergedWindows))
        (answer : List MergedWindows) (requested : List BeamWindow)
        (groups : List (BeamWindow × List PaneElement)) (key : PrimitiveValue)
        (order : List GroupInput → List GroupInput),
        decodeMergeOutputBatch windowCoder bytes = .ok answers [] → (nonce, answer) ∈ answers →
        validateMergeResult requested answer = .ok () → (groups.map Prod.fst).Perm requested →
        (∀ groups, (order groups).Perm groups) →
        ∃ result, applyMergeResults order key groups answer = .ok result ∧
          AppliesCleanly key groups answer result) ∧
      ∀ outputs : List MergeOutput, (∀ output ∈ outputs, output.Fits windowCoder) →
        ∃ parts, outputs.mapM (outputWithMerge windowCoder) = some parts ∧
          decodeMergeOutputBatch windowCoder parts.flatten =
            .ok (outputs.map MergeOutput.decoded) [] := by
  refine ⟨?_, fun outputs hOutputs => decodeMergeOutputBatch_encoded hOutputs⟩
  intro bytes nonce answers answer requested groups key order hDecoded hAnswer hValid hGroups hOrder
  have hFits := decodeMergeOutputs_coderIdsFit hCoder _ bytes answers [] hDecoded (nonce, answer)
    hAnswer
  exact appliesCleanly_of_partition (partitionsRequest_of_validate hValid) hFits hGroups key hOrder

/-- A window merged into one that was left alone. -/
def joinedOutput : MergeOutput where
  nonce := [0]
  unmerged := [.opaqueWindow "w" [1]]
  merges := [⟨.opaqueWindow "w" [1], [.opaqueWindow "w" [2]]⟩]

theorem validated_answer_applies_joined :
    let groups : List (BeamWindow × List PaneElement) :=
      [(.opaqueWindow "w" [2], [⟨.primitive (.bool true), 0⟩]),
        (.opaqueWindow "w" [1], [⟨.primitive (.bool false), 5⟩])]
    ∃ result, applyMergeResults id (.int64 7) groups joinedOutput.decoded.2 = .ok result ∧
      AppliesCleanly (.int64 7) groups joinedOutput.decoded.2 result := by
  have hBoth := validated_answer_applies
    (show WindowCoder.CoderIdFits (.opaqueLengthPrefixed "w") from
      (by decide : (utf8Bytes "w").length < 2 ^ 32))
  obtain ⟨parts, -, hDecoded⟩ := hBoth.2 [joinedOutput] (by
    refine List.forall_mem_singleton.mpr ⟨by decide, ?_, by decide, ?_, by decide⟩
    · simp [joinedOutput, WindowCoder.Matches]
    · refine List.forall_mem_singleton.mpr ⟨?_, ?_, by decide⟩ <;> simp [WindowCoder.Matches])
  exact hBoth.1 _ [0] _ joinedOutput.decoded.2 [.opaqueWindow "w" [1], .opaqueWindow "w" [2]] _
    (.int64 7) id hDecoded List.mem_cons_self rfl (.swap _ _ _) fun _ => .refl _

end FlareDB
