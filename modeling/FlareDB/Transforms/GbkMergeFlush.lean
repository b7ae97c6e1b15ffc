import FlareDB.Transforms.WindowIdentity

/-! What a validated SDK merge answer makes of a batch of custom windows, and
when processing the batch at the final watermark emits it. -/
namespace FlareDB

open KeyedStore

/-! Validated answers. -/

/-- Originals that pass the check are consumed once each. -/
private theorem checkOriginals_ok {requested : List String} {originals : List BeamWindow}
    {consumed result : List String} (h : checkOriginals requested originals consumed = .ok result) :
    result = (originals.map BeamWindow.canonicalKey).reverse ++ consumed ∧
      (∀ original ∈ originals, original.canonicalKey ∈ requested) ∧
      (consumed.Nodup → result.Nodup) := by
  induction originals generalizing consumed with
  | nil =>
      cases h
      exact ⟨rfl, by simp, id⟩
  | cons original originals ih =>
      rw [checkOriginals] at h
      split at h
      · cases h
      · split at h
        · cases h
        · next hRequested hNew =>
            obtain ⟨hResult, hAll, hNodup⟩ := ih h
            refine ⟨by simp [hResult], ?_, fun hConsumed => hNodup (List.nodup_cons.mpr
              ⟨hNew, hConsumed⟩)⟩
            intro other hOther
            rcases List.mem_cons.mp hOther with rfl | hLater
            · simpa using hRequested
            · exact hAll other hLater

/-- So are those of all merges. -/
private theorem checkMerges_ok {requested : List String} {merges : List MergedWindows}
    {consumed result : List String} (h : checkMerges requested merges consumed = .ok result) :
    result = ((merges.flatMap MergedWindows.originals).map BeamWindow.canonicalKey).reverse ++
        consumed ∧
      (∀ merge ∈ merges, merge.originals ≠ [] ∧
        ∀ original ∈ merge.originals, original.canonicalKey ∈ requested) ∧
      (consumed.Nodup → result.Nodup) := by
  induction merges generalizing consumed with
  | nil =>
      cases h
      exact ⟨rfl, by simp, id⟩
  | cons merge merges ih =>
      rw [checkMerges] at h
      split at h
      · cases h
      · next hNonempty =>
          cases hFirst : checkOriginals requested merge.originals consumed with
          | error reason =>
              rw [hFirst] at h
              cases h
          | ok middle =>
              rw [hFirst] at h
              obtain ⟨hMiddle, hOriginals, hMiddleNodup⟩ := checkOriginals_ok hFirst
              obtain ⟨hResult, hAll, hNodup⟩ := ih h
              refine ⟨by simp [hResult, hMiddle], ?_, hNodup ∘ hMiddleNodup⟩
              intro other hOther
              rcases List.mem_cons.mp hOther with rfl | hLater
              · exact ⟨hNonempty, hOriginals⟩
              · exact hAll other hLater

/-- What an accepted answer says: it partitions the requested windows among its
merged windows. -/
structure PartitionsRequest (requested : List BeamWindow) (answer : List MergedWindows) :
    Prop where
  nonempty : ∀ merge ∈ answer, merge.originals ≠ []
  mem_iff : ∀ window, window ∈ answer.flatMap MergedWindows.originals ↔ window ∈ requested
  nodup : (answer.flatMap MergedWindows.originals).Nodup

def BeamWindow.IsOpaque : BeamWindow → Prop
  | .opaqueWindow _ _ => True
  | _ => False

/-- An answer that passes partitions the request. -/
theorem partitionsRequest_of_validate {requested : List BeamWindow} {answer : List MergedWindows}
    (h : validateMergeResult requested answer = .ok ()) : PartitionsRequest requested answer := by
  unfold validateMergeResult at h
  dsimp only at h
  cases hChecked : checkMerges (requested.map BeamWindow.canonicalKey) answer [] with
  | error reason =>
      rw [hChecked] at h
      cases h
  | ok consumed =>
      rw [hChecked] at h
      obtain ⟨hConsumed, hAnswer, hNodup⟩ := checkMerges_ok hChecked
      rw [List.append_nil] at hConsumed
      have hMissing : ∀ window ∈ requested, window.canonicalKey ∈ consumed := by
        intro window hWindow
        by_contra hAbsent
        have hIn : window.canonicalKey ∈
            ((requested.map BeamWindow.canonicalKey).dedup.filter (· ∉ consumed)) := by
          simp only [List.mem_filter, List.mem_dedup, decide_eq_true_eq]
          exact ⟨List.mem_map_of_mem hWindow, hAbsent⟩
        change (if _ = [] then Except.ok () else _) = Except.ok () at h
        rw [if_neg (List.ne_nil_of_mem hIn)] at h
        cases h
      have hKeys : ((answer.flatMap MergedWindows.originals).map
          BeamWindow.canonicalKey).Nodup := by
        have hAll := hNodup List.nodup_nil
        rw [hConsumed] at hAll
        exact List.nodup_reverse.mp hAll
      refine ⟨fun merge hMerge => (hAnswer merge hMerge).1, ?_, hKeys.of_map _⟩
      intro window
      constructor
      · intro hMem
        obtain ⟨merge, hMerge, hOriginal⟩ := List.mem_flatMap.mp hMem
        obtain ⟨other, hOther, hSame⟩ :=
          List.mem_map.mp ((hAnswer merge hMerge).2 window hOriginal)
        rw [BeamWindow.canonicalKey_injective hSame.symm]
        exact hOther
      · intro hRequested
        have hIn := hMissing window hRequested
        rw [hConsumed, List.mem_reverse] at hIn
        obtain ⟨other, hOther, hSame⟩ := List.mem_map.mp hIn
        rw [← BeamWindow.canonicalKey_injective hSame]
        exact hOther

/-! Remapping by binary key. -/

/-- The answer merges an original window into the given one. -/
def MergesTo (answer : List MergedWindows) (original window : BeamWindow) : Prop :=
  ∃ merge ∈ answer, merge.merged = window ∧ original ∈ merge.originals

instance (answer : List MergedWindows) (original window : BeamWindow) :
    Decidable (MergesTo answer original window) :=
  inferInstanceAs (Decidable (∃ merge ∈ answer, _ ∧ _))

/-- The elements of the groups an answer merges into a window, in order. -/
def collected (answer : List MergedWindows) (groups : List (BeamWindow × List PaneElement))
    (window : BeamWindow) : List PaneElement :=
  (groups.filter fun entry => decide (MergesTo answer entry.1 window)).flatMap Prod.snd

section Remap

variable {requested : List BeamWindow} {answer : List MergedWindows}
  (hAnswer : PartitionsRequest requested answer)
  (hRequested : ∀ window ∈ requested, window.CoderIdFits)

include hAnswer hRequested in
/-- A window of the request is remapped to the merge it is in. -/
theorem lookup_originalToMerged {original window : BeamWindow}
    (h : MergesTo answer original window) :
    (originalToMerged answer).lookup original.toBinaryKey = some window := by
  obtain ⟨merge, hMerge, rfl, hOriginal⟩ := h
  refine lookup_ofPairs ?_ (List.mem_flatMap.mpr ⟨merge, hMerge, List.mem_map_of_mem hOriginal⟩)
  have hKeys : (answer.flatMap fun result => result.originals.map fun original =>
      (original.toBinaryKey, result.merged)).map Prod.fst =
      (answer.flatMap MergedWindows.originals).map BeamWindow.toBinaryKey := by
    simp [List.map_flatMap, Function.comp_def]
  rw [hKeys]
  refine hAnswer.nodup.map_on ?_
  intro first hFirst second hSecond hSame
  exact BeamWindow.toBinaryKey_injective (hRequested first ((hAnswer.mem_iff first).mp hFirst))
    (hRequested second ((hAnswer.mem_iff second).mp hSecond)) hSame

include hAnswer hRequested in
/-- A window is in one merge. -/
theorem MergesTo.unique {original first second : BeamWindow}
    (hFirst : MergesTo answer original first) (hSecond : MergesTo answer original second) :
    first = second := by
  have hLookup := lookup_originalToMerged hAnswer hRequested hFirst
  rw [lookup_originalToMerged hAnswer hRequested hSecond] at hLookup
  exact (Option.some.inj hLookup).symm

/-- The merged groups after some original groups: each window merged into
holds the elements collected for it, under its binary key. -/
structure Remapped (answer : List MergedWindows)
    (groups : List (BeamWindow × List PaneElement))
    (merged : Store (List UInt8) (BeamWindow × List PaneElement)) : Prop where
  present : ∀ entry ∈ groups, ∀ window, MergesTo answer entry.1 window →
    merged.lookup window.toBinaryKey = some (window, collected answer groups window)
  origin : ∀ key entry, merged.lookup key = some entry → key = entry.1.toBinaryKey ∧
    ∃ group ∈ groups, MergesTo answer group.1 entry.1

variable (hMerged : ∀ merge ∈ answer, merge.merged.CoderIdFits)

include hAnswer hRequested hMerged in
/-- One original moved to its merged window. -/
theorem Remapped.add {groups : List (BeamWindow × List PaneElement)}
    {merged : Store (List UInt8) (BeamWindow × List PaneElement)}
    (h : Remapped answer groups merged) {original window : BeamWindow}
    (hTo : MergesTo answer original window) (values : List PaneElement) :
    Remapped answer (groups ++ [(original, values)]) (addToMerged merged window values) := by
  have hFits : ∀ {start target : BeamWindow}, MergesTo answer start target →
      target.CoderIdFits := by
    rintro start target ⟨merge, hMerge, rfl, _⟩
    exact hMerged merge hMerge
  have hBefore : (merged.lookup window.toBinaryKey).getD (window, []) =
      (window, collected answer groups window) := by
    cases hLookup : merged.lookup window.toBinaryKey with
    | none =>
        have hNone : collected answer groups window = [] := by
          rw [collected, List.filter_eq_nil_iff.mpr, List.flatMap_nil]
          intro entry hEntry hMaps
          have hPresent := h.present entry hEntry window (of_decide_eq_true hMaps)
          rw [hLookup] at hPresent
          cases hPresent
        rw [hNone]
        rfl
    | some entry =>
        obtain ⟨hKey, group, hGroup, hMaps⟩ := h.origin _ entry hLookup
        have hSame := BeamWindow.toBinaryKey_injective (hFits hTo) (hFits hMaps) hKey
        have hPresent := h.present group hGroup window (hSame ▸ hMaps)
        rw [hLookup] at hPresent
        cases hPresent
        rfl
  have hAdd : addToMerged merged window values = merged.insert window.toBinaryKey
      (window, collected answer groups window ++ values) := by
    rw [addToMerged, hBefore]
  have hHere : collected answer (groups ++ [(original, values)]) window =
      collected answer groups window ++ values := by
    simp [collected, List.filter_append, hTo]
  have hElsewhere : ∀ other, other ≠ window →
      collected answer (groups ++ [(original, values)]) other = collected answer groups other := by
    intro other hOther
    have hNot : ¬ MergesTo answer original other := fun hMaps =>
      hOther (MergesTo.unique hAnswer hRequested hMaps hTo)
    simp [collected, List.filter_append, hNot]
  rw [hAdd]
  constructor
  · intro entry hEntry other hMaps
    by_cases hOther : other = window
    · rw [hOther, hHere]
      exact AList.lookup_insert _
    · have hKeys : other.toBinaryKey ≠ window.toBinaryKey := fun hSame =>
        hOther (BeamWindow.toBinaryKey_injective (hFits hMaps) (hFits hTo) hSame)
      rw [AList.lookup_insert_ne hKeys, hElsewhere other hOther]
      rcases List.mem_append.mp hEntry with hOld | hNew
      · exact h.present entry hOld other hMaps
      · rw [List.mem_singleton.mp hNew] at hMaps
        exact absurd (MergesTo.unique hAnswer hRequested hMaps hTo) hOther
  · intro key entry hLookup
    by_cases hKey : key = window.toBinaryKey
    · subst hKey
      rw [AList.lookup_insert] at hLookup
      cases hLookup
      exact ⟨rfl, _, List.mem_append_right _ (List.mem_singleton.mpr rfl), hTo⟩
    · rw [AList.lookup_insert_ne hKey] at hLookup
      obtain ⟨hSame, group, hGroup, hMaps⟩ := h.origin key entry hLookup
      exact ⟨hSame, group, List.mem_append_left _ hGroup, hMaps⟩

include hAnswer hRequested hMerged in
/-- The loop over original groups maps every one of them. -/
theorem mergeOriginals_remapped (rest : List (BeamWindow × List PaneElement))
    (hRest : ∀ entry ∈ rest, entry.1 ∈ requested)
    {groups : List (BeamWindow × List PaneElement)}
    {merged : Store (List UInt8) (BeamWindow × List PaneElement)}
    (h : Remapped answer groups merged) :
    ∃ result, mergeOriginals (originalToMerged answer) rest merged = .ok result ∧
      Remapped answer (groups ++ rest) result := by
  induction rest generalizing groups merged with
  | nil => exact ⟨merged, rfl, by rw [List.append_nil]; exact h⟩
  | cons entry rest ih =>
      obtain ⟨original, values⟩ := entry
      obtain ⟨merge, hMerge, hOriginal⟩ := List.mem_flatMap.mp
        ((hAnswer.mem_iff original).mpr (hRest _ List.mem_cons_self))
      have hTo : MergesTo answer original merge.merged := ⟨merge, hMerge, rfl, hOriginal⟩
      obtain ⟨result, hResult, hRemapped⟩ := ih (fun other hOther => hRest other (by simp [hOther]))
        (h.add hAnswer hRequested hMerged hTo values)
      refine ⟨result, ?_, by simpa using hRemapped⟩
      rw [mergeOriginals, lookup_originalToMerged hAnswer hRequested hTo]
      exact hResult

/-- The groups an accepted answer asks for: one per distinct merged window. -/
def mergedInputs (keyGroup : DecodedKeyGroup) (answer : List MergedWindows) : List GroupInput :=
  (answer.map MergedWindows.merged).dedup.map fun window =>
    ⟨keyGroup.key, window, collected answer keyGroup.windows window⟩

end Remap

/-- Applying an answer gives one group for each merge, with the elements of its
originals. -/
theorem applyMergeResults_spec {order : List GroupInput → List GroupInput}
    (hOrder : ∀ groups, (order groups).Perm groups) {keyGroup : DecodedKeyGroup}
    {answer : List MergedWindows}
    (hAnswer : PartitionsRequest (keyGroup.windows.map Prod.fst) answer)
    (hFits : ∀ entry ∈ keyGroup.windows, entry.1.CoderIdFits)
    (hMerged : ∀ merge ∈ answer, merge.merged.CoderIdFits) :
    ∃ groups, applyMergeResults order keyGroup.key keyGroup.windows answer = .ok groups ∧
      groups.Perm (mergedInputs keyGroup answer) := by
  have hRequested : ∀ window ∈ keyGroup.windows.map Prod.fst, window.CoderIdFits := by
    intro window hWindow
    obtain ⟨entry, hEntry, rfl⟩ := List.mem_map.mp hWindow
    exact hFits entry hEntry
  have hStart : Remapped answer [] ∅ := ⟨by simp, by simp⟩
  obtain ⟨merged, hResult, hRemapped⟩ := mergeOriginals_remapped hAnswer hRequested hMerged
    keyGroup.windows (fun entry hEntry => List.mem_map_of_mem hEntry) hStart
  rw [List.nil_append] at hRemapped
  refine ⟨_, by rw [applyMergeResults, hResult]; rfl, (hOrder _).trans ?_⟩
  have hEntries : ∀ entry ∈ merged.entries, entry.1 = entry.2.1.toBinaryKey ∧
      ∃ group ∈ keyGroup.windows, MergesTo answer group.1 entry.2.1 := by
    intro entry hEntry
    exact hRemapped.origin entry.1 entry.2 (AList.mem_lookup_iff.mpr hEntry)
  have hLeft : (merged.entries.map fun entry =>
      (⟨keyGroup.key, entry.2.1, entry.2.2⟩ : GroupInput)).Nodup := by
    refine merged.nodupKeys.nodup.map_on ?_
    rintro ⟨key, window, values⟩ hFirst ⟨otherKey, otherWindow, otherValues⟩ hSecond hSame
    have hKey := (hEntries _ hFirst).1
    have hOtherKey := (hEntries _ hSecond).1
    simp only [GroupInput.mk.injEq] at hSame hKey hOtherKey
    obtain ⟨_, rfl, rfl⟩ := hSame
    rw [hKey, hOtherKey]
  have hRight : (mergedInputs keyGroup answer).Nodup := by
    refine (List.nodup_dedup _).map_on ?_
    intro window _ other _ hSame
    exact congrArg GroupInput.window hSame
  refine (List.perm_ext_iff_of_nodup hLeft hRight).mpr ?_
  intro group
  simp only [mergedInputs, List.mem_map, List.mem_dedup]
  constructor
  · rintro ⟨⟨key, window, values⟩, hEntry, rfl⟩
    obtain ⟨hKey, origin, hOrigin, hMaps⟩ := hEntries _ hEntry
    have hPresent := hRemapped.present origin hOrigin window hMaps
    have hLookup : merged.lookup key = some (window, values) := AList.mem_lookup_iff.mpr hEntry
    dsimp only at hKey
    rw [hKey, hPresent] at hLookup
    cases hLookup
    obtain ⟨merge, hMerge, hSame, _⟩ := hMaps
    exact ⟨window, ⟨merge, hMerge, hSame⟩, rfl⟩
  · rintro ⟨window, ⟨merge, hMerge, rfl⟩, rfl⟩
    obtain ⟨original, hOriginal⟩ := List.exists_mem_of_ne_nil _ (hAnswer.nonempty merge hMerge)
    obtain ⟨entry, hEntry, rfl⟩ := List.mem_map.mp ((hAnswer.mem_iff original).mp
      (List.mem_flatMap.mpr ⟨merge, hMerge, hOriginal⟩))
    have hPresent := hRemapped.present entry hEntry merge.merged ⟨merge, hMerge, rfl, hOriginal⟩
    exact ⟨⟨_, _⟩, AList.mem_lookup_iff.mp hPresent, rfl⟩

/-- A batch of custom windows with an accepted answer for each key. -/
structure MergedBatch (batch : List DecodedKeyGroup) (answers : List (List MergedWindows)) :
    Prop where
  keys : (batch.map DecodedKeyGroup.key).Nodup
  windows : ∀ keyGroup ∈ batch, keyGroup.windows ≠ []
  custom : ∀ keyGroup ∈ batch, ∀ entry ∈ keyGroup.windows, entry.1.IsOpaque
  elements : ∀ keyGroup ∈ batch, ∀ entry ∈ keyGroup.windows, entry.2 ≠ []
  fits : ∀ keyGroup ∈ batch, ∀ entry ∈ keyGroup.windows, entry.1.CoderIdFits
  mergedFits : ∀ answer ∈ answers, ∀ merge ∈ answer, merge.merged.CoderIdFits
  valid : List.Forall₂ (fun keyGroup answer =>
    validateMergeResult (keyGroup.windows.map Prod.fst) answer = .ok ()) batch answers

/-- The groups of a whole batch, key by key. -/
def batchInputs (batch : List DecodedKeyGroup) (answers : List (List MergedWindows)) :
    List GroupInput :=
  (List.zipWith mergedInputs batch answers).flatten

section Batch

variable {batch : List DecodedKeyGroup} {answers : List (List MergedWindows)}

/-- Applying the answers of a batch gives the groups of all its keys. -/
theorem applyAnswers_spec {order : List GroupInput → List GroupInput}
    (hOrder : ∀ groups, (order groups).Perm groups) (h : MergedBatch batch answers) :
    ∃ groups, applyAnswers order batch answers = .ok groups ∧
      groups.Perm (batchInputs batch answers) := by
  have hFits := h.fits
  have hMerged := h.mergedFits
  have hValid := h.valid
  clear h
  induction hValid with
  | nil => exact ⟨[], rfl, List.Perm.refl _⟩
  | @cons keyGroup answer batch answers hFirst _ ih =>
      have hPartition := partitionsRequest_of_validate hFirst
      obtain ⟨groups, hGroups, hPerm⟩ := applyMergeResults_spec hOrder hPartition
        (hFits keyGroup (by simp)) (hMerged answer (by simp))
      obtain ⟨others, hOthers, hOthersPerm⟩ := ih
        (fun other hOther => hFits other (by simp [hOther]))
        (fun other hOther => hMerged other (by simp [hOther]))
      refine ⟨groups ++ others, by rw [applyAnswers, hGroups, hOthers]; rfl, ?_⟩
      rw [batchInputs, List.zipWith_cons_cons, List.flatten_cons]
      exact hPerm.append hOthersPerm

/-- A batch of custom windows is handed to the SDK as a whole. -/
theorem processKeyGroupsBatch_custom {order : List GroupInput → List GroupInput}
    (hOrder : ∀ groups, (order groups).Perm groups) (h : MergedBatch batch answers)
    (inner : InMemoryGbkState) (inputPcollectionId : String) (spec : TriggerSpec)
    (inputWatermark processingTime : Int64) :
    ∃ groups, groups.Perm (batchInputs batch answers) ∧
      processKeyGroupsBatch inner order batch true (some fun _ => .ok answers) inputPcollectionId
          spec inputWatermark processingTime =
        .ok (inner.applyGroups spec inputWatermark processingTime groups) := by
  have hNotInterval : ∀ keyGroup ∈ batch,
      (true && !(keyGroup.windows.all fun entry => isInterval entry.1)) = true := by
    intro keyGroup hGroup
    obtain ⟨entry, hEntry⟩ := List.exists_mem_of_ne_nil _ (h.windows keyGroup hGroup)
    have hKind := h.custom keyGroup hGroup entry hEntry
    have hNot : isInterval entry.1 = false := by
      cases hWindow : entry.1 with
      | global => rfl
      | interval _ _ => rw [hWindow] at hKind; cases hKind
      | opaqueWindow _ _ => rfl
    simp only [Bool.true_and, Bool.not_eq_true', List.all_eq_false]
    exact ⟨entry, hEntry, by simp [hNot]⟩
  have hNative : nativeGroups true batch = .ok [] := by
    clear h
    induction batch with
    | nil => rfl
    | cons keyGroup rest ih =>
        rw [nativeGroups, if_pos (hNotInterval keyGroup (by simp))]
        exact ih fun other hOther => hNotInterval other (by simp [hOther])
  have hCustomAll : customMerges true batch = batch :=
    List.filter_eq_self.mpr hNotInterval
  obtain ⟨groups, hGroups, hPerm⟩ := applyAnswers_spec hOrder h
  cases hBatch : batch with
  | nil =>
      refine ⟨[], by simp [batchInputs], ?_⟩
      rfl
  | cons keyGroup rest =>
      rw [hBatch] at hNative hCustomAll hGroups hPerm
      refine ⟨groups, hPerm, ?_⟩
      rw [processKeyGroupsBatch, hNative, hCustomAll, mergedGroups, if_neg (by simp)]
      simp only [hGroups, bind, Except.bind]
      rfl

def GroupInput.identity (group : GroupInput) : GroupIdentity :=
  groupIdentity group.key group.window

theorem batchInputs_mem {group : GroupInput} (h : group ∈ batchInputs batch answers) :
    ∃ keyGroup answer, (keyGroup, answer) ∈ batch.zip answers ∧
      group ∈ mergedInputs keyGroup answer := by
  rw [batchInputs, List.mem_flatten] at h
  obtain ⟨inputs, hInputs, hGroup⟩ := h
  rw [← List.map_uncurry_zip_eq_zipWith, List.mem_map] at hInputs
  obtain ⟨⟨keyGroup, answer⟩, hPair, rfl⟩ := hInputs
  exact ⟨keyGroup, answer, hPair, hGroup⟩

/-- Every merged window of a batch has an id that fits. -/
theorem MergedBatch.input_fits (h : MergedBatch batch answers) {group : GroupInput}
    (hGroup : group ∈ batchInputs batch answers) : group.window.CoderIdFits := by
  obtain ⟨keyGroup, answer, hPair, hIn⟩ := batchInputs_mem hGroup
  obtain ⟨window, hWindow, rfl⟩ := List.mem_map.mp hIn
  obtain ⟨merge, hMerge, rfl⟩ := List.mem_map.mp (List.mem_dedup.mp hWindow)
  exact h.mergedFits answer (List.of_mem_zip hPair).2 merge hMerge

/-- Every merged window receives at least one element. -/
theorem MergedBatch.input_elements (h : MergedBatch batch answers) {group : GroupInput}
    (hGroup : group ∈ batchInputs batch answers) : group.elements ≠ [] := by
  obtain ⟨keyGroup, answer, hPair, hIn⟩ := batchInputs_mem hGroup
  obtain ⟨window, hWindow, rfl⟩ := List.mem_map.mp hIn
  obtain ⟨merge, hMerge, rfl⟩ := List.mem_map.mp (List.mem_dedup.mp hWindow)
  have hKeyGroup := (List.of_mem_zip hPair).1
  have hValid := (List.forall₂_iff_zip.mp h.valid).2 hPair
  have hPartition := partitionsRequest_of_validate hValid
  obtain ⟨original, hOriginal⟩ := List.exists_mem_of_ne_nil _ (hPartition.nonempty merge hMerge)
  obtain ⟨entry, hEntry, rfl⟩ := List.mem_map.mp ((hPartition.mem_iff original).mp
    (List.mem_flatMap.mpr ⟨merge, hMerge, hOriginal⟩))
  obtain ⟨value, hValue⟩ := List.exists_mem_of_ne_nil _ (h.elements keyGroup hKeyGroup entry hEntry)
  refine List.ne_nil_of_mem (a := value) ?_
  refine List.mem_flatMap.mpr ⟨entry, List.mem_filter.mpr ⟨hEntry, ?_⟩, hValue⟩
  exact decide_eq_true ⟨merge, hMerge, rfl, hOriginal⟩

/-- No two groups of a batch share a key and a window. -/
theorem MergedBatch.input_nodup (h : MergedBatch batch answers) :
    ((batchInputs batch answers).map GroupInput.identity).Nodup := by
  have hPairs : ((batchInputs batch answers).map fun group =>
      (group.key, group.window)).Nodup := by
    have hKeys := h.keys
    clear h
    induction batch generalizing answers with
    | nil => simp [batchInputs]
    | cons keyGroup batch ih =>
        cases answers with
        | nil => simp [batchInputs]
        | cons answer answers =>
            rw [List.map_cons, List.nodup_cons] at hKeys
            rw [batchInputs, List.zipWith_cons_cons, List.flatten_cons, List.map_append,
              List.nodup_append]
            refine ⟨?_, ih hKeys.2, ?_⟩
            · rw [mergedInputs, List.map_map]
              refine (List.nodup_dedup _).map_on ?_
              intro window _ other _ hSame
              exact congrArg Prod.snd hSame
            · intro pair hPair other hOther hSame
              obtain ⟨group, hGroup, rfl⟩ := List.mem_map.mp hPair
              obtain ⟨window, _, rfl⟩ := List.mem_map.mp hGroup
              obtain ⟨later, hLater, rfl⟩ := List.mem_map.mp hOther
              obtain ⟨laterGroup, _, hZip, hLaterIn⟩ := batchInputs_mem hLater
              obtain ⟨_, _, rfl⟩ := List.mem_map.mp hLaterIn
              have hKey : keyGroup.key = laterGroup.key := congrArg Prod.fst hSame
              exact hKeys.1 (hKey ▸ List.mem_map_of_mem (List.of_mem_zip hZip).1)
  have hIdentities : (batchInputs batch answers).map GroupInput.identity =
      ((batchInputs batch answers).map fun group => (group.key, group.window)).map
        fun pair => groupIdentity pair.1 pair.2 := by
    rw [List.map_map]
    rfl
  rw [hIdentities]
  refine hPairs.map_on ?_
  intro pair hPair other hOther hSame
  obtain ⟨group, hGroup, rfl⟩ := List.mem_map.mp hPair
  obtain ⟨later, hLater, rfl⟩ := List.mem_map.mp hOther
  obtain ⟨hKey, hWindow⟩ := groupIdentity_injective (h.input_fits hGroup) (h.input_fits hLater)
    hSame
  exact Prod.ext hKey hWindow

/-- Every merge of an answer becomes a group. -/
theorem MergedBatch.exists_input (h : MergedBatch batch answers) {answer : List MergedWindows}
    (hAnswer : answer ∈ answers) {merge : MergedWindows} (hMerge : merge ∈ answer) :
    ∃ group ∈ batchInputs batch answers, group.window = merge.merged := by
  have hLength := h.valid.length_eq
  clear h
  induction batch generalizing answers with
  | nil =>
      rw [List.length_nil, eq_comm, List.length_eq_zero_iff] at hLength
      simp [hLength] at hAnswer
  | cons keyGroup batch ih =>
      cases answers with
      | nil => cases hAnswer
      | cons first rest =>
          rw [batchInputs, List.zipWith_cons_cons, List.flatten_cons]
          rcases List.mem_cons.mp hAnswer with rfl | hLater
          · refine ⟨⟨keyGroup.key, merge.merged, collected answer keyGroup.windows merge.merged⟩,
              List.mem_append_left _ ?_, rfl⟩
            exact List.mem_map.mpr
              ⟨merge.merged, List.mem_dedup.mpr (List.mem_map_of_mem hMerge), rfl⟩
          · obtain ⟨group, hGroup, hWindow⟩ := ih hLater (by simpa using hLength)
            exact ⟨group, List.mem_append_right _ hGroup, hWindow⟩

/-- Every group of a batch is a merge of its answer. -/
theorem batchInputs_window {group : GroupInput} (h : group ∈ batchInputs batch answers) :
    ∃ answer ∈ answers, ∃ merge ∈ answer, merge.merged = group.window := by
  obtain ⟨keyGroup, answer, hPair, hIn⟩ := batchInputs_mem h
  obtain ⟨window, hWindow, rfl⟩ := List.mem_map.mp hIn
  obtain ⟨merge, hMerge, hSame⟩ := List.mem_map.mp (List.mem_dedup.mp hWindow)
  exact ⟨answer, (List.of_mem_zip hPair).2, merge, hMerge, hSame⟩

end Batch

/-! Feeding fresh groups under the default trigger without lateness. -/

/-- The key, window and values of a pane. -/
def paneContents (pane : WindowedValue) :
    Option (PrimitiveValue × BeamWindow × Multiset BeamRecord) :=
  match pane.value, pane.windows with
  | .kv key (.iterable values), [window] => some (key, window, values)
  | _, _ => none

def GroupInput.contents (group : GroupInput) : PrimitiveValue × BeamWindow × Multiset BeamRecord :=
  (group.key, group.window, (group.elements.map PaneElement.value : List BeamRecord))

theorem paneContents_groupPane (key : PrimitiveValue) (window : BeamWindow)
    (elements : List PaneElement) (timestampMillis : Int64) (pane : PaneInfo) :
    paneContents (groupPane key window elements timestampMillis pane) =
      some (GroupInput.contents ⟨key, window, elements⟩) := rfl

private theorem saturatingAdd_zero (value : Int64) : saturatingAdd value 0 = value := by
  have hLow := value.le_toInt
  have hHigh := value.toInt_lt
  have hZero : (0 : Int64).toInt = 0 := by decide
  rw [saturatingAdd, hZero, Int.add_zero, min_eq_right (by omega), max_eq_right (by omega),
    Int64.ofInt_toInt]

section Fresh

variable {spec : TriggerSpec} (hTrigger : spec.trigger = .default)
  (hLateness : spec.allowedLateness = 0) (inputWatermark processingTime : Int64)

include hLateness in
/-- Without lateness a window is expired once the watermark has passed it. -/
theorem windowExpired_zero (window : BeamWindow) :
    windowExpired spec window inputWatermark =
      decide (window.maxTimestampMillis < inputWatermark) := by
  rw [windowExpired, TriggerSpec.earliestCompletion, hLateness, saturatingAdd_zero]

/-- The default trigger counts nothing. -/
theorem onElement_default (elements : List PaneElement) :
    elements.foldl (fun runner _ => runner.onElement processingTime)
      (TriggerRunner.new .default) = TriggerRunner.new .default := by
  induction elements with
  | nil => rfl
  | cons element elements ih => exact ih

include hLateness in
/-- Before its window ends an open group with a fresh trigger waits. -/
theorem fireState_waiting {state : WindowState} (hState : state.trigger = TriggerRunner.new .default)
    (hOpen : ¬ state.window.maxTimestampMillis < inputWatermark) :
    fireState state spec inputWatermark processingTime =
      ({ state with evaluatedThisRun := true }, none) := by
  have hExpired := windowExpired_zero hLateness inputWatermark state.window
  rw [decide_eq_false hOpen] at hExpired
  refine if_pos ?_
  simp [hState, TriggerRunner.new, TriggerRunner.shouldFire, Trigger.shouldFire, triggerContext,
    hOpen, hExpired]

include hLateness in
/-- Past the end of its window an open group with elements is emitted and closed. -/
theorem fireState_ended {state : WindowState} (hOpen : state.closed = false)
    (hElements : state.elements ≠ [])
    (hEnded : state.window.maxTimestampMillis < inputWatermark) :
    (fireState state spec inputWatermark processingTime).1.closed = true ∧
      ∃ pane, (fireState state spec inputWatermark processingTime).2 = some pane ∧
        paneContents pane =
          some (GroupInput.contents ⟨state.key, state.window, state.elements⟩) := by
  have hExpired := windowExpired_zero hLateness inputWatermark state.window
  rw [decide_eq_true hEnded] at hExpired
  have hSome : state.elements.isEmpty = false := by simp [hElements]
  unfold fireState
  dsimp only [triggerContext]
  simp only [hExpired, hOpen, hSome, Bool.not_false, Bool.and_true, Bool.or_true, Bool.not_true,
    Bool.false_eq_true, if_false]
  exact ⟨trivial, _, rfl, paneContents_groupPane _ _ _ _ _⟩

include hTrigger hLateness in
/-- Feeding a group that is not stored yet. -/
theorem applyGroup_fresh {inner : InMemoryGbkState} {group : GroupInput}
    (hElements : group.elements ≠ []) (hFresh : inner.states.lookup group.identity = none) :
    (group.window.maxTimestampMillis < inputWatermark →
      (inner.applyGroup group.key group.window group.elements spec inputWatermark
          processingTime).1.states = inner.states ∧
        ∃ pane, (inner.applyGroup group.key group.window group.elements spec inputWatermark
          processingTime).2 = some pane ∧ paneContents pane = some group.contents) ∧
    (¬ group.window.maxTimestampMillis < inputWatermark →
      (inner.applyGroup group.key group.window group.elements spec inputWatermark
          processingTime).2 = none ∧
        ∃ state, state.evaluatedThisRun = true ∧
          (inner.applyGroup group.key group.window group.elements spec inputWatermark
            processingTime).1.states = inner.states.insert group.identity state) := by
  have hLookup : inner.states.lookup (groupIdentity group.key group.window) = none := hFresh
  constructor
  · intro hClosed
    unfold InMemoryGbkState.applyGroup
    split
    · exact ⟨rfl, _, rfl, paneContents_groupPane _ _ _ _ _⟩
    · dsimp only
      rw [hLookup, Option.getD_none]
      have hNew : (InMemoryGbkState.addElements (WindowState.new group.key group.window
          (TriggerRunner.new spec.trigger)) group.elements processingTime).closed = false := rfl
      have hAdded : (InMemoryGbkState.addElements (WindowState.new group.key group.window
          (TriggerRunner.new spec.trigger)) group.elements processingTime).elements ≠ [] :=
        hElements
      obtain ⟨hDone, hPane⟩ := fireState_ended hLateness inputWatermark processingTime hNew hAdded
        hClosed
      refine ⟨?_, hPane⟩
      rw [InMemoryGbkState.settle, if_pos hDone, erase_of_lookup_none hLookup]
  · intro hOpen
    have hNotDirect : ¬ inner.emitsDirectly group.window spec inputWatermark = true := by
      simp [InMemoryGbkState.emitsDirectly, windowExpired_zero hLateness, hOpen]
    rw [InMemoryGbkState.applyGroup, if_neg hNotDirect]
    dsimp only
    have hNew : (InMemoryGbkState.addElements (WindowState.new group.key group.window
        (TriggerRunner.new spec.trigger)) group.elements processingTime).trigger =
        TriggerRunner.new .default := by
      rw [hTrigger]
      exact onElement_default processingTime group.elements
    rw [hLookup, Option.getD_none, fireState_waiting hLateness inputWatermark processingTime hNew
      hOpen]
    exact ⟨rfl, _, rfl, rfl⟩

/-- Every stored group has been evaluated in this run. -/
def Evaluated (states : Store GroupIdentity WindowState) : Prop :=
  Forall (fun _ state => state.evaluatedThisRun = true) states

include hTrigger hLateness in
/-- Distinct fresh groups are emitted exactly when their windows have ended. -/
theorem applyGroups_fresh (groups : List GroupInput) {inner : InMemoryGbkState}
    (hNodup : (groups.map GroupInput.identity).Nodup)
    (hElements : ∀ group ∈ groups, group.elements ≠ [])
    (hFresh : ∀ group ∈ groups, inner.states.lookup group.identity = none)
    (hEvaluated : Evaluated inner.states) :
    ((inner.applyGroups spec inputWatermark processingTime groups).2.map paneContents =
        (groups.filter fun group =>
          decide (group.window.maxTimestampMillis < inputWatermark)).map
            fun group => some group.contents) ∧
      Evaluated (inner.applyGroups spec inputWatermark processingTime groups).1.states := by
  induction groups generalizing inner with
  | nil => exact ⟨rfl, hEvaluated⟩
  | cons group groups ih =>
      rw [List.map_cons, List.nodup_cons] at hNodup
      obtain ⟨hEmit, hStore⟩ := applyGroup_fresh hTrigger hLateness inputWatermark processingTime
        (hElements group (by simp)) (hFresh group (by simp))
      have hLater : ∀ other ∈ groups, other.identity ≠ group.identity := fun other hOther hSame =>
        hNodup.1 (hSame ▸ List.mem_map_of_mem hOther)
      rw [InMemoryGbkState.applyGroups]
      by_cases hClosed : group.window.maxTimestampMillis < inputWatermark
      · obtain ⟨hStates, pane, hPane, hContents⟩ := hEmit hClosed
        obtain ⟨hRest, hRestEvaluated⟩ := ih hNodup.2
          (fun other hOther => hElements other (by simp [hOther]))
          (fun other hOther => by rw [hStates]; exact hFresh other (by simp [hOther]))
          (by rw [hStates]; exact hEvaluated)
        refine ⟨?_, hRestEvaluated⟩
        rw [List.filter_cons_of_pos (by simpa using hClosed)]
        simp only [hPane, Option.toList_some, List.singleton_append, List.map_cons, hContents,
          hRest]
      · obtain ⟨hNone, state, hState, hStates⟩ := hStore hClosed
        obtain ⟨hRest, hRestEvaluated⟩ := ih hNodup.2
          (fun other hOther => hElements other (by simp [hOther]))
          (fun other hOther => by
            rw [hStates, AList.lookup_insert_ne (hLater other hOther)]
            exact hFresh other (by simp [hOther]))
          (by rw [hStates]; exact Forall.insert hEvaluated hState)
        refine ⟨?_, hRestEvaluated⟩
        rw [List.filter_cons_of_neg (by simpa using hClosed)]
        simp only [hNone, Option.toList_none, List.nil_append, hRest]

/-- A drain has nothing left to evaluate. -/
theorem drainReady_evaluated {inner : InMemoryGbkState} (hEvaluated : Evaluated inner.states)
    (order : List GroupIdentity → List GroupIdentity) (fuel : Nat) :
    (InMemoryGbkState.drainReady spec order inputWatermark processingTime fuel inner).2 = [] := by
  have hScan : ∀ scan output, (InMemoryGbkState.scanReady spec inputWatermark processingTime
      outputBatchSize scan inner.states output).2.2 = output := by
    intro scan output
    induction scan with
    | nil => rfl
    | cons identity scan ih =>
        rw [InMemoryGbkState.scanReady]
        split
        · rfl
        · cases hLookup : inner.states.lookup identity with
          | none => exact ih
          | some state =>
              dsimp only
              rw [if_pos (hEvaluated identity state hLookup)]
              exact ih
  cases fuel with
  | zero => rfl
  | succ fuel =>
      have hTaken : (inner.takeReady order spec inputWatermark processingTime
          outputBatchSize).2 = [] := by
        rw [InMemoryGbkState.takeReady, if_neg (by decide)]
        exact hScan _ []
      rw [InMemoryGbkState.drainReady]
      dsimp only
      rw [hTaken]
      rfl

end Fresh

/-- Process a batch of custom windows from an empty state and drain it. -/
def flushBatch (order : List GroupInput → List GroupInput)
    (scanOrder : List GroupIdentity → List GroupIdentity) (batch : List DecodedKeyGroup)
    (answers : List (List MergedWindows)) (inputPcollectionId : String) (spec : TriggerSpec)
    (inputWatermark processingTime : Int64) : Except String (List WindowedValue) := do
  let (inner, output) ← processKeyGroupsBatch InMemoryGbkState.empty order batch true
    (some fun _ => .ok answers) inputPcollectionId spec inputWatermark processingTime
  let (_, ready) := InMemoryGbkState.drainReady spec scanOrder inputWatermark processingTime
    (inner.states.entries.length + 1) inner
  pure (output ++ ready)

/-- One pane for each key and distinct merged window, whose values are those of
the windows merged into it. -/
def EmitsMergedWindows (batch : List DecodedKeyGroup) (answers : List (List MergedWindows))
    (panes : List WindowedValue) : Prop :=
  (panes.map paneContents).Perm
    ((batchInputs batch answers).map fun group => some group.contents)

/-- At the final watermark a batch is flushed precisely when every merged window
ends before it. A custom merged window never does. -/
theorem flushBatch_emits_iff (order : List GroupInput → List GroupInput)
    (scanOrder : List GroupIdentity → List GroupIdentity) (batch : List DecodedKeyGroup)
    (answers : List (List MergedWindows)) (inputPcollectionId : String) (spec : TriggerSpec)
    (processingTime : Int64) (hOrder : ∀ groups, (order groups).Perm groups)
    (hBatch : MergedBatch batch answers) (hTrigger : spec.trigger = .default)
    (hLateness : spec.allowedLateness = 0) :
    ∃ panes, flushBatch order scanOrder batch answers inputPcollectionId spec
        beamMaxTimestampMillis processingTime = .ok panes ∧
      (EmitsMergedWindows batch answers panes ↔ ∀ answer ∈ answers, ∀ merge ∈ answer,
        merge.merged.maxTimestampMillis < beamMaxTimestampMillis) := by
  obtain ⟨groups, hPerm, hProcessed⟩ := processKeyGroupsBatch_custom hOrder hBatch
    InMemoryGbkState.empty inputPcollectionId spec beamMaxTimestampMillis processingTime
  have hStart : Evaluated InMemoryGbkState.empty.states := forall_empty _
  have hFresh : ∀ group ∈ groups, InMemoryGbkState.empty.states.lookup group.identity = none :=
    fun _ _ => rfl
  obtain ⟨hOutput, hEvaluated⟩ := applyGroups_fresh hTrigger hLateness beamMaxTimestampMillis
    processingTime groups ((hPerm.map _).nodup_iff.mpr hBatch.input_nodup)
    (fun group hGroup => hBatch.input_elements (hPerm.mem_iff.mp hGroup)) hFresh hStart
  have hFlush : flushBatch order scanOrder batch answers inputPcollectionId spec
      beamMaxTimestampMillis processingTime = .ok (InMemoryGbkState.empty.applyGroups spec
        beamMaxTimestampMillis processingTime groups).2 := by
    rw [flushBatch, hProcessed]
    simp only [bind, Except.bind, pure, Except.pure, drainReady_evaluated _ _ hEvaluated,
      List.append_nil]
  refine ⟨_, hFlush, ?_⟩
  rw [EmitsMergedWindows, hOutput]
  constructor
  · intro hEmits answer hAnswer merge hMerge
    obtain ⟨group, hGroup, hWindow⟩ := hBatch.exists_input hAnswer hMerge
    have hLength := hEmits.length_eq
    rw [List.length_map, List.length_map, ← hPerm.length_eq] at hLength
    have hAll := List.length_filter_eq_length_iff.mp hLength group (hPerm.mem_iff.mpr hGroup)
    rw [← hWindow]
    exact of_decide_eq_true hAll
  · intro hEnds
    have hAll : groups.filter (fun group =>
        decide (group.window.maxTimestampMillis < beamMaxTimestampMillis)) = groups := by
      refine List.filter_eq_self.mpr fun group hGroup => decide_eq_true ?_
      obtain ⟨answer, hAnswer, merge, hMerge, hSame⟩ := batchInputs_window (hPerm.mem_iff.mp hGroup)
      rw [← hSame]
      exact hEnds answer hAnswer merge hMerge
    rw [hAll]
    exact hPerm.map _

/-- One element of one key in one custom window. -/
def customBatch : List DecodedKeyGroup :=
  [⟨.int64 1, [(.opaqueWindow "w" [1], [⟨.primitive (.bool true), 0⟩])]⟩]

/-- An answer that merges that window into the given one. -/
def customAnswers (merged : BeamWindow) : List (List MergedWindows) :=
  [[⟨merged, [.opaqueWindow "w" [1]]⟩]]

private theorem customBatch_merged {merged : BeamWindow} (hFits : merged.CoderIdFits) :
    MergedBatch customBatch (customAnswers merged) where
  keys := by simp [customBatch]
  windows := by simp [customBatch]
  custom := by simp [customBatch, BeamWindow.IsOpaque]
  elements := by simp [customBatch]
  fits := by
    intro keyGroup hGroup entry hEntry
    rw [List.mem_singleton.mp hGroup] at hEntry
    rw [List.mem_singleton.mp hEntry]
    exact (by decide : (utf8Bytes "w").length < 2 ^ 32)
  mergedFits := by
    intro answer hAnswer merge hMerge
    rw [List.mem_singleton.mp hAnswer] at hMerge
    rw [List.mem_singleton.mp hMerge]
    exact hFits
  valid := .cons rfl .nil

/-- A merged window with a known end is flushed. -/
theorem flushBatch_emits_interval :
    ∃ panes, flushBatch id id customBatch (customAnswers (.interval 0 100)) "input"
        (latenessSpec 0) beamMaxTimestampMillis 0 = .ok panes ∧
      EmitsMergedWindows customBatch (customAnswers (.interval 0 100)) panes := by
  obtain ⟨panes, hPanes, hEmits⟩ := flushBatch_emits_iff id id customBatch
    (customAnswers (.interval 0 100)) "input" (latenessSpec 0) 0 (fun _ => List.Perm.refl _)
    (customBatch_merged trivial) rfl rfl
  refine ⟨panes, hPanes, hEmits.mpr ?_⟩
  intro answer hAnswer merge hMerge
  rw [List.mem_singleton.mp hAnswer] at hMerge
  rw [List.mem_singleton.mp hMerge]
  decide

/-- A custom window merged into itself is stored and never emitted. -/
theorem not_flushBatch_emits_custom :
    ¬ ∀ (order : List GroupInput → List GroupInput)
      (scanOrder : List GroupIdentity → List GroupIdentity) (batch : List DecodedKeyGroup)
      (answers : List (List MergedWindows)) (inputPcollectionId : String) (spec : TriggerSpec)
      (processingTime : Int64), (∀ groups, (order groups).Perm groups) →
      (∀ identities, (scanOrder identities).Perm identities) → MergedBatch batch answers →
      spec.trigger = .default → spec.allowedLateness = 0 →
      ∃ panes, flushBatch order scanOrder batch answers inputPcollectionId spec
        beamMaxTimestampMillis processingTime = .ok panes ∧
        EmitsMergedWindows batch answers panes := by
  intro h
  obtain ⟨panes, hPanes, hEmits⟩ := h id id customBatch
    (customAnswers (.opaqueWindow "w" [1])) "input" (latenessSpec 0) 0
    (fun _ => List.Perm.refl _) (fun _ => List.Perm.refl _)
    (customBatch_merged (by decide : (utf8Bytes "w").length < 2 ^ 32)) rfl rfl
  have hNone : flushBatch id id customBatch (customAnswers (.opaqueWindow "w" [1])) "input"
      (latenessSpec 0) beamMaxTimestampMillis 0 = .ok [] := rfl
  rw [hNone] at hPanes
  cases hPanes
  have hLength := hEmits.length_eq
  exact absurd hLength (by decide)

end FlareDB
