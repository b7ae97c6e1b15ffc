import FlareDB.Transforms.GbkExecute

/-! The groups of one execution. A key is read from one bucket and decoded once,
so no group is fed twice, whatever the windows are merged into and in whatever
order the merged windows come. -/
namespace FlareDB

open KeyedStore Results

/-- What an execution reads: buckets share no key, and each is sorted. -/
structure GbkInput.Proper (input : GbkInput) : Prop where
  sorted : ∀ bucket ∈ input.buckets, bucket.flatten.Pairwise fun a b => a.atMost b = true
  fits : ∀ bucket ∈ input.buckets, ∀ row ∈ bucket.flatten, row.window.CoderIdFits
  apart : input.buckets.Pairwise fun first second =>
    ∀ row ∈ first.flatten, ∀ other ∈ second.flatten, row.key ≠ other.key

structure HashOrders.Proper (orders : HashOrders) : Prop where
  merge : ∀ groups, (orders.merge groups).Perm groups
  scan : ∀ identities, (orders.scan identities).Perm identities

/-- A binary key can be made of every window that the SDK merges others into. -/
def GbkContext.MergesFit (ctx : GbkContext) : Prop :=
  ∀ merger, ctx.windowMerger = some merger → ∀ requests answers, merger requests = .ok answers →
    ∀ answer ∈ answers, ∀ result ∈ answer, result.merged.CoderIdFits

/-- Groups of some key groups, none of them twice or without elements. -/
structure OfKeys (keyGroups : List DecodedKeyGroup) (groups : List GroupInput) : Prop where
  nodup : (groups.map GroupInput.identity).Nodup
  elements : ∀ group ∈ groups, group.elements ≠ []
  fits : ∀ group ∈ groups, group.window.CoderIdFits
  keys : ∀ group ∈ groups, ∃ keyGroup ∈ keyGroups, group.key = keyGroup.key

namespace OfKeys

variable {keyGroups others : List DecodedKeyGroup} {groups rest : List GroupInput}

theorem nil (keyGroups : List DecodedKeyGroup) : OfKeys keyGroups [] :=
  ⟨List.nodup_nil, by simp, by simp, by simp⟩

/-- Groups of some keys are groups of more. -/
theorem mono (h : OfKeys keyGroups groups) (hSub : ∀ keyGroup ∈ keyGroups, keyGroup ∈ others) :
    OfKeys others groups := by
  refine ⟨h.nodup, h.elements, h.fits, fun group hGroup => ?_⟩
  obtain ⟨keyGroup, hMem, hKey⟩ := h.keys group hGroup
  exact ⟨keyGroup, hSub keyGroup hMem, hKey⟩

/-- Groups of keys apart from each other may be joined. -/
theorem append (hFirst : OfKeys keyGroups groups) (hRest : OfKeys others rest)
    (hApart : ∀ keyGroup ∈ keyGroups, ∀ other ∈ others, keyGroup.key ≠ other.key) :
    OfKeys (keyGroups ++ others) (groups ++ rest) where
  nodup := by
    rw [List.map_append, List.nodup_append]
    refine ⟨hFirst.nodup, hRest.nodup, ?_⟩
    intro identity hIdentity other hOther hSame
    obtain ⟨group, hGroup, rfl⟩ := List.mem_map.mp hIdentity
    obtain ⟨later, hLater, rfl⟩ := List.mem_map.mp hOther
    obtain ⟨keyGroup, hMem, hKey⟩ := hFirst.keys group hGroup
    obtain ⟨laterKey, hLaterMem, hLaterKey⟩ := hRest.keys later hLater
    have hSameKey := (groupIdentity_injective (hFirst.fits group hGroup)
      (hRest.fits later hLater) hSame).1
    rw [hKey, hLaterKey] at hSameKey
    exact hApart keyGroup hMem laterKey hLaterMem hSameKey
  elements := by
    intro group hGroup
    exact (List.mem_append.mp hGroup).elim (hFirst.elements group) (hRest.elements group)
  fits := by
    intro group hGroup
    exact (List.mem_append.mp hGroup).elim (hFirst.fits group) (hRest.fits group)
  keys := by
    intro group hGroup
    rcases List.mem_append.mp hGroup with hHere | hLater
    · obtain ⟨keyGroup, hMem, hKey⟩ := hFirst.keys group hHere
      exact ⟨keyGroup, List.mem_append_left _ hMem, hKey⟩
    · obtain ⟨keyGroup, hMem, hKey⟩ := hRest.keys group hLater
      exact ⟨keyGroup, List.mem_append_right _ hMem, hKey⟩

/-- The order of the groups does not matter. -/
theorem perm (h : OfKeys keyGroups groups) (hPerm : rest.Perm groups) :
    OfKeys keyGroups rest where
  nodup := (hPerm.map GroupInput.identity).nodup_iff.mpr h.nodup
  elements := fun group hGroup => h.elements group (hPerm.mem_iff.mp hGroup)
  fits := fun group hGroup => h.fits group (hPerm.mem_iff.mp hGroup)
  keys := fun group hGroup => h.keys group (hPerm.mem_iff.mp hGroup)

end OfKeys

section Merging

variable {keyGroups : List DecodedKeyGroup}

/-- Key groups as the decoder makes them. -/
structure KeyGroupsDecoded (keyGroups : List DecodedKeyGroup) : Prop where
  distinct : Distinct keyGroups
  fits : ∀ keyGroup ∈ keyGroups, ∀ entry ∈ keyGroup.windows, entry.1.CoderIdFits

theorem KeyGroupsDecoded.decodesTo (h : KeyGroupsDecoded keyGroups) :
    DecodesTo (keyGroups.flatMap DecodedKeyGroup.rows) keyGroups :=
  ⟨h.distinct.keys, h.distinct.windows, h.distinct.elements, List.Perm.refl _⟩

/-- Any part of decoded key groups is decoded. -/
theorem KeyGroupsDecoded.sublist {others : List DecodedKeyGroup} (h : KeyGroupsDecoded keyGroups)
    (hSub : others.Sublist keyGroups) : KeyGroupsDecoded others where
  distinct := ⟨h.distinct.keys.sublist (hSub.map _),
    fun keyGroup hMem => h.distinct.windows keyGroup (hSub.subset hMem),
    fun keyGroup hMem => h.distinct.elements keyGroup (hSub.subset hMem),
    fun keyGroup hMem => h.distinct.nonempty keyGroup (hSub.subset hMem)⟩
  fits := fun keyGroup hMem => h.fits keyGroup (hSub.subset hMem)

/-- The first key is none of the others. -/
theorem KeyGroupsDecoded.head_apart {keyGroup : DecodedKeyGroup}
    (h : KeyGroupsDecoded (keyGroup :: keyGroups)) :
    ∀ first ∈ [keyGroup], ∀ other ∈ keyGroups, first.key ≠ other.key := by
  intro first hFirst other hOther hSame
  rw [List.mem_singleton.mp hFirst] at hSame
  have hKeys := h.distinct.keys
  rw [List.map_cons, List.nodup_cons] at hKeys
  exact hKeys.1 (hSame ▸ List.mem_map_of_mem hOther)

theorem KeyInputs.ofKeys {needsMerge : Bool} {rows : List GbkRow} {keyGroup : DecodedKeyGroup}
    {groups : List GroupInput} (h : KeyInputs needsMerge rows keyGroup groups) :
    OfKeys [keyGroup] groups where
  nodup := by
    refine List.pairwise_map.mpr ((List.pairwise_map.mp h.windows).imp_of_mem ?_)
    intro a b ha hb hNe hSame
    exact hNe (groupIdentity_injective (h.fits a ha) (h.fits b hb) hSame).2
  elements := h.elements
  fits := h.fits
  keys := fun group hGroup => ⟨keyGroup, by simp, h.key group hGroup⟩

/-- A key group without foreign windows is merged natively. -/
theorem nativeGroups_cons {needsMerge : Bool} {keyGroup : DecodedKeyGroup}
    (h : (needsMerge && !(keyGroup.windows.all fun entry => isInterval entry.1)) = false)
    (keyGroups : List DecodedKeyGroup) :
    nativeGroups needsMerge (keyGroup :: keyGroups) =
      (keyInputs needsMerge keyGroup >>= fun groups =>
        nativeGroups needsMerge keyGroups >>= fun others => pure (groups ++ others)) := by
  rw [nativeGroups, h, if_neg (by decide), keyInputs]
  cases needsMerge with
  | false => rfl
  | true => rfl

/-- The groups that need no SDK call. -/
theorem nativeGroups_ofKeys {needsMerge : Bool} {groups : List GroupInput}
    (h : KeyGroupsDecoded keyGroups) (hOk : nativeGroups needsMerge keyGroups = .ok groups) :
    OfKeys (keyGroups.filter fun keyGroup =>
      !(needsMerge && !(keyGroup.windows.all fun entry => isInterval entry.1))) groups := by
  induction keyGroups generalizing groups with
  | nil =>
      cases hOk
      exact .nil _
  | cons keyGroup keyGroups ih =>
      have hRest := h.sublist (List.sublist_cons_self keyGroup keyGroups)
      cases hCustom : needsMerge && !(keyGroup.windows.all fun entry => isInterval entry.1) with
      | true =>
          rw [nativeGroups, hCustom, if_pos rfl] at hOk
          rw [List.filter_cons_of_neg (by simpa using hCustom)]
          exact ih hRest hOk
      | false =>
          rw [nativeGroups_cons hCustom] at hOk
          rw [List.filter_cons_of_pos (by rw [hCustom]; rfl)]
          obtain ⟨own, hOwn, hOthers⟩ := bind_eq_ok hOk
          obtain ⟨others, hNative, hBoth⟩ := bind_eq_ok hOthers
          cases hBoth
          have hApart : ∀ first ∈ [keyGroup], ∀ other ∈ keyGroups.filter fun keyGroup =>
              !(needsMerge && !(keyGroup.windows.all fun entry => isInterval entry.1)),
              first.key ≠ other.key := fun first hFirst other hOther =>
            h.head_apart first hFirst other (List.mem_of_mem_filter hOther)
          refine OfKeys.append ?_ (ih hRest hNative) hApart
          cases needsMerge with
          | false =>
              cases hOwn
              refine (h.decodesTo.plainInputs ?_ (List.mem_cons_self ..)).ofKeys
              intro row hRow
              obtain ⟨other, hOther, hIn⟩ := List.mem_flatMap.mp hRow
              obtain ⟨_, entry, hEntry, hWindow⟩ := DecodedKeyGroup.rows_key hIn
              rw [hWindow]
              exact h.fits other hOther entry hEntry
          | true =>
              have hIntervals : ∀ entry ∈ keyGroup.windows, isInterval entry.1 = true := by
                simpa using hCustom
              obtain ⟨sessions, hMerged, hInputs⟩ := h.decodesTo.mergedInputs
                (List.mem_cons_self ..) hIntervals
              rw [keyInputs, if_pos rfl, hMerged] at hOwn
              cases hOwn
              exact hInputs.ofKeys

/-- Groups collected by the window they are merged into. -/
def MergedStore (groups : Store (List UInt8) (BeamWindow × List PaneElement)) : Prop :=
  Forall (fun key entry => key = entry.1.toBinaryKey ∧ entry.1.CoderIdFits ∧ entry.2 ≠ []) groups

/-- Adding elements keeps each merged window under its own key. -/
theorem addToMerged_mergedStore {groups : Store (List UInt8) (BeamWindow × List PaneElement)}
    (h : MergedStore groups) {window : BeamWindow} (hFits : window.CoderIdFits)
    {values : List PaneElement} (hValues : values ≠ []) :
    MergedStore (addToMerged groups window values) := by
  refine Forall.insert h ?_
  cases hLookup : groups.lookup window.toBinaryKey with
  | none => exact ⟨rfl, hFits, by simpa using hValues⟩
  | some entry =>
      obtain ⟨hKey, hEntryFits, _⟩ := h _ entry hLookup
      exact ⟨hKey, hEntryFits, by simp [hValues]⟩

/-- So does moving all originals. -/
theorem mergeOriginals_mergedStore {mapping : Store (List UInt8) BeamWindow}
    (hMapping : Forall (fun _ window => window.CoderIdFits) mapping)
    (originals : List (BeamWindow × List PaneElement))
    (hOriginals : ∀ entry ∈ originals, entry.2 ≠ [])
    {groups final : Store (List UInt8) (BeamWindow × List PaneElement)} (h : MergedStore groups)
    (hOk : mergeOriginals mapping originals groups = .ok final) : MergedStore final := by
  induction originals generalizing groups with
  | nil =>
      cases hOk
      exact h
  | cons entry originals ih =>
      rw [mergeOriginals] at hOk
      cases hLookup : mapping.lookup entry.1.toBinaryKey with
      | none =>
          rw [hLookup] at hOk
          cases hOk
      | some window =>
          rw [hLookup] at hOk
          exact ih (fun other hOther => hOriginals other (by simp [hOther]))
            (addToMerged_mergedStore h (hMapping _ window hLookup)
              (hOriginals entry (by simp))) hOk

/-- The groups of one key that the SDK has merged. -/
theorem applyMergeResults_ofKeys {order : List GroupInput → List GroupInput}
    (hOrder : ∀ groups, (order groups).Perm groups) {keyGroup : DecodedKeyGroup}
    (hElements : ∀ entry ∈ keyGroup.windows, entry.2 ≠ []) {answer : List MergedWindows}
    (hFits : ∀ result ∈ answer, result.merged.CoderIdFits) {groups : List GroupInput}
    (hOk : applyMergeResults order keyGroup.key keyGroup.windows answer = .ok groups) :
    OfKeys [keyGroup] groups := by
  obtain ⟨store, hStore, hGroups⟩ := bind_eq_ok hOk
  cases hGroups
  have hMapping : Forall (fun _ window => window.CoderIdFits) (originalToMerged answer) := by
    refine forall_ofPairs fun pair hPair => ?_
    obtain ⟨result, hResult, hOriginal⟩ := List.mem_flatMap.mp hPair
    obtain ⟨original, _, rfl⟩ := List.mem_map.mp hOriginal
    exact hFits result hResult
  have hMerged := mergeOriginals_mergedStore hMapping keyGroup.windows hElements
    (forall_empty _) hStore
  have hPlain : OfKeys [keyGroup] (store.entries.map fun entry =>
      ⟨keyGroup.key, entry.2.1, entry.2.2⟩) := by
    refine ⟨?_, ?_, ?_, ?_⟩
    · rw [List.map_map]
      have hKeys : store.entries.map (GroupInput.identity ∘ fun entry =>
          ⟨keyGroup.key, entry.2.1, entry.2.2⟩) =
          store.entries.keys.map (GroupIdentity.mk (encodedPrimitiveSortKey keyGroup.key)) := by
        rw [List.keys, List.map_map]
        refine List.map_congr_left fun entry hEntry => ?_
        rw [Function.comp_apply, Function.comp_apply, (hMerged.entry hEntry).1]
        rfl
      rw [hKeys]
      refine List.Nodup.map ?_ store.nodupKeys
      intro first second hSame
      exact (GroupIdentity.mk.injEq .. ▸ hSame : _ ∧ _).2
    all_goals
      intro group hGroup
      obtain ⟨entry, hEntry, rfl⟩ := List.mem_map.mp hGroup
    · exact (hMerged.entry hEntry).2.2
    · exact (hMerged.entry hEntry).2.1
    · exact ⟨keyGroup, by simp, rfl⟩
  exact hPlain.perm (hOrder _)

/-- The groups that the SDK has merged. -/
theorem applyAnswers_ofKeys {order : List GroupInput → List GroupInput}
    (hOrder : ∀ groups, (order groups).Perm groups) (h : KeyGroupsDecoded keyGroups)
    {answers : List (List MergedWindows)}
    (hFits : ∀ answer ∈ answers, ∀ result ∈ answer, result.merged.CoderIdFits)
    {groups : List GroupInput} (hOk : applyAnswers order keyGroups answers = .ok groups) :
    OfKeys keyGroups groups := by
  induction keyGroups generalizing answers groups with
  | nil =>
      cases hOk
      exact .nil _
  | cons keyGroup keyGroups ih =>
      cases answers with
      | nil =>
          cases hOk
          exact .nil _
      | cons answer answers =>
          obtain ⟨own, hOwn, hOthers⟩ := bind_eq_ok hOk
          obtain ⟨others, hRest, hBoth⟩ := bind_eq_ok hOthers
          cases hBoth
          have hFirst := applyMergeResults_ofKeys hOrder
            (h.distinct.elements keyGroup (List.mem_cons_self ..)) (hFits answer (by simp)) hOwn
          refine hFirst.append (ih (h.sublist (List.sublist_cons_self ..))
            (fun other hOther => hFits other (by simp [hOther])) hRest) h.head_apart

/-- The groups of a batch belong to its keys. -/
theorem batchGroups_ofKeys {ctx : GbkContext} (hCtx : ctx.MergesFit) {orders : HashOrders}
    (hOrders : orders.Proper) {call : BatchCall} (h : KeyGroupsDecoded call.keyGroups)
    {groups : List GroupInput} (hOk : batchGroups ctx orders call = .ok groups) :
    OfKeys call.keyGroups groups := by
  obtain ⟨native, hNative, hRest⟩ := bind_eq_ok hOk
  obtain ⟨merged, hMerged, hBoth⟩ := bind_eq_ok hRest
  cases hBoth
  have hNativeKeys := nativeGroups_ofKeys h hNative
  have hCustom : KeyGroupsDecoded (customMerges ctx.needsMerge call.keyGroups) :=
    h.sublist List.filter_sublist
  have hMergedKeys : OfKeys (customMerges ctx.needsMerge call.keyGroups) merged := by
    unfold mergedGroups at hMerged
    split at hMerged
    · cases hMerged
      exact .nil _
    · split at hMerged
      · cases hMerged
      · next merger hMerger =>
          obtain ⟨answers, hAnswers, hApplied⟩ := bind_eq_ok hMerged
          exact applyAnswers_ofKeys hOrders.merge hCustom
            (hCtx merger hMerger _ answers hAnswers) hApplied
  refine (hNativeKeys.append hMergedKeys ?_).mono ?_
  · intro keyGroup hGroup other hOther hSame
    rw [List.mem_filter] at hGroup
    rw [customMerges, List.mem_filter] at hOther
    have hOne := List.inj_on_of_nodup_map h.distinct.keys hGroup.1 hOther.1 hSame
    rw [hOne, hOther.2] at hGroup
    exact absurd hGroup.2 (by decide)
  · intro keyGroup hMem
    rcases List.mem_append.mp hMem with hHere | hThere
    · exact List.mem_of_mem_filter hHere
    · exact List.mem_of_mem_filter hThere

/-- Another order of the maps gives the same groups, in another order. -/
theorem applyAnswers_orders {order other : List GroupInput → List GroupInput}
    (hOrder : ∀ groups, (order groups).Perm groups) (hOther : ∀ groups, (other groups).Perm groups)
    {answers : List (List MergedWindows)} {groups : List GroupInput}
    (hOk : applyAnswers order keyGroups answers = .ok groups) :
    ∃ reordered, applyAnswers other keyGroups answers = .ok reordered ∧
      reordered.Perm groups := by
  induction keyGroups generalizing answers groups with
  | nil =>
      cases hOk
      exact ⟨[], rfl, List.Perm.refl _⟩
  | cons keyGroup keyGroups ih =>
      cases answers with
      | nil =>
          cases hOk
          exact ⟨[], rfl, List.Perm.refl _⟩
      | cons answer answers =>
          obtain ⟨own, hOwn, hRest⟩ := bind_eq_ok hOk
          obtain ⟨others, hOthers, hBoth⟩ := bind_eq_ok hRest
          obtain ⟨store, hStore, hGroups⟩ := bind_eq_ok hOwn
          cases hBoth
          cases hGroups
          obtain ⟨reordered, hReordered, hPerm⟩ := ih hOthers
          let merged : List GroupInput :=
            store.entries.map fun entry => ⟨keyGroup.key, entry.2.1, entry.2.2⟩
          refine ⟨other merged ++ reordered, ?_, ?_⟩
          · rw [applyAnswers, hReordered, applyMergeResults, hStore]
            rfl
          · exact ((hOther merged).trans (hOrder merged).symm).append hPerm

/-- In another order of the hash maps, a call feeds the same groups. -/
theorem batchGroups_orders {ctx : GbkContext} {orders other : HashOrders}
    (hOrders : orders.Proper) (hOther : other.Proper) {call : BatchCall}
    {groups : List GroupInput} (hOk : batchGroups ctx orders call = .ok groups) :
    ∃ reordered, batchGroups ctx other call = .ok reordered ∧ reordered.Perm groups := by
  obtain ⟨native, hNative, hRest⟩ := bind_eq_ok hOk
  obtain ⟨merged, hMerged, hBoth⟩ := bind_eq_ok hRest
  cases hBoth
  have hReordered : ∃ reordered, mergedGroups other.merge ctx.windowMerger ctx.inputPcollectionId
      (customMerges ctx.needsMerge call.keyGroups) = .ok reordered ∧ reordered.Perm merged := by
    unfold mergedGroups at hMerged ⊢
    split at hMerged
    · next hNone =>
        cases hMerged
        rw [if_pos hNone]
        exact ⟨[], rfl, List.Perm.refl _⟩
    · next hSome =>
        rw [if_neg hSome]
        cases hMerger : ctx.windowMerger with
        | none =>
            rw [hMerger] at hMerged
            cases hMerged
        | some merger =>
            rw [hMerger] at hMerged
            obtain ⟨answers, hAsked, hApplied⟩ := bind_eq_ok hMerged
            obtain ⟨reordered, hReordered, hPerm⟩ := applyAnswers_orders hOrders.merge hOther.merge
              hApplied
            refine ⟨reordered, ?_, hPerm⟩
            dsimp only
            rw [hAsked]
            exact hReordered
  obtain ⟨reordered, hSame, hPerm⟩ := hReordered
  refine ⟨native ++ reordered, ?_, hPerm.append_left native⟩
  rw [batchGroups, hNative, hSame]
  rfl

end Merging

section Calls

/-- The decoder's completed key groups only grow. -/
theorem foldl_pushRow_completed (rows : List GbkRow) (current : Option InProgressKeyGroup)
    (completed : List DecodedKeyGroup) :
    rows.foldl SortedGroupDecoder.pushRow ⟨current, completed⟩ =
      ⟨(rows.foldl SortedGroupDecoder.pushRow ⟨current, []⟩).current,
        completed ++ (rows.foldl SortedGroupDecoder.pushRow ⟨current, []⟩).completed⟩ := by
  induction rows generalizing current completed with
  | nil => simp
  | cons row rows ih =>
      have hStep : SortedGroupDecoder.pushRow ⟨current, completed⟩ row =
          ⟨(SortedGroupDecoder.pushRow ⟨current, []⟩ row).current,
            completed ++ (SortedGroupDecoder.pushRow ⟨current, []⟩ row).completed⟩ := by
        unfold SortedGroupDecoder.pushRow
        cases current with
        | none => simp
        | some current =>
            dsimp only
            split <;> simp
      rw [List.foldl_cons, List.foldl_cons, hStep, ih]
      generalize SortedGroupDecoder.pushRow ⟨current, []⟩ row = pushed
      rw [ih pushed.current pushed.completed, List.append_assoc]

/-- The calls for a bucket process the key groups of all its rows. -/
theorem bucketCalls_keyGroups (current : Option InProgressKeyGroup) (batches : List (List GbkRow)) :
    (bucketCalls current batches).flatMap BatchCall.keyGroups =
      (batches.flatten.foldl SortedGroupDecoder.pushRow ⟨current, []⟩).finish := by
  induction batches generalizing current with
  | nil => cases current <;> rfl
  | cons batch batches ih =>
      rw [bucketCalls, List.flatten_cons, List.foldl_append]
      generalize hPushed : batch.foldl SortedGroupDecoder.pushRow ⟨current, []⟩ = pushed
      simp only [SortedGroupDecoder.pushBatch, hPushed, List.flatMap_cons, ih]
      rw [foldl_pushRow_completed batches.flatten pushed.current pushed.completed]
      simp only [SortedGroupDecoder.finish, List.append_assoc]

theorem KeyGroupsDecoded.append {first second : List DecodedKeyGroup}
    (hFirst : KeyGroupsDecoded first) (hSecond : KeyGroupsDecoded second)
    (hApart : ∀ keyGroup ∈ first, ∀ other ∈ second, keyGroup.key ≠ other.key) :
    KeyGroupsDecoded (first ++ second) where
  distinct := by
    constructor
    · rw [List.map_append, List.nodup_append]
      refine ⟨hFirst.distinct.keys, hSecond.distinct.keys, ?_⟩
      intro key hKey other hOther
      obtain ⟨keyGroup, hGroup, rfl⟩ := List.mem_map.mp hKey
      obtain ⟨later, hLater, rfl⟩ := List.mem_map.mp hOther
      exact hApart keyGroup hGroup later hLater
    · exact List.forall_mem_append.mpr ⟨hFirst.distinct.windows, hSecond.distinct.windows⟩
    · exact List.forall_mem_append.mpr ⟨hFirst.distinct.elements, hSecond.distinct.elements⟩
    · exact List.forall_mem_append.mpr ⟨hFirst.distinct.nonempty, hSecond.distinct.nonempty⟩
  fits := List.forall_mem_append.mpr ⟨hFirst.fits, hSecond.fits⟩

/-- The key groups of a sorted bucket. -/
theorem bucketCalls_decoded {batches : List (List GbkRow)}
    (hSorted : batches.flatten.Pairwise fun a b => a.atMost b = true)
    (hFits : ∀ row ∈ batches.flatten, row.window.CoderIdFits) :
    KeyGroupsDecoded ((bucketCalls none batches).flatMap BatchCall.keyGroups) ∧
      ∀ keyGroup ∈ (bucketCalls none batches).flatMap BatchCall.keyGroups,
        ∃ row ∈ batches.flatten, row.key = keyGroup.key := by
  rw [bucketCalls_keyGroups]
  have hDecoding := Decoding.start.foldl batches.flatten hFits hSorted
  refine ⟨⟨hDecoding.distinct, fun keyGroup hGroup entry hEntry => ?_⟩,
    fun keyGroup hGroup => hDecoding.exists_key hGroup⟩
  obtain ⟨row, hRow, _, hWindow⟩ := hDecoding.exists_row hGroup hEntry
  rw [← hWindow]
  exact hFits row hRow

theorem GbkInput.Proper.keyGroupsDecoded {input : GbkInput} (h : input.Proper) :
    KeyGroupsDecoded (input.calls.flatMap BatchCall.keyGroups) := by
  obtain ⟨buckets, latest⟩ := input
  obtain ⟨hSorted, hFits, hApart⟩ := h
  rw [GbkInput.calls, List.flatMap_assoc]
  dsimp only at hSorted hFits hApart ⊢
  induction buckets with
  | nil => exact ⟨⟨List.nodup_nil, by simp, by simp, by simp⟩, by simp⟩
  | cons batches buckets ih =>
      rw [List.pairwise_cons] at hApart
      obtain ⟨hFirst, hFirstKeys⟩ := bucketCalls_decoded (hSorted batches (by simp))
        (hFits batches (by simp))
      have hRest := ih (fun bucket hBucket => hSorted bucket (by simp [hBucket]))
        (fun bucket hBucket => hFits bucket (by simp [hBucket])) hApart.2
      rw [List.flatMap_cons]
      refine hFirst.append hRest fun keyGroup hGroup other hOther hSame => ?_
      obtain ⟨row, hRow, hKey⟩ := hFirstKeys keyGroup hGroup
      obtain ⟨bucket, hBucket, hIn⟩ := List.mem_flatMap.mp hOther
      obtain ⟨_, hKeys⟩ := bucketCalls_decoded (hSorted bucket (by simp [hBucket]))
        (hFits bucket (by simp [hBucket]))
      obtain ⟨otherRow, hOtherRow, hOtherKey⟩ := hKeys other hIn
      exact hApart.1 bucket hBucket row hRow otherRow hOtherRow
        (hKey.trans (hSame.trans hOtherKey.symm))

variable {ctx : GbkContext} (hCtx : ctx.MergesFit) {orders : HashOrders} (hOrders : orders.Proper)

include hCtx hOrders in
/-- The groups of some calls, none of them twice. -/
theorem callsGroups_ofKeys {calls : List BatchCall}
    (h : KeyGroupsDecoded (calls.flatMap BatchCall.keyGroups)) :
    OfKeys (calls.flatMap BatchCall.keyGroups) (callsGroups ctx orders calls) := by
  induction calls with
  | nil => exact .nil _
  | cons call calls ih =>
      rw [List.flatMap_cons] at h
      rw [callsGroups, List.flatMap_cons, List.flatMap_cons]
      have hApart : ∀ keyGroup ∈ call.keyGroups, ∀ other ∈ calls.flatMap BatchCall.keyGroups,
          keyGroup.key ≠ other.key := by
        have hKeys := h.distinct.keys
        rw [List.map_append, List.nodup_append] at hKeys
        intro keyGroup hGroup other hOther
        exact hKeys.2.2 _ (List.mem_map_of_mem hGroup) _ (List.mem_map_of_mem hOther)
      refine OfKeys.append ?_ (ih (h.sublist (List.sublist_append_right ..))) hApart
      cases hOk : batchGroups ctx orders call with
      | error error => exact .nil _
      | ok groups =>
          exact batchGroups_ofKeys hCtx hOrders (h.sublist (List.sublist_append_left ..)) hOk

include hOrders in
/-- So it is for all calls of a run. -/
theorem callsGroups_orders {other : HashOrders} (hOther : other.Proper) {calls : List BatchCall}
    (hMerges : ∀ call ∈ calls, ∃ groups, batchGroups ctx orders call = .ok groups) :
    (∀ call ∈ calls, ∃ groups, batchGroups ctx other call = .ok groups) ∧
      (callsGroups ctx other calls).Perm (callsGroups ctx orders calls) := by
  induction calls with
  | nil => exact ⟨by simp, List.Perm.refl _⟩
  | cons call calls ih =>
      obtain ⟨groups, hGroups⟩ := hMerges call (by simp)
      obtain ⟨reordered, hReordered, hPerm⟩ := batchGroups_orders hOrders hOther hGroups
      obtain ⟨hRest, hRestPerm⟩ := ih fun later hLater => hMerges later (by simp [hLater])
      refine ⟨List.forall_mem_cons.mpr ⟨⟨reordered, hReordered⟩, hRest⟩, ?_⟩
      rw [callsGroups, callsGroups, List.flatMap_cons, List.flatMap_cons, hGroups, hReordered]
      exact hPerm.append hRestPerm

end Calls
end FlareDB
