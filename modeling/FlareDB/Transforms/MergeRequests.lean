import FlareDB.Coders.PickledLeaves
import FlareDB.Lib.Results
import FlareDB.Transforms.MergeAnswer
import FlareDB.Transforms.WindowIdentity

/-! Window sets handed to an SDK that merges them. Each set of a batch travels
under a nonce of its own, and an answer is accepted when it has one result for
each of them. -/
namespace FlareDB

open ByteDecoder KeyedStore

def globalWindowCoder : String := "beam:coder:global_window:v1"

def intervalWindowCoder : String := "beam:coder:interval_window:v1"

def WindowCoder.fromUrnKnown (urn : String) : Option WindowCoder :=
  if urn = globalWindowCoder then some .global
  else if urn = intervalWindowCoder then some .interval
  else none

def WindowCoder.tryFromCoder (coderId : String) (coders : Store String Coder) :
    Except String WindowCoder :=
  match coders.lookup coderId with
  | none =>
      match WindowCoder.fromUrnKnown coderId with
      | some coder => .ok coder
      | none => .error ("unsupported Beam window coder id/URN: " ++ coderId)
  | some coder =>
      let urn := coder.spec.elim coderId CoderSpec.urn
      match decide (urn = lengthPrefixCoder), coder.componentCoderIds with
      | true, [innerCoderId] => .ok (.opaqueLengthPrefixed innerCoderId)
      | _, _ =>
          match WindowCoder.fromUrnKnown urn with
          | some coder => .ok coder
          | none => .error ("unsupported Beam window coder URN: " ++ urn)

/-- The first window of each canonical key, past those already seen. -/
def distinctFrom (seen : List String) : List BeamWindow → List BeamWindow
  | [] => []
  | window :: windows =>
      if window.canonicalKey ∈ seen then distinctFrom seen windows
      else window :: distinctFrom (window.canonicalKey :: seen) windows

def distinctWindows (windows : List BeamWindow) : List BeamWindow :=
  distinctFrom [] windows

structure MergeCacheKey where
  strategyId : String
  windows : List String
deriving DecidableEq

def mergeCacheKey (strategyId : String) (windows : List BeamWindow) : MergeCacheKey where
  strategyId := strategyId
  windows := (windows.map BeamWindow.canonicalKey).mergeSort (decide <| · ≤ ·)

/-- A window set with its nonce. -/
abbrev MergeRequest := List UInt8 × List BeamWindow

/-- Nothing is written when a window is not of the coder, or when there are more
than an `i32` counts: the source panics. -/
def encodeMergeInput (windowCoder : WindowCoder) (request : MergeRequest) : Option (List UInt8) :=
  if request.2.length < 2 ^ 31 then do
    let outer ← encodeWindows [.global] .global
    let windows ← encodeWindows request.2 windowCoder
    pure (encodeTimestampMillis beamMinTimestampMillis ++ (outer ++ (encodePaneInfo .noFiring ++
      (encodeLengthDelimited request.1 ++ windows))))
  else none

def encodeMergeInputs (windowCoder : WindowCoder) (requests : List MergeRequest) :
    Option (List UInt8) :=
  (requests.mapM (encodeMergeInput windowCoder)).map List.flatten

/-- The results of an answer by nonce. -/
def resultsByNonce :
    List (List UInt8 × List MergedWindows) → Store (List UInt8) (List MergedWindows) →
      Except String (Store (List UInt8) (List MergedWindows))
  | [], store => .ok store
  | (nonce, merged) :: answers, store =>
      if nonce ∈ store then .error "SDK MergeWindows returned a duplicate nonce"
      else resultsByNonce answers (store.insert nonce merged)

/-- The results of the requests in order, and what is left. -/
def takeResults :
    List MergeRequest → Store (List UInt8) (List MergedWindows) →
      Except String (List (List MergedWindows) × Store (List UInt8) (List MergedWindows))
  | [], store => .ok ([], store)
  | (nonce, windows) :: requests, store =>
      match store.lookup nonce with
      | none => .error "SDK MergeWindows returned no result for a batch element"
      | some merged => do
          validateMergeResult windows merged
          let (results, left) ← takeResults requests (store.erase nonce)
          pure (merged :: results, left)

/-- What `invoke_batch` makes of the output of its bundle. -/
def acceptBatch (windowCoder : WindowCoder) (requests : List MergeRequest)
    (output : List UInt8) : Except String (List (List MergedWindows)) :=
  match decodeMergeOutputBatch windowCoder output with
  | .panic => .error "malformed SDK MergeWindows output: window decoding panicked"
  | .error _ => .error "decoding SDK MergeWindows output"
  | .ok answers _ => do
      let byNonce ← resultsByNonce answers ∅
      let (results, left) ← takeResults requests byNonce
      if left.keys = [] then .ok results
      else .error "SDK MergeWindows returned results for unknown nonce(s)"

/-! Distinct windows and cache keys. -/

theorem mem_distinctFrom {seen : List String} {windows : List BeamWindow} {window : BeamWindow} :
    window ∈ distinctFrom seen windows ↔ window ∈ windows ∧ window.canonicalKey ∉ seen := by
  induction windows generalizing seen with
  | nil => simp [distinctFrom]
  | cons first rest ih =>
      rw [distinctFrom]
      split
      next hSeen =>
        rw [ih, List.mem_cons]
        constructor
        · exact fun h => ⟨Or.inr h.1, h.2⟩
        · rintro ⟨hFirst | hRest, hNot⟩
          · exact absurd (hFirst ▸ hSeen) hNot
          · exact ⟨hRest, hNot⟩
      next hNew =>
        rw [List.mem_cons, ih, List.mem_cons, List.mem_cons]
        constructor
        · rintro (rfl | ⟨hRest, hNot⟩)
          · exact ⟨Or.inl rfl, hNew⟩
          · exact ⟨Or.inr hRest, fun hSeen => hNot (Or.inr hSeen)⟩
        · rintro ⟨hFirst | hRest, hNot⟩
          · exact Or.inl hFirst
          · by_cases hSame : window.canonicalKey = first.canonicalKey
            · exact Or.inl (BeamWindow.canonicalKey_injective hSame)
            · exact Or.inr ⟨hRest, fun h => h.elim hSame hNot⟩

@[simp]
theorem mem_distinctWindows {windows : List BeamWindow} {window : BeamWindow} :
    window ∈ distinctWindows windows ↔ window ∈ windows := by
  rw [distinctWindows, mem_distinctFrom]
  simp

/-- Two sets with one cache key are the same windows of the same strategy. -/
theorem mergeCacheKey_inj {strategyId otherId : String} {windows others : List BeamWindow}
    (h : mergeCacheKey strategyId windows = mergeCacheKey otherId others) :
    strategyId = otherId ∧ windows.Perm others := by
  obtain ⟨hStrategy, hSorted⟩ := MergeCacheKey.mk.inj h
  have hKeys : (windows.map BeamWindow.canonicalKey).Perm (others.map BeamWindow.canonicalKey) := by
    have hSort := List.mergeSort_perm (windows.map BeamWindow.canonicalKey) (decide <| · ≤ ·)
    refine hSort.symm.trans ?_
    rw [hSorted]
    exact List.mergeSort_perm _ _
  have hInjective : BeamWindow.canonicalKey.Injective := fun _ _ => BeamWindow.canonicalKey_injective
  exact ⟨hStrategy, (List.map_perm_map_iff hInjective).mp hKeys⟩

/-! Validation looks at the set of requested windows only. -/

theorem checkOriginals_congr {requested others : List String}
    (h : ∀ key, key ∈ requested ↔ key ∈ others) (originals : List BeamWindow)
    (consumed : List String) :
    checkOriginals requested originals consumed = checkOriginals others originals consumed := by
  induction originals generalizing consumed with
  | nil => rfl
  | cons original originals ih => simp only [checkOriginals, h, ih]

theorem checkMerges_congr {requested others : List String}
    (h : ∀ key, key ∈ requested ↔ key ∈ others) (merges : List MergedWindows)
    (consumed : List String) :
    checkMerges requested merges consumed = checkMerges others merges consumed := by
  induction merges generalizing consumed with
  | nil => rfl
  | cons merge merges ih => simp only [checkMerges, checkOriginals_congr h, ih]

theorem validateMergeResult_congr {requested others : List BeamWindow}
    (h : ∀ window, window ∈ requested ↔ window ∈ others) {merged : List MergedWindows}
    (hValid : validateMergeResult requested merged = .ok ()) :
    validateMergeResult others merged = .ok () := by
  have hKeys : ∀ key, key ∈ requested.map BeamWindow.canonicalKey ↔
      key ∈ others.map BeamWindow.canonicalKey := by
    intro key
    simp only [List.mem_map, h]
  simp only [validateMergeResult] at hValid ⊢
  rw [checkMerges_congr hKeys] at hValid
  obtain ⟨consumed, hConsumed, hMissing⟩ := Results.bind_eq_ok hValid
  rw [hConsumed]
  split at hMissing
  next hNone =>
    refine if_pos (List.eq_nil_iff_forall_not_mem.mpr fun key hKey => ?_)
    rw [List.mem_filter, List.mem_dedup, ← hKeys] at hKey
    have hAbsent := List.eq_nil_iff_forall_not_mem.mp hNone key
    rw [List.mem_filter, List.mem_dedup] at hAbsent
    exact hAbsent hKey
  · cases hMissing

/-! Accepted batches. -/

/-- Every request has the result under its nonce, which is a valid one for it,
and there is no other result. -/
structure AcceptsBatch (requests : List MergeRequest)
    (answers : List (List UInt8 × List MergedWindows)) (results : List (List MergedWindows)) :
    Prop where
  nonces : (answers.map Prod.fst).Perm (requests.map Prod.fst)
  distinct : (requests.map Prod.fst).Nodup
  answered : List.Forall₂ (fun request result => (request.1, result) ∈ answers ∧
    validateMergeResult request.2 result = .ok ()) requests results

theorem resultsByNonce_ok {answers : List (List UInt8 × List MergedWindows)}
    {store final : Store (List UInt8) (List MergedWindows)}
    (h : resultsByNonce answers store = .ok final) :
    final.keys.Perm (answers.map Prod.fst ++ store.keys) ∧
      ∀ nonce merged, final.lookup nonce = some merged →
        (nonce, merged) ∈ answers ∨ store.lookup nonce = some merged := by
  induction answers generalizing store with
  | nil =>
      cases h
      exact ⟨List.Perm.refl _, fun _ _ hLookup => Or.inr hLookup⟩
  | cons answer answers ih =>
      obtain ⟨nonce, merged⟩ := answer
      simp only [resultsByNonce] at h
      split at h
      · cases h
      next hFresh =>
        obtain ⟨hKeys, hFinal⟩ := ih h
        constructor
        · rw [keys_insert_fresh (mt AList.mem_keys.mpr hFresh)] at hKeys
          exact hKeys.trans List.perm_middle
        · intro other result hLookup
          rcases hFinal other result hLookup with hLater | hStored
          · exact Or.inl (List.mem_cons_of_mem _ hLater)
          · by_cases hSame : other = nonce
            · subst hSame
              rw [AList.lookup_insert, Option.some.injEq] at hStored
              exact Or.inl (hStored ▸ List.mem_cons_self)
            · rw [AList.lookup_insert_ne hSame] at hStored
              exact Or.inr hStored

theorem takeResults_ok {requests : List MergeRequest}
    {store left : Store (List UInt8) (List MergedWindows)} {results : List (List MergedWindows)}
    (h : takeResults requests store = .ok (results, left)) :
    store.keys.Perm (requests.map Prod.fst ++ left.keys) ∧
      List.Forall₂ (fun request result => store.lookup request.1 = some result ∧
        validateMergeResult request.2 result = .ok ()) requests results := by
  induction requests generalizing store results with
  | nil =>
      cases h
      exact ⟨List.Perm.refl _, List.Forall₂.nil⟩
  | cons request requests ih =>
      obtain ⟨nonce, windows⟩ := request
      simp only [takeResults] at h
      split at h
      · cases h
      next merged hMerged =>
        obtain ⟨_, hValid, hRest⟩ := Results.bind_eq_ok h
        obtain ⟨⟨later, last⟩, hTaken, hPure⟩ := Results.bind_eq_ok hRest
        cases hPure
        obtain ⟨hKeys, hLater⟩ := ih hTaken
        constructor
        · have hSplit := (entries_perm_erase hMerged).map Sigma.fst
          exact hSplit.trans (hKeys.cons nonce)
        · refine List.Forall₂.cons ⟨hMerged, hValid⟩ (hLater.imp ?_)
          rintro other result ⟨hLookup, hFits⟩
          have hNe : other.1 ≠ nonce := by
            intro hSame
            rw [hSame, AList.lookup_erase] at hLookup
            cases hLookup
          rw [AList.lookup_erase_ne hNe] at hLookup
          exact ⟨hLookup, hFits⟩

theorem decodeMergeOutputs_rest {windowCoder : WindowCoder} {fuel : Nat} {bytes rest : List UInt8}
    {answers : List (List UInt8 × List MergedWindows)}
    (h : decodeMergeOutputs windowCoder fuel bytes = .ok answers rest) : rest = [] := by
  induction fuel generalizing bytes answers with
  | zero => cases h
  | succ fuel ih =>
      rw [decodeMergeOutputs, Decoder.bind_apply, Decoder.remaining] at h
      dsimp only at h
      split at h
      next hEmpty =>
        cases h
        exact List.length_eq_zero_iff.mp hEmpty
      · rw [Decoder.bind_apply] at h
        split at h
        next result after _ =>
          rw [Decoder.bind_apply] at h
          split at h
          next results last hLater =>
            cases h
            exact ih hLater
          · cases h
          · cases h
        · cases h
        · cases h

/-- A batch is accepted only when the answer has one valid result for each of
its requests. -/
theorem acceptBatch_ok {windowCoder : WindowCoder} {requests : List MergeRequest}
    {output : List UInt8} {results : List (List MergedWindows)}
    (h : acceptBatch windowCoder requests output = .ok results) :
    ∃ answers, decodeMergeOutputBatch windowCoder output = .ok answers [] ∧
      AcceptsBatch requests answers results := by
  simp only [acceptBatch] at h
  split at h
  · cases h
  · cases h
  next answers rest hDecoded =>
    obtain ⟨byNonce, hByNonce, hTaken⟩ := Results.bind_eq_ok h
    obtain ⟨⟨taken, left⟩, hResults, hLeft⟩ := Results.bind_eq_ok hTaken
    simp only at hLeft
    split at hLeft <;> cases hLeft
    next hNone =>
      obtain ⟨hKeys, hLookup⟩ := resultsByNonce_ok hByNonce
      obtain ⟨hStore, hAnswered⟩ := takeResults_ok hResults
      rw [AList.keys_empty, List.append_nil] at hKeys
      rw [hNone, List.append_nil] at hStore
      have hEnd : rest = [] := decodeMergeOutputs_rest hDecoded
      refine ⟨answers, hEnd ▸ hDecoded, hKeys.symm.trans hStore, ?_, hAnswered.imp ?_⟩
      · exact hStore.nodup_iff.mp byNonce.nodupKeys
      · rintro request result ⟨hFound, hValid⟩
        refine ⟨(hLookup _ _ hFound).resolve_right ?_, hValid⟩
        simp

/-! The wire form of a batch. -/

/-- A request as its reader finds it. -/
def readMergeInput (windowCoder : WindowCoder) : MergeDecoder MergeRequest := do
  let _ ← decodeWindowedValueHeader .global
  let nonce ← decodeNestedBytes
  let windows ← decodeWindowIterable windowCoder
  pure (nonce, windows)

theorem readMergeInput_delimited {windowCoder : WindowCoder} {request : MergeRequest}
    (hNonce : request.1.length < 2 ^ 64) (hWindows : ∀ window ∈ request.2, windowCoder.Matches window)
    {bytes : List UInt8} (hBytes : encodeMergeInput windowCoder request = some bytes) :
    Delimited (readMergeInput windowCoder) bytes request := by
  have hGlobal : ∀ window ∈ [BeamWindow.global], WindowCoder.global.Matches window := by
    simp [WindowCoder.Matches]
  simp only [encodeMergeInput] at hBytes
  split at hBytes
  next hCount =>
    obtain ⟨outer, hOuter, hRest⟩ := Option.bind_eq_some_iff.mp hBytes
    obtain ⟨windows, hEncoded, hPure⟩ := Option.bind_eq_some_iff.mp hRest
    cases hPure
    have hHeader : Delimited (decodeWindowedValueHeader .global)
        (encodeTimestampMillis beamMinTimestampMillis ++ (outer ++ encodePaneInfo .noFiring))
        (beamMinTimestampMillis, [.global], .noFiring) :=
      ((encodeTimestampMillis_unwinding _).delimited.mapError _).bind
        (((WindowCoder.Matches.windows_unwinding hGlobal (by decide) hOuter).delimited.mapError _).bind
          (((encodePaneInfo_unwinding _).delimited.mapError _).bind_pure rfl))
    have hBody := (decodeNestedBytes_delimited hNonce).bind
      (f := fun nonce => do
        let windows ← decodeWindowIterable windowCoder
        pure (nonce, windows))
      ((decodeWindowIterable_delimited hWindows hCount hEncoded).bind_pure rfl)
    have hAll := hHeader.bind (f := fun _ => do
      let nonce ← decodeNestedBytes
      let windows ← decodeWindowIterable windowCoder
      pure (nonce, windows)) hBody
    simpa [readMergeInput, List.append_assoc] using hAll
  · cases hBytes

/-- Whoever reads the input of a batch finds every window set under its nonce. -/
theorem readMergeInputs_encoded {windowCoder : WindowCoder} {requests : List MergeRequest}
    (hNonces : ∀ request ∈ requests, request.1.length < 2 ^ 64)
    (hWindows : ∀ request ∈ requests, ∀ window ∈ request.2, windowCoder.Matches window)
    {bytes : List UInt8} (hBytes : encodeMergeInputs windowCoder requests = some bytes) :
    (readMergeInput windowCoder).times requests.length bytes = .ok requests [] := by
  obtain ⟨parts, hParts, rfl⟩ := Option.map_eq_some_iff.mp hBytes
  have hAll : Delimited ((readMergeInput windowCoder).times requests.length) parts.flatten requests :=
    Delimited.times requests (fun request hMem _ hRequest =>
      readMergeInput_delimited (hNonces request hMem) (hWindows request hMem) hRequest) hParts
  have hRead := hAll []
  rwa [List.append_nil] at hRead

end FlareDB
