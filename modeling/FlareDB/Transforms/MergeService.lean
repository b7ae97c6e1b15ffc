import FlareDB.Lib.Runs
import FlareDB.Transforms.MergeRequests
import Mathlib.Logic.Function.Basic

/-! The service that has window sets merged by an SDK. Calls share a cache of
answers and a table of registered bundles; a bundle is registered under the lock
of the table, and a batch of sets that miss the cache travels in one exchange. -/
namespace FlareDB

open ByteDecoder KeyedStore

structure MergeStrategy where
  hasWindowFn : Bool
  mergeStatus : Int
  windowCoderId : String

/-- What the service reads of a pipeline: the strategy of each collection, the
strategies, and the coders. -/
structure MergeComponents where
  pcollections : Store String String
  strategies : Store String MergeStrategy
  coders : Store String Coder

structure MergeBundle where
  descriptorId : String
  sourceTransformId : String
  sinkTransformId : String
  windowCoder : WindowCoder

def needsMergeStatus : Int := 2

def mergeCacheMaxEntries : Nat := 1024

/-- The strategy of the collection whose windows are to be merged. -/
def MergeComponents.mergingStrategy (components : MergeComponents) (pcollectionId : String) :
    Except String String :=
  match components.pcollections.lookup pcollectionId with
  | none => .error ("PCollection not found: " ++ pcollectionId)
  | some strategyId =>
      match components.strategies.lookup strategyId with
      | none => .error ("windowing strategy not found for PCollection " ++ pcollectionId ++ ": " ++
          strategyId)
      | some strategy =>
          if strategy.mergeStatus = needsMergeStatus then .ok strategyId
          else .error ("GroupByKey requested merging for PCollection " ++ pcollectionId ++
            ", but windowing strategy " ++ strategyId ++ " has merge status " ++
            toString strategy.mergeStatus)

/-- The bundle of a merge descriptor with a fresh id. -/
def MergeComponents.buildMergeDescriptor (components : MergeComponents) (uuid strategyId : String) :
    Except String MergeBundle :=
  match components.strategies.lookup strategyId with
  | none => .error ("windowing strategy not found: " ++ strategyId)
  | some strategy =>
      if strategy.hasWindowFn = false then
        .error ("windowing strategy " ++ strategyId ++ " has no window function")
      else if strategy.windowCoderId ∉ components.coders then
        .error ("windowing strategy " ++ strategyId ++ " references missing window coder " ++
          strategy.windowCoderId)
      else
        match WindowCoder.tryFromCoder strategy.windowCoderId components.coders with
        | .error _ => .error ("resolving window coder " ++ strategy.windowCoderId ++
            " for strategy " ++ strategyId)
        | .ok windowCoder =>
            let descriptorId := "flare-merge-windows-" ++ uuid
            .ok ⟨descriptorId, descriptorId ++ "/read", descriptorId ++ "/write", windowCoder⟩

abbrev MergeCache := Store MergeCacheKey (List MergedWindows)

/-- A full cache gives up the key its hash map lists first. -/
def insertMergeCache (oldest : MergeCache → Option MergeCacheKey) (cache : MergeCache)
    (key : MergeCacheKey) (value : List MergedWindows) : MergeCache :=
  if mergeCacheMaxEntries ≤ cache.entries.length ∧ key ∉ cache then
    match oldest cache with
    | some victim => (cache.erase victim).insert key value
    | none => cache.insert key value
  else cache.insert key value

/-- The window sets of a call, of one strategy. -/
structure MergeOrder where
  strategyId : String
  requests : List (List BeamWindow)

def MergeOrder.distinct (order : MergeOrder) : List (List BeamWindow) :=
  order.requests.map distinctWindows

/-- The sets that have no result yet. -/
def misses : List (List BeamWindow) → List (Option (List MergedWindows)) → List (List BeamWindow)
  | windows :: rest, none :: results => windows :: misses rest results
  | _ :: rest, some _ :: results => misses rest results
  | _, _ => []

/-- The results that were missing, put where they belong. -/
def fillMisses : List (Option (List MergedWindows)) → List (List MergedWindows) →
    List (Option (List MergedWindows))
  | none :: results, merged :: rest => some merged :: fillMisses results rest
  | some result :: results, rest => some result :: fillMisses results rest
  | results, _ => results

def collectResults (results : List (Option (List MergedWindows))) :
    Except String (List (List MergedWindows)) :=
  results.mapM fun result => match result with
    | some merged => .ok merged
    | none => .error "missing MergeWindows batch result"

/-- An exchange under way: the output read so far, whether its last chunk came,
and whether the bundle succeeded. -/
structure MergeExchange where
  requests : List MergeRequest
  sent : List UInt8
  output : List UInt8
  complete : Bool
  response : Option Bool

/-- Where a call of `merge_windows_batch_for_pcollection` stands. -/
inductive MergeCall where
  | idle
  | looking (order : MergeOrder)
  | preparing (order : MergeOrder) (results : List (Option (List MergedWindows)))
  | registering (order : MergeOrder) (results : List (Option (List MergedWindows)))
      (bundle : MergeBundle)
  | prepared (order : MergeOrder) (results : List (Option (List MergedWindows)))
      (bundle : MergeBundle)
  | exchanging (order : MergeOrder) (results : List (Option (List MergedWindows)))
      (bundle : MergeBundle) (exchange : MergeExchange)
  | storing (order : MergeOrder) (results : List (Option (List MergedWindows)))
      (merged : List (List MergedWindows))
  | finished (order : MergeOrder) (result : Except String (List (List MergedWindows)))
  | failed (error : String)
  | panicked

/-- The results of a call that succeeded. -/
def MergeCall.results : MergeCall → Option (MergeOrder × List (List MergedWindows))
  | .finished order (.ok results) => some (order, results)
  | _ => none

theorem MergeCall.eq_of_results {phase : MergeCall} {order : MergeOrder}
    {results : List (List MergedWindows)} (h : phase.results = some (order, results)) :
    phase = .finished order (.ok results) := by
  unfold MergeCall.results at h
  split at h <;> cases h
  rfl

/-- An exchange whose answer was accepted. -/
structure AcceptedExchange where
  strategyId : String
  windowCoder : WindowCoder
  requests : List MergeRequest
  sent : List UInt8
  output : List UInt8
  results : List (List MergedWindows)

def MergeExchange.accepted (exchange : MergeExchange) (order : MergeOrder) (bundle : MergeBundle)
    (merged : List (List MergedWindows)) : AcceptedExchange where
  strategyId := order.strategyId
  windowCoder := bundle.windowCoder
  requests := exchange.requests
  sent := exchange.sent
  output := exchange.output
  results := merged

/-- The service with the calls on it. `registered` lists the strategies whose
bundle the SDK registered. -/
structure MergeRun where
  cache : MergeCache
  bundles : Store String MergeBundle
  holder : Option Nat
  calls : Nat → MergeCall
  registered : List String
  exchanges : List AcceptedExchange

inductive MergeAction where
  | merge (call : Nat) (pcollectionId : String) (requests : List (List BeamWindow))
  | lookUp (call : Nat)
  | prepare (call : Nat) (uuid : String)
  | register (call : Nat) (response : Except String Bool)
  | invoke (call : Nat) (nonces : List (List UInt8))
  | chunk (call : Nat) (data : List UInt8) (isLast : Bool)
  | close (call : Nat)
  | respond (call : Nat) (response : Except String Bool)
  | accept (call : Nat)
  | fail (call : Nat) (error : String)
  | store (call : Nat) (oldest : MergeCache → Option MergeCacheKey)

namespace MergeRun

def start : MergeRun where
  cache := ∅
  bundles := ∅
  holder := none
  calls _ := .idle
  registered := []
  exchanges := []

def move (run : MergeRun) (call : Nat) (phase : MergeCall) : MergeRun :=
  { run with calls := Function.update run.calls call phase }

/-- A call that misses nothing ends once its bundle is prepared. -/
def continued (order : MergeOrder) (results : List (Option (List MergedWindows)))
    (bundle : MergeBundle) : MergeCall :=
  if misses order.distinct results = [] then .finished order (collectResults results)
  else .prepared order results bundle

def lock (run : MergeRun) (call : Nat) (phase : MergeCall) : MergeRun :=
  { run.move call phase with holder := some call }

def unlock (run : MergeRun) (call : Nat) (phase : MergeCall) : MergeRun :=
  { run.move call phase with holder := none }

def addBundle (run : MergeRun) (strategyId : String) (bundle : MergeBundle) : MergeRun :=
  { run with
    bundles := run.bundles.insert strategyId bundle
    registered := strategyId :: run.registered }

def addExchange (run : MergeRun) (exchange : AcceptedExchange) : MergeRun :=
  { run with exchanges := run.exchanges ++ [exchange] }

/-- Put the results of an exchange into the cache, set by set. -/
def cacheResults (oldest : MergeCache → Option MergeCacheKey) (strategyId : String) :
    List (List BeamWindow × List MergedWindows) → MergeCache → MergeCache
  | [], cache => cache
  | (windows, merged) :: rest, cache =>
      cacheResults oldest strategyId rest
        (insertMergeCache oldest cache (mergeCacheKey strategyId windows) merged)

def setCache (run : MergeRun) (cache : MergeCache) : MergeRun :=
  { run with cache := cache }

def step (components : MergeComponents) (run : MergeRun) : MergeAction → Option MergeRun
  | .merge call pcollectionId requests =>
      match run.calls call with
      | .idle =>
          if requests = [] then some (run.move call (.finished ⟨"", []⟩ (.ok [])))
          else
            match components.mergingStrategy pcollectionId with
            | .error error => some (run.move call (.failed error))
            | .ok strategyId => some (run.move call (.looking ⟨strategyId, requests⟩))
      | _ => none
  | .lookUp call =>
      match run.calls call with
      | .looking order => some (run.move call (.preparing order (order.distinct.map fun windows =>
          run.cache.lookup (mergeCacheKey order.strategyId windows))))
      | _ => none
  | .prepare call uuid =>
      match run.calls call, run.holder with
      | .preparing order results, none =>
          match run.bundles.lookup order.strategyId with
          | some bundle => some (run.move call (continued order results bundle))
          | none =>
              match components.buildMergeDescriptor uuid order.strategyId with
              | .error error => some (run.move call (.failed error))
              | .ok bundle => some (run.lock call (.registering order results bundle))
      | _, _ => none
  | .register call response =>
      match run.calls call with
      | .registering order results bundle =>
          match response with
          | .error error => some (run.unlock call (.failed error))
          | .ok false => some (run.unlock call (.failed
              ("unexpected MergeWindows register response for strategy " ++ order.strategyId)))
          | .ok true => some ((run.addBundle order.strategyId bundle).unlock call
              (continued order results bundle))
      | _ => none
  | .invoke call nonces =>
      match run.calls call with
      | .prepared order results bundle =>
          if nonces.length = (misses order.distinct results).length then
            let requests := nonces.zip (misses order.distinct results)
            match encodeMergeInputs bundle.windowCoder requests with
            | none => some (run.move call .panicked)
            | some sent => some (run.move call
                (.exchanging order results bundle ⟨requests, sent, [], false, none⟩))
          else none
      | _ => none
  | .chunk call data isLast =>
      match run.calls call with
      | .exchanging order results bundle exchange =>
          if exchange.complete then none
          else some (run.move call (.exchanging order results bundle
            { exchange with output := exchange.output ++ data, complete := isLast }))
      | _ => none
  | .close call =>
      match run.calls call with
      | .exchanging _ _ _ exchange =>
          if exchange.complete then none
          else some (run.move call (.failed "MergeWindows output stream closed before is_last"))
      | _ => none
  | .respond call response =>
      match run.calls call with
      | .exchanging order results bundle exchange =>
          if exchange.response.isSome then none
          else
            match response with
            | .error error => some (run.move call (.failed error))
            | .ok success => some (run.move call (.exchanging order results bundle
                { exchange with response := some success }))
      | _ => none
  | .accept call =>
      match run.calls call with
      | .exchanging order results bundle exchange =>
          match exchange.complete, exchange.response with
          | true, some true =>
              match acceptBatch bundle.windowCoder exchange.requests exchange.output with
              | .error error => some (run.move call (.failed error))
              | .ok merged => some ((run.addExchange (exchange.accepted order bundle merged)).move
                  call (.storing order results merged))
          | true, some false => some (run.move call (.failed "MergeWindows bundle did not succeed"))
          | _, _ => none
      | _ => none
  | .fail call error =>
      -- a send that fails, or the watchdog on an exchange
      match run.calls call with
      | .prepared _ _ _ => some (run.move call (.failed error))
      | .exchanging _ _ _ _ => some (run.move call (.failed error))
      | _ => none
  | .store call oldest =>
      match run.calls call with
      | .storing order results merged =>
          some ((run.setCache (cacheResults oldest order.strategyId
            ((misses order.distinct results).zip merged) run.cache)).move call
              (.finished order (collectResults (fillMisses results merged))))
      | _ => none

/-- A hash map that is not empty lists one of its own keys first. -/
def Listing (_ : MergeRun) : MergeAction → Prop
  | .store _ oldest => ∀ cache, cache.entries ≠ [] → ∃ key ∈ cache, oldest cache = some key
  | _ => True

/-- An SDK answered this set of windows of this strategy so, in an exchange that
was accepted and whose input said what was asked. -/
def Answered (run : MergeRun) (strategyId : String) (windows : List BeamWindow)
    (merged : List MergedWindows) : Prop :=
  ∃ exchange ∈ run.exchanges, exchange.strategyId = strategyId ∧
    ∃ answers request, decodeMergeOutputBatch exchange.windowCoder exchange.output = .ok answers [] ∧
      request ∈ exchange.requests ∧ request.2.Perm windows ∧ (request.1, merged) ∈ answers ∧
        validateMergeResult request.2 merged = .ok ()

/-- A request is the same in any order of its windows. -/
theorem Answered.perm {run : MergeRun} {strategyId : String} {windows others : List BeamWindow}
    {merged : List MergedWindows} (h : run.Answered strategyId windows merged)
    (hPerm : windows.Perm others) : run.Answered strategyId others merged := by
  obtain ⟨exchange, hExchange, hStrategy, answers, request, hDecoded, hRequest, hSame, hRest⟩ := h
  exact ⟨exchange, hExchange, hStrategy, answers, request, hDecoded, hRequest, hSame.trans hPerm,
    hRest⟩

/-- The results there are answer their window sets. -/
def Fills (run : MergeRun) (order : MergeOrder) (results : List (Option (List MergedWindows))) :
    Prop :=
  List.Forall₂ (fun windows result => ∀ merged, result = some merged →
    run.Answered order.strategyId windows merged) order.distinct results

/-- What a call knows where it stands. -/
def Holds (run : MergeRun) : MergeCall → Prop
  | .preparing order results => run.Fills order results
  | .registering order results _ =>
      run.Fills order results ∧ run.bundles.lookup order.strategyId = none
  | .prepared order results bundle =>
      run.Fills order results ∧ run.bundles.lookup order.strategyId = some bundle
  | .exchanging order results bundle exchange =>
      (run.Fills order results ∧ run.bundles.lookup order.strategyId = some bundle) ∧
        exchange.requests.map Prod.snd = misses order.distinct results ∧
          encodeMergeInputs bundle.windowCoder exchange.requests = some exchange.sent
  | .storing order results merged =>
      run.Fills order results ∧
        List.Forall₂ (run.Answered order.strategyId) (misses order.distinct results) merged
  | .finished order (.ok results) =>
      List.Forall₂ (run.Answered order.strategyId) order.distinct results
  | _ => True

/-- An exchange went over the bundle of its strategy, and its answer was
accepted. -/
structure SoundExchange (run : MergeRun) (exchange : AcceptedExchange) : Prop where
  bundle : ∃ bundle, run.bundles.lookup exchange.strategyId = some bundle ∧
    bundle.windowCoder = exchange.windowCoder
  sent : encodeMergeInputs exchange.windowCoder exchange.requests = some exchange.sent
  accepted : ∃ answers, decodeMergeOutputBatch exchange.windowCoder exchange.output = .ok answers [] ∧
    AcceptsBatch exchange.requests answers exchange.results

structure Sound (run : MergeRun) : Prop where
  calls : ∀ call, run.Holds (run.calls call)
  locked : ∀ call order results bundle, run.calls call = .registering order results bundle →
    run.holder = some call
  cached : ∀ strategyId windows merged,
    run.cache.lookup (mergeCacheKey strategyId windows) = some merged →
      run.Answered strategyId windows merged
  bounded : run.cache.entries.length ≤ mergeCacheMaxEntries
  registered : run.registered = run.bundles.keys
  exchanges : ∀ exchange ∈ run.exchanges, run.SoundExchange exchange

/-- Before the first call nothing is promised. -/
theorem Sound.start : start.Sound where
  calls _ := trivial
  locked _ _ _ _ h := by simp [MergeRun.start] at h
  cached _ _ _ h := by simp [MergeRun.start] at h
  bounded := Nat.zero_le _
  registered := rfl
  exchanges _ h := by simp [MergeRun.start] at h

/-! More exchanges and more bundles leave what is known. -/

/-- An answer that was given stays given. -/
theorem Answered.mono {run after : MergeRun} {strategyId : String} {windows : List BeamWindow}
    {merged : List MergedWindows} (h : run.Answered strategyId windows merged)
    (hExchanges : run.exchanges ⊆ after.exchanges) : after.Answered strategyId windows merged := by
  obtain ⟨exchange, hExchange, hRest⟩ := h
  exact ⟨exchange, hExchanges hExchange, hRest⟩

/-- So do the results that were filled in. -/
theorem Fills.mono {run after : MergeRun} {order : MergeOrder}
    {results : List (Option (List MergedWindows))} (h : run.Fills order results)
    (hExchanges : run.exchanges ⊆ after.exchanges) : after.Fills order results :=
  h.imp fun _ _ hFills merged hMerged => (hFills merged hMerged).mono hExchanges

/-- So does what a call relies on. -/
theorem Holds.mono {run after : MergeRun} {phase : MergeCall} (h : run.Holds phase)
    (hExchanges : run.exchanges ⊆ after.exchanges)
    (hBundles : ∀ strategyId bundle, run.bundles.lookup strategyId = some bundle →
      after.bundles.lookup strategyId = some bundle)
    (hNone : ∀ order results bundle, phase = .registering order results bundle →
      after.bundles.lookup order.strategyId = run.bundles.lookup order.strategyId) :
    after.Holds phase := by
  cases phase with
  | preparing order results => exact Fills.mono h hExchanges
  | registering order results bundle =>
      exact ⟨h.1.mono hExchanges, (hNone order results bundle rfl).trans h.2⟩
  | prepared order results bundle => exact ⟨h.1.mono hExchanges, hBundles _ _ h.2⟩
  | exchanging order results bundle exchange =>
      exact ⟨⟨h.1.1.mono hExchanges, hBundles _ _ h.1.2⟩, h.2⟩
  | storing order results merged =>
      exact ⟨h.1.mono hExchanges, h.2.imp fun _ _ hAnswered => hAnswered.mono hExchanges⟩
  | finished order result =>
      cases result with
      | ok results => exact List.Forall₂.imp (fun _ _ hAnswered => hAnswered.mono hExchanges) h
      | error _ => trivial
  | idle => trivial
  | looking _ => trivial
  | failed _ => trivial
  | panicked => trivial

/-- An exchange stays sound as bundles are added. -/
theorem SoundExchange.mono {run after : MergeRun} {exchange : AcceptedExchange}
    (h : run.SoundExchange exchange)
    (hBundles : ∀ strategyId bundle, run.bundles.lookup strategyId = some bundle →
      after.bundles.lookup strategyId = some bundle) : after.SoundExchange exchange where
  bundle := by
    obtain ⟨bundle, hLookup, hCoder⟩ := h.bundle
    exact ⟨bundle, hBundles _ _ hLookup, hCoder⟩
  sent := h.sent
  accepted := h.accepted

/-- A call moves on, and perhaps takes or gives back the lock. -/
theorem Sound.moved {run : MergeRun} (h : run.Sound) {call : Nat} {phase : MergeCall}
    {holder : Option Nat} (hHolds : run.Holds phase)
    (hSelf : ∀ order results bundle, phase = .registering order results bundle → holder = some call)
    (hOthers : ∀ other, other ≠ call → run.holder = some other → holder = some other) :
    Sound { run.move call phase with holder := holder } where
  calls := by
    refine (Function.forall_update_iff run.calls fun _ phase =>
      Holds { run.move call _ with holder := holder } phase).mpr ⟨?_, fun other _ => ?_⟩
    · exact hHolds.mono (fun _ hMem => hMem) (fun _ _ hKey => hKey) fun _ _ _ _ => rfl
    · exact (h.calls other).mono (fun _ hMem => hMem) (fun _ _ hKey => hKey) fun _ _ _ _ => rfl
  locked other order results bundle hOther := by
    have hCalls : Function.update run.calls call phase other =
        .registering order results bundle := hOther
    by_cases hSame : other = call
    · subst hSame
      rw [Function.update_self] at hCalls
      exact hSelf order results bundle hCalls
    · rw [Function.update_of_ne hSame] at hCalls
      exact hOthers other hSame (h.locked other order results bundle hCalls)
  cached := h.cached
  bounded := h.bounded
  registered := h.registered
  exchanges exchange hMem := (h.exchanges exchange hMem).mono fun _ _ hKey => hKey

/-- A call that moves on within what it may rely on keeps the service sound. -/
theorem Sound.move {run : MergeRun} (h : run.Sound) {call : Nat} {phase : MergeCall}
    (hHolds : run.Holds phase)
    (hNot : ∀ order results bundle, phase ≠ .registering order results bundle) :
    (run.move call phase).Sound :=
  h.moved hHolds (fun order results bundle hPhase => absurd hPhase (hNot order results bundle))
    fun _ _ hHolder => hHolder

/-- So does one that gives up the lock. -/
theorem Sound.unlock {run : MergeRun} (h : run.Sound) {call : Nat} {phase : MergeCall}
    (hHolder : run.holder = some call) (hHolds : run.Holds phase)
    (hNot : ∀ order results bundle, phase ≠ .registering order results bundle) :
    (run.unlock call phase).Sound := by
  refine h.moved hHolds
    (fun order results bundle hPhase => absurd hPhase (hNot order results bundle)) ?_
  intro other hOther hElse
  rw [hHolder] at hElse
  exact absurd (Option.some.inj hElse).symm hOther

/-! Results that are put together. -/

/-- Answers to the misses fill the gaps the cache has left. -/
theorem Fills.fillMisses {run : MergeRun} {order : MergeOrder}
    {results : List (Option (List MergedWindows))} {merged : List (List MergedWindows)}
    (h : run.Fills order results)
    (hMerged : List.Forall₂ (run.Answered order.strategyId) (misses order.distinct results) merged) :
    run.Fills order (FlareDB.fillMisses results merged) := by
  have hAll : ∀ {windows : List (List BeamWindow)} {results : List (Option (List MergedWindows))}
      {merged : List (List MergedWindows)},
      List.Forall₂ (fun windows result => ∀ merged, result = some merged →
        run.Answered order.strategyId windows merged) windows results →
      List.Forall₂ (run.Answered order.strategyId) (misses windows results) merged →
      List.Forall₂ (fun windows result => ∀ merged, result = some merged →
        run.Answered order.strategyId windows merged) windows
          (FlareDB.fillMisses results merged) := by
    intro windows results merged hFills
    induction hFills generalizing merged with
    | nil => exact fun _ => List.Forall₂.nil
    | @cons first result rest results hFirst hRest ih =>
        cases result with
        | none =>
            rintro (_ | ⟨hHere, hLater⟩)
            refine List.Forall₂.cons (fun merged hSame => ?_) (ih hLater)
            exact Option.some.inj hSame ▸ hHere
        | some found => exact fun hMisses => List.Forall₂.cons hFirst (ih hMisses)
  exact hAll h hMerged

/-- Results that are all there are the answers to the call's windows. -/
theorem Fills.collectResults {run : MergeRun} {order : MergeOrder}
    {results : List (Option (List MergedWindows))} (h : run.Fills order results) :
    run.Holds (.finished order (FlareDB.collectResults results)) := by
  cases hAll : FlareDB.collectResults results with
  | error error => trivial
  | ok all =>
      have hSome : List.Forall₂ (fun result merged => result = some merged) results all := by
        refine (Results.mapM_eq_ok_iff.mp hAll).imp fun result merged hResult => ?_
        cases result with
        | none => cases hResult
        | some found =>
            cases hResult
            rfl
      have hFlip : List.Forall₂ (fun result windows => ∀ merged, result = some merged →
          run.Answered order.strategyId windows merged) results order.distinct := List.Forall₂.flip h
      exact Results.forall₂_compose hFlip hSome fun result windows merged hFills hSame =>
        hFills merged hSame

/-- A call goes on to ask for what is missing, or has finished. -/
theorem Fills.continued {run : MergeRun} {order : MergeOrder}
    {results : List (Option (List MergedWindows))} {bundle : MergeBundle}
    (h : run.Fills order results) (hBundle : run.bundles.lookup order.strategyId = some bundle) :
    run.Holds (continued order results bundle) := by
  unfold MergeRun.continued
  split
  · exact h.collectResults
  · exact ⟨h, hBundle⟩

/-! The cache. -/

theorem length_insert_of_lookup {key : MergeCacheKey} {cache : MergeCache} (h : key ∈ cache)
    (merged : List MergedWindows) : (cache.insert key merged).entries.length = cache.entries.length := by
  obtain ⟨found, hFound⟩ := Option.isSome_iff_exists.mp (AList.lookup_isSome.mpr h)
  exact (length_erase hFound).symm

/-- The cache grows by one entry at most. -/
theorem length_insert_le (key : MergeCacheKey) (merged : List MergedWindows) (cache : MergeCache) :
    (cache.insert key merged).entries.length ≤ cache.entries.length + 1 := by
  cases hLookup : cache.lookup key with
  | some found =>
      rw [length_insert_of_lookup (AList.lookup_isSome.mp (by simp [hLookup]))]
      exact Nat.le_succ _
  | none =>
      have hSame : (cache.insert key merged).entries.length = (cache.erase key).entries.length + 1 :=
        rfl
      rw [hSame, erase_of_lookup_none hLookup]

section Cache

variable {oldest : MergeCache → Option MergeCacheKey}

/-- A full cache makes room before it takes a new key. -/
theorem insertMergeCache_length
    (hOldest : ∀ cache, cache.entries ≠ [] → ∃ key ∈ cache, oldest cache = some key)
    {cache : MergeCache} (h : cache.entries.length ≤ mergeCacheMaxEntries) (key : MergeCacheKey)
    (merged : List MergedWindows) :
    (insertMergeCache oldest cache key merged).entries.length ≤ mergeCacheMaxEntries := by
  unfold insertMergeCache
  split
  next hFull =>
    have hEntries : cache.entries ≠ [] := by
      intro hNone
      rw [hNone] at hFull
      exact absurd hFull.1 (by decide)
    obtain ⟨victim, hVictim, hFirst⟩ := hOldest cache hEntries
    obtain ⟨found, hFound⟩ := Option.isSome_iff_exists.mp (AList.lookup_isSome.mpr hVictim)
    have hErased := length_erase hFound
    have hInserted := length_insert_le key merged (cache.erase victim)
    rw [hFirst]
    dsimp only
    omega
  next hRoom =>
    by_cases hKey : key ∈ cache
    · rw [length_insert_of_lookup hKey]
      exact h
    · have hLess : ¬ mergeCacheMaxEntries ≤ cache.entries.length := fun hFull => hRoom ⟨hFull, hKey⟩
      have hInserted := length_insert_le key merged cache
      omega

/-- What is in the cache after an insertion was inserted or was there before. -/
theorem insertMergeCache_lookup {cache : MergeCache} {key other : MergeCacheKey}
    {merged found : List MergedWindows}
    (h : (insertMergeCache oldest cache key merged).lookup other = some found) :
    (other = key ∧ found = merged) ∨ cache.lookup other = some found := by
  have hErased : ∀ before : MergeCache, (before.insert key merged).lookup other = some found →
      (other = key ∧ found = merged) ∨ before.lookup other = some found := by
    intro before hLookup
    by_cases hSame : other = key
    · subst hSame
      rw [AList.lookup_insert] at hLookup
      exact Or.inl ⟨rfl, (Option.some.inj hLookup).symm⟩
    · rw [AList.lookup_insert_ne hSame] at hLookup
      exact Or.inr hLookup
  unfold insertMergeCache at h
  split at h
  · split at h
    next victim _ =>
      refine (hErased _ h).imp id fun hLookup => ?_
      by_cases hSame : other = victim
      · rw [hSame, AList.lookup_erase] at hLookup
        cases hLookup
      · rwa [AList.lookup_erase_ne hSame] at hLookup
    · exact hErased _ h
  · exact hErased _ h

/-- However many results are cached, the cache keeps its bound. -/
theorem cacheResults_length
    (hOldest : ∀ cache, cache.entries ≠ [] → ∃ key ∈ cache, oldest cache = some key)
    (strategyId : String) (results : List (List BeamWindow × List MergedWindows)) {cache : MergeCache}
    (h : cache.entries.length ≤ mergeCacheMaxEntries) :
    (cacheResults oldest strategyId results cache).entries.length ≤ mergeCacheMaxEntries := by
  induction results generalizing cache with
  | nil => exact h
  | cons result rest ih => exact ih (insertMergeCache_length hOldest h _ _)

/-- What is found after caching was cached now or before. -/
theorem cacheResults_lookup (strategyId : String)
    {results : List (List BeamWindow × List MergedWindows)} {cache : MergeCache}
    {key : MergeCacheKey} {found : List MergedWindows}
    (h : (cacheResults oldest strategyId results cache).lookup key = some found) :
    (∃ result ∈ results, key = mergeCacheKey strategyId result.1 ∧ found = result.2) ∨
      cache.lookup key = some found := by
  induction results generalizing cache with
  | nil => exact Or.inr h
  | cons result rest ih =>
      rcases ih h with ⟨later, hLater, hSame⟩ | hLookup
      · exact Or.inl ⟨later, List.mem_cons_of_mem _ hLater, hSame⟩
      · rcases insertMergeCache_lookup hLookup with hHere | hBefore
        · exact Or.inl ⟨result, List.mem_cons_self, hHere⟩
        · exact Or.inr hBefore

end Cache

/-! The steps. -/

theorem Sound.holds {run : MergeRun} (h : run.Sound) {call : Nat} {phase : MergeCall}
    (hPhase : run.calls call = phase) : run.Holds phase :=
  hPhase ▸ h.calls call

/-- A cached answer was given for the same windows. -/
theorem Sound.fills_lookUp {run : MergeRun} (h : run.Sound) (order : MergeOrder) :
    run.Fills order (order.distinct.map fun windows =>
      run.cache.lookup (mergeCacheKey order.strategyId windows)) := by
  refine List.forall₂_map_right_iff.mpr (List.forall₂_same.mpr fun windows _ merged hMerged => ?_)
  exact h.cached order.strategyId windows merged hMerged

/-- Registering a bundle keeps the service sound. -/
theorem Sound.addBundle {run : MergeRun} (h : run.Sound) {call : Nat} {order : MergeOrder}
    {results : List (Option (List MergedWindows))} {bundle : MergeBundle}
    (hRegistering : run.calls call = .registering order results bundle) :
    ((run.addBundle order.strategyId bundle).unlock call (continued order results bundle)).Sound := by
  have hHolder := h.locked call order results bundle hRegistering
  obtain ⟨hFills, hNone⟩ := h.holds hRegistering
  have hBundles : ∀ strategyId found, run.bundles.lookup strategyId = some found →
      (run.addBundle order.strategyId bundle).bundles.lookup strategyId = some found := by
    intro strategyId found hFound
    have hNe : strategyId ≠ order.strategyId := by
      rintro rfl
      rw [hNone] at hFound
      cases hFound
    exact (AList.lookup_insert_ne hNe).trans hFound
  have hHere : (run.addBundle order.strategyId bundle).bundles.lookup order.strategyId =
      some bundle := AList.lookup_insert ..
  have hContinued : (run.addBundle order.strategyId bundle).Holds (continued order results bundle) :=
    Fills.continued (hFills.mono fun _ hMem => hMem) hHere
  have hNot : ∀ other found left, continued order results bundle ≠ .registering other found left := by
    intro other found left
    unfold continued
    split <;> exact fun hSame => by cases hSame
  refine ⟨?_, fun other found left right hOther => ?_, h.cached, h.bounded, ?_, ?_⟩
  · refine (Function.forall_update_iff run.calls fun _ phase =>
      ((run.addBundle order.strategyId bundle).unlock call _).Holds phase).mpr ⟨?_, ?_⟩
    · exact hContinued.mono (fun _ hMem => hMem) (fun _ _ hKey => hKey) fun _ _ _ _ => rfl
    · intro other hOther
      refine (h.calls other).mono (fun _ hMem => hMem) hBundles fun waiting found left hSame => ?_
      have hElse := h.locked other waiting found left hSame
      rw [hHolder] at hElse
      exact absurd (Option.some.inj hElse).symm hOther
  · have hCalls : Function.update run.calls call (continued order results bundle) other =
        .registering found left right := hOther
    by_cases hSame : other = call
    · subst hSame
      rw [Function.update_self] at hCalls
      exact absurd hCalls (hNot _ _ _)
    · rw [Function.update_of_ne hSame] at hCalls
      have hElse := h.locked other found left right hCalls
      rw [hHolder] at hElse
      exact absurd (Option.some.inj hElse).symm hSame
  · have hFresh : order.strategyId ∉ run.bundles.keys :=
      mt AList.mem_keys.mpr (AList.lookup_eq_none.mp hNone)
    have hKeys : ((run.addBundle order.strategyId bundle).unlock call
        (continued order results bundle)).bundles.keys = order.strategyId :: run.bundles.keys :=
      keys_insert_fresh hFresh bundle
    rw [hKeys, ← h.registered]
    rfl
  · exact fun exchange hExchange => (h.exchanges exchange hExchange).mono hBundles

/-- Recording a sound exchange keeps it. -/
theorem Sound.addExchange {run : MergeRun} (h : run.Sound) {exchange : AcceptedExchange}
    (hExchange : run.SoundExchange exchange) : (run.addExchange exchange).Sound where
  calls call := (h.calls call).mono (List.subset_append_left _ _) (fun _ _ hKey => hKey)
    fun _ _ _ _ => rfl
  locked := h.locked
  cached strategyId windows merged hCached :=
    (h.cached strategyId windows merged hCached).mono (List.subset_append_left _ _)
  bounded := h.bounded
  registered := h.registered
  exchanges other hOther := by
    rcases List.mem_append.mp hOther with hOther | hOther
    · exact (h.exchanges other hOther).mono fun _ _ hKey => hKey
    · rw [List.mem_singleton.mp hOther]
      exact hExchange.mono fun _ _ hKey => hKey

/-- The results of an accepted exchange answer the sets that were missing. -/
theorem answered_of_accepts {run : MergeRun} {exchange : AcceptedExchange}
    (hExchange : exchange ∈ run.exchanges) {answers : List (List UInt8 × List MergedWindows)}
    (hDecoded : decodeMergeOutputBatch exchange.windowCoder exchange.output = .ok answers [])
    (hAccepts : AcceptsBatch exchange.requests answers exchange.results) :
    List.Forall₂ (run.Answered exchange.strategyId) (exchange.requests.map Prod.snd)
      exchange.results := by
  refine List.forall₂_map_left_iff.mpr (Results.forall₂_imp_mem ?_ hAccepts.answered)
  rintro request hRequest result ⟨hAnswer, hValid⟩
  exact ⟨exchange, hExchange, rfl, answers, request, hDecoded, hRequest, List.Perm.refl _, hAnswer,
    hValid⟩

/-- Accepting an answer keeps it. -/
theorem Sound.accept {run : MergeRun} (h : run.Sound) {call : Nat} {order : MergeOrder}
    {results : List (Option (List MergedWindows))} {bundle : MergeBundle} {exchange : MergeExchange}
    (hExchanging : run.calls call = .exchanging order results bundle exchange)
    {merged : List (List MergedWindows)}
    (hMerged : acceptBatch bundle.windowCoder exchange.requests exchange.output = .ok merged) :
    ((run.addExchange (exchange.accepted order bundle merged)).move call
      (.storing order results merged)).Sound := by
  have hHolds : run.Holds (.exchanging order results bundle exchange) := h.holds hExchanging
  obtain ⟨⟨hFills, hBundle⟩, hRequests, hSent⟩ := hHolds
  obtain ⟨answers, hDecoded, hAccepts⟩ := acceptBatch_ok hMerged
  have hSound : run.SoundExchange (exchange.accepted order bundle merged) :=
    ⟨⟨bundle, hBundle, rfl⟩, hSent, answers, hDecoded, hAccepts⟩
  have hIn : exchange.accepted order bundle merged ∈
      (run.addExchange (exchange.accepted order bundle merged)).exchanges :=
    List.mem_append_right _ List.mem_cons_self
  have hAnswered := answered_of_accepts hIn hDecoded hAccepts
  have hSets : (exchange.accepted order bundle merged).requests.map Prod.snd =
      misses order.distinct results := hRequests
  rw [hSets] at hAnswered
  exact (h.addExchange hSound).move ⟨hFills.mono (List.subset_append_left _ _), hAnswered⟩ (by simp)

/-- Caching what was answered keeps it. -/
theorem Sound.setCache {run : MergeRun} (h : run.Sound)
    {oldest : MergeCache → Option MergeCacheKey}
    (hOldest : ∀ cache, cache.entries ≠ [] → ∃ key ∈ cache, oldest cache = some key)
    {strategyId : String} {windows : List (List BeamWindow)} {merged : List (List MergedWindows)}
    (hMerged : List.Forall₂ (run.Answered strategyId) windows merged) :
    (run.setCache (cacheResults oldest strategyId (windows.zip merged) run.cache)).Sound where
  calls call := (h.calls call).mono (fun _ hMem => hMem) (fun _ _ hKey => hKey) fun _ _ _ _ => rfl
  locked := h.locked
  cached otherId others found hFound := by
    rcases cacheResults_lookup strategyId hFound with ⟨result, hResult, hKey, rfl⟩ | hBefore
    · obtain ⟨rfl, hPerm⟩ := mergeCacheKey_inj hKey
      have hAnswered : run.Answered otherId result.1 result.2 :=
        List.forall₂_iff_zip.mp hMerged |>.2 hResult
      exact hAnswered.perm hPerm.symm
    · exact h.cached otherId others found hBefore
  bounded := cacheResults_length hOldest strategyId _ h.bounded
  registered := h.registered
  exchanges exchange hExchange := (h.exchanges exchange hExchange).mono fun _ _ hKey => hKey

/-- Every step keeps the service sound. -/
theorem Sound.step {components : MergeComponents} {run after : MergeRun} {action : MergeAction}
    (h : run.Sound) (hListing : run.Listing action) (hStep : run.step components action = some after) :
    after.Sound := by
  cases action with
  | merge call pcollectionId requests =>
      simp only [MergeRun.step] at hStep
      split at hStep
      · split at hStep
        · cases hStep
          exact h.move List.Forall₂.nil (by simp)
        · split at hStep <;> cases hStep
          · exact h.move trivial (by simp)
          · exact h.move trivial (by simp)
      · cases hStep
  | lookUp call =>
      simp only [MergeRun.step] at hStep
      split at hStep <;> cases hStep
      exact h.move (h.fills_lookUp _) (by simp)
  | prepare call uuid =>
      simp only [MergeRun.step] at hStep
      split at hStep
      next order results hPreparing hFree =>
        have hFills : run.Fills order results := h.holds hPreparing
        split at hStep
        next bundle hBundle =>
          cases hStep
          refine h.move (hFills.continued hBundle) fun other found left => ?_
          unfold continued
          split <;> exact fun hSame => by cases hSame
        next hNone =>
          split at hStep <;> cases hStep
          · exact h.move trivial (by simp)
          · refine h.moved ⟨hFills, hNone⟩ (fun _ _ _ _ => rfl) fun other _ hElse => ?_
            rw [hFree] at hElse
            cases hElse
      · cases hStep
  | register call response =>
      simp only [MergeRun.step] at hStep
      split at hStep
      next order results bundle hRegistering =>
        have hHolder := h.locked call order results bundle hRegistering
        split at hStep <;> cases hStep
        · exact h.unlock hHolder trivial (by simp)
        · exact h.unlock hHolder trivial (by simp)
        · exact h.addBundle hRegistering
      · cases hStep
  | invoke call nonces =>
      simp only [MergeRun.step] at hStep
      split at hStep
      next order results bundle hPrepared =>
        have hFills : run.Fills order results ∧ run.bundles.lookup order.strategyId = some bundle :=
          h.holds hPrepared
        split at hStep
        next hLength =>
          split at hStep <;> cases hStep
          · exact h.move trivial (by simp)
          next sent hSent =>
            refine h.move ⟨hFills, ?_, hSent⟩ (by simp)
            exact List.map_snd_zip (Nat.le_of_eq hLength.symm)
        · cases hStep
      · cases hStep
  | chunk call data isLast =>
      simp only [MergeRun.step] at hStep
      split at hStep
      next order results bundle exchange hExchanging =>
        have hHolds := h.holds hExchanging
        split at hStep <;> cases hStep
        exact h.move hHolds (by simp)
      · cases hStep
  | close call =>
      simp only [MergeRun.step] at hStep
      split at hStep
      · split at hStep <;> cases hStep
        exact h.move trivial (by simp)
      · cases hStep
  | respond call response =>
      simp only [MergeRun.step] at hStep
      split at hStep
      next order results bundle exchange hExchanging =>
        have hHolds := h.holds hExchanging
        split at hStep
        · cases hStep
        · split at hStep <;> cases hStep
          · exact h.move trivial (by simp)
          · exact h.move hHolds (by simp)
      · cases hStep
  | accept call =>
      simp only [MergeRun.step] at hStep
      split at hStep
      next order results bundle exchange hExchanging =>
        split at hStep
        · split at hStep <;> cases hStep
          · exact h.move trivial (by simp)
          next merged hMerged => exact h.accept hExchanging hMerged
        · cases hStep
          exact h.move trivial (by simp)
        · cases hStep
      · cases hStep
  | fail call error =>
      simp only [MergeRun.step] at hStep
      split at hStep <;> cases hStep
      · exact h.move trivial (by simp)
      · exact h.move trivial (by simp)
  | store call oldest =>
      simp only [MergeRun.step] at hStep
      split at hStep <;> cases hStep
      next order results merged hStoring =>
        obtain ⟨hFills, hMerged⟩ := h.holds hStoring
        refine (h.setCache hListing hMerged).move ?_ (by simp)
        exact (hFills.fillMisses hMerged).collectResults.mono (fun _ hMem => hMem)
          (fun _ _ hKey => hKey) fun _ _ _ hSame => by cases hSame

/-- In every interleaving of calls, with any nonces, any answers of the SDK and
any eviction: a call that succeeds has for each of its window sets, in order, a
result that validates against it and that the SDK gave for the same windows of
the same strategy; an accepted exchange used each of its nonces once, and was
answered under exactly these; and a strategy has one bundle. -/
theorem merges_answer_their_requests {components : MergeComponents} {run : MergeRun}
    (hRun : Runs.Reaches (step components) Listing start run) :
    (∀ call order results, run.calls call = .finished order (.ok results) →
      List.Forall₂ (fun windows merged => validateMergeResult windows merged = .ok () ∧
        run.Answered order.strategyId (distinctWindows windows) merged) order.requests results) ∧
      (∀ exchange ∈ run.exchanges,
        (exchange.requests.map Prod.fst).Nodup ∧
        (∃ answers, decodeMergeOutputBatch exchange.windowCoder exchange.output = .ok answers [] ∧
          (answers.map Prod.fst).Perm (exchange.requests.map Prod.fst)) ∧
        (∃ bundle, run.bundles.lookup exchange.strategyId = some bundle ∧
          bundle.windowCoder = exchange.windowCoder) ∧
        ((∀ request ∈ exchange.requests, request.1.length < 2 ^ 64 ∧
            ∀ window ∈ request.2, exchange.windowCoder.Matches window) →
          (readMergeInput exchange.windowCoder).times exchange.requests.length exchange.sent =
            .ok exchange.requests [])) ∧
      run.registered.Nodup ∧ run.cache.entries.length ≤ mergeCacheMaxEntries := by
  have h : run.Sound := hRun.invariant
    (fun _ _ _ hAllowed hStep hBefore => Sound.step hBefore hAllowed hStep) Sound.start
  refine ⟨fun call order results hFinished => ?_, fun exchange hExchange => ?_, ?_, h.bounded⟩
  · have hAnswered : List.Forall₂ (run.Answered order.strategyId) order.distinct results :=
      h.holds hFinished
    refine (List.forall₂_map_left_iff.mp hAnswered).imp fun windows merged hHere => ⟨?_, hHere⟩
    obtain ⟨_, _, _, _, request, _, _, hPerm, _, hValid⟩ := hHere
    refine validateMergeResult_congr (fun window => ?_) hValid
    rw [hPerm.mem_iff, mem_distinctWindows]
  · have hSound := h.exchanges exchange hExchange
    obtain ⟨answers, hDecoded, hAccepts⟩ := hSound.accepted
    refine ⟨hAccepts.distinct, ⟨answers, hDecoded, hAccepts.nonces⟩, hSound.bundle, fun hFits => ?_⟩
    exact readMergeInputs_encoded (fun request hRequest => (hFits request hRequest).1)
      (fun request hRequest => (hFits request hRequest).2) hSound.sent
  · rw [h.registered]
    exact run.bundles.nodupKeys

/-- Two windows of a custom function that the SDK merges into the first. -/
def sessionComponents : MergeComponents where
  pcollections := ofPairs [("input", "sessions")]
  strategies := ofPairs [("sessions", ⟨true, needsMergeStatus, "window"⟩)]
  coders := ofPairs [("window", ⟨some ⟨lengthPrefixCoder, []⟩, ["w"]⟩)]

def sessionAnswer : List UInt8 :=
  (outputWithMerge (.opaqueLengthPrefixed "w")
    ⟨[7], [], [⟨.opaqueWindow "w" [1], [.opaqueWindow "w" [2], .opaqueWindow "w" [1]]⟩]⟩).getD []

def sessionActions : List MergeAction :=
  [.merge 0 "input" [[.opaqueWindow "w" [1], .opaqueWindow "w" [2], .opaqueWindow "w" [1]]],
    .lookUp 0, .prepare 0 "id", .register 0 (.ok true), .invoke 0 [[7]],
    .chunk 0 sessionAnswer true, .respond 0 (.ok true), .accept 0,
    .store 0 fun cache => cache.keys.head?]

def sessionRun : MergeRun :=
  (Runs.play (step sessionComponents) start sessionActions).getD start

theorem merges_answer_their_requests_session :
    ∃ order results, sessionRun.calls 0 = .finished order (.ok results) ∧
      List.Forall₂ (fun windows merged => validateMergeResult windows merged = .ok () ∧
        sessionRun.Answered order.strategyId (distinctWindows windows) merged) order.requests
          results := by
  have hListing : ∀ action ∈ sessionActions, ∀ run, Listing run action := by
    simp only [sessionActions, List.forall_mem_cons, Listing, implies_true, true_and]
    refine ⟨fun _ cache hCache => ?_, fun _ hNone => absurd hNone List.not_mem_nil⟩
    obtain ⟨entry, rest, hEntries⟩ := List.exists_cons_of_ne_nil hCache
    have hKeys : cache.keys = entry.1 :: rest.map Sigma.fst := by
      rw [AList.keys, hEntries]
      rfl
    exact ⟨entry.1, AList.mem_keys.mpr (by simp [hKeys]), by rw [hKeys]; rfl⟩
  have hSome : (Runs.play (step sessionComponents) start sessionActions).isSome = true := by
    decide +kernel
  obtain ⟨run, hPlay⟩ := Option.isSome_iff_exists.mp hSome
  have hSame : sessionRun = run := by rw [sessionRun, hPlay, Option.getD_some]
  have hRun := hSame ▸ (Runs.Reaches.refl start).play sessionActions hListing hPlay
  have hResults : (sessionRun.calls 0).results.isSome = true := by decide +kernel
  obtain ⟨⟨order, results⟩, hFinished⟩ := Option.isSome_iff_exists.mp hResults
  have hCall := MergeCall.eq_of_results hFinished
  exact ⟨order, results, hCall, (merges_answer_their_requests hRun).1 0 order results hCall⟩

end MergeRun

end FlareDB
