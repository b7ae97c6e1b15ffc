import FlareDB.Transforms.MergeRequests

/-! The coders of a bundle's data boundaries. The worker is told of them in the
descriptor of its bundle, and the runner resolves them on its own when it reads and
writes the boundary. -/
namespace FlareDB
namespace BundleDescriptor

open KeyedStore

def fixedWindows : String := "beam:window_fn:fixed_windows:v1"

def windowedValueCoder : String := "beam:coder:windowed_value:v1"

def beamSource : String := "beam:runner:source:v1"

def beamSink : String := "beam:runner:sink:v1"

/-- A windowing strategy, with the URN of its window function. -/
structure WindowingStrategy where
  windowCoderId : String
  windowFn : Option String

structure PCollection where
  coderId : String
  windowingStrategyId : String

/-- The parts of a pipeline that its boundaries are resolved from. -/
structure Components where
  coders : Store String Coder
  pcollections : Store String PCollection
  windowingStrategies : Store String WindowingStrategy

structure PCollectionNode where
  id : String
  node : PCollection

/-- A transform at a boundary, with the coder its port is to use. -/
structure BoundaryTransform where
  uniqueName : String
  urn : String
  url : String
  coderId : String
  inputs : List (String × String)
  outputs : List (String × String)

/-- A fused stage. Its transforms are of whatever kind `τ` they are. -/
structure Stage (τ : Type) where
  id : String
  coders : Store String Coder
  inputPcol : PCollectionNode
  outputPcols : List PCollectionNode
  transforms : Store String τ

structure Descriptor (τ : Type) where
  id : String
  transforms : Store String (τ ⊕ BoundaryTransform)
  coders : Store String Coder

/-- The first interval coder of a table in the order its hash map lists it in. -/
def intervalCoderId (order : List String → List String) (coders : Store String Coder) :
    Option String :=
  (order coders.keys).find? fun id =>
    (coders.lookup id).elim false fun coder => coder.hasUrn intervalWindowCoder

/-- The window coder a strategy names or, for fixed windows, an interval coder of the
table. -/
def WindowingStrategy.coderId (order : List String → List String) (coders : Store String Coder)
    (strategy : WindowingStrategy) : Option String :=
  if strategy.windowCoderId = "" then
    if strategy.windowFn = some fixedWindows then intervalCoderId order coders else none
  else some strategy.windowCoderId

def Components.strategy (components : Components) (pcollection : PCollection) :
    Option WindowingStrategy :=
  components.windowingStrategies.lookup pcollection.windowingStrategyId

/-- The window coder the runner uses. -/
def resolveWindowCoder (order : List String → List String) (components : Components)
    (pipelineCoders : Store String Coder) (pcollectionId : String) : Except String WindowCoder :=
  match components.pcollections.lookup pcollectionId with
  | none => .error ("PCollection not found: " ++ pcollectionId)
  | some pcollection =>
      let windowCoderId := ((components.strategy pcollection).bind
        (WindowingStrategy.coderId order pipelineCoders)).getD globalWindowCoder
      WindowCoder.tryFromCoder windowCoderId pipelineCoders

def endsWith (text suffix : String) : Bool := suffix.toList.isSuffixOf text.toList

def globalWindow : Coder := ⟨some ⟨globalWindowCoder, []⟩, []⟩

def windowedValue (elementCoderId windowCoderId : String) : Coder :=
  ⟨some ⟨windowedValueCoder, []⟩, [elementCoderId, windowCoderId]⟩

/-- A windowed value coder; the fallback for the global window comes with its coder. -/
def insertWindowedValueCoder (coders : Store String Coder)
    (windowedValueCoderId elementCoderId windowCoderId : String) : Store String Coder :=
  let coders :=
    if endsWith windowCoderId "/global_window" ∧ windowCoderId ∉ coders then
      coders.insert windowCoderId globalWindow
    else coders
  coders.insert windowedValueCoderId (windowedValue elementCoderId windowCoderId)

section Stages

variable {τ : Type} (stage : Stage τ)

def stageSourceTransformId : String := stage.id ++ "/source"

def stageSinkTransformId (pcollectionId : String) : String := stage.id ++ "/sink/" ++ pcollectionId

def globalWindowCoderId : String := stage.id ++ "/global_window"

def windowedValueCoderId (pcollectionId : String) : String :=
  stage.id ++ "/windowed_value/" ++ pcollectionId

/-- The window coder the worker is told of. `none` is the panic on a PCollection that
the pipeline does not have. -/
def stageWindowCoderId (order : List String → List String) (components : Components)
    (pcollectionId : String) : Option String :=
  (components.pcollections.lookup pcollectionId).map fun pcollection =>
    ((components.strategy pcollection).bind
      (WindowingStrategy.coderId order components.coders)).getD (globalWindowCoderId stage)

def addBoundaryCoder (order : List String → List String) (components : Components)
    (coders : Store String Coder) (pcol : PCollectionNode) : Option (Store String Coder) :=
  (stageWindowCoderId stage order components pcol.id).map fun windowCoderId =>
    insertWindowedValueCoder coders (windowedValueCoderId stage pcol.id)
      (resolveLengthPrefixedCoderId pcol.node.coderId coders) windowCoderId

def Stage.boundary : List PCollectionNode := stage.inputPcol :: stage.outputPcols

def addStageDataBoundaryCoders (order : List String → List String) (components : Components)
    (coders : Store String Coder) : Option (Store String Coder) :=
  stage.boundary.foldlM (addBoundaryCoder stage order components) coders

def sourceTransform (url : String) : BoundaryTransform where
  uniqueName := stageSourceTransformId stage
  urn := beamSource
  url := url
  coderId := windowedValueCoderId stage stage.inputPcol.id
  inputs := []
  outputs := [("local_output", stage.inputPcol.id)]

def sinkTransform (url : String) (pcol : PCollectionNode) : BoundaryTransform where
  uniqueName := stageSinkTransformId stage pcol.id
  urn := beamSink
  url := url
  coderId := windowedValueCoderId stage pcol.id
  inputs := [("local_input", pcol.id)]
  outputs := []

def stageTransformsWithDataBoundaries (url : String) : Store String (τ ⊕ BoundaryTransform) :=
  let transforms := ofPairs (stage.transforms.entries.map fun entry => (entry.1, Sum.inl entry.2))
  let transforms := transforms.insert (stageSourceTransformId stage) (.inr (sourceTransform stage url))
  stage.outputPcols.foldl (fun transforms pcol =>
    transforms.insert (stageSinkTransformId stage pcol.id) (.inr (sinkTransform stage url pcol)))
    transforms

/-- The descriptor that registers the bundle of a stage. -/
def registerBundle (leafOrder order : List String → List String) (components : Components)
    (url : String) : Option (Descriptor τ) :=
  (addStageDataBoundaryCoders stage order components
    (lengthPrefixPickledLeaves leafOrder stage.coders)).map fun coders =>
      { id := stage.id
        transforms := stageTransformsWithDataBoundaries stage url
        coders }

end Stages

/-! The two copies of the coder table. -/

/-- Which coders are pickled leaves can be read from lookups alone. -/
theorem isPickledLeaf_congr {coders other : Store String Coder}
    (h : ∀ id, coders.lookup id = other.lookup id) (id : String) :
    IsPickledLeaf coders id ↔ IsPickledLeaf other id := by
  rw [IsPickledLeaf, IsPickledLeaf, h id]

/-- So can what a coder's components are repointed to. -/
theorem repointed_congr {coders other : Store String Coder}
    (h : ∀ id, coders.lookup id = other.lookup id) (coder : Coder) :
    coder.repointed coders = coder.repointed other := by
  rw [Coder.repointed, Coder.repointed]
  congr 1
  apply List.map_congr_left
  intro component _
  by_cases hLeaf : IsPickledLeaf coders component
  · rw [repoint_leaf hLeaf, repoint_leaf ((isPickledLeaf_congr h component).mp hLeaf)]
  · rw [repoint_other hLeaf, repoint_other fun hOther =>
      hLeaf ((isPickledLeaf_congr h component).mpr hOther)]

/-- Wrapping the leaves of one table in two orders. -/
theorem lookup_lengthPrefixPickledLeaves {order next : List String → List String}
    (hOrder : ∀ ids, (order ids).Perm ids) (hNext : ∀ ids, (next ids).Perm ids)
    {coders other : Store String Coder} (h : ∀ id, coders.lookup id = other.lookup id)
    (key : String) : (lengthPrefixPickledLeaves order coders).lookup key =
      (lengthPrefixPickledLeaves next other).lookup key := by
  by_cases hWrapper : ∃ id, IsPickledLeaf coders id ∧ lengthPrefixedCoderId id = key
  · obtain ⟨id, hLeaf, rfl⟩ := hWrapper
    rw [lookup_wrapper hOrder hLeaf, lookup_wrapper hNext ((isPickledLeaf_congr h id).mp hLeaf), h]
  · have hFree : ∀ id, IsPickledLeaf coders id → lengthPrefixedCoderId id ≠ key :=
      fun id hLeaf hKey => hWrapper ⟨id, hLeaf, hKey⟩
    rw [lookup_unwrapped hOrder hFree, lookup_unwrapped hNext fun id hLeaf =>
      hFree id ((isPickledLeaf_congr h id).mpr hLeaf), h, funext (repointed_congr h)]

/-- Whether a table has a coder of a URN under an id. -/
def HasUrn (coders : Store String Coder) (id urn : String) : Prop :=
  ∃ coder, coders.lookup id = some coder ∧ coder.hasUrn urn = true

/-- Wrapping leaves adds length prefixes only, and changes no other URN. -/
theorem hasUrn_lengthPrefixPickledLeaves {order : List String → List String}
    (hOrder : ∀ ids, (order ids).Perm ids) {coders : Store String Coder} {urn : String}
    (hUrn : urn ≠ lengthPrefixCoder) (id : String) :
    HasUrn (lengthPrefixPickledLeaves order coders) id urn ↔ HasUrn coders id urn := by
  rw [HasUrn, HasUrn]
  by_cases hWrapper : ∃ leaf, IsPickledLeaf coders leaf ∧ lengthPrefixedCoderId leaf = id
  · obtain ⟨leaf, hLeaf, rfl⟩ := hWrapper
    rw [lookup_wrapper hOrder hLeaf]
    cases hFound : coders.lookup (lengthPrefixedCoderId leaf) with
    | some coder => rfl
    | none =>
        constructor
        · rintro ⟨coder, hCoder, hHas⟩
          cases hCoder
          exact absurd (Coder.hasUrn_unique hHas (hasUrn_lengthPrefixed leaf)) hUrn
        · rintro ⟨coder, hCoder, -⟩
          cases hCoder
  · rw [lookup_unwrapped hOrder fun leaf hLeaf hKey => hWrapper ⟨leaf, hLeaf, hKey⟩]
    cases coders.lookup id with
    | none => simp
    | some coder => simp

/-- The interval coder that is found, whichever it is. -/
theorem intervalCoderId_cases {order : List String → List String}
    (hOrder : ∀ ids, (order ids).Perm ids) (coders : Store String Coder) :
    (intervalCoderId order coders = none ∧ ∀ id, ¬HasUrn coders id intervalWindowCoder) ∨
      ∃ id, intervalCoderId order coders = some id ∧ HasUrn coders id intervalWindowCoder := by
  have hElim : ∀ id, ((coders.lookup id).elim false fun coder =>
      coder.hasUrn intervalWindowCoder) = true ↔ HasUrn coders id intervalWindowCoder := by
    intro id
    rw [HasUrn]
    cases coders.lookup id with
    | none => simp
    | some coder => simp
  cases hFound : intervalCoderId order coders with
  | none =>
      refine .inl ⟨rfl, fun id hHas => ?_⟩
      have hMem : id ∈ order coders.keys := by
        obtain ⟨coder, hCoder, -⟩ := hHas
        exact (hOrder _).mem_iff.mpr (AList.lookup_isSome.mp (by rw [hCoder]; rfl))
      rw [intervalCoderId] at hFound
      exact absurd ((hElim id).mpr hHas) (List.find?_eq_none.mp hFound id hMem)
  | some id =>
      rw [intervalCoderId] at hFound
      have hFits := List.find?_some hFound
      exact .inr ⟨id, rfl, (hElim id).mp hFits⟩

/-- A coder with the urn of an interval window is read as one. -/
theorem tryFromCoder_interval {coders : Store String Coder} {id : String}
    (h : HasUrn coders id intervalWindowCoder) :
    WindowCoder.tryFromCoder id coders = .ok .interval := by
  obtain ⟨coder, hCoder, hUrn⟩ := h
  rw [Coder.hasUrn] at hUrn
  cases hSpec : coder.spec with
  | none =>
      rw [hSpec] at hUrn
      cases hUrn
  | some spec =>
      rw [hSpec] at hUrn
      have hSame : spec.urn = intervalWindowCoder := beq_iff_eq.mp hUrn
      rw [WindowCoder.tryFromCoder, hCoder]
      simp only [hSpec, Option.elim_some, hSame]
      rfl

/-- The default entry is read as the global window. -/
theorem tryFromCoder_globalWindow {coders : Store String Coder} {id : String}
    (h : coders.lookup id = some globalWindow) :
    WindowCoder.tryFromCoder id coders = .ok .global := by
  rw [WindowCoder.tryFromCoder, h]
  rfl

/-- Only the coder under an id matters to what the id stands for. -/
theorem tryFromCoder_congr {coders other : Store String Coder} {id : String}
    (h : coders.lookup id = other.lookup id) :
    WindowCoder.tryFromCoder id coders = WindowCoder.tryFromCoder id other := by
  rw [WindowCoder.tryFromCoder, WindowCoder.tryFromCoder, h]

/-- An id that a table does not have stands for a window coder by its URN only. -/
theorem fromUrnKnown_of_tryFromCoder {coders : Store String Coder} {id : String}
    {window : WindowCoder} (hNone : coders.lookup id = none)
    (h : WindowCoder.tryFromCoder id coders = .ok window) :
    WindowCoder.fromUrnKnown id = some window := by
  rw [WindowCoder.tryFromCoder, hNone] at h
  cases hKnown : WindowCoder.fromUrnKnown id with
  | none =>
      simp only [hKnown] at h
      cases h
  | some known =>
      simp only [hKnown] at h
      cases h
      rfl

/-! The ids of a stage. -/

section Boundary

variable {τ : Type} {stage : Stage τ}

/-- An id that is none of a stage's own, which start with the id of the stage. -/
def Foreign (stage : Stage τ) (id : String) : Prop :=
  ¬(stage.id ++ "/").toList <+: id.toList

theorem toList_windowedValueCoderId (stage : Stage τ) (pcollectionId : String) :
    (windowedValueCoderId stage pcollectionId).toList =
      (stage.id ++ "/").toList ++ ("windowed_value/".toList ++ pcollectionId.toList) := by
  simp [windowedValueCoderId, String.toList_append]

theorem toList_globalWindowCoderId (stage : Stage τ) :
    (globalWindowCoderId stage).toList = (stage.id ++ "/").toList ++ "global_window".toList := by
  simp [globalWindowCoderId, String.toList_append]

/-- A name that starts with the stage's own id is not foreign to it. -/
theorem not_foreign_of_toList {id : String} {rest : List Char}
    (h : id.toList = (stage.id ++ "/").toList ++ rest) : ¬Foreign stage id := by
  rw [Foreign, h, not_not]
  exact List.prefix_append _ _

theorem not_foreign_windowedValue (stage : Stage τ) (pcollectionId : String) :
    ¬Foreign stage (windowedValueCoderId stage pcollectionId) :=
  not_foreign_of_toList (toList_windowedValueCoderId stage pcollectionId)

theorem not_foreign_globalWindow (stage : Stage τ) :
    ¬Foreign stage (globalWindowCoderId stage) :=
  not_foreign_of_toList (toList_globalWindowCoderId stage)

/-- Ids that a stage labels alike differ as what they are made from. -/
theorem injective_of_toList {label : List Char} {idOf : String → String}
    (hIdOf : ∀ name, (idOf name).toList = (stage.id ++ "/").toList ++ (label ++ name.toList)) :
    idOf.Injective := by
  intro first second h
  have hList := congrArg String.toList h
  rw [hIdOf, hIdOf] at hList
  exact String.toList_inj.mp (List.append_cancel_left (List.append_cancel_left hList))

/-- Two PCollections of a stage get two coder ids. -/
theorem windowedValueCoderId_injective : (windowedValueCoderId stage).Injective :=
  injective_of_toList (toList_windowedValueCoderId stage)

/-- The stage's global window is not the coder of one of its PCollections. -/
theorem globalWindow_ne_windowedValue (pcollectionId : String) :
    globalWindowCoderId stage ≠ windowedValueCoderId stage pcollectionId := by
  intro h
  have hList := congrArg String.toList h
  rw [toList_windowedValueCoderId, toList_globalWindowCoderId] at hList
  have hHead := congrArg List.head? (List.append_cancel_left hList)
  simp at hHead

/-- A URN has no slash, so it is none of a stage's ids. -/
theorem foreign_of_noSlash {id : String} (h : '/' ∉ id.toList) : Foreign stage id := by
  intro hPrefix
  have hSlash : '/' ∈ (stage.id ++ "/").toList := by
    simp [String.toList_append]
  exact h (hPrefix.subset hSlash)

/-- A window coder known by its urn is none of the stage's own ids. -/
theorem foreign_of_fromUrnKnown {id : String} {window : WindowCoder}
    (h : WindowCoder.fromUrnKnown id = some window) : Foreign stage id ∧
      endsWith id "/global_window" = false := by
  rw [WindowCoder.fromUrnKnown] at h
  split at h
  next hGlobal =>
    rw [hGlobal]
    exact ⟨foreign_of_noSlash (by decide), by decide⟩
  · split at h
    next hInterval =>
      rw [hInterval]
      exact ⟨foreign_of_noSlash (by decide), by decide⟩
    · cases h

/-- A wrapped coder is never taken for the stage's global window. -/
theorem endsWith_lengthPrefixed (id : String) :
    endsWith (lengthPrefixedCoderId id) "/global_window" = false := by
  rw [endsWith, lengthPrefixedCoderId, String.toList_append]
  refine Bool.eq_false_iff.mpr fun h => ?_
  obtain ⟨front, hFront⟩ := List.isSuffixOf_iff_suffix.mp h
  have hLast := congrArg List.getLast? hFront
  simp [lengthPrefixedSuffix, List.getLast?_append] at hLast

theorem endsWith_globalWindowCoderId (stage : Stage τ) :
    endsWith (globalWindowCoderId stage) "/global_window" = true := by
  rw [endsWith, globalWindowCoderId, String.toList_append]
  exact List.isSuffixOf_iff_suffix.mpr (List.suffix_append _ _)

/-! What the worker is told. -/

/-- A stage with ids of its own, apart from those of the pipeline's coders. -/
structure OwnIds (stage : Stage τ) (base : Store String Coder) : Prop where
  coders : ∀ id ∈ base, Foreign stage id
  elements : ∀ pcol ∈ stage.boundary, Foreign stage (lengthPrefixedCoderId pcol.node.coderId)
  nodes : ∀ first ∈ stage.boundary, ∀ second ∈ stage.boundary,
    first.id = second.id → first = second
  transforms : ∀ id ∈ stage.transforms, Foreign stage id

/-- A table that has grown by the boundary coders of some PCollections. -/
structure Told (stage : Stage τ) (order : List String → List String) (components : Components)
    (base table : Store String Coder) (done : List PCollectionNode) : Prop where
  kept : ∀ id ∈ base, table.lookup id = base.lookup id
  added : ∀ id ∈ table, id ∈ base ∨ ¬Foreign stage id ∨ endsWith id "/global_window" = true
  fallback : ∀ coder, table.lookup (globalWindowCoderId stage) = some coder → coder = globalWindow
  boundary : ∀ pcol ∈ done, ∃ windowCoderId,
    stageWindowCoderId stage order components pcol.id = some windowCoderId ∧
      table.lookup (windowedValueCoderId stage pcol.id) = some (windowedValue
        (resolveLengthPrefixedCoderId pcol.node.coderId base) windowCoderId) ∧
      (windowCoderId = globalWindowCoderId stage →
        table.lookup windowCoderId = some globalWindow)

variable {order : List String → List String} {components : Components}
  {base table : Store String Coder} {done : List PCollectionNode}

/-- Before the first boundary PCollection, the table is the one built from the
stage's components. -/
theorem Told.start (h : OwnIds stage base) : Told stage order components base base [] where
  kept _ _ := rfl
  added _ hId := .inl hId
  fallback coder hCoder := absurd (h.coders _ (AList.lookup_isSome.mp (by rw [hCoder]; rfl)))
    (not_foreign_globalWindow stage)
  boundary _ hPcol := absurd hPcol List.not_mem_nil

/-- No coder of a boundary is taken for the length prefix of an element coder. -/
theorem Told.resolve (h : Told stage order components base table done) {id : String}
    (hForeign : Foreign stage (lengthPrefixedCoderId id)) :
    resolveLengthPrefixedCoderId id table = resolveLengthPrefixedCoderId id base := by
  have hMem : lengthPrefixedCoderId id ∈ table ↔ lengthPrefixedCoderId id ∈ base := by
    constructor
    · intro hTable
      rcases h.added _ hTable with hBase | hOwn | hEnds
      · exact hBase
      · exact absurd hForeign hOwn
      · rw [endsWith_lengthPrefixed] at hEnds
        cases hEnds
    · intro hBase
      rw [← AList.lookup_isSome, h.kept _ hBase]
      exact AList.lookup_isSome.mpr hBase
  rw [resolveLengthPrefixedCoderId, resolveLengthPrefixedCoderId]
  by_cases hBase : lengthPrefixedCoderId id ∈ base
  · rw [if_pos hBase, if_pos (hMem.mpr hBase)]
  · rw [if_neg hBase, if_neg (mt hMem.mp hBase)]

/-- No coder of a boundary is taken for a window coder that its URN names. -/
theorem Told.notMem_urn (h : Told stage order components base table done) {id : String}
    {window : WindowCoder} (hUrn : WindowCoder.fromUrnKnown id = some window)
    (hMissing : id ∉ base) : id ∉ table := by
  intro hTable
  have hId : Foreign stage id ∧ endsWith id "/global_window" = false :=
    foreign_of_fromUrnKnown hUrn
  rcases h.added id hTable with hBase | hOwn | hEnds
  · exact hMissing hBase
  · exact hOwn hId.1
  · rw [hId.2] at hEnds
    cases hEnds

/-- The table once the fallback is there, if the window coder is one. -/
def withFallback (table : Store String Coder) (windowCoderId : String) : Store String Coder :=
  if endsWith windowCoderId "/global_window" ∧ windowCoderId ∉ table then
    table.insert windowCoderId globalWindow
  else table

/-- The fallback leaves the entries of the table alone. -/
theorem lookup_withFallback {id : String} (h : id ∈ table) (windowCoderId : String) :
    (withFallback table windowCoderId).lookup id = table.lookup id := by
  rw [withFallback]
  split
  next hNew => exact AList.lookup_insert_ne fun hSame => hNew.2 (hSame ▸ h)
  · rfl

/-- The fallback adds at most the window coder it is asked for. -/
theorem mem_withFallback {id windowCoderId : String} (h : id ∈ withFallback table windowCoderId) :
    id ∈ table ∨ id = windowCoderId ∧ endsWith windowCoderId "/global_window" = true := by
  rw [withFallback] at h
  split at h
  next hNew =>
    rcases (AList.mem_insert _).mp h with hSame | hOld
    · exact .inr ⟨hSame, hNew.1⟩
    · exact .inl hOld
  · exact .inl h

/-- What the fallback adds is the global window. -/
theorem lookup_withFallback_cases {id windowCoderId : String} {coder : Coder}
    (h : (withFallback table windowCoderId).lookup id = some coder) :
    coder = globalWindow ∨ table.lookup id = some coder := by
  rw [withFallback] at h
  split at h
  · by_cases hSame : id = windowCoderId
    · rw [hSame, AList.lookup_insert] at h
      exact .inl (Option.some.inj h).symm
    · rw [AList.lookup_insert_ne hSame] at h
      exact .inr h
  · exact .inr h

/-- A missing global window is there after the fallback. -/
theorem mem_withFallback_self (table : Store String Coder) {windowCoderId : String}
    (h : endsWith windowCoderId "/global_window" = true) :
    windowCoderId ∈ withFallback table windowCoderId := by
  rw [withFallback]
  split
  · exact (AList.mem_insert _).mpr (.inl rfl)
  next hNot => exact not_not.mp fun hMissing => hNot ⟨h, hMissing⟩

/-- One boundary PCollection adds its windowed value and leaves what the others
were told. -/
theorem Told.step (h : Told stage order components base table done) (hOwn : OwnIds stage base)
    {pcol : PCollectionNode} (hPcol : pcol ∈ stage.boundary) (hDone : ∀ other ∈ done,
      other ∈ stage.boundary) {next : Store String Coder}
    (hNext : addBoundaryCoder stage order components table pcol = some next) :
    Told stage order components base next (done ++ [pcol]) := by
  obtain ⟨windowCoderId, hWindow, rfl⟩ := Option.map_eq_some_iff.mp hNext
  rw [h.resolve (hOwn.elements pcol hPcol)]
  have hTable : insertWindowedValueCoder table (windowedValueCoderId stage pcol.id)
      (resolveLengthPrefixedCoderId pcol.node.coderId base) windowCoderId =
        (withFallback table windowCoderId).insert (windowedValueCoderId stage pcol.id)
          (windowedValue (resolveLengthPrefixedCoderId pcol.node.coderId base) windowCoderId) := rfl
  rw [hTable]
  have hMem : ∀ id ∈ base, id ∈ table := by
    intro id hId
    rw [← AList.lookup_isSome, h.kept id hId]
    exact AList.lookup_isSome.mpr hId
  refine ⟨fun id hId => ?_, fun id hId => ?_, fun coder hCoder => ?_, fun other hOther => ?_⟩
  · have hNe : id ≠ windowedValueCoderId stage pcol.id := fun hSame =>
      not_foreign_windowedValue stage pcol.id (hSame ▸ hOwn.coders id hId)
    rw [AList.lookup_insert_ne hNe, lookup_withFallback (hMem id hId), h.kept id hId]
  · rcases (AList.mem_insert _).mp hId with rfl | hOld
    · exact .inr (.inl (not_foreign_windowedValue stage pcol.id))
    · rcases mem_withFallback hOld with hTable | ⟨rfl, hEnds⟩
      · exact h.added id hTable
      · exact .inr (.inr hEnds)
  · rw [AList.lookup_insert_ne (globalWindow_ne_windowedValue pcol.id)] at hCoder
    exact (lookup_withFallback_cases hCoder).elim id (h.fallback coder)
  · by_cases hSame : other.id = pcol.id
    · have hNode : other ∈ stage.boundary := by
        rcases List.mem_append.mp hOther with hOld | hNew
        · exact hDone other hOld
        · exact List.mem_singleton.mp hNew ▸ hPcol
      rw [hOwn.nodes other hNode pcol hPcol hSame]
      refine ⟨windowCoderId, hWindow, AList.lookup_insert _, fun hGlobal => ?_⟩
      have hEnds : endsWith windowCoderId "/global_window" = true :=
        hGlobal ▸ endsWith_globalWindowCoderId stage
      obtain ⟨coder, hCoder⟩ := Option.isSome_iff_exists.mp
        (AList.lookup_isSome.mpr (mem_withFallback_self table hEnds))
      rw [hGlobal] at hCoder ⊢
      rw [AList.lookup_insert_ne (globalWindow_ne_windowedValue pcol.id), hCoder]
      exact congrArg some ((lookup_withFallback_cases hCoder).elim id (h.fallback coder))
    · have hOld : other ∈ done := by
        rcases List.mem_append.mp hOther with hOld | hNew
        · exact hOld
        · exact absurd (congrArg PCollectionNode.id (List.mem_singleton.mp hNew)) hSame
      obtain ⟨otherCoderId, hOtherWindow, hValue, hFallback⟩ := h.boundary other hOld
      have hNe : windowedValueCoderId stage other.id ≠ windowedValueCoderId stage pcol.id :=
        fun hIds => hSame (windowedValueCoderId_injective hIds)
      refine ⟨otherCoderId, hOtherWindow, ?_, fun hGlobal => ?_⟩
      · have hThere : windowedValueCoderId stage other.id ∈ table :=
          AList.lookup_isSome.mp (by rw [hValue]; rfl)
        rw [AList.lookup_insert_ne hNe, lookup_withFallback hThere, hValue]
      · have hThere : otherCoderId ∈ table :=
          AList.lookup_isSome.mp (by rw [hFallback hGlobal]; rfl)
        have hApart : otherCoderId ≠ windowedValueCoderId stage pcol.id := by
          rw [hGlobal]
          exact globalWindow_ne_windowedValue pcol.id
        rw [AList.lookup_insert_ne hApart, lookup_withFallback hThere, hFallback hGlobal]

/-- Every boundary PCollection is told its coder, one after the other. -/
theorem Told.all (hOwn : OwnIds stage base) {rest : List PCollectionNode}
    (h : Told stage order components base table done)
    (hDone : ∀ pcol ∈ done ++ rest, pcol ∈ stage.boundary) {last : Store String Coder}
    (hLast : rest.foldlM (addBoundaryCoder stage order components) table = some last) :
    Told stage order components base last (done ++ rest) := by
  induction rest generalizing table done with
  | nil =>
      cases hLast
      rw [List.append_nil]
      exact h
  | cons pcol rest ih =>
      rw [List.foldlM_cons] at hLast
      obtain ⟨next, hNext, hRest⟩ := Option.bind_eq_some_iff.mp hLast
      rw [List.append_cons] at hDone ⊢
      have hHere : pcol ∈ stage.boundary :=
        hDone pcol (List.mem_append_left _ (List.mem_append_right _ List.mem_cons_self))
      exact ih (h.step hOwn hHere (fun other hOther => hDone other (List.mem_append_left _
        (List.mem_append_left _ hOther))) hNext) hDone hRest

/-- The window coder ids that a strategy has over two tables with the same interval
coders: none in either, one that the strategy names, or an interval coder of each. -/
theorem WindowingStrategy.coderId_cases {next : List String → List String}
    (hOrder : ∀ ids, (order ids).Perm ids) (hNext : ∀ ids, (next ids).Perm ids)
    {coders other : Store String Coder} (hIntervals : ∀ id,
      HasUrn other id intervalWindowCoder ↔ HasUrn coders id intervalWindowCoder)
    (strategy : WindowingStrategy) :
    (strategy.coderId order coders = none ∧ strategy.coderId next other = none) ∨
    (∃ id, strategy.coderId order coders = some id ∧ strategy.coderId next other = some id) ∨
    ∃ first second, strategy.coderId order coders = some first ∧
      strategy.coderId next other = some second ∧
      HasUrn other first intervalWindowCoder ∧ HasUrn other second intervalWindowCoder := by
  rw [WindowingStrategy.coderId, WindowingStrategy.coderId]
  by_cases hNamed : strategy.windowCoderId = ""
  · rw [if_pos hNamed, if_pos hNamed]
    by_cases hFixed : strategy.windowFn = some fixedWindows
    · rw [if_pos hFixed, if_pos hFixed]
      rcases intervalCoderId_cases hOrder coders with ⟨hNone, hMissing⟩ | ⟨first, hFirst, hHas⟩
      · rcases intervalCoderId_cases hNext other with ⟨hOtherNone, -⟩ | ⟨second, -, hOtherHas⟩
        · exact .inl ⟨hNone, hOtherNone⟩
        · exact absurd ((hIntervals second).mp hOtherHas) (hMissing second)
      · rcases intervalCoderId_cases hNext other with
          ⟨-, hOtherMissing⟩ | ⟨second, hSecond, hOtherHas⟩
        · exact absurd ((hIntervals first).mpr hHas) (hOtherMissing first)
        · exact .inr (.inr ⟨first, second, hFirst, hSecond, (hIntervals first).mpr hHas, hOtherHas⟩)
    · rw [if_neg hFixed, if_neg hFixed]
      exact .inl ⟨rfl, rfl⟩
  · rw [if_neg hNamed, if_neg hNamed]
    exact .inr (.inl ⟨_, rfl, rfl⟩)

/-- An id stands for the same window coder in the worker's table as in the runner's. -/
theorem Told.tryFromCoder (h : Told stage order components base table done)
    {pipelineCoders : Store String Coder}
    (hCopies : ∀ id, base.lookup id = pipelineCoders.lookup id) {id : String}
    {window : WindowCoder} (hRunner : WindowCoder.tryFromCoder id pipelineCoders = .ok window) :
    WindowCoder.tryFromCoder id table = .ok window := by
  by_cases hBase : id ∈ base
  · rw [tryFromCoder_congr ((h.kept id hBase).trans (hCopies id))]
    exact hRunner
  · -- The id is a URN, which the boundaries do not take for theirs.
    have hNone : pipelineCoders.lookup id = none := by
      rw [← hCopies]
      exact AList.lookup_eq_none.mpr hBase
    have hAbsent : table.lookup id = none :=
      AList.lookup_eq_none.mpr (h.notMem_urn (fromUrnKnown_of_tryFromCoder hNone hRunner) hBase)
    rw [tryFromCoder_congr (hAbsent.trans hNone.symm)]
    exact hRunner

/-- What the worker's window coder stands for in its table, when the runner has
resolved one. -/
theorem Told.window (h : Told stage order components base table done)
    (hOrder : ∀ ids, (order ids).Perm ids) {next : List String → List String}
    (hNext : ∀ ids, (next ids).Perm ids) {pipelineCoders : Store String Coder}
    (hCopies : ∀ id, base.lookup id = pipelineCoders.lookup id)
    (hIntervals : ∀ id, HasUrn pipelineCoders id intervalWindowCoder ↔
      HasUrn components.coders id intervalWindowCoder)
    (hGlobal : WindowCoder.tryFromCoder globalWindowCoder pipelineCoders = .ok .global)
    {pcol : PCollectionNode} {windowCoderId : String}
    (hWindow : stageWindowCoderId stage order components pcol.id = some windowCoderId)
    (hFallback : windowCoderId = globalWindowCoderId stage →
      table.lookup windowCoderId = some globalWindow) {window : WindowCoder}
    (hRunner : resolveWindowCoder next components pipelineCoders pcol.id = .ok window) :
    WindowCoder.tryFromCoder windowCoderId table = .ok window := by
  -- Without a window coder both sides fall back to the global window.
  have hDefault : WindowCoder.tryFromCoder globalWindowCoder pipelineCoders = .ok window →
      globalWindowCoderId stage = windowCoderId →
        WindowCoder.tryFromCoder windowCoderId table = .ok window := by
    intro hRunner hSame
    cases hGlobal.symm.trans hRunner
    exact tryFromCoder_globalWindow (hFallback hSame.symm)
  rw [resolveWindowCoder] at hRunner
  rw [stageWindowCoderId] at hWindow
  cases hPcollection : components.pcollections.lookup pcol.id with
  | none =>
      rw [hPcollection] at hWindow
      cases hWindow
  | some pcollection =>
      rw [hPcollection] at hRunner hWindow
      simp only [Option.map_some, Option.some.injEq] at hRunner hWindow
      cases hStrategy : components.strategy pcollection with
      | none =>
          rw [hStrategy] at hRunner hWindow
          exact hDefault hRunner hWindow
      | some strategy =>
          rw [hStrategy, Option.bind_some] at hRunner hWindow
          rcases strategy.coderId_cases hOrder hNext hIntervals with
            ⟨hNone, hOtherNone⟩ | ⟨id, hId, hOtherId⟩ |
              ⟨first, second, hFirst, hSecond, hHas, hOtherHas⟩
          · rw [hOtherNone] at hRunner
            rw [hNone] at hWindow
            exact hDefault hRunner hWindow
          · rw [hOtherId] at hRunner
            rw [hId, Option.getD_some] at hWindow
            exact hWindow ▸ h.tryFromCoder hCopies hRunner
          · rw [hSecond] at hRunner
            rw [hFirst, Option.getD_some] at hWindow
            cases (tryFromCoder_interval hOtherHas).symm.trans hRunner
            exact hWindow ▸ h.tryFromCoder hCopies (tryFromCoder_interval hHas)

/-! The transforms of a bundle. -/

theorem toList_stageSinkTransformId (stage : Stage τ) (pcollectionId : String) :
    (stageSinkTransformId stage pcollectionId).toList =
      (stage.id ++ "/").toList ++ ("sink/".toList ++ pcollectionId.toList) := by
  simp [stageSinkTransformId, String.toList_append]

theorem toList_stageSourceTransformId (stage : Stage τ) :
    (stageSourceTransformId stage).toList = (stage.id ++ "/").toList ++ "source".toList := by
  simp [stageSourceTransformId, String.toList_append]

/-- Two PCollections of a stage get two sinks. -/
theorem stageSinkTransformId_injective : (stageSinkTransformId stage).Injective :=
  injective_of_toList (toList_stageSinkTransformId stage)

theorem not_foreign_source (stage : Stage τ) : ¬Foreign stage (stageSourceTransformId stage) :=
  not_foreign_of_toList (toList_stageSourceTransformId stage)

theorem not_foreign_sink (stage : Stage τ) (pcollectionId : String) :
    ¬Foreign stage (stageSinkTransformId stage pcollectionId) :=
  not_foreign_of_toList (toList_stageSinkTransformId stage pcollectionId)

/-- A stage's source is none of its sinks. -/
theorem source_ne_sink (pcollectionId : String) :
    stageSourceTransformId stage ≠ stageSinkTransformId stage pcollectionId := by
  intro h
  have hList := congrArg String.toList h
  rw [toList_stageSourceTransformId, toList_stageSinkTransformId] at hList
  have hSecond := congrArg (·[1]?) (List.append_cancel_left hList)
  simp at hSecond

section Sinks

variable {url : String} {pcols : List PCollectionNode}

/-- The sinks of some PCollections, set among other transforms. -/
def withSinks (stage : Stage τ) (url : String) (pcols : List PCollectionNode)
    (transforms : Store String (τ ⊕ BoundaryTransform)) : Store String (τ ⊕ BoundaryTransform) :=
  pcols.foldl (fun transforms pcol =>
    transforms.insert (stageSinkTransformId stage pcol.id) (.inr (sinkTransform stage url pcol)))
    transforms

/-- The sinks leave every other transform alone. -/
theorem lookup_withSinks {key : String}
    (h : ∀ pcol ∈ pcols, key ≠ stageSinkTransformId stage pcol.id)
    (transforms : Store String (τ ⊕ BoundaryTransform)) :
    (withSinks stage url pcols transforms).lookup key = transforms.lookup key := by
  induction pcols generalizing transforms with
  | nil => rfl
  | cons pcol rest ih =>
      rw [withSinks, List.foldl_cons, ← withSinks,
        ih fun other hOther => h other (List.mem_cons_of_mem _ hOther)]
      exact AList.lookup_insert_ne (h pcol List.mem_cons_self)

/-- Each boundary PCollection's sink is there under its own id. -/
theorem lookup_withSinks_sink (hNodes : ∀ first ∈ pcols, ∀ second ∈ pcols,
    first.id = second.id → first = second) {pcol : PCollectionNode} (hPcol : pcol ∈ pcols)
    (transforms : Store String (τ ⊕ BoundaryTransform)) :
    (withSinks stage url pcols transforms).lookup (stageSinkTransformId stage pcol.id) =
      some (.inr (sinkTransform stage url pcol)) := by
  induction pcols generalizing transforms with
  | nil => cases hPcol
  | cons other rest ih =>
      rw [withSinks, List.foldl_cons, ← withSinks]
      have hRest : ∀ first ∈ rest, ∀ second ∈ rest, first.id = second.id → first = second :=
        fun first hFirst second hSecond =>
          hNodes first (List.mem_cons_of_mem _ hFirst) second (List.mem_cons_of_mem _ hSecond)
      by_cases hLater : pcol ∈ rest
      · exact ih hRest hLater _
      · -- The last sink of an id is the one that stays.
        have hLast : ∀ later ∈ rest,
            stageSinkTransformId stage pcol.id ≠ stageSinkTransformId stage later.id := by
          intro later hThere hSame
          have hNode := hNodes pcol hPcol later (List.mem_cons_of_mem _ hThere)
            (stageSinkTransformId_injective hSame)
          exact hLater (hNode ▸ hThere)
        rw [lookup_withSinks hLast]
        rcases List.mem_cons.mp hPcol with rfl | hThere
        · exact AList.lookup_insert _
        · exact absurd hThere hLater

/-- The worker gets the transforms of the stage, one source and a sink for each output. -/
theorem stageTransforms_boundary (hOwn : OwnIds stage base) (url : String) :
    (∀ id transform, stage.transforms.lookup id = some transform →
      (stageTransformsWithDataBoundaries stage url).lookup id = some (.inl transform)) ∧
    (stageTransformsWithDataBoundaries stage url).lookup (stageSourceTransformId stage) =
      some (.inr (sourceTransform stage url)) ∧
    ∀ pcol ∈ stage.outputPcols,
      (stageTransformsWithDataBoundaries stage url).lookup (stageSinkTransformId stage pcol.id) =
        some (.inr (sinkTransform stage url pcol)) := by
  have hSinks : stageTransformsWithDataBoundaries stage url = withSinks stage url stage.outputPcols
      ((ofPairs (stage.transforms.entries.map fun entry => (entry.1, Sum.inl entry.2))).insert
        (stageSourceTransformId stage) (.inr (sourceTransform stage url))) := rfl
  rw [hSinks]
  refine ⟨fun id transform hFound => ?_, ?_, fun pcol hPcol => ?_⟩
  · have hForeign := hOwn.transforms id (AList.lookup_isSome.mp (by rw [hFound]; rfl))
    have hSource : id ≠ stageSourceTransformId stage := fun hSame =>
      not_foreign_source stage (hSame ▸ hForeign)
    rw [lookup_withSinks fun pcol _ hSame => not_foreign_sink stage pcol.id (hSame ▸ hForeign),
      AList.lookup_insert_ne hSource]
    have hKeys : ((stage.transforms.entries.map fun entry =>
        (entry.1, (Sum.inl entry.2 : τ ⊕ BoundaryTransform))).map Prod.fst).Nodup := by
      rw [List.map_map]
      exact stage.transforms.nodupKeys
    exact lookup_ofPairs hKeys
      (List.mem_map.mpr ⟨⟨id, transform⟩, AList.mem_lookup_iff.mp hFound, rfl⟩)
  · rw [lookup_withSinks fun pcol _ => source_ne_sink pcol.id]
    exact AList.lookup_insert _
  · exact lookup_withSinks_sink (fun first hFirst second hSecond =>
      hOwn.nodes first (List.mem_cons_of_mem _ hFirst) second (List.mem_cons_of_mem _ hSecond))
      hPcol _

end Sinks

/-- The worker and the runner read a boundary alike, whatever order either lists its hash
maps in: the worker gets a source and a sink for each output beside the stage's own
transforms, it has the runner's coders, the coder of each boundary has the element coder
the runner takes, and its window coder is the one the runner resolves. -/
theorem registerBundle_agrees {leafOrder runnerLeafOrder next : List String → List String}
    (hLeafOrder : ∀ ids, (leafOrder ids).Perm ids)
    (hRunnerLeafOrder : ∀ ids, (runnerLeafOrder ids).Perm ids)
    (hOrder : ∀ ids, (order ids).Perm ids) (hNext : ∀ ids, (next ids).Perm ids)
    (hCoders : ∀ id, stage.coders.lookup id = components.coders.lookup id)
    (hOwn : OwnIds stage (lengthPrefixPickledLeaves leafOrder stage.coders))
    {pipelineCoders : Store String Coder}
    (hRunner : pipelineCoders = lengthPrefixPickledLeaves runnerLeafOrder components.coders)
    (hGlobal : WindowCoder.tryFromCoder globalWindowCoder pipelineCoders = .ok .global)
    {url : String} {descriptor : Descriptor τ}
    (hDescriptor : registerBundle stage leafOrder order components url = some descriptor) :
    (∀ id transform, stage.transforms.lookup id = some transform →
      descriptor.transforms.lookup id = some (.inl transform)) ∧
    descriptor.transforms.lookup (stageSourceTransformId stage) =
      some (.inr (sourceTransform stage url)) ∧
    (∀ pcol ∈ stage.outputPcols,
      descriptor.transforms.lookup (stageSinkTransformId stage pcol.id) =
        some (.inr (sinkTransform stage url pcol))) ∧
    (∀ id ∈ pipelineCoders, descriptor.coders.lookup id = pipelineCoders.lookup id) ∧
    ∀ pcol ∈ stage.boundary, ∃ windowCoderId,
      descriptor.coders.lookup (windowedValueCoderId stage pcol.id) = some (windowedValue
        (resolveLengthPrefixedCoderId pcol.node.coderId pipelineCoders) windowCoderId) ∧
      ∀ window, resolveWindowCoder next components pipelineCoders pcol.id = .ok window →
        WindowCoder.tryFromCoder windowCoderId descriptor.coders = .ok window := by
  obtain ⟨table, hTable, rfl⟩ := Option.map_eq_some_iff.mp hDescriptor
  have hCopies : ∀ id, (lengthPrefixPickledLeaves leafOrder stage.coders).lookup id =
      pipelineCoders.lookup id := by
    rw [hRunner]
    exact lookup_lengthPrefixPickledLeaves hLeafOrder hRunnerLeafOrder hCoders
  have hMem : ∀ id, id ∈ pipelineCoders ↔
      id ∈ lengthPrefixPickledLeaves leafOrder stage.coders := by
    intro id
    rw [← AList.lookup_isSome, ← AList.lookup_isSome, hCopies]
  have hIntervals : ∀ id, HasUrn pipelineCoders id intervalWindowCoder ↔
      HasUrn components.coders id intervalWindowCoder := by
    rw [hRunner]
    exact hasUrn_lengthPrefixPickledLeaves hRunnerLeafOrder (by decide)
  have hTold := (Told.start hOwn).all hOwn (fun pcol hPcol => hPcol) hTable
  rw [List.nil_append] at hTold
  obtain ⟨hInner, hSource, hSinks⟩ := stageTransforms_boundary hOwn url
  refine ⟨hInner, hSource, hSinks, fun id hId => ?_, fun pcol hPcol => ?_⟩
  · exact (hTold.kept id ((hMem id).mp hId)).trans (hCopies id)
  · obtain ⟨windowCoderId, hWindow, hValue, hFallback⟩ := hTold.boundary pcol hPcol
    refine ⟨windowCoderId, ?_, fun window hResolved => ?_⟩
    · rw [hValue, resolveLengthPrefixedCoderId, resolveLengthPrefixedCoderId]
      simp only [hMem]
    · exact hTold.window hOrder hNext hCopies hIntervals hGlobal hWindow hFallback hResolved

end Boundary

end BundleDescriptor
end FlareDB
