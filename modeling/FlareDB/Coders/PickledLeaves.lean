import FlareDB.Fusion.Pipeline

/-! Length-prefixed wrappers of pickled leaves. The coders of a pipeline are a
store under their ids. The runner's decoder and the bundle descriptor rewrite
their own copies of it, so what a pass leaves may not depend on its order. -/
namespace FlareDB

open KeyedStore

/-- The function spec of a coder. -/
structure CoderSpec where
  urn : String
  payload : List UInt8
deriving DecidableEq, Repr

structure Coder where
  spec : Option CoderSpec
  componentCoderIds : List String
deriving DecidableEq, Repr

def pythonPickleCoder : String := "beam:coder:pickled_python:v1"

def lengthPrefixCoder : String := "beam:coder:length_prefix:v1"

def Coder.hasUrn (coder : Coder) (urn : String) : Bool :=
  coder.spec.elim false fun spec => spec.urn == urn

def lengthPrefixedSuffix : String := "_lp"

def lengthPrefixedCoderId (id : String) : String := id ++ lengthPrefixedSuffix

/-- The coder stored for the wrapper of `id`. -/
def lengthPrefixed (id : String) : Coder :=
  ⟨some ⟨lengthPrefixCoder, []⟩, [id]⟩

/-- One leaf of the first loop: its wrapper, unless the id is taken, and its
entry in the remap. -/
def wrapLeaf (state : Store String Coder × Store String String) (id : String) :
    Store String Coder × Store String String :=
  (if lengthPrefixedCoderId id ∈ state.1 then state.1
    else state.1.insert (lengthPrefixedCoderId id) (lengthPrefixed id),
    state.2.insert id (lengthPrefixedCoderId id))

def pickledLeafIds (coders : Store String Coder) : List String :=
  (coders.entries.filter fun entry => entry.2.hasUrn pythonPickleCoder).map Sigma.fst

/-- The component references of a coder, through the remap. -/
def Coder.remapped (remap : Store String String) (coder : Coder) : Coder :=
  { coder with
    componentCoderIds :=
      coder.componentCoderIds.map fun component => (remap.lookup component).getD component }

/-- `order` is the order in which the hash map lists the leaves. -/
def lengthPrefixPickledLeaves (order : List String → List String) (coders : Store String Coder) :
    Store String Coder :=
  let leafIds := order (pickledLeafIds coders)
  if leafIds.isEmpty then coders
  else
    let wrapped := leafIds.foldl wrapLeaf (coders, ∅)
    let wrapperIds := storeValues wrapped.2
    mapKeyed (fun id coder =>
      if wrapperIds.contains id then coder else coder.remapped wrapped.2) wrapped.1

def resolveLengthPrefixedCoderId (id : String) (coders : Store String Coder) : String :=
  if lengthPrefixedCoderId id ∈ coders then lengthPrefixedCoderId id else id

/-- A coder map holds a pickled leaf under the id. -/
def IsPickledLeaf (coders : Store String Coder) (id : String) : Prop :=
  ∃ coder, coders.lookup id = some coder ∧ coder.hasUrn pythonPickleCoder = true

/-- A coder map holds, under `wrapperId`, a length prefix around just `id`. -/
def IsWrapper (coders : Store String Coder) (wrapperId id : String) : Prop :=
  ∃ coder, coders.lookup wrapperId = some coder ∧ coder.hasUrn lengthPrefixCoder = true ∧
    coder.componentCoderIds = [id]

/-- Two coders get two wrappers. -/
theorem lengthPrefixedCoderId_injective {id other : String}
    (h : lengthPrefixedCoderId id = lengthPrefixedCoderId other) : id = other := by
  have hList := congrArg String.toList h
  simp only [lengthPrefixedCoderId, String.toList_append] at hList
  exact String.toList_inj.mp (List.append_cancel_right hList)

@[simp] theorem hasUrn_lengthPrefixed (id : String) :
    (lengthPrefixed id).hasUrn lengthPrefixCoder = true := by
  simp [Coder.hasUrn, lengthPrefixed]

@[simp] theorem componentCoderIds_lengthPrefixed (id : String) :
    (lengthPrefixed id).componentCoderIds = [id] := rfl

/-- A coder has one urn. -/
theorem Coder.hasUrn_unique {coder : Coder} {urn other : String} (h : coder.hasUrn urn = true)
    (hOther : coder.hasUrn other = true) : urn = other := by
  unfold Coder.hasUrn at h hOther
  cases hSpec : coder.spec with
  | none => simp [hSpec] at h
  | some spec =>
      rw [hSpec] at h hOther
      simp only [Option.elim_some, beq_iff_eq] at h hOther
      rw [← h, ← hOther]

theorem mem_pickledLeafIds {coders : Store String Coder} {id : String} :
    id ∈ pickledLeafIds coders ↔ IsPickledLeaf coders id := by
  constructor
  · intro h
    obtain ⟨entry, hEntry, rfl⟩ := List.mem_map.mp h
    obtain ⟨hMem, hUrn⟩ := List.mem_filter.mp hEntry
    exact ⟨entry.2, AList.mem_lookup_iff.mpr hMem, hUrn⟩
  · rintro ⟨coder, hLookup, hUrn⟩
    exact List.mem_map.mpr ⟨⟨id, coder⟩,
      List.mem_filter.mpr ⟨AList.mem_lookup_iff.mp hLookup, hUrn⟩, rfl⟩

section Wrapping

variable (coders : Store String Coder)

/-- What the first loop leaves in the coder map: each leaf's wrapper, where
its id was free. -/
theorem lookup_wrapLeaves (leafIds : List String) (remap : Store String String) (key : String) :
    (leafIds.foldl wrapLeaf (coders, remap)).1.lookup key =
      (coders.lookup key).or
        ((leafIds.find? fun id => lengthPrefixedCoderId id == key).map lengthPrefixed) := by
  induction leafIds generalizing coders remap with
  | nil => simp
  | cons id leafIds ih =>
      rw [List.foldl_cons, wrapLeaf, ih]
      by_cases hTaken : lengthPrefixedCoderId id ∈ coders
      · rw [if_pos hTaken]
        by_cases hKey : lengthPrefixedCoderId id = key
        · rw [hKey] at hTaken
          obtain ⟨coder, hCoder⟩ := Option.isSome_iff_exists.mp (AList.lookup_isSome.mpr hTaken)
          rw [hCoder, Option.some_or, Option.some_or]
        · rw [List.find?_cons_of_neg (by simpa using hKey)]
      · rw [if_neg hTaken]
        by_cases hKey : lengthPrefixedCoderId id = key
        · subst hKey
          rw [AList.lookup_insert, AList.lookup_eq_none.mpr hTaken,
            List.find?_cons_of_pos (by simp)]
          rfl
        · rw [AList.lookup_insert_ne (Ne.symm hKey),
            List.find?_cons_of_neg (by simpa using hKey)]

/-- The remapping has the pickled leaves and nothing else. -/
theorem lookup_remap (leafIds : List String) (remap : Store String String) (id : String) :
    (leafIds.foldl wrapLeaf (coders, remap)).2.lookup id =
      if id ∈ leafIds then some (lengthPrefixedCoderId id) else remap.lookup id := by
  induction leafIds generalizing coders remap with
  | nil => simp
  | cons leaf leafIds ih =>
      rw [List.foldl_cons, wrapLeaf, ih]
      by_cases hMem : id ∈ leafIds
      · rw [if_pos hMem, if_pos (List.mem_cons_of_mem _ hMem)]
      · rw [if_neg hMem]
        by_cases hLeaf : id = leaf
        · rw [hLeaf, AList.lookup_insert, if_pos List.mem_cons_self]
        · rw [AList.lookup_insert_ne hLeaf, if_neg (by simp [hLeaf, hMem])]

end Wrapping

/-- A component reference after the pass, away from the wrappers. -/
def repoint (coders : Store String Coder) (component : String) : String :=
  if component ∈ pickledLeafIds coders then lengthPrefixedCoderId component else component

def Coder.repointed (coders : Store String Coder) (coder : Coder) : Coder :=
  { coder with componentCoderIds := coder.componentCoderIds.map (repoint coders) }

/-- A pickled leaf is repointed to its wrapper. -/
theorem repoint_leaf {coders : Store String Coder} {id : String} (h : IsPickledLeaf coders id) :
    repoint coders id = lengthPrefixedCoderId id :=
  if_pos (mem_pickledLeafIds.mpr h)

/-- Any other coder is left as it is. -/
theorem repoint_other {coders : Store String Coder} {id : String} (h : ¬ IsPickledLeaf coders id) :
    repoint coders id = id :=
  if_neg fun hMem => h (mem_pickledLeafIds.mp hMem)

@[simp] theorem hasUrn_repointed (coders : Store String Coder) (coder : Coder) (urn : String) :
    (coder.repointed coders).hasUrn urn = coder.hasUrn urn := rfl

section Pass

variable {order : List String → List String} (hOrder : ∀ ids, (order ids).Perm ids)
  {coders : Store String Coder}
include hOrder

theorem mem_order {id : String} : id ∈ order (pickledLeafIds coders) ↔ IsPickledLeaf coders id :=
  (hOrder _).mem_iff.trans mem_pickledLeafIds

/-- The new ids are the wrappers of pickled leaves. -/
theorem contains_wrapperIds {key : String} :
    (storeValues ((order (pickledLeafIds coders)).foldl wrapLeaf (coders, ∅)).2).contains key =
      true ↔ ∃ id, IsPickledLeaf coders id ∧ lengthPrefixedCoderId id = key := by
  rw [List.contains_iff_mem, storeValues, List.mem_map]
  constructor
  · rintro ⟨entry, hEntry, rfl⟩
    have hLookup := AList.mem_lookup_iff.mpr hEntry
    rw [Option.mem_def, lookup_remap] at hLookup
    split at hLookup
    next hMem =>
      exact ⟨entry.1, (mem_order hOrder).mp hMem, Option.some.inj hLookup⟩
    next => cases hLookup
  · rintro ⟨id, hLeaf, rfl⟩
    refine ⟨⟨id, lengthPrefixedCoderId id⟩, AList.mem_lookup_iff.mp ?_, rfl⟩
    rw [Option.mem_def, lookup_remap, if_pos ((mem_order hOrder).mpr hLeaf)]

/-- Components are remapped as they are repointed. -/
theorem remapped_wrapLeaves (coder : Coder) :
    coder.remapped ((order (pickledLeafIds coders)).foldl wrapLeaf (coders, ∅)).2 =
      coder.repointed coders := by
  unfold Coder.remapped Coder.repointed
  congr 1
  apply List.map_congr_left
  intro component _
  rw [lookup_remap, repoint]
  by_cases hLeaf : IsPickledLeaf coders component
  · rw [if_pos ((mem_order hOrder).mpr hLeaf), if_pos (mem_pickledLeafIds.mpr hLeaf)]
    rfl
  · rw [if_neg fun hMem => hLeaf ((mem_order hOrder).mp hMem),
      if_neg fun hMem => hLeaf (mem_pickledLeafIds.mp hMem)]
    rfl

/-- A leaf's wrapper is what held its id before, else the new wrapper. -/
theorem lookup_wrapper {id : String} (hLeaf : IsPickledLeaf coders id) :
    (lengthPrefixPickledLeaves order coders).lookup (lengthPrefixedCoderId id) =
      some ((coders.lookup (lengthPrefixedCoderId id)).getD (lengthPrefixed id)) := by
  have hMem := (mem_order hOrder).mpr hLeaf
  have hFound : (order (pickledLeafIds coders)).find?
      (fun other => lengthPrefixedCoderId other == lengthPrefixedCoderId id) = some id := by
    cases hFind : (order (pickledLeafIds coders)).find?
        (fun other => lengthPrefixedCoderId other == lengthPrefixedCoderId id) with
    | none => exact absurd (List.find?_eq_none.mp hFind id hMem) (by simp)
    | some other =>
        have hSame := List.find?_some hFind
        rw [lengthPrefixedCoderId_injective (beq_iff_eq.mp hSame)]
  rw [lengthPrefixPickledLeaves]
  dsimp only
  rw [if_neg (by simpa using List.ne_nil_of_mem hMem), lookup_mapKeyed, lookup_wrapLeaves, hFound]
  simp only [if_pos ((contains_wrapperIds hOrder).mpr ⟨id, hLeaf, rfl⟩)]
  cases coders.lookup (lengthPrefixedCoderId id) <;> rfl

/-- Any other coder keeps its spec, and its references go to the wrappers. -/
theorem lookup_unwrapped {key : String}
    (h : ∀ id, IsPickledLeaf coders id → lengthPrefixedCoderId id ≠ key) :
    (lengthPrefixPickledLeaves order coders).lookup key =
      (coders.lookup key).map (Coder.repointed coders) := by
  rw [lengthPrefixPickledLeaves]
  dsimp only
  by_cases hEmpty : (order (pickledLeafIds coders)).isEmpty
  · have hNone : ∀ id, ¬ IsPickledLeaf coders id := fun id hLeaf => by
      have hMem := (mem_order hOrder).mpr hLeaf
      rw [List.isEmpty_iff.mp hEmpty] at hMem
      exact List.not_mem_nil hMem
    have hSame : ∀ coder : Coder, coder.repointed coders = coder := fun coder => by
      rw [Coder.repointed, List.map_congr_left fun id _ => repoint_other (hNone id), List.map_id']
    rw [if_pos hEmpty, funext hSame, Option.map_id']
  · have hFind : (order (pickledLeafIds coders)).find?
        (fun id => lengthPrefixedCoderId id == key) = none :=
      List.find?_eq_none.mpr fun id hMem => by
        simpa using h id ((mem_order hOrder).mp hMem)
    have hKept : ¬ (storeValues ((order (pickledLeafIds coders)).foldl wrapLeaf
        (coders, ∅)).2).contains key = true := fun hContains => by
      obtain ⟨id, hLeaf, hKey⟩ := (contains_wrapperIds hOrder).mp hContains
      exact h id hLeaf hKey
    rw [if_neg hEmpty, lookup_mapKeyed, lookup_wrapLeaves, hFind, Option.map_none, Option.or_none]
    simp only [if_neg hKept, remapped_wrapLeaves hOrder]

/-- With every wrapper in place, the first loop adds nothing. -/
theorem keys_lengthPrefixPickledLeaves
    (h : ∀ id, IsPickledLeaf coders id → lengthPrefixedCoderId id ∈ coders) :
    (lengthPrefixPickledLeaves order coders).keys = coders.keys := by
  have hLoop : ∀ (leafIds : List String) (remap : Store String String),
      (∀ id ∈ leafIds, lengthPrefixedCoderId id ∈ coders) →
      (leafIds.foldl wrapLeaf (coders, remap)).1 = coders := by
    intro leafIds
    induction leafIds with
    | nil => intro _ _; rfl
    | cons id leafIds ih =>
        intro remap hTaken
        rw [List.foldl_cons, wrapLeaf, if_pos (hTaken id List.mem_cons_self)]
        exact ih _ fun other hOther => hTaken other (List.mem_cons_of_mem _ hOther)
  rw [lengthPrefixPickledLeaves]
  dsimp only
  split
  · rfl
  · rw [keys_mapKeyed, hLoop _ _ fun id hMem => h id ((mem_order hOrder).mp hMem)]

end Pass

/-- What becomes of one component reference of the coder under `key`. -/
def Repointed (coders after : Store String Coder) (key : String) (before now : String) : Prop :=
  (IsPickledLeaf coders before ∧ key ≠ lengthPrefixedCoderId before → IsWrapper after now before) ∧
    (¬ (IsPickledLeaf coders before ∧ key ≠ lengthPrefixedCoderId before) → now = before)

/-- The pass wraps every leaf and repoints every reference to one, touches
nothing else, and has nothing left to do. -/
structure LeavesPrefixed (order : List String → List String) (coders : Store String Coder) :
    Prop where
  repointed : ∀ key coder, coders.lookup key = some coder →
    ∃ after, (lengthPrefixPickledLeaves order coders).lookup key = some after ∧
      after.spec = coder.spec ∧
      List.Forall₂ (Repointed coders (lengthPrefixPickledLeaves order coders) key)
        coder.componentCoderIds after.componentCoderIds
  added : ∀ key, key ∉ coders → key ∈ lengthPrefixPickledLeaves order coders →
    ∃ id, IsPickledLeaf coders id ∧ key = lengthPrefixedCoderId id
  again : ∀ next : List String → List String, (∀ ids, (next ids).Perm ids) →
    lengthPrefixPickledLeaves next (lengthPrefixPickledLeaves order coders) =
      lengthPrefixPickledLeaves order coders
  leaves : ∀ id, IsPickledLeaf coders id →
    IsWrapper (lengthPrefixPickledLeaves order coders)
      (resolveLengthPrefixedCoderId id (lengthPrefixPickledLeaves order coders)) id
  resolved : ∀ id,
    IsWrapper (lengthPrefixPickledLeaves order coders) (lengthPrefixedCoderId id) id →
    resolveLengthPrefixedCoderId id (lengthPrefixPickledLeaves order coders) =
      lengthPrefixedCoderId id
  unresolved : ∀ id,
    ¬ IsWrapper (lengthPrefixPickledLeaves order coders) (lengthPrefixedCoderId id) id →
    resolveLengthPrefixedCoderId id (lengthPrefixPickledLeaves order coders) = id

/-- The ids that end in the suffix are already used the way the pass uses them. -/
def SuffixReserved (coders : Store String Coder) : Prop :=
  ∀ id coder, coders.lookup (lengthPrefixedCoderId id) = some coder →
    coder.hasUrn lengthPrefixCoder = true ∧
      (coder.componentCoderIds = [id] ∨
        ¬ IsPickledLeaf coders id ∧ ∃ leaf, IsPickledLeaf coders leaf ∧
          id = lengthPrefixedCoderId leaf ∧ coder.componentCoderIds = [leaf])

namespace SuffixReserved

variable {order : List String → List String} (hOrder : ∀ ids, (order ids).Perm ids)
  {coders : Store String Coder} (h : SuffixReserved coders)
include h

/-- No leaf has a wrapper's id. -/
theorem not_leaf (id : String) : ¬ IsPickledLeaf coders (lengthPrefixedCoderId id) := by
  rintro ⟨coder, hLookup, hPickled⟩
  have hUrn := Coder.hasUrn_unique hPickled (h id coder hLookup).1
  exact absurd hUrn (by decide)

include hOrder

/-- Every pickled leaf has its wrapper. -/
theorem wraps {id : String} (hLeaf : IsPickledLeaf coders id) :
    IsWrapper (lengthPrefixPickledLeaves order coders) (lengthPrefixedCoderId id) id := by
  refine ⟨_, lookup_wrapper hOrder hLeaf, ?_⟩
  cases hLookup : coders.lookup (lengthPrefixedCoderId id) with
  | none => exact ⟨hasUrn_lengthPrefixed id, rfl⟩
  | some coder =>
      obtain ⟨hUrn, hOwn | ⟨hNot, -⟩⟩ := h id coder hLookup
      · exact ⟨hUrn, hOwn⟩
      · exact absurd hLeaf hNot

/-- Every id ending in the suffix is, after the pass, the wrapper of the rest. -/
theorem isWrapper_of_mem {id : String}
    (hMem : lengthPrefixedCoderId id ∈ lengthPrefixPickledLeaves order coders) :
    IsWrapper (lengthPrefixPickledLeaves order coders) (lengthPrefixedCoderId id) id := by
  by_cases hLeaf : IsPickledLeaf coders id
  · exact h.wraps hOrder hLeaf
  have hUnwrapped : ∀ leaf, IsPickledLeaf coders leaf →
      lengthPrefixedCoderId leaf ≠ lengthPrefixedCoderId id := by
    intro leaf hPickled hSame
    rw [lengthPrefixedCoderId_injective hSame] at hPickled
    exact hLeaf hPickled
  have hLookup := lookup_unwrapped hOrder hUnwrapped
  obtain ⟨after, hAfter⟩ := Option.isSome_iff_exists.mp (AList.lookup_isSome.mpr hMem)
  refine ⟨after, hAfter, ?_⟩
  rw [hAfter] at hLookup
  obtain ⟨coder, hCoder, rfl⟩ := Option.map_eq_some_iff.mp hLookup.symm
  obtain ⟨hUrn, hOwn | ⟨-, leaf, hPickled, rfl, hOwn⟩⟩ := h id coder hCoder
  · refine ⟨hUrn, ?_⟩
    rw [Coder.repointed, hOwn]
    exact congrArg (fun other => [other]) (repoint_other hLeaf)
  · refine ⟨hUrn, ?_⟩
    rw [Coder.repointed, hOwn]
    exact congrArg (fun other => [other]) (repoint_leaf hPickled)

/-- Wrapping makes no new pickled leaf. -/
theorem isPickledLeaf_iff {id : String} :
    IsPickledLeaf (lengthPrefixPickledLeaves order coders) id ↔ IsPickledLeaf coders id := by
  by_cases hWrapper : ∃ leaf, IsPickledLeaf coders leaf ∧ lengthPrefixedCoderId leaf = id
  · obtain ⟨leaf, hLeaf, rfl⟩ := hWrapper
    refine ⟨?_, fun hPickled => absurd hPickled (h.not_leaf leaf)⟩
    rintro ⟨coder, hLookup, hPickled⟩
    obtain ⟨wrapper, hWrapper, hUrn, -⟩ := h.wraps hOrder hLeaf
    rw [hLookup] at hWrapper
    rw [← Option.some.inj hWrapper] at hUrn
    exact absurd (Coder.hasUrn_unique hPickled hUrn) (by decide)
  · have hLookup := lookup_unwrapped hOrder fun leaf hLeaf hSame => hWrapper ⟨leaf, hLeaf, hSame⟩
    unfold IsPickledLeaf
    rw [hLookup]
    simp

/-- A reference that was repointed is not repointed again. -/
theorem repoint_again (component : String) :
    repoint (lengthPrefixPickledLeaves order coders) (repoint coders component) =
      repoint coders component := by
  apply repoint_other
  rw [h.isPickledLeaf_iff hOrder]
  by_cases hLeaf : IsPickledLeaf coders component
  · rw [repoint_leaf hLeaf]
    exact h.not_leaf component
  · rw [repoint_other hLeaf]
    exact hLeaf

/-- Wrapping twice is wrapping once. -/
theorem lengthPrefixPickledLeaves_again {next : List String → List String}
    (hNext : ∀ ids, (next ids).Perm ids) :
    lengthPrefixPickledLeaves next (lengthPrefixPickledLeaves order coders) =
      lengthPrefixPickledLeaves order coders := by
  have hPlaced : ∀ id, IsPickledLeaf (lengthPrefixPickledLeaves order coders) id →
      lengthPrefixedCoderId id ∈ lengthPrefixPickledLeaves order coders := fun id hLeaf => by
    have hWrapper := lookup_wrapper hOrder ((h.isPickledLeaf_iff hOrder).mp hLeaf)
    exact AList.lookup_isSome.mp (by rw [hWrapper]; rfl)
  refine ext_of_lookup (keys_lengthPrefixPickledLeaves hNext hPlaced) fun key => ?_
  by_cases hWrapper : ∃ leaf, IsPickledLeaf coders leaf ∧ lengthPrefixedCoderId leaf = key
  · obtain ⟨leaf, hLeaf, rfl⟩ := hWrapper
    rw [lookup_wrapper hNext ((h.isPickledLeaf_iff hOrder).mpr hLeaf),
      lookup_wrapper hOrder hLeaf]
    rfl
  · rw [lookup_unwrapped hNext fun leaf hLeaf hSame =>
        hWrapper ⟨leaf, (h.isPickledLeaf_iff hOrder).mp hLeaf, hSame⟩,
      lookup_unwrapped hOrder fun leaf hLeaf hSame => hWrapper ⟨leaf, hLeaf, hSame⟩,
      Option.map_map]
    congr 1
    funext coder
    simp only [Function.comp_apply, Coder.repointed, List.map_map]
    congr 1
    exact List.map_congr_left fun component _ => h.repoint_again hOrder component

/-- Every coder keeps its specification and has its components repointed. -/
theorem repointed {key : String} {coder : Coder} (hCoder : coders.lookup key = some coder) :
    ∃ after, (lengthPrefixPickledLeaves order coders).lookup key = some after ∧
      after.spec = coder.spec ∧
      List.Forall₂ (Repointed coders (lengthPrefixPickledLeaves order coders) key)
        coder.componentCoderIds after.componentCoderIds := by
  by_cases hWrapper : ∃ leaf, IsPickledLeaf coders leaf ∧ lengthPrefixedCoderId leaf = key
  · obtain ⟨leaf, hLeaf, rfl⟩ := hWrapper
    have hLookup := lookup_wrapper hOrder hLeaf
    rw [hCoder] at hLookup
    refine ⟨coder, hLookup, rfl, ?_⟩
    obtain ⟨-, hOwn | ⟨hNot, -⟩⟩ := h leaf coder hCoder
    · rw [hOwn]
      exact .cons ⟨fun hOther => absurd rfl hOther.2, fun _ => rfl⟩ .nil
    · exact absurd hLeaf hNot
  · have hLookup := lookup_unwrapped hOrder fun leaf hLeaf hSame => hWrapper ⟨leaf, hLeaf, hSame⟩
    rw [hCoder] at hLookup
    refine ⟨coder.repointed coders, hLookup, rfl, ?_⟩
    refine List.forall₂_map_right_iff.mpr (List.forall₂_same.mpr fun component _ => ?_)
    constructor
    · rintro ⟨hLeaf, -⟩
      rw [repoint_leaf hLeaf]
      exact h.wraps hOrder hLeaf
    · intro hKept
      exact repoint_other fun hLeaf =>
        hKept ⟨hLeaf, fun hSame => hWrapper ⟨component, hLeaf, hSame.symm⟩⟩

/-- Where the suffix is reserved, every pickled leaf is prefixed. -/
theorem leavesPrefixed : LeavesPrefixed order coders where
  repointed _ _ hCoder := h.repointed hOrder hCoder
  added key hNew hMem := by
    by_contra hNone
    have hUnwrapped : ∀ id, IsPickledLeaf coders id → lengthPrefixedCoderId id ≠ key :=
      fun leaf hLeaf hSame => hNone ⟨leaf, hLeaf, hSame.symm⟩
    have hLookup := lookup_unwrapped hOrder hUnwrapped
    rw [AList.lookup_eq_none.mpr hNew] at hLookup
    exact AList.lookup_eq_none.mp hLookup hMem
  again _ hNext := h.lengthPrefixPickledLeaves_again hOrder hNext
  leaves id hLeaf := by
    obtain ⟨coder, hLookup, hWrapper⟩ := h.wraps hOrder hLeaf
    rw [resolveLengthPrefixedCoderId, if_pos (AList.lookup_isSome.mp (by rw [hLookup]; rfl))]
    exact ⟨coder, hLookup, hWrapper⟩
  resolved id hWrapper := by
    obtain ⟨coder, hLookup, -⟩ := hWrapper
    exact if_pos (AList.lookup_isSome.mp (by rw [hLookup]; rfl))
  unresolved id hNone := if_neg fun hMem => hNone (h.isWrapper_of_mem hOrder hMem)

end SuffixReserved

/-- A coder already stored under an id with the suffix is found by
`resolveLengthPrefixedCoderId`, so it has to be a wrapper. -/
theorem LeavesPrefixed.suffixReserved {order : List String → List String}
    (hOrder : ∀ ids, (order ids).Perm ids) {coders : Store String Coder}
    (h : LeavesPrefixed order coders) : SuffixReserved coders := by
  intro id coder hCoder
  obtain ⟨after, hAfter, hSpec, -⟩ := h.repointed _ coder hCoder
  have hWrapper : IsWrapper (lengthPrefixPickledLeaves order coders)
      (lengthPrefixedCoderId id) id := by
    by_contra hNone
    have hResolved := h.unresolved id hNone
    rw [resolveLengthPrefixedCoderId,
      if_pos (AList.lookup_isSome.mp (by rw [hAfter]; rfl))] at hResolved
    simpa [lengthPrefixedCoderId, lengthPrefixedSuffix] using congrArg String.length hResolved
  obtain ⟨wrapper, hLookup, hUrn, hOwn⟩ := hWrapper
  by_cases hLeaf : IsPickledLeaf coders id
  · rw [lookup_wrapper hOrder hLeaf, hCoder] at hLookup
    rw [← Option.some.inj hLookup] at hUrn hOwn
    exact ⟨hUrn, .inl hOwn⟩
  have hUnwrapped : ∀ leaf, IsPickledLeaf coders leaf →
      lengthPrefixedCoderId leaf ≠ lengthPrefixedCoderId id := by
    intro leaf hPickled hSame
    rw [lengthPrefixedCoderId_injective hSame] at hPickled
    exact hLeaf hPickled
  rw [lookup_unwrapped hOrder hUnwrapped, hCoder] at hLookup
  rw [← Option.some.inj hLookup] at hUrn hOwn
  refine ⟨hUrn, ?_⟩
  obtain ⟨component, hComponents, hRepoint⟩ := List.map_eq_singleton_iff.mp hOwn
  by_cases hPickled : IsPickledLeaf coders component
  · rw [repoint_leaf hPickled] at hRepoint
    exact .inr ⟨hLeaf, component, hPickled, hRepoint.symm, hComponents⟩
  · rw [repoint_other hPickled] at hRepoint
    rw [hRepoint] at hComponents
    exact .inl hComponents

/-- The pass keeps its promises on exactly the maps where every id with the
suffix is a wrapper of the rest. -/
theorem leavesPrefixed_iff {order : List String → List String}
    (hOrder : ∀ ids, (order ids).Perm ids) (coders : Store String Coder) :
    LeavesPrefixed order coders ↔ SuffixReserved coders :=
  ⟨fun h => h.suffixReserved hOrder, fun h => h.leavesPrefixed hOrder⟩

/-- A nullable pickled leaf inside a tuple. -/
def nullableLeaf : Store String Coder :=
  ofPairs [
    ("bytes", ⟨some ⟨"beam:coder:bytes:v1", []⟩, []⟩),
    ("fast", ⟨some ⟨pythonPickleCoder, []⟩, []⟩),
    ("nullable", ⟨some ⟨"beam:coder:nullable:v1", []⟩, ["fast"]⟩),
    ("tuple", ⟨some ⟨"beam:coder:tuple:v1", []⟩, ["bytes", "nullable"]⟩)]

theorem suffixReserved_nullableLeaf : SuffixReserved nullableLeaf := by
  intro id coder hCoder
  have hKey : lengthPrefixedCoderId id ∈ nullableLeaf.keys := mem_keys_iff.mpr ⟨coder, hCoder⟩
  have hSuffix : ∀ key ∈ nullableLeaf.keys, ¬ ['_', 'l', 'p'] <:+ key.toList := by decide
  refine absurd ?_ (hSuffix _ hKey)
  exact ⟨id.toList, by simp [lengthPrefixedCoderId, lengthPrefixedSuffix]⟩

theorem leavesPrefixed_iff_nullable : LeavesPrefixed id nullableLeaf :=
  (leavesPrefixed_iff List.Perm.refl nullableLeaf).mpr suffixReserved_nullableLeaf

/-- A bytes coder already holds the id of a leaf's wrapper. -/
def takenWrapper : Store String Coder :=
  ofPairs [
    ("a", ⟨some ⟨pythonPickleCoder, []⟩, []⟩),
    ("a_lp", ⟨some ⟨"beam:coder:bytes:v1", []⟩, []⟩),
    ("pair", ⟨some ⟨"beam:coder:kv:v1", []⟩, ["a", "a_lp"]⟩)]

/-- The pair's first component is decoded as bytes. -/
theorem not_leavesPrefixed_taken : ¬ LeavesPrefixed id takenWrapper := by
  intro h
  obtain ⟨after, hLookup, -, hComponents⟩ := h.repointed "pair" _ rfl
  have hPair : after.componentCoderIds = ["a_lp", "a_lp"] := by
    rw [← Option.some.inj hLookup]
    rfl
  rw [hPair] at hComponents
  obtain ⟨hFirst, -⟩ := List.forall₂_cons.mp hComponents
  obtain ⟨wrapper, hWrapper, hUrn, -⟩ := hFirst.1 ⟨⟨_, rfl, rfl⟩, by decide⟩
  rw [← Option.some.inj hWrapper] at hUrn
  exact absurd hUrn (by decide)

end FlareDB
