import FlareDB.Fusion.ExpansionRuns

/-! The expansion of splittable ParDos rewires the graph and nothing else, exactly
where no name it gives to a transform is taken. -/
namespace FlareDB.Expander

open KeyedStore FreshNames SplittableParDo

/-! What the expansion ought to do. -/

/-- A coder map holds, under `id`, a KV coder of the two coders. -/
def IsKv (coders : Store String Coder) (id keyCoderId valueCoderId : String) : Prop :=
  ∃ coder, coders.lookup id = some coder ∧ coder.hasUrn kvCoder = true ∧
    coder.componentCoderIds = [keyCoderId, valueCoderId]

/-- KV of element and restriction, for a pair; KV of that and a size for what
follows, which a truncation returns as it takes it. -/
def IsLinkCoder (coders : Store String Coder) (element restriction id : String) : SdfRole → Prop
  | .pairWithRestriction => IsKv coders id element restriction
  | _ => ∃ pair size, IsKv coders id pair size ∧ IsKv coders pair element restriction ∧
      IsDouble coders size

/-- The ids of a chain, with the main input that it reads. -/
structure Chain where
  mainInputName : String
  mainInputPcolId : String
  member : SdfRole → String
  link : SdfRole → String

/-- The PCollection that a member takes its main input from. -/
def Chain.inputOf (chain : Chain) (isDrain : Bool) : SdfRole → String
  | .pairWithRestriction => chain.mainInputPcolId
  | .splitAndSize => chain.link .pairWithRestriction
  | .truncateAndSize => chain.link .splitAndSize
  | .processSizedElementsAndRestrictions =>
      chain.link (if isDrain then .truncateAndSize else .splitAndSize)

/-- A member of the chain of a ParDo. -/
structure IsMember (isDrain : Bool) (parDo : PTransform) (payloadBytes : List UInt8)
    (payload : ParDoPayload) (chain : Chain) (role : SdfRole) (pt : PTransform) : Prop where
  spec : pt.spec = some ⟨role.urn, payloadBytes⟩
  subtransforms : pt.subtransforms = []
  environment : pt.environmentId = parDo.environmentId
  mainInput : pt.inputs.lookup chain.mainInputName = some (chain.inputOf isDrain role)
  sideInputs : ∀ name ∈ payload.sideInputs, pt.inputs.lookup name = parDo.inputs.lookup name
  firstInputs : role = .pairWithRestriction → pt.inputs = parDo.inputs
  otherInputs : role ≠ .pairWithRestriction → ∀ name ∈ pt.inputs,
    name = chain.mainInputName ∨ name ∈ payload.sideInputs
  lastOutputs : role = .processSizedElementsAndRestrictions → pt.outputs = parDo.outputs
  linkOutputs : role ∈ linkRoles isDrain → ∀ pcolId,
    (∃ name, pt.outputs.lookup name = some pcolId) ↔ pcolId = chain.link role

/-- A link of the chain of a ParDo. -/
structure IsLink (mainInputPcol pcol : PCollection) : Prop where
  isBounded : pcol.isBounded = mainInputPcol.isBounded
  windowingStrategy : pcol.windowingStrategyId = mainInputPcol.windowingStrategyId

/-- A ParDo became the composite of a chain of new transforms. The coders of the
links in `typed` are right. -/
structure ExpandedTo (isDrain : Bool) (typed : List SdfRole) (original result : Components)
    (id : String) (parDo : PTransform) (payloadBytes : List UInt8) (payload : ParDoPayload)
    (chain : Chain) : Prop where
  composite : result.transforms.lookup id = some { parDo with
    spec := none
    subtransforms := (memberRoles isDrain).map chain.member }
  mainInput : chain.mainInputName ∉ payload.sideInputs ∧
    parDo.inputs.lookup chain.mainInputName = some chain.mainInputPcolId
  members : ∀ role ∈ memberRoles isDrain, chain.member role ∉ original.transforms ∧
    ∃ pt, result.transforms.lookup (chain.member role) = some pt ∧
      IsMember isDrain parDo payloadBytes payload chain role pt
  links : ∀ role ∈ linkRoles isDrain, chain.link role ∉ original.pcollections ∧
    ∃ mainInputPcol pcol, original.pcollections.lookup chain.mainInputPcolId = some mainInputPcol ∧
      result.pcollections.lookup (chain.link role) = some pcol ∧ IsLink mainInputPcol pcol ∧
        (role ∈ typed → IsLinkCoder result.coders mainInputPcol.coderId
          payload.restrictionCoderId pcol.coderId role)

/-- The splittable ParDos of a pipeline became chains, and nothing else changed. -/
structure Rewired (decode : List UInt8 → Option ParDoPayload) (isDrain : Bool)
    (typed : List SdfRole) (original result : Components) (chain : String → Chain) : Prop where
  coders : ∀ id coder, original.coders.lookup id = some coder →
    result.coders.lookup id = some coder
  pcollections : ∀ id pcol, original.pcollections.lookup id = some pcol →
    result.pcollections.lookup id = some pcol
  transforms : ∀ id pt, original.transforms.lookup id = some pt → Unsplittable decode pt →
    result.transforms.lookup id = some pt
  expanded : ∀ id parDo payloadBytes payload, original.transforms.lookup id = some parDo →
    IsSplittable decode parDo payloadBytes payload →
    ExpandedTo isDrain typed original result id parDo payloadBytes payload (chain id)
  membersApart : ∀ id parDo bytes payload other otherParDo otherBytes otherPayload,
    original.transforms.lookup id = some parDo → IsSplittable decode parDo bytes payload →
    original.transforms.lookup other = some otherParDo →
    IsSplittable decode otherParDo otherBytes otherPayload →
    ∀ role ∈ memberRoles isDrain, ∀ otherRole ∈ memberRoles isDrain,
      (chain id).member role = (chain other).member otherRole → id = other ∧ role = otherRole
  linksApart : ∀ id parDo bytes payload other otherParDo otherBytes otherPayload,
    original.transforms.lookup id = some parDo → IsSplittable decode parDo bytes payload →
    original.transforms.lookup other = some otherParDo →
    IsSplittable decode otherParDo otherBytes otherPayload →
    ∀ role ∈ linkRoles isDrain, ∀ otherRole ∈ linkRoles isDrain,
      (chain id).link role = (chain other).link otherRole → id = other ∧ role = otherRole
  transformNames : DistinctNames PTransform.uniqueName result.transforms
  pcollectionNames : DistinctNames PCollection.uniqueName result.pcollections
  again : ∀ orders fuel, expandSplittableParDos decode orders isDrain fuel result = some result

/-- In whatever order the hash maps list their keys, the pass returns and rewires
the graph. -/
def RewiresAlways (decode : List UInt8 → Option ParDoPayload) (isDrain : Bool)
    (typed : List SdfRole) (original : Components) : Prop :=
  ∀ orders : HashOrders, ∃ fuel result chain,
    expandSplittableParDos decode orders isDrain fuel original = some result ∧
      Rewired decode isDrain typed original result chain

/-- Names are unique, and splittable ParDos, which are primitive transforms, have
no subtransforms. -/
structure WellNamed (decode : List UInt8 → Option ParDoPayload) (components : Components) :
    Prop where
  transformNames : DistinctNames PTransform.uniqueName components.transforms
  pcollectionNames : DistinctNames PCollection.uniqueName components.pcollections
  primitive : Primitive decode components

/-! When it does. -/

/-- A splittable ParDo that may read a PCollection with the name. -/
def MayRead (decode : List UInt8 → Option ParDoPayload) (components : Components) (name id : String) :
    Prop :=
  ∃ parDo bytes payload inputName pcolId pcol,
    components.transforms.lookup id = some parDo ∧ IsSplittable decode parDo bytes payload ∧
      parDo.inputs.lookup inputName = some pcolId ∧ inputName ∉ payload.sideInputs ∧
      components.pcollections.lookup pcolId = some pcol ∧ pcol.uniqueName = name

/-- The number that the name of a member may get. It is free among the PCollections,
and the free ones before it can be used up by links of other ParDos, each of
which reads a PCollection that is named like this ParDo. -/
def MayGet (decode : List UInt8 → Option ParDoPayload) (isDrain : Bool) (components : Components)
    (id name : String) (role : SdfRole) (number : Nat) : Prop :=
  FreeName components name role number ∧
    ∃ others : List String, others.Nodup ∧
      (∀ other ∈ others, other ≠ id ∧ MayRead decode components name other) ∧
      (role ∉ linkRoles isDrain → others = []) ∧
      others.length = Nat.count (FreeName components name role) number

/-- No transform of the pipeline has a name that a member may get. -/
def NamesFree (decode : List UInt8 → Option ParDoPayload) (isDrain : Bool)
    (components : Components) : Prop :=
  ∀ id parDo bytes payload, components.transforms.lookup id = some parDo →
    IsSplittable decode parDo bytes payload → ∀ role ∈ memberRoles isDrain, ∀ number,
      MayGet decode isDrain components id parDo.uniqueName role number →
      ∀ other pt, components.transforms.lookup other = some pt →
        pt.uniqueName ≠ numbered (labelled parDo.uniqueName role.label) number

/-! The chain of an entry. -/

section Chains

variable {decode : List UInt8 → Option ParDoPayload} {orders : HashOrders} {isDrain : Bool}
  {original existing result : Components} {log : ExpansionLog} {found : SplittableParDo}

def chainOf (found : SplittableParDo) (existing : Components) : Chain :=
  ⟨found.mainInputName, found.mainInputPcolId, found.memberId existing, found.outId existing⟩

/-- The chain that the log has for a transform. -/
def chainAt (log : ExpansionLog) (id : String) : Chain :=
  match log.find? fun entry => entry.1.transformId = id with
  | some entry => chainOf entry.1 entry.2
  | none => ⟨"", "", fun _ => "", fun _ => ""⟩

/-- A ParDo is expanded once, so its entry in the log is one. -/
theorem entry_unique (h : log.ids.Nodup) {entry other : SplittableParDo × Components}
    (hEntry : entry ∈ log) (hOther : other ∈ log)
    (hSame : entry.1.transformId = other.1.transformId) : entry = other :=
  List.inj_on_of_nodup_map h hEntry hOther hSame

theorem chainAt_of_mem (h : log.ids.Nodup) (hMem : (found, existing) ∈ log) :
    chainAt log found.transformId = chainOf found existing := by
  rw [chainAt]
  cases hFind : log.find? fun entry => entry.1.transformId = found.transformId with
  | none =>
      have hNot := List.find?_eq_none.mp hFind _ hMem
      simp at hNot
  | some entry =>
      have hSame : entry.1.transformId = found.transformId := by
        simpa using List.find?_some hFind
      rw [entry_unique h (List.mem_of_find?_eq_some hFind) hMem hSame]

/-- A member's inputs: the side inputs of the ParDo, and the link under the main
input's name. -/
theorem lookup_chainedInputs {pcolId name : String} :
    (found.chainedInputs pcolId).lookup name =
      (if name ∈ found.payload.sideInputs then found.parDo.inputs.lookup name else none).or
        (if name = found.mainInputName then some pcolId else none) := by
  rw [chainedInputs, lookup_union, sideInputs, lookup_keep]
  by_cases hName : name = found.mainInputName
  · rw [if_pos hName, hName, AList.lookup_insert]
    simp
  · rw [if_neg hName, AList.lookup_insert_ne hName]
    simp

theorem chained_main (hMain : found.mainInputName ∉ found.payload.sideInputs) (pcolId : String) :
    (found.chainedInputs pcolId).lookup found.mainInputName = some pcolId := by
  rw [lookup_chainedInputs, if_neg hMain, if_pos rfl, Option.none_or]

theorem chained_side (hMain : found.mainInputName ∉ found.payload.sideInputs) (pcolId : String)
    {name : String} (hName : name ∈ found.payload.sideInputs) :
    (found.chainedInputs pcolId).lookup name = found.parDo.inputs.lookup name := by
  have hNe : name ≠ found.mainInputName := by
    rintro rfl
    exact hMain hName
  rw [lookup_chainedInputs, if_pos hName, if_neg hNe, Option.or_none]

/-- A member has no other inputs. -/
theorem chained_mem {pcolId name : String} (h : name ∈ found.chainedInputs pcolId) :
    name = found.mainInputName ∨ name ∈ found.payload.sideInputs := by
  have hSome := AList.lookup_isSome.mpr h
  rw [lookup_chainedInputs] at hSome
  by_cases hMain : name = found.mainInputName
  · exact .inl hMain
  · by_cases hSide : name ∈ found.payload.sideInputs
    · exact .inr hSide
    · rw [if_neg hMain, if_neg hSide] at hSome
      cases hSome

theorem not_linkRole_process (isDrain : Bool) :
    SdfRole.processSizedElementsAndRestrictions ∉ linkRoles isDrain := by
  cases isDrain <;> decide

/-- A member that feeds the next one writes its link and nothing else. -/
theorem linkOutputs_iff {role : SdfRole} (hRole : role ∈ linkRoles isDrain) {pcolId : String} :
    (∃ name, (found.memberOutputs existing role).lookup name = some pcolId) ↔
      pcolId = found.outId existing role := by
  have hOutputs : found.memberOutputs existing role =
      (∅ : Store String String).insert "out" (found.outId existing role) := by
    cases role with
    | processSizedElementsAndRestrictions => exact absurd hRole (not_linkRole_process isDrain)
    | pairWithRestriction | splitAndSize | truncateAndSize => rfl
  rw [hOutputs]
  constructor
  · rintro ⟨name, hLookup⟩
    by_cases hName : name = "out"
    · rw [hName, AList.lookup_insert] at hLookup
      exact (Option.some.inj hLookup).symm
    · rw [AList.lookup_insert_ne hName] at hLookup
      cases hLookup
  · rintro rfl
    exact ⟨"out", AList.lookup_insert _⟩

/-- What the expansion inserts for a role is a member of that role. -/
theorem isMember_member (hMain : found.mainInputName ∉ found.payload.sideInputs)
    (hInput : found.parDo.inputs.lookup found.mainInputName = some found.mainInputPcolId)
    (role : SdfRole) :
    IsMember isDrain found.parDo found.payloadBytes found.payload (chainOf found existing) role
      (found.member existing isDrain role) where
  spec := rfl
  subtransforms := rfl
  environment := rfl
  mainInput := by
    cases role with
    | pairWithRestriction => exact hInput
    | splitAndSize | truncateAndSize | processSizedElementsAndRestrictions =>
        exact chained_main hMain _
  sideInputs := by
    intro name hName
    cases role with
    | pairWithRestriction => rfl
    | splitAndSize | truncateAndSize | processSizedElementsAndRestrictions =>
        exact chained_side hMain _ hName
  firstInputs := by
    rintro rfl
    rfl
  otherInputs := by
    intro hRole name hName
    cases role with
    | pairWithRestriction => exact absurd rfl hRole
    | splitAndSize | truncateAndSize | processSizedElementsAndRestrictions => exact chained_mem hName
  lastOutputs := by
    rintro rfl
    rfl
  linkOutputs := fun hRole pcolId => linkOutputs_iff hRole

/-- The coder made for a pair is the coder of a pair. -/
theorem isKv_makeKvCoder {coders : Store String Coder} {id keyCoderId valueCoderId : String}
    (h : coders.lookup id = some (makeKvCoder keyCoderId valueCoderId)) :
    IsKv coders id keyCoderId valueCoderId :=
  ⟨_, h, by simp [makeKvCoder, Coder.hasUrn], rfl⟩

end Chains

namespace Expansions

variable {decode : List UInt8 → Option ParDoPayload} {orders : HashOrders} {isDrain : Bool}
  {original result : Components} {log : ExpansionLog}

/-- The coders of a pair and of a split are what they ought to be. -/
theorem isLinkCoder (h : Expansions decode orders isDrain original log result)
    {found : SplittableParDo} {existing : Components} (hMem : (found, existing) ∈ log)
    {role : SdfRole} (hRole : role ∈ linkRoles isDrain) (hTruncate : role ≠ .truncateAndSize) :
    IsLinkCoder result.coders found.mainInputPcol.coderId found.payload.restrictionCoderId
      (found.coderId existing role) role := by
  have hPair := isKv_makeKvCoder (h.coder hMem coders_pair)
  cases role with
  | pairWithRestriction => exact hPair
  | splitAndSize =>
      obtain ⟨coder, hDouble, hUrn⟩ := @coders_double orders isDrain found existing
      exact ⟨_, _, isKv_makeKvCoder (h.coder hMem coders_split), hPair, coder, h.coder hMem hDouble,
        hUrn⟩
  | truncateAndSize => exact absurd rfl hTruncate
  | processSizedElementsAndRestrictions => exact absurd hRole (not_linkRole_process isDrain)

/-- The main input that an entry was found with is an original PCollection. -/
theorem original_mainInput (h : Expansions decode orders isDrain original log result)
    (hMains : MainInputs decode original) {found : SplittableParDo} {existing : Components}
    (hMem : (found, existing) ∈ log) :
    found.mainInputName ∉ found.payload.sideInputs ∧
      original.pcollections.lookup found.mainInputPcolId = some found.mainInputPcol := by
  obtain ⟨earlier, hRun, hFound, -⟩ := h.entry hMem
  have hParDo := h.original_parDo hMem
  have hMain := hFound.mainInput_notMem (hMains.exist _ _ _ _ hParDo hFound.splittable)
  obtain ⟨pcol, hPcol⟩ :=
    hMains.known _ _ _ _ hParDo hFound.splittable _ _ hFound.mainInput hMain
  have hSame := hRun.pcollections hPcol
  rw [hFound.mainPcol] at hSame
  exact ⟨hMain, by rw [hPcol, Option.some.inj hSame]⟩

/-- Every splittable ParDo of the original is replaced by its chain. -/
theorem expandedTo (h : Expansions decode orders isDrain original log result)
    (hMains : MainInputs decode original) {typed : List SdfRole}
    (hTyped : SdfRole.truncateAndSize ∈ typed →
      ∀ id pt, original.transforms.lookup id = some pt → Unsplittable decode pt)
    {found : SplittableParDo} {existing : Components} (hMem : (found, existing) ∈ log) :
    ExpandedTo isDrain typed original result found.transformId found.parDo found.payloadBytes
      found.payload (chainOf found existing) := by
  obtain ⟨earlier, hRun, hFound, -⟩ := h.entry hMem
  obtain ⟨hMain, hPcol⟩ := h.original_mainInput hMains hMem
  refine ⟨h.root hMem, ⟨hMain, hFound.mainInput⟩, fun role hRole => ?_, fun role hRole => ?_⟩
  · exact ⟨h.member_fresh hMem role, _, h.member hMem hRole,
      isMember_member hMain hFound.mainInput role⟩
  · refine ⟨h.link_fresh hMem role, _, _, hPcol, h.link hMem hRole, ⟨rfl, rfl⟩, fun hIn => ?_⟩
    refine h.isLinkCoder hMem hRole ?_
    rintro rfl
    exact hTyped hIn _ _ (h.original_parDo hMem) _ _ hFound.splittable

/-! The names of transforms. -/

/-- The name of a member is one that it may get. -/
theorem mayGet (h : Expansions decode orders isDrain original log result)
    (hMains : MainInputs decode original) {found : SplittableParDo} {existing : Components}
    (hMem : (found, existing) ∈ log) (role : SdfRole) :
    MayGet decode isDrain original found.transformId found.parDo.uniqueName role
      (freeNumber (Expander.pcollectionNames existing)
        (labelled found.parDo.uniqueName role.label)) := by
  obtain ⟨earlier, hRun, hFound, -⟩ := h.entry hMem
  obtain ⟨hFree, hCount⟩ :=
    (eq_freeNumber_iff (hRun.mem_names_iff found.parDo.uniqueName role)).mp rfl
  refine ⟨hFree, ?_⟩
  rw [hCount]
  by_cases hRole : role ∈ linkRoles isDrain
  · refine ⟨(earlier.filter fun entry =>
      entry.1.mainInputPcol.uniqueName = found.parDo.uniqueName).map fun entry =>
        entry.1.transformId, ?_, fun other hOther => ?_, fun hNot => absurd hRole hNot, ?_⟩
    · exact hRun.nodup_ids.sublist (List.filter_sublist.map _)
    · obtain ⟨⟨entry, state⟩, hEntry, rfl⟩ := List.mem_map.mp hOther
      obtain ⟨hEarlier, hName⟩ := List.mem_filter.mp hEntry
      obtain ⟨-, -, hHere, -⟩ := hRun.entry hEarlier
      obtain ⟨hMain, hPcol⟩ := hRun.original_mainInput hMains hEarlier
      refine ⟨?_, _, _, _, _, _, _, hRun.original_parDo hEarlier, hHere.splittable, hHere.mainInput,
        hMain, hPcol, of_decide_eq_true hName⟩
      intro hSame
      refine (hRun.splittable hFound.lookup hFound.splittable).1 ?_
      rw [← hSame]
      exact List.mem_map_of_mem hEarlier
    · rw [List.length_map, linksNamed, if_pos hRole]
  · exact ⟨[], List.nodup_nil, fun other hOther => absurd hOther List.not_mem_nil, fun _ => rfl,
      by rw [linksNamed, if_neg hRole]; rfl⟩

/-- A transform keeps its name or is a member. -/
theorem name_cases (h : Expansions decode orders isDrain original log result) {id : String}
    {pt : PTransform} (hLookup : result.transforms.lookup id = some pt) :
    (∃ old, original.transforms.lookup id = some old ∧ pt.uniqueName = old.uniqueName) ∨
    (∃ entry ∈ log, ∃ role ∈ memberRoles isDrain, id = entry.1.memberId entry.2 role ∧
      pt = entry.1.member entry.2 isDrain role) := by
  rcases h.transforms_cases hLookup with ⟨-, hOld⟩ | ⟨entry, hEntry, rfl, rfl⟩ | hMember
  · exact .inl ⟨pt, hOld, rfl⟩
  · exact .inl ⟨_, h.original_parDo hEntry, rfl⟩
  · exact .inr hMember

/-- A transform keeps its unique name. -/
theorem keeps_name (h : Expansions decode orders isDrain original log result) {id : String}
    {pt : PTransform} (hLookup : original.transforms.lookup id = some pt) :
    ∃ now, result.transforms.lookup id = some now ∧ now.uniqueName = pt.uniqueName := by
  by_cases hLogged : id ∈ log.ids
  · obtain ⟨⟨found, existing⟩, hMem, rfl⟩ := List.mem_map.mp hLogged
    cases hLookup.symm.trans (h.original_parDo hMem)
    exact ⟨_, h.root hMem, rfl⟩
  · exact ⟨pt, h.waiting hLogged hLookup, rfl⟩

/-- Names that are free keep the transforms' names distinct. -/
theorem transformNames (h : Expansions decode orders isDrain original log result)
    (hNames : DistinctNames PTransform.uniqueName original.transforms)
    (hMains : MainInputs decode original) (hFree : NamesFree decode isDrain original) :
    DistinctNames PTransform.uniqueName result.transforms := by
  -- No original name is the name of a member.
  have hApart : ∀ {id : String} {old : PTransform} {entry : SplittableParDo × Components}
      {role : SdfRole}, original.transforms.lookup id = some old → entry ∈ log →
      role ∈ memberRoles isDrain →
      old.uniqueName ≠ (entry.1.member entry.2 isDrain role).uniqueName := by
    intro id old entry role hOld hEntry hRole
    obtain ⟨-, -, hFound, -⟩ := h.entry hEntry
    exact hFree _ _ _ _ (h.original_parDo hEntry) hFound.splittable role hRole _
      (h.mayGet hMains hEntry role) _ _ hOld
  intro id other pt otherPt hLookup hOther hSame
  rcases h.name_cases hLookup with ⟨old, hOld, hName⟩ | ⟨entry, hEntry, role, hRole, rfl, rfl⟩
  · rcases h.name_cases hOther with
      ⟨otherOld, hOtherOld, hOtherName⟩ | ⟨entry, hEntry, role, hRole, rfl, rfl⟩
    · exact hNames hOld hOtherOld (hName.symm.trans (hSame.trans hOtherName))
    · exact absurd (hName.symm.trans hSame) (hApart hOld hEntry hRole)
  · rcases h.name_cases hOther with
      ⟨otherOld, hOtherOld, hOtherName⟩ | ⟨otherEntry, hOtherEntry, otherRole, hOtherRole, rfl, rfl⟩
    · exact absurd (hOtherName.symm.trans hSame.symm) (hApart hOtherOld hEntry hRole)
    · obtain ⟨hParDos, rfl, -⟩ := numbered_role_injective hSame
      have hIds := hNames (h.original_parDo hEntry) (h.original_parDo hOtherEntry) hParDos
      rw [entry_unique h.nodup_ids hEntry hOtherEntry hIds]

/-- Nothing is left to expand. -/
theorem nothing_splittable (h : Expansions decode orders isDrain original log result)
    (hAll : ∀ id parDo bytes payload, original.transforms.lookup id = some parDo →
      IsSplittable decode parDo bytes payload → id ∈ log.ids) {id : String} {pt : PTransform}
    (hLookup : result.transforms.lookup id = some pt) : Unsplittable decode pt := by
  intro bytes payload hSplittable
  obtain ⟨hNot, hOld⟩ := h.splittable hLookup hSplittable
  exact hNot (hAll _ _ _ _ hOld hSplittable)

/-- A run of expansions rewires the pipeline as it should. -/
theorem rewired (h : Expansions decode orders isDrain original log result)
    (hNamed : WellNamed decode original) (hMains : MainInputs decode original)
    (hFree : NamesFree decode isDrain original) {typed : List SdfRole}
    (hTyped : SdfRole.truncateAndSize ∈ typed →
      ∀ id pt, original.transforms.lookup id = some pt → Unsplittable decode pt)
    (hAll : ∀ id parDo bytes payload, original.transforms.lookup id = some parDo →
      IsSplittable decode parDo bytes payload → id ∈ log.ids) :
    Rewired decode isDrain typed original result (chainAt log) where
  coders _ _ hCoder := h.coders hCoder
  pcollections _ _ hPcol := h.pcollections hPcol
  transforms _ _ hPt hUnsplittable := h.unsplittable hUnsplittable hPt
  expanded id parDo bytes payload hParDo hSplittable := by
    obtain ⟨⟨found, existing⟩, hMem, rfl⟩ := List.mem_map.mp (hAll _ _ _ _ hParDo hSplittable)
    obtain ⟨-, -, hFound, -⟩ := h.entry hMem
    cases hParDo.symm.trans (h.original_parDo hMem)
    obtain ⟨rfl, rfl⟩ := hSplittable.unique hFound.splittable
    rw [chainAt_of_mem h.nodup_ids hMem]
    exact h.expandedTo hMains hTyped hMem
  membersApart id parDo bytes payload other otherParDo otherBytes otherPayload hParDo hSplittable
      hOther hOtherSplittable role _ otherRole _ hSame := by
    obtain ⟨⟨found, existing⟩, hMem, rfl⟩ := List.mem_map.mp (hAll _ _ _ _ hParDo hSplittable)
    obtain ⟨⟨otherFound, otherExisting⟩, hOtherMem, rfl⟩ :=
      List.mem_map.mp (hAll _ _ _ _ hOther hOtherSplittable)
    dsimp only at hSame
    rw [chainAt_of_mem h.nodup_ids hMem, chainAt_of_mem h.nodup_ids hOtherMem] at hSame
    obtain ⟨hIds, hRoles, -⟩ := numbered_role_injective hSame
    exact ⟨hIds, hRoles⟩
  linksApart id parDo bytes payload other otherParDo otherBytes otherPayload hParDo hSplittable
      hOther hOtherSplittable role hRole otherRole hOtherRole hSame := by
    obtain ⟨⟨found, existing⟩, hMem, rfl⟩ := List.mem_map.mp (hAll _ _ _ _ hParDo hSplittable)
    obtain ⟨⟨otherFound, otherExisting⟩, hOtherMem, rfl⟩ :=
      List.mem_map.mp (hAll _ _ _ _ hOther hOtherSplittable)
    dsimp only at hSame
    rw [chainAt_of_mem h.nodup_ids hMem, chainAt_of_mem h.nodup_ids hOtherMem] at hSame
    by_cases hIds : found.transformId = otherFound.transformId
    · cases entry_unique h.nodup_ids hMem hOtherMem hIds
      exact ⟨rfl, outId_injective hSame⟩
    · exact absurd hSame (h.link_apart hMem hOtherMem hIds hRole hOtherRole)
  transformNames := h.transformNames hNamed.transformNames hMains hFree
  pcollectionNames := h.pcollectionNames hNamed.pcollectionNames
  again orders fuel := expandSplittableParDos_unsplittable
    (fun _ _ hLookup => h.nothing_splittable hAll hLookup) fuel

end Expansions

section Rewiring

variable {decode : List UInt8 → Option ParDoPayload} {isDrain : Bool} {original : Components}

/-- So it does in every order, where the names are free. -/
theorem rewiresAlways_of_namesFree (hNamed : WellNamed decode original)
    (hMains : MainInputs decode original) (hFree : NamesFree decode isDrain original)
    {typed : List SdfRole} (hTyped : SdfRole.truncateAndSize ∈ typed →
      ∀ id pt, original.transforms.lookup id = some pt → Unsplittable decode pt) :
    RewiresAlways decode isDrain typed original := by
  intro orders
  have hStart : Expansions decode orders isDrain original [] original := .start
  obtain ⟨log, hRun, -, hAll⟩ :=
    hStart.visits_all hMains (orders.transforms original.transforms.keys)
  rw [List.append_nil] at hRun hAll
  refine ⟨1, _, chainAt log, updateTransform_visits hNamed.primitive 0 _, ?_⟩
  refine hRun.rewired hNamed hMains hFree hTyped fun id parDo bytes payload hParDo => ?_
  refine hAll id ?_ parDo bytes payload hParDo
  rw [(orders.transforms_perm _).mem_iff]
  exact mem_keys_iff.mpr ⟨parDo, hParDo⟩

end Rewiring

/-! Orders that bring a defect about. -/

open Classical in
/-- The transforms in `front` come first, and each transform lists a chosen input
first. -/
noncomputable def HashOrders.starting (front : List String) (chosen : String → String) :
    HashOrders where
  transforms keys := if front.Subperm keys then front ++ keys.diff front else keys
  inputs id keys := if chosen id ∈ keys then chosen id :: keys.erase (chosen id) else keys
  coders keys := keys
  transforms_perm keys := by
    split
    next hFront => exact List.subperm_append_diff_self_of_count_le fun x _ => hFront.count_le x
    · exact List.Perm.refl keys
  inputs_perm id keys := by
    split
    next hMem => exact (List.perm_cons_erase hMem).symm
    · exact List.Perm.refl keys
  coders_perm keys := List.Perm.refl keys

section Necessity

variable {decode : List UInt8 → Option ParDoPayload} {isDrain : Bool} {typed : List SdfRole}
  {original : Components}

/-- There is an order that starts with any chosen ids. -/
theorem transforms_starting {front : List String} (hNodup : front.Nodup)
    (hFront : ∀ id ∈ front, id ∈ original.transforms) (chosen : String → String) :
    ∃ rest, (HashOrders.starting front chosen).transforms original.transforms.keys = front ++ rest ∧
      ∀ id ∈ front, id ∉ rest := by
  have hSubperm : front.Subperm original.transforms.keys :=
    hNodup.subperm fun id hMem => AList.mem_keys.mp (hFront id hMem)
  refine ⟨original.transforms.keys.diff front, ?_, fun id hMem hRest => ?_⟩
  · unfold HashOrders.starting
    exact if_pos hSubperm
  · exact absurd hMem (List.Nodup.mem_sdiff_iff original.transforms.keys_nodup |>.mp hRest).2

theorem mainInputName_starting {front : List String} {chosen : String → String} {id : String}
    {keys : List String} {payload : ParDoPayload} (hMem : chosen id ∈ keys)
    (hMain : chosen id ∉ payload.sideInputs) :
    getMainInputNameFromPayload ((HashOrders.starting front chosen).inputs id keys) payload =
      chosen id := by
  have hFirst : (HashOrders.starting front chosen).inputs id keys =
      chosen id :: keys.erase (chosen id) := by
    unfold HashOrders.starting
    exact if_pos hMem
  rw [getMainInputNameFromPayload, hFirst, List.find?_cons_of_pos (by simpa using hMain)]

/-- A main input that is no PCollection keeps a ParDo that comes first from being
replaced. -/
theorem mainInputs_of_rewiresAlways (hPrimitive : Primitive decode original)
    (h : RewiresAlways decode isDrain typed original) : MainInputs decode original := by
  constructor
  · intro id parDo bytes payload hLookup hSplittable
    obtain ⟨fuel, result, chain, -, hRewired⟩ := h (.starting [] fun _ => "")
    obtain ⟨hMain, hInput⟩ := (hRewired.expanded _ _ _ _ hLookup hSplittable).mainInput
    exact ⟨_, _, hInput, hMain⟩
  · intro id parDo bytes payload hLookup hSplittable name pcolId hInput hMain
    by_contra hUnknown
    obtain ⟨fuel, result, chain, hResult, hRewired⟩ := h (.starting [id] fun _ => name)
    have hMem : id ∈ original.transforms := AList.lookup_isSome.mp (by rw [hLookup]; rfl)
    obtain ⟨rest, hIds, hRest⟩ := @transforms_starting original [id] (List.nodup_singleton id)
      (fun other hOther => List.mem_singleton.mp hOther ▸ hMem) fun _ => name
    rw [expandSplittableParDos, hIds] at hResult
    have hRun := updateTransform_eq_some hPrimitive hResult
    rw [List.singleton_append, List.foldl_cons] at hRun
    have hVisit : visit decode (.starting [id] fun _ => name) isDrain original id = original := by
      rcases @visit_cases decode (.starting [id] fun _ => name) isDrain original id with
        ⟨found, rfl, hFound, -⟩ | ⟨-, hVisit⟩
      · cases hLookup.symm.trans hFound.lookup
        obtain ⟨rfl, rfl⟩ := hSplittable.unique hFound.splittable
        have hName := hFound.mainName
        rw [mainInputName_starting (mem_keys_iff.mpr ⟨pcolId, hInput⟩) hMain] at hName
        have hSame := hFound.mainInput
        rw [hName, hInput] at hSame
        cases hSame
        exact absurd ⟨_, hFound.mainPcol⟩ hUnknown
      · exact hVisit
    rw [hVisit] at hRun
    have hStart : Expansions decode (.starting [id] fun _ => name) isDrain original [] original :=
      .start
    obtain ⟨more, hMore, hLogged⟩ := hStart.visits rest
    rw [← hRun, List.append_nil] at hMore
    have hNot : id ∉ more.ids := fun hIn => hRest id (List.mem_singleton_self id) (hLogged id hIn)
    have hStill := hMore.waiting hNot hLookup
    rw [(hRewired.expanded _ _ _ _ hLookup hSplittable).composite] at hStill
    have hSpec := congrArg PTransform.spec (Option.some.inj hStill)
    rw [hSplittable.spec] at hSpec
    cases hSpec

/-- The first ParDos of a pass, each with the input that was chosen for it. -/
theorem linksNamed_starting {front others : List String} {chosen : String → String}
    {name : String} (hMains : MainInputs decode original) (hNodup : others.Nodup)
    (hOthers : ∀ other ∈ others, ∃ parDo bytes payload pcolId pcol,
      original.transforms.lookup other = some parDo ∧ IsSplittable decode parDo bytes payload ∧
        parDo.inputs.lookup (chosen other) = some pcolId ∧ chosen other ∉ payload.sideInputs ∧
        original.pcollections.lookup pcolId = some pcol ∧ pcol.uniqueName = name) :
    ∃ log : ExpansionLog, Expansions decode (.starting front chosen) isDrain original log
        (others.foldl (visit decode (.starting front chosen) isDrain) original) ∧
      (∀ id ∈ log.ids, id ∈ others) ∧ log.length = others.length ∧
      ∀ entry ∈ log, entry.1.mainInputPcol.uniqueName = name := by
  have hStart : Expansions decode (.starting front chosen) isDrain original [] original := .start
  obtain ⟨log, hRun, hIds, hAll⟩ := hStart.visits_all hMains others
  rw [List.append_nil] at hRun hAll
  have hSame : log.ids.Perm others := by
    refine (List.perm_ext_iff_of_nodup hRun.nodup_ids hNodup).mpr fun id => ⟨hIds id, fun hMem => ?_⟩
    obtain ⟨parDo, bytes, payload, -, -, hLookup, hSplittable, -⟩ := hOthers id hMem
    exact hAll id hMem parDo bytes payload hLookup hSplittable
  have hLength := hSame.length_eq
  rw [ExpansionLog.ids, List.length_map] at hLength
  refine ⟨log, hRun, hIds, hLength, ?_⟩
  rintro ⟨found, existing⟩ hMem
  obtain ⟨parDo, bytes, payload, pcolId, pcol, hLookup, hSplittable, hInput, hMain, hPcol, rfl⟩ :=
    hOthers _ (hIds _ (List.mem_map_of_mem hMem))
  obtain ⟨-, -, hFound, -⟩ := hRun.entry hMem
  cases hLookup.symm.trans (hRun.original_parDo hMem)
  obtain ⟨rfl, rfl⟩ := hSplittable.unique hFound.splittable
  have hName := hFound.mainName
  rw [mainInputName_starting (mem_keys_iff.mpr ⟨pcolId, hInput⟩) hMain] at hName
  have hMainInput := hFound.mainInput
  rw [hName, hInput] at hMainInput
  cases hMainInput
  have hKnown := (hRun.original_mainInput hMains hMem).2
  rw [hPcol] at hKnown
  rw [Option.some.inj hKnown]

/-- A name that a member may get is one that it gets in some order. -/
theorem namesFree_of_rewiresAlways (hPrimitive : Primitive decode original)
    (hMains : MainInputs decode original) (h : RewiresAlways decode isDrain typed original) :
    NamesFree decode isDrain original := by
  intro id parDo bytes payload hLookup hSplittable role hRole number
  rintro ⟨hFree, others, hNodup, hOthers, hNone, hLength⟩ holder pt hHolder hName
  have hChoice : ∀ other, ∃ input, other ∈ others → ∃ reader readerBytes readerPayload pcolId pcol,
      original.transforms.lookup other = some reader ∧
        IsSplittable decode reader readerBytes readerPayload ∧
        reader.inputs.lookup input = some pcolId ∧ input ∉ readerPayload.sideInputs ∧
        original.pcollections.lookup pcolId = some pcol ∧ pcol.uniqueName = parDo.uniqueName := by
    intro other
    by_cases hMem : other ∈ others
    · obtain ⟨reader, readerBytes, readerPayload, input, pcolId, pcol, hRest⟩ :=
        (hOthers other hMem).2
      exact ⟨input, fun _ => ⟨reader, readerBytes, readerPayload, pcolId, pcol, hRest⟩⟩
    · exact ⟨"", fun hIn => absurd hIn hMem⟩
  choose chosen hChosen using hChoice
  have hFresh : id ∉ others := fun hMem => (hOthers id hMem).1 rfl
  have hFront : (others ++ [id]).Nodup :=
    List.nodup_append.mpr ⟨hNodup, List.nodup_singleton id, fun other hMem last hLast hSame =>
      hFresh (List.mem_singleton.mp hLast ▸ hSame ▸ hMem)⟩
  have hKeys : ∀ other ∈ others ++ [id], other ∈ original.transforms := by
    intro other hMem
    rcases List.mem_append.mp hMem with hOther | hLast
    · obtain ⟨otherParDo, -, -, -, -, hOtherLookup, -⟩ := hChosen other hOther
      exact AList.lookup_isSome.mp (by rw [hOtherLookup]; rfl)
    · rw [List.mem_singleton.mp hLast]
      exact AList.lookup_isSome.mp (by rw [hLookup]; rfl)
  obtain ⟨rest, hIds, -⟩ := transforms_starting hFront hKeys chosen
  obtain ⟨fuel, result, chain, hResult, hRewired⟩ := h (.starting (others ++ [id]) chosen)
  rw [expandSplittableParDos, hIds] at hResult
  have hFold := updateTransform_eq_some hPrimitive hResult
  rw [List.append_assoc, List.foldl_append, List.singleton_append, List.foldl_cons] at hFold
  obtain ⟨log, hRun, hLogIds, hLogLength, hLogNames⟩ :=
    @linksNamed_starting decode isDrain original (others ++ [id]) others chosen _ hMains hNodup hChosen
  have hNot : id ∉ log.ids := fun hMem => hFresh (hLogIds id hMem)
  obtain ⟨found, rfl, rfl, -, hFound⟩ := hRun.exists_found hMains hLookup hSplittable hNot
  rw [visit_found hFound] at hFold
  generalize others.foldl (visit decode (.starting (others ++ [found.transformId]) chosen) isDrain)
    original = reached at hRun hFound hFold
  obtain ⟨more, hMore, -⟩ := (hRun.next hFound).visits rest
  rw [← hFold] at hMore
  have hUsed : linksNamed isDrain role found.parDo.uniqueName log = others.length := by
    unfold linksNamed
    split
    · rw [List.filter_eq_self.mpr fun entry hMem => decide_eq_true (hLogNames entry hMem), hLogLength]
    next hNoLink => rw [hNone hNoLink, List.length_nil]
  have hNumber := (eq_freeNumber_iff (hRun.mem_names_iff found.parDo.uniqueName role)).mpr
    ⟨hFree, hLength.symm.trans hUsed.symm⟩
  have hEntry : (found, reached) ∈ more ++ (found, reached) :: log :=
    List.mem_append_right _ List.mem_cons_self
  obtain ⟨now, hNow, hNowName⟩ := hMore.keeps_name hHolder
  have hSame : now.uniqueName = (found.member reached isDrain role).uniqueName := by
    rw [hNowName, hName, hNumber]
    rfl
  have hIsMember := hRewired.transformNames hNow (hMore.member hEntry hRole) hSame
  refine hMore.member_fresh hEntry role ?_
  rw [← hIsMember]
  exact AList.lookup_isSome.mp (by rw [hHolder]; rfl)

/-- A coder has one pair of components. -/
theorem IsKv.unique {coders : Store String Coder} {id key value otherKey otherValue : String}
    (h : IsKv coders id key value)
    (hLookup : coders.lookup id = some (makeKvCoder otherKey otherValue)) :
    key = otherKey ∧ value = otherValue := by
  obtain ⟨coder, hCoder, -, hComponents⟩ := h
  cases hCoder.symm.trans hLookup
  cases hComponents
  exact ⟨rfl, rfl⟩

/-- The output of a truncation gets a coder with a second size. -/
theorem unsplittable_of_rewiresAlways (hPrimitive : Primitive decode original)
    (hMains : MainInputs decode original) (hTyped : SdfRole.truncateAndSize ∈ typed)
    (h : RewiresAlways decode true typed original) {id : String} {parDo : PTransform}
    (hLookup : original.transforms.lookup id = some parDo) : Unsplittable decode parDo := by
  intro bytes payload hSplittable
  obtain ⟨fuel, result, chain, hResult, hRewired⟩ := h (.starting [] fun _ => "")
  have hFold := updateTransform_eq_some hPrimitive hResult
  have hStart : Expansions decode (.starting [] fun _ => "") true original [] original := .start
  obtain ⟨log, hRun, -, hAll⟩ := hStart.visits_all hMains
    ((HashOrders.starting [] fun _ => "").transforms original.transforms.keys)
  rw [List.append_nil, ← hFold] at hRun
  rw [List.append_nil] at hAll
  have hLogged := hAll id (by
    rw [(HashOrders.transforms_perm _ _).mem_iff]
    exact mem_keys_iff.mpr ⟨parDo, hLookup⟩) parDo bytes payload hLookup hSplittable
  obtain ⟨⟨found, existing⟩, hMem, rfl⟩ := List.mem_map.mp hLogged
  obtain ⟨-, -, hFound, -⟩ := hRun.entry hMem
  cases hLookup.symm.trans (hRun.original_parDo hMem)
  obtain ⟨rfl, rfl⟩ := hSplittable.unique hFound.splittable
  have hExpanded := hRewired.expanded _ _ _ _ hLookup hSplittable
  -- The members of the chain are those of the log.
  have hMembers : ∀ role ∈ memberRoles true,
      (chain found.transformId).member role = found.memberId existing role := by
    have hComposite := hExpanded.composite
    rw [hRun.root hMem] at hComposite
    exact List.map_inj_left.mp (congrArg PTransform.subtransforms (Option.some.inj hComposite)).symm
  have hMemberOf : ∀ role ∈ memberRoles true, IsMember true found.parDo found.payloadBytes
      found.payload (chain found.transformId) role (found.member existing true role) := by
    intro role hRole
    obtain ⟨-, pt, hPt, hIs⟩ := hExpanded.members role hRole
    rw [hMembers role hRole, hRun.member hMem hRole] at hPt
    cases hPt
    exact hIs
  obtain ⟨hNotSide, hMainInput⟩ := hExpanded.mainInput
  have hMainName : (chain found.transformId).mainInputName = found.mainInputName := by
    have hInput := (hMemberOf .splitAndSize (by decide)).mainInput
    have hChained : (found.chainedInputs (found.outId existing .pairWithRestriction)).lookup
        (chain found.transformId).mainInputName = some _ := hInput
    rw [lookup_chainedInputs, if_neg hNotSide, Option.none_or] at hChained
    split at hChained
    next hSame => exact hSame
    · cases hChained
  have hMainId : (chain found.transformId).mainInputPcolId = found.mainInputPcolId := by
    rw [hMainName, hFound.mainInput] at hMainInput
    exact (Option.some.inj hMainInput).symm
  have hLinkId : found.outId existing .truncateAndSize =
      (chain found.transformId).link .truncateAndSize :=
    ((hMemberOf .truncateAndSize (by decide)).linkOutputs (by decide) _).mp
      ((linkOutputs_iff (show SdfRole.truncateAndSize ∈ linkRoles true by decide)).mpr rfl)
  obtain ⟨-, mainPcol, pcol, hMainPcol, hPcol, -, hCoder⟩ :=
    hExpanded.links .truncateAndSize (by decide)
  rw [hMainId, (hRun.original_mainInput hMains hMem).2] at hMainPcol
  rw [← hLinkId, hRun.link hMem (by decide)] at hPcol
  cases hMainPcol
  cases hPcol
  obtain ⟨pair, size, hKv, hPair, -⟩ := hCoder hTyped
  obtain ⟨rfl, -⟩ := hKv.unique (hRun.coder hMem (coders_truncate rfl))
  obtain ⟨hElement, -⟩ := hPair.unique (hRun.coder hMem coders_split)
  exact numbered_labelled_ne _ _ _ hElement.symm

end Necessity

section Main

variable {decode : List UInt8 → Option ParDoPayload} {isDrain : Bool} {original : Components}

/-- Up to the coder of a truncation, the graph is rewired and nothing else exactly
where main inputs are known and no transform has a name that a member may get. -/
theorem rewiresAlways_iff (hNamed : WellNamed decode original) {typed : List SdfRole}
    (hTyped : SdfRole.truncateAndSize ∉ typed) :
    RewiresAlways decode isDrain typed original ↔
      MainInputs decode original ∧ NamesFree decode isDrain original := by
  constructor
  · intro h
    have hMains := mainInputs_of_rewiresAlways hNamed.primitive h
    exact ⟨hMains, namesFree_of_rewiresAlways hNamed.primitive hMains h⟩
  · rintro ⟨hMains, hFree⟩
    exact rewiresAlways_of_namesFree hNamed hMains hFree fun hIn => absurd hIn hTyped

/-- The expansion rewires the graph and nothing else exactly where main inputs are
known, no transform has a name that a member may get, and nothing is truncated. -/
theorem expansion_rewires_iff (hNamed : WellNamed decode original) :
    RewiresAlways decode isDrain (linkRoles isDrain) original ↔
      MainInputs decode original ∧ NamesFree decode isDrain original ∧
        (isDrain = true →
          ∀ id pt, original.transforms.lookup id = some pt → Unsplittable decode pt) := by
  constructor
  · intro h
    have hMains := mainInputs_of_rewiresAlways hNamed.primitive h
    refine ⟨hMains, namesFree_of_rewiresAlways hNamed.primitive hMains h, ?_⟩
    rintro rfl id pt hLookup
    exact unsplittable_of_rewiresAlways hNamed.primitive hMains (by decide) h hLookup
  · rintro ⟨hMains, hFree, hDrain⟩
    refine rewiresAlways_of_namesFree hNamed hMains hFree fun hIn => ?_
    cases isDrain with
    | false => exact absurd hIn (by decide)
    | true => exact hDrain rfl

theorem distinctNames_ofPairs {ν : Type} {uniqueName : ν → String} {pairs : List (String × ν)}
    (h : (pairs.map fun pair => uniqueName pair.2).Nodup) :
    DistinctNames uniqueName (ofPairs pairs) := by
  intro id other entry otherEntry hLookup hOther hSame
  exact congrArg Prod.fst (List.inj_on_of_nodup_map h (mem_of_lookup_ofPairs hLookup)
    (mem_of_lookup_ofPairs hOther) hSame)

/-- A ParDo payload on the wire in which only field 7 is set, to `bytes_coder`. -/
def splittablePayload : List UInt8 :=
  [0x3A, 11, 98, 121, 116, 101, 115, 95, 99, 111, 100, 101, 114]

/-- A splittable ParDo that reads the PCollection of the pipeline below. -/
def sdfParDo (uniqueName : String) : PTransform where
  uniqueName := uniqueName
  spec := some ⟨parDoTransform, splittablePayload⟩
  subtransforms := []
  inputs := ofPairs [("in", "in_pcol")]
  outputs := ofPairs [("out", "out_pcol")]
  environmentId := "env1"

/-- A composite without members. -/
def emptyComposite (uniqueName : String) : PTransform where
  uniqueName := uniqueName
  spec := none
  subtransforms := []
  inputs := ∅
  outputs := ∅
  environmentId := ""

/-- The decoder of payloads, where the pipeline below asks it. -/
def decodeSplittable (bytes : List UInt8) : Option ParDoPayload :=
  if bytes = splittablePayload then some ⟨"bytes_coder", []⟩ else none

theorem decodeSplittable_eq_some {bytes : List UInt8} {payload : ParDoPayload}
    (h : decodeSplittable bytes = some payload) : payload = ⟨"bytes_coder", []⟩ := by
  unfold decodeSplittable at h
  split at h
  · exact (Option.some.inj h).symm
  · cases h

def twoTransforms (other : PTransform) : Components where
  coders := ∅
  pcollections := ofPairs [("in_pcol", ⟨"in_pcol", "elem_coder", 1, "global_window"⟩)]
  transforms := ofPairs [("sdf_par_do", sdfParDo "sdf_par_do"), ("other", other)]

theorem wellNamed_twoTransforms {other : PTransform} (hName : other.uniqueName ≠ "sdf_par_do")
    (hSubs : other.subtransforms = []) : WellNamed decodeSplittable (twoTransforms other) where
  transformNames := distinctNames_ofPairs (by simpa [sdfParDo] using hName.symm)
  pcollectionNames := distinctNames_ofPairs (by simp)
  primitive id parDo bytes payload hLookup _ := by
    have hMem := mem_of_lookup_ofPairs hLookup
    simp only [List.mem_cons, List.not_mem_nil, or_false, Prod.mk.injEq] at hMem
    rcases hMem with ⟨-, rfl⟩ | ⟨-, rfl⟩
    · rfl
    · exact hSubs

theorem mainInputs_twoTransforms {other : PTransform}
    (hInputs : other.inputs = (sdfParDo "").inputs ∨ other.spec = none) :
    MainInputs decodeSplittable (twoTransforms other) := by
  have hReads : ∀ id parDo bytes payload,
      (twoTransforms other).transforms.lookup id = some parDo →
      IsSplittable decodeSplittable parDo bytes payload →
      parDo.inputs = ofPairs [("in", "in_pcol")] ∧ payload = ⟨"bytes_coder", []⟩ := by
    intro id parDo bytes payload hLookup hSplittable
    have hMem := mem_of_lookup_ofPairs hLookup
    simp only [List.mem_cons, List.not_mem_nil, or_false, Prod.mk.injEq] at hMem
    refine ⟨?_, decodeSplittable_eq_some hSplittable.decoded⟩
    rcases hMem with ⟨-, rfl⟩ | ⟨-, rfl⟩
    · rfl
    · rcases hInputs with hSame | hNone
      · exact hSame
      · rw [hSplittable.spec] at hNone
        cases hNone
  constructor
  · intro id parDo bytes payload hLookup hSplittable
    obtain ⟨hInputs, rfl⟩ := hReads id parDo bytes payload hLookup hSplittable
    rw [hInputs]
    exact ⟨"in", "in_pcol", rfl, List.not_mem_nil⟩
  · intro id parDo bytes payload hLookup hSplittable name pcolId hInput _
    rw [(hReads id parDo bytes payload hLookup hSplittable).1] at hInput
    have hMem := mem_of_lookup_ofPairs hInput
    simp only [List.mem_singleton, Prod.mk.injEq] at hMem
    rw [hMem.2]
    exact ⟨_, rfl⟩

/-- Two ParDos on one main input. -/
theorem expansion_rewires_shared :
    RewiresAlways decodeSplittable false (linkRoles false) (twoTransforms (sdfParDo "other")) := by
  have hNamed : WellNamed decodeSplittable (twoTransforms (sdfParDo "other")) :=
    wellNamed_twoTransforms (by decide) rfl
  refine (expansion_rewires_iff hNamed).mpr
    ⟨mainInputs_twoTransforms (.inl rfl), ?_, fun hDrain => absurd hDrain (by decide)⟩
  intro id parDo bytes payload hLookup hSplittable role hRole number hGet holder pt hHolder hName
  have hSlash : '/' ∈ pt.uniqueName.toList := by
    rw [hName, numbered, String.toList_append, toList_labelled]
    simp
  have hMem := mem_of_lookup_ofPairs hHolder
  simp only [List.mem_cons, List.not_mem_nil, or_false, Prod.mk.injEq] at hMem
  rcases hMem with ⟨-, rfl⟩ | ⟨-, rfl⟩
  · exact absurd hSlash (by decide)
  · exact absurd hSlash (by decide)

/-- A transform that has the name of a member, and a ParDo whose restriction is
truncated. -/
theorem not_expansion_rewires_taken :
    (WellNamed decodeSplittable (twoTransforms (emptyComposite "sdf_par_do/PairWithRestriction0")) ∧
      ¬ RewiresAlways decodeSplittable false (linkRoles false)
        (twoTransforms (emptyComposite "sdf_par_do/PairWithRestriction0"))) ∧
    WellNamed decodeSplittable (twoTransforms (emptyComposite "other")) ∧
      ¬ RewiresAlways decodeSplittable true (linkRoles true)
        (twoTransforms (emptyComposite "other")) := by
  have hNamed : WellNamed decodeSplittable
      (twoTransforms (emptyComposite "sdf_par_do/PairWithRestriction0")) :=
    wellNamed_twoTransforms (by decide) rfl
  have hPlain : WellNamed decodeSplittable (twoTransforms (emptyComposite "other")) :=
    wellNamed_twoTransforms (by decide) rfl
  have hSplittable : IsSplittable decodeSplittable (sdfParDo "sdf_par_do") splittablePayload
      ⟨"bytes_coder", []⟩ := ⟨rfl, rfl, by decide⟩
  refine ⟨⟨hNamed, fun h => ?_⟩, hPlain, fun h => ?_⟩
  · have hFree := ((rewiresAlways_iff hNamed (by decide)).mp h).2
    have hGet : MayGet decodeSplittable false
        (twoTransforms (emptyComposite "sdf_par_do/PairWithRestriction0")) "sdf_par_do" "sdf_par_do"
        .pairWithRestriction 0 :=
      ⟨by decide, [], List.nodup_nil, fun other hOther => absurd hOther List.not_mem_nil,
        fun _ => rfl, rfl⟩
    exact hFree "sdf_par_do" (sdfParDo "sdf_par_do") _ _ rfl hSplittable .pairWithRestriction
      (by decide) 0 hGet "other" _ rfl (by decide)
  · have hLookup : (twoTransforms (emptyComposite "other")).transforms.lookup "sdf_par_do" =
        some (sdfParDo "sdf_par_do") := rfl
    exact unsplittable_of_rewiresAlways hPlain.primitive (mainInputs_twoTransforms (.inr rfl))
      (by decide) h hLookup _ _ hSplittable

end Main

end FlareDB.Expander
