import FlareDB.Fusion.Expander

/-! One splittable ParDo replaced: what the new components hold, and what of the
old ones they leave alone. -/
namespace FlareDB.Expander

open KeyedStore FreshNames

theorem SdfRole.isLabel (role : SdfRole) : IsLabel role.label := by
  cases role with
  | pairWithRestriction => exact ⟨by decide, "PairWithRestrictio".toList, 'n', rfl, rfl⟩
  | splitAndSize => exact ⟨by decide, "SplitAndSiz".toList, 'e', rfl, rfl⟩
  | truncateAndSize => exact ⟨by decide, "TruncateAndSiz".toList, 'e', rfl, rfl⟩
  | processSizedElementsAndRestrictions =>
      exact ⟨by decide, "ProcessSizedElementsAndRestriction".toList, 's', rfl, rfl⟩

/-- The members of an expansion are told apart by their labels. -/
theorem SdfRole.label_injective {role other : SdfRole} (h : role.label = other.label) :
    role = other := by
  cases role <;> cases other <;> first | rfl | exact absurd h (by decide)

/-- No member is a ParDo that would be expanded in turn. -/
theorem SdfRole.urn_ne (role : SdfRole) : role.urn ≠ parDoTransform := by
  cases role <;> decide

/-- A name that was made for a role tells what it was made of. -/
theorem numbered_role_injective {name other : String} {role otherRole : SdfRole}
    {number otherNumber : Nat}
    (h : numbered (labelled name role.label) number =
      numbered (labelled other otherRole.label) otherNumber) :
    name = other ∧ role = otherRole ∧ number = otherNumber := by
  obtain ⟨hName, hLabel, hNumber⟩ := numbered_labelled_injective role.isLabel otherRole.isLabel h
  exact ⟨hName, SdfRole.label_injective hLabel, hNumber⟩

/-- Fresh names made of different labels are different, whatever numbers they get. -/
theorem fresh_role_injective {taken : List String} {name : String} {role other : SdfRole}
    (h : fresh taken (labelled name role.label) = fresh taken (labelled name other.label)) :
    role = other :=
  (numbered_role_injective h).2.1

/-- The transform is a ParDo whose payload names a restriction coder. -/
structure IsSplittable (decode : List UInt8 → Option ParDoPayload) (parDo : PTransform)
    (payloadBytes : List UInt8) (payload : ParDoPayload) : Prop where
  spec : parDo.spec = some ⟨parDoTransform, payloadBytes⟩
  decoded : decode payloadBytes = some payload
  restriction : payload.restrictionCoderId ≠ ""

/-- A transform is splittable in one way only. -/
theorem IsSplittable.unique {decode : List UInt8 → Option ParDoPayload} {parDo : PTransform}
    {bytes otherBytes : List UInt8} {payload other : ParDoPayload}
    (h : IsSplittable decode parDo bytes payload)
    (hOther : IsSplittable decode parDo otherBytes other) :
    bytes = otherBytes ∧ payload = other := by
  cases h.spec.symm.trans hOther.spec
  cases h.decoded.symm.trans hOther.decoded
  exact ⟨rfl, rfl⟩

/-- A splittable ParDo with its main input, among the components. -/
structure SplittableParDo.FoundIn (decode : List UInt8 → Option ParDoPayload) (orders : HashOrders)
    (found : SplittableParDo) (existing : Components) : Prop where
  lookup : existing.transforms.lookup found.transformId = some found.parDo
  splittable : IsSplittable decode found.parDo found.payloadBytes found.payload
  mainName : found.mainInputName = getMainInputNameFromPayload
    (orders.inputs found.transformId found.parDo.inputs.keys) found.payload
  mainInput : found.parDo.inputs.lookup found.mainInputName = some found.mainInputPcolId
  mainPcol : existing.pcollections.lookup found.mainInputPcolId = some found.mainInputPcol

section Finding

variable {decode : List UInt8 → Option ParDoPayload} {orders : HashOrders} {existing : Components}

/-- What the pass finds at an id: a ParDo that it replaces. -/
def splittableAt (decode : List UInt8 → Option ParDoPayload) (orders : HashOrders)
    (existing : Components) (transformId : String) : Option SplittableParDo :=
  (findSplittableParDo decode orders transformId existing).filter fun found =>
    found.parDo.spec.elim false fun spec => spec.urn == parDoTransform

/-- When a transform is found to be a splittable ParDo, and all that is then known
of it. -/
theorem findSplittableParDo_eq_some {transformId : String} {found : SplittableParDo} :
    findSplittableParDo decode orders transformId existing = some found ↔
      found.transformId = transformId ∧
      existing.transforms.lookup transformId = some found.parDo ∧
      (∃ spec, found.parDo.spec = some spec ∧ spec.payload = found.payloadBytes) ∧
      decode found.payloadBytes = some found.payload ∧
      found.payload.restrictionCoderId ≠ "" ∧
      found.mainInputName = getMainInputNameFromPayload
        (orders.inputs transformId found.parDo.inputs.keys) found.payload ∧
      found.parDo.inputs.lookup found.mainInputName = some found.mainInputPcolId ∧
      existing.pcollections.lookup found.mainInputPcolId = some found.mainInputPcol := by
  unfold findSplittableParDo
  constructor
  · intro h
    obtain ⟨parDo, hParDo, h⟩ := Option.bind_eq_some_iff.mp h
    obtain ⟨spec, hSpec, h⟩ := Option.bind_eq_some_iff.mp h
    obtain ⟨payload, hPayload, h⟩ := Option.bind_eq_some_iff.mp h
    split at h
    · cases h
    next hRestriction =>
      obtain ⟨mainId, hMainId, h⟩ := Option.bind_eq_some_iff.mp h
      obtain ⟨mainPcol, hMainPcol, h⟩ := Option.bind_eq_some_iff.mp h
      cases h
      exact ⟨rfl, hParDo, ⟨spec, hSpec, rfl⟩, hPayload, by simpa using hRestriction, rfl, hMainId,
        hMainPcol⟩
  · obtain ⟨id, parDo, bytes, payload, mainName, mainId, mainPcol⟩ := found
    rintro ⟨rfl, hParDo, ⟨spec, hSpec, rfl⟩, hPayload, hRestriction, hName, hMainId, hMainPcol⟩
    dsimp only at hParDo hSpec hPayload hRestriction hName hMainId hMainPcol
    subst hName
    refine Option.bind_eq_some_iff.mpr ⟨parDo, hParDo, ?_⟩
    refine Option.bind_eq_some_iff.mpr ⟨spec, hSpec, ?_⟩
    refine Option.bind_eq_some_iff.mpr ⟨payload, hPayload, ?_⟩
    rw [if_neg (by simpa using hRestriction)]
    refine Option.bind_eq_some_iff.mpr ⟨mainId, hMainId, ?_⟩
    exact Option.bind_eq_some_iff.mpr ⟨mainPcol, hMainPcol, rfl⟩

/-- The splittable ParDo at an id is the one found there. -/
theorem splittableAt_eq_some {transformId : String} {found : SplittableParDo} :
    splittableAt decode orders existing transformId = some found ↔
      found.transformId = transformId ∧ found.FoundIn decode orders existing := by
  rw [splittableAt, Option.filter_eq_some_iff, findSplittableParDo_eq_some]
  constructor
  · rintro ⟨⟨rfl, hParDo, ⟨⟨urn, bytes⟩, hSpec, rfl⟩, hPayload, hRestriction, hName, hMainId,
      hMainPcol⟩, hUrn⟩
    rw [hSpec] at hUrn
    obtain rfl : urn = parDoTransform := by simpa using hUrn
    exact ⟨rfl, hParDo, ⟨hSpec, hPayload, hRestriction⟩, hName, hMainId, hMainPcol⟩
  · rintro ⟨rfl, h⟩
    refine ⟨⟨rfl, h.lookup, ⟨_, h.splittable.spec, rfl⟩, h.splittable.decoded,
      h.splittable.restriction, h.mainName, h.mainInput, h.mainPcol⟩, ?_⟩
    rw [h.splittable.spec]
    simp

end Finding

namespace SplittableParDo

variable {decode : List UInt8 → Option ParDoPayload} {orders : HashOrders} {isDrain : Bool}
  {found : SplittableParDo} {existing : Components}

/-- The components after the ParDo was replaced, when it had no subtransforms. -/
def expanded (found : SplittableParDo) (orders : HashOrders) (isDrain : Bool)
    (existing : Components) : Components where
  coders := found.newCoders existing orders isDrain ∪ existing.coders
  pcollections := found.newPcollections existing isDrain ∪ existing.pcollections
  transforms := (found.newTransforms existing isDrain ∪ existing.transforms).insert
    found.transformId (found.compositeRoot existing isDrain)

/-! Ids. -/

/-- No coder of the pipeline has the id of a new one. -/
theorem coderId_notMem (role : SdfRole) : found.coderId existing role ∉ existing.coders :=
  fun hMem => fresh_notMem _ _ (AList.mem_keys.mp hMem)

/-- No PCollection of the pipeline has the id of a new one. -/
theorem outId_notMem (role : SdfRole) : found.outId existing role ∉ existing.pcollections :=
  fun hMem => fresh_notMem _ _ (AList.mem_keys.mp hMem)

/-- No transform of the pipeline has the id of a member. -/
theorem memberId_notMem (role : SdfRole) : found.memberId existing role ∉ existing.transforms :=
  fun hMem => fresh_notMem _ _ (AList.mem_keys.mp hMem)

/-- Members of different roles get coders of different ids. -/
theorem coderId_injective {role other : SdfRole}
    (h : found.coderId existing role = found.coderId existing other) : role = other :=
  fresh_role_injective h

/-- Members of different roles write to different PCollections. -/
theorem outId_injective {role other : SdfRole}
    (h : found.outId existing role = found.outId existing other) : role = other :=
  fresh_role_injective h

/-- Members of different roles have different ids. -/
theorem memberId_injective {role other : SdfRole}
    (h : found.memberId existing role = found.memberId existing other) : role = other :=
  fresh_role_injective h

/-- A member does not take the id of the ParDo it is part of. -/
theorem memberId_ne (role : SdfRole) : found.memberId existing role ≠ found.transformId :=
  numbered_labelled_ne _ _ _

/-! PCollections. -/

theorem nodup_linkRoles (isDrain : Bool) : (linkRoles isDrain).Nodup := by
  cases isDrain <;> decide

theorem nodup_memberRoles (isDrain : Bool) : (memberRoles isDrain).Nodup := by
  cases isDrain <;> decide

/-- Each link of the chain gets its PCollection. -/
theorem lookup_newPcollections {role : SdfRole} (hRole : role ∈ linkRoles isDrain) :
    (found.newPcollections existing isDrain).lookup (found.outId existing role) =
      some (found.outPcollection existing role) := by
  refine lookup_ofPairs ?_ (List.mem_map.mpr ⟨role, hRole, rfl⟩)
  rw [List.map_map]
  exact (nodup_linkRoles isDrain).map fun _ _ hSame => outId_injective hSame

/-- The new PCollections are the links of the chain. -/
theorem newPcollections_cases {id : String} {pcol : PCollection}
    (h : (found.newPcollections existing isDrain).lookup id = some pcol) :
    ∃ role ∈ linkRoles isDrain, id = found.outId existing role ∧
      pcol = found.outPcollection existing role := by
  obtain ⟨role, hRole, hPair⟩ := List.mem_map.mp (mem_of_lookup_ofPairs h)
  cases hPair
  exact ⟨role, hRole, rfl, rfl⟩

/-- After the replacement each link of the chain is in the pipeline. -/
theorem pcollections_link {role : SdfRole} (hRole : role ∈ linkRoles isDrain) :
    (found.expanded orders isDrain existing).pcollections.lookup (found.outId existing role) =
      some (found.outPcollection existing role) := by
  rw [expanded, lookup_union, lookup_newPcollections hRole, Option.some_or]

/-- A PCollection after the replacement is a link or was there before. -/
theorem pcollections_cases {id : String} {pcol : PCollection}
    (h : (found.expanded orders isDrain existing).pcollections.lookup id = some pcol) :
    (∃ role ∈ linkRoles isDrain, id = found.outId existing role ∧
      pcol = found.outPcollection existing role) ∨
      existing.pcollections.lookup id = some pcol := by
  rw [expanded, lookup_union] at h
  rcases Option.or_eq_some_iff.mp h with hNew | ⟨-, hOld⟩
  · exact .inl (newPcollections_cases hNew)
  · exact .inr hOld

/-- The PCollections of before stay as they were. -/
theorem pcollections_old {id : String} {pcol : PCollection}
    (h : existing.pcollections.lookup id = some pcol) :
    (found.expanded orders isDrain existing).pcollections.lookup id = some pcol := by
  rw [expanded, lookup_union]
  cases hNew : (found.newPcollections existing isDrain).lookup id with
  | none => exact h
  | some other =>
      obtain ⟨role, -, rfl, -⟩ := newPcollections_cases hNew
      exact absurd (AList.lookup_isSome.mp (by rw [h]; rfl)) (outId_notMem role)

/-! Transforms. -/

/-- Each member of the chain gets its transform. -/
theorem lookup_newTransforms {role : SdfRole} (hRole : role ∈ memberRoles isDrain) :
    (found.newTransforms existing isDrain).lookup (found.memberId existing role) =
      some (found.member existing isDrain role) := by
  refine lookup_ofPairs ?_ (List.mem_map.mpr ⟨role, hRole, rfl⟩)
  rw [List.map_map]
  exact (nodup_memberRoles isDrain).map fun _ _ hSame => memberId_injective hSame

/-- The new transforms are the members of the chain. -/
theorem newTransforms_cases {id : String} {pt : PTransform}
    (h : (found.newTransforms existing isDrain).lookup id = some pt) :
    ∃ role ∈ memberRoles isDrain, id = found.memberId existing role ∧
      pt = found.member existing isDrain role := by
  obtain ⟨role, hRole, hPair⟩ := List.mem_map.mp (mem_of_lookup_ofPairs h)
  cases hPair
  exact ⟨role, hRole, rfl, rfl⟩

/-- The ParDo itself becomes the composite around its members. -/
theorem transforms_root :
    (found.expanded orders isDrain existing).transforms.lookup found.transformId =
      some (found.compositeRoot existing isDrain) :=
  AList.lookup_insert _

/-- After the replacement each member is in the pipeline. -/
theorem transforms_member {role : SdfRole} (hRole : role ∈ memberRoles isDrain) :
    (found.expanded orders isDrain existing).transforms.lookup (found.memberId existing role) =
      some (found.member existing isDrain role) := by
  rw [expanded, AList.lookup_insert_ne (memberId_ne role), lookup_union,
    lookup_newTransforms hRole, Option.some_or]

/-- A transform after the replacement is the composite, a member, or one of before. -/
theorem transforms_cases {id : String} {pt : PTransform}
    (h : (found.expanded orders isDrain existing).transforms.lookup id = some pt) :
    (id = found.transformId ∧ pt = found.compositeRoot existing isDrain) ∨
    (∃ role ∈ memberRoles isDrain, id = found.memberId existing role ∧
      pt = found.member existing isDrain role) ∨
    (id ≠ found.transformId ∧ existing.transforms.lookup id = some pt) := by
  by_cases hRoot : id = found.transformId
  · subst hRoot
    rw [transforms_root] at h
    exact .inl ⟨rfl, (Option.some.inj h).symm⟩
  · rw [expanded, AList.lookup_insert_ne hRoot, lookup_union] at h
    rcases Option.or_eq_some_iff.mp h with hNew | ⟨-, hOld⟩
    · exact .inr (.inl (newTransforms_cases hNew))
    · exact .inr (.inr ⟨hRoot, hOld⟩)

/-- The other transforms stay as they were. -/
theorem transforms_old {id : String} {pt : PTransform} (hOther : id ≠ found.transformId)
    (h : existing.transforms.lookup id = some pt) :
    (found.expanded orders isDrain existing).transforms.lookup id = some pt := by
  rw [expanded, AList.lookup_insert_ne hOther, lookup_union]
  cases hNew : (found.newTransforms existing isDrain).lookup id with
  | none => exact h
  | some other =>
      obtain ⟨role, -, rfl, -⟩ := newTransforms_cases hNew
      exact absurd (AList.lookup_isSome.mp (by rw [h]; rfl)) (memberId_notMem role)

/-! Coders. -/

/-- The double coder that the sizes are encoded with. -/
def doubleCoderId (orders : HashOrders) (existing : Components) : String :=
  (getOrAddDoubleCoder orders existing ∅).1

/-- A coder map holds a double coder under the id. -/
def IsDouble (coders : Store String Coder) (id : String) : Prop :=
  ∃ coder, coders.lookup id = some coder ∧ coder.hasUrn doubleCoder = true

/-- A fresh double coder does not take the id of a link's coder. -/
theorem freshDouble_ne (role : SdfRole) :
    found.coderId existing role ≠ fresh existing.coders.keys "DoubleCoder" :=
  (numbered_ne_labelled (by decide) _ _ _ _).symm

/-- The coders of two links are kept apart. -/
theorem coderId_ne {role other : SdfRole} (h : role ≠ other) :
    found.coderId existing role ≠ found.coderId existing other :=
  fun hSame => h (coderId_injective hSame)

@[simp] theorem getOrAddDoubleCoder_fst (out : Store String Coder) :
    (getOrAddDoubleCoder orders existing out).1 = doubleCoderId orders existing := by
  unfold doubleCoderId getOrAddDoubleCoder
  split <;> rfl

/-- Besides the coders at hand there is a fresh double coder at most. -/
theorem mem_getOrAddDoubleCoder {out : Store String Coder} {id : String}
    (h : id ∈ (getOrAddDoubleCoder orders existing out).2) :
    id ∈ out ∨ id = fresh existing.coders.keys "DoubleCoder" := by
  unfold getOrAddDoubleCoder at h
  split at h
  · exact .inl h
  · exact (AList.mem_insert _).mp h |>.symm

/-- A double coder that is added leaves the coders of the links alone. -/
theorem lookup_getOrAddDoubleCoder {out : Store String Coder} (role : SdfRole) :
    (getOrAddDoubleCoder orders existing out).2.lookup (found.coderId existing role) =
      out.lookup (found.coderId existing role) := by
  unfold getOrAddDoubleCoder
  split
  · rfl
  · exact AList.lookup_insert_ne (freshDouble_ne role)

/-- The new coders are those of the links, and a double coder if there was none. -/
theorem newCoders_cases {id : String} (h : id ∈ found.newCoders existing orders isDrain) :
    (∃ role, id = found.coderId existing role) ∨
      id = fresh existing.coders.keys "DoubleCoder" := by
  have hSized : ∀ {out : Store String Coder} {role : SdfRole} {coder : Coder},
      id ∈ (getOrAddDoubleCoder orders existing out).2.insert (found.coderId existing role) coder →
      (∃ role, id = found.coderId existing role) ∨
        id = fresh existing.coders.keys "DoubleCoder" ∨ id ∈ out := by
    intro out role coder hMem
    rcases (AList.mem_insert _).mp hMem with rfl | hMem
    · exact .inl ⟨role, rfl⟩
    · exact .inr (mem_getOrAddDoubleCoder hMem).symm
  have hFirst : ∀ {coder : Coder}, id ∈ (∅ : Store String Coder).insert
      (found.coderId existing .pairWithRestriction) coder →
      ∃ role, id = found.coderId existing role := by
    intro coder hMem
    rcases (AList.mem_insert _).mp hMem with rfl | hMem
    · exact ⟨_, rfl⟩
    · exact absurd hMem (AList.notMem_empty _)
  unfold newCoders at h
  dsimp only at h
  split at h
  · rcases hSized h with hRole | hDouble | hMem
    · exact .inl hRole
    · exact .inr hDouble
    · rcases hSized hMem with hRole | hDouble | hMem
      · exact .inl hRole
      · exact .inr hDouble
      · exact .inl (hFirst hMem)
  · rcases hSized h with hRole | hDouble | hMem
    · exact .inl hRole
    · exact .inr hDouble
    · exact .inl (hFirst hMem)

/-- The coders of before stay as they were. -/
theorem coders_old {id : String} {coder : Coder} (h : existing.coders.lookup id = some coder) :
    (found.expanded orders isDrain existing).coders.lookup id = some coder := by
  have hMem : id ∈ existing.coders := AList.lookup_isSome.mp (by rw [h]; rfl)
  have hNew : id ∉ found.newCoders existing orders isDrain := by
    intro hIn
    rcases newCoders_cases hIn with ⟨role, rfl⟩ | rfl
    · exact coderId_notMem role hMem
    · exact fresh_notMem _ _ (AList.mem_keys.mp hMem)
  rw [expanded, lookup_union, AList.lookup_eq_none.mpr hNew, Option.none_or, h]

/-- The first link carries KV<element, restriction>. -/
theorem coders_pair : (found.expanded orders isDrain existing).coders.lookup
    (found.coderId existing .pairWithRestriction) =
      some (makeKvCoder found.mainInputPcol.coderId found.payload.restrictionCoderId) := by
  have hSplit : found.coderId existing .pairWithRestriction ≠ found.coderId existing .splitAndSize :=
    coderId_ne (by decide)
  have hTruncate :
      found.coderId existing .pairWithRestriction ≠ found.coderId existing .truncateAndSize :=
    coderId_ne (by decide)
  rw [expanded, lookup_union]
  unfold newCoders
  dsimp only
  split
  · rw [AList.lookup_insert_ne hTruncate, lookup_getOrAddDoubleCoder, AList.lookup_insert_ne hSplit,
      lookup_getOrAddDoubleCoder, AList.lookup_insert, Option.some_or]
  · rw [AList.lookup_insert_ne hSplit, lookup_getOrAddDoubleCoder, AList.lookup_insert,
      Option.some_or]

/-- The second link carries KV of the first link's coder and a double, the size. -/
theorem coders_split : (found.expanded orders isDrain existing).coders.lookup
    (found.coderId existing .splitAndSize) =
      some (makeKvCoder (found.coderId existing .pairWithRestriction)
        (doubleCoderId orders existing)) := by
  have hTruncate : found.coderId existing .splitAndSize ≠ found.coderId existing .truncateAndSize :=
    coderId_ne (by decide)
  rw [expanded, lookup_union]
  unfold newCoders
  dsimp only
  split
  · rw [AList.lookup_insert_ne hTruncate, lookup_getOrAddDoubleCoder, AList.lookup_insert,
      getOrAddDoubleCoder_fst, Option.some_or]
  · rw [AList.lookup_insert, getOrAddDoubleCoder_fst, Option.some_or]

/-- With truncation there is a third link, whose coder wraps that of the second
once more. -/
theorem coders_truncate (h : isDrain = true) :
    (found.expanded orders isDrain existing).coders.lookup
      (found.coderId existing .truncateAndSize) =
        some (makeKvCoder (found.coderId existing .splitAndSize)
          (doubleCoderId orders existing)) := by
  rw [expanded, lookup_union]
  unfold newCoders
  dsimp only
  rw [if_pos h, AList.lookup_insert, getOrAddDoubleCoder_fst, Option.some_or]

/-- The size is coded by a double coder of the pipeline. -/
theorem coders_double :
    IsDouble (found.expanded orders isDrain existing).coders (doubleCoderId orders existing) := by
  cases hDouble : existingDoubleCoder orders existing with
  | some id =>
      have hId : doubleCoderId orders existing = id := by
        rw [doubleCoderId, getOrAddDoubleCoder, hDouble]
      have hFound := List.find?_some hDouble
      unfold isDoubleCoder at hFound
      cases hCoder : existing.coders.lookup id with
      | none => simp [hCoder] at hFound
      | some coder =>
          rw [hCoder] at hFound
          rw [hId]
          exact ⟨coder, coders_old hCoder, hFound⟩
  | none =>
      have hAdd : ∀ out, getOrAddDoubleCoder orders existing out =
          (fresh existing.coders.keys "DoubleCoder",
            out.insert (fresh existing.coders.keys "DoubleCoder")
              ⟨some ⟨doubleCoder, []⟩, []⟩) := fun out => by rw [getOrAddDoubleCoder, hDouble]
      have hHere := fun role => (@freshDouble_ne found existing role).symm
      have hId : doubleCoderId orders existing = fresh existing.coders.keys "DoubleCoder" := by
        rw [doubleCoderId, hAdd]
      refine ⟨⟨some ⟨doubleCoder, []⟩, []⟩, ?_, by simp [Coder.hasUrn]⟩
      rw [hId, expanded, lookup_union]
      unfold newCoders
      dsimp only
      rw [hAdd, hAdd]
      split
      · rw [AList.lookup_insert_ne (hHere _), AList.lookup_insert, Option.some_or]
      · rw [AList.lookup_insert_ne (hHere _), AList.lookup_insert, Option.some_or]

end SplittableParDo

end FlareDB.Expander
