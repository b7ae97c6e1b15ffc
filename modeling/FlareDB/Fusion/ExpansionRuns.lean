import FlareDB.Fusion.Expansions

/-! A pass over the transforms of a pipeline: the ParDos that it replaces one after
the other, in whatever order they come. -/
namespace FlareDB.Expander

open KeyedStore FreshNames SplittableParDo

variable {decode : List UInt8 → Option ParDoPayload} {orders : HashOrders} {isDrain : Bool}
  {original existing : Components}

/-! One transform of the snapshot. -/

/-- Splittable ParDos are primitive: none of them has subtransforms. -/
def Primitive (decode : List UInt8 → Option ParDoPayload) (components : Components) : Prop :=
  ∀ id parDo bytes payload, components.transforms.lookup id = some parDo →
    IsSplittable decode parDo bytes payload → parDo.subtransforms = []

/-- The components after the pass has come to a transform. -/
def visit (decode : List UInt8 → Option ParDoPayload) (orders : HashOrders) (isDrain : Bool)
    (existing : Components) (transformId : String) : Components :=
  (splittableAt decode orders existing transformId).elim existing fun found =>
    found.expanded orders isDrain existing

/-- A visit of a splittable ParDo expands it. -/
theorem visit_found {found : SplittableParDo} (h : found.FoundIn decode orders existing) :
    visit decode orders isDrain existing found.transformId =
      found.expanded orders isDrain existing := by
  rw [visit, splittableAt_eq_some.mpr ⟨rfl, h⟩]
  rfl

/-- A visit expands the splittable ParDo of that id, or does nothing. -/
theorem visit_cases (transformId : String) :
    (∃ found : SplittableParDo, found.transformId = transformId ∧
      found.FoundIn decode orders existing ∧
      visit decode orders isDrain existing transformId =
        found.expanded orders isDrain existing) ∨
    ((∀ found : SplittableParDo, found.transformId = transformId →
      ¬ found.FoundIn decode orders existing) ∧
      visit decode orders isDrain existing transformId = existing) := by
  cases hAt : splittableAt decode orders existing transformId with
  | some found =>
      obtain ⟨rfl, hFound⟩ := splittableAt_eq_some.mp hAt
      exact .inl ⟨found, rfl, hFound, visit_found hFound⟩
  | none =>
      refine .inr ⟨fun found hId hFound => ?_, by rw [visit, hAt]; rfl⟩
      rw [splittableAt_eq_some.mpr ⟨hId, hFound⟩] at hAt
      cases hAt

/-- There is nothing to remove under a transform without subtransforms. -/
theorem removeSubtransforms_nil {fuel : Nat} {pt : PTransform} (h : pt.subtransforms = [])
    (target : Components) : removeSubtransforms (fuel + 1) pt target = some target := by
  rw [removeSubtransforms, h]
  rfl

/-- The chain of a ParDo joins what is left when its subtransforms are gone. -/
def merged (found : SplittableParDo) (orders : HashOrders) (isDrain : Bool)
    (existing remaining : Components) : Components where
  coders := found.newCoders existing orders isDrain ∪ remaining.coders
  pcollections := found.newPcollections existing isDrain ∪ remaining.pcollections
  transforms := (found.newTransforms existing isDrain ∪ remaining.transforms).insert
    found.transformId (found.compositeRoot existing isDrain)

/-- One step of the replacement, in terms of the ParDo found there. -/
theorem updateOne_eq (fuel : Nat) (transformId : String) :
    updateOne parDoTransform (getReplacement decode orders isDrain) fuel existing transformId =
      match splittableAt decode orders existing transformId with
      | none => some existing
      | some found => (removeSubtransforms fuel found.parDo existing).map
          (merged found orders isDrain existing) := by
  rw [updateOne, splittableAt]
  cases hLookup : existing.transforms.lookup transformId with
  | none =>
      have hNone : findSplittableParDo decode orders transformId existing = none := by
        rw [findSplittableParDo, hLookup]
        rfl
      rw [hNone]
      rfl
  | some transform =>
      dsimp only
      cases hFind : findSplittableParDo decode orders transformId existing with
      | none =>
          rw [getReplacement, hFind]
          dsimp only [Option.map_none]
          split <;> rfl
      | some found =>
          obtain ⟨hId, hParDo, -⟩ := findSplittableParDo_eq_some.mp hFind
          cases hLookup.symm.trans hParDo
          rw [getReplacement, hFind, Option.filter_some]
          dsimp only [Option.map_some]
          split
          · have hOutputs :
                (found.compositeRoot existing isDrain).outputs = found.parDo.outputs := rfl
            rw [if_pos hOutputs, ← hId]
            dsimp only
            cases removeSubtransforms fuel found.parDo existing <;> rfl
          · rfl

/-- The step of the pass where ParDos are primitive: a little fuel is enough. -/
theorem updateOne_visit (hPrimitive : Primitive decode existing) (fuel : Nat)
    (transformId : String) :
    updateOne parDoTransform (getReplacement decode orders isDrain) (fuel + 1) existing transformId =
      some (visit decode orders isDrain existing transformId) := by
  rw [updateOne_eq, visit]
  cases hAt : splittableAt decode orders existing transformId with
  | none => rfl
  | some found =>
      obtain ⟨-, hFound⟩ := splittableAt_eq_some.mp hAt
      dsimp only
      rw [removeSubtransforms_nil (hPrimitive _ _ _ _ hFound.lookup hFound.splittable)]
      rfl

/-- Where it succeeds, a step of the replacement is a visit. -/
theorem updateOne_eq_some (hPrimitive : Primitive decode existing) {fuel : Nat}
    {transformId : String} {result : Components}
    (h : updateOne parDoTransform (getReplacement decode orders isDrain) fuel existing transformId =
      some result) : result = visit decode orders isDrain existing transformId := by
  cases fuel with
  | succ fuel => exact Option.some.inj (h.symm.trans (updateOne_visit hPrimitive fuel transformId))
  | zero =>
      rw [updateOne_eq] at h
      rw [visit]
      cases hAt : splittableAt decode orders existing transformId with
      | none =>
          rw [hAt] at h
          exact (Option.some.inj h).symm
      | some found =>
          rw [hAt] at h
          cases h

/-! Transforms that the pass leaves alone. -/

def Unsplittable (decode : List UInt8 → Option ParDoPayload) (pt : PTransform) : Prop :=
  ∀ bytes payload, ¬ IsSplittable decode pt bytes payload

theorem unsplittable_compositeRoot {found : SplittableParDo} :
    Unsplittable decode (found.compositeRoot existing isDrain) := by
  intro bytes payload h
  cases h.spec

theorem unsplittable_member {found : SplittableParDo} (role : SdfRole) :
    Unsplittable decode (found.member existing isDrain role) := by
  intro bytes payload h
  have hSpec := Option.some.inj h.spec
  exact role.urn_ne (congrArg CoderSpec.urn hSpec)

/-- An expansion leaves splittable ParDos without subtransforms. -/
theorem Primitive.expanded {found : SplittableParDo} (h : Primitive decode existing) :
    Primitive decode (found.expanded orders isDrain existing) := by
  intro id parDo bytes payload hLookup hSplittable
  rcases transforms_cases hLookup with ⟨-, rfl⟩ | ⟨role, -, -, rfl⟩ | ⟨-, hOld⟩
  · exact absurd hSplittable (unsplittable_compositeRoot _ _)
  · exact absurd hSplittable (unsplittable_member role _ _)
  · exact h id parDo bytes payload hOld hSplittable

/-- So does a visit. -/
theorem Primitive.visit (h : Primitive decode existing) (transformId : String) :
    Primitive decode (visit decode orders isDrain existing transformId) := by
  rcases @visit_cases decode orders isDrain existing transformId with
    ⟨found, -, -, hVisit⟩ | ⟨-, hVisit⟩
  · rw [hVisit]
    exact h.expanded
  · rw [hVisit]
    exact h

/-- The replacement is the visits of the ids, one after the other. -/
theorem updateTransform_visits (hPrimitive : Primitive decode existing) (fuel : Nat)
    (ids : List String) :
    updateTransform parDoTransform (getReplacement decode orders isDrain) (fuel + 1) ids existing =
      some (ids.foldl (visit decode orders isDrain) existing) := by
  induction ids generalizing existing with
  | nil => rfl
  | cons id ids ih =>
      rw [updateTransform, List.foldlM_cons, updateOne_visit hPrimitive]
      exact ih (hPrimitive.visit id)

/-- Whatever its fuel, a replacement that returns has made these visits. -/
theorem updateTransform_eq_some (hPrimitive : Primitive decode existing) {fuel : Nat}
    {ids : List String} {result : Components}
    (h : updateTransform parDoTransform (getReplacement decode orders isDrain) fuel ids existing =
      some result) : result = ids.foldl (visit decode orders isDrain) existing := by
  induction ids generalizing existing with
  | nil => exact (Option.some.inj h).symm
  | cons id ids ih =>
      rw [updateTransform, List.foldlM_cons] at h
      obtain ⟨next, hNext, hRest⟩ := Option.bind_eq_some_iff.mp h
      cases updateOne_eq_some hPrimitive hNext
      exact ih (hPrimitive.visit id) hRest

/-- Where no transform is splittable, nothing happens. -/
theorem expandSplittableParDos_unsplittable
    (h : ∀ id pt, existing.transforms.lookup id = some pt → Unsplittable decode pt) (fuel : Nat) :
    expandSplittableParDos decode orders isDrain fuel existing = some existing := by
  rw [expandSplittableParDos]
  have hStep : ∀ id, updateOne parDoTransform (getReplacement decode orders isDrain) fuel existing id =
      some existing := by
    intro id
    rw [updateOne_eq]
    cases hAt : splittableAt decode orders existing id with
    | none => rfl
    | some found =>
        obtain ⟨-, hFound⟩ := splittableAt_eq_some.mp hAt
        exact absurd hFound.splittable (h _ _ hFound.lookup _ _)
  generalize orders.transforms existing.transforms.keys = ids
  induction ids with
  | nil => rfl
  | cons id ids ih =>
      rw [updateTransform, List.foldlM_cons, hStep]
      exact ih

/-! The ParDos that were replaced, the last one first, each with the components
that it was replaced in. -/

abbrev ExpansionLog := List (SplittableParDo × Components)

inductive Expansions (decode : List UInt8 → Option ParDoPayload) (orders : HashOrders)
    (isDrain : Bool) (original : Components) : ExpansionLog → Components → Prop
  | start : Expansions decode orders isDrain original [] original
  | next {log : ExpansionLog} {existing : Components} {found : SplittableParDo}
      (before : Expansions decode orders isDrain original log existing)
      (here : found.FoundIn decode orders existing) :
      Expansions decode orders isDrain original ((found, existing) :: log)
        (found.expanded orders isDrain existing)

def ExpansionLog.ids (log : ExpansionLog) : List String :=
  log.map fun entry => entry.1.transformId

namespace Expansions

variable {log : ExpansionLog} {result : Components}

/-- A run of expansions keeps every coder of the original. -/
theorem coders (h : Expansions decode orders isDrain original log result) {id : String}
    {coder : Coder} (hCoder : original.coders.lookup id = some coder) :
    result.coders.lookup id = some coder := by
  induction h with
  | start => exact hCoder
  | next before here ih => exact coders_old ih

/-- A run of expansions keeps every PCollection of the original. -/
theorem pcollections (h : Expansions decode orders isDrain original log result) {id : String}
    {pcol : PCollection} (hPcol : original.pcollections.lookup id = some pcol) :
    result.pcollections.lookup id = some pcol := by
  induction h with
  | start => exact hPcol
  | next before here ih => exact pcollections_old ih

/-- Every transform is an original one that was not replaced, a composite, or a
member of a chain. -/
theorem transforms_cases (h : Expansions decode orders isDrain original log result) {id : String}
    {pt : PTransform} (hLookup : result.transforms.lookup id = some pt) :
    (id ∉ log.ids ∧ original.transforms.lookup id = some pt) ∨
    (∃ entry ∈ log, id = entry.1.transformId ∧ pt = entry.1.compositeRoot entry.2 isDrain) ∨
    (∃ entry ∈ log, ∃ role ∈ memberRoles isDrain, id = entry.1.memberId entry.2 role ∧
      pt = entry.1.member entry.2 isDrain role) := by
  induction h with
  | start => exact .inl ⟨List.not_mem_nil, hLookup⟩
  | @next log existing found before here ih =>
      rcases SplittableParDo.transforms_cases hLookup with ⟨rfl, rfl⟩ | ⟨role, hRole, rfl, rfl⟩ |
        ⟨hOther, hOld⟩
      · exact .inr (.inl ⟨(found, existing), List.mem_cons_self, rfl, rfl⟩)
      · exact .inr (.inr ⟨(found, existing), List.mem_cons_self, role, hRole, rfl, rfl⟩)
      · rcases ih hOld with ⟨hNot, hOriginal⟩ | ⟨entry, hEntry, hRest⟩ | ⟨entry, hEntry, hRest⟩
        · refine .inl ⟨fun hMem => ?_, hOriginal⟩
          rcases List.mem_cons.mp hMem with rfl | hMem
          · exact hOther rfl
          · exact hNot hMem
        · exact .inr (.inl ⟨entry, List.mem_cons_of_mem _ hEntry, hRest⟩)
        · exact .inr (.inr ⟨entry, List.mem_cons_of_mem _ hEntry, hRest⟩)

/-- Splittable ParDos are original ones that were not replaced yet. -/
theorem splittable (h : Expansions decode orders isDrain original log result) {id : String}
    {parDo : PTransform} (hLookup : result.transforms.lookup id = some parDo)
    {bytes : List UInt8} {payload : ParDoPayload}
    (hSplittable : IsSplittable decode parDo bytes payload) :
    id ∉ log.ids ∧ original.transforms.lookup id = some parDo := by
  rcases h.transforms_cases hLookup with hOriginal | ⟨entry, -, -, rfl⟩ | ⟨entry, -, role, -, -, rfl⟩
  · exact hOriginal
  · exact absurd hSplittable (unsplittable_compositeRoot _ _)
  · exact absurd hSplittable (unsplittable_member role _ _)

/-- What is not splittable stays. -/
theorem stays {found : SplittableParDo} {existing : Components}
    (here : found.FoundIn decode orders existing) {id : String} {pt : PTransform}
    (hPt : Unsplittable decode pt) (hLookup : existing.transforms.lookup id = some pt) :
    (found.expanded orders isDrain existing).transforms.lookup id = some pt := by
  refine transforms_old (fun hSame => ?_) hLookup
  rw [hSame, here.lookup] at hLookup
  cases hLookup
  exact hPt _ _ here.splittable

/-- A transform that has not been expanded is as it was. -/
theorem waiting (h : Expansions decode orders isDrain original log result) {id : String}
    {pt : PTransform} (hNot : id ∉ log.ids)
    (hLookup : original.transforms.lookup id = some pt) :
    result.transforms.lookup id = some pt := by
  induction h with
  | start => exact hLookup
  | next before here ih =>
      exact transforms_old (fun hSame => hNot (List.mem_cons.mpr (.inl hSame)))
        (ih fun hMem => hNot (List.mem_cons_of_mem _ hMem))

/-- A transform that is no splittable ParDo is never touched. -/
theorem unsplittable (h : Expansions decode orders isDrain original log result) {id : String}
    {pt : PTransform} (hPt : Unsplittable decode pt)
    (hLookup : original.transforms.lookup id = some pt) :
    result.transforms.lookup id = some pt := by
  induction h with
  | start => exact hLookup
  | next before here ih => exact stays here hPt ih

/-- Each entry was found in what the entries before it had left. -/
theorem entry (h : Expansions decode orders isDrain original log result)
    {found : SplittableParDo} {existing : Components} (hMem : (found, existing) ∈ log) :
    ∃ earlier, Expansions decode orders isDrain original earlier existing ∧
      found.FoundIn decode orders existing ∧ ∃ later, log = later ++ (found, existing) :: earlier := by
  induction h with
  | start => cases hMem
  | next before here ih =>
      rcases List.mem_cons.mp hMem with hSame | hEarlier
      · cases hSame
        exact ⟨_, before, here, [], rfl⟩
      · obtain ⟨earlier, hRun, hFound, later, rfl⟩ := ih hEarlier
        exact ⟨earlier, hRun, hFound, _ :: later, rfl⟩

/-- No ParDo is expanded twice. -/
theorem nodup_ids (h : Expansions decode orders isDrain original log result) : log.ids.Nodup := by
  induction h with
  | start => exact List.nodup_nil
  | next before here ih =>
      exact List.nodup_cons.mpr ⟨(before.splittable here.lookup here.splittable).1, ih⟩

/-! What an entry has added is still there at the end. -/

section Entries

variable {found : SplittableParDo} {existing : Components}

/-- An expanded ParDo stays the composite it became. -/
theorem root (h : Expansions decode orders isDrain original log result)
    (hMem : (found, existing) ∈ log) :
    result.transforms.lookup found.transformId = some (found.compositeRoot existing isDrain) := by
  induction h with
  | start => cases hMem
  | next before here ih =>
      rcases List.mem_cons.mp hMem with hSame | hEarlier
      · cases hSame
        exact transforms_root
      · exact stays here unsplittable_compositeRoot (ih hEarlier)

/-- The members of an expansion stay as they were made. -/
theorem member (h : Expansions decode orders isDrain original log result)
    (hMem : (found, existing) ∈ log) {role : SdfRole} (hRole : role ∈ memberRoles isDrain) :
    result.transforms.lookup (found.memberId existing role) =
      some (found.member existing isDrain role) := by
  induction h with
  | start => cases hMem
  | next before here ih =>
      rcases List.mem_cons.mp hMem with hSame | hEarlier
      · cases hSame
        exact transforms_member hRole
      · exact stays here (unsplittable_member role) (ih hEarlier)

/-- The PCollections between the members stay as they were made. -/
theorem link (h : Expansions decode orders isDrain original log result)
    (hMem : (found, existing) ∈ log) {role : SdfRole} (hRole : role ∈ linkRoles isDrain) :
    result.pcollections.lookup (found.outId existing role) =
      some (found.outPcollection existing role) := by
  induction h with
  | start => cases hMem
  | next before here ih =>
      rcases List.mem_cons.mp hMem with hSame | hEarlier
      · cases hSame
        exact pcollections_link hRole
      · exact pcollections_old (ih hEarlier)

/-- So do the coders an expansion made. -/
theorem coder (h : Expansions decode orders isDrain original log result)
    (hMem : (found, existing) ∈ log) {id : String} {coder : Coder}
    (hCoder : (found.expanded orders isDrain existing).coders.lookup id = some coder) :
    result.coders.lookup id = some coder := by
  induction h with
  | start => cases hMem
  | next before here ih =>
      rcases List.mem_cons.mp hMem with hSame | hEarlier
      · cases hSame
        exact hCoder
      · exact coders_old (ih hEarlier)

/-- No transform of the original disappears. -/
theorem transforms_mem (h : Expansions decode orders isDrain original log result) {id : String}
    (hId : id ∈ original.transforms) : id ∈ result.transforms := by
  induction h with
  | start => exact hId
  | @next log existing found before here ih =>
      obtain ⟨pt, hPt⟩ := Option.isSome_iff_exists.mp (AList.lookup_isSome.mpr ih)
      refine AList.lookup_isSome.mp ?_
      by_cases hSame : id = found.transformId
      · rw [hSame, transforms_root]
        rfl
      · rw [transforms_old hSame hPt]
        rfl

/-- A member's id is new to the original pipeline. -/
theorem member_fresh (h : Expansions decode orders isDrain original log result)
    (hMem : (found, existing) ∈ log) (role : SdfRole) :
    found.memberId existing role ∉ original.transforms := by
  obtain ⟨earlier, hRun, -⟩ := h.entry hMem
  exact fun hOld => memberId_notMem role (hRun.transforms_mem hOld)

/-- A link's id is new to the original pipeline. -/
theorem link_fresh (h : Expansions decode orders isDrain original log result)
    (hMem : (found, existing) ∈ log) (role : SdfRole) :
    found.outId existing role ∉ original.pcollections := by
  obtain ⟨earlier, hRun, -⟩ := h.entry hMem
  intro hOld
  obtain ⟨pcol, hPcol⟩ := Option.isSome_iff_exists.mp (AList.lookup_isSome.mpr hOld)
  exact outId_notMem role (AList.lookup_isSome.mp (by rw [hRun.pcollections hPcol]; rfl))

/-- The links of different ParDos differ, also on the same main input. -/
theorem link_apart (h : Expansions decode orders isDrain original log result)
    {other : SplittableParDo} {otherExisting : Components} (hMem : (found, existing) ∈ log)
    (hOther : (other, otherExisting) ∈ log) (hIds : found.transformId ≠ other.transformId)
    {role otherRole : SdfRole} (hRole : role ∈ linkRoles isDrain)
    (hOtherRole : otherRole ∈ linkRoles isDrain) :
    found.outId existing role ≠ other.outId otherExisting otherRole := by
  induction h with
  | start => cases hMem
  | next before here ih =>
      rcases List.mem_cons.mp hMem with hHere | hEarlier
      · rcases List.mem_cons.mp hOther with hSame | hOtherEarlier
        · cases hHere
          cases hSame
          exact absurd rfl hIds
        · cases hHere
          intro hSame
          have hLink := before.link hOtherEarlier hOtherRole
          rw [← hSame] at hLink
          exact outId_notMem role (AList.lookup_isSome.mp (by rw [hLink]; rfl))
      · rcases List.mem_cons.mp hOther with hSame | hOtherEarlier
        · cases hSame
          intro hSame
          have hLink := before.link hEarlier hRole
          rw [hSame] at hLink
          exact outId_notMem otherRole (AList.lookup_isSome.mp (by rw [hLink]; rfl))
        · exact ih hEarlier hOtherEarlier

end Entries

end Expansions

/-! The names of PCollections. -/

/-- No two entries of a map have the same unique name. -/
def DistinctNames {ν : Type} (uniqueName : ν → String) (map : Store String ν) : Prop :=
  ∀ {id other : String} {entry otherEntry : ν}, map.lookup id = some entry →
    map.lookup other = some otherEntry → uniqueName entry = uniqueName otherEntry → id = other

theorem mem_pcollectionNames {components : Components} {name : String} :
    name ∈ pcollectionNames components ↔
      ∃ id pcol, components.pcollections.lookup id = some pcol ∧ pcol.uniqueName = name := by
  rw [pcollectionNames, List.mem_map]
  constructor
  · rintro ⟨entry, hEntry, rfl⟩
    exact ⟨entry.1, entry.2, AList.mem_lookup_iff.mpr hEntry, rfl⟩
  · rintro ⟨id, pcol, hLookup, rfl⟩
    exact ⟨⟨id, pcol⟩, AList.mem_lookup_iff.mp hLookup, rfl⟩

/-- No PCollection of the pipeline has the name. -/
abbrev FreeName (components : Components) (stem : String) (role : SdfRole) (number : Nat) : Prop :=
  numbered (labelled stem role.label) number ∉ pcollectionNames components

/-- How often a link of the role was named after the PCollection. -/
def linksNamed (isDrain : Bool) (role : SdfRole) (stem : String) (log : ExpansionLog) : Nat :=
  if role ∈ linkRoles isDrain then
    (log.filter fun entry => entry.1.mainInputPcol.uniqueName = stem).length
  else 0

/-- An expansion adds the names of its links and no others. -/
theorem mem_pcollectionNames_expanded {found : SplittableParDo} {name : String} :
    name ∈ pcollectionNames (found.expanded orders isDrain existing) ↔
      name ∈ pcollectionNames existing ∨
        ∃ role ∈ linkRoles isDrain, name = (found.outPcollection existing role).uniqueName := by
  rw [mem_pcollectionNames, mem_pcollectionNames]
  constructor
  · rintro ⟨id, pcol, hLookup, rfl⟩
    rcases pcollections_cases hLookup with ⟨role, hRole, rfl, rfl⟩ | hOld
    · exact .inr ⟨role, hRole, rfl⟩
    · exact .inl ⟨id, pcol, hOld, rfl⟩
  · rintro (⟨id, pcol, hOld, rfl⟩ | ⟨role, hRole, rfl⟩)
    · exact ⟨id, pcol, pcollections_old hOld, rfl⟩
    · exact ⟨_, _, pcollections_link hRole, rfl⟩

namespace Expansions

variable {log : ExpansionLog} {result : Components}

/-- Names are used up in the order of their numbers: which ones are taken depends
only on how many links were named after the PCollection. -/
theorem mem_names_iff (h : Expansions decode orders isDrain original log result) (stem : String)
    (role : SdfRole) (number : Nat) :
    numbered (labelled stem role.label) number ∈ pcollectionNames result ↔
      ¬ FreeName original stem role number ∨
        Nat.count (FreeName original stem role) number < linksNamed isDrain role stem log := by
  induction h generalizing number with
  | start => simp [linksNamed, FreeName]
  | @next log existing found before here ih =>
      rw [mem_pcollectionNames_expanded]
      by_cases hHere : role ∈ linkRoles isDrain ∧ found.mainInputPcol.uniqueName = stem
      · obtain ⟨hRole, rfl⟩ := hHere
        have hUsed : linksNamed isDrain role found.mainInputPcol.uniqueName
            ((found, existing) :: log) =
            linksNamed isDrain role found.mainInputPcol.uniqueName log + 1 := by
          simp [linksNamed, hRole]
        rw [hUsed, ← taken_next ih]
        refine or_congr_right ⟨?_, ?_⟩
        · rintro ⟨other, -, hName⟩
          obtain ⟨-, rfl, hNumber⟩ := numbered_role_injective hName
          exact hNumber
        · rintro rfl
          exact ⟨role, hRole, rfl⟩
      · have hUsed : linksNamed isDrain role stem ((found, existing) :: log) =
            linksNamed isDrain role stem log := by
          unfold linksNamed
          split
          next hRole =>
            have hStem : found.mainInputPcol.uniqueName ≠ stem := fun hSame => hHere ⟨hRole, hSame⟩
            simp [hStem]
          · rfl
        rw [hUsed, ← ih]
        refine or_iff_left ?_
        rintro ⟨other, hOther, hName⟩
        obtain ⟨rfl, rfl, -⟩ := numbered_role_injective hName
        exact hHere ⟨hOther, rfl⟩

/-- The names of PCollections stay distinct through the whole run. -/
theorem pcollectionNames (h : Expansions decode orders isDrain original log result)
    (hNames : DistinctNames PCollection.uniqueName original.pcollections) :
    DistinctNames PCollection.uniqueName result.pcollections := by
  induction h with
  | start => exact hNames
  | @next log existing found before here ih =>
      have hNew : ∀ role, (found.outPcollection existing role).uniqueName ∉
          Expander.pcollectionNames existing := fun role => fresh_notMem _ _
      intro id other pcol otherPcol hLookup hOther hSame
      rcases pcollections_cases hLookup with ⟨role, hRole, rfl, rfl⟩ | hOld
      · rcases pcollections_cases hOther with ⟨otherRole, hOtherRole, rfl, rfl⟩ | hOtherOld
        · rw [(numbered_role_injective hSame).2.1]
        · refine absurd ?_ (hNew role)
          rw [hSame]
          exact mem_pcollectionNames.mpr ⟨other, otherPcol, hOtherOld, rfl⟩
      · rcases pcollections_cases hOther with ⟨otherRole, hOtherRole, rfl, rfl⟩ | hOtherOld
        · refine absurd ?_ (hNew otherRole)
          rw [← hSame]
          exact mem_pcollectionNames.mpr ⟨id, pcol, hOld, rfl⟩
        · exact ih hOld hOtherOld hSame

end Expansions

/-! The whole snapshot. -/

/-- Every splittable ParDo has a main input, and whatever input is taken for it is
a PCollection of the pipeline. -/
structure MainInputs (decode : List UInt8 → Option ParDoPayload) (components : Components) :
    Prop where
  exist : ∀ id parDo bytes payload, components.transforms.lookup id = some parDo →
    IsSplittable decode parDo bytes payload →
    ∃ name pcolId, parDo.inputs.lookup name = some pcolId ∧ name ∉ payload.sideInputs
  known : ∀ id parDo bytes payload, components.transforms.lookup id = some parDo →
    IsSplittable decode parDo bytes payload →
    ∀ name pcolId, parDo.inputs.lookup name = some pcolId → name ∉ payload.sideInputs →
      ∃ pcol, components.pcollections.lookup pcolId = some pcol

/-- Where some input is no side input, the main input found is one of those. -/
theorem mainInputName_spec {names : List String} {payload : ParDoPayload}
    (h : ∃ name ∈ names, name ∉ payload.sideInputs) :
    getMainInputNameFromPayload names payload ∈ names ∧
      getMainInputNameFromPayload names payload ∉ payload.sideInputs := by
  rw [getMainInputNameFromPayload]
  cases hFind : names.find? fun name => name ∉ payload.sideInputs with
  | none =>
      obtain ⟨name, hMem, hMain⟩ := h
      exact absurd (decide_eq_true hMain) (by simpa using List.find?_eq_none.mp hFind name hMem)
  | some name =>
      exact ⟨List.mem_of_find?_eq_some hFind, by simpa using List.find?_some hFind⟩

theorem SplittableParDo.FoundIn.mainInput_notMem {found : SplittableParDo}
    (h : found.FoundIn decode orders existing)
    (hMain : ∃ name pcolId, found.parDo.inputs.lookup name = some pcolId ∧
      name ∉ found.payload.sideInputs) : found.mainInputName ∉ found.payload.sideInputs := by
  obtain ⟨name, pcolId, hInput, hName⟩ := hMain
  rw [h.mainName]
  refine (mainInputName_spec ⟨name, ?_, hName⟩).2
  rw [(orders.inputs_perm _ _).mem_iff]
  exact mem_keys_iff.mpr ⟨pcolId, hInput⟩

namespace Expansions

variable {log : ExpansionLog}

/-- What an entry was found as is the original ParDo. -/
theorem original_parDo {result : Components}
    (h : Expansions decode orders isDrain original log result) {found : SplittableParDo}
    {existing : Components} (hMem : (found, existing) ∈ log) :
    original.transforms.lookup found.transformId = some found.parDo := by
  obtain ⟨earlier, hRun, hFound, -⟩ := h.entry hMem
  exact (hRun.splittable hFound.lookup hFound.splittable).2

/-- A splittable ParDo that was not replaced yet is found. -/
theorem exists_found (h : Expansions decode orders isDrain original log existing)
    (hMains : MainInputs decode original) {id : String} {parDo : PTransform} {bytes : List UInt8}
    {payload : ParDoPayload} (hLookup : original.transforms.lookup id = some parDo)
    (hSplittable : IsSplittable decode parDo bytes payload) (hNot : id ∉ log.ids) :
    ∃ found : SplittableParDo, found.transformId = id ∧ found.parDo = parDo ∧
      found.payload = payload ∧ found.FoundIn decode orders existing := by
  obtain ⟨name, pcolId, hInput, hName⟩ := hMains.exist _ _ _ _ hLookup hSplittable
  have hMem : name ∈ orders.inputs id parDo.inputs.keys := by
    rw [(orders.inputs_perm _ _).mem_iff]
    exact mem_keys_iff.mpr ⟨pcolId, hInput⟩
  obtain ⟨hMain, hNotSide⟩ := mainInputName_spec ⟨name, hMem, hName⟩
  rw [(orders.inputs_perm _ _).mem_iff] at hMain
  obtain ⟨mainId, hMainId⟩ := mem_keys_iff.mp hMain
  obtain ⟨mainPcol, hMainPcol⟩ := hMains.known _ _ _ _ hLookup hSplittable _ _ hMainId hNotSide
  exact ⟨⟨id, parDo, bytes, payload, _, mainId, mainPcol⟩, rfl, rfl, rfl, h.waiting hNot hLookup,
    hSplittable, rfl, hMainId, h.pcollections hMainPcol⟩

/-- Further visits continue a run of expansions. -/
theorem visits (h : Expansions decode orders isDrain original log existing) (ids : List String) :
    ∃ more : ExpansionLog,
      Expansions decode orders isDrain original (more ++ log)
        (ids.foldl (visit decode orders isDrain) existing) ∧ ∀ id ∈ more.ids, id ∈ ids := by
  induction ids generalizing log existing with
  | nil => exact ⟨[], h, fun id hMem => hMem⟩
  | cons id ids ih =>
      rw [List.foldl_cons]
      rcases @visit_cases decode orders isDrain existing id with
        ⟨found, rfl, hFound, hVisit⟩ | ⟨-, hVisit⟩
      · rw [hVisit]
        obtain ⟨more, hRun, hIds⟩ := ih (h.next hFound)
        refine ⟨more ++ [(found, existing)], by rwa [List.append_assoc], fun other hMem => ?_⟩
        rw [ExpansionLog.ids, List.map_append, List.mem_append] at hMem
        rcases hMem with hMore | hHere
        · exact List.mem_cons_of_mem _ (hIds other hMore)
        · rw [List.mem_singleton.mp hHere]
          exact List.mem_cons_self
      · rw [hVisit]
        obtain ⟨more, hRun, hIds⟩ := ih h
        exact ⟨more, hRun, fun other hMem => List.mem_cons_of_mem _ (hIds other hMem)⟩

/-- Every splittable ParDo that the pass comes to is replaced. -/
theorem visits_all (h : Expansions decode orders isDrain original log existing)
    (hMains : MainInputs decode original) (ids : List String) :
    ∃ more : ExpansionLog,
      Expansions decode orders isDrain original (more ++ log)
        (ids.foldl (visit decode orders isDrain) existing) ∧ (∀ id ∈ more.ids, id ∈ ids) ∧
      ∀ id ∈ ids, ∀ parDo bytes payload, original.transforms.lookup id = some parDo →
        IsSplittable decode parDo bytes payload → id ∈ ExpansionLog.ids (more ++ log) := by
  induction ids generalizing log existing with
  | nil => exact ⟨[], h, fun id hMem => hMem, fun id hMem => absurd hMem List.not_mem_nil⟩
  | cons id ids ih =>
      rw [List.foldl_cons]
      rcases @visit_cases decode orders isDrain existing id with
        ⟨found, rfl, hFound, hVisit⟩ | ⟨hNone, hVisit⟩
      · rw [hVisit]
        obtain ⟨more, hRun, hIds, hAll⟩ := ih (h.next hFound)
        refine ⟨more ++ [(found, existing)], by rwa [List.append_assoc], fun other hMem => ?_, ?_⟩
        · rw [ExpansionLog.ids, List.map_append, List.mem_append] at hMem
          rcases hMem with hMore | hHere
          · exact List.mem_cons_of_mem _ (hIds other hMore)
          · rw [List.mem_singleton.mp hHere]
            exact List.mem_cons_self
        · intro other hMem parDo bytes payload hLookup hSplittable
          rw [List.append_assoc, List.singleton_append]
          rcases List.mem_cons.mp hMem with rfl | hMem
          · rw [ExpansionLog.ids, List.map_append]
            exact List.mem_append_right _ List.mem_cons_self
          · exact hAll other hMem parDo bytes payload hLookup hSplittable
      · rw [hVisit]
        obtain ⟨more, hRun, hIds, hAll⟩ := ih h
        refine ⟨more, hRun, fun other hMem => List.mem_cons_of_mem _ (hIds other hMem), ?_⟩
        intro other hMem parDo bytes payload hLookup hSplittable
        rcases List.mem_cons.mp hMem with rfl | hMem
        · have hLogged : other ∈ log.ids := by
            by_contra hNot
            obtain ⟨found, hId, -, -, hFound⟩ := h.exists_found hMains hLookup hSplittable hNot
            exact hNone found hId hFound
          rw [ExpansionLog.ids, List.map_append]
          exact List.mem_append_right _ hLogged
        · exact hAll other hMem parDo bytes payload hLookup hSplittable

end Expansions

end FlareDB.Expander
