import FlareDB.Fusion.Growth

/-! The groups of siblings: for one PCollection and one environment, the greedy
partition of its consumers in their order. -/
namespace FlareDB

open KeyedStore

namespace QueryablePipeline

variable {pipeline : QueryablePipeline}

/-- A consumer made of nodes of the pipeline. -/
def IsConsumer (pipeline : QueryablePipeline) (consumer : CollectionConsumers) : Prop :=
  pipeline.IsCollection consumer.collection ∧ consumer.node ∈ pipeline.nodes

/-- A consumer is told by its key. -/
theorem consumer_eq_of_key {consumer other : CollectionConsumers}
    (hConsumer : pipeline.IsConsumer consumer) (hOther : pipeline.IsConsumer other)
    (hKey : consumer.key = other.key) : consumer = other := by
  have hCollection := collection_eq_of_id hConsumer.1 hOther.1 (congrArg Prod.fst hKey)
  have hNode := node_eq_of_id hConsumer.2 hOther.2 (congrArg Prod.snd hKey)
  cases consumer
  cases other
  cases hCollection
  cases hNode
  rfl

/-- So is a group of them. -/
theorem group_eq_of_keys {group other : List CollectionConsumers}
    (hGroup : ∀ consumer ∈ group, pipeline.IsConsumer consumer)
    (hOther : ∀ consumer ∈ other, pipeline.IsConsumer consumer)
    (hKeys : group.map CollectionConsumers.key = other.map CollectionConsumers.key) :
    group = other := by
  induction group generalizing other with
  | nil => exact (List.map_eq_nil_iff.mp hKeys.symm).symm
  | cons consumer group ih =>
      cases other with
      | nil => cases hKeys
      | cons first rest =>
          rw [List.map_cons, List.map_cons, List.cons.injEq] at hKeys
          rw [consumer_eq_of_key (hGroup consumer (List.mem_cons_self ..))
              (hOther first (List.mem_cons_self ..)) hKeys.1,
            ih (fun member hMem => hGroup member (List.mem_cons_of_mem _ hMem))
              (fun member hMem => hOther member (List.mem_cons_of_mem _ hMem)) hKeys.2]

/-- The greedy partition of consumers that share a key. -/
def greedyGroups (pipeline : QueryablePipeline) (consumers : List CollectionConsumers) :
    List (List CollectionConsumers) :=
  consumers.foldl (fun groups consumer => pipeline.joinGroups consumer groups) []

/-- A consumer joins the groups of its own sibling key. -/
theorem getD_lookup_compact (table : Store SiblingKey (List (List CollectionConsumers)))
    (consumer : CollectionConsumers) (key : SiblingKey) :
    ((pipeline.compact table consumer).lookup key).getD [] =
      if pipeline.siblingKey consumer = key then
        pipeline.joinGroups consumer ((table.lookup key).getD [])
      else (table.lookup key).getD [] := by
  rw [compact]
  split
  next hKey =>
    rw [← hKey, AList.lookup_insert]
    rfl
  next hKey => rw [AList.lookup_insert_ne (Ne.symm hKey)]

/-- The groups of a key are made of the consumers with that key. -/
theorem getD_lookup_foldl_compact (consumers : List CollectionConsumers)
    (table : Store SiblingKey (List (List CollectionConsumers))) (key : SiblingKey) :
    ((consumers.foldl pipeline.compact table).lookup key).getD [] =
      (consumers.filter fun consumer => pipeline.siblingKey consumer = key).foldl
        (fun groups consumer => pipeline.joinGroups consumer groups)
        ((table.lookup key).getD []) := by
  induction consumers generalizing table with
  | nil => rfl
  | cons consumer consumers ih =>
      rw [List.foldl_cons, ih, getD_lookup_compact, List.filter_cons]
      by_cases hKey : pipeline.siblingKey consumer = key
      · rw [if_pos hKey, if_pos (decide_eq_true hKey), List.foldl_cons]
      · rw [if_neg hKey, if_neg (by rw [decide_eq_false hKey]; exact Bool.false_ne_true)]

/-- The groups of a table are the greedy groups of its keys. -/
theorem mem_table_iff {consumers : List CollectionConsumers} {group : List CollectionConsumers} :
    group ∈ ((consumers.foldl pipeline.compact ∅).entries.flatMap fun entry => entry.2) ↔
      ∃ key, group ∈ pipeline.greedyGroups
        (consumers.filter fun consumer => pipeline.siblingKey consumer = key) := by
  have hLookup (key : SiblingKey) :
      ((consumers.foldl pipeline.compact ∅).lookup key).getD [] = pipeline.greedyGroups
        (consumers.filter fun consumer => pipeline.siblingKey consumer = key) :=
    getD_lookup_foldl_compact consumers ∅ key
  rw [List.mem_flatMap]
  constructor
  · rintro ⟨⟨key, groups⟩, hEntry, hGroup⟩
    refine ⟨key, ?_⟩
    rw [← hLookup key, AList.mem_lookup_iff.mpr hEntry]
    exact hGroup
  · rintro ⟨key, hGroup⟩
    rw [← hLookup key] at hGroup
    cases hFound : (consumers.foldl pipeline.compact ∅).lookup key with
    | none =>
        rw [hFound] at hGroup
        cases hGroup
    | some groups =>
        rw [hFound] at hGroup
        exact ⟨⟨key, groups⟩, AList.mem_lookup_iff.mp hFound, hGroup⟩

/-- A consumer joins a group it is compatible with, or starts one. -/
theorem mem_joinGroups {consumer : CollectionConsumers} {groups : List (List CollectionConsumers)}
    {group : List CollectionConsumers} (h : group ∈ pipeline.joinGroups consumer groups) :
    group ∈ groups ∨ group = [consumer] ∨ ∃ old ∈ groups, group = old ++ [consumer] ∧
      ∀ member ∈ old, pipeline.isCompatible member.node consumer.node = true := by
  induction groups with
  | nil => exact Or.inr (Or.inl (List.mem_singleton.mp h))
  | cons first rest ih =>
      rw [joinGroups] at h
      split at h
      next hAll =>
        rcases List.mem_cons.mp h with rfl | hRest
        · exact Or.inr (Or.inr ⟨first, List.mem_cons_self .., rfl, List.all_eq_true.mp hAll⟩)
        · exact Or.inl (List.mem_cons_of_mem _ hRest)
      · rcases List.mem_cons.mp h with rfl | hRest
        · exact Or.inl (List.mem_cons_self ..)
        · rcases ih hRest with hOld | hNew | ⟨old, hOld, hJoined⟩
          · exact Or.inl (List.mem_cons_of_mem _ hOld)
          · exact Or.inr (Or.inl hNew)
          · exact Or.inr (Or.inr ⟨old, List.mem_cons_of_mem _ hOld, hJoined⟩)

/-- It is in some group afterwards. -/
theorem mem_joinGroups_self (consumer : CollectionConsumers)
    (groups : List (List CollectionConsumers)) :
    ∃ group ∈ pipeline.joinGroups consumer groups, consumer ∈ group := by
  induction groups with
  | nil => exact ⟨[consumer], List.mem_singleton_self _, List.mem_singleton_self _⟩
  | cons first rest ih =>
      rw [joinGroups]
      split
      · exact ⟨_, List.mem_cons_self .., List.mem_append_right _ (List.mem_singleton_self _)⟩
      · obtain ⟨group, hGroup, hMem⟩ := ih
        exact ⟨group, List.mem_cons_of_mem _ hGroup, hMem⟩

/-- A group only grows. -/
theorem joinGroups_grows (consumer : CollectionConsumers) {groups : List (List CollectionConsumers)}
    {group : List CollectionConsumers} (h : group ∈ groups) :
    ∃ larger ∈ pipeline.joinGroups consumer groups, group ⊆ larger := by
  induction groups with
  | nil => cases h
  | cons first rest ih =>
      rw [joinGroups]
      split
      · rcases List.mem_cons.mp h with rfl | hRest
        · exact ⟨_, List.mem_cons_self .., List.subset_append_left ..⟩
        · exact ⟨group, List.mem_cons_of_mem _ hRest, List.Subset.refl _⟩
      · rcases List.mem_cons.mp h with rfl | hRest
        · exact ⟨group, List.mem_cons_self .., List.Subset.refl _⟩
        · obtain ⟨larger, hLarger, hSubset⟩ := ih hRest
          exact ⟨larger, List.mem_cons_of_mem _ hLarger, hSubset⟩

/-- The groups are nonempty parts of the consumers, of mutually compatible
members. -/
theorem greedyGroups_group {consumers : List CollectionConsumers}
    {group : List CollectionConsumers} (h : group ∈ pipeline.greedyGroups consumers) :
    group ≠ [] ∧ group ⊆ consumers ∧ group.Pairwise fun first second =>
      pipeline.isCompatible first.node second.node = true := by
  induction consumers using List.reverseRecOn generalizing group with
  | nil => cases h
  | append_singleton consumers consumer ih =>
      rw [greedyGroups, List.foldl_append] at h
      rcases mem_joinGroups h with hOld | rfl | ⟨old, hOld, rfl, hCompatible⟩
      · obtain ⟨hNonempty, hSubset, hPairwise⟩ := ih hOld
        exact ⟨hNonempty, List.Subset.trans hSubset (List.subset_append_left ..), hPairwise⟩
      · exact ⟨List.cons_ne_nil _ _, List.subset_append_right .., List.pairwise_singleton ..⟩
      · obtain ⟨_, hSubset, hPairwise⟩ := ih hOld
        refine ⟨List.append_ne_nil_of_right_ne_nil _ (List.cons_ne_nil _ _),
          List.append_subset.mpr ⟨List.Subset.trans hSubset (List.subset_append_left ..),
            List.subset_append_right ..⟩, List.pairwise_append.mpr
          ⟨hPairwise, List.pairwise_singleton .., ?_⟩⟩
        intro member hMember added hAdded
        rw [List.mem_singleton.mp hAdded]
        exact hCompatible member hMember

/-- Every consumer is in a group. -/
theorem greedyGroups_cover {consumers : List CollectionConsumers} {consumer : CollectionConsumers}
    (h : consumer ∈ consumers) : ∃ group ∈ pipeline.greedyGroups consumers, consumer ∈ group := by
  induction consumers using List.reverseRecOn with
  | nil => cases h
  | append_singleton consumers last ih =>
      rw [greedyGroups, List.foldl_append]
      rcases List.mem_append.mp h with hOld | hLast
      · obtain ⟨group, hGroup, hMem⟩ := ih hOld
        obtain ⟨larger, hLarger, hSubset⟩ := joinGroups_grows last hGroup
        exact ⟨larger, hLarger, hSubset hMem⟩
      · rw [List.mem_singleton.mp hLast]
        exact mem_joinGroups_self last _

theorem mem_inOrder {consumers : List CollectionConsumers}
    (hConsumers : ∀ consumer ∈ consumers, pipeline.IsConsumer consumer)
    {consumer : CollectionConsumers} :
    consumer ∈ CollectionConsumers.inOrder consumers ↔ consumer ∈ consumers := by
  rw [CollectionConsumers.inOrder, List.mem_insertionSort,
    IndexSet.mem_extend_iff (P := pipeline.IsConsumer)
      (fun _ _ hFirst hSecond hKey => consumer_eq_of_key hFirst hSecond hKey)
      (List.forall_mem_nil _) hConsumers]
  exact or_iff_right List.not_mem_nil

theorem mem_groupSiblings {consumers : List CollectionConsumers}
    (hConsumers : ∀ consumer ∈ consumers, pipeline.IsConsumer consumer)
    {group : List CollectionConsumers} : group ∈ pipeline.groupSiblings consumers ↔
      ∃ key, group ∈ pipeline.greedyGroups ((CollectionConsumers.inOrder consumers).filter
        fun consumer => pipeline.siblingKey consumer = key) := by
  have hGroups : ∀ group ∈ ((CollectionConsumers.inOrder consumers).foldl
      pipeline.compact ∅).entries.flatMap fun entry => entry.2,
      ∀ consumer ∈ group, pipeline.IsConsumer consumer := by
    intro group hGroup consumer hMem
    obtain ⟨key, hGreedy⟩ := mem_table_iff.mp hGroup
    have hOrdered := List.mem_of_mem_filter ((greedyGroups_group hGreedy).2.1 hMem)
    exact hConsumers consumer ((mem_inOrder hConsumers).mp hOrdered)
  rw [groupSiblings, CollectionConsumers.groupsInOrder, List.mem_insertionSort,
    IndexSet.mem_extend_iff
      (P := fun group => ∀ consumer ∈ group, pipeline.IsConsumer consumer)
      (fun _ _ hFirst hSecond hKeys => group_eq_of_keys hFirst hSecond hKeys)
      (List.forall_mem_nil _) hGroups, or_iff_right List.not_mem_nil]
  exact mem_table_iff

/-- A group of siblings: consumers of one PCollection in one environment that
are compatible with each other. -/
structure IsGroup (pipeline : QueryablePipeline) (consumers : List CollectionConsumers)
    (group : List CollectionConsumers) : Prop where
  nonempty : group ≠ []
  subset : group ⊆ consumers
  key : ∀ first ∈ group, ∀ second ∈ group,
    pipeline.siblingKey first = pipeline.siblingKey second
  compatible : group.Pairwise fun first second =>
    pipeline.isCompatible first.node second.node = true

/-- What is made is a group of the consumers. -/
theorem isGroup_of_mem {consumers : List CollectionConsumers}
    (hConsumers : ∀ consumer ∈ consumers, pipeline.IsConsumer consumer)
    {group : List CollectionConsumers} (h : group ∈ pipeline.groupSiblings consumers) :
    pipeline.IsGroup consumers group := by
  obtain ⟨key, hGreedy⟩ := (mem_groupSiblings hConsumers).mp h
  obtain ⟨hNonempty, hSubset, hCompatible⟩ := greedyGroups_group hGreedy
  have hKey (consumer : CollectionConsumers) (hMem : consumer ∈ group) :
      pipeline.siblingKey consumer = key :=
    of_decide_eq_true (List.mem_filter.mp (hSubset hMem)).2
  refine ⟨hNonempty, ?_, fun first hFirst second hSecond =>
    (hKey first hFirst).trans (hKey second hSecond).symm, hCompatible⟩
  intro consumer hMem
  exact (mem_inOrder hConsumers).mp (List.mem_of_mem_filter (hSubset hMem))

/-- Every consumer is in a group of siblings. -/
theorem groupSiblings_cover {consumers : List CollectionConsumers}
    (hConsumers : ∀ consumer ∈ consumers, pipeline.IsConsumer consumer)
    {consumer : CollectionConsumers} (h : consumer ∈ consumers) :
    ∃ group ∈ pipeline.groupSiblings consumers, consumer ∈ group := by
  have hOrdered : consumer ∈ (CollectionConsumers.inOrder consumers).filter
      fun other => pipeline.siblingKey other = pipeline.siblingKey consumer :=
    List.mem_filter.mpr ⟨(mem_inOrder hConsumers).mpr h, decide_eq_true rfl⟩
  obtain ⟨group, hGroup, hMem⟩ := greedyGroups_cover hOrdered
  exact ⟨group, (mem_groupSiblings hConsumers).mpr ⟨_, hGroup⟩, hMem⟩

theorem isCompatibleOneWay_urn {node other : PTransformNode}
    (h : pipeline.isCompatibleOneWay node other = true) :
    transformHasSplittableProcessUrn node = false := by
  rw [isCompatibleOneWay] at h
  rw [transformHasSplittableProcessUrn]
  split at h
  · cases h
  · split at h
    next hUrn =>
      rw [hUrn]
      rfl
    · split at h
      next hUrn =>
        rcases hUrn with hCombine | hWindows
        · simp only [Urn.combineFusible, List.mem_cons, List.not_mem_nil, or_false] at hCombine
          rcases hCombine with hUrn | hUrn | hUrn <;> rw [hUrn] <;> rfl
        · rw [hWindows]
          rfl
      · cases h

/-- A transform with siblings is not a splittable process transform, so the
flag of a group is that of each of its members. -/
theorem IsGroup.splittable {consumers group : List CollectionConsumers}
    (h : pipeline.IsGroup consumers group) {consumer : CollectionConsumers} (hMem : consumer ∈ group) :
    (group.map CollectionConsumers.node).any transformHasSplittableProcessUrn =
      [consumer.node].any transformHasSplittableProcessUrn := by
  match group, h, hMem with
  | [only], _, hMem =>
      rw [List.mem_singleton.mp hMem]
      rfl
  | first :: second :: rest, h, hMem =>
      have hNone : ∀ member ∈ first :: second :: rest,
          transformHasSplittableProcessUrn member.node = false := by
        obtain ⟨hFirst, _⟩ := List.pairwise_cons.mp h.compatible
        intro member hMember
        rcases List.mem_cons.mp hMember with rfl | hLater
        · have hCompatible := hFirst second (List.mem_cons_self ..)
          rw [isCompatible, Bool.and_eq_true] at hCompatible
          exact isCompatibleOneWay_urn hCompatible.1
        · have hCompatible := hFirst member hLater
          rw [isCompatible, Bool.and_eq_true] at hCompatible
          exact isCompatibleOneWay_urn hCompatible.2
      have hAll : ((first :: second :: rest).map CollectionConsumers.node).any
          transformHasSplittableProcessUrn = false := by
        rw [List.any_eq_false]
        intro node hNode
        obtain ⟨member, hMember, rfl⟩ := List.mem_map.mp hNode
        rw [hNone member hMember]
        exact Bool.false_ne_true
      rw [hAll, List.any_cons, hNone consumer hMem]
      rfl

end QueryablePipeline
end FlareDB
