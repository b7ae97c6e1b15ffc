import Mathlib.Data.List.AList
import Mathlib.Data.List.Induction
import Mathlib.Algebra.Order.Group.Multiset
import Mathlib.Tactic.Abel

/-! Stores of values under unique keys, and what they hold in total. A store
that hands values out conserves them when what it holds before an operation is
what it holds after it and what was handed out. -/
namespace KeyedStore

variable {κ ν τ : Type}

abbrev Store (κ ν : Type) := AList (fun _ : κ => ν)

/-- Apply a function to every stored value, which may depend on its key. -/
def mapKeyed (f : κ → ν → ν) (store : Store κ ν) : Store κ ν where
  entries := store.entries.map fun entry => ⟨entry.1, f entry.1 entry.2⟩
  nodupKeys := by
    have hKeys : (store.entries.map fun entry =>
        (⟨entry.1, f entry.1 entry.2⟩ : Sigma fun _ : κ => ν)).keys = store.entries.keys := by
      simp [List.keys, Function.comp_def]
    rw [List.NodupKeys, hKeys]
    exact store.nodupKeys

/-- Apply a function to every stored value. -/
def mapValues (f : ν → ν) (store : Store κ ν) : Store κ ν :=
  mapKeyed (fun _ => f) store

theorem keys_mapKeyed (f : κ → ν → ν) (store : Store κ ν) :
    (mapKeyed f store).keys = store.keys := by
  simp [mapKeyed, AList.keys, List.keys, Function.comp_def]

/-- Everything a store holds, when each value holds a list of items. -/
def held (items : ν → List τ) (store : Store κ ν) : Multiset τ :=
  (store.entries.flatMap fun entry => items entry.2 : List τ)

@[simp] theorem held_empty (items : ν → List τ) : held items (∅ : Store κ ν) = 0 := rfl

/-- What the entries hold is unchanged by a map that keeps what each of them holds. -/
theorem held_mapValues {items : ν → List τ} {f : ν → ν} (h : ∀ value, items (f value) = items value)
    (store : Store κ ν) : held items (mapValues f store) = held items store := by
  simp [held, mapValues, mapKeyed, List.flatMap_map, h]

variable [DecidableEq κ]

theorem held_insert (items : ν → List τ) (key : κ) (value : ν) (store : Store κ ν) :
    held items (store.insert key value) = items value + held items (store.erase key) := rfl

/-- An entry that is found can be listed first. -/
theorem entries_perm_erase {key : κ} {value : ν} {store : Store κ ν}
    (h : store.lookup key = some value) :
    store.entries.Perm (⟨key, value⟩ :: (store.erase key).entries) := by
  have hMem : key ∈ store.entries.keys := AList.lookup_isSome.mp (by rw [h]; rfl)
  obtain ⟨found, before, after, hBefore, hEntries, hErased⟩ := List.exists_of_kerase hMem
  have hFound : found = value := by
    have hLookup : store.entries.dlookup key = some value := h
    rw [hEntries, List.dlookup_append] at hLookup
    simpa [List.dlookup_eq_none.mpr hBefore] using hLookup
  have hRest : (store.erase key).entries = before ++ after := hErased
  rw [hRest, hEntries, hFound]
  exact List.perm_middle

/-- What a store holds is what one entry holds and what the rest does. -/
theorem held_of_lookup (items : ν → List τ) {key : κ} {value : ν} {store : Store κ ν}
    (h : store.lookup key = some value) :
    held items store = items value + held items (store.erase key) :=
  Multiset.coe_eq_coe.mpr (((entries_perm_erase h).flatMap_right _).trans (by simp))

theorem erase_of_lookup_none {key : κ} {store : Store κ ν} (h : store.lookup key = none) :
    store.erase key = store :=
  AList.ext (List.kerase_of_notMem_keys (AList.lookup_eq_none.mp h))

theorem length_erase {key : κ} {value : ν} {store : Store κ ν}
    (h : store.lookup key = some value) :
    store.entries.length = (store.erase key).entries.length + 1 := by
  simpa using (entries_perm_erase h).length_eq

/-- A map over the store is read key by key. -/
theorem lookup_mapKeyed (f : κ → ν → ν) (store : Store κ ν) (key : κ) :
    (mapKeyed f store).lookup key = (store.lookup key).map (f key) := by
  obtain ⟨entries, hNodup⟩ := store
  show List.dlookup (β := fun _ => ν) key (entries.map fun entry => ⟨entry.1, f entry.1 entry.2⟩) =
    (List.dlookup (β := fun _ => ν) key entries).map (f key)
  clear hNodup
  induction entries with
  | nil => rfl
  | cons entry rest ih =>
      obtain ⟨other, value⟩ := entry
      by_cases hKey : key = other
      · subst hKey
        simp
      · rw [List.map_cons, List.dlookup_cons_ne _ _ hKey, List.dlookup_cons_ne _ _ hKey]
        exact ih

theorem lookup_mapValues (f : ν → ν) (store : Store κ ν) (key : κ) :
    (mapValues f store).lookup key = (store.lookup key).map f :=
  lookup_mapKeyed (fun _ => f) store key

/-- The entries, from the keys and their values. -/
theorem entries_eq_filterMap (store : Store κ ν) :
    store.entries = store.keys.filterMap fun key => (store.lookup key).map (Sigma.mk key) := by
  obtain ⟨entries, hNodup⟩ := store
  show entries = entries.keys.filterMap fun key => (entries.dlookup key).map (Sigma.mk key)
  induction entries with
  | nil => rfl
  | cons entry rest ih =>
      obtain ⟨key, value⟩ := entry
      rw [List.nodupKeys_cons] at hNodup
      rw [List.keys_cons, List.filterMap_cons, List.dlookup_cons_eq]
      simp only [Option.map_some]
      congr 1
      refine (ih hNodup.2).trans (List.filterMap_congr fun other hOther => ?_)
      have hNe : other ≠ key := fun hSame => hNodup.1 (hSame ▸ hOther)
      rw [List.dlookup_cons_ne _ _ hNe]

/-- Stores with the same keys in the same order and the same values are equal. -/
theorem ext_of_lookup {store other : Store κ ν} (hKeys : store.keys = other.keys)
    (hLookup : ∀ key, store.lookup key = other.lookup key) : store = other := by
  refine AList.ext ?_
  rw [entries_eq_filterMap store, entries_eq_filterMap other, hKeys]
  exact List.filterMap_congr fun key _ => by rw [hLookup key]

/-- A property of every stored value under its key. -/
def Forall (P : κ → ν → Prop) (store : Store κ ν) : Prop :=
  ∀ key value, store.lookup key = some value → P key value

theorem forall_empty (P : κ → ν → Prop) : Forall P (∅ : Store κ ν) := by
  intro key value h
  simp at h

theorem forall_of_entries {P : κ → ν → Prop} {store : Store κ ν}
    (h : ∀ entry ∈ store.entries, P entry.1 entry.2) : Forall P store :=
  fun key value hValue => h ⟨key, value⟩ (AList.mem_lookup_iff.mp hValue)

theorem Forall.entry {P : κ → ν → Prop} {store : Store κ ν} (h : Forall P store)
    {entry : Sigma fun _ : κ => ν} (hEntry : entry ∈ store.entries) : P entry.1 entry.2 :=
  h entry.1 entry.2 (AList.mem_lookup_iff.mpr hEntry)

/-- An entry that has the property may be put in. -/
theorem Forall.insert {P : κ → ν → Prop} {store : Store κ ν} (h : Forall P store) {key : κ}
    {value : ν} (hValue : P key value) : Forall P (store.insert key value) := by
  intro other found hFound
  by_cases hKey : other = key
  · subst hKey
    rw [AList.lookup_insert] at hFound
    cases hFound
    exact hValue
  · rw [AList.lookup_insert_ne hKey] at hFound
    exact h other found hFound

/-- Taking entries out keeps a property of all. -/
theorem Forall.erase {P : κ → ν → Prop} {store : Store κ ν} (h : Forall P store) (key : κ) :
    Forall P (store.erase key) := by
  intro other found hFound
  by_cases hKey : other = key
  · subst hKey
    rw [AList.lookup_erase] at hFound
    cases hFound
  · rw [AList.lookup_erase_ne hKey] at hFound
    exact h other found hFound

/-- A map that turns one property into the other does so for all entries. -/
theorem Forall.mapValues {P Q : κ → ν → Prop} {f : ν → ν} {store : Store κ ν} (h : Forall P store)
    (hf : ∀ key value, P key value → Q key (f value)) : Forall Q (mapValues f store) := by
  intro key value hValue
  rw [lookup_mapValues] at hValue
  obtain ⟨before, hBefore, rfl⟩ := Option.map_eq_some_iff.mp hValue
  exact hf key before (h key before hBefore)

/-- The store built from a list of pairs, a later pair replacing an earlier one. -/
def ofPairs (pairs : List (κ × ν)) : Store κ ν :=
  pairs.foldl (fun store pair => store.insert pair.1 pair.2) ∅

theorem ofPairs_append (pairs : List (κ × ν)) (pair : κ × ν) :
    ofPairs (pairs ++ [pair]) = (ofPairs pairs).insert pair.1 pair.2 := by
  simp [ofPairs]

/-- With distinct keys every pair is found again. -/
theorem lookup_ofPairs {pairs : List (κ × ν)} (h : (pairs.map Prod.fst).Nodup) {key : κ}
    {value : ν} (hMem : (key, value) ∈ pairs) : (ofPairs pairs).lookup key = some value := by
  induction pairs using List.reverseRecOn with
  | nil => cases hMem
  | append_singleton pairs pair ih =>
      rw [List.map_append, List.nodup_append] at h
      rw [ofPairs_append]
      rcases List.mem_append.mp hMem with hBefore | hLast
      · have hNe : key ≠ pair.1 :=
          h.2.2 key (List.mem_map_of_mem hBefore) pair.1 (by simp)
        rw [AList.lookup_insert_ne hNe]
        exact ih h.1 hBefore
      · rw [List.mem_singleton] at hLast
        subst hLast
        exact AList.lookup_insert _

theorem forall_ofPairs {P : κ → ν → Prop} {pairs : List (κ × ν)}
    (h : ∀ pair ∈ pairs, P pair.1 pair.2) : Forall P (ofPairs pairs) := by
  induction pairs using List.reverseRecOn with
  | nil => exact forall_empty P
  | append_singleton pairs pair ih =>
      rw [ofPairs_append]
      exact (ih fun other hOther => h other (by simp [hOther])).insert (h pair (by simp))

/-- What is found was among the pairs. -/
theorem mem_of_lookup_ofPairs {pairs : List (κ × ν)} {key : κ} {value : ν}
    (h : (ofPairs pairs).lookup key = some value) : (key, value) ∈ pairs :=
  forall_ofPairs (P := fun key value => (key, value) ∈ pairs) (fun _ hMem => hMem) key value h

/-- Replace the value under a key by a function of it; an absent key stays
absent. -/
def modify (key : κ) (f : ν → ν) (store : Store κ ν) : Store κ ν :=
  mapKeyed (fun other value => if other = key then f value else value) store

/-- Apply a batch of writes, each of which sets or deletes a key. -/
def applyWrites (writes : Store κ (Option ν)) (store : Store κ ν) : Store κ ν :=
  writes.entries.foldl
    (fun store write => write.2.elim (store.erase write.1) (store.insert write.1)) store

/-- Writes to distinct keys: each key is as its own write left it. -/
theorem lookup_foldl_writes {writes : List (Sigma fun _ : κ => Option ν)} (h : writes.NodupKeys)
    (store : Store κ ν) (key : κ) :
    (writes.foldl (fun store write => write.2.elim (store.erase write.1) (store.insert write.1))
      store).lookup key = (writes.dlookup key).getD (store.lookup key) := by
  induction writes generalizing store with
  | nil => rfl
  | cons write rest ih =>
      obtain ⟨written, value⟩ := write
      obtain ⟨hFresh, hRest⟩ := List.nodupKeys_cons.mp h
      rw [List.foldl_cons, ih hRest]
      by_cases hKey : key = written
      · subst hKey
        rw [List.dlookup_eq_none.mpr hFresh, List.dlookup_cons_eq]
        cases value <;> simp
      · rw [List.dlookup_cons_ne _ _ hKey]
        cases value <;> simp [hKey]

/-- The last write of a key wins; a key without one keeps its value. -/
theorem lookup_applyWrites (writes : Store κ (Option ν)) (store : Store κ ν) (key : κ) :
    (applyWrites writes store).lookup key = (writes.lookup key).getD (store.lookup key) :=
  lookup_foldl_writes writes.nodupKeys store key

/-- The store that holds a function of each of the keys. -/
def tabulate (keys : List κ) (h : keys.Nodup) (f : κ → ν) : Store κ ν where
  entries := keys.map fun key => ⟨key, f key⟩
  nodupKeys := by simpa [List.NodupKeys, List.keys, Function.comp_def] using h

/-- A table gives each of its keys the function's value. -/
theorem lookup_tabulate {keys : List κ} (h : keys.Nodup) (f : κ → ν) (key : κ) :
    (tabulate keys h f).lookup key = if key ∈ keys then some (f key) else none := by
  show List.dlookup (β := fun _ => ν) key (keys.map fun other => ⟨other, f other⟩) = _
  clear h
  induction keys with
  | nil => rfl
  | cons other keys ih =>
      by_cases hKey : key = other
      · subst hKey
        simp
      · rw [List.map_cons, List.dlookup_cons_ne _ _ hKey, ih]
        simp [hKey]

/-- The part of a store whose keys pass a test. -/
def keep (test : κ → Bool) (store : Store κ ν) : Store κ ν where
  entries := store.entries.filter fun entry => test entry.1
  nodupKeys := store.nodupKeys.sublist (List.filter_sublist)

theorem lookup_keep (test : κ → Bool) (store : Store κ ν) (key : κ) :
    (keep test store).lookup key = if test key then store.lookup key else none := by
  have hEntry : ∀ value, (keep test store).lookup key = some value ↔
      store.lookup key = some value ∧ test key = true := by
    intro value
    rw [← Option.mem_def, ← Option.mem_def, AList.mem_lookup_iff, AList.mem_lookup_iff]
    exact List.mem_filter
  refine Option.ext fun value => ?_
  rw [hEntry]
  split
  next hTest => exact and_iff_left hTest
  next hTest => simp [hTest]

theorem lookup_union (store other : Store κ ν) (key : κ) :
    (store ∪ other).lookup key = (store.lookup key).or (other.lookup key) := by
  by_cases hMem : key ∈ store
  · obtain ⟨value, hValue⟩ := Option.isSome_iff_exists.mp (AList.lookup_isSome.mpr hMem)
    rw [AList.lookup_union_left hMem, hValue, Option.some_or]
  · rw [AList.lookup_union_right hMem, AList.lookup_eq_none.mpr hMem, Option.none_or]

theorem mem_keys_iff {store : Store κ ν} {key : κ} :
    key ∈ store.keys ↔ ∃ value, store.lookup key = some value := by
  rw [← Option.isSome_iff_exists, AList.lookup_isSome, AList.mem_keys]

theorem keys_insert_fresh {store : Store κ ν} {key : κ} (h : key ∉ store.keys) (value : ν) :
    (store.insert key value).keys = key :: store.keys := by
  rw [AList.keys_insert, List.erase_of_not_mem h]

/-- A store in which nothing is found is empty. -/
theorem eq_empty_of_lookup {store : Store κ ν} (h : ∀ key, store.lookup key = none) :
    store = ∅ := by
  apply AList.ext
  refine List.eq_nil_iff_forall_not_mem.mpr ?_
  intro entry hEntry
  have hMem : entry.1 ∈ store := List.mem_keys_of_mem hEntry
  exact AList.lookup_eq_none.mp (h entry.1) hMem

end KeyedStore
