import FlareDB.Lib.KeyedStore

/-! Write-back caches over a backing store. A cell is cached with its value or
as absent. A dirty cell is one whose value the store does not hold yet. A
client sees the cached cell, and the store's cell where none is cached. -/
namespace WriteBack

open KeyedStore

variable {κ ν : Type}

structure Cache (κ ν : Type) where
  values : Store κ (Option ν)
  dirty : Store κ Unit

def Cache.empty : Cache κ ν where
  values := ∅
  dirty := ∅

variable [DecidableEq κ]

/-- What a client of the cache sees. -/
def Cache.view (cache : Cache κ ν) (store : Store κ ν) (key : κ) : Option ν :=
  (cache.values.lookup key).getD (store.lookup key)

/-- Cache a cell that was read from the store. -/
def Cache.load (cache : Cache κ ν) (key : κ) (value : Option ν) : Cache κ ν :=
  { cache with values := cache.values.insert key value }

/-- Cache a cell that the store does not hold yet. -/
def Cache.write (cache : Cache κ ν) (key : κ) (value : Option ν) : Cache κ ν where
  values := cache.values.insert key value
  dirty := cache.dirty.insert key ()

/-- Forget a cached cell. -/
def Cache.drop (cache : Cache κ ν) (key : κ) : Cache κ ν :=
  { cache with values := cache.values.erase key }

/-- The dirty cells with their values. -/
def Cache.writes (cache : Cache κ ν) : Store κ (Option ν) :=
  tabulate cache.dirty.keys cache.dirty.keys_nodup fun key => (cache.values.lookup key).join

/-- Every dirty cell is cached, and every other cached cell is the store's. -/
structure Coherent (cache : Cache κ ν) (store : Store κ ν) : Prop where
  held : ∀ key ∈ cache.dirty, key ∈ cache.values
  clean : ∀ key value, cache.values.lookup key = some value → key ∉ cache.dirty →
    value = store.lookup key

/-- An empty cache agrees with every store. -/
theorem coherent_empty (store : Store κ ν) : Coherent Cache.empty store where
  held key hMem := absurd hMem (AList.notMem_empty key)
  clean key value hValue _ := by
    rw [Cache.empty, AList.lookup_empty] at hValue
    cases hValue

@[simp] theorem view_empty (store : Store κ ν) : Cache.empty.view store = store.lookup := by
  funext key
  simp [Cache.view, Cache.empty]

theorem view_of_cached {cache : Cache κ ν} {store : Store κ ν} {key : κ} {value : Option ν}
    (h : cache.values.lookup key = some value) : cache.view store key = value := by
  rw [Cache.view, h, Option.getD_some]

theorem view_of_absent {cache : Cache κ ν} {store : Store κ ν} {key : κ}
    (h : cache.values.lookup key = none) : cache.view store key = store.lookup key := by
  rw [Cache.view, h, Option.getD_none]

namespace Coherent

variable {cache : Cache κ ν} {store : Store κ ν}

/-- A loaded value keeps the cache in agreement. -/
theorem load (h : Coherent cache store) {key : κ} (hAbsent : cache.values.lookup key = none) :
    Coherent (cache.load key (store.lookup key)) store := by
  constructor
  · intro other hDirty
    exact (AList.mem_insert _).mpr (.inr (h.held other hDirty))
  · intro other value hValue hClean
    by_cases hKey : other = key
    · subst hKey
      rw [Cache.load, AList.lookup_insert] at hValue
      exact (Option.some.inj hValue).symm
    · rw [Cache.load, AList.lookup_insert_ne hKey] at hValue
      exact h.clean other value hValue hClean

/-- And it changes nothing that is seen. -/
theorem view_load {key : κ} (hAbsent : cache.values.lookup key = none) :
    (cache.load key (store.lookup key)).view store = cache.view store := by
  funext other
  by_cases hKey : other = key
  · subst hKey
    rw [view_of_absent hAbsent]
    exact view_of_cached (AList.lookup_insert _)
  · rw [Cache.view, Cache.load, AList.lookup_insert_ne hKey]
    rfl

/-- A write keeps the cache in agreement, for its key is dirty. -/
theorem write (h : Coherent cache store) (key : κ) (value : Option ν) :
    Coherent (cache.write key value) store := by
  constructor
  · intro other hDirty
    rcases (AList.mem_insert _).mp hDirty with hKey | hBefore
    · exact (AList.mem_insert _).mpr (.inl hKey)
    · exact (AList.mem_insert _).mpr (.inr (h.held other hBefore))
  · intro other found hFound hClean
    have hKey : other ≠ key := fun hSame => hClean ((AList.mem_insert _).mpr (.inl hSame))
    have hBefore : other ∉ cache.dirty := fun hDirty => hClean ((AList.mem_insert _).mpr (.inr hDirty))
    rw [Cache.write, AList.lookup_insert_ne hKey] at hFound
    exact h.clean other found hFound hBefore

/-- What is seen of its key is the value written. -/
theorem view_write (cache : Cache κ ν) (store : Store κ ν) (key : κ) (value : Option ν) :
    (cache.write key value).view store = Function.update (cache.view store) key value := by
  funext other
  by_cases hKey : other = key
  · subst hKey
    rw [Function.update_self]
    exact view_of_cached (AList.lookup_insert _)
  · rw [Function.update_of_ne hKey, Cache.view, Cache.write, AList.lookup_insert_ne hKey]
    rfl

/-- A clean key may be dropped. -/
theorem drop (h : Coherent cache store) {key : κ} (hClean : key ∉ cache.dirty) :
    Coherent (cache.drop key) store := by
  constructor
  · intro other hDirty
    have hKey : other ≠ key := fun hSame => hClean (hSame ▸ hDirty)
    exact AList.mem_erase.mpr ⟨hKey, h.held other hDirty⟩
  · intro other value hValue hOther
    by_cases hKey : other = key
    · subst hKey
      rw [Cache.drop, AList.lookup_erase] at hValue
      cases hValue
    · rw [Cache.drop, AList.lookup_erase_ne hKey] at hValue
      exact h.clean other value hValue hOther

/-- Nothing of what is seen changes. -/
theorem view_drop (h : Coherent cache store) {key : κ} (hClean : key ∉ cache.dirty) :
    (cache.drop key).view store = cache.view store := by
  funext other
  by_cases hKey : other = key
  · subst hKey
    rw [view_of_absent (AList.lookup_erase _ _)]
    cases hValue : cache.values.lookup other with
    | none => rw [view_of_absent hValue]
    | some value => rw [view_of_cached hValue, h.clean other value hValue hClean]
  · rw [Cache.view, Cache.drop, AList.lookup_erase_ne hKey]
    rfl

/-- Writing the dirty cells makes the store what a client sees. -/
theorem lookup_flushed (h : Coherent cache store) (key : κ) :
    (applyWrites cache.writes store).lookup key = cache.view store key := by
  rw [lookup_applyWrites, Cache.writes, lookup_tabulate]
  split
  next hDirty =>
    obtain ⟨value, hValue⟩ := Option.isSome_iff_exists.mp
      (AList.lookup_isSome.mpr (h.held key hDirty))
    rw [view_of_cached hValue, hValue]
    rfl
  next hClean =>
    cases hValue : cache.values.lookup key with
    | none => exact (view_of_absent hValue).symm
    | some value =>
        rw [view_of_cached hValue, h.clean key value hValue hClean]
        rfl

/-- After a flush the store has what the cache had. -/
theorem flushed (h : Coherent cache store) :
    Coherent { cache with dirty := ∅ } (applyWrites cache.writes store) where
  held key hMem := absurd hMem (AList.notMem_empty key)
  clean key value hValue _ := by
    rw [h.lookup_flushed]
    exact (view_of_cached hValue).symm

/-- So nothing of what is seen changes. -/
theorem view_flushed (h : Coherent cache store) :
    Cache.view { cache with dirty := ∅ } (applyWrites cache.writes store) = cache.view store := by
  funext key
  rw [Cache.view, h.lookup_flushed]
  cases hValue : cache.values.lookup key with
  | none => rfl
  | some value => rw [view_of_cached hValue, Option.getD_some]

end Coherent
end WriteBack
