import FlareDB.Engine.MultimapCell

/-! Map state: three protocol views of one cell. Every update decodes the cell,
changes its entries and encodes them again. -/
namespace FlareDB

open KeyedStore

/-! The entries. -/

/-- Insert an absent key, last and without values. -/
def addKey (entries : List MultimapEntry) (key : List UInt8) : List MultimapEntry :=
  if entries.any fun entry => entry.key == key then entries else entries ++ [⟨key, []⟩]

def addKeys (keys : List (List UInt8)) (entries : List MultimapEntry) : List MultimapEntry :=
  keys.foldl addKey entries

def addValues (mapKey : List UInt8) (values : List (List UInt8)) (entries : List MultimapEntry) :
    List MultimapEntry :=
  match entries.findIdx? fun entry => entry.key == mapKey with
  | some index => entries.modify index fun entry => { entry with values := entry.values ++ values }
  | none => entries ++ [⟨mapKey, values⟩]

def dropKey (mapKey : List UInt8) (entries : List MultimapEntry) : List MultimapEntry :=
  entries.filter fun entry => !(entry.key == mapKey)

def concatKeys (entries : List MultimapEntry) : List UInt8 :=
  entries.flatMap MultimapEntry.key

def concatValues (mapKey : List UInt8) (entries : List MultimapEntry) : List UInt8 :=
  match entries.find? fun entry => entry.key == mapKey with
  | some entry => entry.values.flatten
  | none => []

/-- Keys with a signed four-byte count before the values. -/
def concatGroups : List MultimapEntry → Except MultimapError (List UInt8)
  | [] => .ok []
  | entry :: entries =>
      if 2 ^ 31 ≤ entry.values.length then .error .tooManyValues
      else do
        let rest ← concatGroups entries
        pure (entry.key ++ BigEndian.toBytes 4 entry.values.length ++ entry.values.flatten ++ rest)

namespace MultimapState

variable (backend : StateBackend) (reading writing : Surroundings) (stateKey : StateKey)

/-- The entries of the cell; a cell that was never written has none. -/
def read : Except MultimapError (List MultimapEntry) × StateBackend :=
  match backend.get reading stateKey with
  | (.error reason, after) => (.error (.state reason), after)
  | (.ok none, after) => (.ok [], after)
  | (.ok (some data), after) => (decodeEntries data, after)

def write (entries : List MultimapEntry) : Except MultimapError Unit × StateBackend :=
  (backend.put writing stateKey (encodeEntries entries)).map (Except.mapError .state) id

/-- Read the entries and write what a function makes of them. -/
def update (change : List MultimapEntry → List MultimapEntry) :
    Except MultimapError Unit × StateBackend :=
  match read backend reading stateKey with
  | (.error reason, after) => (.error reason, after)
  | (.ok entries, after) => write after writing stateKey (change entries)

def keys : Except MultimapError (List UInt8) :=
  (read backend reading stateKey).1.map concatKeys

def values (mapKey : List UInt8) : Except MultimapError (List UInt8) :=
  (read backend reading stateKey).1.map (concatValues mapKey)

def entries : Except MultimapError (List UInt8) :=
  (read backend reading stateKey).1.bind concatGroups

def appendKeys (keys : List (List UInt8)) : Except MultimapError Unit × StateBackend :=
  update backend reading writing stateKey (addKeys keys)

def appendValues (mapKey : List UInt8) (values : List (List UInt8)) :
    Except MultimapError Unit × StateBackend :=
  update backend reading writing stateKey (addValues mapKey values)

def clearValues (mapKey : List UInt8) : Except MultimapError Unit × StateBackend :=
  update backend reading writing stateKey (dropKey mapKey)

def clear : Except MultimapError Unit × StateBackend :=
  (backend.delete writing stateKey).map (Except.mapError .state) id

end MultimapState

inductive MultimapOp where
  | appendKeys (keys : List (List UInt8))
  | appendValues (mapKey : List UInt8) (values : List (List UInt8))
  | clearValues (mapKey : List UInt8)
  | clear
deriving DecidableEq, Repr

/-- An operation with the surroundings of its read and of its write. -/
structure MultimapAction where
  op : MultimapOp
  reading : Surroundings
  writing : Surroundings

def MultimapState.step (backend : StateBackend) (stateKey : StateKey) (action : MultimapAction) :
    Except MultimapError Unit × StateBackend :=
  match action.op with
  | .appendKeys keys => appendKeys backend action.reading action.writing stateKey keys
  | .appendValues mapKey values =>
      appendValues backend action.reading action.writing stateKey mapKey values
  | .clearValues mapKey => clearValues backend action.reading action.writing stateKey mapKey
  | .clear => clear backend action.writing stateKey

/-! What a history of operations means. -/

def insertKey (keys : List (List UInt8)) (key : List UInt8) : List (List UInt8) :=
  if key ∈ keys then keys else keys ++ [key]

/-- The keys of a multimap, in the order of their insertion. -/
def orderAfter (keys : List (List UInt8)) : MultimapOp → List (List UInt8)
  | .appendKeys more => more.foldl insertKey keys
  | .appendValues mapKey _ => insertKey keys mapKey
  | .clearValues mapKey => keys.filter fun key => !(key == mapKey)
  | .clear => []

/-- The values of one key. -/
def valuesAfter (key : List UInt8) (values : List (List UInt8)) : MultimapOp → List (List UInt8)
  | .appendKeys _ => values
  | .appendValues mapKey more => if mapKey = key then values ++ more else values
  | .clearValues mapKey => if mapKey = key then [] else values
  | .clear => []

/-- The keys present after a history, by first insertion. -/
def keyOrder (history : List MultimapOp) : List (List UInt8) :=
  history.foldl orderAfter []

/-- The values appended to a key since it was last cleared. -/
def valuesOf (history : List MultimapOp) (key : List UInt8) : List (List UInt8) :=
  history.foldl (valuesAfter key) []

/-- The entries of the keys in order. -/
def entriesFrom (order : List (List UInt8)) (values : List UInt8 → List (List UInt8)) :
    List MultimapEntry :=
  order.map fun key => ⟨key, values key⟩

def entriesOf (history : List MultimapOp) : List MultimapEntry :=
  entriesFrom (keyOrder history) (valuesOf history)

/-! The operations on entries do what the history means. -/

section Entries

variable {order : List (List UInt8)} {values : List UInt8 → List (List UInt8)}

theorem any_entriesFrom (key : List UInt8) :
    ((entriesFrom order values).any fun entry => entry.key == key) = decide (key ∈ order) := by
  rw [Bool.eq_iff_iff, List.any_eq_true]
  simp [entriesFrom]

theorem nodup_insertKey (h : order.Nodup) (key : List UInt8) : (insertKey order key).Nodup := by
  rw [insertKey]
  split
  · exact h
  next hFresh =>
    apply List.nodup_append.mpr
    refine ⟨h, List.nodup_singleton key, ?_⟩
    intro other hMem last hLast hSame
    rw [hSame, List.mem_singleton.mp hLast] at hMem
    exact hFresh hMem

theorem mem_insertKey (key other : List UInt8) :
    other ∈ insertKey order key ↔ other ∈ order ∨ other = key := by
  rw [insertKey]
  split
  next hMem => exact ⟨.inl, fun h => h.elim id fun hSame => hSame ▸ hMem⟩
  · simp

/-- Adding a key to the entries adds it to their order. -/
theorem addKey_entriesFrom (hAbsent : ∀ key, key ∉ order → values key = []) (key : List UInt8) :
    addKey (entriesFrom order values) key = entriesFrom (insertKey order key) values := by
  rw [addKey, any_entriesFrom, insertKey]
  by_cases hMem : key ∈ order
  · simp [hMem]
  · simp [hMem, entriesFrom, hAbsent key hMem]

/-- So does adding several. -/
theorem addKeys_entriesFrom (hAbsent : ∀ key, key ∉ order → values key = [])
    (keys : List (List UInt8)) :
    addKeys keys (entriesFrom order values) = entriesFrom (keys.foldl insertKey order) values := by
  induction keys generalizing order with
  | nil => rfl
  | cons key keys ih =>
      have hNext : ∀ other, other ∉ insertKey order key → values other = [] := by
        intro other hOther
        exact hAbsent other fun hMem => hOther ((mem_insertKey key other).mpr (.inl hMem))
      show addKeys keys (addKey (entriesFrom order values) key) = _
      rw [addKey_entriesFrom hAbsent]
      exact ih hNext

theorem addValues_cons_ne {mapKey : List UInt8} {more : List (List UInt8)} {entry : MultimapEntry}
    {rest : List MultimapEntry} (h : entry.key ≠ mapKey) :
    addValues mapKey more (entry :: rest) = entry :: addValues mapKey more rest := by
  rw [addValues, addValues, List.findIdx?_cons]
  have hKey : (entry.key == mapKey) = false := beq_false_of_ne h
  rw [hKey]
  cases List.findIdx? (fun entry => entry.key == mapKey) rest with
  | none => rfl
  | some index => rfl

/-- Values are added to the entry of their key. -/
theorem addValues_cons_eq {mapKey : List UInt8} {more : List (List UInt8)} {entry : MultimapEntry}
    {rest : List MultimapEntry} (h : entry.key = mapKey) :
    addValues mapKey more (entry :: rest) =
      { entry with values := entry.values ++ more } :: rest := by
  rw [addValues, List.findIdx?_cons]
  have hKey : (entry.key == mapKey) = true := beq_iff_eq.mpr h
  rw [hKey]
  rfl

/-- Added values come after those of their key. -/
theorem addValues_entriesFrom (hNodup : order.Nodup) (mapKey : List UInt8)
    (hAbsent : mapKey ∉ order → values mapKey = []) (more : List (List UInt8)) :
    addValues mapKey more (entriesFrom order values) =
      entriesFrom (insertKey order mapKey)
        fun key => if mapKey = key then values key ++ more else values key := by
  induction order with
  | nil => simp [entriesFrom, addValues, insertKey, hAbsent]
  | cons first rest ih =>
      obtain ⟨hFresh, hRest⟩ := List.nodup_cons.mp hNodup
      by_cases hKey : first = mapKey
      · subst hKey
        have hTail : (entriesFrom rest fun key => if first = key then values key ++ more
            else values key) = entriesFrom rest values := by
          refine List.map_congr_left fun key hMem => ?_
          have hNe : first ≠ key := by
            intro hSame
            rw [hSame] at hFresh
            exact hFresh hMem
          exact congrArg (MultimapEntry.mk key) (if_neg hNe)
        have hHead : addValues first more (⟨first, values first⟩ :: entriesFrom rest values) =
            ⟨first, values first ++ more⟩ :: entriesFrom rest values := addValues_cons_eq rfl
        rw [insertKey, if_pos (by simp)]
        refine hHead.trans ?_
        rw [← hTail]
        simp [entriesFrom]
      · have hAbsentRest : mapKey ∉ rest → values mapKey = [] := by
          intro hOut
          exact hAbsent fun hMem => (List.mem_cons.mp hMem).elim (fun hSame => hKey hSame.symm) hOut
        have hOrder : insertKey (first :: rest) mapKey = first :: insertKey rest mapKey := by
          have hSplit : mapKey ∈ first :: rest ↔ mapKey ∈ rest := by simp [Ne.symm hKey]
          by_cases hMem : mapKey ∈ rest
          · rw [insertKey, insertKey, if_pos (hSplit.mpr hMem), if_pos hMem]
          · rw [insertKey, insertKey, if_neg (fun hIn => hMem (hSplit.mp hIn)), if_neg hMem]
            rfl
        show addValues mapKey more (⟨first, values first⟩ :: entriesFrom rest values) = _
        rw [addValues_cons_ne hKey, ih hRest hAbsentRest, hOrder]
        simp [entriesFrom, Ne.symm hKey]

/-- Dropping a key takes it and its values out. -/
theorem dropKey_entriesFrom (mapKey : List UInt8) :
    dropKey mapKey (entriesFrom order values) =
      entriesFrom (order.filter fun key => !(key == mapKey))
        fun key => if mapKey = key then [] else values key := by
  rw [dropKey, entriesFrom, List.filter_map]
  refine List.map_congr_left fun key hMem => ?_
  have hNe : key ≠ mapKey := by simpa using (List.mem_filter.mp hMem).2
  exact congrArg (MultimapEntry.mk key) (if_neg (Ne.symm hNe)).symm

/-- The values of a key are read in order. -/
theorem concatValues_entriesFrom (key : List UInt8) (hAbsent : key ∉ order → values key = []) :
    concatValues key (entriesFrom order values) = (values key).flatten := by
  rw [concatValues, entriesFrom, List.find?_map]
  have hSame : (fun entry : MultimapEntry => entry.key == key) ∘
      (fun other => (⟨other, values other⟩ : MultimapEntry)) = fun other => other == key := rfl
  rw [hSame]
  cases hFind : order.find? fun other => other == key with
  | some other =>
      have hKey : other = key := by simpa using List.find?_some hFind
      rw [hKey]
      rfl
  | none =>
      have hOut : key ∉ order := by
        intro hMem
        simpa using List.find?_eq_none.mp hFind key hMem
      rw [hAbsent hOut]
      rfl

/-- The groups are written key by key. -/
theorem concatGroups_entriesFrom (h : ∀ key ∈ order, (values key).length < 2 ^ 31) :
    concatGroups (entriesFrom order values) = .ok (order.flatMap fun key =>
      key ++ BigEndian.toBytes 4 (values key).length ++ (values key).flatten) := by
  induction order with
  | nil => rfl
  | cons first rest ih =>
      have hFirst := h first (by simp)
      have hRest := ih fun key hMem => h key (by simp [hMem])
      show concatGroups (⟨first, values first⟩ :: entriesFrom rest values) = _
      rw [concatGroups, if_neg (by simpa using hFirst), hRest]
      rfl

end Entries

end FlareDB
