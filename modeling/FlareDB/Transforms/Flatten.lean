import FlareDB.Store.Scan
import Mathlib.Algebra.BigOperators.Group.Finset.Basic
import Mathlib.Algebra.Order.BigOperators.Group.Finset

/-! The runner's Flatten. An execution reads its inputs one after the other from
the cursors of its stage and then writes what it read in one batch. A cursor is
advanced by the read, so rows of an execution whose write fails are not read
again, and an input that is listed twice is read once. -/
namespace FlareDB

open FlareElementStore Runs

/-- The stage id of a Flatten, its inputs as its incoming edges list them, and
its output. -/
structure Flatten where
  stageId : String
  inputs : List String
  output : String

/-- Where an execution is: the rows it has read and the inputs it has still to
read. -/
inductive FlattenPhase where
  | idle
  | reading (merged : List WindowedValue) (remaining : List String)

structure FlattenWorld where
  store : FlareElementStore
  phase : FlattenPhase

inductive FlattenAction where
  | commit (pcollectionId : String) (rows : List WindowedValue)
  | start
  | scan (read : PaimonRead)
  | finish (writeFails : Bool)

namespace Flatten

def initial : FlattenWorld where
  store := .empty
  phase := .idle

/-- The end of an execution. Nothing is written when there is nothing to write,
and a failed write leaves the output as it was. -/
def finish (flatten : Flatten) (world : FlattenWorld) (merged : List WindowedValue)
    (writeFails : Bool) : Option FlattenWorld :=
  if merged.isEmpty then
    if writeFails then none else some { world with phase := .idle }
  else if writeFails then some { world with phase := .idle }
  else some { store := world.store.writeWindowedValueBatch flatten.output merged, phase := .idle }

/-- One step of an execution, or a commit to an input between two steps. -/
def step (flatten : Flatten) (world : FlattenWorld) : FlattenAction → Option FlattenWorld
  | .commit pcollectionId rows =>
      if pcollectionId ∈ flatten.inputs ∧
          (world.store.commitsOf pcollectionId).length + 1 < 2 ^ 63 then
        some { world with store := world.store.writeWindowedValueBatch pcollectionId rows }
      else none
  | .start => match world.phase with
      | .idle => some { world with phase := .reading [] flatten.inputs }
      | .reading _ _ => none
  | .scan read => match world.phase with
      | .reading merged (input :: remaining) =>
          (world.store.scanWindowedValuesSince read flatten.stageId input).map
            fun (store, values) => { store := store, phase := .reading (merged ++ values) remaining }
      | _ => none
  | .finish writeFails => match world.phase with
      | .reading merged [] => flatten.finish world merged writeFails
      | _ => none

end Flatten

/-- The rows an execution has read and not yet written. -/
def FlattenPhase.merged : FlattenPhase → Multiset WindowedValue
  | .idle => 0
  | .reading merged _ => (merged : List WindowedValue)

/-- The inputs an execution has still to read. -/
def FlattenPhase.remaining : FlattenPhase → List String
  | .idle => []
  | .reading _ remaining => remaining

/-- The rows of the first commits of a PCollection. -/
def consumed (store : FlareElementStore) (position : String → Nat) (pcollectionId : String) :
    Multiset WindowedValue :=
  (((store.commitsOf pcollectionId).take (position pcollectionId)).flatten : List WindowedValue)

namespace Flatten

variable (flatten : Flatten)

/-- The PCollections a Flatten reads and writes. -/
def pcollections : Set String :=
  insert flatten.output { id | id ∈ flatten.inputs }

/-- Where the cursors of the stage stand, and where the rows behind them are: in
the output, lost by a failed write, or in the execution. -/
structure Accounts (world : FlattenWorld) (position : String → Nat)
    (lost : Multiset WindowedValue) : Prop where
  readUpTo : ∀ id ∈ flatten.inputs, ReadUpTo world.store flatten.stageId id (position id)
  fits : ∀ id ∈ flatten.inputs, (world.store.commitsOf id).length < 2 ^ 63
  registered : ∀ id ∈ flatten.inputs, world.store.commitsOf id ≠ [] → id ∈ world.store.registry
  reads : ∀ id ∈ world.phase.remaining, id ∈ flatten.inputs
  total : world.store.committed flatten.output + lost + world.phase.merged =
    ∑ id ∈ flatten.inputs.toFinset, consumed world.store position id

end Flatten

section Writes

variable {ids : Set String} {store : FlareElementStore} {id other : String}

theorem commitsOf_write (hTables : Set.InjOn sanitizePcollectionId ids) (hId : id ∈ ids)
    (hOther : other ∈ ids) {rows : List WindowedValue} (hRows : rows ≠ []) :
    (store.writeWindowedValueBatch id rows).commitsOf other =
      store.commitsOf other ++ if other = id then [rows] else [] := by
  rw [commitsOf, getExistingTable_writeWindowedValueBatch store id other hRows]
  by_cases hSame : other = id
  · subst hSame
    rw [if_pos rfl, if_pos rfl]
    rfl
  · rw [if_neg fun h => hSame (hTables hOther hId h), if_neg hSame, List.append_nil]
    rfl

/-- A write leaves the cursors as they are. -/
theorem CursorIs.write {reader pcollectionId : String} {cursor : Option Int64}
    (h : CursorIs store pcollectionId reader cursor) (id : String) (rows : List WindowedValue) :
    CursorIs (store.writeWindowedValueBatch id rows) pcollectionId reader cursor := by
  have hCursors : (store.writeWindowedValueBatch id rows).cursors = store.cursors ∧
      (store.writeWindowedValueBatch id rows).cursorStore = store.cursorStore := by
    rw [writeWindowedValueBatch]
    cases (rows.map WindowedValue.timestampMillis).min? with
    | none => exact ⟨rfl, rfl⟩
    | some minTs =>
        simp only [recordCommitMinTs, ingestBatch, registerIfAbsent]
        split <;> exact ⟨rfl, rfl⟩
  refine ⟨?_, ?_⟩
  · rw [hCursors.2]
    exact h.durable
  · rw [hCursors.1]
    exact h.cached

theorem ReadUpTo.write (hTables : Set.InjOn sanitizePcollectionId ids) (hId : id ∈ ids)
    (hOther : other ∈ ids) {reader : String} {position : Nat}
    (h : ReadUpTo store reader other position) {rows : List WindowedValue} (hRows : rows ≠ []) :
    ReadUpTo (store.writeWindowedValueBatch id rows) reader other position := by
  obtain ⟨hInLog, cursor, hCursor, hAt⟩ := h
  refine ⟨?_, cursor, hCursor.write id rows, hAt⟩
  rw [commitsOf_write hTables hId hOther hRows, List.length_append]
  exact Nat.le_add_right_of_le hInLog

/-- What was read before a write stays what was read. -/
theorem consumed_write (hTables : Set.InjOn sanitizePcollectionId ids) (hId : id ∈ ids)
    (hOther : other ∈ ids) {position : String → Nat}
    (h : position other ≤ (store.commitsOf other).length) {rows : List WindowedValue}
    (hRows : rows ≠ []) :
    consumed (store.writeWindowedValueBatch id rows) position other =
      consumed store position other := by
  rw [consumed, consumed, commitsOf_write hTables hId hOther hRows,
    List.take_append_of_le_length h]

theorem committed_write (hTables : Set.InjOn sanitizePcollectionId ids) (hId : id ∈ ids)
    (hOther : other ∈ ids) {rows : List WindowedValue} (hRows : rows ≠ []) :
    (store.writeWindowedValueBatch id rows).committed other =
      store.committed other + if other = id then (rows : Multiset WindowedValue) else 0 := by
  rw [committed, committed, commitsOf_write hTables hId hOther hRows]
  by_cases hSame : other = id
  · rw [if_pos hSame, if_pos hSame]
    simp
  · rw [if_neg hSame, if_neg hSame]
    simp

end Writes

namespace Flatten

variable {flatten : Flatten} {world next : FlattenWorld} {position : String → Nat}
  {lost : Multiset WindowedValue}

theorem accounts_initial : Accounts flatten initial (fun _ => 0) 0 where
  readUpTo id _ := ⟨Nat.zero_le _, none, ⟨rfl, nofun⟩, .inl ⟨rfl, rfl⟩⟩
  fits id _ := Nat.two_pow_pos 63
  registered id _ h := absurd rfl h
  reads id h := by cases h
  total := by
    have hNone : ∀ id ∈ flatten.inputs.toFinset, consumed initial.store (fun _ => 0) id = 0 :=
      fun _ _ => rfl
    rw [Finset.sum_eq_zero hNone]
    rfl

/-- A commit to an input is not read yet. -/
theorem Accounts.commit (h : Accounts flatten world position lost)
    (hTables : Set.InjOn sanitizePcollectionId flatten.pcollections)
    (hOutput : flatten.output ∉ flatten.inputs) {id : String} {rows : List WindowedValue}
    (hStep : flatten.step world (.commit id rows) = some next) :
    Accounts flatten next position lost := by
  simp only [Flatten.step] at hStep
  split at hStep
  next hGuard =>
    cases hStep
    by_cases hRows : rows = []
    · rw [hRows, writeWindowedValueBatch_nil]
      exact h
    · have hId : id ∈ flatten.pcollections := .inr hGuard.1
      have hInput : ∀ other ∈ flatten.inputs, other ∈ flatten.pcollections := fun _ => .inr
      constructor
      · intro other hMem
        exact (h.readUpTo other hMem).write hTables hId (hInput other hMem) hRows
      · intro other hMem
        rw [commitsOf_write hTables hId (hInput other hMem) hRows]
        split
        next hSame =>
          rw [List.length_append, hSame]
          exact hGuard.2
        · rw [List.append_nil]
          exact h.fits other hMem
      · intro other hMem hSome
        rw [mem_registry_writeWindowedValueBatch]
        by_cases hSame : other = id
        · exact .inr ⟨hSame, hRows⟩
        · left
          rw [commitsOf_write hTables hId (hInput other hMem) hRows, if_neg hSame,
            List.append_nil] at hSome
          exact h.registered other hMem hSome
      · exact h.reads
      · have hOther : flatten.output ≠ id := fun hSame => hOutput (hSame ▸ hGuard.1)
        rw [committed_write hTables hId (.inl rfl) hRows, if_neg hOther, add_zero]
        refine h.total.trans (Finset.sum_congr rfl fun other hMem => ?_)
        have hIn := List.mem_toFinset.mp hMem
        exact (consumed_write hTables hId (hInput other hIn) (h.readUpTo other hIn).inLog hRows).symm
  · cases hStep

theorem Accounts.start (h : Accounts flatten world position lost)
    (hStep : flatten.step world .start = some next) : Accounts flatten next position lost := by
  simp only [Flatten.step] at hStep
  split at hStep
  next hPhase =>
    cases hStep
    refine ⟨h.readUpTo, h.fits, h.registered, fun _ hMem => hMem, ?_⟩
    have hTotal := h.total
    rw [hPhase] at hTotal
    exact hTotal
  · cases hStep

theorem sum_consumed_update {inputs : List String} {id : String} (hId : id ∈ inputs)
    (store : FlareElementStore) :
    ∑ other ∈ inputs.toFinset,
        consumed store (Function.update position id (store.commitsOf id).length) other =
      (segment (store.commitsOf id) (position id) (store.commitsOf id).length : List WindowedValue) +
        ∑ other ∈ inputs.toFinset, consumed store position other := by
  have hMem : id ∈ inputs.toFinset := List.mem_toFinset.mpr hId
  rw [← Finset.add_sum_erase _ _ hMem, ← Finset.add_sum_erase _ _ hMem, ← add_assoc]
  congr 1
  · rw [consumed, consumed, Function.update_self, segment, List.take_length, Multiset.coe_add,
      Multiset.coe_eq_coe]
    have hSplit : (store.commitsOf id).flatten =
        ((store.commitsOf id).take (position id)).flatten ++
          ((store.commitsOf id).drop (position id)).flatten := by
      rw [← List.flatten_append, List.take_append_drop]
    rw [hSplit]
    exact List.perm_append_comm
  · refine Finset.sum_congr rfl fun other hOther => ?_
    rw [consumed, consumed, Function.update_of_ne (Finset.ne_of_mem_erase hOther)]

/-- A scan brings the stage to the end of one input. -/
theorem Accounts.scan (h : Accounts flatten world position lost) {merged : List WindowedValue}
    {input : String} {remaining : List String} (hInput : input ∈ flatten.inputs)
    (hPhase : world.phase = .reading merged (input :: remaining)) {read : PaimonRead}
    (hStep : flatten.step world (.scan read) = some next) :
    ∃ more, next.phase = .reading more remaining ∧
      (∀ id, next.store.commitsOf id = world.store.commitsOf id) ∧
      Accounts flatten next
        (Function.update position input (world.store.commitsOf input).length) lost := by
  obtain ⟨after, rows, hScan, hRows, hSame, hEnd, hOthers⟩ :=
    scanWindowedValuesSince_spec (h.readUpTo input hInput) (h.fits input hInput)
      (h.registered input hInput) read
  simp only [Flatten.step, hPhase, hScan, Option.map_some, Option.some.injEq] at hStep
  subst hStep
  refine ⟨merged ++ rows, rfl, hSame.commitsOf_eq, ?_, ?_, ?_, ?_, ?_⟩
  · intro id hMem
    by_cases hId : id = input
    · subst hId
      rw [Function.update_self]
      exact hEnd
    · rw [Function.update_of_ne hId]
      exact hOthers id hId _ (h.readUpTo id hMem)
  · intro id hMem
    rw [hSame.commitsOf_eq]
    exact h.fits id hMem
  · intro id hMem hSome
    rw [hSame.commitsOf_eq] at hSome
    rw [hSame.registry]
    exact h.registered id hMem hSome
  · intro id hMem
    apply h.reads
    rw [hPhase]
    exact List.mem_cons_of_mem _ hMem
  · have hConsumed : ∀ place : String → Nat, ∀ id, consumed after place id =
        consumed world.store place id := by
      intro place id
      rw [consumed, consumed, hSame.commitsOf_eq]
    have hCommitted : after.committed flatten.output = world.store.committed flatten.output := by
      rw [committed, committed, hSame.commitsOf_eq]
    have hTotal := h.total
    rw [hPhase] at hTotal
    simp only [hConsumed]
    rw [sum_consumed_update hInput world.store, ← hTotal, hCommitted,
      ← Multiset.coe_eq_coe.mpr hRows]
    simp only [FlattenPhase.merged, ← Multiset.coe_add]
    abel

/-- The end of an execution. Rows are lost exactly by a write that fails. -/
theorem Accounts.finish (h : Accounts flatten world position lost)
    (hTables : Set.InjOn sanitizePcollectionId flatten.pcollections)
    (hOutput : flatten.output ∉ flatten.inputs) {writeFails : Bool}
    (hStep : flatten.step world (.finish writeFails) = some next) :
    ∃ more, Accounts flatten next position (lost + more) ∧ (more = 0 ↔ writeFails = false) ∧
      (∀ id ∈ flatten.inputs, next.store.commitsOf id = world.store.commitsOf id) ∧
      next.phase = .idle := by
  simp only [Flatten.step] at hStep
  split at hStep
  next merged hPhase =>
    have hTotal := h.total
    rw [hPhase] at hTotal
    rw [Flatten.finish] at hStep
    split at hStep
    next hEmpty =>
      split at hStep
      · cases hStep
      next hWrites =>
        cases hStep
        refine ⟨0, ⟨h.readUpTo, h.fits, h.registered, nofun, ?_⟩, by simpa using hWrites,
          fun _ _ => rfl, rfl⟩
        rw [List.isEmpty_iff.mp hEmpty] at hTotal
        rw [add_zero]
        exact hTotal
    next hSome =>
      have hRows : merged ≠ [] := by simpa using hSome
      split at hStep
      next hFails =>
        cases hStep
        refine ⟨(merged : Multiset WindowedValue), ⟨h.readUpTo, h.fits, h.registered, nofun, ?_⟩,
          by simp [hFails, hRows], fun _ _ => rfl, rfl⟩
        rw [← hTotal, ← add_assoc]
        exact add_zero _
      next hWrites =>
        cases hStep
        have hId : flatten.output ∈ flatten.pcollections := .inl rfl
        have hInput : ∀ other ∈ flatten.inputs, other ∈ flatten.pcollections := fun _ => .inr
        have hKept : ∀ id ∈ flatten.inputs,
            (world.store.writeWindowedValueBatch flatten.output merged).commitsOf id =
              world.store.commitsOf id := by
          intro id hMem
          have hNe : id ≠ flatten.output := fun hSame => hOutput (hSame ▸ hMem)
          rw [commitsOf_write hTables hId (hInput id hMem) hRows, if_neg hNe, List.append_nil]
        refine ⟨0, ⟨?_, ?_, ?_, nofun, ?_⟩, by simpa using hWrites, hKept, rfl⟩
        · intro id hMem
          exact (h.readUpTo id hMem).write hTables hId (hInput id hMem) hRows
        · intro id hMem
          rw [hKept id hMem]
          exact h.fits id hMem
        · intro id hMem hSome
          rw [hKept id hMem] at hSome
          rw [mem_registry_writeWindowedValueBatch]
          exact .inl (h.registered id hMem hSome)
        · have hConsumed : ∀ id ∈ flatten.inputs.toFinset,
              consumed (world.store.writeWindowedValueBatch flatten.output merged) position id =
                consumed world.store position id := by
            intro id hMem
            have hIn := List.mem_toFinset.mp hMem
            exact consumed_write hTables hId (hInput id hIn) (h.readUpTo id hIn).inLog hRows
          rw [Finset.sum_congr rfl hConsumed, ← hTotal, committed_write hTables hId hId hRows,
            if_pos rfl]
          simp only [FlattenPhase.merged]
          abel
  · cases hStep

/-- Through any steps, rows are lost exactly when a write fails. -/
theorem Accounts.play (hTables : Set.InjOn sanitizePcollectionId flatten.pcollections)
    (hOutput : flatten.output ∉ flatten.inputs) {actions : List FlattenAction}
    (h : Accounts flatten world position lost)
    (hPlay : Runs.play flatten.step world actions = some next) :
    ∃ place gone, Accounts flatten next place gone ∧
      (gone = 0 ↔ lost = 0 ∧ ∀ action ∈ actions, action ≠ .finish true) := by
  induction actions generalizing world position lost with
  | nil =>
      cases hPlay
      exact ⟨position, lost, h, by simp⟩
  | cons action actions ih =>
      obtain ⟨middle, hStep, hRest⟩ := Option.bind_eq_some_iff.mp hPlay
      cases action with
      | commit id rows =>
          obtain ⟨place, gone, hAccounts, hGone⟩ := ih (h.commit hTables hOutput hStep) hRest
          exact ⟨place, gone, hAccounts, by simpa using hGone⟩
      | start =>
          obtain ⟨place, gone, hAccounts, hGone⟩ := ih (h.start hStep) hRest
          exact ⟨place, gone, hAccounts, by simpa using hGone⟩
      | scan read =>
          obtain ⟨merged, input, remaining, hPhase⟩ : ∃ merged input remaining,
              world.phase = .reading merged (input :: remaining) := by
            simp only [Flatten.step] at hStep
            split at hStep
            next merged input remaining hPhase => exact ⟨merged, input, remaining, hPhase⟩
            · cases hStep
          have hInput : input ∈ flatten.inputs := by
            apply h.reads
            rw [hPhase]
            exact List.mem_cons_self
          obtain ⟨-, -, -, hNext⟩ := h.scan hInput hPhase hStep
          obtain ⟨place, gone, hAccounts, hGone⟩ := ih hNext hRest
          exact ⟨place, gone, hAccounts, by simpa using hGone⟩
      | finish writeFails =>
          obtain ⟨more, hNext, hMore, -, -⟩ := h.finish hTables hOutput hStep
          obtain ⟨place, gone, hAccounts, hGone⟩ := ih hNext hRest
          refine ⟨place, gone, hAccounts, ?_⟩
          rw [hGone, add_eq_zero, hMore, List.forall_mem_cons]
          cases writeFails <;> simp

/-- An execution that succeeds, without commits in between. -/
def completeRun (reads : List PaimonRead) : List FlattenAction :=
  .start :: (reads.map .scan ++ [.finish false])

/-- The reads and the end of an execution bring the stage to the end of every
input that is still to read. -/
theorem Accounts.readAll (hTables : Set.InjOn sanitizePcollectionId flatten.pcollections)
    (hOutput : flatten.output ∉ flatten.inputs) {reads : List PaimonRead}
    {merged : List WindowedValue} {remaining : List String}
    (h : Accounts flatten world position lost) (hPhase : world.phase = .reading merged remaining)
    (hEnds : ∀ id ∈ flatten.inputs,
      id ∈ remaining ∨ position id = (world.store.commitsOf id).length)
    (hPlay : Runs.play flatten.step world (reads.map .scan ++ [.finish false]) = some next) :
    ∃ place, Accounts flatten next place lost ∧ next.phase = .idle ∧
      ∀ id ∈ flatten.inputs, place id = (next.store.commitsOf id).length := by
  induction reads generalizing world position merged remaining with
  | nil =>
      obtain ⟨finished, hStep, hEnd⟩ := Option.bind_eq_some_iff.mp hPlay
      cases hEnd
      cases remaining with
      | cons input remaining => simp [Flatten.step, hPhase] at hStep
      | nil =>
          obtain ⟨more, hNext, hMore, hKept, hIdle⟩ := h.finish hTables hOutput hStep
          rw [hMore.mpr rfl, add_zero] at hNext
          refine ⟨position, hNext, hIdle, fun id hMem => ?_⟩
          rw [hKept id hMem]
          exact (hEnds id hMem).resolve_left List.not_mem_nil
  | cons read reads ih =>
      obtain ⟨middle, hStep, hRest⟩ := Option.bind_eq_some_iff.mp hPlay
      cases remaining with
      | nil => simp [Flatten.step, hPhase] at hStep
      | cons input remaining =>
          have hInput : input ∈ flatten.inputs := by
            apply h.reads
            rw [hPhase]
            exact List.mem_cons_self
          obtain ⟨more, hMiddle, hSame, hNext⟩ := h.scan hInput hPhase hStep
          refine ih hNext hMiddle (fun id hMem => ?_) hRest
          rw [hSame id]
          by_cases hId : id = input
          · subst hId
            exact .inr (Function.update_self _ _ _)
          · rw [Function.update_of_ne hId]
            exact (hEnds id hMem).imp_left fun hIn => (List.mem_cons.mp hIn).resolve_left hId

/-- What a settled stage has written and lost is the rows of its inputs, each
PCollection counted once. -/
theorem Accounts.settled (h : Accounts flatten world position lost)
    (hIdle : world.phase = .idle)
    (hEnds : ∀ id ∈ flatten.inputs, position id = (world.store.commitsOf id).length) :
    world.store.committed flatten.output + lost =
      ∑ id ∈ flatten.inputs.toFinset, world.store.committed id := by
  have hTotal := h.total
  rw [hIdle, FlattenPhase.merged, add_zero] at hTotal
  refine hTotal.trans (Finset.sum_congr rfl fun id hMem => ?_)
  rw [consumed, hEnds id (List.mem_toFinset.mp hMem), List.take_length, committed]

/-- After a last execution that succeeds, the output is the union of the listed
inputs exactly when no write has failed and no PCollection with rows is listed
more than once. -/
theorem union_exact_iff (flatten : Flatten)
    (hTables : Set.InjOn sanitizePcollectionId flatten.pcollections)
    (hOutput : flatten.output ∉ flatten.inputs) (before : List FlattenAction)
    (reads : List PaimonRead) (world : FlattenWorld)
    (hPlay : Runs.play flatten.step initial (before ++ completeRun reads) = some world) :
    world.store.committed flatten.output =
        (flatten.inputs.map world.store.committed).sum ↔
      (∀ action ∈ before, action ≠ .finish true) ∧
        ∀ id ∈ flatten.inputs, 1 < flatten.inputs.count id → world.store.committed id = 0 := by
  rw [Runs.play_append] at hPlay
  obtain ⟨middle, hBefore, hRun⟩ := Option.bind_eq_some_iff.mp hPlay
  obtain ⟨started, hStart, hReads⟩ := Option.bind_eq_some_iff.mp hRun
  obtain ⟨place, gone, hMiddle, hGone⟩ := accounts_initial.play hTables hOutput hBefore
  have hStarted := hMiddle.start hStart
  have hPhase : started.phase = .reading [] flatten.inputs := by
    simp only [Flatten.step] at hStart
    split at hStart
    · cases hStart
      rfl
    · cases hStart
  obtain ⟨last, hAccounts, hIdle, hEnds⟩ :=
    hStarted.readAll hTables hOutput hPhase (fun id hMem => .inl hMem) hReads
  have hSettled := hAccounts.settled hIdle hEnds
  have hSplit : (flatten.inputs.map world.store.committed).sum =
      ∑ id ∈ flatten.inputs.toFinset, (flatten.inputs.count id - 1) • world.store.committed id +
        ∑ id ∈ flatten.inputs.toFinset, world.store.committed id := by
    rw [Finset.sum_list_map_count, ← Finset.sum_add_distrib]
    refine Finset.sum_congr rfl fun id hMem => ?_
    have hCount : 0 < flatten.inputs.count id := List.count_pos_iff.mpr (List.mem_toFinset.mp hMem)
    rw [← succ_nsmul, Nat.sub_add_cancel hCount]
  have hExtra : ∑ id ∈ flatten.inputs.toFinset,
      (flatten.inputs.count id - 1) • world.store.committed id = 0 ↔
        ∀ id ∈ flatten.inputs, 1 < flatten.inputs.count id → world.store.committed id = 0 := by
    rw [Finset.sum_eq_zero_iff]
    constructor
    · intro hZero id hMem hCount
      have hCard := congrArg Multiset.card (hZero id (List.mem_toFinset.mpr hMem))
      rw [Multiset.card_nsmul, Multiset.card_zero, Nat.mul_eq_zero] at hCard
      exact Multiset.card_eq_zero.mp (hCard.resolve_left (by omega))
    · intro hZero id hMem
      by_cases hCount : 1 < flatten.inputs.count id
      · rw [hZero id (List.mem_toFinset.mp hMem) hCount, nsmul_zero]
      · have hOnce : flatten.inputs.count id - 1 = 0 := by omega
        rw [hOnce, zero_nsmul]
  rw [hSplit, ← hSettled, ← hExtra]
  have hGoneIff : gone = 0 ↔ ∀ action ∈ before, action ≠ .finish true := by simpa using hGone
  rw [← hGoneIff]
  constructor
  · intro hEq
    have hNothing : (0 : Multiset WindowedValue) =
        ∑ id ∈ flatten.inputs.toFinset, (flatten.inputs.count id - 1) • world.store.committed id +
          gone := by
      apply add_left_cancel (a := world.store.committed flatten.output)
      rw [add_zero, add_left_comm]
      exact hEq
    have hBoth := add_eq_zero.mp hNothing.symm
    exact ⟨hBoth.2, hBoth.1⟩
  · rintro ⟨hNone, hOnce⟩
    rw [hNone, hOnce, add_zero, zero_add]

/-- A row of the runs below. -/
def flattenRow (name : String) : WindowedValue where
  value := .primitive (.string name)
  timestampMillis := 0
  windows := [.global]
  pane := .noFiring

def flattenTwo : Flatten where
  stageId := "f"
  inputs := ["a", "b"]
  output := "out"

/-- Rows of both inputs, some of them committed after a first execution. -/
def flattenTwoActions : List FlattenAction :=
  [.commit "a" [flattenRow "1"], .start, .scan .inOrder, .commit "a" [flattenRow "2"],
    .scan .inOrder, .finish false, .commit "b" [flattenRow "3"]]

/-- Ids without unsafe characters name their own tables. -/
theorem injOn_of_safe {ids : Set String} (h : ∀ id ∈ ids, ∀ c ∈ id.toList, c ∉ unsafeChars) :
    Set.InjOn sanitizePcollectionId ids := by
  have hSelf : ∀ id ∈ ids, sanitizePcollectionId id = id := by
    intro id hMem
    rw [← String.toList_inj, sanitizePcollectionId, String.toList_map]
    conv_rhs => rw [← List.map_id id.toList]
    exact List.map_congr_left fun c hc => if_neg (h id hMem c hc)
  intro id hId other hOther hSame
  rwa [hSelf id hId, hSelf other hOther] at hSame

theorem injOn_pcollections {flatten : Flatten}
    (h : ((flatten.output :: flatten.inputs).all fun id =>
      id.toList.all fun c => decide (c ∉ unsafeChars)) = true) :
    Set.InjOn sanitizePcollectionId flatten.pcollections := by
  apply injOn_of_safe
  intro id hMem c hc
  have hIn : id ∈ flatten.output :: flatten.inputs := by
    rcases hMem with rfl | hIn
    · exact List.mem_cons_self ..
    · exact List.mem_cons_of_mem _ hIn
  exact of_decide_eq_true (List.all_eq_true.mp (List.all_eq_true.mp h id hIn) c hc)

theorem union_exact_iff_flattenTwo :
    ∃ world, Runs.play flattenTwo.step initial
        (flattenTwoActions ++ completeRun [.inOrder, .inOrder]) = some world ∧
      world.store.committed "out" = (["a", "b"].map world.store.committed).sum := by
  have hRun : (Runs.play flattenTwo.step initial
      (flattenTwoActions ++ completeRun [.inOrder, .inOrder])).isSome = true := by decide +kernel
  obtain ⟨world, hWorld⟩ := Option.isSome_iff_exists.mp hRun
  refine ⟨world, hWorld, (union_exact_iff flattenTwo (injOn_pcollections (by decide)) (by decide)
    flattenTwoActions [.inOrder, .inOrder] world hWorld).mpr ⟨?_, ?_⟩⟩
  · intro action hMem hFails
    subst hFails
    simp [flattenTwoActions] at hMem
  · intro id hMem hCount
    have hOnce : ∀ id ∈ flattenTwo.inputs, flattenTwo.inputs.count id = 1 := by decide
    rw [hOnce id hMem] at hCount
    exact absurd hCount (Nat.lt_irrefl 1)

/-- A Flatten of a PCollection with itself. -/
def flattenSelf : Flatten where
  stageId := "f"
  inputs := ["a", "a"]
  output := "out"

/-- The number of rows under an id after a run. -/
def rowsAfter (flatten : Flatten) (actions : List FlattenAction) (id : String) : Option Nat :=
  (Runs.play flatten.step initial actions).map fun world => (world.store.committed id).card

/-- A row of a PCollection that is flattened with itself is emitted once. -/
theorem not_union_exact :
    ¬ ∀ (flatten : Flatten) (before : List FlattenAction) (reads : List PaimonRead)
        (world : FlattenWorld), Set.InjOn sanitizePcollectionId flatten.pcollections →
      flatten.output ∉ flatten.inputs →
      Runs.play flatten.step initial (before ++ completeRun reads) = some world →
      world.store.committed flatten.output = (flatten.inputs.map world.store.committed).sum := by
  intro h
  have hOut : rowsAfter flattenSelf ([.commit "a" [flattenRow "1"]] ++
      completeRun [.inOrder, .inOrder]) "out" = some 1 := by decide +kernel
  have hIn : rowsAfter flattenSelf ([.commit "a" [flattenRow "1"]] ++
      completeRun [.inOrder, .inOrder]) "a" = some 1 := by decide +kernel
  obtain ⟨world, hWorld, hCard⟩ := Option.map_eq_some_iff.mp hOut
  rw [rowsAfter, hWorld, Option.map_some, Option.some.injEq] at hIn
  have hUnion := congrArg Multiset.card
    (h flattenSelf _ _ world (injOn_pcollections (by decide)) (by decide) hWorld)
  have hTwice : (flattenSelf.inputs.map world.store.committed).sum =
      world.store.committed "a" + world.store.committed "a" := by
    simp [flattenSelf]
  rw [hTwice, Multiset.card_add, hIn] at hUnion
  have hOne : (world.store.committed flattenSelf.output).card = 1 := hCard
  omega

end Flatten
end FlareDB
