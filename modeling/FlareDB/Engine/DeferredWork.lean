import FlareDB.Engine.DispatcherEffects
import FlareDB.Engine.SdfWork

/-! Deferred work holds the output watermark. The multiset of residual holds is
the holds of the items that are queued or running, the manager's mirror covers
it at every refresh, and a join gives back exactly the holds of its item. -/
namespace FlareDB

open KeyedStore Results

namespace WatermarkManager

open StageState

variable {before middle after manager : WatermarkManager}

def SameOutput (old new : StageState) : Prop :=
  new.output = old.output

theorem sameOutput_refl (manager : WatermarkManager) : Touches SameOutput manager manager :=
  Touches.refl (R := SameOutput) (fun _ => rfl) manager

theorem sameOutput_trans (first : Touches SameOutput before middle)
    (second : Touches SameOutput middle after) : Touches SameOutput before after :=
  Touches.trans (fun old new => new.trans old) first second

/-- The residual holds stand, and no output watermark was raised past one. -/
def Clamped (before after : WatermarkManager) : Prop :=
  ∀ id new, after.stages.lookup id = some new →
    ∃ old, before.stages.lookup id = some old ∧ new.residualHolds = old.residualHolds ∧
      ∀ hold ∈ old.residualHolds, new.output ≤ max old.output hold

theorem Clamped.trans (first : Clamped before middle) (second : Clamped middle after) :
    Clamped before after := by
  intro id new hNew
  obtain ⟨current, hCurrent, hHolds, hOutput⟩ := second id new hNew
  obtain ⟨old, hOld, hSame, hBelow⟩ := first id current hCurrent
  refine ⟨old, hOld, hHolds.trans hSame, fun hold hHold => ?_⟩
  calc new.output ≤ max current.output hold := hOutput hold (hSame ▸ hHold)
    _ ≤ max old.output hold := max_le (hBelow hold hHold) (le_max_right _ _)

/-- What moves no output watermark. -/
theorem clamped_of_quiet (h : Touches (fun old new =>
    new.output = old.output ∧ new.residualHolds = old.residualHolds) before after) :
    Clamped before after := by
  intro id new hNew
  obtain ⟨old, hOld, hOutput, hHolds⟩ := h.exists_before hNew
  exact ⟨old, hOld, hHolds, fun hold _ => hOutput ▸ le_max_left _ _⟩

/-- Re-arming stages raises no output watermark past a hold. -/
theorem Rearms.clamped (h : Rearms before after) : Clamped before after := by
  apply clamped_of_quiet
  apply h.mono
  intro old new hRearmed
  exact ⟨by rw [hRearmed.1.same], hRearmed.2.2⟩

/-- A refresh stops at every hold. -/
theorem clamped_refresh (manager : WatermarkManager) : Clamped manager manager.refresh := by
  intro id new hNew
  obtain ⟨old, hOld, _, hHolds⟩ := manager.sameHolds_refresh.exists_before hNew
  refine ⟨old, hOld, hHolds, fun hold hHold => ?_⟩
  have hBound : ∀ (current : WatermarkManager) input output,
      current.computeOutput (old.withWatermarks input output) ≤ hold := by
    intro current input output
    have hAll := ((current.le_computeOutput_iff (old.withWatermarks input output) _).mp
      (le_refl _)).2.2.2
    exact ((old.withWatermarks input output).forall_minHold_iff _).mp hAll hold
      (List.mem_append_right _ hHold)
  obtain ⟨input, output, hAfter, _, hBelow⟩ := output_refresh_le hOld hBound
  rw [hNew] at hAfter
  rw [Option.some.inj hAfter]
  exact hBelow

/-- Nor do new timer holds. -/
theorem clamped_setEventTimeHolds (manager : WatermarkManager)
    (holds : Store StageId (List Timestamp)) : Clamped manager (manager.setEventTimeHolds holds) :=
  clamped_of_quiet ⟨_, manager.rewrites_mapStages _, fun _ _ => ⟨rfl, rfl⟩⟩

/-- Nor does a completion. -/
theorem clamped_markComplete (manager : WatermarkManager) (id : StageId)
    (outputMin : Option Timestamp) (inputCount : Option Nat) :
    Clamped manager (manager.markCompleteWithMinAndInput id outputMin inputCount) := by
  obtain ⟨reported, completed, hRearms, hRefreshed, hCompleted⟩ :=
    manager.markComplete_spec id outputMin inputCount
  rw [hRefreshed]
  apply Clamped.trans _ (clamped_refresh completed)
  apply hRearms.clamped.trans
  rcases hCompleted with ⟨rfl, _⟩ | ⟨stage, isEmpty, propagatedMin, _, _, hRewrites⟩
  · exact Rearms.rfl.clamped
  · apply clamped_of_quiet
    refine ⟨_, hRewrites, fun other current => ?_⟩
    rw [(reported.received_completion id stage.outputs isEmpty propagatedMin other current).same]
    split <;> exact ⟨rfl, rfl⟩

/-- Releasing empty inputs raises none past a hold. -/
theorem clamped_releaseEmptyInputHolds (manager : WatermarkManager) :
    Clamped manager manager.releaseEmptyInputHolds.1 := by
  have hReleased : Clamped manager (manager.mapStages fun _ stage => stage.releaseEmpty) :=
    clamped_of_quiet ⟨_, manager.rewrites_mapStages _, fun _ _ => ⟨rfl, rfl⟩⟩
  unfold WatermarkManager.releaseEmptyInputHolds
  simp only
  split
  · exact hReleased.trans (clamped_refresh _)
  · exact hReleased

end WatermarkManager

namespace Dispatcher

open WatermarkManager

/-- The residual holds of a stage. -/
def heldBy (dispatcher : Dispatcher) (id : StageId) : Multiset Timestamp :=
  ((dispatcher.residualHolds.lookup id).getD [] : List Timestamp)

/-- The work item a bundle processes for a stage. -/
def seedOf (id : StageId) (bundle : RunningBundle) : Option SdfWorkItem :=
  if bundle.stage = id then bundle.seed else none

/-- The work items of a stage that are queued or in flight. -/
def outstanding (dispatcher : Dispatcher) (id : StageId) : List SdfWorkItem :=
  (dispatcher.sdfQueue id).items ++ dispatcher.running.filterMap (seedOf id)

def itemHolds (items : List SdfWorkItem) : Multiset Timestamp :=
  (items.flatMap SdfWorkItem.holds : List Timestamp)

@[simp] theorem itemHolds_nil : itemHolds [] = 0 := rfl

@[simp] theorem itemHolds_append (first second : List SdfWorkItem) :
    itemHolds (first ++ second) = itemHolds first + itemHolds second := by
  simp [itemHolds]

/-- The holds of some items do not depend on their order. -/
theorem itemHolds_perm {first second : List SdfWorkItem} (h : first.Perm second) :
    itemHolds first = itemHolds second :=
  Multiset.coe_eq_coe.mpr (h.flatMap_right _)

/-- The residual holds are those of the outstanding items, only splittable
bundles process one, and the manager's mirror covers them. -/
structure Deferred (dispatcher : Dispatcher) : Prop where
  tally : ∀ id, dispatcher.heldBy id = itemHolds (dispatcher.outstanding id)
  seeds : ∀ bundle ∈ dispatcher.running, bundle.kind ≠ .splittable → bundle.seed = none
  mirror : ∀ id stage, dispatcher.manager.stages.lookup id = some stage →
    ∀ hold ∈ dispatcher.heldBy id, hold ∈ stage.residualHolds

theorem map_eq_ok {ε α β : Type} {result : Except ε α} {f : α → β} {value : β}
    (h : result.map f = .ok value) : ∃ first, result = .ok first ∧ f first = value := by
  cases result with
  | error message => cases h
  | ok first => exact ⟨first, rfl, Except.ok.inj h⟩

section Holds

variable {dispatcher next : Dispatcher}

/-- Queued items add their holds, each as often as it comes. -/
theorem heldBy_foldl_addHolds (items : List SdfWorkItem) (stage id : StageId)
    (holdsOf : Store StageId (List Timestamp)) :
    ((((items.foldl (fun holdsOf item => addHolds holdsOf stage item.holds)
      holdsOf).lookup id).getD [] : List Timestamp) : Multiset Timestamp) =
        ((holdsOf.lookup id).getD [] : List Timestamp) +
          if id = stage then itemHolds items else 0 := by
  induction items generalizing holdsOf with
  | nil => simp
  | cons item rest ih =>
      have hAdd : ((((addHolds holdsOf stage item.holds).lookup id).getD [] : List Timestamp) :
          Multiset Timestamp) = ((holdsOf.lookup id).getD [] : List Timestamp) +
            if id = stage then (item.holds : Multiset Timestamp) else 0 := by
        unfold addHolds
        split
        next hEmpty => simp [List.isEmpty_iff.mp hEmpty]
        · by_cases hId : id = stage
          · subst hId
            simp
          · simp [hId]
      have hItems : itemHolds (item :: rest) = (item.holds : Multiset Timestamp) + itemHolds rest := by
        simp [itemHolds]
      rw [List.foldl_cons, ih, hAdd, hItems]
      split
      · rw [add_assoc]
      · simp

/-- Giving holds back takes each away once. -/
theorem heldBy_removeHolds (holdsOf : Store StageId (List Timestamp)) (stage id : StageId)
    (holds : List Timestamp) :
    ((((removeHolds holdsOf stage holds).lookup id).getD [] : List Timestamp) :
        Multiset Timestamp) = ((holdsOf.lookup id).getD [] : List Timestamp) -
          if id = stage then (holds : Multiset Timestamp) else 0 := by
  unfold removeHolds
  cases hHeld : holdsOf.lookup stage with
  | none =>
      by_cases hId : id = stage
      · subst hId
        simp only [hHeld, if_true, Option.getD_none, Multiset.coe_sub, List.nil_diff]
      · simp [hId]
  | some held =>
      by_cases hId : id = stage
      · subst hId
        simp only [hHeld, if_true, Option.getD_some, Multiset.coe_sub]
        split
        next hEmpty => rw [AList.lookup_erase, List.isEmpty_iff.mp hEmpty, Option.getD_none]
        · rw [AList.lookup_insert, Option.getD_some]
      · simp only [hId, if_false, tsub_zero]
        split
        · rw [AList.lookup_erase_ne hId]
        · rw [AList.lookup_insert_ne hId]

/-- Taking the next item of a queue loses none. -/
theorem taken_perm (queue : SdfQueue) (seeds : List SdfWorkItem) :
    ((if queue.initialized then queue.items.tail else queue.items) ++
      (seeds ++ (if queue.initialized then queue.items.head? else none).toList)).Perm
        (queue.items ++ seeds) := by
  obtain ⟨initialized, registered, items⟩ := queue
  cases initialized with
  | false => simp
  | true =>
      cases items with
      | nil => simp
      | cons item items =>
          rw [← List.append_assoc]
          exact List.perm_append_singleton item _

/-- A bundle that is handed out carries the seed it was given. -/
theorem filterMap_seedOf_append (running : List RunningBundle) (bundle : RunningBundle)
    (id : StageId) : (running ++ [bundle]).filterMap (seedOf id) =
      running.filterMap (seedOf id) ++ (seedOf id bundle).toList := by
  rw [List.filterMap_append]
  cases hSeed : seedOf id bundle <;> simp [hSeed]

/-- Handing a bundle out moves at most one item from the queue to the bundle. -/
theorem spawn_outstanding {id : StageId} (h : dispatcher.spawn id = .ok next) :
    (∀ other, (next.outstanding other).Perm (dispatcher.outstanding other)) ∧
      ((∀ bundle ∈ dispatcher.running, bundle.kind ≠ .splittable → bundle.seed = none) →
        ∀ bundle ∈ next.running, bundle.kind ≠ .splittable → bundle.seed = none) := by
  unfold spawn at h
  obtain ⟨_, _, hSpawned⟩ := bind_eq_ok h
  simp only at hSpawned
  split at hSpawned
  next hKind =>
    cases hSpawned
    refine ⟨fun other => ?_, fun hSeeds bundle hBundle => ?_⟩
    · rw [outstanding, outstanding, filterMap_seedOf_append]
      by_cases hOther : other = id
      · subst hOther
        simpa [sdfQueue, seedOf] using taken_perm (dispatcher.sdfQueue other) _
      · simp [sdfQueue, seedOf, AList.lookup_insert_ne hOther, Ne.symm hOther]
    · rcases List.mem_append.mp hBundle with hOld | hNew
      · exact hSeeds bundle hOld
      · rw [List.mem_singleton.mp hNew]
        exact fun hNot => absurd hKind hNot
  next hKind =>
    cases hSpawned
    refine ⟨fun other => ?_, fun hSeeds bundle hBundle => ?_⟩
    · rw [outstanding, outstanding, filterMap_seedOf_append]
      simp [sdfQueue, seedOf]
    · rcases List.mem_append.mp hBundle with hOld | hNew
      · exact hSeeds bundle hOld
      · rw [List.mem_singleton.mp hNew]
        exact fun _ => rfl

/-- Spawning bundles moves work items from the queue into flight. -/
theorem foldlM_spawn_outstanding {ids : List StageId} (h : ids.foldlM spawn dispatcher = .ok next) :
    (∀ other, (next.outstanding other).Perm (dispatcher.outstanding other)) ∧
      ((∀ bundle ∈ dispatcher.running, bundle.kind ≠ .splittable → bundle.seed = none) →
        ∀ bundle ∈ next.running, bundle.kind ≠ .splittable → bundle.seed = none) := by
  induction ids generalizing dispatcher with
  | nil =>
      cases h
      exact ⟨fun _ => List.Perm.refl _, fun hSeeds => hSeeds⟩
  | cons id rest ih =>
      rw [List.foldlM_cons] at h
      obtain ⟨spawned, hSpawned, hRest⟩ := bind_eq_ok h
      obtain ⟨hPerm, hSeeds⟩ := spawn_outstanding hSpawned
      obtain ⟨hRestPerm, hRestSeeds⟩ := ih hRest
      exact ⟨fun other => (hRestPerm other).trans (hPerm other),
        fun hBefore => hRestSeeds (hSeeds hBefore)⟩

/-- Queueing appends the items to the queue of their stage. -/
theorem enqueueSdfItems_items {stage : StageId} {items : List SdfWorkItem}
    (h : dispatcher.enqueueSdfItems stage items = .ok next) (id : StageId) :
    (next.sdfQueue id).items =
      (dispatcher.sdfQueue id).items ++ if id = stage then items else [] := by
  unfold enqueueSdfItems at h
  simp only at h
  split at h
  next hItems =>
    cases h
    rw [List.isEmpty_iff.mp hItems, ite_self, List.append_nil]
    by_cases hId : id = stage
    · subst hId
      simp [sdfQueue]
    · simp [sdfQueue, AList.lookup_insert_ne hId]
  next hItems =>
    obtain ⟨manager, _, rfl⟩ := map_eq_ok h
    by_cases hId : id = stage
    · subst hId
      simp [sdfQueue]
    · simp [sdfQueue, AList.lookup_insert_ne hId, hId]

/-- Queued items are outstanding. -/
theorem enqueueSdfItems_outstanding {stage : StageId} {items : List SdfWorkItem}
    (h : dispatcher.enqueueSdfItems stage items = .ok next) (id : StageId) :
    (next.outstanding id).Perm (dispatcher.outstanding id ++ if id = stage then items else []) := by
  rw [outstanding, outstanding, enqueueSdfItems_items h, (enqueueSdfItems_ok h).running,
    List.append_assoc, List.append_assoc]
  exact List.perm_append_comm.append_left _

/-- Queued items add their holds to those of the stage. -/
theorem enqueueSdfItems_heldBy {stage : StageId} {items : List SdfWorkItem}
    (h : dispatcher.enqueueSdfItems stage items = .ok next) (id : StageId) :
    next.heldBy id = dispatcher.heldBy id + if id = stage then itemHolds items else 0 := by
  rw [heldBy, (enqueueSdfItems_ok h).residualHolds]
  exact heldBy_foldl_addHolds items stage id dispatcher.residualHolds

/-- Queueing work keeps the tally and mirrors the new holds at once. -/
theorem Deferred.enqueueSdfItems (hDeferred : Deferred dispatcher) {stage : StageId}
    {items : List SdfWorkItem} (h : dispatcher.enqueueSdfItems stage items = .ok next) :
    Deferred next := by
  have hQueues := enqueueSdfItems_ok h
  refine ⟨fun id => ?_, ?_, fun id state hState hold hHold => ?_⟩
  · rw [enqueueSdfItems_heldBy h, hDeferred.tally, itemHolds_perm (enqueueSdfItems_outstanding h id),
      itemHolds_append]
    split <;> rfl
  · rw [hQueues.running]
    exact hDeferred.seeds
  · rcases hQueues.manager with ⟨rfl, hSame⟩ | hRearms
    · rw [hSame] at hState
      rw [enqueueSdfItems_heldBy h, itemHolds_nil, ite_self, add_zero] at hHold
      exact hDeferred.mirror id state hState hold hHold
    · obtain ⟨middle, hMiddle, hRearmed⟩ := hRearms.exists_before hState
      obtain ⟨old, _, rfl⟩ := (rewrites_mapStages _ _).exists_before hMiddle
      rw [hRearmed.2.2]
      exact hHold

/-- Any number of split residuals, queued one after the other. -/
theorem foldlM_enqueueSdfItems_deferred {splits : List (StageId × SdfWorkItem)}
    (hDeferred : Deferred dispatcher)
    (h : splits.foldlM (fun dispatcher split => dispatcher.enqueueSdfItems split.1 [split.2])
      dispatcher = .ok next) :
    Deferred next ∧ ∀ id, next.heldBy id = dispatcher.heldBy id +
      itemHolds ((splits.filter fun split => split.1 = id).map Prod.snd) := by
  induction splits generalizing dispatcher with
  | nil =>
      cases h
      exact ⟨hDeferred, fun id => by simp⟩
  | cons split rest ih =>
      rw [List.foldlM_cons] at h
      obtain ⟨queued, hQueued, hRest⟩ := bind_eq_ok h
      obtain ⟨hNext, hHeld⟩ := ih (hDeferred.enqueueSdfItems hQueued) hRest
      refine ⟨hNext, fun id => ?_⟩
      rw [hHeld, enqueueSdfItems_heldBy hQueued, add_assoc]
      congr 1
      by_cases hId : id = split.1
      · have hItems : ((split :: rest).filter fun split => split.1 = id).map Prod.snd =
            [split.2] ++ (rest.filter fun split => split.1 = id).map Prod.snd := by
          simp [hId]
        rw [hItems, itemHolds_append, if_pos hId]
      · simp [hId, Ne.symm hId]

/-- Taking a bundle off leaves all other outstanding work. -/
theorem left_outstanding {index : Nat} {bundle : RunningBundle}
    (hBundle : dispatcher.running[index]? = some bundle) (outcome : BundleOutcome) (id : StageId) :
    (dispatcher.outstanding id).Perm
      ((seedOf id bundle).toList ++ (dispatcher.left index outcome).outstanding id) := by
  obtain ⟨hIndex, rfl⟩ := List.getElem?_eq_some_iff.mp hBundle
  have hRunning := (List.getElem_cons_eraseIdx_perm hIndex).symm.filterMap (seedOf id)
  have hFirst : (dispatcher.running[index] :: dispatcher.running.eraseIdx index).filterMap
      (seedOf id) = (seedOf id dispatcher.running[index]).toList ++
        (dispatcher.running.eraseIdx index).filterMap (seedOf id) := by
    cases hSeed : seedOf id dispatcher.running[index] <;> simp [hSeed]
  rw [hFirst] at hRunning
  have hLeft : (dispatcher.left index outcome).outstanding id = (dispatcher.sdfQueue id).items ++
      (dispatcher.running.eraseIdx index).filterMap (seedOf id) := rfl
  refine (hRunning.append_left _).trans ?_
  rw [hLeft, ← List.append_assoc, ← List.append_assoc]
  exact List.perm_append_comm.append_right _

/-- The join's bookkeeping when the item of a splittable bundle is released:
exactly the holds of the item are gone. -/
theorem Deferred.released (hDeferred : Deferred dispatcher) {index : Nat}
    {bundle : RunningBundle} (hBundle : dispatcher.running[index]? = some bundle)
    (outcome : BundleOutcome) :
    Deferred ((dispatcher.left index outcome).released bundle) ∧
      ∀ id, ((dispatcher.left index outcome).released bundle).heldBy id +
        itemHolds (seedOf id bundle).toList = dispatcher.heldBy id := by
  have hHeld : ∀ id, ((dispatcher.left index outcome).released bundle).heldBy id =
      dispatcher.heldBy id - itemHolds (seedOf id bundle).toList := by
    intro id
    refine (heldBy_removeHolds dispatcher.residualHolds bundle.stage id _).trans ?_
    have hSeed : (if id = bundle.stage then
        (((bundle.seed.map SdfWorkItem.holds).getD [] : List Timestamp) : Multiset Timestamp)
          else 0) = itemHolds (seedOf id bundle).toList := by
      unfold seedOf
      by_cases hId : id = bundle.stage
      · rw [if_pos hId, if_pos hId.symm]
        cases bundle.seed <;> simp [itemHolds]
      · rw [if_neg hId, if_neg (Ne.symm hId)]
        rfl
    rw [hSeed]
    rfl
  have hItems : ∀ id, (((dispatcher.left index outcome).released bundle).outstanding id) =
      (dispatcher.left index outcome).outstanding id := by
    intro id
    by_cases hId : id = bundle.stage
    · subst hId
      simp [outstanding, Dispatcher.released, sdfQueue]
    · simp [outstanding, Dispatcher.released, sdfQueue, AList.lookup_insert_ne hId]
  have hTally : ∀ id, dispatcher.heldBy id = itemHolds (seedOf id bundle).toList +
      itemHolds ((dispatcher.left index outcome).outstanding id) := by
    intro id
    rw [hDeferred.tally, itemHolds_perm (left_outstanding hBundle outcome id), itemHolds_append]
  refine ⟨⟨fun id => ?_, fun other hOther => ?_, fun id stage hStage hold hHold => ?_⟩, fun id => ?_⟩
  · rw [hHeld, hTally, hItems, add_tsub_cancel_left]
  · exact hDeferred.seeds other (List.mem_of_mem_eraseIdx hOther)
  · rw [hHeld] at hHold
    exact hDeferred.mirror id stage hStage hold (Multiset.mem_of_le (Multiset.sub_le_self _ _) hHold)
  · rw [hHeld, hTally, add_tsub_cancel_left, add_comm]

/-- A bundle without a work item leaves the deferred work as it is. -/
theorem Deferred.left (hDeferred : Deferred dispatcher) {index : Nat} {bundle : RunningBundle}
    (hBundle : dispatcher.running[index]? = some bundle) (hSeed : bundle.seed = none)
    (outcome : BundleOutcome) : Deferred (dispatcher.left index outcome) := by
  have hItems : ∀ id, (dispatcher.outstanding id).Perm
      ((dispatcher.left index outcome).outstanding id) := by
    intro id
    have hLeft := left_outstanding hBundle outcome id
    rwa [seedOf, hSeed, ite_self, Option.toList_none, List.nil_append] at hLeft
  refine ⟨fun id => ?_, fun other hOther => ?_, hDeferred.mirror⟩
  · rw [← itemHolds_perm (hItems id), ← hDeferred.tally]
    rfl
  · exact hDeferred.seeds other (List.mem_of_mem_eraseIdx hOther)

/-- No output watermark was raised past a hold that stands after the turn. -/
def HeldThrough (dispatcher next : Dispatcher) : Prop :=
  ∀ id new, next.manager.stages.lookup id = some new →
    ∃ old, dispatcher.manager.stages.lookup id = some old ∧
      ∀ hold ∈ next.heldBy id, new.output ≤ max old.output hold

/-- A turn that leaves the deferred work alone and whose watermarks move from a
manager with all its holds in place. -/
theorem Deferred.clamped (hDeferred : Deferred dispatcher) {held : WatermarkManager}
    (hOutput : Touches SameOutput dispatcher.manager held)
    (hMirror : ∀ id stage, held.stages.lookup id = some stage →
      ∀ hold ∈ dispatcher.heldBy id, hold ∈ stage.residualHolds)
    (hClamped : Clamped held next.manager) (hHolds : next.residualHolds = dispatcher.residualHolds)
    (hItems : ∀ id, (next.outstanding id).Perm (dispatcher.outstanding id))
    (hSeeds : ∀ bundle ∈ next.running, bundle.kind ≠ .splittable → bundle.seed = none) :
    Deferred next ∧ HeldThrough dispatcher next := by
  have hHeld : ∀ id, next.heldBy id = dispatcher.heldBy id := fun id => by
    rw [heldBy, hHolds, heldBy]
  refine ⟨⟨fun id => ?_, hSeeds, fun id new hNew hold hHold => ?_⟩, fun id new hNew => ?_⟩
  · rw [hHeld, hDeferred.tally, itemHolds_perm (hItems id)]
  · obtain ⟨middle, hMiddle, hSame, _⟩ := hClamped id new hNew
    rw [hHeld] at hHold
    rw [hSame]
    exact hMirror id middle hMiddle hold hHold
  · obtain ⟨middle, hMiddle, hSame, hBelow⟩ := hClamped id new hNew
    obtain ⟨old, hOld, hLevel⟩ := hOutput.exists_before hMiddle
    refine ⟨old, hOld, fun hold hHold => ?_⟩
    rw [hHeld] at hHold
    rw [← hLevel]
    exact hBelow hold (hMirror id middle hMiddle hold hHold)

/-- A scheduling turn gives no hold back. -/
theorem Deferred.schedule (hDeferred : Deferred dispatcher)
    (hNext : dispatcher.schedule = .ok next) : Deferred next ∧ HeldThrough dispatcher next := by
  obtain ⟨bundles, _, hHanded⟩ := schedule_ok hNext
  obtain ⟨hKeeps, hRearms⟩ := dispatcher.prepare_spec
  have hSpawned : dispatcher.chosen.foldlM spawn dispatcher.launched = .ok next := hNext
  obtain ⟨hItems, hSeeds⟩ := foldlM_spawn_outstanding hSpawned
  have hKept := hKeeps.trans dispatcher.keeps_launched
  have hReconciled : Touches SameOutput dispatcher.manager
      dispatcher.reconciled :=
    ⟨_, (rewrites_mapStages _ _).trans (rewrites_mapStages _ _), fun _ _ => rfl⟩
  have hStarted : Clamped dispatcher.prepare.manager.refresh next.manager := by
    rw [hHanded.manager]
    apply clamped_of_quiet
    refine ⟨_, dispatcher.launched_spec.2, fun id stage => ?_⟩
    rw [(StageState.begun_iterate _ stage).same]
    exact ⟨rfl, rfl⟩
  apply hDeferred.clamped hReconciled
  · intro id stage hStage hold hHold
    obtain ⟨old, _, rfl⟩ := (rewrites_mapStages _ _).exists_before hStage
    exact hHold
  · exact hRearms.clamped.trans ((clamped_refresh _).trans hStarted)
  · rw [hHanded.residualHolds, hKept.residualHolds]
  · intro id
    apply (hItems id).trans
    rw [outstanding, outstanding, sdfQueue, sdfQueue, hKept.sdfQueues, hKept.running]
  · apply hSeeds
    rw [hKept.running]
    exact hDeferred.seeds

/-- Nor does an idle turn. -/
theorem Deferred.idle (hDeferred : Deferred dispatcher) {reports : List SourceProgress}
    {now : Timestamp} (hNext : dispatcher.idle reports now = .ok next) :
    Deferred next ∧ HeldThrough dispatcher next := by
  obtain ⟨hKeeps, reported, settled, rearmed, hReported, hSettled, hRearmed, hLast⟩ := idle_ok hNext
  have hClamped : Clamped dispatcher.manager next.manager := by
    have hMiddle : Clamped reported settled := by
      rcases hSettled with rfl | rfl
      · exact Rearms.rfl.clamped
      · exact clamped_refresh reported
    have hFinal : Clamped rearmed next.manager := by
      rcases hLast with hSame | hReleased
      · rw [hSame]
        exact Rearms.rfl.clamped
      · rw [hReleased]
        exact clamped_releaseEmptyInputHolds rearmed
    exact (hReported.clamped.trans hMiddle).trans (hRearmed.clamped.trans hFinal)
  apply hDeferred.clamped (sameOutput_refl _) hDeferred.mirror hClamped
    hKeeps.residualHolds
  · intro id
    rw [outstanding, outstanding, sdfQueue, sdfQueue, hKeeps.sdfQueues, hKeeps.running]
  · rw [hKeeps.running]
    exact hDeferred.seeds

/-- Queueing items moves no output watermark. -/
theorem enqueueSdfItems_output {stage : StageId} {items : List SdfWorkItem}
    (h : dispatcher.enqueueSdfItems stage items = .ok next) :
    Touches SameOutput dispatcher.manager next.manager := by
  rcases (enqueueSdfItems_ok h).manager with ⟨_, hSame⟩ | hRearms
  · rw [hSame]
    exact sameOutput_refl _
  · obtain ⟨f, hRewrites, hRearmed⟩ := hRearms
    refine ⟨_, (rewrites_mapStages _ _).trans hRewrites, fun id old => ?_⟩
    rw [(hRearmed id _).1.same]
    rfl

/-- Nor does queueing the splits of several stages. -/
theorem foldlM_enqueueSdfItems_output {splits : List (StageId × SdfWorkItem)}
    (h : splits.foldlM (fun dispatcher split => dispatcher.enqueueSdfItems split.1 [split.2])
      dispatcher = .ok next) :
    Touches SameOutput dispatcher.manager next.manager := by
  induction splits generalizing dispatcher with
  | nil =>
      cases h
      exact sameOutput_refl _
  | cons split rest ih =>
      rw [List.foldlM_cons] at h
      obtain ⟨queued, hQueued, hRest⟩ := bind_eq_ok h
      exact sameOutput_trans (enqueueSdfItems_output hQueued)
        (ih hRest)

/-- A split adds the holds of its item. -/
theorem Deferred.split (hDeferred : Deferred dispatcher) {stage : StageId} {item : SdfWorkItem}
    (hNext : dispatcher.enqueueSdfItems stage [item] = .ok next) :
    Deferred next ∧ HeldThrough dispatcher next := by
  refine ⟨hDeferred.enqueueSdfItems hNext, fun id new hNew => ?_⟩
  obtain ⟨old, hOld, hOutput⟩ := (enqueueSdfItems_output hNext).exists_before hNew
  exact ⟨old, hOld, fun hold _ => hOutput ▸ le_max_left _ _⟩

/-- The holds a joined splittable bundle adds for a stage: of its residuals, and
of the split residuals received with it. -/
def newHolds (bundle : RunningBundle) (outcome : BundleOutcome) (id : StageId) :
    Multiset Timestamp :=
  (if id = bundle.stage then itemHolds outcome.items else 0) +
    itemHolds ((outcome.splits.filter fun split => split.1 = id).map Prod.snd)

/-- A joined bundle leaves what it has handed back, and takes its own item away. -/
theorem Deferred.joinSdf (hDeferred : Deferred dispatcher) {index : Nat} {bundle : RunningBundle}
    (hBundle : dispatcher.running[index]? = some bundle) {outcome : BundleOutcome}
    {queued : Dispatcher} (hQueued : (dispatcher.left index outcome).joinSdf bundle outcome.items
      outcome.splits = .ok queued) :
    Deferred queued ∧
      Touches SameOutput dispatcher.manager queued.manager ∧
      ∀ id, queued.heldBy id + itemHolds (seedOf id bundle).toList =
        dispatcher.heldBy id + newHolds bundle outcome id := by
  obtain ⟨residual, hResidual, hSplits⟩ := bind_eq_ok hQueued
  obtain ⟨hReleased, hHolds⟩ := hDeferred.released hBundle outcome
  obtain ⟨hDone, hHeld⟩ :=
    foldlM_enqueueSdfItems_deferred (hReleased.enqueueSdfItems hResidual) hSplits
  refine ⟨hDone, ?_, fun id => ?_⟩
  · have hOutput := enqueueSdfItems_output hResidual
    exact sameOutput_trans hOutput (foldlM_enqueueSdfItems_output hSplits)
  · rw [hHeld, enqueueSdfItems_heldBy hResidual, ← hHolds, newHolds]
    abel

/-- Moving watermarks up to the holds keeps the account. -/
theorem Deferred.withManager (hDeferred : Deferred dispatcher) {manager : WatermarkManager}
    (hClamped : Clamped dispatcher.manager manager) :
    Deferred (dispatcher.withManager manager) ∧
      HeldThrough dispatcher (dispatcher.withManager manager) :=
  hDeferred.clamped (sameOutput_refl _) hDeferred.mirror hClamped rfl
    (fun _ => List.Perm.refl _) hDeferred.seeds

/-- Marking a bundle complete moves watermarks under all the holds queued by then. -/
theorem Deferred.markComplete {queued : Dispatcher} (hDeferred : Deferred queued) (id : StageId)
    (outputMin : Option Timestamp) (inputCount : Option Nat) :
    Deferred (queued.syncEventTimeHolds.withManager
        (queued.syncEventTimeHolds.manager.markCompleteWithMinAndInput id outputMin inputCount)) ∧
      HeldThrough queued (queued.syncEventTimeHolds.withManager
        (queued.syncEventTimeHolds.manager.markCompleteWithMinAndInput id outputMin
          inputCount)) := by
  have hSynced : Clamped queued.manager queued.syncEventTimeHolds.manager :=
    clamped_setEventTimeHolds _ _
  exact hDeferred.withManager
    (hSynced.trans (clamped_markComplete _ id outputMin inputCount))

/-- A join gives back the holds of its item and nothing else. -/
theorem Deferred.join (hDeferred : Deferred dispatcher) {index : Nat} {outcome : BundleOutcome}
    (hNext : dispatcher.join index outcome = .ok next) :
    Deferred next ∧ HeldThrough dispatcher next ∧
      ∀ bundle, dispatcher.running[index]? = some bundle → ∀ id,
        next.heldBy id + itemHolds (seedOf id bundle).toList = dispatcher.heldBy id +
          if bundle.kind = .splittable then newHolds bundle outcome id else 0 := by
  obtain ⟨bundle, queued, hBundle, hQueued, outputMin, inputCount, rfl⟩ := join_cases hNext
  have hJoined : Deferred queued ∧
      Touches SameOutput dispatcher.manager queued.manager ∧
      ∀ id, queued.heldBy id + itemHolds (seedOf id bundle).toList = dispatcher.heldBy id +
        if bundle.kind = .splittable then newHolds bundle outcome id else 0 := by
    rcases hQueued with ⟨hKind, rfl⟩ | ⟨hKind, hSdf⟩
    · have hSeed := hDeferred.seeds bundle (List.mem_of_getElem? hBundle) hKind
      refine ⟨hDeferred.left hBundle hSeed outcome, sameOutput_refl _, fun id => ?_⟩
      rw [seedOf, hSeed, ite_self, if_neg hKind]
      rfl
    · simp only [hKind, if_true]
      exact hDeferred.joinSdf hBundle hSdf
  obtain ⟨hDone, hOutput, hHeld⟩ := hJoined
  obtain ⟨hKept, hThrough⟩ := hDone.markComplete bundle.stage outputMin inputCount
  refine ⟨hKept, fun id new hNew => ?_, fun found hFound => ?_⟩
  · obtain ⟨middle, hMiddle, hBelow⟩ := hThrough id new hNew
    obtain ⟨old, hOld, hLevel⟩ := hOutput.exists_before hMiddle
    exact ⟨old, hOld, fun hold hHold => hLevel ▸ hBelow hold hHold⟩
  · rw [hBundle] at hFound
    cases hFound
    exact hHeld

/-- Every turn keeps the account of holds, and passes none. -/
theorem Deferred.step (hDeferred : Deferred dispatcher) {action : DispatchAction}
    (hStep : dispatcher.step action = some next) :
    Deferred next ∧ HeldThrough dispatcher next := by
  cases action with
  | schedule => exact hDeferred.schedule (toOption_eq_some hStep)
  | split stage item =>
      simp only [Dispatcher.step] at hStep
      split at hStep
      · exact hDeferred.split (toOption_eq_some hStep)
      · cases hStep
  | join index outcome =>
      simp only [Dispatcher.step] at hStep
      split at hStep
      · obtain ⟨hKept, hThrough, _⟩ := hDeferred.join (toOption_eq_some hStep)
        exact ⟨hKept, hThrough⟩
      · cases hStep
  | idle reports now =>
      simp only [Dispatcher.step] at hStep
      split at hStep
      · exact hDeferred.idle (toOption_eq_some hStep)
      · cases hStep

/-- At the start nothing is deferred. -/
theorem deferred_start (scheduler : NodeScheduler) : Deferred (start scheduler) where
  tally _ := rfl
  seeds bundle hBundle := by cases hBundle
  mirror id stage _ hold hHold := by cases hHold

/-- Only a join gives holds back. -/
theorem heldBy_le_of_not_join {action : DispatchAction}
    (hStep : dispatcher.step action = some next)
    (hNot : ∀ index outcome, action ≠ .join index outcome) (id : StageId) :
    dispatcher.heldBy id ≤ next.heldBy id := by
  cases action with
  | schedule =>
      have hNext : dispatcher.schedule = .ok next := toOption_eq_some hStep
      obtain ⟨_, _, hHanded⟩ := schedule_ok hNext
      have hKept := dispatcher.prepare_spec.1.trans dispatcher.keeps_launched
      rw [heldBy, heldBy, hHanded.residualHolds, hKept.residualHolds]
  | split stage item =>
      simp only [Dispatcher.step] at hStep
      split at hStep
      · rw [enqueueSdfItems_heldBy (toOption_eq_some hStep)]
        exact Multiset.le_add_right _ _
      · cases hStep
  | join index outcome => exact absurd rfl (hNot index outcome)
  | idle reports now =>
      simp only [Dispatcher.step] at hStep
      split at hStep
      · rw [heldBy, heldBy, (idle_ok (toOption_eq_some hStep)).1.residualHolds]
      · cases hStep

/-- So it is in every run. -/
theorem deferred_of_reaches {scheduler : NodeScheduler}
    (hRun : Runs.Reaches Dispatcher.step (fun _ _ => True) (start scheduler) dispatcher) :
    Deferred dispatcher :=
  hRun.invariant (fun _ _ _ _ hStep hBefore => (hBefore.step hStep).1) (deferred_start scheduler)

/-- While a work item is queued or in flight, no turn raises its stage's output
watermark past a bound the item is held at; the residual holds are those of the
outstanding items; a join gives back exactly the holds of its item, and nothing
else gives any back. -/
theorem deferred_work_holds {scheduler : NodeScheduler}
    (hRun : Runs.Reaches Dispatcher.step (fun _ _ => True) (start scheduler) dispatcher) :
    (∀ action next, dispatcher.step action = some next →
      ∀ id, ∀ item ∈ next.outstanding id, ∀ splittable origin,
        item.holds = SdfOrigin.holds splittable origin →
        ∀ bound, origin.HeldBound splittable bound →
        ∀ old new, dispatcher.manager.stages.lookup id = some old →
          next.manager.stages.lookup id = some new → new.output ≤ max old.output bound) ∧
    (∀ id, dispatcher.heldBy id = itemHolds (dispatcher.outstanding id)) ∧
    (∀ index outcome next, dispatcher.step (.join index outcome) = some next →
      ∀ bundle, dispatcher.running[index]? = some bundle →
        ∀ id, next.heldBy id + itemHolds (seedOf id bundle).toList = dispatcher.heldBy id +
          if bundle.kind = .splittable then newHolds bundle outcome id else 0) ∧
    ∀ action next, dispatcher.step action = some next →
      (∀ index outcome, action ≠ .join index outcome) →
        ∀ id, dispatcher.heldBy id ≤ next.heldBy id := by
  have hDeferred := deferred_of_reaches hRun
  refine ⟨?_, hDeferred.tally, ?_, fun action next hStep => heldBy_le_of_not_join hStep⟩
  · intro action next hStep id item hItem splittable origin hHolds bound hBound old new hOld hNew
    obtain ⟨hNext, hThrough⟩ := hDeferred.step hStep
    obtain ⟨hold, hHold, hLe⟩ := exists_hold_le hBound
    have hHeld : hold ∈ next.heldBy id := by
      rw [hNext.tally, itemHolds, Multiset.mem_coe, List.mem_flatMap]
      exact ⟨item, hItem, hHolds ▸ hHold⟩
    obtain ⟨found, hFound, hBelow⟩ := hThrough id new hNew
    rw [hOld] at hFound
    cases hFound
    exact (hBelow hold hHeld).trans (max_le_max (le_refl _) hLe)
  · intro index outcome next hStep bundle hBundle
    simp only [Dispatcher.step] at hStep
    split at hStep
    · exact (hDeferred.join (toOption_eq_some hStep)).2.2 bundle hBundle
    · cases hStep

end Holds

/-- A source that finishes, and a splittable stage that reads it. -/
def readThenSplittable : NodeScheduler where
  watermarks := build [readStage, workStage .ordinary minTimestamp 1]
  nodes := ofPairs [("read", .runner), ("work", .splittable)]
  transformToStage := ∅

def workSplittable : SplittableStage where
  outputPcols := (workStage .ordinary minTimestamp 1).outputs
  outputsByTransform := ∅

/-- The splittable stage is running and has handed back whole elements with the
given event times. -/
def elementsHandedBack (timestamps : List Timestamp) : Dispatcher :=
  (Runs.play Dispatcher.step (start readThenSplittable)
    [.schedule, .join 0 ⟨some 5, 1, [], [], []⟩, .schedule,
      .split "work" ⟨[1], channelItemHolds workSplittable timestamps⟩]).getD
    (start readThenSplittable)

theorem deferred_work_holds_elementsHandedBack :
    (elementsHandedBack [7]).heldBy "work" = {7} ∧
      ∀ next, (elementsHandedBack [7]).step (.join 0 ⟨none, 1, [], [], []⟩) = some next →
        ∀ item ∈ next.outstanding "work", item.holds = channelItemHolds workSplittable [7] →
          ∀ old new, (elementsHandedBack [7]).manager.stages.lookup "work" = some old →
            next.manager.stages.lookup "work" = some new → new.output ≤ max old.output 7 := by
  have hRun : Runs.Reaches Dispatcher.step (fun _ _ => True) (start readThenSplittable)
      (elementsHandedBack [7]) :=
    Runs.reaches_getD_play (fun _ _ => trivial) (by decide +kernel) (start readThenSplittable)
  have hHolds := deferred_work_holds hRun
  refine ⟨by decide +kernel, fun next hStep item hItem hSame old new hOld hNew => ?_⟩
  refine hHolds.1 _ next hStep "work" item hItem workSplittable (.channelSplit [7]) hSame 7 ?_ old
    new hOld hNew
  exact ⟨rfl, by decide, by decide⟩

/-- A join after which the splittable stage has an item without holds queued, and its
output watermark at the end. -/
theorem raised_unheld {dispatcher : Dispatcher}
    (hBefore : (dispatcher.manager.stages.lookup "work").map StageState.output = some 5)
    (hAfter : (dispatcher.step (.join 0 ⟨none, 1, [], [], []⟩)).map (fun next =>
      ((next.manager.stages.lookup "work").map StageState.output, next.outstanding "work")) =
        some (some maxTimestamp, [⟨[1], []⟩])) :
    ∃ next old new, dispatcher.step (.join 0 ⟨none, 1, [], [], []⟩) = some next ∧
      ⟨[1], []⟩ ∈ next.outstanding "work" ∧ dispatcher.manager.stages.lookup "work" = some old ∧
      next.manager.stages.lookup "work" = some new ∧ old.output = 5 ∧
      new.output = maxTimestamp := by
  obtain ⟨old, hOld, hLevel⟩ := Option.map_eq_some_iff.mp hBefore
  obtain ⟨next, hStep, hFields⟩ := Option.map_eq_some_iff.mp hAfter
  rw [Prod.mk.injEq] at hFields
  obtain ⟨new, hNew, hRaised⟩ := Option.map_eq_some_iff.mp hFields.1
  exact ⟨next, old, new, hStep, by rw [hFields.2]; exact List.mem_singleton.mpr rfl, hOld, hNew,
    hLevel, hRaised⟩

/-- Whole elements of the global window are not held: the stage's output
watermark goes to its end while they are still queued. -/
theorem not_held_at_minTimestamp :
    ¬∀ scheduler dispatcher,
      Runs.Reaches Dispatcher.step (fun _ _ => True) (start scheduler) dispatcher →
      ∀ action next, dispatcher.step action = some next →
      ∀ id, ∀ item ∈ next.outstanding id, ∀ splittable origin,
        item.holds = SdfOrigin.holds splittable origin →
        ∀ bound, origin.LowerBound splittable bound →
        ∀ old new, dispatcher.manager.stages.lookup id = some old →
          next.manager.stages.lookup id = some new → new.output ≤ max old.output bound := by
  intro h
  have hRun : Runs.Reaches Dispatcher.step (fun _ _ => True) (start readThenSplittable)
      (elementsHandedBack [minTimestamp]) :=
    Runs.reaches_getD_play (fun _ _ => trivial) (by decide +kernel) (start readThenSplittable)
  have hBefore : ((elementsHandedBack [minTimestamp]).manager.stages.lookup "work").map
      StageState.output = some 5 := by decide +kernel
  obtain ⟨next, old, new, hStep, hItem, hOld, hNew, hLevel, hRaised⟩ :=
    raised_unheld hBefore (by decide +kernel)
  have hBelow := h readThenSplittable _ hRun _ next hStep "work" ⟨[1], []⟩ hItem workSplittable
    (.channelSplit [minTimestamp]) (by decide +kernel) minTimestamp rfl old new hOld hNew
  rw [hLevel, hRaised] at hBelow
  exact absurd hBelow (by decide +kernel)

/-- A splittable stage that writes to no other stage. -/
def silentStage : StageSpec :=
  { workStage .ordinary minTimestamp 1 with outputs := [] }

def readThenSilent : NodeScheduler :=
  { readThenSplittable with watermarks := build [readStage, silentStage] }

def silentSplittable : SplittableStage where
  outputPcols := silentStage.outputs
  outputsByTransform := ∅

/-- The stage is running and has handed back an element with event time 7. -/
def silentHandedBack : Dispatcher :=
  (Runs.play Dispatcher.step (start readThenSilent)
    [.schedule, .join 0 ⟨some 5, 1, [], [], []⟩, .schedule,
      .split "work" ⟨[1], channelItemHolds silentSplittable [7]⟩]).getD (start readThenSilent)

/-- Whole elements of a stage without boundary outputs are not held either,
whatever their event times. -/
theorem not_held_without_boundary :
    ¬∀ scheduler dispatcher,
      Runs.Reaches Dispatcher.step (fun _ _ => True) (start scheduler) dispatcher →
      ∀ action next, dispatcher.step action = some next →
      ∀ id, ∀ item ∈ next.outstanding id, ∀ splittable origin,
        item.holds = SdfOrigin.holds splittable origin →
        ∀ bound, minTimestamp < bound → origin.LowerBound splittable bound →
        ∀ old new, dispatcher.manager.stages.lookup id = some old →
          next.manager.stages.lookup id = some new → new.output ≤ max old.output bound := by
  intro h
  have hRun : Runs.Reaches Dispatcher.step (fun _ _ => True) (start readThenSilent)
      silentHandedBack :=
    Runs.reaches_getD_play (fun _ _ => trivial) (by decide +kernel) (start readThenSilent)
  have hBefore : (silentHandedBack.manager.stages.lookup "work").map StageState.output = some 5 := by
    decide +kernel
  obtain ⟨next, old, new, hStep, hItem, hOld, hNew, hLevel, hRaised⟩ :=
    raised_unheld hBefore (by decide +kernel)
  have hBelow := h readThenSilent _ hRun _ next hStep "work" ⟨[1], []⟩ hItem silentSplittable
    (.channelSplit [7]) (by decide +kernel) 7 (by decide) rfl old new hOld hNew
  rw [hLevel, hRaised] at hBelow
  exact absurd hBelow (by decide +kernel)

end Dispatcher

end FlareDB
