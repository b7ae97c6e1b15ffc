import FlareDB.Engine.Watermark.Protocol
import FlareDB.Engine.Timer

/-! The scheduler over a watermark manager: which bundles it starts, what a
completion does, and how due timers re-arm the stages that own them. -/
namespace FlareDB

open KeyedStore

/-- What runs a stage. -/
inductive NodeKind where
  | worker
  | runner
  | splittable
deriving DecidableEq, Repr

/-- Queue fired timers for the next bundle of a stage. -/
def queueTimers (pendingTimers : Store StageId (List TimerEntry)) (stage : StageId)
    (timers : List TimerEntry) : Store StageId (List TimerEntry) :=
  pendingTimers.insert stage ((pendingTimers.lookup stage).getD [] ++ timers)

structure NodeScheduler where
  watermarks : WatermarkManager
  nodes : Store StageId NodeKind
  transformToStage : Store String StageId

namespace WatermarkManager

variable (manager : WatermarkManager)

def isSource (id : StageId) : Bool :=
  ((manager.stages.lookup id).map StageState.isSource).getD false

/-- Whether completing one bundle finishes a source. -/
def sourceAutoFinishes (id : StageId) : Bool :=
  (((manager.stages.lookup id).bind StageState.source).map SourceState.autoFinish).getD true

def queuedBundles (id : StageId) : Nat :=
  ((manager.stages.lookup id).map StageState.queued).getD 0

def inFlightBundles (id : StageId) : Nat :=
  ((manager.stages.lookup id).map StageState.inFlight).getD 0

def maxInFlight (id : StageId) : Nat :=
  ((manager.stages.lookup id).map StageState.maxInFlight).getD 1

/-- The watermark a bundle decides window readiness with. -/
def bundleInputWatermark (id : StageId) : Option Timestamp :=
  (manager.stages.lookup id).map StageState.watermarkAtLastRun

def effectiveInputWatermark (id : StageId) : Option Timestamp :=
  (manager.stages.lookup id).map StageState.effectiveInput

/-- Start bundles of a ready stage: one, and more while work items are queued.
The fuel bounds the number of bundles a stage may have in flight. -/
def startBundles (id : StageId) : Nat → WatermarkManager × List StageId →
    WatermarkManager × List StageId
  | 0, state => state
  | fuel + 1, (manager, next) =>
      match manager.startBundle id with
      | .error _ => (manager, next)
      | .ok started =>
          if started.queuedBundles id = 0 then (started, next ++ [id])
          else startBundles id fuel (started, next ++ [id])

/-- Mark a bundle complete and refresh. A bounded source is finished by its
completion. -/
def markCompleteWithMinAndInput (id : StageId) (outputMin : Option Timestamp)
    (inputCount : Option Nat) : WatermarkManager :=
  let reported :=
    if manager.isSource id && manager.sourceAutoFinishes id then
      (manager.reportSourceFinished id).toOption.getD manager
    else manager
  let completed := ((reported.completeBundleWithMinAndInput id outputMin inputCount).map
    Prod.fst).toOption.getD reported
  completed.refresh

end WatermarkManager

namespace WatermarkManager

/-- The bundles of a stage that are started, and what that does to it. -/
theorem startBundles_spec (id : StageId) (fuel : Nat) (manager : WatermarkManager)
    (next : List StageId) :
    ∃ count, (startBundles id fuel (manager, next)).2 = next ++ List.replicate count id ∧
      Rewrites (fun other stage =>
        if other = id then StageState.started^[count] stage else stage) manager
          (startBundles id fuel (manager, next)).1 ∧
      Effects manager (startBundles id fuel (manager, next)).1 := by
  induction fuel generalizing manager next with
  | zero =>
      refine ⟨0, by simp [startBundles], ?_, Relation.ReflTransGen.refl⟩
      exact (Rewrites.refl manager).congr fun other stage _ => by simp
  | succ fuel ih =>
      rw [startBundles]
      split
      · refine ⟨0, by simp, ?_, Relation.ReflTransGen.refl⟩
        exact (Rewrites.refl manager).congr fun other stage _ => by simp
      next started hStarted =>
        obtain ⟨stage, hStage, hStart, hRewrites⟩ := startBundle_ok hStarted
        have hEffect : Effect manager started := .changed (.started id stage hStage hStart hRewrites)
        split
        · refine ⟨1, by simp, ?_, .single hEffect⟩
          exact hRewrites.congr fun other stage _ => by simp
        · obtain ⟨count, hNext, hRest, hEffects⟩ := ih started (next ++ [id])
          refine ⟨count + 1, ?_, ?_, Relation.ReflTransGen.head hEffect hEffects⟩
          · rw [hNext, List.append_assoc, List.replicate_succ]
            rfl
          · refine (hRewrites.trans hRest).congr fun other stage _ => ?_
            by_cases hId : other = id <;> simp [hId]

/-- The fuel is enough: a stage is refused once it has its maximum number of
bundles in flight. -/
theorem startBundles_fuel (id : StageId) {fuel : Nat} (more : Nat) {manager : WatermarkManager}
    (hFuel : manager.maxInFlight id - manager.inFlightBundles id < fuel) (next : List StageId) :
    startBundles id (fuel + more) (manager, next) = startBundles id fuel (manager, next) := by
  induction fuel generalizing manager next with
  | zero => exact absurd hFuel (Nat.not_lt_zero _)
  | succ fuel ih =>
      rw [Nat.succ_add, startBundles, startBundles]
      cases hStarted : manager.startBundle id with
      | error message => rfl
      | ok started =>
          simp only
          split
          · rfl
          · refine ih ?_ (next ++ [id])
            obtain ⟨stage, hStage, hStart, hRewrites⟩ := startBundle_ok hStarted
            have hAfter := hRewrites.lookup_of_before hStage
            rw [if_pos rfl] at hAfter
            have hMax : stage.started.maxInFlight = stage.maxInFlight := by
              rw [stage.begun_started.same]
            have hRoom : ¬stage.maxInFlight ≤ stage.inFlight := by
              intro hFull
              simp [StageState.startError, hFull] at hStart
            simp only [maxInFlight, inFlightBundles, hStage, hAfter, Option.map_some,
              Option.getD_some, StageState.inFlight_started, hMax] at hFuel ⊢
            omega

theorem foldl_startBundles_spec (ids : List StageId) (state : WatermarkManager × List StageId) :
    ∃ handed, (ids.foldl (fun state id =>
        startBundles id (state.1.maxInFlight id + 1) state) state).2 = state.2 ++ handed ∧
      (∀ id ∈ handed, id ∈ ids) ∧
      Rewrites (fun id stage => StageState.started^[handed.count id] stage) state.1
        (ids.foldl (fun state id => startBundles id (state.1.maxInFlight id + 1) state) state).1 ∧
      Effects state.1
        (ids.foldl (fun state id =>
          startBundles id (state.1.maxInFlight id + 1) state) state).1 := by
  induction ids generalizing state with
  | nil =>
      exact ⟨[], by simp, by simp, Rewrites.refl state.1, Relation.ReflTransGen.refl⟩
  | cons id rest ih =>
      obtain ⟨manager, next⟩ := state
      rw [List.foldl_cons]
      obtain ⟨count, hFirst, hRewrites, hEffects⟩ :=
        startBundles_spec id (manager.maxInFlight id + 1) manager next
      obtain ⟨handed, hHanded, hMem, hRest, hRestEffects⟩ :=
        ih (startBundles id (manager.maxInFlight id + 1) (manager, next))
      refine ⟨List.replicate count id ++ handed, ?_, ?_, ?_, hEffects.trans hRestEffects⟩
      · rw [hHanded, hFirst, List.append_assoc]
      · intro other hOther
        rcases List.mem_append.mp hOther with hNew | hOld
        · rw [List.eq_of_mem_replicate hNew]
          exact List.mem_cons_self
        · exact List.mem_cons_of_mem _ (hMem other hOld)
      · refine (hRewrites.trans hRest).congr fun other stage _ => ?_
        rw [List.count_append, List.count_replicate]
        by_cases hId : other = id
        · subst hId
          rw [if_pos rfl, beq_self_eq_true, if_pos rfl, Nat.add_comm,
            Function.iterate_add_apply]
        · have hNe : (id == other) = false := by simpa using Ne.symm hId
          rw [if_neg hId, hNe]
          simp

end WatermarkManager

namespace StageState

variable {stage : StageState} {id : StageId}

/-- A stage that may run is not refused: its effective watermark is not past its
input watermark. -/
theorem startError_of_ready (h : stage.isReadyWithoutUpstreamBarrier = true) :
    stage.startError id = none := by
  unfold isReadyWithoutUpstreamBarrier at h
  split at h
  · cases h
  next hBarriers =>
    split at h
    · cases h
    next hFirst =>
      split at h
      · cases h
      next hWork =>
        rw [not_or, not_or, not_not, not_not] at hBarriers
        unfold startError
        rw [if_neg hBarriers.1, if_neg hFirst, if_neg, if_neg (by simp [hBarriers.2.1])]
        rintro ⟨hCompleted, hRerun, hQueued, hGate, hPending⟩
        refine hWork ?_
        have hBelow : ¬(stage.kind = .watermarkGated ∧
            stage.watermarkAtLastRun < stage.effectiveInput) :=
          fun hAdvanced => hGate ⟨hAdvanced.1, hAdvanced.2.trans_le (min_le_left _ _)⟩
        simpa [hasWork, hCompleted, hRerun, hQueued, hPending] using hBelow

theorem queued_started (stage : StageState) : stage.started.queued = stage.queued - 1 := by
  unfold started
  split <;> rfl

theorem maxInFlight_started (stage : StageState) :
    stage.started.maxInFlight = stage.maxInFlight := by
  rw [stage.begun_started.same]

theorem room_of_startError (h : stage.startError id = none) :
    stage.inFlight < stage.maxInFlight := by
  by_contra hFull
  simp [startError, Nat.not_lt.mp hFull] at h

/-- A started stage with work items left and room for a bundle is not refused. -/
theorem startError_started (h : stage.startError id = none) (hQueued : 1 < stage.queued)
    (hRoom : stage.inFlight + 1 < stage.maxInFlight) : stage.started.startError id = none := by
  have hProduced : stage.unproduced = ∅ := by
    by_contra hAwaited
    unfold startError at h
    split_ifs at h
  have hStill : stage.started.unproduced = ∅ := by
    rw [stage.begun_started.same, hProduced]
  unfold startError
  rw [stage.inFlight_started, stage.queued_started, stage.maxInFlight_started, hStill,
    if_neg (by omega), if_neg (by omega), if_neg (by omega), if_neg (by simp)]

end StageState

namespace WatermarkManager

variable {manager : WatermarkManager} {id : StageId} {stage : StageState}

theorem startBundles_succ (hStage : manager.stages.lookup id = some stage)
    (hStart : stage.startError id = none) (fuel : Nat) (next : List StageId) :
    startBundles id (fuel + 1) (manager, next) =
      if stage.queued - 1 = 0 then (manager.modifyStage id StageState.started, next ++ [id])
      else startBundles id fuel (manager.modifyStage id StageState.started, next ++ [id]) := by
  have hStarted : manager.startBundle id = .ok (manager.modifyStage id StageState.started) := by
    simp only [startBundle, hStage, hStart]
  have hAfter := (manager.rewrites_modifyStage id StageState.started).lookup_of_before hStage
  rw [if_pos rfl] at hAfter
  have hQueued : (manager.modifyStage id StageState.started).queuedBundles id =
      stage.queued - 1 := by
    rw [queuedBundles, hAfter, Option.map_some, Option.getD_some, StageState.queued_started]
  rw [startBundles, hStarted]
  simp only [hQueued]

/-- A stage that is not refused is started once, and again while work items and
room are left. -/
theorem startBundles_count (hStage : manager.stages.lookup id = some stage)
    (hStart : stage.startError id = none) (fuel : Nat) (next : List StageId) :
    (startBundles id (fuel + 1) (manager, next)).2 = next ++ List.replicate
      (min (fuel + 1) (min (stage.maxInFlight - stage.inFlight) (max 1 stage.queued))) id := by
  induction fuel generalizing manager stage next with
  | zero =>
      have hRoom := StageState.room_of_startError hStart
      have hOne : min (0 + 1) (min (stage.maxInFlight - stage.inFlight) (max 1 stage.queued)) =
          1 := by omega
      rw [startBundles_succ hStage hStart, hOne, List.replicate_one, startBundles, ite_self]
  | succ fuel ih =>
      have hRoom := StageState.room_of_startError hStart
      have hAfter := (manager.rewrites_modifyStage id StageState.started).lookup_of_before hStage
      rw [if_pos rfl] at hAfter
      rw [startBundles_succ hStage hStart]
      split
      next hDrained =>
        have hOne : min (fuel + 1 + 1)
            (min (stage.maxInFlight - stage.inFlight) (max 1 stage.queued)) = 1 := by omega
        rw [hOne, List.replicate_one]
      next hMore =>
        by_cases hFull : stage.maxInFlight ≤ stage.inFlight + 1
        · have hRefused : stage.started.startError id =
              some ("stage '" ++ id ++ "' already has its maximum number of bundles in flight") := by
            rw [StageState.startError, stage.inFlight_started, stage.maxInFlight_started,
              if_pos hFull]
          have hOne : min (fuel + 1 + 1)
              (min (stage.maxInFlight - stage.inFlight) (max 1 stage.queued)) = 1 := by omega
          rw [startBundles, startBundle, hAfter, hOne, List.replicate_one]
          simp only [hRefused]
        · rw [ih hAfter (StageState.startError_started hStart (by omega) (by omega)),
            stage.inFlight_started, stage.maxInFlight_started, stage.queued_started,
            List.append_assoc]
          have hSucc : min (fuel + 1 + 1)
              (min (stage.maxInFlight - stage.inFlight) (max 1 stage.queued)) =
                min (fuel + 1) (min (stage.maxInFlight - (stage.inFlight + 1))
                  (max 1 (stage.queued - 1))) + 1 := by omega
          rw [hSucc, List.replicate_succ]
          rfl

/-- A stage that is not refused is started as often among the stages to start. -/
theorem count_foldl_startBundles {ids : List StageId} (hNodup : ids.Nodup) (hId : id ∈ ids)
    (hStage : manager.stages.lookup id = some stage) (hStart : stage.startError id = none) :
    (ids.foldl (fun state id => startBundles id (state.1.maxInFlight id + 1) state)
      (manager, [])).2.count id =
        min (stage.maxInFlight - stage.inFlight) (max 1 stage.queued) := by
  obtain ⟨first, rest, rfl⟩ := List.append_of_mem hId
  obtain ⟨_, hRestNodup, hDisjoint⟩ := List.nodup_append.mp hNodup
  have hNotRest : id ∉ rest := (List.nodup_cons.mp hRestNodup).1
  have hNotFirst : id ∉ first := fun hMem => hDisjoint id hMem id List.mem_cons_self rfl
  rw [List.foldl_append, List.foldl_cons]
  obtain ⟨handed, hHanded, hMem, hRewrites, _⟩ := foldl_startBundles_spec first (manager, [])
  have hNone : handed.count id = 0 := List.count_eq_zero.mpr fun h => hNotFirst (hMem id h)
  generalize first.foldl (fun state id => startBundles id (state.1.maxInFlight id + 1) state)
    (manager, []) = state at hHanded hRewrites ⊢
  obtain ⟨started, next⟩ := state
  have hStill : started.stages.lookup id = some stage := by
    have hLookup := hRewrites.lookup_of_before hStage
    simpa [hNone] using hLookup
  have hMax : started.maxInFlight id = stage.maxInFlight := by
    rw [maxInFlight, hStill]
    rfl
  have hOwn := startBundles_count hStill hStart (started.maxInFlight id) next
  rw [hMax] at hOwn
  simp only [hMax]
  generalize startBundles id (stage.maxInFlight + 1) (started, next) = own at hOwn ⊢
  obtain ⟨others, hOthers, hOthersMem, _⟩ := foldl_startBundles_spec rest own
  have hNext : next = handed := hHanded
  have hOthersNone : others.count id = 0 :=
    List.count_eq_zero.mpr fun h => hNotRest (hOthersMem id h)
  rw [hOthers, hOwn, hNext, List.count_append, List.count_append, hNone, hOthersNone,
    List.count_replicate_self]
  omega

theorem nodup_readyStages (manager : WatermarkManager) : manager.readyStages.Nodup :=
  (List.perm_insertionSort _ _).nodup_iff.mpr
    ((AList.keys_nodup manager.stages).filter _)

end WatermarkManager

namespace NodeScheduler

variable (scheduler : NodeScheduler)

/-- The bundles to run next: refresh, then start what is ready, by stage id. -/
def nextNodes : NodeScheduler × List StageId :=
  let refreshed := scheduler.watermarks.refresh
  let started := (refreshed.readyStages.filter fun id => (scheduler.nodes.lookup id).isSome).foldl
    (fun state id => WatermarkManager.startBundles id (state.1.maxInFlight id + 1) state)
    (refreshed, [])
  ({ scheduler with watermarks := started.1 }, started.2)

/-- The bundles handed out next: all of stages that are ready after a refresh,
started as often as they are handed out. -/
theorem nextNodes_spec :
    (∀ id ∈ scheduler.nextNodes.2, id ∈ scheduler.watermarks.refresh.readyStages ∧
      (scheduler.nodes.lookup id).isSome = true) ∧
    Rewrites (fun id stage => StageState.started^[scheduler.nextNodes.2.count id] stage)
      scheduler.watermarks.refresh scheduler.nextNodes.1.watermarks ∧
    WatermarkManager.Effects scheduler.watermarks.refresh scheduler.nextNodes.1.watermarks := by
  obtain ⟨handed, hHanded, hMem, hRewrites, hEffects⟩ :=
    WatermarkManager.foldl_startBundles_spec
      (scheduler.watermarks.refresh.readyStages.filter fun id => (scheduler.nodes.lookup id).isSome)
      (scheduler.watermarks.refresh, [])
  rw [List.nil_append] at hHanded
  have hNext : scheduler.nextNodes.2 = handed := hHanded
  rw [hNext]
  exact ⟨fun id hId => List.mem_filter.mp (hMem id hId), hRewrites, hEffects⟩

/-- A ready stage is handed out once, and again for each further work item while
it has room. -/
theorem count_nextNodes {id : StageId} {stage : StageState}
    (hReady : id ∈ scheduler.watermarks.refresh.readyStages)
    (hNode : (scheduler.nodes.lookup id).isSome = true)
    (hStage : scheduler.watermarks.refresh.stages.lookup id = some stage)
    (hStart : stage.startError id = none) :
    scheduler.nextNodes.2.count id =
      min (stage.maxInFlight - stage.inFlight) (max 1 stage.queued) :=
  WatermarkManager.count_foldl_startBundles
    ((WatermarkManager.nodup_readyStages _).filter
      fun id => (scheduler.nodes.lookup id).isSome)
    (List.mem_filter.mpr ⟨hReady, hNode⟩) hStage hStart

def stageForTransform (transformId : String) : Option StageId :=
  scheduler.transformToStage.lookup transformId

/-- Add a timer to the group of its stage. -/
def pushTimer (byStage : Store StageId (List TimerEntry)) (stage : StageId) (entry : TimerEntry) :
    Store StageId (List TimerEntry) :=
  byStage.insert stage ((byStage.lookup stage).getD [] ++ [entry])

/-- Re-arm the stage of a timer if the timer is due, and add it to that stage's
group. A timer whose transform has no stage is ignored. -/
def promoteTimer (isDue : WatermarkManager → StageId → TimerEntry → Bool)
    (state : WatermarkManager × Store StageId (List TimerEntry)) (entry : TimerEntry) :
    WatermarkManager × Store StageId (List TimerEntry) :=
  match scheduler.stageForTransform entry.key.transformId with
  | none => state
  | some stage =>
      if isDue state.1 stage entry then
        ((state.1.markRerun stage).toOption.getD state.1, pushTimer state.2 stage entry)
      else state

/-- Re-arm the stages of the timers that are due, and return those timers
grouped by stage, in the order of the stage ids. -/
def promote (isDue : WatermarkManager → StageId → TimerEntry → Bool) (timers : List TimerEntry) :
    NodeScheduler × List (StageId × List TimerEntry) :=
  let promoted := timers.foldl (scheduler.promoteTimer isDue) (scheduler.watermarks, ∅)
  ({ scheduler with watermarks := promoted.1 },
    (promoted.2.entries.map fun group => (group.1, group.2)).insertionSort
      fun first second => first.1 ≤ second.1)

/-- Processing-time timers are due when the clock says so. -/
def promoteDueTimers (due : List TimerEntry) :
    NodeScheduler × List (StageId × List TimerEntry) :=
  scheduler.promote (fun _ _ _ => true) due

/-- Event-time timers are due at the input watermark of their stage, clamped by
its unconsumed input. -/
def promoteDueEventTimeTimers (timers : List TimerEntry) :
    NodeScheduler × List (StageId × List TimerEntry) :=
  scheduler.promote
    (fun manager stage entry => decide (entry.domain = .eventTime) &&
      entry.isDueAtWatermark ((manager.effectiveInputWatermark stage).getD minTimestamp)) timers

theorem held_pushTimer (byStage : Store StageId (List TimerEntry)) (stage : StageId)
    (entry : TimerEntry) :
    held id (pushTimer byStage stage entry) = held id byStage + {entry} := by
  unfold pushTimer
  rw [held_insert]
  cases hLookup : byStage.lookup stage with
  | none =>
      rw [erase_of_lookup_none hLookup]
      simp [add_comm]
  | some group =>
      rw [held_of_lookup id hLookup]
      simp only [Option.getD_some, id_eq]
      rw [← Multiset.coe_add, Multiset.coe_singleton]
      abel

theorem held_foldl_promoteTimer (isDue : WatermarkManager → StageId → TimerEntry → Bool)
    (timers : List TimerEntry) (state : WatermarkManager × Store StageId (List TimerEntry)) :
    ∃ due, List.Sublist due timers ∧
      held id (timers.foldl (scheduler.promoteTimer isDue) state).2 =
        held id state.2 + (due : Multiset TimerEntry) := by
  induction timers generalizing state with
  | nil => exact ⟨[], List.Sublist.refl _, by simp⟩
  | cons entry rest ih =>
      rw [List.foldl_cons]
      obtain ⟨due, hSub, hHeld⟩ := ih (scheduler.promoteTimer isDue state entry)
      rw [hHeld]
      unfold promoteTimer
      split
      · exact ⟨due, hSub.cons entry, rfl⟩
      · split
        · refine ⟨entry :: due, hSub.cons_cons entry, ?_⟩
          rw [held_pushTimer, add_assoc]
          rfl
        · exact ⟨due, hSub.cons entry, rfl⟩

/-- The groups hold timers of the given list, none of them twice. -/
theorem promote_groups (isDue : WatermarkManager → StageId → TimerEntry → Bool)
    (timers : List TimerEntry) :
    ∃ due, List.Sublist due timers ∧
      ((scheduler.promote isDue timers).2.flatMap fun group => group.2).Perm due := by
  obtain ⟨due, hSub, hHeld⟩ :=
    scheduler.held_foldl_promoteTimer isDue timers (scheduler.watermarks, ∅)
  refine ⟨due, hSub, ?_⟩
  rw [held_empty, zero_add] at hHeld
  refine ((List.perm_insertionSort _ _).flatMap_right _).trans ?_
  rw [List.flatMap_map]
  exact Multiset.coe_eq_coe.mp hHeld

end NodeScheduler

end FlareDB
