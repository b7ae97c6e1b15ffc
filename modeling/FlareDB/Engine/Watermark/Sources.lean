import FlareDB.Engine.Watermark.Graph
import FlareDB.Engine.Watermark.Protocol

/-! What a source's partitions have reported, read off the history of the calls
made for them, and when the source's watermark says the same. -/
namespace FlareDB

open KeyedStore

/-- A call about one partition of a source. -/
inductive SourceCall where
  | report (partition : String) (timestamp : Timestamp)
  | setIdle (partition : String) (idle : Bool)

namespace SourceCall

def partition : SourceCall → String
  | report partition _ => partition
  | setIdle partition _ => partition

/-- Whether the partition of a call is idle once it is made. -/
def leavesIdle : SourceCall → Bool
  | report _ _ => false
  | setIdle _ idle => idle

/-- The timestamp a call reports for a partition. -/
def timestampFor (partition : String) : SourceCall → Option Timestamp
  | report other timestamp => if other = partition then some timestamp else none
  | setIdle _ _ => none

def InRange : SourceCall → Prop
  | report _ timestamp => minTimestamp ≤ timestamp ∧ timestamp ≤ maxTimestamp
  | setIdle _ _ => True

instance : DecidablePred InRange
  | report _ timestamp =>
      inferInstanceAs (Decidable (minTimestamp ≤ timestamp ∧ timestamp ≤ maxTimestamp))
  | setIdle _ _ => inferInstanceAs (Decidable True)

variable (calls : List SourceCall)

/-- The timestamps reported for a partition, in order. -/
def timestamps (partition : String) : List Timestamp :=
  calls.filterMap (timestampFor partition)

def largestTimestamp (partition : String) : Timestamp :=
  (timestamps calls partition).max?.getD minTimestamp

/-- Whether the last call about a partition left it idle. -/
def isIdle (partition : String) : Bool :=
  calls.foldl (fun idle call => if call.partition = partition then call.leavesIdle else idle) false

/-- The partitions mentioned by a call that are not idle. -/
def activePartitions : List String :=
  ((calls.map SourceCall.partition).dedup).filter fun partition => !isIdle calls partition

/-- What the calls say about the source: nothing while there are none, else the
minimum over the active partitions of the largest timestamp of each. -/
def reportedWatermark : Timestamp :=
  if calls.isEmpty then minTimestamp
  else ((activePartitions calls).map (largestTimestamp calls)).min?.getD maxTimestamp

end SourceCall

open SourceCall

namespace SourceCall

variable {calls : List SourceCall} {partition : String}

theorem timestamps_append (call : SourceCall) :
    timestamps (calls ++ [call]) partition =
      timestamps calls partition ++ (call.timestampFor partition).toList := by
  rw [timestamps, List.filterMap_append, timestamps]
  cases hReport : call.timestampFor partition <;> simp [hReport]

theorem isIdle_append (call : SourceCall) :
    isIdle (calls ++ [call]) partition =
      if call.partition = partition then call.leavesIdle else isIdle calls partition := by
  simp [isIdle]

theorem timestampFor_of_ne {call : SourceCall} (h : call.partition ≠ partition) :
    call.timestampFor partition = none := by
  cases call with
  | report other timestamp => exact if_neg h
  | setIdle other idle => rfl

/-- Nothing is known of a partition that no call mentions. -/
theorem unmentioned (h : partition ∉ calls.map SourceCall.partition) :
    timestamps calls partition = [] ∧ isIdle calls partition = false := by
  induction calls using List.reverseRecOn with
  | nil => exact ⟨rfl, rfl⟩
  | append_singleton calls call ih =>
      rw [List.map_append, List.mem_append, not_or] at h
      have hNe : call.partition ≠ partition := fun hSame => h.2 (by simp [hSame])
      obtain ⟨hTimestamps, hIdle⟩ := ih h.1
      rw [timestamps_append, isIdle_append, timestampFor_of_ne hNe, if_neg hNe]
      exact ⟨by simp [hTimestamps], hIdle⟩

/-- An active partition has been called for, and last not as idle. -/
theorem mem_activePartitions : partition ∈ activePartitions calls ↔
    partition ∈ calls.map SourceCall.partition ∧ isIdle calls partition = false := by
  simp [activePartitions]

theorem timestamps_le (hRange : ∀ call ∈ calls, call.InRange) :
    ∀ timestamp ∈ timestamps calls partition,
      minTimestamp ≤ timestamp ∧ timestamp ≤ maxTimestamp := by
  intro timestamp hMem
  obtain ⟨call, hCall, hReport⟩ := List.mem_filterMap.mp hMem
  cases call with
  | setIdle other idle => cases hReport
  | report other reported =>
      simp only [timestampFor, Option.ite_none_right_eq_some] at hReport
      obtain ⟨_, hSame⟩ := hReport
      cases hSame
      exact hRange _ hCall

/-- No report in range exceeds the end of time. -/
theorem largestTimestamp_le (hRange : ∀ call ∈ calls, call.InRange) :
    largestTimestamp calls partition ≤ maxTimestamp := by
  unfold largestTimestamp
  cases hMax : (timestamps calls partition).max? with
  | none => exact minTimestamp_le_maxTimestamp
  | some largest => exact (timestamps_le hRange largest (List.max?_mem hMax)).2

theorem zero_le_largestTimestamp_iff :
    0 ≤ largestTimestamp calls partition ↔
      ∃ timestamp ∈ timestamps calls partition, 0 ≤ timestamp := by
  unfold largestTimestamp
  cases hMax : (timestamps calls partition).max? with
  | none =>
      have hBelow : ¬0 ≤ minTimestamp := by decide
      simp [List.max?_eq_none_iff.mp hMax, hBelow]
  | some largest =>
      rw [Option.getD_some]
      constructor
      · intro hNonneg
        exact ⟨largest, List.max?_mem hMax, hNonneg⟩
      · rintro ⟨timestamp, hMem, hNonneg⟩
        exact hNonneg.trans ((List.max?_le_iff hMax).mp (le_refl _) timestamp hMem)

theorem zero_le_foldl_max (timestamps : List Timestamp) : 0 ≤ timestamps.foldl max 0 := by
  cases timestamps with
  | nil => exact le_refl 0
  | cons first rest =>
      rw [List.foldl_cons, List.foldl_assoc]
      exact le_max_left _ _

/-- Where some report is not negative, the stored zero does not show. -/
theorem foldl_max_eq_largestTimestamp (h : 0 ≤ largestTimestamp calls partition) :
    (timestamps calls partition).foldl max 0 = largestTimestamp calls partition := by
  unfold largestTimestamp at *
  cases hReported : timestamps calls partition with
  | nil => rw [hReported] at h; exact absurd h (by decide)
  | cons first rest =>
      have hLargest : (first :: rest).max? = some (rest.foldl max first) := List.max?_cons'
      rw [hReported, hLargest] at h
      rw [List.foldl_cons, List.foldl_assoc, hLargest]
      exact max_eq_right h

end SourceCall

namespace SourceState

/-- A source after one call. -/
def called (source : SourceState) : SourceCall → SourceState
  | .report partition timestamp =>
      let entry := (source.partitions.lookup partition).getD PartitionWatermark.default
      { source with
        partitions := source.partitions.insert partition
          { watermark := max entry.watermark timestamp, idle := false } }
  | .setIdle partition idle =>
      let entry := (source.partitions.lookup partition).getD PartitionWatermark.default
      { source with partitions := source.partitions.insert partition { entry with idle := idle } }

/-- What a source holds for a partition after some calls: it is created with a
watermark of zero, which no report lowers. -/
def heard (calls : List SourceCall) (partition : String) : PartitionWatermark where
  watermark := (timestamps calls partition).foldl max 0
  idle := isIdle calls partition

/-- A source whose partitions are those mentioned by some calls. -/
def Heard (source : SourceState) (calls : List SourceCall) : Prop :=
  ∀ partition, source.partitions.lookup partition =
    if partition ∈ calls.map SourceCall.partition then some (heard calls partition) else none

theorem Heard.getD {source : SourceState} {calls : List SourceCall} (h : source.Heard calls)
    (partition : String) :
    (source.partitions.lookup partition).getD PartitionWatermark.default =
      heard calls partition := by
  rw [h partition]
  split
  · rfl
  next hKnown =>
    obtain ⟨hTimestamps, hIdle⟩ := unmentioned hKnown
    rw [heard, hTimestamps, hIdle]
    rfl

/-- A call is heard by its own partition. -/
theorem Heard.called {source : SourceState} {calls : List SourceCall} (h : source.Heard calls)
    (call : SourceCall) : (source.called call).Heard (calls ++ [call]) := by
  have hCalled : (source.called call).partitions =
      source.partitions.insert call.partition (heard (calls ++ [call]) call.partition) := by
    cases call with
    | report partition timestamp =>
        simp [SourceState.called, h.getD, heard, timestamps_append, isIdle_append, timestampFor,
          SourceCall.partition, leavesIdle]
    | setIdle partition idle =>
        simp [SourceState.called, h.getD, heard, timestamps_append, isIdle_append, timestampFor,
          SourceCall.partition, leavesIdle]
  intro partition
  rw [hCalled]
  by_cases hPartition : partition = call.partition
  · subst hPartition
    simp
  · have hNe : call.partition ≠ partition := fun hSame => hPartition hSame.symm
    have hKept : heard (calls ++ [call]) partition = heard calls partition := by
      rw [heard, timestamps_append, isIdle_append, timestampFor_of_ne hNe, if_neg hNe]
      simp [heard]
    rw [AList.lookup_insert_ne hPartition, h partition, hKept]
    simp [hPartition]

/-- What lies below the fold over the partitions lies below each that is active. -/
theorem le_foldl_partitions_iff (entries : List (Sigma fun _ : String => PartitionWatermark))
    (bound watermark : Timestamp) :
    watermark ≤ entries.foldl (fun least entry =>
        if entry.2.idle then least else min least entry.2.watermark) bound ↔
      watermark ≤ bound ∧
        ∀ entry ∈ entries, entry.2.idle = false → watermark ≤ entry.2.watermark := by
  induction entries generalizing bound with
  | nil => simp
  | cons entry rest ih =>
      rw [List.foldl_cons, ih, List.forall_mem_cons]
      cases hIdle : entry.2.idle with
      | true => simp
      | false => simp [and_assoc]

/-- The output of an open source that was called is the minimum over its active
partitions. -/
theorem Heard.le_output_iff {source : SourceState} {calls : List SourceCall}
    (h : source.Heard calls) (hCalls : calls ≠ []) (hOpen : source.finished = false)
    (watermark : Timestamp) :
    watermark ≤ source.output ↔ watermark ≤ maxTimestamp ∧
      ∀ partition ∈ activePartitions calls,
        watermark ≤ (timestamps calls partition).foldl max 0 := by
  have hKnown : ∀ partition, partition ∈ calls.map SourceCall.partition →
      source.partitions.lookup partition = some (heard calls partition) :=
    fun partition hMem => (h partition).trans (if_pos hMem)
  have hSome : source.partitions.entries.isEmpty = false := by
    obtain ⟨call, hCall⟩ := List.exists_mem_of_ne_nil calls hCalls
    have hEntry := AList.mem_lookup_iff.mp (hKnown _ (List.mem_map_of_mem hCall))
    exact List.isEmpty_eq_false_iff.mpr (List.ne_nil_of_mem hEntry)
  simp only [output, hOpen, hSome, Bool.false_eq_true, if_false]
  rw [le_foldl_partitions_iff]
  refine and_congr_right fun _ => ⟨fun hEntries partition hActive => ?_, fun hActive entry hEntry hIdle => ?_⟩
  · obtain ⟨hMem, hIdle⟩ := mem_activePartitions.mp hActive
    exact hEntries ⟨partition, _⟩ (AList.mem_lookup_iff.mp (hKnown partition hMem)) hIdle
  · have hLookup := AList.mem_lookup_iff.mpr hEntry
    have hMem : entry.1 ∈ calls.map SourceCall.partition := by
      by_contra hUnknown
      rw [Option.mem_def, h entry.1, if_neg hUnknown] at hLookup
      cases hLookup
    rw [Option.mem_def, hKnown entry.1 hMem] at hLookup
    rw [← Option.some.inj hLookup] at hIdle ⊢
    exact hActive entry.1 (mem_activePartitions.mpr ⟨hMem, hIdle⟩)

end SourceState

theorem SourceCall.le_reportedWatermark_iff {calls : List SourceCall} (hCalls : calls ≠ [])
    (hRange : ∀ call ∈ calls, call.InRange) (watermark : Timestamp) :
    watermark ≤ reportedWatermark calls ↔ watermark ≤ maxTimestamp ∧
      ∀ partition ∈ activePartitions calls, watermark ≤ largestTimestamp calls partition := by
  unfold reportedWatermark
  rw [if_neg (by simpa using hCalls)]
  cases hMin : ((activePartitions calls).map (largestTimestamp calls)).min? with
  | none =>
      rw [List.min?_eq_none_iff, List.map_eq_nil_iff] at hMin
      simp [hMin]
  | some least =>
      rw [Option.getD_some, List.le_min?_iff hMin, List.forall_mem_map]
      refine ⟨fun hAll => ⟨?_, hAll⟩, And.right⟩
      obtain ⟨partition, hActive, _⟩ := List.mem_map.mp (List.min?_mem hMin)
      exact (hAll partition hActive).trans (largestTimestamp_le hRange)

/-- The watermark of an open source is what its calls reported exactly when
every active partition has reported a timestamp that is not negative. -/
theorem SourceState.Heard.output_eq_iff {source : SourceState} {calls : List SourceCall}
    (h : source.Heard calls) (hOpen : source.finished = false)
    (hRange : ∀ call ∈ calls, call.InRange) :
    source.output = reportedWatermark calls ↔
      ∀ partition ∈ activePartitions calls,
        ∃ timestamp ∈ timestamps calls partition, 0 ≤ timestamp := by
  by_cases hCalls : calls = []
  · subst hCalls
    have hNone : source.partitions.entries = [] := by
      refine List.eq_nil_iff_forall_not_mem.mpr fun entry hEntry => ?_
      have hLookup := AList.mem_lookup_iff.mpr hEntry
      rw [Option.mem_def, h entry.1] at hLookup
      cases hLookup
    simp [SourceState.output, hOpen, hNone, reportedWatermark, activePartitions]
  · constructor
    · intro hSame partition hActive
      have hZero : 0 ≤ source.output := (h.le_output_iff hCalls hOpen 0).mpr
        ⟨by decide, fun other _ => zero_le_foldl_max _⟩
      rw [hSame, le_reportedWatermark_iff hCalls hRange] at hZero
      exact zero_le_largestTimestamp_iff.mp (hZero.2 partition hActive)
    · intro hReported
      refine eq_of_forall_le_iff fun watermark => ?_
      rw [h.le_output_iff hCalls hOpen, le_reportedWatermark_iff hCalls hRange]
      refine and_congr_right fun _ => forall₂_congr fun partition hActive => ?_
      rw [foldl_max_eq_largestTimestamp
        (zero_le_largestTimestamp_iff.mpr (hReported partition hActive))]

/-- The call an operation makes about a partition of a source. -/
def ManagerAction.sourceCall (id : StageId) : ManagerAction → Option SourceCall
  | .reportSourcePartitionWatermark stage partition timestamp =>
      if stage = id then some (.report partition timestamp) else none
  | .setSourcePartitionIdle stage partition idle =>
      if stage = id then some (.setIdle partition idle) else none
  | _ => none

/-- The calls about the partitions of a source among some operations. -/
def sourceCalls (id : StageId) (actions : List ManagerAction) : List SourceCall :=
  actions.filterMap (ManagerAction.sourceCall id)

namespace StageState

/-- The partitions a source stage knows of. -/
def partitions (stage : StageState) : Option (Store String PartitionWatermark) :=
  stage.source.map SourceState.partitions

def SamePartitions (before after : StageState) : Prop :=
  after.partitions = before.partitions

theorem SamePartitions.of_source {before after : StageState} (h : after.source = before.source) :
    before.SamePartitions after := by
  rw [SamePartitions, partitions, h, partitions]

/-- What a stage receives does not change its source. -/
theorem Received.source_eq {before after : StageState} (h : before.Received after) :
    after.source = before.source := by
  rw [h.same]

end StageState

namespace WatermarkManager

variable {manager after : WatermarkManager} {id : StageId}

open StageState

theorem samePartitions_withStage {f : StageState → StageState}
    (h : (manager.withStage id f).toOption = some after)
    (hSource : ∀ stage, (f stage).source = stage.source) :
    Touches SamePartitions manager after := by
  rw [withStage_ok (toOption_eq_some h)]
  refine ⟨_, manager.rewrites_modifyStage id f, fun other stage => ?_⟩
  split
  · exact .of_source (hSource stage)
  · rfl

/-- A refresh leaves the partitions as reported. -/
theorem samePartitions_refresh (manager : WatermarkManager) :
    Touches SamePartitions manager manager.refresh := by
  obtain ⟨_, _, hRefresh, _⟩ := manager.rewrites_refresh
  exact ⟨_, hRefresh, fun _ _ => rfl⟩

/-- So does releasing the holds of empty inputs. -/
theorem samePartitions_releaseEmptyInputHolds (manager : WatermarkManager) :
    Touches SamePartitions manager manager.releaseEmptyInputHolds.1 := by
  have hReleased : Touches SamePartitions manager
      (manager.mapStages fun _ stage => stage.releaseEmpty) :=
    ⟨_, manager.rewrites_mapStages _, fun _ _ => rfl⟩
  unfold releaseEmptyInputHolds
  simp only
  split
  · exact Touches.trans (fun first second => second.trans first) hReleased
      (samePartitions_refresh _)
  · exact hReleased

/-- The partitions of a source are changed by the calls about them alone. -/
theorem partitions_step {action : ManagerAction} (h : manager.step action = some after)
    (hOther : action.sourceCall id = none) {stage : StageState}
    (hStage : after.stages.lookup id = some stage) :
    ∃ old, manager.stages.lookup id = some old ∧ old.SamePartitions stage := by
  have hCalled : ∀ {other : StageId} {f : SourceState → SourceState},
      (manager.withSource other f).toOption = some after → other ≠ id →
        ∃ old, manager.stages.lookup id = some old ∧ old.SamePartitions stage := by
    intro other f hCall hNe
    rw [withSource_ok (toOption_eq_some hCall)] at hStage
    obtain ⟨old, hOld, hSame⟩ := (manager.rewrites_modifyStage other _).exists_before hStage
    rw [if_neg (Ne.symm hNe)] at hSame
    exact ⟨old, hOld, .of_source (congrArg StageState.source hSame)⟩
  cases action with
  | startBundle other =>
      simp only [step] at h
      split at h
      · obtain ⟨_, _, _, hStarted⟩ := startBundle_ok (toOption_eq_some h)
        obtain ⟨old, hOld, rfl⟩ := hStarted.exists_before hStage
        refine ⟨old, hOld, ?_⟩
        split
        · have hKept := (begun_started old).same
          exact .of_source (hKept ▸ rfl)
        · rfl
      · cases h
  | completeBundle other outputMin inputCount =>
      have hOk := toOption_eq_some h
      cases hComplete : manager.completeBundleWithMinAndInput other outputMin inputCount with
      | error message => rw [hComplete] at hOk; cases hOk
      | ok result =>
          rw [hComplete] at hOk
          cases hOk
          obtain ⟨_, _, _, hRewrites⟩ := completeBundle_ok hComplete
          obtain ⟨old, hOld, rfl⟩ := hRewrites.exists_before hStage
          refine ⟨old, hOld, .of_source ?_⟩
          rw [(manager.received_completion other _ _ _ id old).source_eq]
          split <;> rfl
  | enqueueBundles other count =>
      exact (samePartitions_withStage h fun _ => rfl).exists_before hStage
  | markRerun other => exact (samePartitions_withStage h fun _ => rfl).exists_before hStage
  | addHold other timestamp => exact (samePartitions_withStage h fun _ => rfl).exists_before hStage
  | releaseHold other timestamp =>
      exact (samePartitions_withStage h fun _ => rfl).exists_before hStage
  | setEventTimeHolds holds =>
      cases h
      obtain ⟨old, hOld, rfl⟩ := (manager.rewrites_mapStages _).exists_before hStage
      exact ⟨old, hOld, rfl⟩
  | setResidualHolds holds =>
      cases h
      obtain ⟨old, hOld, rfl⟩ := (manager.rewrites_mapStages _).exists_before hStage
      exact ⟨old, hOld, rfl⟩
  | reportSourcePartitionWatermark other partition timestamp =>
      refine hCalled h fun hSame => ?_
      simp [ManagerAction.sourceCall, hSame] at hOther
  | setSourcePartitionIdle other partition idle =>
      refine hCalled h fun hSame => ?_
      simp [ManagerAction.sourceCall, hSame] at hOther
  | reportSourceFinished other =>
      rw [withSource_ok (toOption_eq_some h)] at hStage
      obtain ⟨old, hOld, rfl⟩ := (manager.rewrites_modifyStage other _).exists_before hStage
      refine ⟨old, hOld, ?_⟩
      split
      · simp [SamePartitions, partitions, Function.comp_def]
      · rfl
  | releaseEmptyInputHolds =>
      cases h
      exact (samePartitions_releaseEmptyInputHolds manager).exists_before hStage
  | refresh =>
      cases h
      exact (samePartitions_refresh manager).exists_before hStage

/-- A source stage, if there is one, has heard some calls. -/
def SourceHeard (manager : WatermarkManager) (id : StageId) (calls : List SourceCall) : Prop :=
  ∀ stage source, manager.stages.lookup id = some stage → stage.source = some source →
    source.Heard calls

/-- A call of the source's own is heard. -/
theorem SourceHeard.called {calls : List SourceCall} (hHeard : manager.SourceHeard id calls)
    {call : SourceCall}
    (h : (manager.withSource id fun source => source.called call).toOption = some after) :
    after.SourceHeard id (calls ++ [call]) := by
  intro stage source hStage hSource
  rw [withSource_ok (toOption_eq_some h)] at hStage
  obtain ⟨old, hOld, rfl⟩ := (manager.rewrites_modifyStage id _).exists_before hStage
  simp only [if_true] at hSource
  obtain ⟨before, hBefore, rfl⟩ := Option.map_eq_some_iff.mp hSource
  exact (hHeard old before hOld hBefore).called call

/-- Every step of the manager hears what concerns the source and nothing else. -/
theorem SourceHeard.step {calls : List SourceCall} (hHeard : manager.SourceHeard id calls)
    {action : ManagerAction} (h : manager.step action = some after) :
    after.SourceHeard id (calls ++ (action.sourceCall id).toList) := by
  cases hCall : action.sourceCall id with
  | none =>
      intro stage source hStage hSource
      obtain ⟨old, hOld, hSame⟩ := partitions_step h hCall hStage
      rw [SamePartitions, partitions, partitions, hSource] at hSame
      obtain ⟨before, hBefore, hPartitions⟩ := Option.map_eq_some_iff.mp hSame.symm
      have hKept := hHeard old before hOld hBefore
      intro partition
      rw [Option.toList_none, List.append_nil, ← hPartitions]
      exact hKept partition
  | some call =>
      cases action <;> simp only [ManagerAction.sourceCall, Option.ite_none_right_eq_some,
        reduceCtorEq] at hCall
      · obtain ⟨rfl, hSame⟩ := hCall
        cases hSame
        exact hHeard.called h
      · obtain ⟨rfl, hSame⟩ := hCall
        cases hSame
        exact hHeard.called h

/-- So does every sequence of steps. -/
theorem SourceHeard.play {calls : List SourceCall} (hHeard : manager.SourceHeard id calls)
    {actions : List ManagerAction} (h : Runs.play WatermarkManager.step manager actions = some after) :
    after.SourceHeard id (calls ++ sourceCalls id actions) := by
  induction actions generalizing manager calls with
  | nil =>
      cases h
      rwa [sourceCalls, List.filterMap_nil, List.append_nil]
  | cons action rest ih =>
      obtain ⟨next, hNext, hRest⟩ := Option.bind_eq_some_iff.mp h
      have hCalls : calls ++ sourceCalls id (action :: rest) =
          calls ++ (action.sourceCall id).toList ++ sourceCalls id rest := by
        rw [List.append_assoc, sourceCalls, List.filterMap_cons]
        cases action.sourceCall id <;> rfl
      rw [hCalls]
      exact ih (hHeard.step hNext) hRest

/-- A manager as built has heard nothing. -/
theorem sourceHeard_build (specs : List StageSpec) (id : StageId) :
    (build specs).SourceHeard id [] := by
  intro stage source hStage hSource partition
  obtain ⟨spec, _, _, rfl⟩ := lookup_build specs hStage
  cases hInputs : spec.mainInputs.isEmpty with
  | false => simp [StageSpec.state, StageState.init, hInputs] at hSource
  | true =>
      simp only [StageSpec.state, StageState.init, hInputs, if_true, Option.map_some,
        Option.some.injEq] at hSource
      subst hSource
      rfl

/-- In every run of the protocol, the watermark of a source that has not
finished is what the calls about its partitions reported exactly when every
active partition has reported a timestamp that is not negative. -/
theorem output_eq_reportedWatermark_iff {specs : List StageSpec} {actions : List ManagerAction}
    (hRun : Runs.play WatermarkManager.step (build specs) actions = some manager)
    {stage : StageState} {source : SourceState} (hStage : manager.stages.lookup id = some stage)
    (hSource : stage.source = some source) (hOpen : source.finished = false)
    (hRange : ∀ call ∈ sourceCalls id actions, call.InRange) :
    source.output = reportedWatermark (sourceCalls id actions) ↔
      ∀ partition ∈ activePartitions (sourceCalls id actions),
        ∃ timestamp ∈ timestamps (sourceCalls id actions) partition, 0 ≤ timestamp := by
  have hHeard := (sourceHeard_build specs id).play hRun
  exact (hHeard stage source hStage hSource).output_eq_iff hOpen hRange

/-- Two partitions report, the slower one goes idle, and it is left out. -/
theorem output_eq_reportedWatermark_iff_idle :
    ∃ source : SourceState, source.output = reportedWatermark [.report "p0" 100, .report "p1" 200,
        .setIdle "p0" true] ∧ source.output = 200 := by
  let actions : List ManagerAction := [.reportSourcePartitionWatermark "read" "p0" 100,
    .reportSourcePartitionWatermark "read" "p1" 200, .setSourcePartitionIdle "read" "p0" true]
  obtain ⟨manager, hRun⟩ := Option.isSome_iff_exists.mp (show (Runs.play WatermarkManager.step
    (build [readStage]) actions).isSome = true by decide +kernel)
  have hOutput : (((Runs.play WatermarkManager.step (build [readStage]) actions).bind fun manager =>
      manager.stages.lookup "read").bind StageState.source).map (fun source =>
        (source.finished, source.output)) = some (false, 200) := by
    decide +kernel
  rw [hRun] at hOutput
  obtain ⟨source, hSource, hFields⟩ := Option.map_eq_some_iff.mp hOutput
  obtain ⟨stage, hStage, hSource⟩ := Option.bind_eq_some_iff.mp hSource
  obtain ⟨hOpen, hWatermark⟩ := Prod.mk.inj hFields
  refine ⟨source, (output_eq_reportedWatermark_iff hRun hStage hSource hOpen ?_).mpr ?_, hWatermark⟩
  · decide
  · decide

/-- A source that has reported nothing but a negative timestamp reads zero. -/
theorem not_output_eq_reportedWatermark_negative :
    ¬∀ specs actions manager, Runs.play WatermarkManager.step (build specs) actions = some manager →
      ∀ id stage source, manager.stages.lookup id = some stage → stage.source = some source →
        source.finished = false → (∀ call ∈ sourceCalls id actions, call.InRange) →
          source.output = reportedWatermark (sourceCalls id actions) := by
  intro h
  let actions : List ManagerAction := [.reportSourcePartitionWatermark "read" "" (-5)]
  obtain ⟨manager, hRun⟩ := Option.isSome_iff_exists.mp (show (Runs.play WatermarkManager.step
    (build [readStage]) actions).isSome = true by decide +kernel)
  have hOutput : (((Runs.play WatermarkManager.step (build [readStage]) actions).bind fun manager =>
      manager.stages.lookup "read").bind StageState.source).map (fun source =>
        (source.finished, source.output)) = some (false, 0) := by
    decide +kernel
  rw [hRun] at hOutput
  obtain ⟨source, hSource, hFields⟩ := Option.map_eq_some_iff.mp hOutput
  obtain ⟨stage, hStage, hSource⟩ := Option.bind_eq_some_iff.mp hSource
  obtain ⟨hOpen, hWatermark⟩ := Prod.mk.inj hFields
  have hSame := h _ _ _ hRun "read" stage source hStage hSource hOpen (by decide)
  rw [hWatermark] at hSame
  exact absurd hSame (by decide)

end WatermarkManager

end FlareDB
