import FlareDB.Engine.Scheduler
import FlareDB.Engine.Trigger
import FlareDB.Engine.Watermark.Bounds

/-! The executable graph, the scheduler built from it, and the dependency rule
that eligibility is checked against: a stage may run for the first time when the
stages it reads from have completed. Eligibility itself is decided by barriers,
which are lifted as completions arrive. -/
namespace FlareDB

open KeyedStore

/-- A node of the executable graph. A splittable node folds worker stages and
reads their side inputs. -/
inductive ExecutableNode where
  | worker (id : StageId) (transforms : List String) (requiresTimeSortedInput : Bool)
      (sideInputs outputPcols : List PCollectionId)
  | runner (id : StageId) (groupsByKey sourceAutoFinishes : Bool)
      (outputPcols : List PCollectionId)
  | splittable (id : StageId) (processesSizedRestrictions : Bool)
      (sideInputs outputPcols : List PCollectionId)

namespace ExecutableNode

def id : ExecutableNode → StageId
  | .worker id _ _ _ _ | .runner id _ _ _ | .splittable id _ _ _ => id

def kind : ExecutableNode → NodeKind
  | .worker _ _ _ _ _ => .worker
  | .runner _ _ _ _ => .runner
  | .splittable _ _ _ _ => .splittable

def transforms : ExecutableNode → List String
  | .worker _ transforms _ _ _ => transforms
  | .runner _ _ _ _ | .splittable _ _ _ _ => []

def sideInputs : ExecutableNode → List PCollectionId
  | .worker _ _ _ sideInputs _ | .splittable _ _ sideInputs _ => sideInputs
  | .runner _ _ _ _ => []

def outputPcols : ExecutableNode → List PCollectionId
  | .worker _ _ _ _ outputPcols | .runner _ _ _ outputPcols
  | .splittable _ _ _ outputPcols => outputPcols

end ExecutableNode

/-- An edge between two positions of the graph. -/
structure ConsumerEdge where
  source : Nat
  target : Nat
  producedPcolId : PCollectionId

/-- What a gate reads of a windowing strategy. -/
structure GateStrategy where
  windowFnUrn : Option String
  allowedLateness : Int64

/-- Nodes are found by their id, so no two share one. -/
structure ExecutableGraph where
  nodes : List ExecutableNode
  edges : List ConsumerEdge
  pcollectionStrategies : Store PCollectionId String
  windowingStrategies : Store String GateStrategy
  distinct : (nodes.map ExecutableNode.id).Nodup
  connected : ∀ edge ∈ edges, edge.source < nodes.length ∧ edge.target < nodes.length

def globalWindowsFn : String := "beam:window_fn:global_windows:v1"

/-- The watermark at which the global window is complete. -/
def globalWindowCompletionWatermark (allowedLateness : Int64) : Timestamp :=
  min (saturatingAdd globalWindowMaxTimestampMillis allowedLateness).toInt maxTimestamp

namespace ExecutableGraph

variable (graph : ExecutableGraph)

def incoming (index : Nat) : List ConsumerEdge :=
  graph.edges.filter fun edge => edge.target == index

def outgoing (index : Nat) : List ConsumerEdge :=
  graph.edges.filter fun edge => edge.source == index

def strategyOf (edge : ConsumerEdge) : Option GateStrategy :=
  (graph.pcollectionStrategies.lookup edge.producedPcolId).bind graph.windowingStrategies.lookup

/-- The window function and the allowed lateness of a node's inputs. -/
def inputWindowing (index : Nat) : Option String × Int64 :=
  (graph.incoming index).foldl (fun windowing edge =>
    match graph.strategyOf edge with
    | none => windowing
    | some strategy =>
        (strategy.windowFnUrn <|> windowing.1, max windowing.2 strategy.allowedLateness))
    (none, 0)

/-- An unknown window function counts as the global one. -/
def isGlobalWindow (index : Nat) : Bool :=
  (graph.inputWindowing index).1.all (· == globalWindowsFn)

def aggregationRequiredWatermark (index : Nat) : ExecutableNode → Option Timestamp
  | .runner _ true _ _ =>
      if graph.isGlobalWindow index then
        some (globalWindowCompletionWatermark (graph.inputWindowing index).2)
      else some minTimestamp
  | _ => none

def timeSortedInputRequiredWatermark (index : Nat) : ExecutableNode → Option Timestamp
  | .worker _ _ true _ _ =>
      if graph.isGlobalWindow index then
        some (globalWindowCompletionWatermark (graph.inputWindowing index).2)
      else none
  | _ => none

/-- How a node becomes eligible, and from which watermark on. -/
def gate (index : Nat) (node : ExecutableNode) : StageKind × Timestamp :=
  match graph.aggregationRequiredWatermark index node with
  | some required => (.watermarkGated, required)
  | none => match graph.timeSortedInputRequiredWatermark index node with
      | some required => (.timeSortedInputWatermarkGated, required)
      | none => (.ordinary, minTimestamp)

def sortedIds (ids : List PCollectionId) : List PCollectionId :=
  (ids.insertionSort (· ≤ ·)).dedup

/-- The PCollections a node produces: its own and those of its outgoing edges. -/
def outputs (index : Nat) (node : ExecutableNode) : List PCollectionId :=
  node.outputPcols ++ (graph.outgoing index).map ConsumerEdge.producedPcolId

/-- The stage registered for a node. Main inputs come from incoming edges. -/
def spec (splittableConcurrency index : Nat) (node : ExecutableNode) : StageSpec where
  id := node.id
  mainInputs := sortedIds ((graph.incoming index).map ConsumerEdge.producedPcolId)
  sideInputs := sortedIds node.sideInputs
  outputs := sortedIds (graph.outputs index node)
  kind := (graph.gate index node).1
  requiredWatermark := (graph.gate index node).2
  maxInFlight := match node with
    | .splittable _ true _ _ => splittableConcurrency
    | _ => 1
  autoFinish := match node with
    | .runner _ _ sourceAutoFinishes _ => sourceAutoFinishes
    | _ => true

def specs (splittableConcurrency : Nat) : List StageSpec :=
  graph.nodes.zipIdx.map fun entry => graph.spec splittableConcurrency entry.2 entry.1

/-- The node of a stage id. -/
def indexOf (id : StageId) : Option Nat :=
  graph.nodes.findIdx? fun node => node.id == id

end ExecutableGraph

namespace NodeScheduler

/-- The scheduler of a graph. -/
def new (graph : ExecutableGraph) (splittableConcurrency : Nat) : NodeScheduler where
  watermarks := WatermarkManager.build (graph.specs splittableConcurrency)
  nodes := graph.nodes.foldl (fun nodes node => nodes.insert node.id node.kind) ∅
  transformToStage := graph.nodes.foldl (fun owners node =>
    node.transforms.foldl (fun owners transform => owners.insert transform node.id) owners) ∅

end NodeScheduler

namespace WatermarkManager

variable (manager : WatermarkManager)

def isStageCompleted (id : StageId) : Bool :=
  ((manager.stages.lookup id).map StageState.completed).getD false

def isStageInFlight (id : StageId) : Bool :=
  ((manager.stages.lookup id).map fun stage => decide (0 < stage.inFlight)).getD false

def sideInputsProduced (id : StageId) : Bool :=
  (manager.stages.lookup id).any fun stage => decide (stage.unproducedSideInputs = ∅)

def stageKind (id : StageId) : Option StageKind :=
  (manager.stages.lookup id).map StageState.kind

/-- A stage that has never run and has no bundle in flight. -/
def awaitsFirstRun (id : StageId) : Bool :=
  !manager.isStageCompleted id && !manager.isStageInFlight id

end WatermarkManager

namespace ExecutableGraph

variable (graph : ExecutableGraph) (manager : WatermarkManager)

/-- The stages above a node have completed. -/
def predecessorsDone (index : Nat) : Bool :=
  (graph.incoming index).all fun edge =>
    (graph.nodes[edge.source]?).any fun node => manager.isStageCompleted node.id

/-- The dependency rule: a first run needs the completion of all predecessors
and the side inputs. -/
def dependencyReady (index : Nat) : Bool :=
  (graph.nodes[index]?).any fun node =>
    manager.awaitsFirstRun node.id && graph.predecessorsDone manager index &&
      manager.sideInputsProduced node.id

/-- The two assertions on the stages that are ready: a first run is ready by the
dependency rule, and an ordinary stage ready by the dependency rule is ready. -/
def eligibilityMatchesDependencyRule (ready : List StageId) : Bool :=
  let chosen := ready.filterMap graph.indexOf
  let legacy := (List.range graph.nodes.length).filter (graph.dependencyReady manager)
  (chosen.all fun index => (graph.nodes[index]?).all fun node =>
      !manager.awaitsFirstRun node.id || decide (index ∈ legacy)) &&
    legacy.all fun index => (graph.nodes[index]?).all fun node =>
      !decide (manager.stageKind node.id = some .ordinary) || decide (index ∈ chosen)

end ExecutableGraph

/-- What drives a scheduler. The manager's own operations are among them. -/
inductive SchedulerAction where
  | nextNodes
  | markComplete (stage : StageId) (outputMin : Option Timestamp) (inputCount : Option Nat)
  | manage (action : ManagerAction)

namespace NodeScheduler

def act (scheduler : NodeScheduler) : SchedulerAction → Option NodeScheduler
  | .nextNodes => some scheduler.nextNodes.1
  | .markComplete stage outputMin inputCount =>
      some { scheduler with
        watermarks := scheduler.watermarks.markCompleteWithMinAndInput stage outputMin inputCount }
  | .manage action =>
      (scheduler.watermarks.step action).map fun watermarks => { scheduler with watermarks }

def run (scheduler : NodeScheduler) (actions : List SchedulerAction) : Option NodeScheduler :=
  actions.foldlM act scheduler

end NodeScheduler

namespace WatermarkManager

/-- Completing a bundle is a sequence of changes. -/
theorem effects_markComplete (manager : WatermarkManager) (id : StageId)
    (outputMin : Option Timestamp) (inputCount : Option Nat) :
    Effects manager (manager.markCompleteWithMinAndInput id outputMin inputCount) := by
  have hReported : Effects manager (if manager.isSource id && manager.sourceAutoFinishes id then
      (manager.reportSourceFinished id).toOption.getD manager else manager) := by
    split
    · cases hReport : (manager.reportSourceFinished id).toOption with
      | none => exact .refl
      | some reported => exact .single (.changed (change_withSource hReport))
    · exact .refl
  unfold markCompleteWithMinAndInput
  dsimp only
  generalize (if manager.isSource id && manager.sourceAutoFinishes id then
    (manager.reportSourceFinished id).toOption.getD manager else manager) = reported at hReported ⊢
  cases hComplete : reported.completeBundleWithMinAndInput id outputMin inputCount with
  | error message => exact hReported.tail (.refreshed rfl)
  | ok result =>
      exact (hReported.tail (.changed (change_completeBundle hComplete))).tail (.refreshed rfl)

end WatermarkManager

namespace NodeScheduler

open WatermarkManager

variable {scheduler after : NodeScheduler}

/-- So is every call of the scheduler. -/
theorem effects_act {action : SchedulerAction} (h : scheduler.act action = some after) :
    Effects scheduler.watermarks after.watermarks := by
  cases action with
  | nextNodes =>
      cases h
      exact Relation.ReflTransGen.head (.refreshed rfl) scheduler.nextNodes_spec.2.2
  | markComplete stage outputMin inputCount =>
      cases h
      exact scheduler.watermarks.effects_markComplete stage outputMin inputCount
  | manage action =>
      obtain ⟨watermarks, hStep, rfl⟩ := Option.map_eq_some_iff.mp h
      exact effects_of_step hStep

/-- So is every run of calls. -/
theorem effects_run {actions : List SchedulerAction} (h : scheduler.run actions = some after) :
    Effects scheduler.watermarks after.watermarks := by
  induction actions generalizing scheduler with
  | nil =>
      cases h
      exact .refl
  | cons action actions ih =>
      rw [run, List.foldlM_cons] at h
      obtain ⟨next, hNext, hRest⟩ := Option.bind_eq_some_iff.mp h
      exact (effects_act hNext).trans (ih hRest)

end NodeScheduler

/-! Completions that have arrived. -/

namespace WatermarkManager

variable (manager : WatermarkManager) (isEmpty : Bool) (outputMin : Option Timestamp)
  (id : StageId)

/-- A delivery takes the PCollection off what a consumer waits for. -/
theorem unproduced_deliver (stage : StageState) (pcollection : PCollectionId) :
    (manager.deliver isEmpty outputMin id stage pcollection).unproduced =
      if id ∈ manager.consumersOf pcollection then stage.unproduced.erase pcollection
      else stage.unproduced := by
  have hSide : ∀ current : StageState,
      (current.receiveSide pcollection isEmpty).unproduced = current.unproduced := by
    intro current
    cases isEmpty <;> rfl
  have hMain : (stage.receiveMain pcollection isEmpty outputMin).unproduced =
      stage.unproduced.erase pcollection := by
    unfold StageState.receiveMain
    dsimp only
    split <;> rfl
  unfold deliver
  dsimp only
  split <;> split <;> simp only [hSide, hMain]

/-- Deliveries add nothing to wait for. -/
theorem unproduced_foldl_deliver_subset (outputs : List PCollectionId) (stage : StageState) :
    (outputs.foldl (manager.deliver isEmpty outputMin id) stage).unproduced ⊆
      stage.unproduced := by
  induction outputs generalizing stage with
  | nil => exact Finset.Subset.refl _
  | cons output rest ih =>
      refine (ih _).trans ?_
      rw [unproduced_deliver]
      split
      · exact Finset.erase_subset _ _
      · exact Finset.Subset.refl _

/-- A delivered main input is not awaited any more. -/
theorem notMem_unproduced_foldl_deliver {outputs : List PCollectionId}
    {pcollection : PCollectionId} (hOutput : pcollection ∈ outputs)
    (hReads : id ∈ manager.consumersOf pcollection) (stage : StageState) :
    pcollection ∉ (outputs.foldl (manager.deliver isEmpty outputMin id) stage).unproduced := by
  induction outputs generalizing stage with
  | nil => cases hOutput
  | cons output rest ih =>
      rcases List.mem_cons.mp hOutput with rfl | hRest
      · intro hAwaited
        have hAfter := manager.unproduced_foldl_deliver_subset isEmpty outputMin id rest _ hAwaited
        rw [unproduced_deliver, if_pos hReads] at hAfter
        exact absurd rfl (Finset.mem_erase.mp hAfter).1
      · exact ih hRest _

end WatermarkManager

/-- No reader awaits an output of a stage that has completed. -/
structure Arrived (specs : List StageSpec) (manager : WatermarkManager) : Prop where
  shape : Shape specs manager
  awaited : ∀ id stage, manager.stages.lookup id = some stage →
    ∀ pcollection ∈ stage.unproduced, pcollection ∈ stage.mainInputs
  arrived : ∀ id stage producerId producer pcollection,
    manager.stages.lookup id = some stage → manager.stages.lookup producerId = some producer →
    producer.completed = true → pcollection ∈ producer.outputs → pcollection ∉ stage.unproduced

namespace Arrived

open WatermarkManager

variable {specs : List StageSpec} {manager after : WatermarkManager}

/-- A rewriting that awaits nothing new, and no output of what it completes. -/
theorem rewrites {f : StageId → StageState → StageState} (h : Arrived specs manager)
    (hRewrites : Rewrites f manager after)
    (hWiring : ∀ id stage, (f id stage).wiring = stage.wiring)
    (hShrinks : ∀ id stage, (f id stage).unproduced ⊆ stage.unproduced)
    (hCompletes : ∀ id stage producerId producer pcollection,
      manager.stages.lookup id = some stage →
      manager.stages.lookup producerId = some producer →
      (f producerId producer).completed = true → producer.completed = false →
      pcollection ∈ producer.outputs → pcollection ∉ (f id stage).unproduced) :
    Arrived specs after := by
  have hFields : ∀ id stage, (f id stage).mainInputs = stage.mainInputs ∧
      (f id stage).outputs = stage.outputs := by
    intro id stage
    injection hWiring id stage with hMain _ hOutputs
    exact ⟨hMain, hOutputs⟩
  refine ⟨h.shape.rewrites hRewrites hWiring, ?_, ?_⟩
  · intro id stage hStage pcollection hAwaited
    obtain ⟨old, hOld, rfl⟩ := hRewrites.exists_before hStage
    rw [(hFields id old).1]
    exact h.awaited id old hOld pcollection (hShrinks id old hAwaited)
  · intro id stage producerId producer pcollection hStage hProducer hCompleted hOutput
    obtain ⟨old, hOld, rfl⟩ := hRewrites.exists_before hStage
    obtain ⟨oldProducer, hOldProducer, rfl⟩ := hRewrites.exists_before hProducer
    rw [(hFields producerId oldProducer).2] at hOutput
    cases hBefore : oldProducer.completed with
    | false =>
        exact hCompletes id old producerId oldProducer pcollection hOld hOldProducer hCompleted
          hBefore hOutput
    | true =>
        intro hAwaited
        exact h.arrived id old producerId oldProducer pcollection hOld hOldProducer hBefore hOutput
          (hShrinks id old hAwaited)

/-- After any change, what a completed stage has put out is still not awaited. -/
theorem change (h : Arrived specs manager) (hChange : Change manager after) :
    Arrived specs after := by
  cases hChange with
  | retouched f hRewrites hTouched =>
      refine h.rewrites hRewrites (fun id stage => (hTouched id stage).wiring) ?_ ?_
      · intro id stage
        rw [(hTouched id stage).same]
      · intro id stage producerId producer pcollection _ _ hAfter hBefore
        rw [(hTouched producerId producer).same, hBefore] at hAfter
        cases hAfter
  | started started _ _ _ hRewrites =>
      have hSame : ∀ stage : StageState, stage.started.unproduced = stage.unproduced ∧
          stage.started.completed = stage.completed := by
        intro stage
        unfold StageState.started
        split <;> exact ⟨rfl, rfl⟩
      refine h.rewrites hRewrites ?_ ?_ ?_
      · intro id stage
        split <;> simp
      · intro id stage
        split
        · rw [(hSame stage).1]
        · exact Finset.Subset.refl _
      · intro id stage producerId producer pcollection _ _ hAfter hBefore
        split at hAfter
        · rw [(hSame producer).2, hBefore] at hAfter
          cases hAfter
        · rw [hBefore] at hAfter
          cases hAfter
  | completed completed stage isEmpty outputMin hStage _ hRewrites =>
      have hUnproduced : ∀ (id : StageId) (current : StageState),
          (if id = completed then current.finished else current).unproduced =
            current.unproduced := by
        intro id current
        split <;> rfl
      refine h.rewrites hRewrites (manager.wiring_completion _ _ _ _) ?_ ?_
      · intro id current
        rw [← hUnproduced id current]
        exact manager.unproduced_foldl_deliver_subset _ _ _ _ _
      · intro id current producerId producer pcollection hCurrent hProducer hAfter hBefore hOutput
        rw [(manager.received_completion completed stage.outputs isEmpty outputMin producerId
          producer).same] at hAfter
        -- only the completing stage has become complete
        have hId : producerId = completed := by
          by_contra hNe
          rw [if_neg hNe, hBefore] at hAfter
          cases hAfter
        rw [hId, hStage] at hProducer
        cases hProducer
        by_cases hReads : id ∈ manager.consumersOf pcollection
        · exact manager.notMem_unproduced_foldl_deliver _ _ _ hOutput hReads _
        · intro hAwaited
          have hOld := manager.unproduced_foldl_deliver_subset _ _ _ _ _ hAwaited
          rw [hUnproduced] at hOld
          obtain ⟨spec, hSpec, hSpecId, hWiring⟩ := h.shape.lookup id current hCurrent
          injection hWiring with hMain
          refine hReads ((h.shape.consumers id pcollection).mpr ⟨spec, hSpec, hSpecId, ?_⟩)
          rw [← hMain]
          exact h.awaited id current hCurrent pcollection hOld
  | released hRewrites =>
      refine h.rewrites hRewrites (fun _ stage => stage.wiring_releaseEmpty)
        (fun _ _ => Finset.Subset.refl _) ?_
      intro id stage producerId producer pcollection _ _ hAfter hBefore
      cases hBefore.symm.trans hAfter

/-- So it is after a refresh. -/
theorem refresh (h : Arrived specs manager) : Arrived specs manager.refresh := by
  obtain ⟨input, output, hRewrites, _⟩ := manager.rewrites_refresh
  refine h.rewrites hRewrites (fun _ _ => rfl) (fun _ _ => Finset.Subset.refl _) ?_
  intro id stage producerId producer pcollection _ _ hAfter hBefore
  cases hBefore.symm.trans hAfter

/-- So it is after any sequence of changes. -/
theorem effects (h : Arrived specs manager) (hEffects : Effects manager after) :
    Arrived specs after := by
  induction hEffects with
  | refl => exact h
  | tail _ hLast ih =>
      cases hLast with
      | changed hChange => exact ih.change hChange
      | refreshed hEq =>
          subst hEq
          exact ih.refresh

/-- Before the first bundle no stage has completed. -/
theorem build (hDistinct : (specs.map StageSpec.id).Nodup) :
    Arrived specs (WatermarkManager.build specs) := by
  refine ⟨shape_build hDistinct, ?_, ?_⟩
  · intro id stage hStage pcollection hAwaited
    obtain ⟨spec, _, _, rfl⟩ := lookup_build specs hStage
    exact List.mem_toFinset.mp hAwaited
  · intro id stage producerId producer pcollection _ hProducer hCompleted
    obtain ⟨spec, _, _, rfl⟩ := lookup_build specs hProducer
    cases hCompleted

end Arrived

/-! The stages of a graph. -/

namespace ExecutableGraph

variable {graph : ExecutableGraph}

theorem mem_sortedIds {ids : List PCollectionId} {pcollection : PCollectionId} :
    pcollection ∈ sortedIds ids ↔ pcollection ∈ ids := by
  rw [sortedIds, List.mem_dedup, List.mem_insertionSort]

/-- The specifications are those of the graph's nodes. -/
theorem mem_specs {splittableConcurrency : Nat} {spec : StageSpec} :
    spec ∈ graph.specs splittableConcurrency ↔ ∃ index node, graph.nodes[index]? = some node ∧
      graph.spec splittableConcurrency index node = spec := by
  rw [specs, List.mem_map]
  constructor
  · rintro ⟨⟨node, index⟩, hMem, rfl⟩
    exact ⟨index, node, List.mk_mem_zipIdx_iff_getElem?.mp hMem, rfl⟩
  · rintro ⟨index, node, hNode, rfl⟩
    exact ⟨(node, index), List.mk_mem_zipIdx_iff_getElem?.mpr hNode, rfl⟩

/-- They have distinct ids. -/
theorem distinct_specs (splittableConcurrency : Nat) :
    ((graph.specs splittableConcurrency).map StageSpec.id).Nodup := by
  have hIds : (graph.specs splittableConcurrency).map StageSpec.id =
      graph.nodes.map ExecutableNode.id := by
    rw [specs, List.map_map, ← List.zipIdx_map_fst 0 graph.nodes, List.map_map, List.zipIdx_map_fst]
    rfl
  rw [hIds]
  exact graph.distinct

/-- Nodes at different positions have different ids. -/
theorem position_unique {first second : Nat} {node other : ExecutableNode}
    (hFirst : graph.nodes[first]? = some node) (hSecond : graph.nodes[second]? = some other)
    (hId : node.id = other.id) : first = second := by
  have hLeft : (graph.nodes.map ExecutableNode.id)[first]? = some node.id := by
    rw [List.getElem?_map, hFirst]
    rfl
  have hRight : (graph.nodes.map ExecutableNode.id)[second]? = some node.id := by
    rw [List.getElem?_map, hSecond, hId]
    rfl
  have hBound := (List.getElem?_eq_some_iff.mp hLeft).1
  exact (List.getElem?_inj hBound graph.distinct).mp (hLeft.trans hRight.symm)

/-- A node is found at the index it stands at. -/
theorem indexOf_eq_some_iff {id : StageId} {index : Nat} :
    graph.indexOf id = some index ↔ ∃ node, graph.nodes[index]? = some node ∧ node.id = id := by
  rw [indexOf, List.findIdx?_eq_some_iff_getElem]
  constructor
  · rintro ⟨hBound, hId, _⟩
    exact ⟨_, List.getElem?_eq_getElem hBound, by simpa using hId⟩
  · rintro ⟨node, hNode, hId⟩
    obtain ⟨hBound, rfl⟩ := List.getElem?_eq_some_iff.mp hNode
    refine ⟨hBound, by simpa using hId, fun position hLess hSame => ?_⟩
    have hOther := List.getElem?_eq_getElem (Nat.lt_trans hLess hBound)
    have hPosition := position_unique hOther hNode (by rw [hId]; simpa using hSame)
    omega

/-- Every PCollection is produced by one node. -/
def SingleProducing (graph : ExecutableGraph) : Prop :=
  ∀ first second node other pcollection, graph.nodes[first]? = some node →
    graph.nodes[second]? = some other → pcollection ∈ graph.outputs first node →
    pcollection ∈ graph.outputs second other → first = second

/-- Where each PCollection has one producer, the specifications agree. -/
theorem SingleProducing.unique (h : graph.SingleProducing) (splittableConcurrency : Nat) :
    UniqueProducers (graph.specs splittableConcurrency) where
  distinct := distinct_specs splittableConcurrency
  single := by
    intro first hFirst second hSecond pcollection hOutput hOther
    obtain ⟨index, node, hNode, rfl⟩ := mem_specs.mp hFirst
    obtain ⟨position, other, hPosition, rfl⟩ := mem_specs.mp hSecond
    obtain rfl := h index position node other pcollection hNode hPosition
      (mem_sortedIds.mp hOutput) (mem_sortedIds.mp hOther)
    cases hNode.symm.trans hPosition
    rfl

/-- The ready stages are those that are ready. -/
theorem mem_readyStages {manager : WatermarkManager} {id : StageId} :
    id ∈ manager.readyStages ↔ manager.stageIsReady id = true := by
  rw [WatermarkManager.readyStages, List.mem_insertionSort, List.mem_filter, and_iff_right_iff_imp]
  intro hReady
  rw [WatermarkManager.stageIsReady] at hReady
  split at hReady
  · cases hReady
  next stage hStage => exact mem_keys_iff.mpr ⟨stage, hStage⟩

section Rule

variable {splittableConcurrency : Nat} {manager : WatermarkManager}

/-- The stage of a node. -/
theorem stage_of_node (h : Shape (graph.specs splittableConcurrency) manager) {index : Nat}
    {node : ExecutableNode} (hNode : graph.nodes[index]? = some node) :
    ∃ stage, manager.stages.lookup node.id = some stage ∧
      stage.wiring = (graph.spec splittableConcurrency index node).wiring :=
  h.registered _ (mem_specs.mpr ⟨index, node, hNode, rfl⟩)

/-- An edge leads from a node that produces its PCollection to one that reads it. -/
theorem edge_endpoints {index : Nat} {edge : ConsumerEdge} (hEdge : edge ∈ graph.incoming index) :
    ∃ source, graph.nodes[edge.source]? = some source ∧
      edge.producedPcolId ∈ graph.outputs edge.source source := by
  have hMem := (List.mem_filter.mp hEdge).1
  refine ⟨_, List.getElem?_eq_getElem (graph.connected edge hMem).1, ?_⟩
  refine List.mem_append_right _ (List.mem_map_of_mem ?_)
  exact List.mem_filter.mpr ⟨hMem, beq_self_eq_true _⟩

/-- A stage that is ready for its first run is ready by the dependency rule: had
a predecessor not completed, its output would still be awaited. -/
theorem dependencyReady_of_ready (h : Bounded (graph.specs splittableConcurrency) manager)
    {index : Nat} {node : ExecutableNode} (hNode : graph.nodes[index]? = some node)
    (hReady : node.id ∈ manager.readyStages) (hFirst : manager.awaitsFirstRun node.id = true) :
    graph.dependencyReady manager index = true := by
  obtain ⟨stage, hStage, hWiring⟩ := stage_of_node h.shape hNode
  injection hWiring with hMain hSide
  have hBarriers : stage.unproduced = ∅ ∧ stage.unproducedSideInputs = ∅ := by
    have hStageReady := mem_readyStages.mp hReady
    rw [WatermarkManager.stageIsReady, hStage] at hStageReady
    by_contra hBlocked
    have hUnready : stage.isReadyWithoutUpstreamBarrier = false := by
      rw [StageState.isReadyWithoutUpstreamBarrier, if_pos]
      tauto
    simp [hUnready] at hStageReady
  have hDone : graph.predecessorsDone manager index = true := by
    rw [predecessorsDone, List.all_eq_true]
    intro edge hEdge
    obtain ⟨source, hSource, hOutput⟩ := edge_endpoints hEdge
    obtain ⟨producer, hProducer, hProducerWiring⟩ := stage_of_node h.shape hSource
    injection hProducerWiring with _ _ hOutputs
    have hCompleted := h.completed_of_unproduced hStage hProducer
      (by rw [hOutputs]; exact mem_sortedIds.mpr hOutput)
      (by
        refine List.mem_append_left _ ?_
        rw [hMain]
        exact mem_sortedIds.mpr (List.mem_map_of_mem hEdge))
      hBarriers.1 hBarriers.2
    rw [hSource, Option.any_some, WatermarkManager.isStageCompleted, hProducer]
    exact hCompleted
  rw [dependencyReady, hNode, Option.any_some, hFirst, hDone, WatermarkManager.sideInputsProduced,
    hStage]
  simp [hBarriers.2]

/-- An ordinary stage that is ready by the dependency rule is ready: what its
predecessors completed is not awaited any more. -/
theorem ready_of_dependencyReady (h : Arrived (graph.specs splittableConcurrency) manager)
    {index : Nat} {node : ExecutableNode} (hNode : graph.nodes[index]? = some node)
    (hReady : graph.dependencyReady manager index = true)
    (hKind : manager.stageKind node.id = some .ordinary) : node.id ∈ manager.readyStages := by
  obtain ⟨stage, hStage, hWiring⟩ := stage_of_node h.shape hNode
  injection hWiring with hMain _ _ _ _ _ hMax
  rw [dependencyReady, hNode, Option.any_some, Bool.and_eq_true, Bool.and_eq_true,
    WatermarkManager.awaitsFirstRun, WatermarkManager.isStageCompleted,
    WatermarkManager.isStageInFlight, WatermarkManager.sideInputsProduced, hStage] at hReady
  obtain ⟨⟨hFirst, hDone⟩, hSide⟩ := hReady
  have hSideProduced : stage.unproducedSideInputs = ∅ := of_decide_eq_true hSide
  have hNotRun : stage.completed = false ∧ stage.inFlight = 0 := by simpa using hFirst
  rw [WatermarkManager.stageKind, hStage] at hKind
  have hOrdinary : stage.kind = .ordinary := Option.some.inj hKind
  have hProduced : stage.unproduced = ∅ := by
    refine Finset.eq_empty_of_forall_notMem fun pcollection hAwaited => ?_
    have hInput := h.awaited node.id stage hStage pcollection hAwaited
    rw [hMain] at hInput
    obtain ⟨edge, hEdge, rfl⟩ := List.mem_map.mp (mem_sortedIds.mp hInput)
    obtain ⟨source, hSource, hOutput⟩ := edge_endpoints hEdge
    obtain ⟨producer, hProducer, hProducerWiring⟩ := stage_of_node h.shape hSource
    injection hProducerWiring with _ _ hOutputs
    have hCompleted := List.all_eq_true.mp hDone edge hEdge
    rw [hSource, Option.any_some, WatermarkManager.isStageCompleted, hProducer] at hCompleted
    exact h.arrived node.id stage source.id producer edge.producedPcolId hStage hProducer hCompleted
      (by rw [hOutputs]; exact mem_sortedIds.mpr hOutput) hAwaited
  have hRoom : ¬stage.maxInFlight ≤ stage.inFlight := by
    rw [hMax, hNotRun.2]
    exact Nat.not_le_of_lt (Nat.lt_of_lt_of_le Nat.zero_lt_one (Nat.le_max_right _ _))
  have hMayRun : stage.isReadyWithoutUpstreamBarrier = true := by
    have hWork : stage.hasWork = true := by rw [StageState.hasWork, hNotRun.1]; rfl
    rw [StageState.isReadyWithoutUpstreamBarrier, if_neg (by tauto), if_neg (by omega), hWork,
      hOrdinary]
    rfl
  rw [mem_readyStages, WatermarkManager.stageIsReady, hStage]
  simp [hMayRun, hOrdinary]

/-- The barriers of a manager and the dependency rule agree. -/
theorem matches_of_bounded (hBounded : Bounded (graph.specs splittableConcurrency) manager)
    (hArrived : Arrived (graph.specs splittableConcurrency) manager) :
    graph.eligibilityMatchesDependencyRule manager manager.readyStages = true := by
  rw [eligibilityMatchesDependencyRule, Bool.and_eq_true, List.all_eq_true, List.all_eq_true]
  constructor
  · intro index hChosen
    obtain ⟨id, hReady, hFound⟩ := List.mem_filterMap.mp hChosen
    obtain ⟨node, hNode, rfl⟩ := indexOf_eq_some_iff.mp hFound
    rw [hNode, Option.all_some]
    cases hFirst : manager.awaitsFirstRun node.id with
    | false => rfl
    | true =>
        have hRange := List.mem_range.mpr (List.getElem?_eq_some_iff.mp hNode).1
        exact decide_eq_true (List.mem_filter.mpr
          ⟨hRange, dependencyReady_of_ready hBounded hNode hReady hFirst⟩)
  · intro index hLegacy
    obtain ⟨hRange, hReady⟩ := List.mem_filter.mp hLegacy
    obtain ⟨node, hNode⟩ : ∃ node, graph.nodes[index]? = some node :=
      ⟨_, List.getElem?_eq_getElem (List.mem_range.mp hRange)⟩
    rw [hNode, Option.all_some]
    by_cases hKind : manager.stageKind node.id = some .ordinary
    · have hStage := ready_of_dependencyReady hArrived hNode hReady hKind
      have hChosen : index ∈ manager.readyStages.filterMap graph.indexOf :=
        List.mem_filterMap.mpr ⟨_, hStage, indexOf_eq_some_iff.mpr ⟨_, hNode, rfl⟩⟩
      simp [hChosen]
    · simp [hKind]

end Rule

/-- In every state of a run, before and after a refresh, the stages that are
ready pass both assertions of the dependency rule. -/
theorem eligibilityMatches (graph : ExecutableGraph) (splittableConcurrency : Nat)
    (hSingle : graph.SingleProducing) {actions : List SchedulerAction} {scheduler : NodeScheduler}
    (hRun : (NodeScheduler.new graph splittableConcurrency).run actions = some scheduler) :
    graph.eligibilityMatchesDependencyRule scheduler.watermarks
        scheduler.watermarks.readyStages = true ∧
      graph.eligibilityMatchesDependencyRule scheduler.watermarks.refresh
        scheduler.watermarks.refresh.readyStages = true := by
  have hUnique := hSingle.unique splittableConcurrency
  have hEffects := NodeScheduler.effects_run hRun
  have hBounded := (Bounded.build hUnique).effects hUnique hEffects
  have hArrived := (Arrived.build hUnique.distinct).effects hEffects
  exact ⟨matches_of_bounded hBounded hArrived, matches_of_bounded hBounded.refresh hArrived.refresh⟩

/-- A source and a worker stage that reads from it. -/
def readThenWork : ExecutableGraph where
  nodes := [.runner "read" false true ["lines"], .worker "work" ["split"] false [] ["words"]]
  edges := [⟨0, 1, "lines"⟩]
  pcollectionStrategies := ∅
  windowingStrategies := ∅
  distinct := by decide
  connected := by decide

theorem outputs_readThenWork {index : Nat} {node : ExecutableNode} {pcollection : PCollectionId}
    (hNode : readThenWork.nodes[index]? = some node)
    (hOutput : pcollection ∈ readThenWork.outputs index node) :
    index = 0 ∧ pcollection = "lines" ∨ index = 1 ∧ pcollection = "words" := by
  rcases index with _ | _ | index
  · cases hNode
    simp_all [outputs, outgoing, readThenWork, ExecutableNode.outputPcols]
  · cases hNode
    simp_all [outputs, outgoing, readThenWork, ExecutableNode.outputPcols]
  · simp [readThenWork] at hNode

theorem readThenWork_singleProducing : readThenWork.SingleProducing := by
  intro first second node other pcollection hFirst hSecond hOutput hOther
  rcases outputs_readThenWork hFirst hOutput with ⟨rfl, rfl⟩ | ⟨rfl, rfl⟩
  · rcases outputs_readThenWork hSecond hOther with ⟨rfl, _⟩ | ⟨_, hNe⟩
    · rfl
    · exact absurd hNe (by decide)
  · rcases outputs_readThenWork hSecond hOther with ⟨_, hNe⟩ | ⟨rfl, _⟩
    · exact absurd hNe (by decide)
    · rfl

/-- The source runs and completes, and the worker stage becomes eligible. -/
theorem eligibilityMatches_readThenWork :
    ∃ scheduler, (NodeScheduler.new readThenWork 4).run
        [.nextNodes, .markComplete "read" (some 5) none] = some scheduler ∧
      readThenWork.eligibilityMatchesDependencyRule scheduler.watermarks
        scheduler.watermarks.readyStages = true ∧
      readThenWork.eligibilityMatchesDependencyRule scheduler.watermarks.refresh
        scheduler.watermarks.refresh.readyStages = true := by
  have hRun : ∃ scheduler, (NodeScheduler.new readThenWork 4).run
      [.nextNodes, .markComplete "read" (some 5) none] = some scheduler := ⟨_, rfl⟩
  obtain ⟨scheduler, hRun⟩ := hRun
  exact ⟨scheduler, hRun,
    eligibilityMatches readThenWork 4 readThenWork_singleProducing hRun⟩

end ExecutableGraph
end FlareDB
