import FlareDB.Engine.Watermark.Protocol
import Mathlib.Data.Finset.Card
import Mathlib.Order.Preorder.Finite

/-! The graph a manager is built from, the wiring that no operation changes, and
the rank of a stage in an acyclic graph. -/
namespace FlareDB

open KeyedStore

/-- A stage to register: its PCollections, its gate and its concurrency. -/
structure StageSpec where
  id : StageId
  mainInputs : List PCollectionId
  sideInputs : List PCollectionId
  outputs : List PCollectionId
  kind : StageKind
  requiredWatermark : Timestamp
  maxInFlight : Nat
  autoFinish : Bool
deriving DecidableEq

/-- The part of a stage that is fixed once it is registered. -/
structure Wiring where
  mainInputs : List PCollectionId
  sideInputs : List PCollectionId
  outputs : List PCollectionId
  isSource : Bool
  kind : StageKind
  requiredWatermark : Timestamp
  maxInFlight : Nat

def StageState.wiring (stage : StageState) : Wiring where
  mainInputs := stage.mainInputs
  sideInputs := stage.sideInputs
  outputs := stage.outputs
  isSource := stage.isSource
  kind := stage.kind
  requiredWatermark := stage.requiredWatermark
  maxInFlight := stage.maxInFlight

namespace StageSpec

def inputs (spec : StageSpec) : List PCollectionId :=
  spec.mainInputs ++ spec.sideInputs

def wiring (spec : StageSpec) : Wiring where
  mainInputs := spec.mainInputs
  sideInputs := spec.sideInputs
  outputs := spec.outputs
  isSource := spec.mainInputs.isEmpty
  kind := spec.kind
  requiredWatermark := spec.requiredWatermark
  maxInFlight := max spec.maxInFlight 1

/-- The state of a stage when it has been registered. -/
def state (spec : StageSpec) : StageState :=
  let stage := StageState.init spec.mainInputs spec.sideInputs spec.outputs
  { stage with
    source := stage.source.map fun source => { source with autoFinish := spec.autoFinish }
    kind := spec.kind
    requiredWatermark := spec.requiredWatermark
    maxInFlight := max spec.maxInFlight 1 }

/-- A stage as registered is wired by its specification. -/
theorem wiring_state (spec : StageSpec) : spec.state.wiring = spec.wiring := by
  cases hInputs : spec.mainInputs.isEmpty <;>
    simp [state, StageState.wiring, wiring, StageState.init, StageState.isSource, hInputs]

end StageSpec

namespace WatermarkManager

/-- The result of an operation whose failure is ignored. -/
def orKeep (manager : WatermarkManager) (result : Except String WatermarkManager) :
    WatermarkManager :=
  result.toOption.getD manager

/-- Register a stage and configure it. -/
def register (manager : WatermarkManager) (spec : StageSpec) : WatermarkManager :=
  let added := manager.addStage spec.id spec.mainInputs spec.sideInputs spec.outputs
  let sourced := added.orKeep (added.setSourceAutoFinish spec.id spec.autoFinish)
  let kinded := sourced.orKeep (sourced.setStageKind spec.id spec.kind)
  let gated := kinded.orKeep (kinded.setRequiredWatermark spec.id spec.requiredWatermark)
  gated.orKeep (gated.setMaxInFlight spec.id spec.maxInFlight)

/-- The manager of a graph. -/
def build (specs : List StageSpec) : WatermarkManager :=
  specs.foldl register new

/-- A change of a stage that may be unknown rewrites that stage only. -/
theorem rewrites_orKeep_withStage (manager : WatermarkManager) (id : StageId)
    (f : StageState → StageState) :
    Rewrites (fun other stage => if other = id then f stage else stage) manager
      (manager.orKeep (manager.withStage id f)) := by
  unfold orKeep withStage
  split
  next hStage =>
    refine (Rewrites.refl manager).congr ?_
    intro other stage hOther
    rw [if_neg]
    rintro rfl
    rw [hStage] at hOther
    cases hOther
  · exact manager.rewrites_modifyStage id f

/-- So does one of a source. -/
theorem rewrites_orKeep_withSource (manager : WatermarkManager) (id : StageId)
    (f : SourceState → SourceState) :
    Rewrites (fun other stage =>
        if other = id then { stage with source := stage.source.map f } else stage) manager
      (manager.orKeep (manager.withSource id f)) := by
  unfold orKeep withSource
  split
  next hStage =>
    refine (Rewrites.refl manager).congr ?_
    intro other stage hOther
    rw [if_neg]
    rintro rfl
    rw [hStage] at hOther
    cases hOther
  next stage hStage =>
    split
    next hNone =>
      refine (Rewrites.refl manager).congr ?_
      intro other current hOther
      split
      next hId =>
        rw [hId, hStage] at hOther
        cases hOther
        rw [Option.isNone_iff_eq_none] at hNone
        cases stage
        simp_all
      · rfl
    · exact manager.rewrites_modifyStage id _

/-- Registering a stage adds it with the state its specification gives, and
leaves the wiring of `addStage`. -/
theorem register_spec (manager : WatermarkManager) (spec : StageSpec) :
    (∀ id, (manager.register spec).stages.lookup id =
      if id = spec.id then some spec.state else manager.stages.lookup id) ∧
    (manager.register spec).stages.keys =
      spec.id :: (manager.stages.erase spec.id).keys ∧
    (manager.register spec).producers =
      spec.outputs.foldl (fun producers output => producers.insert output spec.id)
        manager.producers ∧
    (manager.register spec).consumers =
      spec.mainInputs.foldl (addConsumer spec.id) manager.consumers ∧
    (manager.register spec).sideInputConsumers =
      spec.sideInputs.foldl (addConsumer spec.id) manager.sideInputConsumers := by
  let added := manager.addStage spec.id spec.mainInputs spec.sideInputs spec.outputs
  have hConfigured : Rewrites (fun id stage =>
      if id = spec.id then
        { stage with
          source := stage.source.map fun source => { source with autoFinish := spec.autoFinish }
          kind := spec.kind
          requiredWatermark := spec.requiredWatermark
          maxInFlight := max spec.maxInFlight 1 }
      else stage) added (manager.register spec) := by
    refine ((((added.rewrites_orKeep_withSource spec.id _).trans
      (rewrites_orKeep_withStage _ spec.id _)).trans
      (rewrites_orKeep_withStage _ spec.id _)).trans
      (rewrites_orKeep_withStage _ spec.id _)).congr ?_
    intro id stage _
    by_cases hId : id = spec.id <;> simp [hId]
  refine ⟨fun id => ?_, hConfigured.keys, hConfigured.producers, hConfigured.consumers,
    hConfigured.sideInputConsumers⟩
  rw [hConfigured.lookup]
  by_cases hId : id = spec.id
  · subst hId
    simp [added, addStage, StageSpec.state]
  · simp [added, addStage, hId]

/-- Registering a stage makes it a consumer of its inputs. -/
theorem mem_foldl_addConsumer (stage other : StageId) (inputs : List PCollectionId)
    (consumers : Store PCollectionId (List StageId)) (pcollection : PCollectionId) :
    other ∈ ((inputs.foldl (addConsumer stage) consumers).lookup pcollection).getD [] ↔
      (other = stage ∧ pcollection ∈ inputs) ∨
        other ∈ (consumers.lookup pcollection).getD [] := by
  induction inputs generalizing consumers with
  | nil => simp
  | cons input rest ih =>
      rw [List.foldl_cons, ih]
      by_cases hInput : pcollection = input
      · subst hInput
        by_cases hKnown : stage ∈ (consumers.lookup pcollection).getD []
        · simp only [addConsumer, hKnown, if_true, AList.lookup_insert, Option.getD_some,
            List.mem_cons, true_or, and_true]
          grind
        · simp only [addConsumer, hKnown, if_false, AList.lookup_insert, Option.getD_some,
            List.mem_cons, List.mem_append, true_or, and_true, List.not_mem_nil, or_false]
          grind
      · simp [addConsumer, AList.lookup_insert_ne hInput, hInput]

/-- It makes it the producer of its outputs. -/
theorem lookup_foldl_producers (stage : StageId) (outputs : List PCollectionId)
    (producers : Store PCollectionId StageId) (pcollection : PCollectionId) :
    (outputs.foldl (fun producers output => producers.insert output stage) producers).lookup
        pcollection =
      if pcollection ∈ outputs then some stage else producers.lookup pcollection := by
  induction outputs generalizing producers with
  | nil => simp
  | cons output rest ih =>
      rw [List.foldl_cons, ih]
      by_cases hRest : pcollection ∈ rest
      · simp [hRest]
      · by_cases hOutput : pcollection = output
        · subst hOutput
          simp
        · simp [hRest, hOutput]

end WatermarkManager

/-- A manager whose stages and wiring are those of a graph. -/
structure Shape (specs : List StageSpec) (manager : WatermarkManager) : Prop where
  lookup : ∀ id stage, manager.stages.lookup id = some stage →
    ∃ spec ∈ specs, spec.id = id ∧ stage.wiring = spec.wiring
  registered : ∀ spec ∈ specs, ∃ stage, manager.stages.lookup spec.id = some stage ∧
    stage.wiring = spec.wiring
  length : manager.stages.keys.length = specs.length
  consumers : ∀ id pcollection, id ∈ manager.consumersOf pcollection ↔
    ∃ spec ∈ specs, spec.id = id ∧ pcollection ∈ spec.mainInputs
  sideInputConsumers : ∀ id pcollection, id ∈ manager.sideInputConsumersOf pcollection ↔
    ∃ spec ∈ specs, spec.id = id ∧ pcollection ∈ spec.sideInputs
  producers : ∀ pcollection id, manager.producers.lookup pcollection = some id →
    ∃ spec ∈ specs, spec.id = id ∧ pcollection ∈ spec.outputs
  produced : ∀ spec ∈ specs, ∀ pcollection ∈ spec.outputs,
    ∃ id, manager.producers.lookup pcollection = some id

namespace Shape

variable {specs : List StageSpec} {manager after : WatermarkManager}

/-- A rewrite that keeps the wiring keeps the shape. -/
theorem rewrites {f : StageId → StageState → StageState} (hShape : Shape specs manager)
    (h : Rewrites f manager after) (hWiring : ∀ id stage, (f id stage).wiring = stage.wiring) :
    Shape specs after where
  lookup id stage hStage := by
    obtain ⟨old, hOld, rfl⟩ := h.exists_before hStage
    rw [hWiring]
    exact hShape.lookup id old hOld
  registered spec hSpec := by
    obtain ⟨stage, hStage, hMatch⟩ := hShape.registered spec hSpec
    exact ⟨_, h.lookup_of_before hStage, (hWiring _ _).trans hMatch⟩
  length := by rw [h.keys, hShape.length]
  consumers id pcollection := by rw [h.consumersOf, hShape.consumers]
  sideInputConsumers id pcollection := by rw [h.sideInputConsumersOf, hShape.sideInputConsumers]
  producers := by rw [h.producers]; exact hShape.producers
  produced := by rw [h.producers]; exact hShape.produced

end Shape

namespace WatermarkManager

theorem build_append (specs : List StageSpec) (spec : StageSpec) :
    build (specs ++ [spec]) = (build specs).register spec := by
  simp [build]

/-- A stage of a built manager is in the state its specification gives. -/
theorem lookup_build (specs : List StageSpec) {id : StageId} {stage : StageState}
    (hStage : (build specs).stages.lookup id = some stage) :
    ∃ spec ∈ specs, spec.id = id ∧ stage = spec.state := by
  induction specs using List.reverseRecOn with
  | nil => simp [build, new] at hStage
  | append_singleton specs spec ih =>
      rw [build_append, ((build specs).register_spec spec).1] at hStage
      split at hStage
      next hId => exact ⟨spec, by simp, hId.symm, (Option.some.inj hStage).symm⟩
      · obtain ⟨other, hOther, hState⟩ := ih hStage
        exact ⟨other, List.mem_append_left _ hOther, hState⟩

/-- A manager built from specifications has their shape. -/
theorem shape_build {specs : List StageSpec} (hDistinct : (specs.map StageSpec.id).Nodup) :
    Shape specs (build specs) := by
  induction specs using List.reverseRecOn with
  | nil =>
      constructor <;> simp [build, new, consumersOf, sideInputConsumersOf]
  | append_singleton specs spec ih =>
      rw [List.map_append, List.nodup_append] at hDistinct
      have hShape := ih hDistinct.1
      have hFresh : ∀ other ∈ specs, other.id ≠ spec.id := fun other hOther =>
        hDistinct.2.2 other.id (List.mem_map_of_mem hOther) spec.id (by simp)
      have hAbsent : spec.id ∉ (build specs).stages := by
        intro hMem
        obtain ⟨stage, hStage⟩ := mem_keys_iff.mp (AList.mem_keys.mp hMem)
        obtain ⟨other, hOther, hId, _⟩ := hShape.lookup _ _ hStage
        exact hFresh other hOther hId
      obtain ⟨hLookup, hKeys, hProducers, hConsumers, hSide⟩ := (build specs).register_spec spec
      rw [build_append]
      refine ⟨?_, ?_, ?_, ?_, ?_, ?_, ?_⟩
      · intro id stage hStage
        rw [← build_append] at hStage
        obtain ⟨other, hOther, hId, rfl⟩ := lookup_build _ hStage
        exact ⟨other, hOther, hId, other.wiring_state⟩
      · intro other hOther
        rcases List.mem_append.mp hOther with hOld | hNew
        · obtain ⟨stage, hStage, hMatch⟩ := hShape.registered other hOld
          exact ⟨stage, by rw [hLookup, if_neg (hFresh other hOld), hStage], hMatch⟩
        · rw [List.mem_singleton.mp hNew]
          exact ⟨spec.state, by rw [hLookup, if_pos rfl], spec.wiring_state⟩
      · rw [hKeys, erase_of_lookup_none (AList.lookup_eq_none.mpr hAbsent), List.length_cons,
          hShape.length, List.length_append]
        rfl
      · intro id pcollection
        rw [consumersOf, hConsumers, mem_foldl_addConsumer]
        have hOld := hShape.consumers id pcollection
        rw [consumersOf] at hOld
        rw [hOld]
        simp only [List.mem_append, List.mem_singleton]
        grind
      · intro id pcollection
        rw [sideInputConsumersOf, hSide, mem_foldl_addConsumer]
        have hOld := hShape.sideInputConsumers id pcollection
        rw [sideInputConsumersOf] at hOld
        rw [hOld]
        simp only [List.mem_append, List.mem_singleton]
        grind
      · intro pcollection id hProducer
        rw [hProducers, lookup_foldl_producers] at hProducer
        split at hProducer
        next hOutput =>
          cases hProducer
          exact ⟨spec, by simp, rfl, hOutput⟩
        · obtain ⟨other, hOther, hRest⟩ := hShape.producers pcollection id hProducer
          exact ⟨other, List.mem_append_left _ hOther, hRest⟩
      · intro other hOther pcollection hOutput
        rw [hProducers, lookup_foldl_producers]
        split
        · exact ⟨spec.id, rfl⟩
        next hNew =>
          rcases List.mem_append.mp hOther with hOld | hLast
          · exact hShape.produced other hOld pcollection hOutput
          · rw [List.mem_singleton.mp hLast] at hOutput
            exact absurd hOutput hNew

end WatermarkManager

section Wiring

namespace StageState

variable (stage : StageState)

@[simp] theorem wiring_started : stage.started.wiring = stage.wiring := by
  unfold started
  split <;> rfl

@[simp] theorem wiring_finished : stage.finished.wiring = stage.wiring := rfl

@[simp] theorem wiring_releaseEmpty : stage.releaseEmpty.wiring = stage.wiring := rfl

/-- Retouching keeps the wiring. -/
theorem Retouched.wiring {before after : StageState} (h : Retouched before after) :
    after.wiring = before.wiring := by
  have hSource : after.isSource = before.isSource := h.isSome_source
  rw [StageState.wiring, hSource, h.same]
  rfl

end StageState

/-- So does receiving. -/
theorem StageState.Received.wiring {before after : StageState} (h : before.Received after) :
    after.wiring = before.wiring := by
  rw [h.same]
  rfl

theorem WatermarkManager.wiring_completion (manager : WatermarkManager) (producer : StageId)
    (outputs : List PCollectionId) (isEmpty : Bool) (outputMin : Option Timestamp)
    (id : StageId) (stage : StageState) :
    (manager.completion producer outputs isEmpty outputMin id stage).wiring = stage.wiring := by
  rw [(manager.received_completion producer outputs isEmpty outputMin id stage).wiring]
  split <;> simp

/-- Every change of the manager keeps its shape. -/
theorem Shape.change {specs : List StageSpec} {manager after : WatermarkManager}
    (hShape : Shape specs manager) (hChange : WatermarkManager.Change manager after) :
    Shape specs after := by
  cases hChange with
  | retouched f h hTouched =>
      exact hShape.rewrites h fun id stage => (hTouched id stage).wiring
  | started id stage _ _ h =>
      refine hShape.rewrites h fun other current => ?_
      split <;> simp
  | completed id stage isEmpty outputMin _ _ h =>
      exact hShape.rewrites h (manager.wiring_completion id stage.outputs isEmpty outputMin)
  | released h => exact hShape.rewrites h fun _ stage => stage.wiring_releaseEmpty

/-- So does a refresh. -/
theorem Shape.refresh {specs : List StageSpec} {manager : WatermarkManager}
    (hShape : Shape specs manager) : Shape specs manager.refresh := by
  obtain ⟨input, output, hRefresh, _⟩ := manager.rewrites_refresh
  exact hShape.rewrites hRefresh fun _ _ => rfl

end Wiring

/-- One stage of a graph reads an output of another. -/
def Feeds (specs : List StageSpec) (producer consumer : StageSpec) : Prop :=
  producer ∈ specs ∧ consumer ∈ specs ∧ ∃ pcollection ∈ producer.outputs,
    pcollection ∈ consumer.inputs

/-- A graph the engine accepts: stage ids are distinct, every input has exactly
one producer, main and side inputs form no cycle, and no gate lies beyond the
largest timestamp. -/
structure WellFormed (specs : List StageSpec) : Prop where
  distinct : (specs.map StageSpec.id).Nodup
  produced : ∀ spec ∈ specs, ∀ pcollection ∈ spec.inputs,
    ∃! producer, producer ∈ specs ∧ pcollection ∈ producer.outputs
  acyclic : ∀ spec, ¬Relation.TransGen (Feeds specs) spec spec
  required : ∀ spec ∈ specs, spec.requiredWatermark ≤ maxTimestamp

/-- A graph that can be numbered from producers to consumers has no cycle. -/
theorem acyclic_of_numbering {specs : List StageSpec} (number : StageSpec → Nat)
    (h : ∀ producer consumer, Feeds specs producer consumer → number producer < number consumer)
    (spec : StageSpec) : ¬Relation.TransGen (Feeds specs) spec spec := by
  intro hCycle
  have hLess : ∀ other, Relation.TransGen (Feeds specs) spec other →
      number spec < number other := by
    intro other hPath
    induction hPath with
    | single hFeeds => exact h _ _ hFeeds
    | tail _ hFeeds ih => exact ih.trans (h _ _ hFeeds)
  exact lt_irrefl _ (hLess spec hCycle)

section Rank

open scoped Classical in
/-- The stages above a stage. -/
noncomputable def ancestors (specs : List StageSpec) (spec : StageSpec) : Finset StageSpec :=
  specs.toFinset.filter fun other => Relation.TransGen (Feeds specs) other spec

/-- How many stages lie above a stage. -/
noncomputable def rank (specs : List StageSpec) (spec : StageSpec) : Nat :=
  (ancestors specs spec).card

/-- A stage's ancestors are those that feed it, directly or not. -/
theorem mem_ancestors {specs : List StageSpec} {spec other : StageSpec} :
    other ∈ ancestors specs spec ↔ other ∈ specs ∧ Relation.TransGen (Feeds specs) other spec := by
  simp [ancestors]

variable {specs : List StageSpec} (hGraph : WellFormed specs)
include hGraph

/-- A stage that feeds another has the smaller rank. -/
theorem rank_lt_rank {producer consumer : StageSpec} (h : Feeds specs producer consumer) :
    rank specs producer < rank specs consumer := by
  refine Finset.card_lt_card ((Finset.ssubset_iff_of_subset ?_).mpr ⟨producer, ?_, ?_⟩)
  · intro other hOther
    obtain ⟨hMem, hPath⟩ := mem_ancestors.mp hOther
    exact mem_ancestors.mpr ⟨hMem, hPath.tail h⟩
  · exact mem_ancestors.mpr ⟨h.1, .single h⟩
  · intro hSelf
    exact hGraph.acyclic producer (mem_ancestors.mp hSelf).2

theorem rank_lt_length {spec : StageSpec} (hSpec : spec ∈ specs) :
    rank specs spec < specs.length := by
  refine lt_of_lt_of_le (Finset.card_lt_card
    ((Finset.ssubset_iff_of_subset ?_).mpr ⟨spec, List.mem_toFinset.mpr hSpec, ?_⟩))
    (List.toFinset_card_le specs)
  · intro other hOther
    exact List.mem_toFinset.mpr (mem_ancestors.mp hOther).1
  · intro hSelf
    exact hGraph.acyclic spec (mem_ancestors.mp hSelf).2

end Rank

/-- A source that writes one PCollection. -/
def readStage : StageSpec where
  id := "read"
  mainInputs := []
  sideInputs := []
  outputs := ["lines"]
  kind := .ordinary
  requiredWatermark := minTimestamp
  maxInFlight := 1
  autoFinish := true

/-- A source that is run again until it reports its end. -/
def streamStage : StageSpec :=
  { readStage with autoFinish := false }

/-- A stage that reads what the source writes. -/
def workStage (kind : StageKind) (requiredWatermark : Timestamp) (maxInFlight : Nat) :
    StageSpec where
  id := "work"
  mainInputs := ["lines"]
  sideInputs := []
  outputs := ["words"]
  kind := kind
  requiredWatermark := requiredWatermark
  maxInFlight := maxInFlight
  autoFinish := true

/-- A stage that reads what the work stage writes. -/
def sinkStage : StageSpec where
  id := "sink"
  mainInputs := ["words"]
  sideInputs := []
  outputs := []
  kind := .ordinary
  requiredWatermark := minTimestamp
  maxInFlight := 1
  autoFinish := true

theorem wellFormed_sourceThenWork (autoFinish : Bool) (kind : StageKind)
    {requiredWatermark : Timestamp} (hRequired : requiredWatermark ≤ maxTimestamp)
    (maxInFlight : Nat) :
    WellFormed [{ readStage with autoFinish := autoFinish },
      workStage kind requiredWatermark maxInFlight] where
  distinct := by simp [readStage, workStage]
  produced := by
    intro spec hSpec pcollection hInput
    refine ⟨{ readStage with autoFinish := autoFinish }, ?_, ?_⟩ <;>
      simp_all [readStage, workStage, StageSpec.inputs] <;> grind
  acyclic := acyclic_of_numbering (fun spec => spec.mainInputs.length) (by
    simp only [Feeds, readStage, workStage, StageSpec.inputs]
    grind)
  required := by
    intro spec hSpec
    simp only [List.mem_cons, List.not_mem_nil, or_false] at hSpec
    rcases hSpec with rfl | rfl
    · exact minTimestamp_le_maxTimestamp
    · exact hRequired

end FlareDB
