import Dataflow.Proofs.Failures
import Dataflow.Proofs.Legality
import Mathlib.Data.List.Flatten

/-!
# Workflows and policies

A workflow has nothing to merge.  The mappings of an intake fill different parts of an
input, drawing spreads them over edges and loses none, and what an edge extracts is for
the targets of its own mappings.  So there is one value for each target whenever a
station puts an input together, and it makes no difference which policies there are.

* `Circuit.invoke_withMerges`, `Circuit.transform_withMerges`: circuits with other
  policies.
* `Workflow.unmerged_of_compiled`: the circuits of workflows have nothing to merge.
* `Workflow.compile_registry_irrelevant`: workflows under two registries.
-/

namespace Dataflow

/-! ## Circuits with other policies -/

/-- The same station with other policies. -/
def Station.withMerges (station : Station) (merges : MergeRegistry) : Station :=
  { station with assembler := station.assembler.withMerges merges }

namespace Circuit

/-- The same circuit with other policies. -/
def withMerges (circuit : Circuit) (merges : MergeRegistry) : Circuit :=
  { circuit with
    stations := circuit.stations.map (·.withMerges merges)
    options := { circuit.options with merges } }

variable {circuit : Circuit} {merges : MergeRegistry}

theorem order_withMerges (circuit : Circuit) (merges : MergeRegistry) :
    (circuit.withMerges merges).order = circuit.order := by
  show (circuit.stations.map (·.withMerges merges)).map (·.key) = circuit.stations.map (·.key)
  rw [List.map_map]
  rfl

theorem feeding_withMerges (circuit : Circuit) (merges : MergeRegistry) (key : String) :
    (circuit.withMerges merges).feeding key = circuit.feeding key := by
  unfold feeding
  rw [order_withMerges]
  rfl

/-- Whatever some of the wires of a station contribute, there is one value for each
target. -/
def Unmerged (circuit : Circuit) : Prop :=
  ∀ station ∈ circuit.stations, ∀ wires, wires.Sublist (circuit.feeding station.key) →
    ∀ contributions, Contribute wires contributions → (gather contributions).Single

theorem contribute_of_mapM {outputs : Table Value} {wires : List Wire}
    {contributions : List Fields} (h : wires.mapM (contribution outputs) = .ok contributions) :
    Contribute wires contributions :=
  (forall₂_of_mapM_eq_ok h).imp fun _ _ hfields => (contribution_eq_ok hfields).imp fun _ => And.right

/-- The input of a station does not depend on the policies. -/
theorem stationInput_withMerges (h : circuit.Unmerged) {station : Station}
    (hstation : station ∈ circuit.stations) (outputs : Table Value) :
    (circuit.withMerges merges).stationInput outputs (station.withMerges merges) =
      circuit.stationInput outputs station := by
  unfold stationInput
  show ((circuit.withMerges merges).feeding station.key).mapM (contribution outputs) >>= _ = _
  rw [feeding_withMerges]
  cases hcontributions : (circuit.feeding station.key).mapM (contribution outputs) with
  | error e => rfl
  | ok contributions =>
    exact station.assembler.assemble_withMerges merges
      (h station hstation _ (List.Sublist.refl _) contributions (contribute_of_mapM hcontributions))

/-- Neither does a run on a value. -/
theorem invoke_withMerges (h : circuit.Unmerged) (merges : MergeRegistry) (value : Value) :
    (circuit.withMerges merges).invoke value = circuit.invoke value := by
  have hstep : ∀ station ∈ circuit.stations, ∀ outputs,
      (circuit.withMerges merges).runStation outputs (station.withMerges merges) =
        circuit.runStation outputs station := by
    intro station hstation outputs
    unfold runStation
    rw [stationInput_withMerges h hstation]
    rfl
  have hrun : ∀ input, (circuit.withMerges merges).runStations input = circuit.runStations input := by
    intro input
    show (circuit.stations.map (·.withMerges merges)).foldlM _ _ = _
    rw [List.foldlM_map]
    exact foldlM_congr _ hstep
  unfold invoke
  rw [funext hrun]
  rfl

/-- One contribution makes an input that does not depend on the policies. -/
theorem inputs_withMerges {W : Type} [Ranked W] (station : Station) (merges : MergeRegistry) :
    Network.inputs (W := W) (station.withMerges merges) = Network.inputs station := by
  have hassemble : (station.withMerges merges).assembler.assembleOne =
      station.assembler.assembleOne :=
    funext fun fields =>
      station.assembler.assemble_withMerges merges (single_gather_singleton fields)
  rw [Network.inputs, hassemble]
  rfl

/-- So a run on a stream does not depend on them either, whatever there is to merge. -/
theorem transform_withMerges (circuit : Circuit) (merges : MergeRegistry)
    (chunks : List (Chunk Value)) :
    (circuit.withMerges merges).transform chunks = circuit.transform chunks := by
  have hcomplete : ∀ (stations : List Station) (network : Network),
      Network.complete (circuit.withMerges merges) (stations.map (·.withMerges merges)) network =
        Network.complete circuit stations network := by
    intro stations
    induction stations with
    | nil => exact fun _ => rfl
    | cons station rest ih =>
      intro network
      have hlanes : (circuit.withMerges merges).feeding (station.withMerges merges).key =
          circuit.feeding station.key := feeding_withMerges circuit merges station.key
      have hattach : ∀ node lanes, network.attach (circuit.withMerges merges)
          (station.withMerges merges) node lanes = network.attach circuit station node lanes := by
        intro node lanes
        unfold Network.attach
        rw [inputs_withMerges]
        rfl
      have hresult : ∀ lanes, network.result (station.withMerges merges) lanes =
          network.result station lanes := by
        intro lanes
        unfold Network.result
        rw [inputs_withMerges]
      have hrole : (station.withMerges merges).role = station.role := rfl
      rw [List.map_cons, Network.complete, Network.complete, hlanes, hrole]
      cases station.role with
      | start => exact ih network
      | finish =>
        dsimp only
        cases network.lanes (circuit.feeding station.key) with
        | error e => rfl
        | ok lanes => exact congrArg _ (hresult lanes)
      | work node =>
        dsimp only
        cases network.lanes (circuit.feeding station.key) with
        | error e => rfl
        | ok lanes =>
          dsimp only
          rw [hattach]
          exact ih _
  exact hcomplete circuit.stations (.ofInput circuit chunks)

/-- Two circuits do the same on every value and on every stream. -/
structure SameRuns (circuit other : Circuit) : Prop where
  invoke : ∀ value, circuit.invoke value = other.invoke value
  transform : ∀ chunks, circuit.transform chunks = other.transform chunks

end Circuit

/-! ## Circuits of workflows -/

namespace Graph

variable {graph : Graph} {options : CompileOptions} {circuit : Circuit}

/-- The mappings of the edges into a node, in order of declaration. -/
def mappingsInto (graph : Graph) (key : String) : List Mapping :=
  (graph.incoming key).flatMap Edge.effectiveMappings

theorem filledTargets_eq (graph : Graph) (key : String) :
    graph.filledTargets key = (graph.mappingsInto key).map (·.target) :=
  (List.map_flatMap ..).symm

/-- The wires into a station have the mappings of the edges into its node. -/
theorem Compiled.mappings_incoming (h : graph.Compiled options circuit) (key : String) :
    (circuit.incoming key).flatMap (·.mappings) = graph.mappingsInto key := by
  have hwires := forall₂_incoming h.wires (fun _ _ hof => hof.target) key
  rw [mappingsInto, List.flatMap_def, List.flatMap_def,
    map_eq_map_of_forall₂ hwires fun _ _ hof => hof.mappings.symm]

/-- The wires into a station fill what the edges into its node fill. -/
theorem Compiled.targets_incoming (h : graph.Compiled options circuit) (key : String) :
    (circuit.incoming key).flatMap Wire.targets = graph.filledTargets key := by
  rw [filledTargets_eq, ← h.mappings_incoming, List.map_flatMap]
  rfl

end Graph

namespace Workflow

variable {workflow : Workflow} {options : CompileOptions} {circuit : Circuit}

/-- The circuit of a workflow has nothing to merge. -/
theorem unmerged_of_compiled (h : workflow.WellFormed)
    (hclear : ∀ intake ∈ workflow.intakes, intake.Clear)
    (htrigger : options.trigger = .allPredecessors)
    (hcompiled : workflow.drawing.Compiled options circuit) : circuit.Unmerged := by
  intro station hstation wires hwires contributions hcontributions
  refine single_of_contribute hcontributions ?_
  rw [hcompiled.feeding_eq htrigger] at hwires
  by_cases hstart : station.key = startKey
  · rw [hstart, hcompiled.incoming_startKey, List.sublist_nil] at hwires
    rw [hwires]
    exact List.nodup_nil
  · refine List.Nodup.sublist ?_
      (filledTargets_drawing h hclear (hcompiled.key_mem hstation) hstart).1
    rw [← hcompiled.targets_incoming]
    exact hwires.flatMap _

/-- The drawing compiles to the same circuit with other policies, or not at all. -/
theorem compile_drawing_withMerges (h : workflow.WellFormed)
    (hclear : ∀ intake ∈ workflow.intakes, intake.Clear) (options : CompileOptions)
    (merges : MergeRegistry) :
    workflow.drawing.compile { options with merges } =
      (workflow.drawing.compile options).map (·.withMerges merges) := by
  have hfault : ∀ key ∈ workflow.drawing.keys,
      workflow.drawing.nodeFault? { options with merges } key =
        workflow.drawing.nodeFault? options key := by
    intro key hkey
    unfold Graph.nodeFault?
    by_cases hstart : key = startKey
    · rw [if_pos hstart, if_pos hstart]
    · dsimp only
      rw [unmergeable?_drawing h hclear merges hkey hstart,
        unmergeable?_drawing h hclear options.merges hkey hstart]
  have hcheck : workflow.drawing.keys.forM (workflow.drawing.checkNode { options with merges }) =
      workflow.drawing.keys.forM (workflow.drawing.checkNode options) :=
    forM_congr fun key hkey => by rw [Graph.checkNode, Graph.checkNode, hfault key hkey]
  have horder : workflow.drawing.executionOrder { options with merges } =
      workflow.drawing.executionOrder options := rfl
  unfold Graph.compile
  rw [hcheck, horder]
  cases workflow.drawing.executionOrder options with
  | error e => rfl
  | ok order =>
    cases hchecked : workflow.drawing.keys.forM (workflow.drawing.checkNode options) with
    | error e => rfl
    | ok _ =>
      cases hwires : workflow.drawing.edges.mapM workflow.drawing.wire with
      | error e => rfl
      | ok wires =>
        have hstations : order.map (workflow.drawing.station { options with merges }) =
            (order.map (workflow.drawing.station options)).map (·.withMerges merges) := by
          rw [List.map_map]
          rfl
        show Except.ok (Circuit.mk _ _ _ _ _) = Except.ok (Circuit.withMerges _ _)
        rw [hstations]
        rfl

/-- Compiling with other policies gives the same circuit with other policies, or the same
error. -/
theorem compile_withMerges (h : workflow.WellFormed) (options : CompileOptions)
    (merges : MergeRegistry) :
    workflow.compile { options with merges } =
      (workflow.compile options).map (·.withMerges merges) := by
  by_cases htrigger : options.trigger = .allPredecessors
  · rw [compile, compile, if_neg (not_not.2 htrigger), if_neg (not_not.2 htrigger)]
    cases hchecks : workflow.intakes.forM Intake.check with
    | error e => rfl
    | ok _ =>
      have hclear := clear_of_checks hchecks
      cases hgraph : workflow.drawn with
      | error e => rfl
      | ok graph =>
        obtain ⟨rfl, _⟩ := eq_drawing_of_drawn hclear h hgraph
        exact compile_drawing_withMerges h hclear options merges
  · rw [compile, compile, if_pos htrigger, if_pos htrigger]
    rfl

/-- A circuit of a workflow was compiled from its drawing and has nothing to merge. -/
theorem compiled_of_compile (h : workflow.WellFormed)
    (hcompile : workflow.compile options = .ok circuit) :
    workflow.drawing.Compiled options circuit ∧ circuit.Unmerged := by
  obtain ⟨htrigger, hclear, hwellFormed, hcompile⟩ := drawing_of_compile h hcompile
  have hcompiled := Graph.compiled_of_compile hwellFormed hcompile
  exact ⟨hcompiled, unmerged_of_compiled h hclear htrigger hcompiled⟩

end Workflow

/-! ## Runs without merging -/

/-- No merging, and no merge error but those of nodes and those given with the input. -/
structure Circuit.MergeFree (circuit : Circuit) (nodes : List (String × Node)) : Prop where
  unmerged : circuit.Unmerged
  invoke : ∀ value e, circuit.invoke value = .error e → e.kind = .merge →
    Circuit.FailedLast (circuit.calls value) e
  transform : (∀ entry ∈ nodes, entry.2.transducer.Keeps (·.kind ≠ .merge)) →
    ∀ chunks : List (Chunk Value), (∀ chunk ∈ chunks, Chunk.Within (·.kind ≠ .merge) chunk) →
      ∃ stream, circuit.transform chunks = .ok stream ∧
        (∀ chunk ∈ stream.drain, Chunk.Within (·.kind ≠ .merge) chunk) ∧
        ∀ moments, ∀ chunk ∈ stream.received moments, Chunk.Within (·.kind ≠ .merge) chunk

theorem runsPermitted_of_ne_merge : RunsPermitted (·.kind ≠ .merge) := by
  rintro e (he | he | he) <;> (rw [he]; decide)

/-- The input of a station fails as reading and guarding values may fail, or as what was
contributed cannot be assembled. -/
theorem Circuit.outcome_stationInput_of_contribute {circuit : Circuit} {station : Station}
    {permitted : Error → Prop} (hruns : RunsPermitted permitted)
    (hassemble : ∀ contributions, Contribute (circuit.feeding station.key) contributions →
      Outcome permitted (fun _ => True) (station.assembler.assemble (gather contributions)))
    (outputs : Table Value) :
    Outcome permitted (fun _ => True) (circuit.stationInput outputs station) := by
  have hcontribution : ∀ wire ∈ circuit.feeding station.key,
      Outcome permitted (fun fields => ∃ output, wire.apply output = .ok fields)
        (contribution outputs wire) := by
    intro wire _
    unfold contribution
    cases outputs.find? wire.source with
    | none => exact hruns _ (.inr (.inr rfl))
    | some output =>
      have happly : Outcome (fun e => e.kind = .access ∨ e.kind = .runtimeType) (fun _ => True)
          (wire.apply output) := Wire.kind_of_apply_error
      dsimp only
      cases hfields : wire.apply output with
      | ok fields => exact ⟨output, hfields⟩
      | error e =>
        rw [hfields] at happly
        exact hruns e (happly.imp_right .inl)
  exact (outcome_mapM hcontribution).bind fun contributions _ hcontributions =>
    hassemble contributions hcontributions

/-- A run fails as reading and guarding values may fail, as some contributions cannot be
assembled, or as the node fails that it called last. -/
theorem Circuit.outcome_invoke_of_assemble {circuit : Circuit} {permitted : Error → Prop}
    (hruns : RunsPermitted permitted)
    (hassemble : ∀ station ∈ circuit.stations, ∀ contributions,
      Contribute (circuit.feeding station.key) contributions →
        Outcome permitted (fun _ => True) (station.assembler.assemble (gather contributions)))
    (value : Value) :
    Outcome (fun e => permitted e ∨ FailedLast (circuit.calls value) e) (fun _ => True)
      (circuit.invoke value) :=
  Circuit.outcome_invoke_of_inputs
    (fun value => (circuit.inputGuard.outcome_check value).imp
      (fun e he => hruns e (.inr (.inl he))) fun _ => id)
    (fun station hstation =>
      circuit.outcome_stationInput_of_contribute hruns (hassemble station hstation))
    (hruns _ (.inr (.inr rfl))) value

namespace Workflow

variable {workflow : Workflow} {options : CompileOptions} {circuit : Circuit}

theorem mergeFree_of_compile (h : workflow.WellFormed)
    (hcompile : workflow.compile options = .ok circuit) :
    circuit.MergeFree workflow.graph.nodes := by
  obtain ⟨hcompiled, hunmerged⟩ := compiled_of_compile h hcompile
  have hruns := runsPermitted_of_ne_merge
  refine ⟨hunmerged, fun value e he hkind => ?_, fun hnodes chunks hchunks =>
    hcompiled.within_transform hruns hnodes hchunks⟩
  have hrun := circuit.outcome_invoke_of_assemble hruns
    (fun station hstation contributions hcontributions => ?_) value
  · rw [he] at hrun
    exact hrun.resolve_left (not_not.2 hkind)
  · -- a station that has nothing to merge does not fail to merge
    have hsingle :=
      hunmerged station hstation _ (List.Sublist.refl _) contributions hcontributions
    exact (station.assembler.outcome_of_single hsingle).imp
      (fun e he => hruns e (.inr (.inr he))) fun _ => id

/-- Workflows never merge.  Under any two registries a workflow compiles to circuits
that do the same on every value and on every stream, or it does not compile with the same
error; and its circuits merge nothing and make no merge errors of their own. -/
theorem compile_registry_irrelevant {input output : Ty} {requests : List Request}
    (hworkflow : declared input output requests = workflow) (options : CompileOptions)
    (merges merges' : MergeRegistry) :
    Alike Circuit.SameRuns (workflow.compile { options with merges })
        (workflow.compile { options with merges := merges' }) ∧
      ∀ circuit, workflow.compile { options with merges } = .ok circuit →
        circuit.MergeFree workflow.graph.nodes := by
  have h : workflow.WellFormed := hworkflow ▸ wellFormed_declared input output requests
  refine ⟨?_, fun circuit hcircuit => mergeFree_of_compile h hcircuit⟩
  rw [compile_withMerges h options merges, compile_withMerges h options merges']
  cases hcompile : workflow.compile options with
  | error e => exact Eq.refl e
  | ok circuit =>
    obtain ⟨_, hunmerged⟩ := compiled_of_compile h hcompile
    refine ⟨fun value => ?_, fun chunks => ?_⟩
    · rw [circuit.invoke_withMerges hunmerged, circuit.invoke_withMerges hunmerged]
    · rw [circuit.transform_withMerges, circuit.transform_withMerges]

theorem labelling_registry_irrelevant :
    Alike Circuit.SameRuns (labelling.compile { merges := .empty })
        (labelling.compile { merges := .standard }) ∧
      ∃ circuit, labelling.compile { merges := .standard } = .ok circuit ∧
        circuit.MergeFree labelling.graph.nodes := by
  obtain ⟨circuit, h⟩ := exists_compile_labelling
  exact ⟨(compile_registry_irrelevant rfl {} .empty .standard).1, circuit, h,
    (compile_registry_irrelevant rfl {} .standard .empty).2 circuit h⟩

end Workflow

end Dataflow
