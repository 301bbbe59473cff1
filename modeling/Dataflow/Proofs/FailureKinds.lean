import Dataflow.Proofs.MergeChecks

/-!
# Errors of compiling and errors of runs

Compiling fails for the structure of a graph or for its types, and a run never does so
by itself.  What a policy reports is a merge error whatever kind it was of, and a
stream hands on the errors that are given with its input, so errors of compiling come
out of a run only if its nodes or its input bring them.

* `Graph.outcome_compile_kind`, `Workflow.outcome_compile_kind`: why compiling fails.
* `Graph.Compiled.staysApart`: what a compiled circuit adds to the errors of its nodes.
* `failures_apart`: the two together.
-/

namespace Dataflow

/-! ## Compiling -/

theorem Error.isCompileTime_iff {e : Error} :
    e.isCompileTime = true ↔ e.kind = .structural ∨ e.kind = .staticType := by
  cases e <;> simp [isCompileTime, kind]

namespace Mapping

variable {predecessor successor : Ty}

theorem outcome_check_kind (mappings : List Mapping) :
    Outcome (·.isCompileTime = true) (fun _ => True) (check predecessor successor mappings) := by
  cases hcheck : check predecessor successor mappings with
  | ok plan => trivial
  | error e =>
    obtain ⟨hshaped, hnot⟩ := kind_of_check_error hcheck
    by_cases h : Shaped mappings
    · exact Error.isCompileTime_iff.2 (.inr (hshaped h))
    · exact Error.isCompileTime_iff.2 (.inl (hnot h))

theorem outcome_checkWhole_kind (node : String) :
    Outcome (·.isCompileTime = true) (fun _ => True) (checkWhole node predecessor successor) := by
  unfold checkWhole
  dsimp only
  split
  · trivial
  · trivial
  · exact Eq.refl true

end Mapping

namespace Graph

/-- A graph does not compile because of its structure or because of its types. -/
theorem outcome_compile_kind (graph : Graph) (options : CompileOptions) :
    Outcome (·.isCompileTime = true) (fun _ => True) (graph.compile options) := by
  have horder : Outcome (·.isCompileTime = true) (fun _ => True) (graph.executionOrder options) := by
    unfold executionOrder
    cases options.sorter.sort _ _ graph.keys with
    | ok order => trivial
    | error key => exact Eq.refl true
  have hcheck : ∀ key ∈ graph.keys,
      Outcome (·.isCompileTime = true) (fun _ => True) (graph.checkNode options key) := by
    intro key _
    unfold checkNode
    split
    · exact Eq.refl true
    · trivial
  have hwire : ∀ edge ∈ graph.edges,
      Outcome (·.isCompileTime = true) (fun _ => True) (graph.wire edge) := by
    intro edge _
    have hplan : Outcome (·.isCompileTime = true) (fun _ => True) (graph.edgePlan edge) := by
      unfold edgePlan
      dsimp only
      split
      · exact (Mapping.outcome_checkWhole_kind edge.source).bind fun _ _ _ => trivial
      · exact Mapping.outcome_check_kind edge.mappings
    exact hplan.bind fun _ _ _ => trivial
  have hwires : Outcome (·.isCompileTime = true) (List.Forall₂ (fun _ _ => True) graph.edges)
      (graph.edges.mapM graph.wire) := outcome_mapM hwire
  exact horder.bind fun _ _ _ => (outcome_forM hcheck).bind fun _ _ _ =>
    hwires.bind fun _ _ _ => trivial

theorem outcome_insertEdge_kind (graph : Graph) (edge : Edge) :
    Outcome (·.isCompileTime = true) (fun _ => True) (graph.insertEdge edge) := by
  unfold insertEdge
  split_ifs
  iterate 5 exact Eq.refl true
  trivial

theorem outcome_connectMapped_kind (graph : Graph) (source target : String)
    (mappings : List Mapping) :
    Outcome (·.isCompileTime = true) (fun _ => True)
      (graph.connectMapped source target mappings) := by
  unfold connectMapped
  split
  · exact Eq.refl true
  · split
    · exact Eq.refl true
    · exact graph.outcome_insertEdge_kind _

end Graph

/-- A workflow does not compile because of its intakes or because its graph does not. -/
theorem Workflow.outcome_compile_kind (workflow : Workflow) (options : CompileOptions) :
    Outcome (·.isCompileTime = true) (fun _ => True) (workflow.compile options) := by
  have hcheck : ∀ intake ∈ workflow.intakes,
      Outcome (·.isCompileTime = true) (fun _ => True) intake.check := by
    intro intake _
    unfold Intake.check
    split
    · exact Eq.refl true
    · trivial
  have hdrawn : Outcome (·.isCompileTime = true) (fun _ => True) workflow.drawn := by
    refine outcome_foldlM (fun _ => True) trivial fun intake _ graph _ => ?_
    refine outcome_foldlM (fun _ => True) trivial fun group _ graph _ => ?_
    unfold Intake.drawEdge
    split
    · exact graph.outcome_insertEdge_kind _
    · exact graph.outcome_connectMapped_kind _ _ _
  unfold compile
  split
  · exact Eq.refl true
  · exact (outcome_forM hcheck).bind fun _ _ _ => hdrawn.bind fun graph _ _ =>
      graph.outcome_compile_kind options

/-! ## Running -/

/-- An error that does not come from compiling. -/
abbrev Error.IsRunTime (e : Error) : Prop := e.isCompileTime = false

theorem runsPermitted_isRunTime : RunsPermitted Error.IsRunTime := by
  rintro e (he | he | he) <;> simp [Error.IsRunTime, Error.isCompileTime, he]

/-- Whatever a policy reports, it is reported as a merge error. -/
theorem Assembler.outcome_assemble_kind (assembler : Assembler) (gathered : Gathered) :
    Outcome Error.IsRunTime (fun _ => True) (assembler.assemble gathered) := by
  refine assembler.outcome_assemble_of_merges
    (fun e he => runsPermitted_isRunTime e (.inr (.inr he))) fun field type values _ _ => ?_
  have hmerge : Outcome (·.kind = .merge) (fun _ => True)
      (assembler.merges.merge field type values) :=
    MergeRegistry.outcome_merge (fun _ _ => trivial) fun _ _ _ _ => trivial
  exact hmerge.imp (fun e he => by simp [Error.IsRunTime, Error.isCompileTime, he]) fun _ => id

/-- Nothing that a node does ends with an error of compiling, as long as it is not given
one. -/
structure Node.StaysApart (node : Node) : Prop where
  run : ∀ value, Outcome Error.IsRunTime (fun _ => True) (node.run value)
  transducer : node.transducer.Keeps Error.IsRunTime

/-- No run ends with an error of compiling, and no stream delivers one unless it is given
one. -/
structure Circuit.StaysApart (circuit : Circuit) : Prop where
  invoke : ∀ value e, circuit.invoke value = .error e → e.IsRunTime
  transform : ∀ chunks : List (Chunk Value),
    (∀ chunk ∈ chunks, Chunk.Within Error.IsRunTime chunk) →
      ∃ stream, circuit.transform chunks = .ok stream ∧
        (∀ chunk ∈ stream.drain, Chunk.Within Error.IsRunTime chunk) ∧
        ∀ moments, ∀ chunk ∈ stream.received moments, Chunk.Within Error.IsRunTime chunk

/-- A circuit adds no errors of compiling to those of its nodes. -/
theorem Graph.Compiled.staysApart {graph : Graph} {options : CompileOptions} {circuit : Circuit}
    (h : graph.Compiled options circuit) (hnodes : ∀ entry ∈ graph.nodes, entry.2.StaysApart) :
    circuit.StaysApart where
  invoke value e he := by
    have hrun := circuit.outcome_invoke_of_assemble runsPermitted_isRunTime
      (fun station _ contributions _ =>
        station.assembler.outcome_assemble_kind (gather contributions)) value
    rw [he] at hrun
    rcases hrun with hown | ⟨call, hlast, hfailed⟩
    · exact hown
    · have hcall := h.mem_nodes_of_mem_calls (List.mem_of_getLast? hlast)
      have hnode := (hnodes _ hcall).run call.input
      rwa [hfailed] at hnode
  transform chunks hchunks := h.within_transform runsPermitted_isRunTime
    (fun entry hentry => (hnodes entry hentry).transducer) hchunks

/-- Errors of compiling and errors of runs do not mix.  Every graph and every workflow
fails to compile with an error of compiling.  What compiles runs without such errors if
its nodes do not make any, whatever the policies report. -/
theorem failures_apart :
    (∀ (graph : Graph) (options : CompileOptions) (e : Error),
      graph.compile options = .error e → e.isCompileTime = true) ∧
    (∀ (workflow : Workflow) (options : CompileOptions) (e : Error),
      workflow.compile options = .error e → e.isCompileTime = true) ∧
    (∀ (input output : Ty) (declarations : List Declaration) (options : CompileOptions)
        (circuit : Circuit),
      (Graph.declared input output declarations).compile options = .ok circuit →
      (∀ entry ∈ (Graph.declared input output declarations).nodes, entry.2.StaysApart) →
        circuit.StaysApart) ∧
    ∀ (input output : Ty) (requests : List Workflow.Request) (options : CompileOptions)
        (circuit : Circuit),
      (Workflow.declared input output requests).compile options = .ok circuit →
      (∀ entry ∈ (Workflow.declared input output requests).graph.nodes, entry.2.StaysApart) →
        circuit.StaysApart := by
  refine ⟨fun graph options e he => ?_, fun workflow options e he => ?_,
    fun input output declarations options circuit h => ?_,
    fun input output requests options circuit h => ?_⟩
  · have houtcome := graph.outcome_compile_kind options
    rwa [he] at houtcome
  · have houtcome := workflow.outcome_compile_kind options
    rwa [he] at houtcome
  · exact (Graph.compiled_of_compile (Graph.wellFormed_declared input output declarations)
      h).staysApart
  · obtain ⟨_, _, hwellFormed, hcompile⟩ :=
      Workflow.drawing_of_compile (Workflow.wellFormed_declared input output requests) h
    exact (Graph.compiled_of_compile hwellFormed hcompile).staysApart

/-- Numbers are not merged, for the same reason each time. -/
def CompileOptions.blaming (e : Error) : CompileOptions where
  merges := MergeRegistry.standard.registerKind .int fun _ _ => .error e

theorem exists_compile_blaming (e : Error) :
    ∃ circuit, Graph.meeting.compile (.blaming e) = .ok circuit ∧
      circuit.invoke (.int 1) = .error (.merge "" "Int" 2 e.reported) := by
  have hfound : (Graph.meeting.compile (.blaming e)).map (·.invoke (.int 1)) =
      .ok (.error (.merge "" "Int" 2 e.reported)) := by
    cbv
    cases e <;> rfl
  exact map_eq_ok hfound

/-- A policy that blames the graph makes a run fail, and not with an error of
compiling. -/
theorem failures_apart_blaming :
    ∃ circuit, Graph.meeting.compile (.blaming (.structural .leavesEnd)) = .ok circuit ∧
      (∃ e, circuit.invoke (.int 1) = .error e ∧ e.kind = .merge) ∧ circuit.StaysApart := by
  obtain ⟨circuit, h, hinvoke⟩ := exists_compile_blaming (.structural .leavesEnd)
  have hnodes : ∀ entry ∈ Graph.meeting.nodes, entry.2.StaysApart := by
    intro entry hentry
    rw [Graph.node_of_mem_meeting hentry]
    exact ⟨fun _ => trivial, Transducer.keeps_perChunk fun _ => trivial⟩
  exact ⟨circuit, h, ⟨_, hinvoke, rfl⟩, failures_apart.2.2.1 _ _ _ _ circuit h hnodes⟩

end Dataflow
