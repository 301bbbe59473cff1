import Dataflow.Proofs.Intakes
import Dataflow.Proofs.Stations

/-!
# Drawn workflows

Every workflow that is built by requests has one intake for each of its nodes and one
for the end.  If all of them are clear, drawing the edges fails only for a source that
is no node or is the end, and otherwise it gives one edge for each pair of a source and
a node.

* `Workflow.wellFormed_declared`: what holds of every workflow.
* `Workflow.outcome_drawn`: what drawing gives, and why it may fail.
* `Workflow.perm_filledTargets`: what the edges of a node fill.
-/

namespace Dataflow

namespace Workflow

/-! ## Requests -/

/-- A request to add something to a workflow. -/
inductive Request
  /-- A node under a key. -/
  | node (key : String) (node : Node)
  /-- Mappings for the input of a node. -/
  | input (key : String) (mappings : List Mapping)
  /-- Mappings for the end. -/
  | finish (mappings : List Mapping)

/-- The workflow after a request.  A refused one leaves it as it was. -/
def after (workflow : Workflow) : Request → Workflow
  | .node key node =>
    match workflow.addNode key node with
    | .ok workflow' => workflow'
    | .error _ => workflow
  | .input key mappings => workflow.addInput key mappings
  | .finish mappings => workflow.addEnd mappings

/-- The workflow that some requests build. -/
def declared (input output : Ty) (requests : List Request) : Workflow :=
  requests.foldl after (empty input output)

/-- The graph of a workflow is well formed and has no edges yet, and there is an intake
for each of its nodes and one for the end. -/
structure WellFormed (workflow : Workflow) : Prop where
  graph : workflow.graph.WellFormed
  edges : workflow.graph.edges = []
  nodes : workflow.nodes.map (·.key) = workflow.graph.nodes.map (·.1)
  finish : workflow.finish.key = endKey

variable {workflow : Workflow}

theorem wellFormed_empty (input output : Ty) : (empty input output).WellFormed :=
  ⟨Graph.wellFormed_empty input output, rfl, rfl, rfl⟩

theorem WellFormed.addNode {workflow' : Workflow} {key : String} {node : Node}
    (h : workflow.WellFormed) (hadd : workflow.addNode key node = .ok workflow') :
    workflow'.WellFormed := by
  obtain ⟨graph, hgraph, hadd⟩ := bind_eq_ok hadd
  obtain rfl := Except.ok.inj hadd
  have hwellFormed := h.graph.addNode hgraph
  obtain ⟨_, _, rfl⟩ := Graph.addNode_eq_ok hgraph
  exact ⟨hwellFormed, h.edges, by simp [h.nodes], h.finish⟩

/-- A request keeps a workflow well formed. -/
theorem WellFormed.after (h : workflow.WellFormed) (request : Request) :
    (workflow.after request).WellFormed := by
  cases request with
  | node key node =>
    rw [Workflow.after]
    split
    next workflow' hadd => exact h.addNode hadd
    · exact h
  | input key mappings =>
    refine ⟨h.graph, h.edges, ?_, h.finish⟩
    refine Eq.trans ?_ h.nodes
    show (workflow.nodes.map _).map _ = _
    rw [List.map_map]
    refine List.map_congr_left fun intake _ => ?_
    show (if intake.key = key then intake.add mappings else intake).key = intake.key
    split <;> rfl
  | finish mappings => exact ⟨h.graph, h.edges, h.nodes, h.finish⟩

/-- Every workflow that requests build is well formed. -/
theorem wellFormed_declared (input output : Ty) (requests : List Request) :
    (declared input output requests).WellFormed := by
  have hrun : ∀ (requests : List Request) {workflow : Workflow}, workflow.WellFormed →
      (requests.foldl Workflow.after workflow).WellFormed := by
    intro requests
    induction requests with
    | nil => exact fun h => h
    | cons request rest ih => exact fun h => ih (h.after request)
  exact hrun requests (wellFormed_empty input output)

namespace WellFormed

variable (h : workflow.WellFormed)
include h

/-- The intakes are those of all nodes but the start. -/
theorem keys_intakes :
    workflow.intakes.map (·.key) = workflow.graph.nodes.map (·.1) ++ [endKey] := by
  rw [intakes, List.map_append, h.nodes, List.map_singleton, h.finish]

theorem mem_keys_intakes {key : String} :
    key ∈ workflow.intakes.map (·.key) ↔ key ∈ workflow.graph.keys ∧ key ≠ startKey := by
  rw [h.keys_intakes, List.mem_append, List.mem_singleton, Graph.keys, List.mem_cons,
    List.mem_cons]
  constructor
  · rintro (hkey | rfl)
    · exact ⟨.inr (.inr hkey), h.graph.ne_startKey_of_mem hkey⟩
    · exact ⟨.inr (.inl rfl), Graph.endKey_ne_startKey⟩
  · rintro ⟨rfl | hend | hkey, hstart⟩
    · exact absurd rfl hstart
    · exact .inr hend
    · exact .inl hkey

theorem ne_endKey_of_mem {key : String} (hkey : key ∈ workflow.graph.nodes.map (·.1)) :
    key ≠ endKey := by
  rintro rfl
  exact h.graph.keys_apart.2.1 hkey

theorem keys_nodup : (workflow.intakes.map (·.key)).Nodup := by
  have hkeys := (List.nodup_cons.1 h.graph.keys).2
  rw [h.keys_intakes]
  exact (List.perm_append_singleton endKey _).symm.nodup hkeys

end WellFormed

/-! ## The drawing -/

/-- The edges of all intakes. -/
def edges (workflow : Workflow) : List Edge :=
  workflow.intakes.flatMap Intake.edges

/-- The graph with the edges of all intakes. -/
def drawing (workflow : Workflow) : Graph :=
  { workflow.graph with edges := workflow.edges }

/-- A node feeds another one when a mapping of the other one names it. -/
def Feeds (workflow : Workflow) (source target : String) : Prop :=
  ∃ intake ∈ workflow.intakes, intake.key = target ∧
    ∃ mapping ∈ intake.inputs, mapping.node = source

/-- The edges of the drawing are those along which nodes feed each other. -/
theorem leads_drawing : workflow.drawing.Leads = workflow.Feeds := by
  funext source target
  refine propext ⟨?_, ?_⟩
  · rintro ⟨edge, hedge, hsource, rfl⟩
    obtain ⟨intake, hintake, hmem⟩ := List.mem_flatMap.1 hedge
    exact ⟨intake, hintake, (Intake.target_of_mem_edges hmem).symm,
      (intake.mem_sources_edges source).1 ⟨edge, hmem, hsource⟩⟩
  · rintro ⟨intake, hintake, rfl, hmapping⟩
    obtain ⟨edge, hedge, hsource⟩ := (intake.mem_sources_edges source).2 hmapping
    exact ⟨edge, List.mem_flatMap.2 ⟨intake, hintake, hedge⟩, hsource,
      Intake.target_of_mem_edges hedge⟩

theorem target_of_mem_edges (h : workflow.WellFormed) {edge : Edge}
    (hedge : edge ∈ workflow.edges) : edge.target ∈ workflow.graph.keys ∧ edge.target ≠ startKey := by
  obtain ⟨intake, hintake, hmem⟩ := List.mem_flatMap.1 hedge
  rw [Intake.target_of_mem_edges hmem]
  exact h.mem_keys_intakes.1 (List.mem_map.2 ⟨intake, hintake, rfl⟩)

/-- No two edges connect the same nodes. -/
theorem apart_edges (h : workflow.WellFormed) :
    workflow.edges.Pairwise fun a b => ¬(a.source = b.source ∧ a.target = b.target) := by
  have hkeys := h.keys_nodup
  rw [List.Nodup, List.pairwise_map] at hkeys
  rw [edges, List.pairwise_flatMap]
  refine ⟨fun intake _ => intake.apart_edges.imp fun hne heq => hne heq.1,
    hkeys.imp fun {first second} hne a ha b hb heq => hne ?_⟩
  rw [← Intake.target_of_mem_edges ha, ← Intake.target_of_mem_edges hb, heq.2]

/-- Inserting edges towards nodes of a graph fails only for a source that is no node or
is the end. -/
theorem outcome_insertEdges {graph : Graph} {edges : List Edge}
    (htarget : ∀ edge ∈ edges, edge.target ∈ graph.keys ∧ edge.target ≠ startKey)
    (hapart : (graph.edges ++ edges).Pairwise fun a b =>
      ¬(a.source = b.source ∧ a.target = b.target)) :
    Outcome
      (fun e => ∃ edge ∈ edges, edge.source = endKey ∧ e = .structural .leavesEnd ∨
        edge.source ∉ graph.keys ∧ e = .structural (.nodeMissing edge.source))
      (fun graph' => graph' = { graph with edges := graph.edges ++ edges } ∧
        ∀ edge ∈ edges, edge.source ≠ endKey ∧ edge.source ∈ graph.keys)
      (edges.foldlM Graph.insertEdge graph) := by
  induction edges generalizing graph with
  | nil => exact ⟨by rw [List.append_nil], nofun⟩
  | cons edge rest ih =>
    obtain ⟨⟨hkey, hstart⟩, hrest⟩ := List.forall_mem_cons.1 htarget
    have hfree : graph.hasEdge edge.source edge.target = false := by
      rw [Graph.hasEdge, List.any_eq_false]
      intro old hold heq
      refine (List.pairwise_append.1 hapart).2.2 old hold edge List.mem_cons_self ?_
      simpa using heq
    rw [List.foldlM_cons]
    by_cases hend : edge.source = endKey
    · rw [Graph.insertEdge, if_pos hend]
      exact ⟨edge, List.mem_cons_self, .inl ⟨hend, rfl⟩⟩
    by_cases hsource : edge.source ∈ graph.keys
    · have hinsert : graph.insertEdge edge = .ok { graph with edges := graph.edges ++ [edge] } := by
        rw [Graph.insertEdge, if_neg hend, if_neg hstart, Graph.contains,
          if_neg (by simpa using hsource), Graph.contains, if_neg (by simpa using hkey), hfree]
        rfl
      rw [hinsert]
      have hlater := ih (show ∀ e ∈ rest, e.target ∈
        Graph.keys { graph with edges := graph.edges ++ [edge] } ∧ e.target ≠ startKey from hrest)
        (by simpa using hapart)
      refine hlater.imp (fun e => ?_) fun graph' => ?_
      · rintro ⟨other, hother, hfault⟩
        exact ⟨other, List.mem_cons_of_mem _ hother, hfault⟩
      · rintro ⟨rfl, hsources⟩
        exact ⟨by simp, List.forall_mem_cons.2 ⟨⟨hend, hsource⟩, hsources⟩⟩
    · rw [Graph.insertEdge, if_neg hend, if_neg hstart, Graph.contains,
        if_pos (by simpa using hsource)]
      exact ⟨edge, List.mem_cons_self, .inr ⟨hsource, rfl⟩⟩

/-- The intakes that pass their checks are clear. -/
theorem clear_of_checks (h : workflow.intakes.forM Intake.check = .ok ()) :
    ∀ intake ∈ workflow.intakes, intake.Clear :=
  fun intake hintake => Intake.clear_of_check (forM_eq_ok h intake hintake)

variable (hclear : ∀ intake ∈ workflow.intakes, intake.Clear)
include hclear

/-- The edges of clear intakes are inserted one after the other. -/
theorem drawn_eq : workflow.drawn = workflow.edges.foldlM Graph.insertEdge workflow.graph := by
  rw [drawn, edges, foldlM_flatMap]
  exact foldlM_congr _ fun intake hintake graph => (hclear intake hintake).drawEdges_eq graph

/-- Drawing fails only for a source that is no node or is the end, and otherwise it
gives the drawing. -/
theorem outcome_drawn (h : workflow.WellFormed) :
    Outcome
      (fun e => ∃ source target, workflow.Feeds source target ∧
        (source = endKey ∧ e = .structural .leavesEnd ∨
          source ∉ workflow.graph.keys ∧ e = .structural (.nodeMissing source)))
      (fun graph => graph = workflow.drawing ∧ graph.WellFormed) workflow.drawn := by
  have hleads : ∀ edge ∈ workflow.edges, workflow.Feeds edge.source edge.target :=
    fun edge hedge => leads_drawing ▸ ⟨edge, hedge, rfl, rfl⟩
  rw [drawn_eq hclear]
  refine (outcome_insertEdges (fun edge => target_of_mem_edges h)
    (by rw [h.edges]; exact apart_edges h)).imp (fun e => ?_) fun graph => ?_
  · rintro ⟨edge, hedge, hfault⟩
    exact ⟨edge.source, edge.target, hleads edge hedge, hfault⟩
  · rintro ⟨rfl, hsources⟩
    rw [h.edges]
    exact ⟨rfl, h.graph.keys, fun edge hedge => (hsources edge hedge).2,
      fun edge hedge => (target_of_mem_edges h hedge).1,
      fun edge hedge => (hsources edge hedge).1,
      fun edge hedge => (target_of_mem_edges h hedge).2, apart_edges h⟩

theorem eq_drawing_of_drawn (h : workflow.WellFormed) {graph : Graph}
    (hdrawn : workflow.drawn = .ok graph) :
    graph = workflow.drawing ∧ graph.WellFormed := by
  have houtcome := outcome_drawn hclear h
  rwa [hdrawn] at houtcome

omit hclear

/-- A circuit of a workflow is one of its drawing. -/
theorem drawing_of_compile {options : CompileOptions} {circuit : Circuit} (h : workflow.WellFormed)
    (hcompile : workflow.compile options = .ok circuit) :
    options.trigger = .allPredecessors ∧ (∀ intake ∈ workflow.intakes, intake.Clear) ∧
      workflow.drawing.WellFormed ∧ workflow.drawing.compile options = .ok circuit := by
  unfold compile at hcompile
  obtain ⟨htrigger, hcompile⟩ := throwIf_eq_ok hcompile
  obtain ⟨_, hchecks, hcompile⟩ := bind_eq_ok hcompile
  obtain ⟨graph, hgraph, hcompile⟩ := bind_eq_ok hcompile
  have hclear := clear_of_checks hchecks
  obtain ⟨rfl, hwellFormed⟩ := eq_drawing_of_drawn hclear h hgraph
  exact ⟨not_not.1 htrigger, hclear, hwellFormed, hcompile⟩

/-! ## The edges of a node -/

variable {intake : Intake}

/-- The edges into a node are those of its intake. -/
theorem incoming_drawing (h : workflow.WellFormed) (hintake : intake ∈ workflow.intakes) :
    workflow.drawing.incoming intake.key = intake.edges := by
  have hkeys := h.keys_nodup
  obtain ⟨before, after, hsplit⟩ := List.append_of_mem hintake
  rw [hsplit, List.map_append, List.map_cons, List.nodup_append, List.nodup_cons] at hkeys
  have hother : ∀ {others : List Intake}, intake.key ∉ others.map (·.key) →
      (others.flatMap Intake.edges).filter (·.target = intake.key) = [] := by
    intro others hne
    refine List.filter_eq_nil_iff.2 fun edge hedge htarget => hne ?_
    obtain ⟨other, hother, hmem⟩ := List.mem_flatMap.1 hedge
    refine List.mem_map.2 ⟨other, hother, ?_⟩
    rw [← Intake.target_of_mem_edges hmem]
    exact of_decide_eq_true htarget
  have hown : intake.edges.filter (·.target = intake.key) = intake.edges :=
    List.filter_eq_self.2 fun edge hedge => decide_eq_true (Intake.target_of_mem_edges hedge)
  show workflow.edges.filter _ = _
  rw [edges, hsplit, List.flatMap_append, List.flatMap_cons, List.filter_append,
    List.filter_append, hown, hother hkeys.2.1.1,
    hother fun hmem => hkeys.2.2 _ hmem _ List.mem_cons_self rfl, List.nil_append, List.append_nil]

/-- The edges into a node fill what its mappings fill. -/
theorem perm_filledTargets (h : workflow.WellFormed) (hintake : intake ∈ workflow.intakes) :
    (workflow.drawing.filledTargets intake.key).Perm (intake.inputs.map (·.target)) := by
  rw [Graph.filledTargets, incoming_drawing h hintake]
  exact intake.perm_targets

end Workflow

end Dataflow
