import Dataflow.Proofs.Drawing
import Dataflow.Proofs.Shape

/-!
# The edges of one intake

What is drawn for a single node of a workflow, at the time when its turn comes.  The
mappings of a checked intake are spread over one edge for each source, in the order in
which the sources first occur; none is lost, doubled or changed, and those of one edge
stand as they were declared.

* `Intake.sources_groups`: the order of the sources.
* `Intake.Carries`: what the edges of an intake are like.
* `Workflow.draws_carrying`: drawing adds these edges and nothing else.
-/

namespace Dataflow

namespace Intake

variable {intake : Intake}

/-! ## Groups and their edges -/

/-- The groups stand in the order in which their sources first occur. -/
theorem sources_groups (intake : Intake) :
    intake.groups.map (·.1) = (intake.inputs.map (·.node)).eraseDups := by
  unfold groups
  induction intake.inputs using List.reverseRecOn with
  | nil => rfl
  | append_singleton mappings mapping ih =>
    rw [List.foldl_append, List.map_append, List.map_singleton, eraseDups_concat, ← ih]
    show (putInGroup mapping _).map (·.1) = _
    rw [sources_putInGroup, ih, if_congr List.mem_eraseDups rfl rfl]

/-- The edge for a group stands for the mappings of the group. -/
theorem effectiveMappings_edgeOf (target : String) {group : String × List Mapping}
    (hne : group.2 ≠ []) (hnode : ∀ mapping ∈ group.2, mapping.node = group.1) :
    (edgeOf target group).effectiveMappings = group.2 := by
  unfold edgeOf
  split
  next hwhole =>
    rw [Bool.and_eq_true, decide_eq_true_eq, List.all_eq_true] at hwhole
    obtain ⟨⟨node, source, target'⟩, hmapping⟩ := List.length_eq_one_iff.1 hwhole.1
    have hmem := hmapping ▸ List.mem_singleton_self (⟨node, source, target'⟩ : Mapping)
    have hparts := hwhole.2 _ hmem
    rw [Mapping.isWhole, Bool.and_eq_true] at hparts
    obtain rfl : source = "" := of_decide_eq_true hparts.1
    obtain rfl : target' = "" := of_decide_eq_true hparts.2
    rw [hmapping, ← hnode _ hmem]
    rfl
  · rw [Graph.effectiveMappings_mapped _ _ hne]
    refine (List.map_congr_left fun mapping hmapping => ?_).trans (List.map_id _)
    rw [← hnode mapping hmapping]
    rfl

/-- The edge for a group is plain if the group is a mapping of the whole output to the
whole input. -/
theorem isPlain_edgeOf_iff (target : String) {group : String × List Mapping} (hne : group.2 ≠ []) :
    (edgeOf target group).isPlain = true ↔
      ∃ mapping, group.2 = [mapping] ∧ mapping.isWhole = true := by
  unfold edgeOf
  split
  next hwhole =>
    rw [Bool.and_eq_true, decide_eq_true_eq, List.all_eq_true] at hwhole
    obtain ⟨mapping, hmapping⟩ := List.length_eq_one_iff.1 hwhole.1
    exact ⟨fun _ => ⟨mapping, hmapping, hwhole.2 _ (hmapping ▸ List.mem_singleton_self mapping)⟩,
      fun _ => rfl⟩
  next hnot =>
    constructor
    · intro hplain
      exact absurd (List.map_eq_nil_iff.1 (List.isEmpty_iff.1 hplain)) hne
    · rintro ⟨mapping, hmapping, hwhole⟩
      exact absurd (by simp [hmapping, hwhole]) hnot

/-- What edges are like that carry the mappings of an intake: they lead to its node, one
from each source, in the order in which the sources first occur; each stands for the
mappings that name its source, as they were declared; and an edge is plain just if a
mapping of the whole output to the whole input is the only one of the intake. -/
structure Carries (intake : Intake) (edges : List Edge) : Prop where
  targets : ∀ edge ∈ edges, edge.target = intake.key
  sources : edges.map (·.source) = (intake.inputs.map (·.node)).eraseDups
  exact : ∀ edge ∈ edges, edge.effectiveMappings = intake.inputs.filter (·.node = edge.source)
  perm : (edges.flatMap Edge.effectiveMappings).Perm intake.inputs
  plain : ∀ edge ∈ edges, edge.isPlain = true ↔
    ∃ mapping, intake.inputs = [mapping] ∧ mapping.isWhole = true
  mapped : ∀ edge ∈ edges, edge.isPlain = false →
    edge.mappings = intake.inputs.filter (·.node = edge.source)

theorem effectiveMappings_of_mem_groups {group : String × List Mapping}
    (hgroup : group ∈ intake.groups) :
    (edgeOf intake.key group).effectiveMappings = group.2 := by
  have hgroups := (grouped_groups intake).1
  refine effectiveMappings_edgeOf intake.key (hgroups.inputs_ne hgroup) fun mapping hmapping => ?_
  rw [hgroups.exact group hgroup] at hmapping
  exact of_decide_eq_true (List.mem_filter.1 hmapping).2

/-- A group of a clear intake is a single mapping between wholes just if the intake is. -/
theorem Clear.whole_group_iff (h : intake.Clear) {group : String × List Mapping}
    (hgroup : group ∈ intake.groups) :
    (∃ mapping, group.2 = [mapping] ∧ mapping.isWhole = true) ↔
      ∃ mapping, intake.inputs = [mapping] ∧ mapping.isWhole = true := by
  have hgroups := (grouped_groups intake).1
  constructor
  · rintro ⟨mapping, hsingle, hwhole⟩
    have hexact := hgroups.exact group hgroup
    rw [hsingle] at hexact
    have hmem := (List.mem_filter.1 (hexact ▸ List.mem_singleton_self mapping)).1
    have hfills := (Bool.and_eq_true _ _).mp hwhole
    exact ⟨mapping, h.whole_alone mapping hmem (of_decide_eq_true hfills.2), hwhole⟩
  · rintro ⟨mapping, hsingle, hwhole⟩
    rw [hsingle] at hgroups
    exact ⟨mapping, hgroups.eq_singleton hgroup, hwhole⟩

/-- The edges of a clear intake carry its mappings. -/
theorem Clear.carries (h : intake.Clear) : intake.Carries intake.edges := by
  obtain ⟨hgroups, hperm⟩ := grouped_groups intake
  have hexact : ∀ edge ∈ intake.edges,
      edge.effectiveMappings = intake.inputs.filter (·.node = edge.source) := by
    intro edge hedge
    obtain ⟨group, hgroup, rfl⟩ := mem_edges.1 hedge
    rw [effectiveMappings_of_mem_groups hgroup, source_edgeOf]
    exact hgroups.exact group hgroup
  refine ⟨fun edge => target_of_mem_edges, by rw [sources_edges, sources_groups], hexact, ?_, ?_,
    ?_⟩
  · have hall : intake.edges.flatMap Edge.effectiveMappings = intake.groups.flatMap (·.2) := by
      rw [edges, List.flatMap_map]
      exact List.flatMap_congr fun group => effectiveMappings_of_mem_groups
    rwa [hall]
  · intro edge hedge
    obtain ⟨group, hgroup, rfl⟩ := mem_edges.1 hedge
    rw [isPlain_edgeOf_iff intake.key (hgroups.inputs_ne hgroup), h.whole_group_iff hgroup]
  · intro edge hedge hplain
    rw [← hexact edge hedge, Edge.effectiveMappings, if_neg (Bool.eq_false_iff.1 hplain)]

/-! ## Drawing -/

/-- A well-formed graph that has grown from another one by edges to some nodes only. -/
structure Grown (keys : List String) (graph grown : Graph) : Prop where
  wellFormed : grown.WellFormed
  keys_eq : grown.keys = graph.keys
  targets : ∀ edge ∈ grown.edges, edge ∈ graph.edges ∨ edge.target ∈ keys

variable {keys : List String} {graph grown graph' : Graph}

theorem Grown.insertEdge (h : Grown keys graph grown) {edge : Edge} (htarget : edge.target ∈ keys)
    (hinsert : grown.insertEdge edge = .ok graph') : Grown keys graph graph' := by
  have hwellFormed := h.wellFormed.insertEdge hinsert
  obtain ⟨_, rfl⟩ := Graph.insertEdge_eq_ok hinsert
  refine ⟨hwellFormed, h.keys_eq, fun other hother => ?_⟩
  rcases List.mem_append.1 hother with hold | hnew
  · exact h.targets other hold
  · exact .inr (List.mem_singleton.1 hnew ▸ htarget)

theorem insertEdge_of_drawEdge {target : String} {group : String × List Mapping}
    (h : drawEdge target grown group = .ok graph') :
    ∃ edge, edge.target = target ∧ grown.insertEdge edge = .ok graph' := by
  unfold drawEdge at h
  split at h
  · exact ⟨_, rfl, h⟩
  · exact ⟨_, rfl, (Graph.connectMapped_eq_ok h).2.2⟩

/-- Drawing an intake, whether it is clear or not, adds only edges to its node. -/
theorem Grown.drawEdges (h : Grown keys graph grown) (hkey : intake.key ∈ keys)
    (hdraw : drawEdges grown intake = .ok graph') : Grown keys graph graph' := by
  refine (steps_of_foldlM (Grown keys graph) h (fun group _ grown graph' hgrown hstep => ?_)
    hdraw).1
  obtain ⟨edge, htarget, hinsert⟩ := insertEdge_of_drawEdge hstep
  exact hgrown.insertEdge (htarget ▸ hkey) hinsert

/-- Drawing some intakes one after the other adds only edges to their nodes. -/
theorem grown_drawEdges {intakes : List Intake} (h : graph.WellFormed)
    (hdraw : intakes.foldlM drawEdges graph = .ok grown) :
    Grown (intakes.map (·.key)) graph grown :=
  (steps_of_foldlM (Grown (intakes.map (·.key)) graph) ⟨h, rfl, fun _ => .inl⟩
    (fun _ hintake _ _ hgrown => hgrown.drawEdges (List.mem_map_of_mem hintake)) hdraw).1

/-- Drawing a clear intake to whose node no edge leads yet. -/
theorem Clear.drawEdges_eq_ok (h : intake.Clear) (hgraph : graph.WellFormed)
    (hkey : intake.key ∈ graph.keys ∧ intake.key ≠ startKey)
    (hfree : ∀ edge ∈ graph.edges, edge.target ≠ intake.key)
    (hsources : ∀ mapping ∈ intake.inputs, mapping.node ∈ graph.keys ∧ mapping.node ≠ endKey) :
    drawEdges graph intake = .ok { graph with edges := graph.edges ++ intake.edges } := by
  have hapart : (graph.edges ++ intake.edges).Pairwise fun a b =>
      ¬(a.source = b.source ∧ a.target = b.target) := by
    refine List.pairwise_append.2 ⟨hgraph.apart, intake.apart_edges.imp fun hne heq => hne heq.1,
      fun old hold new hnew heq => hfree old hold ?_⟩
    rw [heq.2, target_of_mem_edges hnew]
  have houtcome := Workflow.outcome_insertEdges
    (fun edge hedge => (target_of_mem_edges hedge).symm ▸ hkey) hapart
  rw [h.drawEdges_eq]
  cases hdraw : intake.edges.foldlM Graph.insertEdge graph with
  | ok graph' =>
    rw [hdraw] at houtcome
    exact congrArg Except.ok houtcome.1
  | error e =>
    rw [hdraw] at houtcome
    obtain ⟨edge, hedge, hfault⟩ := houtcome
    obtain ⟨mapping, hmapping, hnode⟩ := (intake.mem_sources_edges _).1 ⟨edge, hedge, rfl⟩
    obtain ⟨hmem, hend⟩ := hnode ▸ hsources mapping hmapping
    rcases hfault with ⟨heq, _⟩ | ⟨hmissing, _⟩
    · exact absurd heq hend
    · exact absurd hmem hmissing

end Intake

namespace Workflow

/-- What drawing one intake of a workflow does, when the intakes before it are drawn: if
the intake passes its check and its mappings name sources that can be drawn from, the
graph gets edges that carry these mappings, behind those it has, and stays the same
otherwise. -/
theorem draws_carrying {workflow : Workflow} {input output : Ty} {requests : List Request}
    (hworkflow : declared input output requests = workflow) {before after : List Intake}
    {intake : Intake} (hsplit : workflow.intakes = before ++ intake :: after) {graph : Graph}
    (hgraph : before.foldlM Intake.drawEdges workflow.graph = .ok graph)
    (hcheck : intake.check = .ok ())
    (hsources : ∀ mapping ∈ intake.inputs,
      mapping.node ∈ workflow.graph.keys ∧ mapping.node ≠ endKey) :
    ∃ edges, intake.Carries edges ∧
      Intake.drawEdges graph intake = .ok { graph with edges := graph.edges ++ edges } := by
  have h : workflow.WellFormed := hworkflow ▸ wellFormed_declared input output requests
  have hclear := Intake.clear_of_check hcheck
  have hgrown := Intake.grown_drawEdges h.graph hgraph
  have hkeys := h.keys_nodup
  have hmem : intake.key ∈ workflow.intakes.map (·.key) ↔
      intake.key ∈ workflow.graph.keys ∧ intake.key ≠ startKey := h.mem_keys_intakes
  rw [hsplit, List.map_append, List.map_cons] at hkeys hmem
  refine ⟨intake.edges, hclear.carries, hclear.drawEdges_eq_ok hgrown.wellFormed ?_ ?_ ?_⟩
  · rw [hgrown.keys_eq]
    exact hmem.1 (List.mem_append_right _ List.mem_cons_self)
  · intro edge hedge htarget
    -- edges from before lead to the nodes of other intakes
    rcases hgrown.targets edge hedge with hold | hnew
    · rw [h.edges] at hold
      exact nomatch hold
    · exact (List.nodup_append.1 hkeys).2.2 _ hnew _ List.mem_cons_self htarget
  · rwa [hgrown.keys_eq]

/-- What a node takes: the output of another node for two parts of its input, and between
them a part of the start. -/
def between : Intake where
  key := "join"
  inputs := [⟨"label", "", "first"⟩, ⟨startKey, "name", "name"⟩, ⟨"label", "", "last"⟩]

/-- A workflow in which a node takes from two nodes in turns. -/
def interleaved : Workflow :=
  declared (.map .string .any) (.map .string .any)
    [.node "label" Graph.labelNode, .input "label" [⟨startKey, "name", "text"⟩],
      .node "join" (.pass (.map .string .any)), .input "join" between.inputs,
      .finish [⟨"join", "", ""⟩]]

/-- The graph of the workflow with the edge of its first node. -/
def interleavedStart : Graph :=
  { interleaved.graph with edges := [.mapped startKey "label" [⟨startKey, "name", "text"⟩]] }

theorem draws_carrying_interleaved :
    ∃ edges, between.Carries edges ∧ edges.map (·.source) = ["label", startKey] ∧
      Intake.drawEdges interleavedStart between =
        .ok { interleavedStart with edges := interleavedStart.edges ++ edges } := by
  have hsplit : interleaved.intakes = [⟨"label", [⟨startKey, "name", "text"⟩]⟩] ++
      between :: [⟨endKey, [⟨"join", "", ""⟩]⟩] := by cbv
  have hgraph : [⟨"label", [⟨startKey, "name", "text"⟩]⟩].foldlM Intake.drawEdges
      interleaved.graph = .ok interleavedStart := by cbv
  have hsources : ∀ mapping ∈ between.inputs,
      mapping.node ∈ interleaved.graph.keys ∧ mapping.node ≠ endKey := by
    have hkeys : interleaved.graph.keys = [startKey, endKey, "label", "join"] := by cbv
    rw [hkeys]
    decide
  obtain ⟨edges, hcarries, hdraw⟩ := draws_carrying rfl hsplit hgraph (by cbv) hsources
  exact ⟨edges, hcarries, hcarries.sources.trans (by decide), hdraw⟩

end Workflow

end Dataflow
