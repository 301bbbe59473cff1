import Dataflow.Graph
import Dataflow.Proofs.Outcome
import Mathlib.Data.List.Nodup

/-!
# Declared graphs

What can be said about every graph that was built by declarations, whatever they
are and in whatever order, with some of them refused.  `Graph.WellFormed` holds
of the graph without declarations, and each declaration keeps it.

* `Graph.declare_isOk_iff`: which declarations are accepted.
* `Graph.WellFormed.declare`: the step.
* `Graph.wellFormed_declared`: the run.
* `Graph.nodup_targets_declared`: no edge fills a part of an input twice.
* `Graph.node_of_mem_declared`: the mappings of an edge read the output of its source.
* `Graph.mem_declarations_of_mem_nodes`: a graph has no other nodes than the
  declared ones.
-/

namespace Dataflow

/-! ## Declarations -/

/-- A request to add something to a graph. -/
inductive Declaration
  /-- A node under a key. -/
  | node (key : String) (node : Node)
  /-- A plain edge. -/
  | edge (source target : String)
  /-- An edge with mappings. -/
  | mapped (source target : String) (mappings : List Mapping)

namespace Declaration

/-- The node that is to be added, with its key. -/
def node? : Declaration → Option (String × Node)
  | .node key unit => some (key, unit)
  | .edge _ _ => none
  | .mapped _ _ _ => none

/-- The edge that is to be added. -/
def edge? : Declaration → Option Edge
  | .node _ _ => none
  | .edge source target => some { source, target }
  | .mapped source target mappings => some (.mapped source target mappings)

end Declaration

/-- An edge that has mappings stands for them. -/
theorem Edge.mappings_cases (edge : Edge) :
    edge.mappings = [] ∨ edge.effectiveMappings = edge.mappings := by
  by_cases hplain : edge.mappings = []
  · exact .inl hplain
  · exact .inr (if_neg (by simpa [Edge.isPlain] using hplain))

namespace Graph

/-- The graph with one more declaration, if it is accepted. -/
def declare (graph : Graph) : Declaration → Except Error Graph
  | .node key node => graph.addNode key node
  | .edge source target => graph.connect source target
  | .mapped source target mappings => graph.connectMapped source target mappings

/-- The graph after a declaration.  A refused one leaves it as it was. -/
def after (graph : Graph) (declaration : Declaration) : Graph :=
  match graph.declare declaration with
  | .ok graph' => graph'
  | .error _ => graph

/-- The graph that some declarations build. -/
def declared (input output : Ty) (declarations : List Declaration) : Graph :=
  declarations.foldl after { input, output }

variable {graph graph' : Graph}

/-! ## Accepted declarations -/

/-- No text is repeated just if the texts are different. -/
theorem repeated?_eq_none_iff {texts : List String} : repeated? texts = none ↔ texts.Nodup := by
  rw [repeated?, List.find?_eq_none, List.nodup_iff_count_le_one]
  simp only [List.mem_mergeSort, decide_eq_true_eq, Nat.not_lt]
  refine ⟨fun h text => ?_, fun h text _ => h text⟩
  by_cases hmem : text ∈ texts
  · exact h text hmem
  · rw [List.count_eq_zero_of_not_mem hmem]
    exact Nat.zero_le 1

/-- What an edge needs to be accepted. -/
structure Insertable (graph : Graph) (edge : Edge) : Prop where
  source_ne : edge.source ≠ endKey
  target_ne : edge.target ≠ startKey
  source_mem : edge.source ∈ graph.keys
  target_mem : edge.target ∈ graph.keys
  free : ∀ other ∈ graph.edges, ¬(other.source = edge.source ∧ other.target = edge.target)

/-- What a declaration needs to be accepted. -/
def Admits (graph : Graph) : Declaration → Prop
  | .node key _ => key ≠ "" ∧ key ∉ graph.keys
  | .edge source target => graph.Insertable { source, target }
  | .mapped source target mappings => mappings ≠ [] ∧ (mappings.map (·.target)).Nodup ∧
    graph.Insertable (.mapped source target mappings)

theorem contains_iff {key : String} : graph.contains key = true ↔ key ∈ graph.keys := by
  rw [contains, List.contains_iff_mem]

theorem hasEdge_eq_false_iff {source target : String} : graph.hasEdge source target = false ↔
    ∀ edge ∈ graph.edges, ¬(edge.source = source ∧ edge.target = target) := by
  simp [hasEdge]

theorem addNode_eq_ok {key : String} {node : Node} (h : graph.addNode key node = .ok graph') :
    key ≠ "" ∧ key ∉ graph.keys ∧
      graph' = { graph with nodes := graph.nodes ++ [(key, node)] } := by
  unfold Graph.addNode at h
  split at h
  · exact nomatch h
  next hkey =>
    split at h
    · exact nomatch h
    next hnew => exact ⟨hkey, mt contains_iff.2 hnew, (Except.ok.inj h).symm⟩

theorem insertEdge_eq_ok {edge : Edge} (h : graph.insertEdge edge = .ok graph') :
    graph.Insertable edge ∧ graph' = { graph with edges := graph.edges ++ [edge] } := by
  have hmem : ∀ {key : String}, ¬(!graph.contains key) = true → key ∈ graph.keys := fun h => by
    rwa [Bool.not_eq_true', Bool.not_eq_false, contains_iff] at h
  unfold Graph.insertEdge at h
  split at h
  · exact nomatch h
  split at h
  · exact nomatch h
  split at h
  · exact nomatch h
  split at h
  · exact nomatch h
  split at h
  · exact nomatch h
  next hend hstart hsource htarget hfree =>
    rw [Bool.not_eq_true, hasEdge_eq_false_iff] at hfree
    exact ⟨⟨hend, hstart, hmem hsource, hmem htarget, hfree⟩, (Except.ok.inj h).symm⟩

theorem Insertable.insertEdge {edge : Edge} (h : graph.Insertable edge) :
    graph.insertEdge edge = .ok { graph with edges := graph.edges ++ [edge] } := by
  have hsource := contains_iff.2 h.source_mem
  have htarget := contains_iff.2 h.target_mem
  have hfree := hasEdge_eq_false_iff.2 h.free
  rw [Graph.insertEdge, if_neg h.source_ne, if_neg h.target_ne, hsource, htarget, hfree]
  rfl

theorem connectMapped_eq_ok {source target : String} {mappings : List Mapping}
    (h : graph.connectMapped source target mappings = .ok graph') :
    mappings ≠ [] ∧ (mappings.map (·.target)).Nodup ∧
      graph.insertEdge (.mapped source target mappings) = .ok graph' := by
  unfold connectMapped at h
  split at h
  · exact nomatch h
  next hne =>
    split at h
    · exact nomatch h
    next hrepeated => exact ⟨by simpa using hne, repeated?_eq_none_iff.1 hrepeated, h⟩

/-- A declaration is accepted where it has what it needs. -/
theorem declare_isOk_iff (graph : Graph) (declaration : Declaration) :
    (∃ graph', graph.declare declaration = .ok graph') ↔ graph.Admits declaration := by
  constructor
  · rintro ⟨graph', h⟩
    cases declaration with
    | node key node =>
      obtain ⟨hkey, hnew, _⟩ := addNode_eq_ok h
      exact ⟨hkey, hnew⟩
    | edge source target => exact (insertEdge_eq_ok h).1
    | mapped source target mappings =>
      obtain ⟨hne, hnodup, h⟩ := connectMapped_eq_ok h
      exact ⟨hne, hnodup, (insertEdge_eq_ok h).1⟩
  · intro h
    cases declaration with
    | node key node =>
      obtain ⟨hkey, hnew⟩ := h
      refine ⟨{ graph with nodes := graph.nodes ++ [(key, node)] }, ?_⟩
      rw [declare, Graph.addNode, if_neg hkey, if_neg (mt contains_iff.1 hnew)]
    | edge source target => exact ⟨_, Insertable.insertEdge h⟩
    | mapped source target mappings =>
      obtain ⟨hne, hnodup, h⟩ := h
      have hconnect : graph.connectMapped source target mappings =
          graph.insertEdge (.mapped source target mappings) := by
        rw [connectMapped, if_neg (by simpa using hne), repeated?_eq_none_iff.2 hnodup]
      exact ⟨_, hconnect.trans h.insertEdge⟩

/-- An accepted declaration of an edge has inserted it. -/
theorem insertEdge_of_declare {declaration : Declaration} {edge : Edge}
    (h : graph.declare declaration = .ok graph') (hedge : declaration.edge? = some edge) :
    graph.insertEdge edge = .ok graph' := by
  cases declaration with
  | node key node => exact nomatch hedge
  | edge source target =>
    obtain rfl := Option.some.inj hedge
    exact h
  | mapped source target mappings =>
    obtain rfl := Option.some.inj hedge
    exact (connectMapped_eq_ok h).2.2

/-- An accepted declaration adds its node. -/
theorem nodes_declare {declaration : Declaration} (h : graph.declare declaration = .ok graph') :
    graph'.nodes = graph.nodes ++ declaration.node?.toList := by
  cases declaration with
  | node key node =>
    obtain ⟨_, _, rfl⟩ := addNode_eq_ok h
    rfl
  | edge source target =>
    obtain ⟨_, rfl⟩ := insertEdge_eq_ok h
    exact (List.append_nil _).symm
  | mapped source target mappings =>
    obtain ⟨_, rfl⟩ := insertEdge_eq_ok (connectMapped_eq_ok h).2.2
    exact (List.append_nil _).symm

/-- An accepted declaration adds its edge. -/
theorem edges_declare {declaration : Declaration} (h : graph.declare declaration = .ok graph') :
    graph'.edges = graph.edges ++ declaration.edge?.toList := by
  cases hedge : declaration.edge? with
  | none =>
    cases declaration with
    | node key node =>
      obtain ⟨_, _, rfl⟩ := addNode_eq_ok h
      exact (List.append_nil _).symm
    | edge source target => exact nomatch hedge
    | mapped source target mappings => exact nomatch hedge
  | some edge =>
    obtain ⟨_, rfl⟩ := insertEdge_eq_ok (insertEdge_of_declare h hedge)
    rfl

/-! ## Well-formed graphs -/

/-- No key is given twice, the edges connect nodes and lead from the start
towards the end, and no two of them connect the same nodes. -/
structure WellFormed (graph : Graph) : Prop where
  keys : graph.keys.Nodup
  source_mem : ∀ edge ∈ graph.edges, edge.source ∈ graph.keys
  target_mem : ∀ edge ∈ graph.edges, edge.target ∈ graph.keys
  source_ne : ∀ edge ∈ graph.edges, edge.source ≠ endKey
  target_ne : ∀ edge ∈ graph.edges, edge.target ≠ startKey
  apart : graph.edges.Pairwise fun a b => ¬(a.source = b.source ∧ a.target = b.target)

theorem wellFormed_empty (input output : Ty) : WellFormed { input, output } where
  keys := show [startKey, endKey].Nodup by decide
  source_mem := nofun
  target_mem := nofun
  source_ne := nofun
  target_ne := nofun
  apart := .nil

theorem WellFormed.addNode {key : String} {node : Node} (hgraph : graph.WellFormed)
    (h : graph.addNode key node = .ok graph') : graph'.WellFormed := by
  obtain ⟨_, hnew, rfl⟩ := addNode_eq_ok h
  have hkeys : Graph.keys { graph with nodes := graph.nodes ++ [(key, node)] } =
      graph.keys ++ [key] := by simp [Graph.keys]
  refine ⟨?_, fun edge hedge => ?_, fun edge hedge => ?_, hgraph.source_ne, hgraph.target_ne,
    hgraph.apart⟩
  · rw [hkeys, List.nodup_append]
    refine ⟨hgraph.keys, List.pairwise_singleton _ _, fun a ha b hb heq => hnew ?_⟩
    rwa [← List.mem_singleton.1 hb, ← heq]
  · rw [hkeys]
    exact List.mem_append_left _ (hgraph.source_mem edge hedge)
  · rw [hkeys]
    exact List.mem_append_left _ (hgraph.target_mem edge hedge)

theorem WellFormed.insertEdge {edge : Edge} (hgraph : graph.WellFormed)
    (h : graph.insertEdge edge = .ok graph') : graph'.WellFormed := by
  obtain ⟨hedge, rfl⟩ := insertEdge_eq_ok h
  have hall : ∀ {P : Edge → Prop}, (∀ e ∈ graph.edges, P e) → P edge →
      ∀ e ∈ graph.edges ++ [edge], P e := fun hold hnew e he => by
    rcases List.mem_append.1 he with he | he
    · exact hold e he
    · exact List.mem_singleton.1 he ▸ hnew
  refine ⟨hgraph.keys, hall hgraph.source_mem hedge.source_mem,
    hall hgraph.target_mem hedge.target_mem, hall hgraph.source_ne hedge.source_ne,
    hall hgraph.target_ne hedge.target_ne, ?_⟩
  refine List.pairwise_append.2 ⟨hgraph.apart, List.pairwise_singleton _ _, ?_⟩
  intro a ha b hb
  obtain rfl := List.mem_singleton.1 hb
  exact hedge.free a ha

/-- An accepted declaration keeps a graph well formed. -/
theorem WellFormed.declare {declaration : Declaration} (hgraph : graph.WellFormed)
    (h : graph.declare declaration = .ok graph') : graph'.WellFormed := by
  cases declaration with
  | node key node => exact hgraph.addNode h
  | edge source target => exact hgraph.insertEdge h
  | mapped source target mappings => exact hgraph.insertEdge (connectMapped_eq_ok h).2.2

/-- What every accepted declaration keeps holds of every graph that declarations
build. -/
theorem declared_induction (holds : Graph → Prop) {input output : Ty}
    (hempty : holds { input, output })
    (hstep : ∀ graph declaration graph', holds graph →
      graph.declare declaration = .ok graph' → holds graph')
    (declarations : List Declaration) : holds (declared input output declarations) := by
  have hrun : ∀ (declarations : List Declaration) {graph : Graph}, holds graph →
      holds (declarations.foldl Graph.after graph) := by
    intro declarations
    induction declarations with
    | nil => exact fun h => h
    | cons declaration rest ih =>
      intro graph h
      refine ih ?_
      unfold Graph.after
      split
      next graph' hdeclare => exact hstep graph declaration graph' h hdeclare
      · exact h
  exact hrun declarations hempty

/-- Every graph that declarations build is well formed. -/
theorem wellFormed_declared (input output : Ty) (declarations : List Declaration) :
    (declared input output declarations).WellFormed :=
  declared_induction WellFormed (wellFormed_empty input output) (fun _ _ _ h => h.declare)
    declarations

/-- No key of a declared graph is empty. -/
theorem key_ne_of_mem_declared (input output : Ty) (declarations : List Declaration) :
    ∀ key ∈ (declared input output declarations).keys, key ≠ "" := by
  refine declared_induction (fun graph => ∀ key ∈ graph.keys, key ≠ "") ?_ ?_ declarations
  · show ∀ key ∈ [startKey, endKey], key ≠ ""
    decide
  intro graph declaration graph' hgraph h key hkey
  have hkeys : graph'.keys = graph.keys ++ declaration.node?.toList.map (·.1) := by
    simp [keys, nodes_declare h]
  rw [hkeys] at hkey
  rcases List.mem_append.1 hkey with hkey | hkey
  · exact hgraph key hkey
  · cases declaration with
    | node key' node =>
      obtain rfl := List.mem_singleton.1 hkey
      exact (addNode_eq_ok h).1
    | edge source target => exact nomatch hkey
    | mapped source target mappings => exact nomatch hkey

/-! ## Targets of edges -/

/-- What holds of plain edges, and of edges with mappings to different targets, holds of
the edges of a declared graph. -/
theorem edges_declared {holds : Edge → Prop} (hplain : ∀ source target, holds { source, target })
    (hmapped : ∀ source target mappings, mappings ≠ [] → (mappings.map (·.target)).Nodup →
      holds (.mapped source target mappings))
    (input output : Ty) (declarations : List Declaration) :
    ∀ edge ∈ (declared input output declarations).edges, holds edge := by
  refine declared_induction (fun graph => ∀ edge ∈ graph.edges, holds edge) nofun ?_ declarations
  intro graph declaration graph' hgraph h edge hedge
  rw [edges_declare h] at hedge
  rcases List.mem_append.1 hedge with hedge | hedge
  · exact hgraph edge hedge
  have hedge := Option.mem_toList.1 hedge
  cases declaration with
  | node key node => exact nomatch hedge
  | edge source target => exact Option.some.inj hedge ▸ hplain source target
  | mapped source target mappings =>
    obtain ⟨hne, hnodup, _⟩ := connectMapped_eq_ok h
    exact Option.some.inj hedge ▸ hmapped source target mappings hne hnodup

/-- An edge with mappings stands for them, with its own source as theirs. -/
theorem effectiveMappings_mapped (source target : String) {mappings : List Mapping}
    (h : mappings ≠ []) : (Edge.mapped source target mappings).effectiveMappings =
      mappings.map fun mapping => { mapping with node := source } := by
  rw [Edge.effectiveMappings, Edge.isPlain, Edge.mapped, if_neg (by simpa using h)]

/-- The edges of a declared graph fill different parts of an input each. -/
theorem nodup_targets_declared (input output : Ty) (declarations : List Declaration) :
    ∀ edge ∈ (declared input output declarations).edges, edge.targets.Nodup := by
  refine edges_declared (fun _ _ => List.nodup_singleton "") ?_ input output declarations
  intro source target mappings hne hnodup
  rwa [Edge.targets, effectiveMappings_mapped source target hne, List.map_map]

/-- The mappings of a declared edge read the output of its source. -/
theorem node_of_mem_declared (input output : Ty) (declarations : List Declaration) :
    ∀ edge ∈ (declared input output declarations).edges,
      ∀ mapping ∈ edge.effectiveMappings, mapping.node = edge.source := by
  refine edges_declared (fun source target mapping hmapping => ?_) ?_ input output declarations
  · rw [List.mem_singleton.1 hmapping]
  · intro source target mappings hne _ mapping hmapping
    rw [effectiveMappings_mapped source target hne] at hmapping
    obtain ⟨_, _, rfl⟩ := List.mem_map.1 hmapping
    rfl

/-! ## Declared nodes -/

/-- A declaration adds at most the node that it names. -/
theorem mem_nodes_declare {declaration : Declaration} {entry : String × Node}
    (h : graph.declare declaration = .ok graph') (hentry : entry ∈ graph'.nodes) :
    entry ∈ graph.nodes ∨ declaration = .node entry.1 entry.2 := by
  rw [nodes_declare h] at hentry
  refine (List.mem_append.1 hentry).imp_right fun hadded => ?_
  have hadded := Option.mem_toList.1 hadded
  cases declaration with
  | node key node => exact Option.some.inj hadded ▸ rfl
  | edge source target => exact nomatch hadded
  | mapped source target mappings => exact nomatch hadded

/-- The nodes of a graph are among the declared ones. -/
theorem mem_declarations_of_mem_nodes {input output : Ty} {declarations : List Declaration}
    {entry : String × Node} (hentry : entry ∈ (declared input output declarations).nodes) :
    .node entry.1 entry.2 ∈ declarations := by
  have hrun : ∀ (declarations : List Declaration) {graph : Graph},
      entry ∈ (declarations.foldl Graph.after graph).nodes →
        entry ∈ graph.nodes ∨ .node entry.1 entry.2 ∈ declarations := by
    intro declarations
    induction declarations with
    | nil => exact fun h => .inl h
    | cons declaration rest ih =>
      intro graph h
      rcases ih h with h | h
      · unfold Graph.after at h
        split at h
        next graph' hdeclare =>
          refine (mem_nodes_declare hdeclare h).imp_right fun heq => ?_
          rw [heq]
          exact List.mem_cons_self
        · exact .inl h
      · exact .inr (List.mem_cons_of_mem _ h)
  exact (hrun declarations hentry).resolve_left nofun

end Graph

end Dataflow
