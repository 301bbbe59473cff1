import Dataflow.Graph.Compile
import Dataflow.Proofs.Declarations
import Dataflow.Proofs.GuardElision
import Mathlib.Logic.Relation

/-!
# Compiled graphs

What compiling finds out about a well-formed graph, and what follows for the
shape of the graph.  No check looks for the start or the end in the execution
order.  That they are its first and its last key follows from checks of single
nodes: a first key has no predecessor before it, and a last one no successor
after it.

* `Graph.compiled_of_compile`: the parts of a circuit and the checks its graph
  has passed.
* `Graph.Compiled.order_eq`: the start is first and the end is last.
* `Graph.Compiled.on_path`: every node is on a path from the start to the end.
-/

namespace Dataflow.Graph

variable {graph : Graph} {options : CompileOptions} {circuit : Circuit}

/-! ## Checked nodes -/

/-- What the check of a node other than the start says about its edges. -/
structure CheckedNode (graph : Graph) (options : CompileOptions) (key : String) : Prop where
  incoming_ne : graph.incoming key ≠ []
  outgoing_ne : key ≠ endKey → graph.outgoing key ≠ []
  uniform : (∀ target ∈ graph.filledTargets key, target = "") ∨
    ∀ target ∈ graph.filledTargets key, target ≠ ""
  plain : options.trigger = .anyPredecessor → ∀ edge ∈ graph.incoming key, edge.isPlain = true
  mergeable : options.trigger = .allPredecessors → graph.unmergeable? options.merges key = none

theorem checkedNode_of_nodeFault? {key : String} (h : graph.nodeFault? options key = none)
    (hkey : key ≠ startKey) : graph.CheckedNode options key := by
  unfold nodeFault? at h
  rw [if_neg hkey] at h
  split at h
  · exact nomatch h
  split at h
  · exact nomatch h
  split at h
  · exact nomatch h
  split at h
  · exact nomatch h
  next _ hin hout huniform =>
    refine ⟨fun h => hin (List.isEmpty_iff.2 h), fun hend h => hout (by simp [hend, h]), ?_, ?_, ?_⟩
    · by_cases hwhole : "" ∈ graph.filledTargets key
      · refine .inl fun target htarget => ?_
        by_contra hne
        exact huniform (by simpa [hwhole] using ⟨target, htarget, hne⟩)
      · exact .inr fun target htarget heq => hwhole (heq ▸ htarget)
    · intro htrigger edge hedge
      rw [htrigger] at h
      dsimp only at h
      split at h
      · exact nomatch h
      next hplain =>
        by_contra hne
        exact hplain (List.any_eq_true.2 ⟨edge, hedge, by simpa using hne⟩)
    · intro htrigger
      rw [htrigger] at h
      exact h

/-! ## Edges and wires -/

/-- A wire together with the edge it was made of. -/
structure WireOf (graph : Graph) (edge : Edge) (wire : Wire) : Prop where
  source : wire.source = edge.source
  target : wire.target = edge.target
  mappings : wire.mappings = edge.effectiveMappings
  accepted : Mapping.Accepted (graph.outputType edge.source) (graph.inputType edge.target)
    wire.mappings wire.plan

theorem wireOf_of_wire {edge : Edge} {wire : Wire} (h : graph.wire edge = .ok wire) :
    graph.WireOf edge wire := by
  obtain ⟨plan, hplan, h⟩ := bind_eq_ok h
  obtain rfl := Except.ok.inj h
  refine ⟨rfl, rfl, rfl, ?_⟩
  unfold edgePlan at hplan
  dsimp only [Edge.effectiveMappings]
  split at hplan
  next hplain =>
    obtain ⟨guard, hguard, hplan⟩ := bind_eq_ok hplan
    obtain rfl := Except.ok.inj hplan
    rw [if_pos hplain]
    exact .plain hguard
  next hplain =>
    rw [if_neg hplain]
    exact .mapped hplan

/-! ## Compiling -/

/-- A circuit together with the well-formed graph it was compiled from, and the
checks the graph has passed. -/
structure Compiled (graph : Graph) (options : CompileOptions) (circuit : Circuit) : Prop where
  wellFormed : graph.WellFormed
  input_eq : circuit.input = graph.input
  output_eq : circuit.output = graph.output
  options_eq : circuit.options = options
  stations_eq : circuit.stations = circuit.order.map (graph.station options)
  wires : List.Forall₂ graph.WireOf graph.edges circuit.wires
  order_perm : circuit.order.Perm graph.keys
  placed : ∀ before key after, circuit.order = before ++ key :: after →
    ∀ edge ∈ graph.edges, edge.target = key → edge.source ∈ before
  checked : ∀ key ∈ graph.keys, key ≠ startKey → graph.CheckedNode options key

/-- An execution order has every key once, and each after those that lead to it. -/
theorem placed_of_executionOrder (hgraph : graph.WellFormed) {order : List String}
    (h : graph.executionOrder options = .ok order) :
    order.Perm graph.keys ∧ ∀ before key after, order = before ++ key :: after →
      ∀ edge ∈ graph.edges, edge.target = key → edge.source ∈ before := by
  obtain ⟨hperm, hloop, hplaced⟩ := options.sorter.ordered hgraph.keys (mapError_eq_ok h)
  refine ⟨hperm, ?_⟩
  rintro before key after hsplit edge hedge rfl
  refine hplaced before _ after hsplit edge.source ?_ fun heq => ?_
  · exact List.mem_map.2 ⟨edge, List.mem_filter.2 ⟨hedge, by simp⟩, rfl⟩
  · refine hloop _ (hgraph.target_mem edge hedge) (List.mem_map.2 ⟨edge, ?_, rfl⟩)
    exact List.mem_filter.2 ⟨hedge, by simp [heq]⟩

theorem checkedNode_of_checks (h : graph.keys.forM (graph.checkNode options) = .ok ())
    {key : String} (hkey : key ∈ graph.keys) (hstart : key ≠ startKey) :
    graph.CheckedNode options key := by
  have hnode := forM_eq_ok h key hkey
  unfold checkNode at hnode
  split at hnode
  · exact nomatch hnode
  next hnone => exact checkedNode_of_nodeFault? hnone hstart

/-- The wires of a circuit are what the edges of its graph were made into. -/
theorem wires_of_compile (h : graph.compile options = .ok circuit) :
    List.Forall₂ (fun edge wire => graph.wire edge = .ok wire) graph.edges circuit.wires := by
  obtain ⟨order, _, h⟩ := bind_eq_ok h
  obtain ⟨_, _, h⟩ := bind_eq_ok h
  obtain ⟨wires, hwires, h⟩ := bind_eq_ok h
  obtain rfl := Except.ok.inj h
  exact forall₂_of_mapM_eq_ok hwires

theorem compiled_of_compile (hgraph : graph.WellFormed)
    (h : graph.compile options = .ok circuit) : graph.Compiled options circuit := by
  have hwires := (wires_of_compile h).imp fun _ _ => wireOf_of_wire
  obtain ⟨order, horder, h⟩ := bind_eq_ok h
  obtain ⟨_, hcheck, h⟩ := bind_eq_ok h
  obtain ⟨wires, _, h⟩ := bind_eq_ok h
  obtain rfl := Except.ok.inj h
  have hkeys : Circuit.order ⟨graph.input, graph.output, order.map (graph.station options),
      wires, options⟩ = order := by simp [Circuit.order, station, Function.comp_def]
  obtain ⟨hperm, hplaced⟩ := placed_of_executionOrder hgraph horder
  exact ⟨hgraph, rfl, rfl, rfl, by rw [hkeys], hwires, by rwa [hkeys], by rwa [hkeys],
    fun _ => checkedNode_of_checks hcheck⟩

/-- An edge leads from one node to another. -/
def Leads (graph : Graph) (source target : String) : Prop :=
  ∃ edge ∈ graph.edges, edge.source = source ∧ edge.target = target

namespace Compiled

variable (h : graph.Compiled options circuit)
include h

/-! ## The execution order -/

theorem order_nodup : circuit.order.Nodup :=
  h.order_perm.nodup_iff.2 h.wellFormed.keys

theorem mem_order {key : String} : key ∈ circuit.order ↔ key ∈ graph.keys :=
  h.order_perm.mem_iff

/-- A node comes before its successors. -/
theorem target_mem_after {before after : List String} {key : String}
    (hsplit : circuit.order = before ++ key :: after) {edge : Edge} (hedge : edge ∈ graph.edges)
    (hsource : edge.source = key) : edge.target ∈ after := by
  have hfirst : ∀ {first second : List String}, circuit.order = first ++ edge.target :: second →
      key ∈ first := fun h' => hsource ▸ h.placed _ _ _ h' edge hedge rfl
  have htarget : edge.target ∈ before ++ key :: after :=
    hsplit ▸ h.mem_order.2 (h.wellFormed.target_mem edge hedge)
  have hnodup : (before ++ key :: after).Nodup := hsplit ▸ h.order_nodup
  rcases List.mem_append.1 htarget with hmem | hmem
  · obtain ⟨first, second, rfl⟩ := List.append_of_mem hmem
    have hsplit' : circuit.order = first ++ edge.target :: (second ++ key :: after) := by
      simpa using hsplit
    have hkey := hfirst hsplit'
    exact absurd rfl ((List.nodup_append.1 hnodup).2.2 key (List.mem_append_left _ hkey) key
      List.mem_cons_self)
  · rcases List.mem_cons.1 hmem with heq | hmem
    · have hkey := hfirst (heq ▸ hsplit)
      exact absurd rfl ((List.nodup_append.1 hnodup).2.2 key hkey key List.mem_cons_self)
    · exact hmem

/-- The first key is the start. -/
theorem exists_order_eq_cons : ∃ rest, circuit.order = startKey :: rest := by
  cases horder : circuit.order with
  | nil =>
    have := h.mem_order.2 (List.mem_cons_self : startKey ∈ graph.keys)
    rw [horder] at this
    exact nomatch this
  | cons key rest =>
    by_cases hstart : key = startKey
    · exact ⟨rest, by rw [hstart]⟩
    -- a node in front would have a predecessor in front of it
    have hkey : key ∈ graph.keys := h.mem_order.1 (by simp [horder])
    obtain ⟨edge, hedge⟩ := List.exists_mem_of_ne_nil _ (h.checked key hkey hstart).incoming_ne
    obtain ⟨hmem, htarget⟩ := List.mem_filter.1 hedge
    exact nomatch h.placed [] key rest horder edge hmem (of_decide_eq_true htarget)

/-- The start comes first and the end last, with the declared nodes in between. -/
theorem order_eq : ∃ middle : List String,
    circuit.order = startKey :: (middle ++ [endKey]) ∧ middle.Perm (graph.nodes.map (·.1)) := by
  obtain ⟨rest, hrest⟩ := h.exists_order_eq_cons
  have hnodup : (startKey :: rest).Nodup := hrest ▸ h.order_nodup
  rcases List.eq_nil_or_concat rest with rfl | ⟨middle, key, rfl⟩
  · have hend : endKey ∈ circuit.order := h.mem_order.2 (by simp [keys])
    rw [hrest] at hend
    exact absurd (List.mem_singleton.1 hend) (by decide)
  rw [List.concat_eq_append] at hrest hnodup
  have hlast : key = endKey := by
    by_contra hend
    -- a node at the back would have a successor behind it
    have hkey : key ∈ graph.keys := h.mem_order.1 (by simp [hrest])
    have hstart : key ≠ startKey := by
      rintro rfl
      exact (List.nodup_cons.1 hnodup).1 (by simp)
    obtain ⟨edge, hedge⟩ :=
      List.exists_mem_of_ne_nil _ ((h.checked key hkey hstart).outgoing_ne hend)
    obtain ⟨hmem, hsource⟩ := List.mem_filter.1 hedge
    have hsplit : circuit.order = (startKey :: middle) ++ key :: [] := hrest
    exact absurd (h.target_mem_after hsplit hmem (of_decide_eq_true hsource)) List.not_mem_nil
  subst hlast
  refine ⟨middle, hrest, ?_⟩
  have hperm := h.order_perm
  rw [hrest] at hperm
  exact ((List.perm_append_singleton endKey middle).symm.trans hperm.cons_inv).cons_inv

/-! ## Paths -/

theorem reachable_of_mem {before after : List String} (hsplit : circuit.order = before ++ after) :
    ∀ key ∈ before, Relation.ReflTransGen graph.Leads startKey key := by
  induction before using List.reverseRecOn generalizing after with
  | nil => exact nofun
  | append_singleton before key ih =>
    rw [List.append_assoc, List.singleton_append] at hsplit
    intro k hk
    rcases List.mem_append.1 hk with hk | hk
    · exact ih hsplit k hk
    obtain rfl := List.mem_singleton.1 hk
    by_cases hstart : k = startKey
    · rw [hstart]
    have hkey : k ∈ graph.keys := h.mem_order.1 (by simp [hsplit])
    obtain ⟨edge, hedge⟩ := List.exists_mem_of_ne_nil _ (h.checked k hkey hstart).incoming_ne
    obtain ⟨hmem, htarget⟩ := List.mem_filter.1 hedge
    have htarget := of_decide_eq_true htarget
    exact (ih hsplit edge.source (h.placed _ _ _ hsplit edge hmem htarget)).tail
      ⟨edge, hmem, rfl, htarget⟩

theorem reaches_of_mem {before after : List String} (hsplit : circuit.order = before ++ after)
    (hbefore : startKey ∈ before) :
    ∀ key ∈ after, Relation.ReflTransGen graph.Leads key endKey := by
  induction after generalizing before with
  | nil => exact nofun
  | cons key after ih =>
    have hsplit' : circuit.order = (before ++ [key]) ++ after := by simpa using hsplit
    have hrest := ih hsplit' (List.mem_append_left _ hbefore)
    intro k hk
    rcases List.mem_cons.1 hk with rfl | hk
    · by_cases hend : k = endKey
      · rw [hend]
      have hkey : k ∈ graph.keys := h.mem_order.1 (by simp [hsplit])
      have hstart : k ≠ startKey := by
        rintro rfl
        have hnodup := h.order_nodup
        rw [hsplit] at hnodup
        exact (List.nodup_append.1 hnodup).2.2 _ hbefore _ List.mem_cons_self rfl
      obtain ⟨edge, hedge⟩ :=
        List.exists_mem_of_ne_nil _ ((h.checked k hkey hstart).outgoing_ne hend)
      obtain ⟨hmem, hsource⟩ := List.mem_filter.1 hedge
      have hsource := of_decide_eq_true hsource
      exact .head ⟨edge, hmem, hsource, rfl⟩
        (hrest edge.target (h.target_mem_after hsplit hmem hsource))
    · exact hrest k hk

/-- Every node is on a path from the start to the end. -/
theorem on_path {key : String} (hkey : key ∈ graph.keys) :
    Relation.ReflTransGen graph.Leads startKey key ∧
      Relation.ReflTransGen graph.Leads key endKey := by
  have hreachable : ∀ k ∈ graph.keys, Relation.ReflTransGen graph.Leads startKey k :=
    fun k hk => h.reachable_of_mem (List.append_nil _).symm k (h.mem_order.2 hk)
  refine ⟨hreachable key hkey, ?_⟩
  obtain ⟨rest, hrest⟩ := h.exists_order_eq_cons
  have hmem := h.mem_order.2 hkey
  rw [hrest] at hmem
  rcases List.mem_cons.1 hmem with rfl | hmem
  · exact hreachable endKey (by simp [keys])
  · have hsplit : circuit.order = [startKey] ++ rest := hrest
    exact h.reaches_of_mem hsplit List.mem_cons_self key hmem

end Compiled

end Dataflow.Graph
