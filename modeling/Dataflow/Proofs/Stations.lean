import Dataflow.Proofs.Compiled
import Mathlib.Data.List.Nodup

/-!
# Stations and wires

What a compiled circuit has at each place of its execution order, and which
wires feed it.

* `Graph.WellFormed.inputType_of_mem`: a declared node takes what it declares.
* `Graph.Compiled.source_mem_before`: a station comes after all it is fed from.
* `Graph.Compiled.uniform`: the wires into a station fill it as a whole or in
  parts, never both.
-/

namespace Dataflow

namespace Graph

variable {graph : Graph} {options : CompileOptions} {circuit : Circuit}

/-! ## Declared nodes -/

theorem endKey_ne_startKey : endKey ≠ startKey := by decide

/-- The keys of the declared nodes are different from each other and from those
of the start and the end. -/
theorem WellFormed.keys_apart (hgraph : graph.WellFormed) :
    startKey ∉ graph.nodes.map (·.1) ∧ endKey ∉ graph.nodes.map (·.1) ∧
      (graph.nodes.map (·.1)).Nodup := by
  have hnodup := hgraph.keys
  rw [Graph.keys, List.nodup_cons, List.nodup_cons] at hnodup
  obtain ⟨hstart, hend, hnodes⟩ := hnodup
  exact ⟨fun hmem => hstart (List.mem_cons_of_mem _ hmem), hend, hnodes⟩

theorem WellFormed.ne_startKey_of_mem (hgraph : graph.WellFormed) {key : String}
    (h : key ∈ graph.nodes.map (·.1)) : key ≠ startKey := by
  rintro rfl
  exact hgraph.keys_apart.1 h

theorem mem_nodes_of_node? {key : String} {node : Node} (h : graph.node? key = some node) :
    (key, node) ∈ graph.nodes := by
  obtain ⟨entry, hentry, rfl⟩ := Option.map_eq_some_iff.1 h
  have hkey : entry.1 = key := by simpa using List.find?_some hentry
  exact hkey ▸ List.mem_of_find?_eq_some hentry

theorem exists_node?_of_mem {key : String} (h : key ∈ graph.nodes.map (·.1)) :
    ∃ node, graph.node? key = some node := by
  obtain ⟨entry, hentry, rfl⟩ := List.mem_map.1 h
  cases hnode : graph.nodes.find? (·.1 = entry.1) with
  | none =>
    exact absurd (List.find?_eq_none.1 hnode entry hentry) (by simp)
  | some found => exact ⟨found.2, by rw [node?, hnode]; rfl⟩

/-- A declared node is found under its key. -/
theorem WellFormed.node?_of_mem (hgraph : graph.WellFormed) {key : String} {node : Node}
    (h : (key, node) ∈ graph.nodes) : graph.node? key = some node := by
  obtain ⟨_, _, hnodup⟩ := hgraph.keys_apart
  obtain ⟨found, hfound⟩ := exists_node?_of_mem (List.mem_map_of_mem h)
  have heq := List.inj_on_of_nodup_map hnodup (mem_nodes_of_node? hfound) h rfl
  rw [hfound, (Prod.mk.inj heq).2]

theorem WellFormed.node?_endKey (hgraph : graph.WellFormed) : graph.node? endKey = none := by
  cases hnode : graph.node? endKey with
  | none => rfl
  | some node =>
    have hmem := List.mem_map_of_mem (f := Prod.fst) (mem_nodes_of_node? hnode)
    exact absurd hmem hgraph.keys_apart.2.1

theorem inputType_of_node? {key : String} {node : Node} (hkey : key ≠ startKey)
    (h : graph.node? key = some node) : graph.inputType key = node.input := by
  rw [inputType, if_neg hkey, h]
  rfl

theorem outputType_of_node? {key : String} {node : Node} (hkey : key ≠ startKey)
    (h : graph.node? key = some node) : graph.outputType key = node.output := by
  rw [outputType, if_neg hkey, h]
  rfl

theorem WellFormed.inputType_of_mem (hgraph : graph.WellFormed) {key : String} {node : Node}
    (h : (key, node) ∈ graph.nodes) : graph.inputType key = node.input := by
  have hstart := hgraph.ne_startKey_of_mem (List.mem_map_of_mem h)
  exact inputType_of_node? hstart (hgraph.node?_of_mem h)

theorem WellFormed.inputType_endKey (hgraph : graph.WellFormed) :
    graph.inputType endKey = graph.output := by
  rw [inputType, if_neg endKey_ne_startKey, hgraph.node?_endKey]
  rfl

theorem WellFormed.outputType_endKey (hgraph : graph.WellFormed) :
    graph.outputType endKey = graph.output := by
  rw [outputType, if_neg endKey_ne_startKey, hgraph.node?_endKey]
  rfl

/-! ## Roles -/

theorem role_startKey : graph.role startKey = .start := if_pos rfl

theorem WellFormed.role_endKey (hgraph : graph.WellFormed) : graph.role endKey = .finish := by
  rw [role, if_neg endKey_ne_startKey, hgraph.node?_endKey]

theorem role_of_node? {key : String} {node : Node} (hkey : key ≠ startKey)
    (h : graph.node? key = some node) : graph.role key = .work node := by
  rw [role, if_neg hkey, h]

theorem node?_of_role {key : String} {node : Node} (h : graph.role key = .work node) :
    graph.node? key = some node := by
  unfold role at h
  split at h
  · exact nomatch h
  split at h
  next found hfound => rw [hfound, Role.work.inj h]
  · exact nomatch h

theorem eq_startKey_of_role {key : String} (h : graph.role key = .start) : key = startKey := by
  by_contra hkey
  rw [role, if_neg hkey] at h
  split at h <;> exact nomatch h

/-- Nothing but the start has the role of the start. -/
theorem ne_startKey_of_role {key : String} {role : Role} (h : graph.role key = role)
    (hrole : role ≠ .start) : key ≠ startKey := by
  intro heq
  rw [heq, role_startKey] at h
  exact hrole h.symm

/-- Only the end finishes. -/
theorem eq_endKey_of_role {key : String} (hkey : key ∈ graph.keys) (h : graph.role key = .finish) :
    key = endKey := by
  have hstart := ne_startKey_of_role h nofun
  rw [keys, List.mem_cons, List.mem_cons] at hkey
  rcases hkey with heq | heq | hkey
  · exact absurd heq hstart
  · exact heq
  · obtain ⟨node, hnode⟩ := exists_node?_of_mem hkey
    rw [role_of_node? hstart hnode] at h
    cases h

/-! ## Incoming wires -/

/-- The wires into a station stand in the order of the edges into it. -/
theorem forall₂_incoming {R : Edge → Wire → Prop}
    (hwires : List.Forall₂ R graph.edges circuit.wires)
    (htarget : ∀ edge wire, R edge wire → wire.target = edge.target) (key : String) :
    List.Forall₂ R (graph.incoming key) (circuit.incoming key) := by
  have hfilter : ∀ edge wire, R edge wire →
      (decide (edge.target = key) = true ↔ decide (wire.target = key) = true) := by
    intro edge wire hof
    rw [htarget edge wire hof]
  exact List.rel_filter (fun edge wire => hfilter edge wire) hwires

namespace Compiled

variable (h : graph.Compiled options circuit)
include h

/-! ## Stations -/

theorem station_eq {station : Station} (hstation : station ∈ circuit.stations) :
    station = graph.station options station.key := by
  rw [h.stations_eq] at hstation
  obtain ⟨key, _, rfl⟩ := List.mem_map.1 hstation
  rfl

theorem role_eq {station : Station} (hstation : station ∈ circuit.stations) :
    station.role = graph.role station.key :=
  congrArg Station.role (h.station_eq hstation)

theorem key_mem {station : Station} (hstation : station ∈ circuit.stations) :
    station.key ∈ graph.keys :=
  h.mem_order.1 (List.mem_map_of_mem hstation)

theorem station_mem {key : String} (hkey : key ∈ graph.keys) :
    graph.station options key ∈ circuit.stations := by
  rw [h.stations_eq]
  exact List.mem_map_of_mem (h.mem_order.2 hkey)

/-- The start, stations that work, and the end. -/
theorem stations_split : ∃ middle : List Station,
    circuit.stations =
        graph.station options startKey :: (middle ++ [graph.station options endKey]) ∧
      (middle.map (·.key)).Perm (graph.nodes.map (·.1)) := by
  obtain ⟨middle, horder, hperm⟩ := h.order_eq
  refine ⟨middle.map (graph.station options), ?_, ?_⟩
  · rw [h.stations_eq, horder]
    simp
  · simpa [station, Function.comp_def] using hperm

/-! ## Wires -/

theorem exists_edge {wire : Wire} (hwire : wire ∈ circuit.wires) :
    ∃ edge ∈ graph.edges, graph.WireOf edge wire :=
  exists_left_of_forall₂ h.wires hwire

theorem exists_wire {edge : Edge} (hedge : edge ∈ graph.edges) :
    ∃ wire ∈ circuit.wires, graph.WireOf edge wire :=
  exists_right_of_forall₂ h.wires hedge

theorem exists_edge_of_incoming {wire : Wire} {key : String}
    (hwire : wire ∈ circuit.incoming key) :
    ∃ edge ∈ graph.incoming key, graph.WireOf edge wire := by
  obtain ⟨hmem, htarget⟩ := List.mem_filter.1 hwire
  obtain ⟨edge, hedge, hof⟩ := h.exists_edge hmem
  refine ⟨edge, List.mem_filter.2 ⟨hedge, ?_⟩, hof⟩
  rwa [hof.target] at htarget

theorem incoming_ne {key : String} (hkey : key ∈ graph.keys) (hstart : key ≠ startKey) :
    circuit.incoming key ≠ [] := by
  obtain ⟨edge, hedge⟩ := List.exists_mem_of_ne_nil _ (h.checked key hkey hstart).incoming_ne
  obtain ⟨hmem, htarget⟩ := List.mem_filter.1 hedge
  obtain ⟨wire, hwire, hof⟩ := h.exists_wire hmem
  refine List.ne_nil_of_mem (a := wire) (List.mem_filter.2 ⟨hwire, ?_⟩)
  rwa [hof.target]

theorem source_mem {wire : Wire} (hwire : wire ∈ circuit.wires) : wire.source ∈ graph.keys := by
  obtain ⟨edge, hedge, hof⟩ := h.exists_edge hwire
  rw [hof.source]
  exact h.wellFormed.source_mem edge hedge

/-- A wire leads to a node that is not the start. -/
theorem target_mem {wire : Wire} (hwire : wire ∈ circuit.wires) :
    wire.target ∈ graph.keys ∧ wire.target ≠ startKey := by
  obtain ⟨edge, hedge, hof⟩ := h.exists_edge hwire
  rw [hof.target]
  exact ⟨h.wellFormed.target_mem edge hedge, h.wellFormed.target_ne edge hedge⟩

/-- No wire leads to the start. -/
theorem incoming_startKey : circuit.incoming startKey = [] :=
  List.filter_eq_nil_iff.2 fun _ hwire heq => (h.target_mem hwire).2 (of_decide_eq_true heq)

/-- A key stands at one place of the order. -/
theorem key_not_mem_before {before after : List Station} {station : Station}
    (hsplit : circuit.stations = before ++ station :: after) :
    station.key ∉ before.map (·.key) := by
  have hnodup := h.order_nodup
  rw [Circuit.order, hsplit, List.map_append, List.map_cons] at hnodup
  intro hmem
  exact (List.nodup_append.1 hnodup).2.2 _ hmem _ List.mem_cons_self rfl

/-- Nothing comes behind the end. -/
theorem role_ne_finish {before after : List Station} {station : Station}
    (hsplit : circuit.stations = before ++ station :: after) :
    ∀ other ∈ before, other.role ≠ .finish := by
  intro other hother hrole
  have hmem : other ∈ circuit.stations := by simp [hsplit, hother]
  have hend := eq_endKey_of_role (h.key_mem hmem) ((h.role_eq hmem).symm.trans hrole)
  obtain ⟨middle, hstations, _⟩ := h.stations_split
  have hlast : (station :: after).getLast? = some (graph.station options endKey) := by
    have := congrArg List.getLast? (hsplit.symm.trans hstations)
    rw [List.getLast?_append_of_ne_nil _ (List.cons_ne_nil _ _)] at this
    rw [this, ← List.cons_append, List.getLast?_concat]
  have hnodup := h.order_nodup
  rw [Circuit.order, hsplit, List.map_append] at hnodup
  exact (List.nodup_append.1 hnodup).2.2 _ (List.mem_map_of_mem hother) _
    (List.mem_map_of_mem (List.mem_of_getLast? hlast)) hend

/-- A station comes after all that it is fed from. -/
theorem source_mem_before {before after : List Station} {station : Station}
    (hsplit : circuit.stations = before ++ station :: after) {wire : Wire}
    (hwire : wire ∈ circuit.incoming station.key) : wire.source ∈ before.map (·.key) := by
  obtain ⟨edge, hedge, hof⟩ := h.exists_edge_of_incoming hwire
  obtain ⟨hmem, htarget⟩ := List.mem_filter.1 hedge
  rw [hof.source]
  refine h.placed _ station.key (after.map (·.key)) ?_ edge hmem (of_decide_eq_true htarget)
  rw [Circuit.order, hsplit, List.map_append, List.map_cons]

/-- The wires into a station fill it as a whole or in parts, never both. -/
theorem uniform {key : String} (hkey : key ∈ graph.keys) (hstart : key ≠ startKey) :
    (∀ wire ∈ circuit.incoming key, ∀ mapping ∈ wire.mappings, mapping.target = "") ∨
      ∀ wire ∈ circuit.incoming key, ∀ mapping ∈ wire.mappings, mapping.target ≠ "" := by
  have hfilled : ∀ wire ∈ circuit.incoming key, ∀ mapping ∈ wire.mappings,
      mapping.target ∈ graph.filledTargets key := by
    intro wire hwire mapping hmapping
    obtain ⟨edge, hedge, hof⟩ := h.exists_edge_of_incoming hwire
    rw [hof.mappings] at hmapping
    exact List.mem_flatMap.2 ⟨edge, hedge, List.mem_map_of_mem hmapping⟩
  rcases (h.checked key hkey hstart).uniform with hall | hall
  · exact .inl fun wire hwire mapping hmapping => hall _ (hfilled wire hwire mapping hmapping)
  · exact .inr fun wire hwire mapping hmapping => hall _ (hfilled wire hwire mapping hmapping)

/-- What is known about the mappings and the guards of a wire. -/
theorem planned {wire : Wire} (hwire : wire ∈ circuit.wires) :
    Mapping.Planned (graph.outputType wire.source) (graph.inputType wire.target) wire.mappings
      wire.guards := by
  obtain ⟨edge, _, hof⟩ := h.exists_edge hwire
  have hplanned := hof.accepted.planned wire.source wire.target
  rwa [hof.source, hof.target]

end Compiled

end Graph

/-- The keys of some stations and one more. -/
theorem mem_keys_concat {before : List Station} {station : Station} {key : String} :
    key ∈ (before ++ [station]).map (·.key) ↔
      key ∈ before.map (·.key) ∨ key = station.key := by
  simp

/-! ## Feeding -/

/-- What a wire connects. -/
def Wire.ends (wire : Wire) : String × String := (wire.source, wire.target)

namespace Circuit

variable {circuit : Circuit} {key : String}

theorem mem_incoming {wire : Wire} :
    wire ∈ circuit.incoming key ↔ wire ∈ circuit.wires ∧ wire.target = key := by
  rw [incoming, List.mem_filter, decide_eq_true_iff]

theorem mem_incoming_of_mem_feeding {wire : Wire} (h : wire ∈ circuit.feeding key) :
    wire ∈ circuit.incoming key := by
  unfold feeding at h
  dsimp only at h
  split at h
  · exact h
  · obtain ⟨k, _, hfind⟩ := List.exists_of_findSome?_eq_some (Option.mem_toList.1 h)
    exact List.mem_of_find?_eq_some hfind

theorem mem_wires_of_mem_feeding {wire : Wire} (h : wire ∈ circuit.feeding key) :
    wire ∈ circuit.wires :=
  (mem_incoming.1 (mem_incoming_of_mem_feeding h)).1

theorem target_of_feeding {wire : Wire} (h : wire ∈ circuit.feeding key) : wire.target = key :=
  (mem_incoming.1 (mem_incoming_of_mem_feeding h)).2

end Circuit

end Dataflow
