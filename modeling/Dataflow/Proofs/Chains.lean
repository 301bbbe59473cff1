import Dataflow.Node.Stock
import Dataflow.Proofs.SingleFed

/-!
# Chains

When every node but the start has one edge into it, a graph that compiles is a chain:
there is one route from the start to the end, and it goes through all nodes in
execution order.  A chunk that passes through a network then becomes what a run
makes of it, because both follow that route.

* `Graph.Compiled.order_eq_route`: the route to the end is the execution order.
* `Graph.Compiled.invoke_eq_follow`: a run follows the route to the end, and fails
  where the route fails.
* `Graph.chain_transform_eq_invoke`: streams and runs agree.
-/

namespace Dataflow.Graph

variable {graph : Graph} {options : CompileOptions} {circuit : Circuit}

/-- Every node but the start has one edge into it. -/
def IsChain (graph : Graph) : Prop :=
  ∀ key ∈ graph.keys, key ≠ startKey → (graph.incoming key).length = 1

/-- A route consists of wires. -/
theorem mem_wires_of_route {path : List Wire} {key : String} (hroute : circuit.Route path key) :
    ∀ wire ∈ path, wire ∈ circuit.wires := by
  induction hroute with
  | start => exact nofun
  | @step path wire _ hfeeds ih =>
    intro other hother
    rcases List.mem_append.1 hother with hmem | hmem
    · exact ih other hmem
    · rw [List.mem_singleton.1 hmem]
      exact Circuit.mem_wires_of_mem_feeding hfeeds

namespace Compiled

variable (h : graph.Compiled options circuit)
include h

/-! ## Routes -/

/-- A route goes through its stations in execution order. -/
theorem route_forward {path : List Wire} {key : String} (hroute : circuit.Route path key) :
    (startKey :: path.map (·.target)).Pairwise
        (fun a b => circuit.order.idxOf a < circuit.order.idxOf b) ∧
      ∀ k ∈ startKey :: path.map (·.target), circuit.order.idxOf k ≤ circuit.order.idxOf key := by
  induction hroute with
  | start => simp
  | @step path wire _ hfeeds ih =>
    obtain ⟨hpairwise, hlast⟩ := ih
    have hwire := Circuit.mem_wires_of_mem_feeding hfeeds
    have hstep : circuit.order.idxOf wire.source < circuit.order.idxOf wire.target :=
      h.schedule.forward wire hwire
    rw [List.map_append, List.map_singleton, ← List.cons_append]
    refine ⟨List.pairwise_append.2 ⟨hpairwise, List.pairwise_singleton _ _, ?_⟩, ?_⟩
    · intro k hk target htarget
      rw [List.mem_singleton.1 htarget]
      exact Nat.lt_of_le_of_lt (hlast k hk) hstep
    · intro k hk
      rcases List.mem_append.1 hk with hk | hk
      · exact Nat.le_of_lt (Nat.lt_of_le_of_lt (hlast k hk) hstep)
      · exact Nat.le_of_eq (by rw [List.mem_singleton.1 hk])

variable (htrigger : options.trigger = .allPredecessors)
include htrigger

/-- A route goes on along every path of edges. -/
theorem exists_route_append {source target : String}
    (hpath : Relation.ReflTransGen graph.Leads source target) {path : List Wire}
    (hroute : circuit.Route path source) :
    ∃ rest, circuit.Route (path ++ rest) target := by
  induction hpath with
  | refl => exact ⟨[], by rwa [List.append_nil]⟩
  | tail _ hleads ih =>
    obtain ⟨rest, hrest⟩ := ih
    obtain ⟨edge, hedge, hsource, rfl⟩ := hleads
    obtain ⟨wire, hwire, hof⟩ := h.exists_wire hedge
    have hfeeds : wire ∈ circuit.feeding wire.target := by
      rw [h.feeding_eq htrigger]
      exact Circuit.mem_incoming.2 ⟨hwire, rfl⟩
    have hstep : circuit.Route (path ++ rest) wire.source := by
      rwa [hof.source, hsource]
    refine ⟨rest ++ [wire], ?_⟩
    rw [← List.append_assoc, ← hof.target]
    exact .step hstep hfeeds

/-! ## The route of a chain -/

variable (hchain : graph.IsChain)
include hchain

/-- One wire feeds each station of a chain. -/
theorem singleFed_of_isChain : graph.SingleFed circuit := by
  intro key hkey hstart
  have hincoming := forall₂_incoming h.wires (fun _ _ hof => hof.target) key
  rw [h.feeding_eq htrigger]
  exact List.length_eq_one_iff.1 (hincoming.length_eq.symm.trans (hchain key hkey hstart))

/-- The route to the end of a chain goes on from the route to every station. -/
theorem exists_eq_append_of_route {last path : List Wire} {key : String}
    (hlast : circuit.Route last endKey) (hkey : key ∈ graph.keys)
    (hroute : circuit.Route path key) : ∃ rest, last = path ++ rest := by
  obtain ⟨rest, hrest⟩ := h.exists_route_append htrigger (h.on_path hkey).2 hroute
  exact ⟨rest, h.route_unique (h.singleFed_of_isChain htrigger hchain) hlast hrest⟩

/-- The stations of a chain run in the order of the route to the end. -/
theorem order_eq_route {path : List Wire} (hpath : circuit.Route path endKey) :
    circuit.order = startKey :: path.map (·.target) := by
  have hroute := (h.route_forward hpath).1
  have horder : circuit.order.Pairwise
      (fun a b => circuit.order.idxOf a < circuit.order.idxOf b) := by
    refine List.pairwise_iff_getElem.2 fun i j hi hj hij => ?_
    rwa [h.order_nodup.idxOf_getElem, h.order_nodup.idxOf_getElem]
  have hmem : ∀ key, key ∈ circuit.order ↔ key ∈ startKey :: path.map (·.target) := by
    intro key
    constructor
    · intro hkey
      have hkey := h.mem_order.1 hkey
      obtain ⟨first, hfirst⟩ := h.exists_route (h.singleFed_of_isChain htrigger hchain) hkey
      obtain ⟨rest, rfl⟩ := h.exists_eq_append_of_route htrigger hchain hpath hkey hfirst
      cases hfirst with
      | start => exact List.mem_cons_self
      | step _ _ => simp
    · intro hkey
      refine h.mem_order.2 ?_
      rcases List.mem_cons.1 hkey with rfl | hkey
      · exact List.mem_cons_self
      · obtain ⟨wire, hwire, rfl⟩ := List.mem_map.1 hkey
        exact (h.target_mem (mem_wires_of_route hpath wire hwire)).1
  have hperm : circuit.order.Perm (startKey :: path.map (·.target)) := by
    refine (List.perm_ext_iff_of_nodup h.order_nodup ?_).2 hmem
    exact hroute.imp fun hlt heq => absurd (heq ▸ hlt) (Nat.lt_irrefl _)
  exact hperm.eq_of_pairwise (fun a b _ _ hab hba => absurd (Nat.lt_trans hab hba)
    (Nat.lt_irrefl _)) horder hroute

/-- A run of a chain follows the route to the end. -/
theorem invoke_eq_follow {last : List Wire} (hlast : circuit.Route last endKey) (value : Value) :
    circuit.invoke value = graph.follow options circuit last value := by
  have hfed := h.singleFed_of_isChain htrigger hchain
  rcases h.invoke_follows hfed hlast value with
    ⟨_, hinvoke⟩ | ⟨key, path, e, hfailed, hkey, hroute, hfollow⟩
  · exact hinvoke
  · obtain ⟨rest, rfl⟩ := h.exists_eq_append_of_route htrigger hchain hlast hkey hroute
    rw [Circuit.invoke_of_failure? hfailed, follow_append_of_error hfollow]

end Compiled

/-- Streams and runs agree on chains.  When every node but the start has one edge
into it and all nodes work chunk by chunk, the stations run in the order of the one
route to the end, and a stream of chunks comes out as what a run makes of each of
them: the same value or the same error, an error that comes in as it is, up to the
first error and nothing behind it.  That holds in whatever moments it is polled. -/
theorem chain_transform_eq_invoke {input output : Ty} {declarations : List Declaration}
    (hgraph : declared input output declarations = graph)
    (h : graph.compile options = .ok circuit) (htrigger : options.trigger = .allPredecessors)
    (hchain : graph.IsChain)
    (hdefault : ∀ entry ∈ graph.nodes, entry.2.transducer = .perChunk entry.2.run) :
    (∃ path, circuit.Route path endKey ∧ circuit.order = startKey :: path.map (·.target)) ∧
    ∀ chunks, ∃ stream, circuit.transform chunks = .ok stream ∧
      stream.drain = cut (chunks.map fun chunk => chunk.bind circuit.invoke) ∧
      (stream.list none).ended = true ∧
      stream.Gives (· = cut (chunks.map fun chunk => chunk.bind circuit.invoke)) := by
  have hcompiled := compiled_of_compile (hgraph ▸ wellFormed_declared input output declarations) h
  have hfed := hcompiled.singleFed_of_isChain htrigger hchain
  have hend : endKey ∈ graph.keys := by simp [keys]
  obtain ⟨last, hlast⟩ := hcompiled.exists_route hfed hend
  have hinvoke : circuit.invoke = graph.follow options circuit last :=
    funext (hcompiled.invoke_eq_follow htrigger hchain hlast)
  refine ⟨⟨last, hlast, hcompiled.order_eq_route htrigger hchain hlast⟩, fun chunks => ?_⟩
  obtain ⟨stream, hstream, hgives⟩ :=
    hcompiled.exists_stream_along hfed hlast hdefault chunks
  rw [hinvoke]
  exact ⟨stream, hstream, hgives.drained.1, hgives.drained.2, hgives⟩

/-! ## A chain of two nodes -/

/-- Reads the count in a map, adds one to it and puts it in a list. -/
def counting : Graph :=
  declared (.map .string .any) (.list .int)
    [.node "next" (.add .int .int 1), .node "list" (.single .int (.list .int) .int),
      .mapped startKey "next" [⟨"", "count", ""⟩], .edge "next" "list", .edge "list" endKey]

theorem isChain_counting : counting.IsChain := by
  have hkeys : counting.keys = [startKey, endKey, "next", "list"] := by cbv
  have hlengths : (counting.incoming endKey).length = 1 ∧ (counting.incoming "next").length = 1 ∧
      (counting.incoming "list").length = 1 := by cbv
  intro key hkey hstart
  rw [hkeys] at hkey
  simp only [List.mem_cons, List.not_mem_nil, or_false] at hkey
  rcases hkey with rfl | rfl | rfl | rfl
  · exact absurd rfl hstart
  · exact hlengths.1
  · exact hlengths.2.1
  · exact hlengths.2.2

theorem perChunk_of_mem_counting :
    ∀ entry ∈ counting.nodes, entry.2.transducer = .perChunk entry.2.run := by
  intro entry hentry
  have hmem := mem_declarations_of_mem_nodes hentry
  simp only [List.mem_cons, Declaration.node.injEq, reduceCtorEq, List.not_mem_nil, or_false] at hmem
  rcases hmem with ⟨_, hnode⟩ | ⟨_, hnode⟩ <;> rw [hnode] <;> rfl

/-- An error that comes in goes out, and the count behind it is not looked at. -/
theorem counting_transform :
    ∃ circuit, counting.compile {} = .ok circuit ∧
      ∃ stream, circuit.transform [.ok (.map .string .any [(.string "count", .int 1)]),
          .error (.node "" "broken"), .ok .null] = .ok stream ∧
        stream.drain = [.ok (.list .int [.int 2]), .error (.node "" "broken")] := by
  have hrun : (counting.compile {}).map (fun c => c.invoke
      (.map .string .any [(.string "count", .int 1)])) = .ok (.ok (.list .int [.int 2])) := by cbv
  cases h : counting.compile {} with
  | error e =>
    rw [h] at hrun
    cases hrun
  | ok circuit =>
    rw [h] at hrun
    have hinvoke : circuit.invoke (.map .string .any [(.string "count", .int 1)]) =
        .ok (.list .int [.int 2]) := Except.ok.inj hrun
    obtain ⟨_, hstreams⟩ :=
      chain_transform_eq_invoke rfl h rfl isChain_counting perChunk_of_mem_counting
    obtain ⟨stream, hstream, hdrain, _⟩ := hstreams
      [.ok (.map .string .any [(.string "count", .int 1)]), .error (.node "" "broken"), .ok .null]
    refine ⟨circuit, rfl, stream, hstream, hdrain.trans ?_⟩
    simp only [List.map_cons, Except.bind, hinvoke, cut]

end Dataflow.Graph
