import Dataflow.Proofs.Routes

/-!
# Passing through a network

What comes out of a compiled graph whose nodes work chunk by chunk, when it is known
what the streams of each station may be: those of the start are the guarded input, and
every station merges the streams of its wires in some order and gives what it makes of
them to the wires that leave it.

* `Graph.Passing`: the invariant of a network under construction.
* `Graph.Compiled.exists_stream_of_carried`: what every station keeps holds of the
  stream that comes out.
-/

namespace Dataflow.Graph

variable {graph : Graph} {options : CompileOptions} {circuit : Circuit}
  {total : Nat} {carried : String → List (Chunk Value) → Prop}

/-- What holds of a network after some stations: there are streams for all wires that
leave these stations, and each is one that its source may send out. -/
structure Passing (circuit : Circuit) (total : Nat)
    (carried : String → List (Chunk Value) → Prop) (before : List Station) (network : Network) :
    Prop where
  supplied : Network.Supplied circuit before network
  sources : ∀ p ∈ network.pending, p.1.source = startKey ∨ p.1.source ∈ before.map (·.key)
  carries : network.Carries total carried

/-- A station may send out what it makes of any interleaving of what its wires carry, and
nothing comes behind an error. -/
structure Passes (graph : Graph) (options : CompileOptions) (circuit : Circuit)
    (carried : String → List (Chunk Value) → Prop) : Prop where
  step : ∀ key ∈ graph.keys, key ≠ startKey → ∀ full,
    MadeBy (graph.role key).act (MadeBy (graph.station options key).assembler.assembleOne
      (Merged carried (circuit.feeding key))) full → carried key full
  cut_eq : ∀ key full, carried key full → cut full = full

namespace Compiled

variable (h : graph.Compiled options circuit)
include h

theorem passing_ofInput (hpasses : graph.Passes options circuit carried)
    {chunks : List (Chunk Value)}
    (hstart : carried startKey (upTo circuit.inputGuard.check chunks)) :
    Passing circuit chunks.length carried [] (.ofInput circuit chunks) where
  supplied := Network.supplied_ofInput circuit _
  sources _ hp := .inl (Network.source_of_mem_distribute hp)
  carries := Network.carries_ofInput h.ends_nodup (hpasses.cut_eq startKey) hstart

/-- The start adds nothing to its streams. -/
theorem passing_start {before after : List Station} {station : Station} {network : Network}
    (hsplit : circuit.stations = before ++ station :: after) (hrole : station.role = .start)
    (hnetwork : Passing circuit total carried before network) :
    Passing circuit total carried (before ++ [station]) network where
  supplied := h.supplied_start hsplit hrole hnetwork.supplied
  sources p hp := (hnetwork.sources p hp).imp_right fun hmem => mem_keys_concat.2 (.inl hmem)
  carries := hnetwork.carries

variable (hpasses : graph.Passes options circuit carried)
include hpasses

/-- A station that works chunk by chunk keeps the invariant. -/
theorem passing_attach
    (hdefault : ∀ entry ∈ graph.nodes, entry.2.transducer = .perChunk entry.2.run)
    {before after : List Station} {station : Station} {node : Node} {network : Network}
    (hsplit : circuit.stations = before ++ station :: after) (hrole : station.role = .work node)
    (hnetwork : Passing circuit total carried before network) :
    ∃ lanes, network.lanes (circuit.feeding station.key) = .ok lanes ∧
      Passing circuit total carried (before ++ [station])
        (network.attach circuit station node lanes) := by
  obtain ⟨hsupplied, hsources, hcarries⟩ := hnetwork
  have hstation : station ∈ circuit.stations := by simp [hsplit]
  have hgraph : graph.role station.key = .work node := (h.role_eq hstation).symm.trans hrole
  have hstart := ne_startKey_of_role hgraph nofun
  have hapart : ∀ p ∈ network.pending, p.1.source ≠ station.key := by
    intro p hp heq
    rcases hsources p hp with hsource | hmem
    · exact hstart (heq.symm.trans hsource)
    · exact h.key_not_mem_before hsplit (heq ▸ hmem)
  obtain ⟨feeds, hfeeds, hlanes⟩ := Network.lanes_eq_ok (h.waits_of_supplied hsplit hsupplied)
  have hstep := hpasses.step station.key (h.key_mem hstation) hstart
  rw [hgraph, ← h.station_eq hstation] at hstep
  refine ⟨_, hlanes, hsupplied.attach _, fun p hp => ?_,
    Network.carries_attach hcarries h.ends_nodup
      (hdefault _ (mem_nodes_of_node? (node?_of_role hgraph))) hapart (h.feeding_nodup _)
      (fun _ => Circuit.target_of_feeding) hfeeds (hpasses.cut_eq _) hstep⟩
  rcases List.mem_append.1 hp with hp | hp
  · obtain ⟨q, hq, rfl⟩ := List.mem_map.1 hp
    exact (hsources q (List.mem_of_mem_filter hq)).imp_right fun hmem =>
      mem_keys_concat.2 (.inl hmem)
  · exact .inr (mem_keys_concat.2 (.inr (Network.source_of_mem_distribute hp)))

/-- The stream that comes out is one that the end may send out. -/
theorem passing_result {before after : List Station} {station : Station} {network : Network}
    (hsplit : circuit.stations = before ++ station :: after) (hrole : station.role = .finish)
    (hnetwork : Passing circuit total carried before network) :
    ∃ lanes, network.lanes (circuit.feeding station.key) = .ok lanes ∧
      (network.result station lanes).Gives (carried endKey) ∧
        (network.result station lanes).Paces total ∧
          (network.result station lanes).pulled = 0 := by
  obtain ⟨hsupplied, _, hcarries⟩ := hnetwork
  have hstation : station ∈ circuit.stations := by simp [hsplit]
  have hgraph : graph.role station.key = .finish := (h.role_eq hstation).symm.trans hrole
  have hend : station.key = endKey := eq_endKey_of_role (h.key_mem hstation) hgraph
  have hstart : station.key ≠ startKey := hend ▸ endKey_ne_startKey
  obtain ⟨feeds, hfeeds, hlanes⟩ := Network.lanes_eq_ok (h.waits_of_supplied hsplit hsupplied)
  have hstep := hpasses.step station.key (h.key_mem hstation) hstart
  rw [hgraph, ← h.station_eq hstation, hend] at hstep
  obtain ⟨hgives, hpaces, hzero⟩ := Network.gives_result hcarries (h.feeding_nodup _)
    (fun _ => Circuit.target_of_feeding) hfeeds
  refine ⟨_, hlanes, hgives.imp fun full hfull => hstep full ⟨full, hend ▸ hfull, ?_⟩,
    hpaces, hzero⟩
  -- the end hands on what it is given
  obtain ⟨merged, _, rfl⟩ := hfull
  exact ((upTo_ok _).trans (cut_upTo _ _)).symm

/-- A compiled graph turns a stream into one that the end may send out. -/
theorem exists_stream_of_carried
    (hdefault : ∀ entry ∈ graph.nodes, entry.2.transducer = .perChunk entry.2.run)
    {chunks : List (Chunk Value)}
    (hstart : carried startKey (upTo circuit.inputGuard.check chunks)) :
    ∃ stream, circuit.transform chunks = .ok stream ∧ stream.Gives (carried endKey) ∧
      stream.Paces chunks.length ∧ stream.pulled = 0 := by
  obtain ⟨middle, hstations, _⟩ := h.stations_split
  have hsplit : circuit.stations =
      (graph.station options startKey :: middle) ++ [graph.station options endKey] := hstations
  refine Network.complete_of_invariant (Passing circuit chunks.length carried) ?_ ?_ _ hsplit
    (h.role_ne_finish hsplit) h.wellFormed.role_endKey ?_ (h.passing_ofInput hpasses hstart)
  · intro before station after network hsplit hrole hnetwork
    exact h.passing_start hsplit hrole hnetwork
  · intro before station after network node hsplit hrole hnetwork
    exact h.passing_attach hpasses hdefault hsplit hrole hnetwork
  · intro network hnetwork
    exact h.passing_result hpasses hsplit h.wellFormed.role_endKey hnetwork

/-- The inputs of a station are what it makes of what its wires carry. -/
theorem exists_inputs_of_carried
    (hdefault : ∀ entry ∈ graph.nodes, entry.2.transducer = .perChunk entry.2.run)
    {chunks : List (Chunk Value)}
    (hstart : carried startKey (upTo circuit.inputGuard.check chunks))
    {before after : List Station} {station : Station} {node : Node}
    (hsplit : circuit.stations = before ++ station :: after) (hrole : station.role = .work node) :
    ∃ network lanes, Network.built circuit before (.ofInput circuit chunks) = .ok network ∧
      network.lanes (circuit.feeding station.key) = .ok lanes ∧
      circuit.transform chunks =
        Network.complete circuit after (network.attach circuit station node lanes) ∧
      (network.result station lanes).Gives
        (MadeBy station.assembler.assembleOne (Merged carried (circuit.feeding station.key))) := by
  have hnil : circuit.stations = [] ++ before ++ station :: after := hsplit
  obtain ⟨network, hbuilt, hsupplied, _, hcarries⟩ := Network.exists_built
    (Passing circuit chunks.length carried) (fun before station after network hsplit hrole =>
      h.passing_start hsplit hrole) (fun before station after network node hsplit hrole =>
        h.passing_attach hpasses hdefault hsplit hrole) hnil
    (h.role_ne_finish hsplit) (h.passing_ofInput hpasses hstart)
  obtain ⟨feeds, hfeeds, hlanes⟩ := Network.lanes_eq_ok (h.waits_of_supplied hsplit hsupplied)
  refine ⟨network, _, hbuilt, hlanes, ?_, (Network.gives_result hcarries (h.feeding_nodup _)
    (fun _ => Circuit.target_of_feeding) hfeeds).1⟩
  rw [Circuit.transform, hsplit, Network.complete_append hbuilt, Network.complete]
  simp only [hrole, hlanes]

end Compiled

end Dataflow.Graph
