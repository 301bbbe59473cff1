import Dataflow.Proofs.Routes
import Dataflow.Proofs.Shape

/-!
# Schedules

The stations of a circuit can run in any order in which each comes after those that
feed it.  A run over such an order finds outputs that go together: the output of
each station is what it makes of the outputs of the stations that feed it.  This
says nothing about the order, and outputs that go together are found by a run over
every order.  So the order does not matter, and neither does the order in which the
nodes and edges of a graph were declared, as long as the edges that fill the same
part of an input keep theirs.

* `Circuit.Settled`: outputs that go together.
* `Circuit.Sequential.invoke_eq_ok_iff`: what a run finds.
* `Graph.invoke_schedule_irrelevant`: runs of compiled graphs over any order.
-/

namespace Dataflow

namespace Circuit

variable {circuit : Circuit}

/-! ## Outputs that go together -/

/-- What a station makes of the outputs of the stations that feed it. -/
def makes (circuit : Circuit) (outputs : Table Value) (station : Station) : Except Error Value :=
  (circuit.stationInput outputs station).bind station.role.act

/-- The start has made the input, and each of some other stations has made what
follows from the outputs of the stations that feed it. -/
structure Settled (circuit : Circuit) (stations : List Station) (input : Value)
    (outputs : Table Value) : Prop where
  start : outputs.find? startKey = some input
  made : ∀ station ∈ stations, station.key ≠ startKey → ∃ output,
    circuit.makes outputs station = .ok output ∧ outputs.find? station.key = some output

/-- A circuit whose stations have keys of their own and come after the stations that
feed them. -/
structure Sequential (circuit : Circuit) : Prop where
  nodup : circuit.order.Nodup
  start : ∀ station ∈ circuit.stations, station.role = .start ↔ station.key = startKey
  finish : endKey ∈ circuit.order
  placed : ∀ before station after, circuit.stations = before ++ station :: after →
    ∀ wire ∈ circuit.feeding station.key, wire.source ∈ before.map (·.key)

theorem runStation_of_ne_start {station : Station} (h : station.role ≠ .start)
    (outputs : Table Value) :
    circuit.runStation outputs station =
      (circuit.makes outputs station).map (outputs.insert station.key) := by
  unfold runStation makes
  cases hrole : station.role with
  | start => exact absurd hrole h
  | finish => cases circuit.stationInput outputs station <;> rfl
  | work node =>
    cases circuit.stationInput outputs station with
    | error e => rfl
    | ok input =>
      show (node.run input >>= fun output => _) = (node.run input).map _
      cases node.run input <;> rfl

/-- A station reads the outputs of the stations that feed it and no others. -/
theorem makes_congr {station : Station} {outputs outputs' : Table Value}
    (h : ∀ wire ∈ circuit.feeding station.key,
      outputs.find? wire.source = outputs'.find? wire.source) :
    circuit.makes outputs station = circuit.makes outputs' station := by
  have hcontribution : ∀ wires : List Wire,
      (∀ wire ∈ wires, outputs.find? wire.source = outputs'.find? wire.source) →
        wires.mapM (contribution outputs) = wires.mapM (contribution outputs') := by
    intro wires hwires
    induction wires with
    | nil => rfl
    | cons wire wires ih =>
      obtain ⟨hwire, hwires⟩ := List.forall_mem_cons.1 hwires
      have heq : contribution outputs wire = contribution outputs' wire := by
        rw [contribution, contribution, hwire]
      rw [List.mapM_cons, List.mapM_cons, heq, ih hwires]
  rw [makes, makes, stationInput, stationInput, hcontribution _ h]

/-- A run finds what the end has made. -/
theorem invoke_of_run {value input output : Value} {outputs : Table Value}
    (hguard : circuit.inputGuard.check value = .ok input)
    (hrun : circuit.runStations input = .ok outputs) (hfind : outputs.find? endKey = some output) :
    circuit.invoke value = .ok output := by
  simp only [invoke, hguard, hrun, hfind, bind, Except.bind]
  rfl

namespace Sequential

variable (h : circuit.Sequential)
include h

/-- The keys of the stations in front of a station are different from its own. -/
theorem key_ne_of_mem_before {before after : List Station} {station : Station}
    (hsplit : circuit.stations = before ++ station :: after) {key : String}
    (hkey : key ∈ before.map (·.key)) : key ≠ station.key := by
  have hnodup := h.nodup
  rw [order, hsplit, List.map_append, List.map_cons] at hnodup
  exact (List.nodup_append.1 hnodup).2.2 key hkey _ List.mem_cons_self

/-- One more station makes its output and leaves the others as they are. -/
theorem settled_insert {before after : List Station} {station : Station}
    (hsplit : circuit.stations = before ++ station :: after) (hstart : station.key ≠ startKey)
    {input output : Value} {outputs : Table Value}
    (houtputs : circuit.Settled before input outputs)
    (hmakes : circuit.makes outputs station = .ok output) :
    circuit.Settled (before ++ [station]) input (outputs.insert station.key output) := by
  have hkept : ∀ key ∈ before.map (·.key),
      (outputs.insert station.key output).find? key = outputs.find? key := fun key hkey =>
    Table.find?_insert_of_ne _ (h.key_ne_of_mem_before hsplit hkey) _
  have hsame : ∀ first other second, before ++ [station] = first ++ other :: second →
      circuit.makes (outputs.insert station.key output) other = circuit.makes outputs other := by
    intro first other second hother
    have hsplit' : circuit.stations = first ++ other :: (second ++ after) := by
      rw [hsplit, ← List.singleton_append, ← List.append_assoc, hother]
      simp
    have hfirst : first.map (·.key) ⊆ before.map (·.key) := by
      have hfirst : first <+: before ++ [station] := ⟨_, hother.symm⟩
      have hbefore : before <+: before ++ [station] := List.prefix_append _ _
      have hlength := congrArg List.length hother
      simp only [List.length_append, List.length_cons, List.length_nil] at hlength
      have hshorter : first.length ≤ before.length := by omega
      exact List.map_subset _ (List.prefix_of_prefix_length_le hfirst hbefore hshorter).subset
    exact makes_congr fun wire hwire => hkept _ (hfirst (h.placed _ _ _ hsplit' wire hwire))
  refine ⟨?_, fun other hother hne => ?_⟩
  · rw [Table.find?_insert_of_ne _ hstart.symm]
    exact houtputs.start
  · obtain ⟨first, second, hfirst⟩ := List.append_of_mem hother
    rw [hsame first other second hfirst]
    rcases List.mem_append.1 hother with hmem | hmem
    · rw [hkept other.key (List.mem_map_of_mem hmem)]
      exact houtputs.made other hmem hne
    · obtain rfl := List.mem_singleton.1 hmem
      exact ⟨output, hmakes, Table.find?_insert_self _ _ _⟩

/-- A run that succeeds leaves outputs that go together. -/
theorem settled_of_run {before rest : List Station} (hsplit : circuit.stations = before ++ rest)
    {input : Value} {outputs final : Table Value} (houtputs : circuit.Settled before input outputs)
    (hrun : rest.foldlM circuit.runStation outputs = .ok final) :
    circuit.Settled circuit.stations input final := by
  induction rest generalizing before outputs with
  | nil =>
    obtain rfl := Except.ok.inj hrun
    rw [hsplit, List.append_nil]
    exact houtputs
  | cons station rest ih =>
    have hsplit' : circuit.stations = before ++ [station] ++ rest := by simpa using hsplit
    have hmem : station ∈ circuit.stations := by simp [hsplit]
    rw [List.foldlM_cons] at hrun
    obtain ⟨outputs', hstep, hrun⟩ := bind_eq_ok hrun
    refine ih hsplit' ?_ hrun
    by_cases hstart : station.key = startKey
    · rw [runStation, (h.start station hmem).2 hstart] at hstep
      obtain rfl := Except.ok.inj hstep
      refine ⟨houtputs.start, fun other hother hne => houtputs.made other ?_ hne⟩
      refine (List.mem_append.1 hother).resolve_right fun hlast => hne ?_
      rw [List.mem_singleton.1 hlast, hstart]
    · rw [runStation_of_ne_start (mt (h.start station hmem).1 hstart)] at hstep
      obtain ⟨output, hmakes, rfl⟩ := map_eq_ok hstep
      exact h.settled_insert hsplit hstart houtputs hmakes

/-- A run finds the outputs that go together. -/
theorem run_of_settled {input : Value} {settled : Table Value}
    (hsettled : circuit.Settled circuit.stations input settled) {before rest : List Station}
    (hsplit : circuit.stations = before ++ rest) {outputs : Table Value}
    (hstart : outputs.find? startKey = some input)
    (hagree : ∀ key ∈ before.map (·.key), outputs.find? key = settled.find? key) :
    ∃ final, rest.foldlM circuit.runStation outputs = .ok final ∧
      ∀ key ∈ circuit.order, final.find? key = settled.find? key := by
  induction rest generalizing before outputs with
  | nil =>
    refine ⟨outputs, rfl, fun key hkey => hagree key ?_⟩
    rwa [order, hsplit, List.append_nil] at hkey
  | cons station rest ih =>
    have hsplit' : circuit.stations = before ++ [station] ++ rest := by simpa using hsplit
    have hmem : station ∈ circuit.stations := by simp [hsplit]
    rw [List.foldlM_cons]
    by_cases hkey : station.key = startKey
    · rw [runStation, (h.start station hmem).2 hkey]
      refine ih hsplit' hstart fun key hmem' => ?_
      rcases mem_keys_concat.1 hmem' with hbefore | rfl
      · exact hagree key hbefore
      · rw [hkey, hstart, hsettled.start]
    · obtain ⟨output, hmakes, hfind⟩ := hsettled.made station hmem hkey
      have hmakes' : circuit.makes outputs station = .ok output := by
        rw [← hmakes]
        exact makes_congr fun wire hwire => hagree _ (h.placed _ _ _ hsplit wire hwire)
      rw [runStation_of_ne_start (mt (h.start station hmem).1 hkey), hmakes']
      refine ih hsplit' ?_ fun key hmem' => ?_
      · rwa [Table.find?_insert_of_ne _ (Ne.symm hkey)]
      · rcases mem_keys_concat.1 hmem' with hbefore | rfl
        · rw [Table.find?_insert_of_ne _ (h.key_ne_of_mem_before hsplit hbefore)]
          exact hagree key hbefore
        · rw [Table.find?_insert_self, hfind]

/-- What a run finds does not depend on the order of the stations. -/
theorem invoke_eq_ok_iff {value result : Value} :
    circuit.invoke value = .ok result ↔ ∃ input outputs,
      circuit.inputGuard.check value = .ok input ∧
        circuit.Settled circuit.stations input outputs ∧ outputs.find? endKey = some result := by
  constructor
  · intro hinvoke
    obtain ⟨input, hguard, hinvoke⟩ := bind_eq_ok hinvoke
    obtain ⟨outputs, hrun, hinvoke⟩ := bind_eq_ok hinvoke
    have hbegin : circuit.Settled [] input (Table.empty.insert startKey input) :=
      ⟨Table.find?_insert_self _ _ _, nofun⟩
    refine ⟨input, outputs, hguard, h.settled_of_run rfl hbegin hrun, ?_⟩
    cases hfind : outputs.find? endKey with
    | none =>
      rw [hfind] at hinvoke
      cases hinvoke
    | some output =>
      rw [hfind] at hinvoke
      rw [Except.ok.inj hinvoke]
  · rintro ⟨input, settled, hguard, hsettled, hresult⟩
    have hsplit : circuit.stations = [] ++ circuit.stations := rfl
    obtain ⟨final, hrun, hfinal⟩ := h.run_of_settled hsettled hsplit
      (Table.find?_insert_self _ _ _) nofun
    exact invoke_of_run hguard hrun ((hfinal endKey h.finish).trans hresult)

end Sequential

/-- Circuits with the same stations that make the same outputs find the same
result. -/
theorem invoke_eq_ok_of_makes {other : Circuit} (h : circuit.Sequential) (h' : other.Sequential)
    (hinput : circuit.inputGuard = other.inputGuard)
    (hstations : circuit.stations.Perm other.stations)
    (hmakes : ∀ station ∈ circuit.stations, station.key ≠ startKey → ∀ outputs output,
      circuit.makes outputs station = .ok output → other.makes outputs station = .ok output)
    {value result : Value} (hinvoke : circuit.invoke value = .ok result) :
    other.invoke value = .ok result := by
  obtain ⟨input, outputs, hguard, hsettled, hresult⟩ := h.invoke_eq_ok_iff.1 hinvoke
  refine h'.invoke_eq_ok_iff.2 ⟨input, outputs, hinput ▸ hguard, ⟨hsettled.start, ?_⟩, hresult⟩
  intro station hstation hstart
  have hmem := hstations.mem_iff.2 hstation
  obtain ⟨output, hmade, hfind⟩ := hsettled.made station hmem hstart
  exact ⟨output, hmakes station hmem hstart outputs output hmade, hfind⟩

/-- An order of the stations in which every wire leads forward. -/
structure Schedule (circuit : Circuit) (stations : List Station) : Prop where
  perm : stations.Perm circuit.stations
  forward : ∀ wire ∈ circuit.wires,
    (stations.map (·.key)).idxOf wire.source < (stations.map (·.key)).idxOf wire.target

/-- In a schedule a station comes after those it has a wire from. -/
theorem Schedule.source_mem_before {stations before after : List Station} {station : Station}
    (h : circuit.Schedule stations) (hsplit : stations = before ++ station :: after) {wire : Wire}
    (hwire : wire ∈ circuit.incoming station.key) : wire.source ∈ before.map (·.key) := by
  obtain ⟨hmem, htarget⟩ := mem_incoming.1 hwire
  have hforward := h.forward wire hmem
  rw [hsplit, List.map_append, List.map_cons, htarget] at hforward
  by_contra hsource
  rw [List.idxOf_append_of_notMem hsource] at hforward
  have hstation : (before.map (·.key) ++ station.key :: after.map (·.key)).idxOf station.key ≤
      (before.map (·.key)).length := by
    by_cases hbefore : station.key ∈ before.map (·.key)
    · rw [List.idxOf_append_of_mem hbefore]
      exact Nat.le_of_lt (List.idxOf_lt_length_of_mem hbefore)
    · rw [List.idxOf_append_of_notMem hbefore, List.idxOf_cons_self]
      exact Nat.le_refl _
  omega

theorem feeding_of_allPredecessors (h : circuit.options.trigger = .allPredecessors)
    (key : String) : circuit.feeding key = circuit.incoming key := by
  rw [feeding, h]

/-! ## Contributions -/

/-- A contribution is what the wire makes of the output of its source. -/
theorem contribution_eq_ok {outputs : Table Value} {wire : Wire} {fields : Fields}
    (h : contribution outputs wire = .ok fields) :
    ∃ output, outputs.find? wire.source = some output ∧ wire.apply output = .ok fields := by
  unfold contribution at h
  split at h
  · exact nomatch h
  next output hfind => exact ⟨output, hfind, h⟩

/-- What arrives through a wire for a part of an input. -/
def arrival (outputs : Table Value) (target : String) (wire : Wire) : Option Value :=
  (contribution outputs wire).toOption.bind (·.find? target)

/-- Nothing arrives for a part that the wire does not fill. -/
theorem arrival_of_not_fills {outputs : Table Value} {target : String} {wire : Wire}
    (h : target ∉ wire.mappings.map (·.target)) : arrival outputs target wire = none := by
  unfold arrival contribution
  cases outputs.find? wire.source with
  | none => rfl
  | some output =>
    dsimp only
    cases happly : wire.apply output with
    | error e => rfl
    | ok fields =>
      show fields.find? target = none
      cases hvalue : fields.find? target with
      | none => rfl
      | some value =>
        have hfills := Mapping.exists_target_of_extract (Wire.extract_of_apply happly) hvalue
        exact absurd (List.mem_map.2 hfills) h

/-- What is gathered for a part of an input is what arrives through the wires that
fill it. -/
theorem find?_gather_contributions {outputs : Table Value} {wires : List Wire}
    {contributions : List Fields} (h : wires.mapM (contribution outputs) = .ok contributions)
    (target : String) :
    contributions.filterMap (·.find? target) =
      (wires.filter fun wire => (wire.mappings.map (·.target)).contains target).filterMap
        (arrival outputs target) := by
  have hall : contributions.filterMap (·.find? target) =
      wires.filterMap (arrival outputs target) := by
    have hcontributions := forall₂_of_mapM_eq_ok h
    clear h
    induction hcontributions with
    | nil => rfl
    | @cons wire fields wires contributions hwire _ ih =>
      have harrival : arrival outputs target wire = fields.find? target := by
        rw [arrival, hwire]
        rfl
      rw [List.filterMap_cons, List.filterMap_cons, harrival, ih]
  rw [hall, List.filterMap_filter]
  refine List.filterMap_congr fun wire _ => ?_
  split
  next => rfl
  next hfills => exact arrival_of_not_fills (by simpa using hfills)

/-- A station makes the same in another circuit when the same is gathered there. -/
theorem makes_eq_ok_of_gather {other : Circuit} {station : Station} {outputs : Table Value}
    {output : Value}
    (hgather : ∀ contributions,
      (circuit.feeding station.key).mapM (contribution outputs) = .ok contributions →
        ∃ others, (other.feeding station.key).mapM (contribution outputs) = .ok others ∧
          gather others = gather contributions)
    (hmakes : circuit.makes outputs station = .ok output) :
    other.makes outputs station = .ok output := by
  obtain ⟨input, hinput, hact⟩ := bind_eq_ok (x := circuit.stationInput outputs station) hmakes
  obtain ⟨contributions, hcontributions, hassemble⟩ := bind_eq_ok hinput
  obtain ⟨others, hothers, heq⟩ := hgather contributions hcontributions
  rw [makes, stationInput, hothers]
  show (station.assembler.assemble (gather others)).bind _ = _
  rw [heq, hassemble]
  exact hact

/-- A station makes the same in another circuit when the same wires fill each part
of its input, in the same order. -/
theorem makes_eq_ok_of_filling {other : Circuit} {station : Station} {outputs : Table Value}
    {output : Value}
    (hmem : ∀ wire ∈ other.feeding station.key, wire ∈ circuit.feeding station.key)
    (hfilling : ∀ target,
      (other.feeding station.key).filter (fun w => (w.mappings.map (·.target)).contains target) =
        (circuit.feeding station.key).filter fun w => (w.mappings.map (·.target)).contains target)
    (hmakes : circuit.makes outputs station = .ok output) :
    other.makes outputs station = .ok output := by
  refine makes_eq_ok_of_gather (fun contributions hcontributions => ?_) hmakes
  obtain ⟨others, hothers⟩ : ∃ others,
      (other.feeding station.key).mapM (contribution outputs) = .ok others := by
    refine exists_mapM_eq_ok fun wire hwire => ?_
    obtain ⟨fields, _, hfields⟩ :=
      exists_right_of_forall₂ (forall₂_of_mapM_eq_ok hcontributions) (hmem wire hwire)
    exact ⟨fields, hfields⟩
  refine ⟨others, hothers, Table.eq_of_find?_eq fun target => ?_⟩
  rw [find?_gather, find?_gather, find?_gather_contributions hothers,
    find?_gather_contributions hcontributions, hfilling]

end Circuit

/-! ## Compiled graphs -/

namespace Graph

variable {graph other : Graph} {options : CompileOptions} {circuit circuit' : Circuit}

namespace Compiled

variable (h : graph.Compiled options circuit)
include h

theorem schedule : circuit.Schedule circuit.stations where
  perm := .rfl
  forward wire hwire := by
    obtain ⟨edge, hedge, hof⟩ := h.exists_edge hwire
    obtain ⟨before, after, hsplit⟩ :=
      List.append_of_mem (h.mem_order.2 (h.wellFormed.target_mem edge hedge))
    rw [hof.source, hof.target]
    exact idxOf_lt_of_split h.order_nodup hsplit (h.placed before _ after hsplit edge hedge rfl)

/-- A circuit runs its stations in sequence over every schedule. -/
theorem sequential {stations : List Station} (hstations : circuit.Schedule stations) :
    Circuit.Sequential { circuit with stations } := by
  have hperm : (stations.map (·.key)).Perm circuit.order := hstations.perm.map _
  refine ⟨hperm.nodup_iff.2 h.order_nodup, fun station hstation => ?_, ?_, ?_⟩
  · rw [h.role_eq (hstations.perm.mem_iff.1 hstation)]
    exact ⟨eq_startKey_of_role, fun hkey => hkey ▸ role_startKey⟩
  · exact hperm.mem_iff.2 (h.mem_order.2 (by simp [keys]))
  · intro before station after hsplit wire hwire
    have hincoming : wire ∈ Circuit.incoming { circuit with stations } station.key :=
      Circuit.mem_incoming_of_mem_feeding hwire
    exact hstations.source_mem_before hsplit hincoming

theorem feeding_eq (htrigger : options.trigger = .allPredecessors) (key : String) :
    circuit.feeding key = circuit.incoming key :=
  Circuit.feeding_of_allPredecessors (by rw [h.options_eq, htrigger]) key

/-- A run finds over one schedule what it finds over another. -/
theorem invoke_eq_ok_of_schedule (htrigger : options.trigger = .allPredecessors)
    {first second : List Station} (hfirst : circuit.Schedule first)
    (hsecond : circuit.Schedule second) {value result : Value}
    (hinvoke : Circuit.invoke { circuit with stations := first } value = .ok result) :
    Circuit.invoke { circuit with stations := second } value = .ok result := by
  have hfeeding : ∀ (stations : List Station) (key : String),
      Circuit.feeding { circuit with stations } key = circuit.incoming key := fun _ key =>
    Circuit.feeding_of_allPredecessors (by rw [h.options_eq, htrigger]) key
  refine Circuit.invoke_eq_ok_of_makes (h.sequential hfirst) (h.sequential hsecond) rfl
    (hfirst.perm.trans hsecond.perm.symm) ?_ hinvoke
  intro station _ _ outputs output hmakes
  refine Circuit.makes_eq_ok_of_filling (fun wire hwire => ?_) (fun target => ?_) hmakes
  · rwa [hfeeding] at hwire ⊢
  · rw [hfeeding, hfeeding]

end Compiled

/-- The stations of two circuits are the same when their graphs have the same keys and
make the same stations of them. -/
theorem Compiled.perm_stations (h : graph.Compiled options circuit)
    (h' : other.Compiled options circuit') (hkeys : other.keys.Perm graph.keys)
    (hstation : ∀ key, other.station options key = graph.station options key) :
    circuit.stations.Perm circuit'.stations := by
  have horder : circuit.order.Perm circuit'.order :=
    h.order_perm.trans (hkeys.symm.trans h'.order_perm.symm)
  rw [h.stations_eq, h'.stations_eq, funext hstation]
  exact horder.map _

/-! ## Graphs declared in another order -/

/-- A graph with the same nodes and edges, declared in another order.  The edges
that fill the same part of a node's input were declared in the same order. -/
structure Redeclared (graph other : Graph) : Prop where
  input_eq : other.input = graph.input
  output_eq : other.output = graph.output
  nodes : other.nodes.Perm graph.nodes
  edges : other.edges.Perm graph.edges
  filling : ∀ key target, (other.incoming key).filter (·.targets.contains target) =
    (graph.incoming key).filter (·.targets.contains target)

theorem Redeclared.symm (h : graph.Redeclared other) : other.Redeclared graph where
  input_eq := h.input_eq.symm
  output_eq := h.output_eq.symm
  nodes := h.nodes.symm
  edges := h.edges.symm
  filling key target := (h.filling key target).symm

/-- The wires that fill a part of a node's input are what the edges that do were
made into. -/
theorem filling_of_compile (h : graph.compile options = .ok circuit) (key target : String) :
    List.Forall₂ (fun edge wire => graph.wire edge = .ok wire)
      ((graph.incoming key).filter (·.targets.contains target))
      ((circuit.incoming key).filter fun w => (w.mappings.map (·.target)).contains target) := by
  have hincoming := forall₂_incoming (wires_of_compile h)
    (fun _ _ hwire => (wireOf_of_wire hwire).target) key
  have hfills : ∀ edge wire, graph.wire edge = .ok wire →
      (edge.targets.contains target = true ↔
        (wire.mappings.map (·.target)).contains target = true) := by
    intro edge wire hwire
    rw [(wireOf_of_wire hwire).mappings, Edge.targets]
  exact List.rel_filter (fun edge wire => hfills edge wire) hincoming

section Redeclaring

variable (hgraph : graph.WellFormed) (hother : other.WellFormed) (h : graph.Redeclared other)
include hgraph hother h

theorem node?_of_redeclared (key : String) : other.node? key = graph.node? key := by
  refine Option.ext fun node => ?_
  constructor
  · intro hnode
    exact hgraph.node?_of_mem (h.nodes.mem_iff.1 (mem_nodes_of_node? hnode))
  · intro hnode
    exact hother.node?_of_mem (h.nodes.mem_iff.2 (mem_nodes_of_node? hnode))

theorem station_of_redeclared (key : String) :
    other.station options key = graph.station options key := by
  simp only [station, role, inputType, node?_of_redeclared hgraph hother h, h.input_eq,
    h.output_eq]

theorem wire_of_redeclared (edge : Edge) : other.wire edge = graph.wire edge := by
  simp only [wire, edgePlan, inputType, outputType, node?_of_redeclared hgraph hother h,
    h.input_eq, h.output_eq]

/-- A graph that was declared in another order finds the same results. -/
theorem invoke_eq_ok_of_redeclared (htrigger : options.trigger = .allPredecessors)
    (hcompile : graph.compile options = .ok circuit)
    (hcompile' : other.compile options = .ok circuit') {value result : Value}
    (hinvoke : circuit.invoke value = .ok result) : circuit'.invoke value = .ok result := by
  have hcompiled := compiled_of_compile hgraph hcompile
  have hcompiled' := compiled_of_compile hother hcompile'
  have hwire : other.wire = graph.wire := funext (wire_of_redeclared hgraph hother h)
  refine Circuit.invoke_eq_ok_of_makes (hcompiled.sequential hcompiled.schedule)
    (hcompiled'.sequential hcompiled'.schedule) ?_ ?_ ?_ hinvoke
  · rw [Circuit.inputGuard, Circuit.inputGuard, hcompiled.input_eq, hcompiled'.input_eq, h.input_eq]
  · exact hcompiled.perm_stations hcompiled' (((h.nodes.map _).cons _).cons _)
      (station_of_redeclared hgraph hother h)
  · intro station _ _ outputs output hmakes
    refine Circuit.makes_eq_ok_of_filling (fun wire hmem => ?_) (fun target => ?_) hmakes
    · rw [hcompiled'.feeding_eq htrigger] at hmem
      obtain ⟨hmem, htarget⟩ := Circuit.mem_incoming.1 hmem
      obtain ⟨edge, hedge, hmade⟩ := exists_left_of_forall₂ (wires_of_compile hcompile') hmem
      obtain ⟨wire', hmem', hmade'⟩ :=
        exists_right_of_forall₂ (wires_of_compile hcompile) (h.edges.mem_iff.1 hedge)
      rw [hwire, hmade'] at hmade
      obtain rfl := Except.ok.inj hmade
      rw [hcompiled.feeding_eq htrigger]
      exact Circuit.mem_incoming.2 ⟨hmem', htarget⟩
    · have hfilling' := filling_of_compile hcompile' station.key target
      rw [hwire, h.filling] at hfilling'
      rw [hcompiled.feeding_eq htrigger, hcompiled'.feeding_eq htrigger]
      refine List.right_unique_forall₂' ?_ hfilling' (filling_of_compile hcompile _ _)
      intro edge wire wire' hmade hmade'
      exact Except.ok.inj (hmade.symm.trans hmade')

end Redeclaring

/-- The result of a run does not depend on the schedule.  When all predecessors feed
a station, a run over one order of the stations finds a result exactly when a run
over any other finds it, and so does a run of the same graph declared in another
order, as long as the edges that fill the same part of an input keep theirs. -/
theorem invoke_schedule_irrelevant {input output : Ty} {declarations : List Declaration}
    (hgraph : declared input output declarations = graph)
    (h : graph.compile options = .ok circuit) (htrigger : options.trigger = .allPredecessors) :
    circuit.Schedule circuit.stations ∧
    (∀ first second, circuit.Schedule first → circuit.Schedule second → ∀ value result,
      Circuit.invoke { circuit with stations := first } value = .ok result ↔
        Circuit.invoke { circuit with stations := second } value = .ok result) ∧
    ∀ declarations' circuit',
      graph.Redeclared (declared input output declarations') →
      (declared input output declarations').compile options = .ok circuit' →
      ∀ value result, circuit.invoke value = .ok result ↔ circuit'.invoke value = .ok result := by
  have hwellFormed : graph.WellFormed := hgraph ▸ wellFormed_declared input output declarations
  have hcompiled := compiled_of_compile hwellFormed h
  refine ⟨hcompiled.schedule, fun first second hfirst hsecond value result => ?_,
    fun declarations' circuit' hother h' value result => ?_⟩
  · exact ⟨hcompiled.invoke_eq_ok_of_schedule htrigger hfirst hsecond,
      hcompiled.invoke_eq_ok_of_schedule htrigger hsecond hfirst⟩
  · have hwellFormed' := wellFormed_declared input output declarations'
    exact ⟨invoke_eq_ok_of_redeclared hwellFormed hwellFormed' hother htrigger h h',
      invoke_eq_ok_of_redeclared hwellFormed' hwellFormed hother.symm htrigger h' h⟩

/-- Two nodes that do not feed each other run in either order. -/
theorem joining_schedule_irrelevant :
    ∃ circuit stations, joining.compile {} = .ok circuit ∧
      circuit.order = [startKey, "single", "label", endKey] ∧
      stations.map (·.key) = [startKey, "label", "single", endKey] ∧
      ∀ value result, circuit.invoke value = .ok result ↔
        Circuit.invoke { circuit with stations } value = .ok result := by
  obtain ⟨circuit, h⟩ := exists_compile_joining
  obtain ⟨hcompiled, hschedules, _⟩ := invoke_schedule_irrelevant rfl h rfl
  have hparts : (joining.compile {}).map (fun c => (c.order, c.wires.map Wire.ends)) =
      .ok ([startKey, "single", "label", endKey], [(startKey, "label"), (startKey, "single"),
        ("label", endKey), ("single", endKey)]) := by cbv
  rw [h] at hparts
  obtain ⟨horder, hends⟩ := Prod.mk.inj (Except.ok.inj hparts)
  have hstations := (compiled_of_compile (wellFormed_declared _ _ _) h).stations_eq
  rw [horder] at hstations
  refine ⟨circuit, [startKey, "label", "single", endKey].map (joining.station {}), h, horder, rfl,
    hschedules _ _ hcompiled ⟨?_, fun wire hwire => ?_⟩⟩
  · rw [hstations]
    exact (List.Perm.swap _ _ _).cons _
  · have hmem : wire.ends ∈ circuit.wires.map Wire.ends := List.mem_map_of_mem hwire
    rw [hends] at hmem
    have hforward : ∀ ends ∈ [(startKey, "label"), (startKey, "single"), ("label", endKey),
        ("single", endKey)], [startKey, "label", "single", endKey].idxOf ends.1 <
          [startKey, "label", "single", endKey].idxOf ends.2 := by decide
    exact hforward wire.ends hmem

end Graph

end Dataflow
