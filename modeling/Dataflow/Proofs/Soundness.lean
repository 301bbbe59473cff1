import Dataflow.Proofs.Conservation
import Dataflow.Proofs.Merging

/-!
# Well-typed runs

Compiling checks types along edges, and it leaves guards where types alone do
not decide.  When nodes and merge policies keep to their declared types, this is
enough: every value that reaches a node is of the type the node declares, and a
run fails only for reasons that types cannot exclude.

The invariant is that every station so far has made a value of its output type.

* `Graph.Compiled.flow_typed`: each step keeps the invariant.
* `Graph.run_sound`: runs and streams keep to the declared types.
-/

namespace Dataflow

/-- A node makes values of its output type of those of its input type, or fails. -/
def Node.Sound (node : Node) : Prop :=
  ∀ input, input.OfType node.input →
    ∀ output, node.run input = .ok output → output.OfType node.output

/-- Types do not foresee that a key is missing, that a guard rejects a value, or
that values cannot be merged. -/
def Error.Unforeseen (e : Error) : Prop :=
  (∃ detail, e = .access ⟨.keyNotFound, detail⟩) ∨ e.kind = .runtimeType ∨ e.kind = .merge

namespace Graph

variable {graph : Graph} {options : CompileOptions} {circuit : Circuit}

/-- Everything that a graph trusts keeps to the declared types. -/
structure Trustworthy (graph : Graph) (options : CompileOptions) : Prop where
  /-- No box of a declared type hides an open type. -/
  closed : ∀ key ∈ graph.keys, (graph.inputType key).boxesClosed = true
  merges : options.merges.Sound
  nodes : ∀ entry ∈ graph.nodes, entry.2.Sound

namespace Compiled

variable (h : graph.Compiled options circuit)
include h

/-- What a wire contributes to a station has the types of the parts it is for. -/
theorem ofType_of_apply {key : String} {wire : Wire} (hwire : wire ∈ circuit.incoming key)
    {output : Value} (houtput : output.OfType (graph.outputType wire.source)) {fields : Fields}
    (happly : wire.apply output = .ok fields) {target : String} {value : Value} {type : Ty}
    (hvalue : fields.find? target = some value)
    (htype : (graph.inputType key).part target = .ok type) : value.OfType type := by
  obtain ⟨hmem, rfl⟩ := Circuit.mem_incoming.1 hwire
  have hplanned := h.planned hmem
  obtain ⟨_, _, _, _, _, _, _, hread⟩ :=
    Mapping.ofType_of_extract hplanned houtput (Wire.extract_of_apply happly) hvalue
  rw [Mapping.apply_eq_extractChecked hplanned houtput] at happly
  obtain ⟨declared, hdeclared, hfits⟩ := (Mapping.extractChecked_eq_ok_iff.1 happly).2 _ _ hvalue
  rw [htype] at hdeclared
  obtain rfl := Except.ok.inj hdeclared
  exact ⟨hread.wellTyped, hfits⟩

/-- Every step of a run keeps the declared types. -/
theorem flow_typed (htrust : graph.Trustworthy options) :
    circuit.Flow Error.Unforeseen (fun key value => value.OfType (graph.outputType key))
      fun key value => value.OfType (graph.inputType key) where
  contributed wire hwire output houtput := by
    have hplanned := h.planned hwire
    rw [Mapping.apply_eq_extractChecked hplanned houtput]
    refine (Mapping.extractChecked_error hplanned houtput).imp (fun e he => ?_) fun _ => id
    rcases he with hmissing | ⟨mapping, actual, expected, rfl⟩
    · exact .inl hmissing
    · exact .inr (.inl rfl)
  assembled station hstation hstart contributions hcontributions := by
    refine h.outcome_assemble (fun type value => value.OfType type) hstation hstart
      (Ty.zero_ofType (htrust.closed _ (h.key_mem hstation))) ?_ ?_ ?_
    · intro field type values _ hvalues
      have hmerged : Outcome (fun e => e.kind = .merge) (fun value => value.OfType type)
          (options.merges.merge field type values) := by
        refine MergeRegistry.outcome_merge ?_ ?_
        · intro value hone
          exact hvalues value (by rw [hone]; exact List.mem_singleton_self value)
        · intro policy value hpolicy hmade
          exact htrust.merges type policy hpolicy values hvalues value hmade
      exact hmerged.imp (fun e he => .inr (.inr he)) fun _ => id
    · intro field type input value hfield htype hinput hvalue
      obtain ⟨stored, hstored, hofType⟩ := hinput.assign htype hfield hvalue
      rw [hstored]
      exact hofType
    · intro fields hfields
      obtain ⟨wire, hwire, output, houtput, happly⟩ := hcontributions fields hfields
      exact ⟨wire, hwire, output, happly, fun target value type hvalue htype =>
        h.ofType_of_apply hwire houtput happly hvalue htype⟩
  worked station hstation node hrole input hinput output hrun := by
    rw [h.role_eq hstation] at hrole
    have hnode := node?_of_role hrole
    have hstart := ne_startKey_of_role hrole nofun
    rw [inputType_of_node? hstart hnode] at hinput
    rw [outputType_of_node? hstart hnode]
    exact htrust.nodes _ (mem_nodes_of_node? hnode) input hinput output hrun
  finished station hstation hrole input hinput := by
    rw [h.role_eq hstation] at hrole
    rw [eq_endKey_of_role (h.key_mem hstation) hrole] at hinput ⊢
    rwa [h.wellFormed.outputType_endKey, ← h.wellFormed.inputType_endKey]

/-- The guard lets values of the input type through. -/
theorem outcome_inputGuard {value : Value} (hvalue : value.WellTyped) :
    Outcome Error.Unforeseen (fun value => value.OfType (graph.outputType startKey))
      (circuit.inputGuard.check value) := by
  unfold Guard.check
  split
  next hfits =>
    refine ⟨hvalue, ?_⟩
    rwa [Circuit.inputGuard, h.input_eq] at hfits
  · exact .inr (.inl rfl)

/-- A run hands each node an input of its type and makes an output of the graph's. -/
theorem run_typed (htrust : graph.Trustworthy options) {value : Value}
    (hvalue : value.WellTyped) :
    (∀ call ∈ circuit.calls value, (call.key, call.node) ∈ graph.nodes ∧
      call.input.OfType call.node.input) ∧
    Outcome (fun e => e.Unforeseen ∨ Circuit.FailedLast (circuit.calls value) e)
      (fun output => output.OfType graph.output) (circuit.invoke value) := by
  obtain ⟨hcalls, hinvoke⟩ :=
    h.outcome_invoke (h.flow_typed htrust) (h.outcome_inputGuard hvalue)
  rw [h.wellFormed.outputType_endKey] at hinvoke
  refine ⟨fun call hcall => ?_, hinvoke⟩
  have hmem := h.mem_nodes_of_mem_calls hcall
  have hinput := hcalls call hcall
  rw [h.wellFormed.inputType_of_mem hmem] at hinput
  exact ⟨hmem, hinput⟩

/-- What arrives at a node along a route is of its input type. -/
theorem arrive_typed (htrust : graph.Trustworthy options) {value : Value}
    (hvalue : value.WellTyped) {path : List Wire} {key : String}
    (hroute : circuit.Route path key) {output : Value}
    (houtput : graph.follow options circuit path value = .ok output) {wire : Wire}
    (hwire : wire ∈ circuit.outgoing key) {input : Value}
    (hinput : graph.arrive options output wire = .ok input) :
    input.OfType (graph.inputType wire.target) := by
  have hflow := h.flow_typed htrust
  have hmade := h.outcome_follow hflow (h.outcome_inputGuard hvalue) hroute
  obtain ⟨hmem, hsource⟩ := List.mem_filter.1 hwire
  rw [houtput, ← of_decide_eq_true hsource] at hmade
  have htaken := h.outcome_arrive hflow hmem hmade
  rwa [hinput] at htaken

/-- The chunks that leave the graph are of its output type. -/
theorem chunks_typed (htrust : graph.Trustworthy options) {values : List Value}
    (hvalues : ∀ value ∈ values, value.WellTyped) {chunks : List (Chunk Value)}
    (hchunks : graph.Woven options circuit (values.map .ok) endKey chunks) :
    ∀ chunk ∈ chunks, Outcome (fun e => e.Unforeseen ∨
        ∃ key node input, (key, node) ∈ graph.nodes ∧ input.OfType node.input ∧
          node.run input = .error e)
      (fun output => output.OfType graph.output) chunk := by
  intro chunk hchunk
  obtain ⟨routes, _, hroutes, hweaves⟩ := hchunks
  obtain ⟨list, hlist, hmem⟩ := hweaves.mem hchunk
  obtain ⟨path, hpath, rfl⟩ := List.mem_map.1 hlist
  rw [along_ok] at hmem
  obtain ⟨value, hvalue, rfl⟩ := List.mem_map.1 hmem
  have hmade := h.outcome_follow (h.flow_typed htrust)
    (h.outcome_inputGuard (hvalues value hvalue)) ((hroutes path).1 hpath)
  rw [h.wellFormed.outputType_endKey] at hmade
  refine hmade.imp (fun e he => he.imp_right ?_) fun _ => id
  rintro ⟨key, node, input, hnode, hinput, herror⟩
  rw [h.wellFormed.inputType_of_mem hnode] at hinput
  exact ⟨key, node, input, hnode, hinput, herror⟩

/-- What a node is given in a stream is of its input type. -/
theorem inputs_typed (htrust : graph.Trustworthy options) {values : List Value}
    (hvalues : ∀ value ∈ values, value.WellTyped) {key : String} {full : List (Chunk Value)}
    (hfull : MadeBy (graph.station options key).assembler.assembleOne
      (Merged (graph.Woven options circuit (values.map .ok)) (circuit.feeding key)) full)
    {input : Value} (hinput : .ok input ∈ full) : input.OfType (graph.inputType key) := by
  obtain ⟨wire, hwire, path, hroute, hmem⟩ := exists_arrived hfull hinput
  rw [arriving, along_ok, List.map_map] at hmem
  obtain ⟨value, hvalue, harrived⟩ := List.mem_map.1 hmem
  obtain ⟨output, houtput, harrived⟩ := bind_eq_ok harrived
  have hout : wire ∈ circuit.outgoing wire.source :=
    List.mem_filter.2 ⟨(Circuit.mem_incoming.1 (Circuit.mem_incoming_of_mem_feeding hwire)).1,
      decide_eq_true rfl⟩
  have htyped := h.arrive_typed htrust (hvalues value hvalue) hroute houtput hout harrived
  rwa [Circuit.target_of_feeding hwire] at htyped

end Compiled

/-! ## A graph to trust -/

theorem labelNode_sound : labelNode.Sound := by
  intro input hinput output houtput
  obtain ⟨hwell, hfits⟩ := hinput
  cases hwell with
  | @record shape values hall hinner =>
    obtain rfl := Except.ok.inj houtput
    obtain rfl := Ty.record.inj (Ty.eq_of_fits hfits rfl)
    refine ⟨.list (fun value hvalue => ?_) hinner, Ty.fits_refl _⟩
    obtain ⟨field, hfield, hvalue⟩ := exists_left_of_forall₂ hall hvalue
    obtain rfl := List.mem_singleton.1 hfield
    exact hvalue
  | _ => exact nomatch houtput

/-- The list that holds a value is one of its type. -/
theorem single_sound (input elem : Ty) : (Node.single input (.list elem) elem).Sound := by
  intro value hvalue output houtput
  have hempty : (ListValue.empty elem).toValue.WellTyped := .list nofun nofun
  have hitems : ∀ item ∈ [value], item.WellTyped :=
    fun item hitem => List.mem_singleton.1 hitem ▸ hvalue.wellTyped
  have hpush := ListValue.wellTyped_pushAll hempty hitems
  obtain ⟨list, hlist, rfl⟩ := map_eq_ok (mapError_eq_ok houtput)
  rw [ListValue.ofItems] at hlist
  rw [hlist] at hpush
  exact ListValue.ofType_toValue hpush

theorem joining_trustworthy : joining.Trustworthy {} where
  closed := by
    have hall : (joining.keys.all fun key => (joining.inputType key).boxesClosed) = true := by cbv
    exact List.all_eq_true.1 hall
  merges := MergeRegistry.standard_sound
  nodes entry hentry := by
    rcases node_of_mem_joining hentry with heq | heq <;> rw [heq]
    · exact labelNode_sound
    · exact single_sound _ _

/-! ## Runs and streams -/

/-- Well-typed runs do not go wrong.  When everything that a compiled graph trusts
keeps to the declared types, a run on a well-typed value hands each node only
well-typed values of its input type.  It ends with a well-typed value of the
graph's output type, or with a missing key, a value that a guard rejects, values
that cannot be merged, or the error of the node that was called last.  The same
holds of streams, chunk by chunk, if the nodes work chunk by chunk.  The merge
policies that are in force from the beginning can be trusted. -/
theorem run_sound {input output : Ty} {declarations : List Declaration}
    (hgraph : declared input output declarations = graph)
    (h : graph.compile options = .ok circuit) (htrust : graph.Trustworthy options) :
    (∀ value, value.WellTyped →
      (∀ call ∈ circuit.calls value, (call.key, call.node) ∈ graph.nodes ∧
        call.input.OfType call.node.input) ∧
      Outcome (fun e => e.Unforeseen ∨ Circuit.FailedLast (circuit.calls value) e)
        (fun output => output.OfType graph.output) (circuit.invoke value)) ∧
    ((∀ entry ∈ graph.nodes, entry.2.transducer = .perChunk entry.2.run) →
      ∀ values : List Value, (∀ value ∈ values, value.WellTyped) →
        (∀ path key, circuit.Route path key → ∀ value ∈ values, ∀ output,
          graph.follow options circuit path value = .ok output → ∀ wire ∈ circuit.outgoing key,
            ∀ input, graph.arrive options output wire = .ok input →
              input.OfType (graph.inputType wire.target)) ∧
        (∀ before station after node, circuit.stations = before ++ station :: after →
          station.role = .work node → ∃ network lanes,
            Network.built circuit before (.ofInput circuit (values.map .ok)) = .ok network ∧
            network.lanes (circuit.feeding station.key) = .ok lanes ∧
            circuit.transform (values.map .ok) =
              Network.complete circuit after (network.attach circuit station node lanes) ∧
            ∀ moments, ∀ chunk ∈ (network.result station lanes).received moments,
              (∃ wire ∈ circuit.feeding station.key, ∃ path, circuit.Route path wire.source ∧
                chunk ∈ graph.arriving options circuit (values.map .ok) path wire) ∧
              ∀ input, chunk = .ok input → input.OfType node.input) ∧
        ∃ stream, circuit.transform (values.map .ok) = .ok stream ∧
          (∀ chunk ∈ stream.drain, Outcome (fun e => e.Unforeseen ∨
              ∃ key node input, (key, node) ∈ graph.nodes ∧ input.OfType node.input ∧
                node.run input = .error e)
            (fun output => output.OfType graph.output) chunk) ∧
          ∀ moments, ∀ chunk ∈ stream.received moments, Outcome (fun e => e.Unforeseen ∨
              ∃ key node input, (key, node) ∈ graph.nodes ∧ input.OfType node.input ∧
                node.run input = .error e)
            (fun output => output.OfType graph.output) chunk) ∧
    MergeRegistry.standard.Sound := by
  have hcompiled := compiled_of_compile (hgraph ▸ wellFormed_declared input output declarations) h
  refine ⟨fun value hvalue => hcompiled.run_typed htrust hvalue, ?_,
    MergeRegistry.standard_sound⟩
  intro hdefault values hvalues
  refine ⟨?_, ?_, ?_⟩
  · intro path key hroute value hvalue output houtput wire hwire input hinput
    exact hcompiled.arrive_typed htrust (hvalues value hvalue) hroute houtput hwire hinput
  · intro before station after node hsplit hrole
    obtain ⟨network, lanes, hbuilt, hlanes, htransform, hgives⟩ :=
      hcompiled.exists_inputs_of_carried (hcompiled.passes_woven (values.map .ok)) hdefault
        (hcompiled.woven_start _) hsplit hrole
    refine ⟨network, lanes, hbuilt, hlanes, htransform, fun moments chunk hchunk => ?_⟩
    have hstation : station ∈ circuit.stations := by simp [hsplit]
    have hnode := mem_nodes_of_node? (node?_of_role ((hcompiled.role_eq hstation).symm.trans hrole))
    obtain ⟨full, hfull, hbegin⟩ := hgives.begins moments
    rw [hcompiled.station_eq hstation] at hfull
    have hmem := hbegin.mem hchunk
    refine ⟨exists_arrived hfull hmem, ?_⟩
    rintro input rfl
    have htyped := hcompiled.inputs_typed htrust hvalues hfull hmem
    rwa [hcompiled.wellFormed.inputType_of_mem hnode] at htyped
  · obtain ⟨stream, hstream, hgives⟩ := hcompiled.woven_transform hdefault (values.map .ok)
    refine ⟨stream, hstream, hcompiled.chunks_typed htrust hvalues hgives.drained.1,
      fun moments chunk hchunk => ?_⟩
    obtain ⟨full, hfull, hbegin⟩ := hgives.begins moments
    exact hcompiled.chunks_typed htrust hvalues hfull chunk (hbegin.mem hchunk)

/-- A name comes out of a stream as the list with the name, once for each route. -/
theorem exists_stream_listed :
    ∃ circuit stream, joining.compile {} = .ok circuit ∧
      circuit.transform [.ok (named "a")] = .ok stream ∧
      stream.drain = [.ok (listed "a"), .ok (listed "a")] := by
  obtain ⟨circuit, first, second, h, hne, hroute, hfollow⟩ := exists_routes_joining
  have hcompiled : joining.Compiled {} circuit :=
    compiled_of_compile (wellFormed_declared (.map .string .any) (.list .string) _) h
  obtain ⟨stream, hstream, hgives⟩ :=
    hcompiled.woven_transform perChunk_of_mem_joining ([named "a"].map .ok)
  obtain ⟨routes, hnodup, hmem, hweaves⟩ := hgives.drained.1
  have hperm := perm_routes hne hroute hnodup hmem
  have hall := (collects_of_weaves hweaves).succeeding fun path hpath value hvalue => by
    rw [List.mem_singleton.1 hvalue, (hfollow path (hperm.mem_iff.1 hpath)).1]
    exact ⟨_, rfl⟩
  rw [follow_eq_replicate joining {} circuit hperm [named "a"] [.ok (listed "a")]
    fun path hpath => by simp [hfollow path hpath]] at hall
  have hdrain : stream.drain.Perm (.replicate 2 (.ok (listed "a"))) := hall.1.perm_flatten
  exact ⟨circuit, stream, h, hstream, List.perm_replicate.1 hdrain⟩

theorem wellTyped_named (name : String) : (named name).WellTyped := by
  refine .map ?_ ?_ ?_ <;> intro entry hentry <;> obtain rfl := List.mem_singleton.1 hentry
  · rfl
  · exact Ty.fits_any _
  · exact .string name

/-- A name in a run and in a stream: each node takes it as it should be, and the lists that
come out are lists of strings. -/
theorem joining_sound :
    ∃ circuit stream, joining.compile {} = .ok circuit ∧
      (∀ call ∈ circuit.calls (named "a"), call.input.OfType call.node.input) ∧
      circuit.transform [.ok (named "a")] = .ok stream ∧
      stream.drain = [.ok (listed "a"), .ok (listed "a")] ∧
      (listed "a").OfType joining.output := by
  obtain ⟨circuit, stream, h, hstream, hdrain⟩ := exists_stream_listed
  have hvalues : ∀ value ∈ [named "a"], value.WellTyped := fun value hvalue =>
    List.mem_singleton.1 hvalue ▸ wellTyped_named "a"
  obtain ⟨hruns, hstreams, _⟩ := run_sound (rfl : _ = joining) h joining_trustworthy
  obtain ⟨hcalls, _⟩ := hruns _ (wellTyped_named "a")
  obtain ⟨_, _, other, hother, hchunks, _⟩ := hstreams perChunk_of_mem_joining _ hvalues
  obtain rfl := Except.ok.inj (hstream.symm.trans hother)
  have htyped := hchunks (.ok (listed "a")) (by rw [hdrain]; exact List.mem_cons_self)
  exact ⟨circuit, stream, h, fun call hcall => (hcalls call hcall).2, hstream, hdrain, htyped⟩

end Graph

end Dataflow
