import Dataflow.Node.Stock
import Dataflow.Proofs.Assembling
import Dataflow.Proofs.Networks
import Dataflow.Proofs.Runs
import Mathlib

/-!
# The shape of compiled graphs

Every graph that compiles leads from the start to the end through all of its
nodes.  The errors that runs keep for graphs of any other shape are therefore
never met: when one of them comes out of a run, it was a node that returned it.

* `Graph.Compiled.flow_excluded`: no step of a run ends with an excluded error.
* `Graph.compile_shape`: the order, the paths, the calls and the streams of a
  compiled graph.
-/

namespace Dataflow

/-! ## Excluded errors -/

/-- Whether compiling excludes a breach. -/
def Breach.isExcluded : Breach → Bool
  | .wholeAndFields _ | .unresolved .. | .outputMissing _ | .streamMissing _ | .endNotReached =>
    true
  | .notStored .. | .other _ => false

/-- Whether compiling excludes an error, unless a node returns it. -/
def Error.isExcluded : Error → Bool
  | .internal breach => breach.isExcluded
  | _ => false

theorem Error.not_isExcluded_of_kind {e : Error} (h : e.kind ≠ .internal) :
    e.isExcluded = false := by
  cases e <;> first | rfl | exact absurd rfl h

namespace Graph

variable {graph : Graph} {options : CompileOptions} {circuit : Circuit}

namespace Compiled

variable (h : graph.Compiled options circuit)
include h

/-- The parts that a wire fills are parts of the input it is for. -/
theorem part_of_apply {key : String} {wire : Wire} (hwire : wire ∈ circuit.incoming key)
    {output value : Value} {fields : Fields} (happly : wire.apply output = .ok fields)
    {target : String} (hvalue : fields.find? target = some value) :
    (∃ mapping ∈ wire.mappings, mapping.target = target) ∧
      ∃ type, (graph.inputType key).part target = .ok type := by
  obtain ⟨hmem, rfl⟩ := Circuit.mem_incoming.1 hwire
  obtain ⟨mapping, hmapping, rfl⟩ :=
    Mapping.exists_target_of_extract (Wire.extract_of_apply happly) hvalue
  obtain ⟨_, type, _, htype, _⟩ := (h.planned hmem).resolved mapping hmapping
  exact ⟨⟨mapping, hmapping, rfl⟩, type, htype⟩

/-- The input of a station has a property of values that zero values have and
that merging and storing keep, whichever of its wires contribute. -/
theorem outcome_assemble {permitted : Error → Prop} (holds : Ty → Value → Prop)
    {station : Station} (hstation : station ∈ circuit.stations)
    (hstart : station.key ≠ startKey)
    (hzero : holds (graph.inputType station.key) (graph.inputType station.key).zero)
    (hmerge : ∀ field type values, values ≠ [] → (∀ value ∈ values, holds type value) →
      Outcome permitted (holds type) (options.merges.merge field type values))
    (hassign : ∀ field type input value, field ≠ "" →
      (graph.inputType station.key).part field = .ok type →
      holds (graph.inputType station.key) input → holds type value →
        Outcome (fun e => permitted (.internal
            (.notStored field (graph.inputType station.key).text e)))
          (holds (graph.inputType station.key))
          (input.assign (graph.inputType station.key) field value))
    {contributions : List Fields}
    (hcontributions : ∀ fields ∈ contributions, ∃ wire ∈ circuit.incoming station.key,
      ∃ output, wire.apply output = .ok fields ∧
        ∀ target value type, fields.find? target = some value →
          (graph.inputType station.key).part target = .ok type → holds type value) :
    Outcome permitted (holds (graph.inputType station.key))
      (station.assembler.assemble (gather contributions)) := by
  have hassembler : station.assembler = ⟨graph.inputType station.key, options.merges⟩ :=
    congrArg Station.assembler (h.station_eq hstation)
  have htarget : ∀ fields ∈ contributions, ∀ target value, fields.find? target = some value →
      ∃ wire ∈ circuit.incoming station.key, ∃ mapping ∈ wire.mappings,
        mapping.target = target := by
    intro fields hfields target value hvalue
    obtain ⟨wire, hwire, output, happly, _⟩ := hcontributions fields hfields
    obtain ⟨hmapping, _⟩ := h.part_of_apply hwire happly hvalue
    exact ⟨wire, hwire, hmapping⟩
  rw [hassembler]
  refine Assembler.outcome_assemble ⟨graph.inputType station.key, options.merges⟩ holds
    hzero hmerge hassign ?_ ?_
  · rcases h.uniform (h.key_mem hstation) hstart with hall | hall
    · refine .inl fun fields hfields target value hvalue => ?_
      obtain ⟨wire, hwire, mapping, hmapping, rfl⟩ := htarget fields hfields target value hvalue
      exact hall wire hwire mapping hmapping
    · refine .inr fun fields hfields target value hvalue => ?_
      obtain ⟨wire, hwire, mapping, hmapping, rfl⟩ := htarget fields hfields target value hvalue
      exact hall wire hwire mapping hmapping
  · intro fields hfields target value hvalue
    obtain ⟨wire, hwire, output, happly, hholds⟩ := hcontributions fields hfields
    obtain ⟨_, type, htype⟩ := h.part_of_apply hwire happly hvalue
    exact ⟨type, htype, hholds target value type hvalue htype⟩

/-- No step of a run ends with an excluded error, whatever the nodes make. -/
theorem flow_excluded : circuit.Flow (fun e => e.isExcluded = false) (fun _ _ => True)
    fun _ _ => True where
  contributed wire _ output _ := by
    refine Wire.kind_of_apply_error.imp (fun e he => ?_) fun _ => id
    exact Error.not_isExcluded_of_kind (by rcases he with he | he <;> (rw [he]; decide))
  assembled station hstation hstart contributions hcontributions := by
    refine h.outcome_assemble (fun _ _ => True) hstation hstart trivial ?_ ?_ ?_
    · intro field type values _ _
      refine (MergeRegistry.outcome_merge (fun _ _ => trivial) fun _ _ _ _ => trivial).imp
        (fun e he => ?_) fun _ => id
      exact Error.not_isExcluded_of_kind (by rw [he]; decide)
    · intro field type input value _ _ _ _
      cases input.assign (graph.inputType station.key) field value with
      | ok stored => trivial
      | error e => exact Eq.refl false
    · intro fields hfields
      obtain ⟨wire, hwire, output, _, happly⟩ := hcontributions fields hfields
      exact ⟨wire, hwire, output, happly, fun _ _ _ _ _ => trivial⟩
  worked _ _ _ _ _ _ _ _ := trivial
  finished _ _ _ _ _ := trivial

end Compiled

/-! ## A graph with two routes -/

/-- Puts the text of a label in a list. -/
def labelNode : Node where
  input := .record ⟨"Label", [⟨"text", .string, .shown⟩], .empty⟩
  output := .list .string
  run
    | .record _ values => .ok (.list .string values)
    | _ => .error (.node "label" "not a record")

/-- Two nodes read the name in a map, one as a field of a record and one as its
whole input, and their lists are joined.  The last two declarations are refused. -/
def joining : Graph :=
  declared (.map .string .any) (.list .string)
    [.node "label" labelNode, .node "single" (.single .string (.list .string) .string),
      .mapped startKey "label" [⟨"", "name", "text"⟩],
      .mapped startKey "single" [⟨"", "name", ""⟩],
      .edge "label" endKey, .edge "single" endKey,
      .node "single" labelNode, .edge endKey "label"]

/-- A map with a name. -/
def named (name : String) : Value := .map .string .any [(.string "name", .string name)]

theorem node_of_mem_joining {entry : String × Node} (h : entry ∈ joining.nodes) :
    entry.2 = labelNode ∨ entry.2 = .single .string (.list .string) .string := by
  have hmem := mem_declarations_of_mem_nodes h
  simp only [List.mem_cons, Declaration.node.injEq, reduceCtorEq, List.not_mem_nil, or_false,
    false_or] at hmem
  rcases hmem with ⟨_, hlabel⟩ | ⟨_, hsingle⟩ | ⟨_, hlabel⟩
  · exact .inl hlabel
  · exact .inr hsingle
  · exact .inl hlabel

theorem perChunk_of_mem_joining :
    ∀ entry ∈ joining.nodes, entry.2.transducer = .perChunk entry.2.run := by
  intro entry hentry
  rcases node_of_mem_joining hentry with heq | heq <;> rw [heq] <;> rfl

theorem exists_compile_joining : ∃ circuit, joining.compile {} = .ok circuit := by
  have hok : (joining.compile {}).map (fun _ => ()) = .ok () := by cbv
  obtain ⟨circuit, h, _⟩ := map_eq_ok hok
  exact ⟨circuit, h⟩

/-! ## The shape of a graph and of its runs -/

/-- A run in good order: each node is called once at most and after its
predecessors, all nodes are called if the run succeeds, and an excluded error is
an error of the node that was called last. -/
structure Orderly (graph : Graph) (circuit : Circuit) (value : Value) : Prop where
  declared : ∀ call ∈ circuit.calls value, (call.key, call.node) ∈ graph.nodes
  once : ((circuit.calls value).map (·.key)).Nodup
  after_predecessors : ∀ before call after, circuit.calls value = before ++ call :: after →
    ∀ source, graph.Leads source call.key → source = startKey ∨ source ∈ before.map (·.key)
  succeeded : ∀ call ∈ (circuit.calls value).dropLast,
    ∃ output, call.node.run call.input = .ok output
  complete : ∀ output, circuit.invoke value = .ok output →
    ((circuit.calls value).map (·.key)).Perm (graph.nodes.map (·.1))
  own_errors : ∀ e, circuit.invoke value = .error e → e.isExcluded = true →
    Circuit.FailedLast (circuit.calls value) e

theorem Compiled.orderly (h : graph.Compiled options circuit) (value : Value) :
    graph.Orderly circuit value where
  declared _ hcall := h.mem_nodes_of_mem_calls hcall
  once := h.calls_nodup value
  after_predecessors _ _ _ hcalls _ hleads := h.called_before hcalls hleads
  succeeded := Circuit.ok_of_mem_dropLast_calls
  complete output hok := by
    rw [(Circuit.keys_calls circuit value).2 output hok]
    exact h.order_eq_workers.2
  own_errors e he hexcluded := by
    have hguard : Outcome (fun e => e.isExcluded = false) (fun _ => True)
        (circuit.inputGuard.check value) :=
      (circuit.inputGuard.outcome_check value).imp
        (fun e he => Error.not_isExcluded_of_kind (by rw [he]; decide)) fun _ => id
    have hrun := (h.outcome_invoke h.flow_excluded hguard).2
    rw [he] at hrun
    rcases hrun with hpermitted | hfailed
    · rw [hexcluded] at hpermitted
      exact nomatch hpermitted
    · exact hfailed

/-- The shape of compiled graphs.  The execution order begins with the start and
ends with the end, every node is on a path from the start to the end, every run
is in good order, no station meets an excluded error when it assembles its input,
and every stream is turned into a stream. -/
theorem compile_shape {input output : Ty} {declarations : List Declaration}
    (hgraph : declared input output declarations = graph)
    (h : graph.compile options = .ok circuit) :
    (circuit.order.head? = some startKey ∧ circuit.order.getLast? = some endKey ∧
      circuit.order.Perm graph.keys) ∧
    (∀ key ∈ graph.keys, Relation.ReflTransGen graph.Leads startKey key ∧
      Relation.ReflTransGen graph.Leads key endKey) ∧
    (∀ value, graph.Orderly circuit value) ∧
    (∀ station ∈ circuit.stations, station.key ≠ startKey → ∀ contributions : List Fields,
      (∀ fields ∈ contributions, ∃ wire ∈ circuit.incoming station.key, ∃ output,
        wire.apply output = .ok fields) →
      ∀ e, station.assembler.assemble (gather contributions) = .error e → e.isExcluded = false) ∧
    ∀ chunks, ∃ stream, circuit.transform chunks = .ok stream := by
  have hcompiled := compiled_of_compile (hgraph ▸ wellFormed_declared input output declarations) h
  obtain ⟨middle, horder, _⟩ := hcompiled.order_eq
  refine ⟨⟨?_, ?_, hcompiled.order_perm⟩, fun _ => hcompiled.on_path, hcompiled.orderly, ?_,
    hcompiled.transform_eq_ok⟩
  · rw [horder]
    rfl
  · rw [horder, ← List.cons_append, List.getLast?_concat]
  · intro station hstation hstart contributions hcontributions e he
    have hassembled := hcompiled.flow_excluded.assembled station hstation hstart contributions
      fun fields hfields => by
        obtain ⟨wire, hwire, output, happly⟩ := hcontributions fields hfields
        exact ⟨wire, hwire, output, trivial, happly⟩
    rwa [he] at hassembled

/-- A run on a name calls both nodes and joins their lists, and a stream hands on an error
and ends. -/
theorem joining_shape :
    ∃ circuit stream, joining.compile {} = .ok circuit ∧
      circuit.order = [startKey, "single", "label", endKey] ∧
      joining.Orderly circuit (named "a") ∧
      (circuit.calls (named "a")).map (·.key) = ["single", "label"] ∧
      circuit.invoke (named "a") = .ok (.list .string [.string "a", .string "a"]) ∧
      circuit.transform [.error (.node "" "broken")] = .ok stream ∧
      stream.answers [.calm, .calm] = [.chunk (.error (.node "" "broken")), .ended] := by
  have hruns : (joining.compile {}).map (fun circuit =>
      (circuit.order, (circuit.calls (named "a")).map (·.key), circuit.invoke (named "a"))) =
      .ok ([startKey, "single", "label", endKey], ["single", "label"],
        .ok (.list .string [.string "a", .string "a"])) := by cbv
  have hstreams : (joining.compile {}).bind (fun circuit =>
      (circuit.transform [.error (.node "" "broken")]).map (·.answers [.calm, .calm])) =
      .ok [.chunk (.error (.node "" "broken")), .ended] := by cbv
  obtain ⟨circuit, h, hruns⟩ := map_eq_ok hruns
  obtain ⟨horder, hkeys, hinvoke⟩ := by simpa only [Prod.mk.injEq] using hruns
  obtain ⟨_, _, horderly, _, htransform⟩ := compile_shape (rfl : _ = joining) h
  obtain ⟨stream, hstream⟩ := htransform [.error (.node "" "broken")]
  simp only [h, Except.bind, hstream, Except.map, Except.ok.injEq] at hstreams
  exact ⟨circuit, stream, h, horder, horderly _, hkeys, hinvoke, hstream, hstreams⟩

end Graph

end Dataflow
