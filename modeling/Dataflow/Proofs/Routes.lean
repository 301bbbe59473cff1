import Dataflow.Proofs.Carrying
import Dataflow.Proofs.Runs
import Mathlib.Data.List.Nodup

/-!
# Routes

The routes of a circuit are the paths of feeding wires from the start, and a
chunk follows each of them on its own: in a stream every contribution is an
input by itself.  What a station makes of a stream is therefore woven from what
the chunks become along the routes to the station.

* `Circuit.Route`, `Graph.follow`: routes, and what a value becomes along one.
* `Graph.Compiled.outcome_follow`: what every step of a run keeps, a route keeps.
* `Graph.Compiled.woven_step`: a station that takes woven streams makes a woven
  stream.
-/

namespace Dataflow

/-- What a station makes of its input. -/
def Role.act : Role → Value → Except Error Value
  | .work node, input => node.run input
  | _, input => .ok input

/-- The feeding wires of a way from the start to a station. -/
inductive Circuit.Route (circuit : Circuit) : List Wire → String → Prop
  | start : Route circuit [] startKey
  | step {path : List Wire} {wire : Wire} (h : Route circuit path wire.source)
      (hfeeds : wire ∈ circuit.feeding wire.target) : Route circuit (path ++ [wire]) wire.target

/-- A route ends with a wire that feeds its last station. -/
theorem Circuit.route_iff {circuit : Circuit} {path : List Wire} {key : String}
    (hstart : key ≠ startKey) :
    circuit.Route path key ↔ ∃ wire ∈ circuit.feeding key, ∃ before,
      circuit.Route before wire.source ∧ before ++ [wire] = path := by
  constructor
  · intro hroute
    cases hroute with
    | start => exact absurd rfl hstart
    | @step before wire hbefore hfeeds => exact ⟨wire, hfeeds, before, hbefore, rfl⟩
  · rintro ⟨wire, hwire, before, hbefore, rfl⟩
    have htarget := Circuit.target_of_feeding hwire
    have hstep := Circuit.Route.step hbefore (by rwa [htarget])
    rwa [htarget] at hstep

/-- Paths that go on through different wires are different. -/
theorem nodup_extended {wires : List Wire} {routes : Wire → List (List Wire)}
    (hwires : (wires.map Wire.ends).Nodup) (hroutes : ∀ wire ∈ wires, (routes wire).Nodup) :
    (wires.flatMap fun wire => (routes wire).map (· ++ [wire])).Nodup := by
  rw [List.nodup_flatMap]
  refine ⟨fun wire hwire => (hroutes wire hwire).map fun a b => List.append_cancel_right, ?_⟩
  refine (List.pairwise_map.1 hwires).imp fun {a b} hends path ha hb => hends ?_
  obtain ⟨first, _, rfl⟩ := List.mem_map.1 ha
  obtain ⟨second, _, heq⟩ := List.mem_map.1 hb
  obtain ⟨_, hlast⟩ := List.append_inj' heq rfl
  rw [(List.cons.inj hlast).1]

namespace Graph

/-- The input of the station behind a wire, if nothing else contributes to it. -/
def arrive (graph : Graph) (options : CompileOptions) (output : Value) (wire : Wire) :
    Except Error Value :=
  (wire.apply output).bind (graph.station options wire.target).assembler.assembleOne

/-- What the station behind a wire makes of that input. -/
def pass (graph : Graph) (options : CompileOptions) (output : Value) (wire : Wire) :
    Except Error Value :=
  (graph.arrive options output wire).bind (graph.role wire.target).act

/-- What an input of the circuit becomes along a path. -/
def follow (graph : Graph) (options : CompileOptions) (circuit : Circuit) (path : List Wire)
    (value : Value) : Except Error Value := do
  path.foldlM (graph.pass options) (← circuit.inputGuard.check value)

theorem follow_nil (graph : Graph) (options : CompileOptions) (circuit : Circuit) (value : Value) :
    graph.follow options circuit [] value = circuit.inputGuard.check value := by
  unfold follow
  cases circuit.inputGuard.check value <;> rfl

theorem follow_concat (graph : Graph) (options : CompileOptions) (circuit : Circuit)
    (path : List Wire) (wire : Wire) (value : Value) :
    graph.follow options circuit (path ++ [wire]) value =
      (graph.follow options circuit path value).bind fun output =>
        graph.pass options output wire := by
  unfold follow
  cases circuit.inputGuard.check value with
  | error e => rfl
  | ok input =>
    show (path ++ [wire]).foldlM (graph.pass options) input =
      Except.bind (path.foldlM (graph.pass options) input) _
    rw [List.foldlM_append]
    cases path.foldlM (graph.pass options) input with
    | error e => rfl
    | ok output =>
      show [wire].foldlM (graph.pass options) output = graph.pass options output wire
      rw [List.foldlM_cons]
      cases graph.pass options output wire <;> rfl

/-- What becomes of some chunks of the input along a path. -/
def along (graph : Graph) (options : CompileOptions) (circuit : Circuit)
    (chunks : List (Chunk Value)) (path : List Wire) : List (Chunk Value) :=
  chunks.map fun chunk => chunk.bind (graph.follow options circuit path)

/-- The inputs that some chunks of the input make at the station behind a wire, when they
get there along a path. -/
def arriving (graph : Graph) (options : CompileOptions) (circuit : Circuit)
    (chunks : List (Chunk Value)) (path : List Wire) (wire : Wire) : List (Chunk Value) :=
  (graph.along options circuit chunks path).map fun chunk =>
    chunk.bind fun output => graph.arrive options output wire

/-- The chunks are woven from what the chunks of the input become along the routes to a
station. -/
def Woven (graph : Graph) (options : CompileOptions) (circuit : Circuit)
    (input : List (Chunk Value)) (key : String) (chunks : List (Chunk Value)) : Prop :=
  ∃ routes : List (List Wire), routes.Nodup ∧ (∀ path, path ∈ routes ↔ circuit.Route path key) ∧
    Weaves (routes.map (graph.along options circuit input)) chunks

variable {graph : Graph} {options : CompileOptions} {circuit : Circuit}

/-- The inputs of a station that takes any interleaving of woven streams are woven from
what arrives along the routes to its wires. -/
theorem weaves_inputs {input : List (Chunk Value)} {key : String} {full : List (Chunk Value)}
    (hfull : MadeBy (graph.station options key).assembler.assembleOne
      (Merged (graph.Woven options circuit input) (circuit.feeding key)) full) :
    ∃ routes : Wire → List (List Wire), (∀ wire ∈ circuit.feeding key, (routes wire).Nodup ∧
        ∀ path, path ∈ routes wire ↔ circuit.Route path wire.source) ∧
      Weaves ((circuit.feeding key).flatMap fun wire =>
        (routes wire).map fun path => graph.arriving options circuit input path wire) full := by
  obtain ⟨merged, ⟨streams, hstreams, hmerged⟩, rfl⟩ := hfull
  choose! routes hnodup hroutes hweaves using hstreams
  have hlanes : List.Forall₂ Weaves
      ((circuit.feeding key).map fun wire =>
        ((routes wire).map (graph.along options circuit input)).map
          (List.map fun chunk => chunk.bind wire.apply))
      ((circuit.feeding key).map fun wire => upTo wire.apply (streams wire)) := by
    rw [List.forall₂_map_left_iff, List.forall₂_map_right_iff, List.forall₂_same]
    exact fun wire hwire => (hweaves wire hwire).upTo wire.apply
  have hall := (weaves_of_interleaves hlanes hmerged).upTo
    (graph.station options key).assembler.assembleOne
  rw [upTo_cut] at hall
  refine ⟨routes, fun wire hwire => ⟨hnodup wire hwire, hroutes wire hwire⟩, ?_⟩
  refine Eq.subst (motive := fun lists => Weaves lists _) ?_ hall
  simp only [List.flatMap_def, List.map_flatten, List.map_map]
  congr 1
  refine List.map_congr_left fun wire hwire => ?_
  simp only [Function.comp_apply, List.map_map]
  refine List.map_congr_left fun path _ => ?_
  simp only [arriving, Function.comp_apply, List.map_map]
  refine List.map_congr_left fun chunk _ => ?_
  rw [← Circuit.target_of_feeding hwire]
  cases chunk <;> rfl

/-- Each of these inputs is what a chunk of the input is when it arrives. -/
theorem exists_arrived {input : List (Chunk Value)} {key : String} {full : List (Chunk Value)}
    (hfull : MadeBy (graph.station options key).assembler.assembleOne
      (Merged (graph.Woven options circuit input) (circuit.feeding key)) full)
    {chunk : Chunk Value} (hchunk : chunk ∈ full) :
    ∃ wire ∈ circuit.feeding key, ∃ path, circuit.Route path wire.source ∧
      chunk ∈ graph.arriving options circuit input path wire := by
  obtain ⟨routes, hroutes, hweaves⟩ := weaves_inputs hfull
  obtain ⟨list, hlist, hmem⟩ := hweaves.mem hchunk
  obtain ⟨wire, hwire, hlist⟩ := List.mem_flatMap.1 hlist
  obtain ⟨path, hpath, rfl⟩ := List.mem_map.1 hlist
  exact ⟨wire, hwire, path, ((hroutes wire hwire).2 path).1 hpath, hmem⟩

namespace Compiled

variable (h : graph.Compiled options circuit)
include h

theorem ends_nodup : (circuit.wires.map Wire.ends).Nodup := by
  have hends : graph.edges.map (fun edge => (edge.source, edge.target)) =
      circuit.wires.map Wire.ends :=
    map_eq_map_of_forall₂ h.wires fun edge wire hof => by rw [Wire.ends, hof.source, hof.target]
  rw [← hends, List.Nodup, List.pairwise_map]
  refine h.wellFormed.apart.imp fun {a b} hapart heq => hapart ?_
  exact ⟨congrArg Prod.fst heq, congrArg Prod.snd heq⟩

theorem feeding_nodup (key : String) : ((circuit.feeding key).map Wire.ends).Nodup := by
  unfold Circuit.feeding
  dsimp only
  split
  · exact h.ends_nodup.sublist (List.filter_sublist.map _)
  · cases circuit.order.findSome? _ <;> simp

/-- Every station but the start is fed. -/
theorem feeding_ne {key : String} (hkey : key ∈ graph.keys) (hstart : key ≠ startKey) :
    circuit.feeding key ≠ [] := by
  have hincoming := h.incoming_ne hkey hstart
  unfold Circuit.feeding
  dsimp only
  split
  · exact hincoming
  · obtain ⟨wire, hwire⟩ := List.exists_mem_of_ne_nil _ hincoming
    have hsource := h.mem_order.2 (h.source_mem (Circuit.mem_incoming.1 hwire).1)
    have hsome : (circuit.order.findSome? fun k =>
        (circuit.incoming key).find? (·.source = k)).isSome := by
      rw [List.findSome?_isSome_iff]
      exact ⟨wire.source, hsource, List.find?_isSome.2 ⟨wire, hwire, decide_eq_true rfl⟩⟩
    obtain ⟨found, hfound⟩ := Option.isSome_iff_exists.1 hsome
    rw [hfound]
    exact List.cons_ne_nil _ _

/-- Only the empty path leads to the start. -/
theorem route_startKey {path : List Wire} : circuit.Route path startKey ↔ path = [] := by
  refine ⟨fun hroute => ?_, fun heq => heq ▸ .start⟩
  generalize hkey : startKey = key at hroute
  cases hroute with
  | start => rfl
  | step _ hfeeds =>
    obtain ⟨hmem, _⟩ := Circuit.mem_incoming.1 (Circuit.mem_incoming_of_mem_feeding hfeeds)
    exact absurd hkey.symm (h.target_mem hmem).2

/-- The guarded input is woven from the empty route. -/
theorem woven_start (input : List (Chunk Value)) :
    graph.Woven options circuit input startKey (upTo circuit.inputGuard.check input) := by
  refine ⟨[[]], List.nodup_singleton _, fun path => ?_, ?_⟩
  · rw [List.mem_singleton, h.route_startKey]
  · have hfollow : graph.follow options circuit [] = circuit.inputGuard.check :=
      funext (graph.follow_nil options circuit)
    rw [List.map_singleton, along, hfollow]
    exact weaves_singleton _

/-- What a station makes of any interleaving of woven streams is woven. -/
theorem woven_step {input : List (Chunk Value)} {key : String} (hstart : key ≠ startKey)
    {full : List (Chunk Value)}
    (hfull : MadeBy (graph.role key).act (MadeBy (graph.station options key).assembler.assembleOne
      (Merged (graph.Woven options circuit input) (circuit.feeding key))) full) :
    graph.Woven options circuit input key full := by
  obtain ⟨inputs, hinputs, rfl⟩ := hfull
  obtain ⟨routes, hroutes, hweaves⟩ := weaves_inputs hinputs
  refine ⟨(circuit.feeding key).flatMap fun wire => (routes wire).map (· ++ [wire]),
    nodup_extended (h.feeding_nodup key) fun wire hwire => (hroutes wire hwire).1,
    fun path => ?_, ?_⟩
  · rw [Circuit.route_iff hstart, List.mem_flatMap]
    refine exists_congr fun wire => and_congr_right fun hwire => ?_
    rw [List.mem_map]
    exact exists_congr fun before => and_congr_left' ((hroutes wire hwire).2 before)
  · -- what a node makes of what arrives is what follows along one more wire
    refine Eq.subst (motive := fun lists => Weaves lists _) ?_ (hweaves.upTo (graph.role key).act)
    simp only [List.flatMap_def, List.map_flatten, List.map_map]
    congr 1
    refine List.map_congr_left fun wire hwire => ?_
    simp only [Function.comp_apply, List.map_map]
    refine List.map_congr_left fun path _ => ?_
    simp only [arriving, along, Function.comp_apply, List.map_map]
    refine List.map_congr_left fun chunk _ => ?_
    cases chunk with
    | error e => rfl
    | ok value =>
      simp only [Function.comp_apply, Except.bind, follow_concat]
      rw [← Circuit.target_of_feeding hwire]
      cases graph.follow options circuit path value <;> rfl

/-! ## Flowing along routes -/

variable {permitted : Error → Prop} {made taken : String → Value → Prop}
  (hflow : circuit.Flow permitted made taken)
include hflow

/-- The input that one output makes by itself. -/
theorem outcome_arrive {wire : Wire} (hwire : wire ∈ circuit.wires) {output : Value}
    (houtput : made wire.source output) :
    Outcome permitted (taken wire.target) (graph.arrive options output wire) := by
  obtain ⟨hmem, hstart⟩ := h.target_mem hwire
  refine (hflow.contributed wire hwire output houtput).bind fun fields happly _ => ?_
  refine hflow.assembled _ (h.station_mem hmem) hstart [fields] fun other hother => ?_
  obtain rfl := List.mem_singleton.1 hother
  exact ⟨wire, Circuit.mem_incoming.2 ⟨hwire, rfl⟩, output, houtput, happly⟩

/-- What becomes of a value along a route.  It fails only as a step may fail or as
a node fails that is called with an input as it should be. -/
theorem outcome_follow {value : Value}
    (hguard : Outcome permitted (made startKey) (circuit.inputGuard.check value))
    {path : List Wire} {key : String} (hroute : circuit.Route path key) :
    Outcome (fun e => permitted e ∨ ∃ key node input, (key, node) ∈ graph.nodes ∧
        taken key input ∧ node.run input = .error e)
      (made key) (graph.follow options circuit path value) := by
  induction hroute with
  | start =>
    rw [follow_nil]
    exact hguard.imp (fun _ => .inl) fun _ => id
  | @step path wire _ hfeeds ih =>
    rw [follow_concat]
    refine ih.bind fun output _ houtput => ?_
    obtain ⟨hwire, _⟩ := Circuit.mem_incoming.1 (Circuit.mem_incoming_of_mem_feeding hfeeds)
    refine ((h.outcome_arrive hflow hwire houtput).imp (fun _ => .inl) fun _ => id).bind
      fun input _ hinput => ?_
    obtain ⟨hmem, hstart⟩ := h.target_mem hwire
    have hstation := h.station_mem hmem
    cases hrole : graph.role wire.target with
    | start => exact absurd (eq_startKey_of_role hrole) hstart
    | finish => exact hflow.finished _ hstation hrole input hinput
    | work node =>
      show Outcome _ _ (node.run input)
      cases hrun : node.run input with
      | ok output => exact hflow.worked _ hstation node hrole input hinput output hrun
      | error e =>
        have hnode := mem_nodes_of_node? (node?_of_role hrole)
        exact .inr ⟨_, node, input, hnode, hinput, hrun⟩

end Compiled

end Graph

end Dataflow
