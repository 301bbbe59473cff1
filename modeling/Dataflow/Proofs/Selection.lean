import Dataflow.Node.Stock
import Dataflow.Proofs.SingleFed

/-!
# Selected predecessors

When nodes run on the output of their earliest predecessor alone, one wire feeds each
station, and one route leads to the end.  Streams follow that route.  Runs follow it
too, but they also go through the stations beside it, whose outputs nothing that is
on the route reads.  So a stream hands out what a run makes of a value unless the run
fails beside the route, which the stream does not notice.

* `Graph.Compiled.earliestFed`: each station is fed by its earliest predecessor.
* `Graph.selected_transform_eq_invoke`: streams and runs agree where runs do not fail
  beside the route.
* `Graph.auditing_transform_ne`: a run that fails beside the route.
-/

namespace Dataflow

/-- One wire feeds a station, and no predecessor comes before the one at its other
end. -/
def Circuit.EarliestFed (circuit : Circuit) (key : String) : Prop :=
  ∃ wire, circuit.feeding key = [wire] ∧ ∀ other ∈ circuit.incoming key,
    circuit.order.idxOf wire.source ≤ circuit.order.idxOf other.source

/-- A route goes on with the wire that feeds the next station. -/
theorem Circuit.Route.extend {circuit : Circuit} {path : List Wire} {source key : String}
    (hroute : circuit.Route path source)
    (hsource : (circuit.feeding key).map (·.source) = [source]) :
    circuit.Route (path ++ circuit.feeding key) key := by
  obtain ⟨wire, hfeeding, rfl⟩ := List.map_eq_singleton_iff.1 hsource
  have hfeeds : wire ∈ circuit.feeding key := by simp [hfeeding]
  obtain rfl := Circuit.target_of_feeding hfeeds
  rw [hfeeding]
  exact .step hroute hfeeds

namespace Graph

variable {graph : Graph} {options : CompileOptions} {circuit : Circuit}

namespace Compiled

variable (h : graph.Compiled options circuit) (htrigger : options.trigger = .anyPredecessor)
include h htrigger

/-- Each station but the start is fed by its earliest predecessor. -/
theorem earliestFed {key : String} (hkey : key ∈ graph.keys) (hstart : key ≠ startKey) :
    circuit.EarliestFed key := by
  have hfeeding : circuit.feeding key = (circuit.order.findSome? fun k =>
      (circuit.incoming key).find? (·.source = k)).toList := by
    rw [Circuit.feeding, h.options_eq, htrigger]
  obtain ⟨wire, hwire⟩ : ∃ wire, (circuit.order.findSome? fun k =>
      (circuit.incoming key).find? (·.source = k)) = some wire :=
    Option.ne_none_iff_exists'.1 fun hnone =>
      h.feeding_ne hkey hstart (by rw [hfeeding, hnone]; rfl)
  rw [hwire, Option.toList_some] at hfeeding
  obtain ⟨before, source, after, hsplit, hfind, hnone⟩ := List.findSome?_eq_some_iff.1 hwire
  have hbefore : ∀ other ∈ circuit.incoming key, other.source ∉ before := by
    intro other hother hmem
    have hne := List.find?_eq_none.1 (hnone other.source hmem) other hother
    exact hne (decide_eq_true rfl)
  have hsource := List.find?_some hfind
  obtain rfl : wire.source = source := of_decide_eq_true hsource
  refine ⟨wire, hfeeding, fun other hother => ?_⟩
  rw [hsplit, List.idxOf_append_of_notMem (hbefore other hother),
    List.idxOf_append_of_notMem (hbefore wire (List.mem_of_find?_eq_some hfind)),
    List.idxOf_cons_self]
  exact Nat.le_add_right _ _

theorem singleFed_of_anyPredecessor : graph.SingleFed circuit := by
  intro key hkey hstart
  obtain ⟨wire, hfeeding, _⟩ := h.earliestFed htrigger hkey hstart
  exact ⟨wire, hfeeding⟩

end Compiled

/-- Streams and runs agree unless runs fail beside the route.  When nodes run on the
output of their earliest predecessor alone and all work chunk by chunk, there is one
route to the end, a stream of chunks comes out as what becomes of each of them along
it, up to the first error, and that is what a run makes of it unless the run fails at a
station beside the route.  That holds in whatever moments the stream is polled. -/
theorem selected_transform_eq_invoke {input output : Ty} {declarations : List Declaration}
    (hgraph : declared input output declarations = graph)
    (h : graph.compile options = .ok circuit) (htrigger : options.trigger = .anyPredecessor)
    (hdefault : ∀ entry ∈ graph.nodes, entry.2.transducer = .perChunk entry.2.run) :
    (∀ key ∈ graph.keys, key ≠ startKey → circuit.EarliestFed key) ∧
    ∃ path, circuit.Route path endKey ∧ (∀ other, circuit.Route other endKey → other = path) ∧
      (∀ value, (circuit.FailsOnlyOn path value ∧
          circuit.invoke value = graph.follow options circuit path value) ∨
        ∃ key e, key ∉ startKey :: path.map (·.target) ∧
          circuit.failure? value = some (key, e) ∧ circuit.invoke value = .error e) ∧
      ∀ chunks, ∃ stream, circuit.transform chunks = .ok stream ∧
        stream.drain =
          cut (chunks.map fun chunk => chunk.bind (graph.follow options circuit path)) ∧
        (stream.list none).ended = true ∧
        stream.Gives
          (· = cut (chunks.map fun chunk => chunk.bind (graph.follow options circuit path))) ∧
        ((∀ value, .ok value ∈ chunks → circuit.FailsOnlyOn path value) →
          stream.drain = cut (chunks.map fun chunk => chunk.bind circuit.invoke) ∧
          stream.Gives (· = cut (chunks.map fun chunk => chunk.bind circuit.invoke))) := by
  have hcompiled := compiled_of_compile (hgraph ▸ wellFormed_declared input output declarations) h
  have hfed := hcompiled.singleFed_of_anyPredecessor htrigger
  have hend : endKey ∈ graph.keys := by simp [keys]
  obtain ⟨path, hpath⟩ := hcompiled.exists_route hfed hend
  have hinvoke : ∀ value, circuit.FailsOnlyOn path value →
      circuit.invoke value = graph.follow options circuit path value :=
    fun value hfails => hcompiled.invoke_eq_follow_of_failsOnlyOn hfed hpath hfails
  refine ⟨fun key hkey hstart => hcompiled.earliestFed htrigger hkey hstart, path, hpath,
    fun other hother => hcompiled.route_unique hfed hother hpath, fun value => ?_,
    fun chunks => ?_⟩
  · by_cases hfails : circuit.FailsOnlyOn path value
    · exact .inl ⟨hfails, hinvoke value hfails⟩
    · exact .inr (Circuit.exists_failure_of_not_failsOnlyOn hfails)
  · obtain ⟨stream, hstream, hgives⟩ :=
      hcompiled.exists_stream_along hfed hpath hdefault chunks
    refine ⟨stream, hstream, hgives.drained.1, hgives.drained.2, hgives, fun hfails => ?_⟩
    have hsame : (chunks.map fun chunk => chunk.bind (graph.follow options circuit path)) =
        chunks.map fun chunk => chunk.bind circuit.invoke := by
      refine List.map_congr_left fun chunk hchunk => ?_
      cases chunk with
      | error e => rfl
      | ok value => exact (hinvoke value (hfails value hchunk)).symm
    rw [← hsame]
    exact ⟨hgives.drained.1, hgives⟩

/-! ## A failure beside the route -/

/-- Accepts all numbers but three, and has them audited beside, where one is rejected. -/
def auditing : Graph :=
  declared .int .int
    [.node "audit" (.failOn "audit" .int .int (.int 1)),
      .node "accept" (.failOn "accept" .int .int (.int 3)),
      .edge startKey "audit", .edge startKey "accept", .edge "audit" endKey, .edge "accept" endKey]

theorem perChunk_of_mem_auditing :
    ∀ entry ∈ auditing.nodes, entry.2.transducer = .perChunk entry.2.run := by
  intro entry hentry
  have hmem := mem_declarations_of_mem_nodes hentry
  simp only [List.mem_cons, Declaration.node.injEq, reduceCtorEq, List.not_mem_nil, or_false] at hmem
  rcases hmem with ⟨_, hnode⟩ | ⟨_, hnode⟩ <;> rw [hnode] <;> rfl

/-- The options under which nodes run on the output of their earliest predecessor. -/
def selecting : CompileOptions := { trigger := .anyPredecessor }

/-- The end is fed by the node that accepts, because that one comes first. -/
theorem exists_compile_auditing :
    ∃ circuit path, auditing.compile selecting = .ok circuit ∧ circuit.Route path endKey ∧
      path.map (·.target) = ["accept", endKey] ∧
      auditing.follow selecting circuit path (.int 1) = .ok (.int 1) ∧
      circuit.invoke (.int 1) = .error (.node "audit" "rejected") ∧
      circuit.failure? (.int 2) = none ∧ circuit.invoke (.int 2) = .ok (.int 2) ∧
      circuit.failure? (.int 3) = some ("accept", .node "accept" "rejected") := by
  have hfound : (auditing.compile selecting).map (fun c =>
      let path := c.feeding "accept" ++ c.feeding endKey
      ((c.feeding "accept").map (·.source), (c.feeding endKey).map (·.source),
        path.map (·.target), auditing.follow selecting c path (.int 1), c.invoke (.int 1),
        c.failure? (.int 2), c.invoke (.int 2), c.failure? (.int 3))) =
      .ok ([startKey], ["accept"], ["accept", endKey], .ok (.int 1),
        .error (.node "audit" "rejected"), none, .ok (.int 2),
        some ("accept", .node "accept" "rejected")) := by cbv
  obtain ⟨circuit, h, hfound⟩ := map_eq_ok hfound
  simp only [Prod.mk.injEq] at hfound
  obtain ⟨haccept, hend, hfound⟩ := hfound
  exact ⟨circuit, _, h, (Circuit.Route.start.extend haccept).extend hend, hfound⟩

/-- A run on one fails in the audit, and the stream hands it out. -/
theorem auditing_transform_ne :
    ∃ circuit, auditing.compile selecting = .ok circuit ∧
      (∀ entry ∈ auditing.nodes, entry.2.transducer = .perChunk entry.2.run) ∧
      circuit.invoke (.int 1) = .error (.node "audit" "rejected") ∧
      ∃ stream, circuit.transform [.ok (.int 1)] = .ok stream ∧ stream.drain = [.ok (.int 1)] ∧
        stream.drain ≠ cut ([(.ok (.int 1) : Chunk Value)].map fun chunk =>
          chunk.bind circuit.invoke) := by
  obtain ⟨circuit, path, h, hpath, _, hfollow, hinvoke, _⟩ := exists_compile_auditing
  have hcompiled : auditing.Compiled selecting circuit :=
    compiled_of_compile (wellFormed_declared .int .int _) h
  obtain ⟨stream, hstream, hgives⟩ := hcompiled.exists_stream_along
    (hcompiled.singleFed_of_anyPredecessor rfl) hpath perChunk_of_mem_auditing [.ok (.int 1)]
  have haccepted : stream.drain = [.ok (.int 1)] := by
    rw [hgives.drained.1, upTo, List.map_singleton, Except.bind, hfollow]
    rfl
  refine ⟨circuit, h, perChunk_of_mem_auditing, hinvoke, stream, hstream, haccepted, ?_⟩
  rw [haccepted, List.map_singleton, Except.bind, hinvoke, cut]
  intro heq
  cases heq

/-- Two passes, three fails on the route, and nothing comes out behind it. -/
theorem auditing_selected :
    ∃ circuit, auditing.compile selecting = .ok circuit ∧
      ∃ stream, circuit.transform [.ok (.int 2), .ok (.int 3), .ok (.int 2)] = .ok stream ∧
        stream.drain = [.ok (.int 2), .error (.node "accept" "rejected")] := by
  obtain ⟨circuit, path, h, hpath, htargets, _, _, hnone, htwo, hthree⟩ := exists_compile_auditing
  obtain ⟨_, only, _, honly, _, hstreams⟩ :=
    selected_transform_eq_invoke rfl h rfl perChunk_of_mem_auditing
  obtain rfl := honly path hpath
  obtain ⟨stream, hstream, _, _, _, hagree⟩ :=
    hstreams [.ok (.int 2), .ok (.int 3), .ok (.int 2)]
  have hpasses : circuit.FailsOnlyOn path (.int 2) := fun key e hfailed =>
    absurd (hnone.symm.trans hfailed) (Option.some_ne_none _).symm
  have hfails : circuit.FailsOnlyOn path (.int 3) := by
    intro key e hfailed
    rw [hthree, Option.some.injEq, Prod.mk.injEq] at hfailed
    rw [htargets, ← hfailed.1]
    simp
  refine ⟨circuit, h, stream, hstream, (hagree fun value hvalue => ?_).1.trans ?_⟩
  · simp only [List.mem_cons, Except.ok.injEq, List.not_mem_nil, or_false] at hvalue
    rcases hvalue with rfl | rfl | rfl
    · exact hpasses
    · exact hfails
    · exact hpasses
  · simp only [List.map_cons, Except.bind, htwo, Circuit.invoke_of_failure? hthree, cut]

end Graph

end Dataflow
