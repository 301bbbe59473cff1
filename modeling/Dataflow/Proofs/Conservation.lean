import Dataflow.Proofs.Passage
import Dataflow.Proofs.Shape

/-!
# Streams lose and duplicate nothing

The stream that comes out of a compiled graph whose nodes work chunk by chunk holds what
each value becomes along each route to the end, once, and in the order of the values
along every single route.  When something fails on the way, the stream ends with one
error, and what came before it is the beginning of such a stream.

In which order the results of different routes come out depends on which lanes the
merges poll, and on what has to wait.  Nothing is assumed of that, so what is said here
holds for every merge that polls its lanes one after the other and hands on what they
deliver.

* `Graph.Collects`: chunks that hold every result once.
* `Graph.Compiled.woven_transform`: the stream that comes out is woven from the routes
  to the end.
* `Graph.transform_interleaves`: what comes out of a compiled graph.
-/

namespace Dataflow.Graph

variable {graph : Graph} {options : CompileOptions} {circuit : Circuit}

/-- What comes out at the end, given the routes there: without failures every result
once, in the order of the values along each route, and otherwise beginnings of these
results and then one error. -/
structure Collects (graph : Graph) (options : CompileOptions) (circuit : Circuit)
    (values : List Value) (routes : List (List Wire)) (chunks : List (Chunk Value)) : Prop where
  succeeding : (∀ path ∈ routes, ∀ value ∈ values,
      ∃ result, graph.follow options circuit path value = .ok result) →
    Interleaves (routes.map fun path => values.map (graph.follow options circuit path)) chunks ∧
      chunks.length = values.length * routes.length
  failing : (∃ path ∈ routes, ∃ value ∈ values, ∃ e,
      graph.follow options circuit path value = .error e) →
    ∃ (items : List Value) (e : Error), chunks = items.map .ok ++ [.error e] ∧
      (∃ path ∈ routes, ∃ value ∈ values,
        graph.follow options circuit path value = .error e) ∧
      ∃ prefixes, List.Forall₂ (· <+: ·) prefixes
          (routes.map fun path => values.map (graph.follow options circuit path)) ∧
        Interleaves prefixes (items.map .ok)

theorem along_ok (values : List Value) (path : List Wire) :
    graph.along options circuit (values.map .ok) path =
      values.map (graph.follow options circuit path) := by
  rw [along, List.map_map]
  rfl

theorem collects_of_weaves {values : List Value} {routes : List (List Wire)}
    {chunks : List (Chunk Value)}
    (hweaves : Weaves (routes.map (graph.along options circuit (values.map .ok))) chunks) :
    graph.Collects options circuit values routes chunks := by
  rw [List.map_congr_left fun path _ => along_ok values path] at hweaves
  refine ⟨fun hok => ?_, fun hfailed => ?_⟩
  · have hinterleaves := hweaves.interleaves fun list hlist => by
      obtain ⟨path, hpath, rfl⟩ := List.mem_map.1 hlist
      rw [not_failed_iff]
      intro chunk hchunk
      obtain ⟨value, hvalue, rfl⟩ := List.mem_map.1 hchunk
      obtain ⟨result, hresult⟩ := hok path hpath value hvalue
      rw [hresult]
      rfl
    refine ⟨hinterleaves, ?_⟩
    rw [hinterleaves.perm_flatten.length_eq, List.length_flatten, List.map_map]
    simp [Function.comp_def, Nat.mul_comm]
  · obtain ⟨path, hpath, value, hvalue, e, he⟩ := hfailed
    obtain ⟨items, e, hchunks, ⟨list, hlist, hmem⟩, hprefixes⟩ := hweaves.broken
      ⟨_, List.mem_map_of_mem hpath, _, List.mem_map_of_mem hvalue, by rw [he]; rfl⟩
    obtain ⟨path, hpath, rfl⟩ := List.mem_map.1 hlist
    exact ⟨items, e, hchunks, ⟨path, hpath, List.mem_map.1 hmem⟩, hprefixes⟩

/-- There are no more chunks than values along routes. -/
theorem length_le_of_weaves {input : List (Chunk Value)} {routes : List (List Wire)}
    {chunks : List (Chunk Value)}
    (hweaves : Weaves (routes.map (graph.along options circuit input)) chunks) :
    chunks.length ≤ input.length * routes.length := by
  obtain ⟨merged, hmerged, rfl⟩ := hweaves
  refine (prefix_cut merged).length_le.trans (Nat.le_of_eq ?_)
  rw [hmerged.perm_flatten.length_eq, List.length_flatten, List.map_map]
  simp [Function.comp_def, along, Nat.mul_comm]

theorem Compiled.passes_woven (h : graph.Compiled options circuit) (input : List (Chunk Value)) :
    graph.Passes options circuit (graph.Woven options circuit input) where
  step _ _ hstart _ hfull := h.woven_step hstart hfull
  cut_eq _ _ := by
    rintro ⟨_, _, _, hweaves⟩
    exact hweaves.cut_eq

/-- A compiled graph turns a stream into one that is woven from the routes to the end. -/
theorem Compiled.woven_transform (h : graph.Compiled options circuit)
    (hdefault : ∀ entry ∈ graph.nodes, entry.2.transducer = .perChunk entry.2.run)
    (input : List (Chunk Value)) :
    ∃ stream, circuit.transform input = .ok stream ∧
      stream.Gives (graph.Woven options circuit input endKey) := by
  obtain ⟨stream, hstream, hgives, _⟩ :=
    h.exists_stream_of_carried (h.passes_woven input) hdefault (h.woven_start input)
  exact ⟨stream, hstream, hgives⟩

/-- Streams lose and duplicate nothing.  When all nodes of a compiled graph work chunk by
chunk, a stream of values comes out as an interleaving of what they become along each
route to the end, every result once.  When a value fails along a route, the stream ends
with one such error, and what comes before it interleaves the beginnings of those
results.  This holds however the merges choose among their lanes and whatever has to
wait.  The stream ends when it is drained, and at the latest when it was polled in more
prompt moments than there are results, with any moments between them. -/
theorem transform_interleaves {input output : Ty} {declarations : List Declaration}
    (hgraph : declared input output declarations = graph)
    (h : graph.compile options = .ok circuit)
    (hdefault : ∀ entry ∈ graph.nodes, entry.2.transducer = .perChunk entry.2.run)
    (values : List Value) :
    ∃ stream, circuit.transform (values.map .ok) = .ok stream ∧
      ∃ routes : List (List Wire), routes.Nodup ∧
        (∀ path, path ∈ routes ↔ circuit.Route path endKey) ∧
        stream.Gives (graph.Collects options circuit values routes) ∧
        ∀ moments prompt : List Moment, prompt.Sublist moments → (∀ m ∈ prompt, m.Prompt) →
          values.length * routes.length < prompt.length → .ended ∈ stream.answers moments := by
  have hcompiled := compiled_of_compile (hgraph ▸ wellFormed_declared input output declarations) h
  obtain ⟨stream, hstream, hgives⟩ := hcompiled.woven_transform hdefault (values.map .ok)
  obtain ⟨⟨routes, hnodup, hroutes, _⟩, _⟩ := hgives.drained
  -- the routes are the same for all that may come out, up to their order
  have hwoven : ∀ full, graph.Woven options circuit (values.map .ok) endKey full →
      Weaves (routes.map (graph.along options circuit (values.map .ok))) full := by
    rintro full ⟨others, hothers, hmem, merged, hmerged, rfl⟩
    have hperm : others.Perm routes := (List.perm_ext_iff_of_nodup hothers hnodup).2 fun path =>
      (hmem path).trans (hroutes path).symm
    exact ⟨merged, hmerged.perm (hperm.map _), rfl⟩
  refine ⟨stream, hstream, routes, hnodup, hroutes,
    hgives.imp fun full hfull => collects_of_weaves (hwoven full hfull),
    fun moments prompt hsub hprompt hlength => ?_⟩
  refine hgives.ended_of_prompt (fun full hfull => ?_) hsub hprompt hlength
  simpa using length_le_of_weaves (hwoven full hfull)

/-! ## Two routes -/

/-- A map without one. -/
def unnamed : Value := .map .string .any []

/-- Why a map without a name has no label. -/
def nameless : Error := .access ⟨.keyNotFound, some "key=name, type=Map<String, Any>"⟩

/-- The list that becomes of a name. -/
def listed (name : String) : Value := .list .string [.string name]

/-- Two routes lead to the end, and a name becomes a list with the name along both. -/
theorem exists_routes_joining :
    ∃ circuit first second, joining.compile {} = .ok circuit ∧ first ≠ second ∧
      (∀ path, circuit.Route path endKey ↔ path = first ∨ path = second) ∧
      ∀ path ∈ [first, second],
        joining.follow {} circuit path (named "a") = .ok (listed "a") ∧
        joining.follow {} circuit path (named "b") = .ok (listed "b") ∧
        joining.follow {} circuit path unnamed = .error nameless := by
  have hfound : (joining.compile {}).map (fun c =>
      ((c.feeding endKey).map (·.source), (c.feeding "label").map (·.source),
        (c.feeding "single").map (·.source),
        [c.feeding "label" ++ (c.feeding endKey).take 1,
          c.feeding "single" ++ (c.feeding endKey).drop 1].map fun path =>
            (joining.follow {} c path (named "a"), joining.follow {} c path (named "b"),
              joining.follow {} c path unnamed))) =
      .ok (["label", "single"], [startKey], [startKey],
        [(.ok (listed "a"), .ok (listed "b"), .error nameless),
          (.ok (listed "a"), .ok (listed "b"), .error nameless)]) := by cbv
  obtain ⟨circuit, h, hfound⟩ := map_eq_ok hfound
  have hcompiled : joining.Compiled {} circuit :=
    compiled_of_compile (wellFormed_declared (.map .string .any) (.list .string) _) h
  simp only [Prod.mk.injEq] at hfound
  obtain ⟨hend, hlabel, hsingle, hfollow⟩ := hfound
  obtain ⟨fromLabel, last, hend, hfromLabel, hlast⟩ := List.map_eq_cons_iff.1 hend
  obtain ⟨fromSingle, rfl, hfromSingle⟩ := List.map_eq_singleton_iff.1 hlast
  obtain ⟨toLabel, hlabel, htoLabel⟩ := List.map_eq_singleton_iff.1 hlabel
  obtain ⟨toSingle, hsingle, htoSingle⟩ := List.map_eq_singleton_iff.1 hsingle
  rw [hend, hlabel, hsingle] at hfollow
  refine ⟨circuit, [toLabel, fromLabel], [toSingle, fromSingle], h, ?_, fun path => ?_, ?_⟩
  · intro heq
    have hsame := (List.cons.inj (List.cons.inj heq).2).1
    rw [hsame, hfromSingle] at hfromLabel
    exact absurd hfromLabel (by decide)
  · have hone : ∀ {key wire}, key ≠ startKey → circuit.feeding key = [wire] →
        wire.source = startKey → ∀ before, circuit.Route before key ↔ before = [wire] := by
      intro key wire hstart hfeeding hsource before
      rw [Circuit.route_iff hstart, hfeeding]
      simp [hsource, hcompiled.route_startKey, eq_comm]
    rw [Circuit.route_iff (by decide), hend]
    simp [hfromLabel, hfromSingle, hone (by decide) hlabel htoLabel,
      hone (by decide) hsingle htoSingle, eq_comm]
  · simpa using hfollow

/-- What becomes of two names along both routes. -/
def listedTwice : List (List (Chunk Value)) :=
  .replicate 2 [.ok (listed "a"), .ok (listed "b")]

/-- What becomes of a name, and of a map without one, along both routes. -/
def brokenTwice : List (List (Chunk Value)) :=
  .replicate 2 [.ok (listed "a"), .error nameless]

/-- When the same becomes of some values along two routes, it is found twice. -/
theorem follow_eq_replicate (graph : Graph) (options : CompileOptions) (circuit : Circuit)
    {routes : List (List Wire)} {first second : List Wire} (hperm : routes.Perm [first, second])
    (values : List Value) (list : List (Chunk Value))
    (hlist : ∀ path ∈ [first, second], values.map (graph.follow options circuit path) = list) :
    (routes.map fun path => values.map (graph.follow options circuit path)) =
      .replicate 2 list := by
  rw [List.eq_replicate_iff, List.length_map, hperm.length_eq]
  refine ⟨rfl, fun other hother => ?_⟩
  obtain ⟨path, hpath, rfl⟩ := List.mem_map.1 hother
  exact hlist path (hperm.mem_iff.1 hpath)

/-- The routes to the end, when there are two. -/
theorem perm_routes {routes : List (List Wire)} {first second : List Wire} (hne : first ≠ second)
    (hroute : ∀ path, circuit.Route path endKey ↔ path = first ∨ path = second)
    (hnodup : routes.Nodup) (hmem : ∀ path, path ∈ routes ↔ circuit.Route path endKey) :
    routes.Perm [first, second] := by
  refine (List.perm_ext_iff_of_nodup hnodup (by simpa using hne)).2 fun path => ?_
  rw [hmem, hroute]
  simp

/-- Two names come out twice each.  A map without a name ends the stream with the error
that it makes along the routes. -/
theorem joining_transform :
    ∃ circuit first second, joining.compile {} = .ok circuit ∧ first ≠ second ∧
      (∀ path, circuit.Route path endKey ↔ path = first ∨ path = second) ∧
      (∃ stream, circuit.transform [.ok (named "a"), .ok (named "b")] = .ok stream ∧
        Interleaves listedTwice stream.drain ∧ stream.drain.length = 4 ∧
        ∀ moments, .ended ∈ stream.answers moments →
          Interleaves listedTwice (stream.received moments)) ∧
      ∃ stream, circuit.transform [.ok (named "a"), .ok unnamed] = .ok stream ∧
        ∃ items : List Value, stream.drain = items.map .ok ++ [.error nameless] ∧
          ∃ prefixes, List.Forall₂ (· <+: ·) prefixes brokenTwice ∧
            Interleaves prefixes (items.map .ok) := by
  obtain ⟨circuit, first, second, h, hne, hroute, hfollow⟩ := exists_routes_joining
  refine ⟨circuit, first, second, h, hne, hroute, ?_, ?_⟩
  · obtain ⟨stream, hstream, routes, hnodup, hmem, hgives, _⟩ :=
      transform_interleaves (rfl : _ = joining) h perChunk_of_mem_joining [named "a", named "b"]
    have hperm := perm_routes hne hroute hnodup hmem
    have hlists := follow_eq_replicate joining {} circuit hperm [named "a", named "b"]
      [.ok (listed "a"), .ok (listed "b")] fun path hpath => by simp [hfollow path hpath]
    have hok : ∀ path ∈ routes, ∀ value ∈ [named "a", named "b"],
        ∃ result, joining.follow {} circuit path value = .ok result := by
      intro path hpath value hvalue
      obtain ⟨ha, hb, _⟩ := hfollow path (hperm.mem_iff.1 hpath)
      simp only [List.mem_cons, List.not_mem_nil, or_false] at hvalue
      rcases hvalue with rfl | rfl
      · exact ⟨_, ha⟩
      · exact ⟨_, hb⟩
    have hcomplete : ∀ {chunks}, joining.Collects {} circuit [named "a", named "b"] routes chunks →
        Interleaves listedTwice chunks ∧ chunks.length = 4 := by
      intro chunks hcollects
      have hsucceeding := hcollects.succeeding hok
      rwa [hlists, hperm.length_eq] at hsucceeding
    obtain ⟨hinterleaves, hlength⟩ := hcomplete hgives.drained.1
    exact ⟨stream, hstream, hinterleaves, hlength,
      fun moments hended => (hcomplete (hgives.ended moments hended)).1⟩
  · obtain ⟨stream, hstream, routes, hnodup, hmem, hgives, _⟩ :=
      transform_interleaves (rfl : _ = joining) h perChunk_of_mem_joining [named "a", unnamed]
    have hperm := perm_routes hne hroute hnodup hmem
    have hlists := follow_eq_replicate joining {} circuit hperm [named "a", unnamed]
      [.ok (listed "a"), .error nameless] fun path hpath => by simp [hfollow path hpath]
    obtain ⟨items, e, hdrain, ⟨path, hpath, value, hvalue, he⟩, hprefixes⟩ :=
      hgives.drained.1.failing ⟨first, hperm.mem_iff.2 (by simp), unnamed, by simp, nameless,
        (hfollow first (by simp)).2.2⟩
    obtain ⟨ha, _, hunnamed⟩ := hfollow path (hperm.mem_iff.1 hpath)
    obtain rfl : e = nameless := by
      simp only [List.mem_cons, List.not_mem_nil, or_false] at hvalue
      rcases hvalue with rfl | rfl
      · exact nomatch ha.symm.trans he
      · exact (Except.error.inj (hunnamed.symm.trans he)).symm
    rw [hlists] at hprefixes
    exact ⟨stream, hstream, items, hdrain, hprefixes⟩

end Dataflow.Graph
