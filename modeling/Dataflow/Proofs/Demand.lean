import Dataflow.Node.Stock
import Dataflow.Proofs.Passage
import Mathlib.Data.List.Permutation

/-!
# Streams on demand

A circuit takes nothing off its input before something is asked of its output, and then
one chunk for each that comes out.  A chunk is taken by the poll that needs it.  It may
come out in a later one, when a node is at work on it, so there can be one chunk that was
taken and has not come out yet, and there is never a second.

* `Graph.Compiled.passes_filled`: without an error, a chunk comes out for each that went in.
* `Graph.transform_on_demand`: what a compiled graph takes off its input.
* `Graph.passing_taken_ahead`: a chunk that a node is at work on.
-/

namespace Dataflow

/-- There is an error, or there are as many chunks as given. -/
def Filled {α : Type} (count : Nat) (chunks : List (Chunk α)) : Prop :=
  Failed chunks ∨ count ≤ chunks.length

theorem Filled.upTo {α β : Type} {count : Nat} {chunks : List (Chunk α)}
    (h : Filled count chunks) (f : α → Except Error β) : Filled count (upTo f chunks) := by
  by_cases hfailed : Failed (Dataflow.upTo f chunks)
  · exact .inl hfailed
  · refine .inr ?_
    rw [length_upTo hfailed]
    exact h.resolve_left fun h => hfailed (failed_upTo h f)

/-- Merging lists adds to each of them. -/
theorem Filled.interleaves {α : Type} {count : Nat} {lists : List (List (Chunk α))}
    {list merged : List (Chunk α)} (h : Filled count list) (hlist : list ∈ lists)
    (hmerged : Interleaves lists merged) : Filled count merged := by
  have hsub : list.Sublist lists.flatten := List.sublist_flatten_of_mem hlist
  have hperm := hmerged.perm_flatten
  rcases h with hfailed | hle
  · exact .inl (hfailed.mono fun chunk hchunk => hperm.mem_iff.2 (hsub.subset hchunk))
  · exact .inr (Nat.le_trans hle (hperm.length_eq ▸ hsub.length_le))

namespace Graph

variable {graph : Graph} {options : CompileOptions} {circuit : Circuit}

/-- A station hands on a chunk for each that it is given, up to an error. -/
theorem Compiled.passes_filled (h : graph.Compiled options circuit) (count : Nat) :
    graph.Passes options circuit fun _ chunks => cut chunks = chunks ∧ Filled count chunks where
  cut_eq _ _ hfull := hfull.1
  step := by
    rintro key hkey hstart _ ⟨_, ⟨merged, ⟨streams, hstreams, hmerged⟩, rfl⟩, rfl⟩
    obtain ⟨wire, hwire⟩ := List.exists_mem_of_ne_nil _ (h.feeding_ne hkey hstart)
    have hlane := ((hstreams wire hwire).2.upTo wire.apply).interleaves
      (List.mem_map.2 ⟨wire, hwire, rfl⟩) hmerged
    exact ⟨cut_upTo _ _, (hlane.upTo _).upTo _⟩

/-- Streams are pulled on demand.  When all nodes of a compiled graph work chunk by
chunk, setting up the stream takes nothing off the input.  Whenever the output is polled,
at most one chunk more was taken than was received, and no more than were received when
the last poll had an answer.  When no more were taken than received, it stays so as long
as no node is found at work. -/
theorem transform_on_demand {input output : Ty} {declarations : List Declaration}
    (hgraph : declared input output declarations = graph)
    (h : graph.compile options = .ok circuit)
    (hdefault : ∀ entry ∈ graph.nodes, entry.2.transducer = .perChunk entry.2.run)
    (chunks : List (Chunk Value)) :
    ∃ stream, circuit.transform chunks = .ok stream ∧ stream.pulled = 0 ∧
      ∀ moments : List Moment,
        (stream.after moments).pulled ≤ (stream.received moments).length + 1 ∧
        (∀ m, ¬(stream.after moments).Waits m →
          (stream.after (moments ++ [m])).pulled ≤ (stream.received (moments ++ [m])).length) ∧
        ∀ later, (stream.after moments).pulled ≤ (stream.received moments).length →
          (∀ m ∈ later, m.AllFinished) →
            (stream.after (moments ++ later)).pulled ≤
              (stream.received (moments ++ later)).length := by
  have hcompiled := compiled_of_compile (hgraph ▸ wellFormed_declared input output declarations) h
  have hstart : Filled chunks.length chunks := .inr (Nat.le_refl _)
  obtain ⟨stream, hstream, hgives, hpaces, hzero⟩ := hcompiled.exists_stream_of_carried
    (hcompiled.passes_filled chunks.length) hdefault ⟨cut_upTo _ _, hstart.upTo _⟩
  refine ⟨stream, hstream, hzero, fun moments =>
    ⟨hpaces.ahead moments, fun m hanswer => ?_, hpaces.finished moments⟩⟩
  by_cases hmore : stream.received (moments ++ [m]) = stream.received moments
  · -- the stream has ended, so it has delivered an error or a chunk for each of the input
    rcases (hgives.ended _ (Stream.ended_of_not_waits hanswer hmore)).2 with hfailed | hfilled
    · exact hpaces.failed _ hfailed
    · exact Nat.le_trans (hpaces.total _) hfilled
  · exact hpaces.delivered moments m hmore

/-! ## A node that takes its time -/

/-- Hands numbers on. -/
def passing : Graph :=
  declared .int .int [.node "pass" (.pass .int), .edge startKey "pass", .edge "pass" endKey]

theorem perChunk_of_mem_passing :
    ∀ entry ∈ passing.nodes, entry.2.transducer = .perChunk entry.2.run := by
  intro entry hentry
  have hmem := mem_declarations_of_mem_nodes hentry
  simp only [List.mem_cons, Declaration.node.injEq, reduceCtorEq, List.not_mem_nil, or_false] at hmem
  rw [hmem.2]
  rfl

/-- The node is at work. -/
def atWork : Moment := { finished := fun key _ => key ≠ "pass" }

/-- While the node is at work on the first chunk, that chunk was taken and none was
received. -/
theorem passing_taken_ahead :
    ∃ circuit, passing.compile {} = .ok circuit ∧
      (∀ entry ∈ passing.nodes, entry.2.transducer = .perChunk entry.2.run) ∧
      ∃ stream, circuit.transform [.ok (.int 1)] = .ok stream ∧
        stream.received [atWork] = [] ∧ (stream.after [atWork]).pulled = 1 ∧
        ¬∀ moments, (stream.after moments).pulled ≤ (stream.received moments).length := by
  have hfound : (passing.compile {}).map (fun c => (c.transform [.ok (.int 1)]).map fun stream =>
      (stream.received [atWork], (stream.after [atWork]).pulled)) = .ok (.ok ([], 1)) := by cbv
  obtain ⟨circuit, h, hfound⟩ := map_eq_ok hfound
  have hcompiled : passing.Compiled {} circuit :=
    compiled_of_compile (wellFormed_declared .int .int _) h
  obtain ⟨stream, hstream⟩ := hcompiled.transform_eq_ok [.ok (.int 1)]
  rw [hstream] at hfound
  obtain ⟨hreceived, hpulled⟩ := Prod.mk.inj (Except.ok.inj hfound)
  refine ⟨circuit, h, perChunk_of_mem_passing, stream, hstream, hreceived, hpulled, fun hall => ?_⟩
  have := hall [atWork]
  rw [hreceived, hpulled] at this
  exact absurd this (by decide)

/-- The chunk that was taken comes out when the node is through, and only then is the next
one taken. -/
theorem passing_on_demand :
    ∃ circuit, passing.compile {} = .ok circuit ∧
      ∃ stream, circuit.transform [.ok (.int 1), .error (.node "" "broken"), .ok .null] =
          .ok stream ∧ stream.pulled = 0 ∧
        stream.received [atWork, .calm] = [.ok (.int 1)] ∧
        (stream.after [atWork, .calm]).pulled = 1 ∧
        (∀ moments, (stream.after moments).pulled ≤ (stream.received moments).length + 1) ∧
        ∀ later : List Moment, (∀ m ∈ later, m.AllFinished) →
          (stream.after (atWork :: .calm :: later)).pulled ≤
            (stream.received (atWork :: .calm :: later)).length := by
  have hfound : (passing.compile {}).map (fun c => (c.transform
      [.ok (.int 1), .error (.node "" "broken"), .ok .null]).map fun stream =>
        (stream.received [atWork, .calm], (stream.after [atWork, .calm]).pulled)) =
      .ok (.ok ([.ok (.int 1)], 1)) := by cbv
  obtain ⟨circuit, h, hfound⟩ := map_eq_ok hfound
  obtain ⟨stream, hstream, hzero, hmoments⟩ := transform_on_demand (rfl : _ = passing) h
    perChunk_of_mem_passing [.ok (.int 1), .error (.node "" "broken"), .ok .null]
  rw [hstream] at hfound
  obtain ⟨hreceived, hpulled⟩ := Prod.mk.inj (Except.ok.inj hfound)
  refine ⟨circuit, h, stream, hstream, hzero, hreceived, hpulled,
    fun moments => (hmoments moments).1, fun later hfinished => ?_⟩
  refine (hmoments [atWork, .calm]).2.2 later (Nat.le_of_eq ?_) hfinished
  rw [hreceived, hpulled]
  rfl

end Graph

end Dataflow
