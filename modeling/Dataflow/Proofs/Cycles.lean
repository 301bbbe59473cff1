import Dataflow.Proofs.Compiled

/-!
# Cycles

A graph that cannot be put in order has a cycle, and one that can has none: along its
edges keys come later and later.

* `Graph.outcome_compile`: why a graph does not compile.
* `Graph.acyclic_of_executionOrder`: a graph that can be ordered has no cycle.
-/

namespace Dataflow

namespace Graph

variable {graph : Graph} {options : CompileOptions}

/-- A graph that cannot be ordered has a cycle through the key that is reported. -/
theorem cycle_of_executionOrder (hgraph : graph.WellFormed) {e : Error}
    (h : graph.executionOrder options = .error e) :
    ∃ key, e = .structural (.cycle key) ∧ Relation.TransGen graph.Leads key key := by
  unfold executionOrder at h
  cases hsort : options.sorter.sort (fun key => (graph.outgoing key).map (·.target))
      (fun key => (graph.incoming key).map (·.source)) graph.keys with
  | ok order =>
    rw [hsort] at h
    exact nomatch h
  | error key =>
    rw [hsort] at h
    obtain rfl := Except.error.inj h
    have hleads : ∀ k next, next ∈ (graph.outgoing k).map (·.target) → graph.Leads k next := by
      intro k next hnext
      obtain ⟨edge, hedge, htarget⟩ := List.mem_map.1 hnext
      obtain ⟨hmem, hsource⟩ := List.mem_filter.1 hedge
      exact ⟨edge, hmem, of_decide_eq_true hsource, htarget⟩
    refine ⟨key, rfl, Relation.TransGen.mono hleads _ _
      (options.sorter.cyclic hgraph.keys ?_ ?_ hsort)⟩
    · intro k next hnext
      obtain ⟨edge, hedge, rfl, rfl⟩ := hleads k next hnext
      exact ⟨hgraph.source_mem edge hedge, hgraph.target_mem edge hedge⟩
    · intro k p hp
      obtain ⟨edge, hedge, rfl⟩ := List.mem_map.1 hp
      obtain ⟨hmem, htarget⟩ := List.mem_filter.1 hedge
      exact List.mem_map.2 ⟨edge, List.mem_filter.2 ⟨hmem, by simp⟩, of_decide_eq_true htarget⟩

/-- A well-formed graph does not compile because of a cycle, because of the edges of a
node, or because of the types along an edge, which are looked at last. -/
theorem outcome_compile (hgraph : graph.WellFormed) (options : CompileOptions) :
    Outcome
      (fun e => (∃ key, Relation.TransGen graph.Leads key key ∧ e = .structural (.cycle key)) ∨
        (∃ key ∈ graph.keys, ∃ fault, graph.nodeFault? options key = some fault ∧
          e = .structural fault) ∨
        (∃ order, graph.executionOrder options = .ok order) ∧
          graph.keys.forM (graph.checkNode options) = .ok () ∧
          ∃ edge ∈ graph.edges, graph.wire edge = .error e)
      (fun _ => True) (graph.compile options) := by
  have horder : Outcome
      (fun e => ∃ key, Relation.TransGen graph.Leads key key ∧ e = .structural (.cycle key))
      (fun _ => True) (graph.executionOrder options) := by
    cases h : graph.executionOrder options with
    | ok order => trivial
    | error e =>
      obtain ⟨key, rfl, hcycle⟩ := cycle_of_executionOrder hgraph h
      exact ⟨key, hcycle, rfl⟩
  have hnodes : Outcome
      (fun e => ∃ key ∈ graph.keys, ∃ fault, graph.nodeFault? options key = some fault ∧
        e = .structural fault)
      (fun _ => True) (graph.keys.forM (graph.checkNode options)) := by
    refine outcome_forM fun key hkey => ?_
    unfold checkNode
    cases hfault : graph.nodeFault? options key with
    | none => trivial
    | some fault => exact ⟨key, hkey, fault, hfault, rfl⟩
  have hwires : Outcome (fun e => ∃ edge ∈ graph.edges, graph.wire edge = .error e)
      (fun _ => True) (graph.edges.mapM graph.wire) := by
    have hwire : ∀ edge ∈ graph.edges, Outcome
        (fun e => ∃ edge ∈ graph.edges, graph.wire edge = .error e) (fun _ => True)
        (graph.wire edge) := by
      intro edge hedge
      cases h : graph.wire edge with
      | ok wire => trivial
      | error e => exact ⟨edge, hedge, h⟩
    exact (outcome_mapM hwire).imp (fun _ => id) fun _ _ => trivial
  exact (horder.imp (fun _ => .inl) fun _ => id).bind fun order horder _ =>
    (hnodes.imp (fun _ he => .inr (.inl he)) fun _ => id).bind fun _ hchecks _ =>
      (hwires.imp (fun _ he => .inr (.inr ⟨⟨order, horder⟩, hchecks, he⟩)) fun _ => id).bind
        fun _ _ _ => trivial

/-- Along the edges of an ordered graph keys come later and later. -/
theorem idxOf_lt_of_leads (hgraph : graph.WellFormed) {order : List String}
    (h : graph.executionOrder options = .ok order) {source target : String}
    (hleads : graph.Leads source target) : order.idxOf source < order.idxOf target := by
  obtain ⟨hperm, hplaced⟩ := placed_of_executionOrder hgraph h
  obtain ⟨edge, hedge, rfl, rfl⟩ := hleads
  obtain ⟨before, after, hsplit⟩ :=
    List.append_of_mem (hperm.mem_iff.2 (hgraph.target_mem edge hedge))
  exact idxOf_lt_of_split (hperm.nodup_iff.2 hgraph.keys) hsplit
    (hplaced before _ after hsplit edge hedge rfl)

/-- A graph that can be ordered has no cycle. -/
theorem acyclic_of_executionOrder (hgraph : graph.WellFormed) {order : List String}
    (h : graph.executionOrder options = .ok order) (key : String) :
    ¬Relation.TransGen graph.Leads key key := by
  have hforward : ∀ {source target : String}, Relation.TransGen graph.Leads source target →
      order.idxOf source < order.idxOf target := by
    intro source target hpath
    induction hpath with
    | single hleads => exact idxOf_lt_of_leads hgraph h hleads
    | tail _ hleads ih => exact Nat.lt_trans ih (idxOf_lt_of_leads hgraph h hleads)
  exact fun hcycle => Nat.lt_irrefl _ (hforward hcycle)

end Graph

end Dataflow
