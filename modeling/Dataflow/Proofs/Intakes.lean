import Dataflow.Proofs.Declarations
import Dataflow.Workflow
import Mathlib.Data.List.Induction
import Mathlib.Data.List.Nodup

/-!
# Intakes

What a checked intake is like and which edges are drawn for it.  Its mappings are
grouped by their sources, each group makes one edge, and no mapping is lost: the edges
together fill what the mappings fill.

* `Intake.clear_of_check`: what the check of an intake says.
* `Intake.grouped_groups`: the groups are those of the sources.
* `Intake.drawEdges_eq`: the edges that are drawn.
* `Intake.perm_targets`: what the edges fill.
-/

namespace Dataflow

namespace Intake

/-! ## Checked intakes -/

/-- The mappings of an intake go together: there are some, no two have one target, and
one for the whole input is alone. -/
structure Clear (intake : Intake) : Prop where
  inputs_ne : intake.inputs ≠ []
  targets_nodup : (intake.inputs.map (·.target)).Nodup
  whole_alone : ∀ mapping ∈ intake.inputs, mapping.target = "" → intake.inputs = [mapping]

theorem of_clash?_eq_none {key : String} {count : Nat} {filled : List String}
    {mappings : List Mapping} (h : clash? key count filled mappings = none) :
    (mappings.map (·.target)).Nodup ∧ ∀ mapping ∈ mappings, mapping.target ∉ filled ∧
      (mapping.target = "" → count ≤ 1) := by
  induction mappings generalizing filled with
  | nil => exact ⟨List.nodup_nil, nofun⟩
  | cons mapping rest ih =>
    rw [clash?] at h
    split at h
    · exact nomatch h
    next hwhole =>
      split at h
      · exact nomatch h
      next hfree =>
        obtain ⟨hnodup, hrest⟩ := ih h
        rw [List.contains_iff_mem] at hfree
        refine ⟨?_, List.forall_mem_cons.2 ⟨⟨hfree, fun htarget => ?_⟩, fun m hm => ?_⟩⟩
        · rw [List.map_cons, List.nodup_cons]
          refine ⟨fun hmem => ?_, hnodup⟩
          obtain ⟨other, hother, heq⟩ := List.mem_map.1 hmem
          exact (hrest other hother).1 (heq ▸ List.mem_cons_self)
        · simpa [Mapping.fillsWhole, htarget] using hwhole
        · exact ⟨fun hmem => (hrest m hm).1 (List.mem_cons_of_mem _ hmem), (hrest m hm).2⟩

theorem clear_of_check {intake : Intake} (h : intake.check = .ok ()) : intake.Clear := by
  unfold check at h
  split at h
  · exact nomatch h
  next hfault =>
    unfold fault? at hfault
    split at hfault
    · exact nomatch hfault
    next hne =>
      obtain ⟨hnodup, hall⟩ := of_clash?_eq_none hfault
      refine ⟨fun heq => hne (List.isEmpty_iff.2 heq), hnodup, fun mapping hmem htarget => ?_⟩
      have hlength := (hall mapping hmem).2 htarget
      obtain ⟨single, hsingle⟩ := List.length_eq_one_iff.1
        (Nat.le_antisymm hlength (List.length_pos_of_mem hmem))
      rw [hsingle] at hmem ⊢
      rw [List.mem_singleton.1 hmem]

theorem clash?_eq_none {key : String} {count : Nat} {filled : List String}
    {mappings : List Mapping} (hnodup : (mappings.map (·.target)).Nodup)
    (hall : ∀ mapping ∈ mappings, mapping.target ∉ filled ∧ (mapping.target = "" → count ≤ 1)) :
    clash? key count filled mappings = none := by
  induction mappings generalizing filled with
  | nil => rfl
  | cons mapping rest ih =>
    obtain ⟨⟨hfree, hwhole⟩, hrest⟩ := List.forall_mem_cons.1 hall
    obtain ⟨hnew, hnodup⟩ := List.nodup_cons.1 hnodup
    have hsingle : ¬(mapping.fillsWhole && decide (1 < count)) = true := by
      rw [Bool.and_eq_true, decide_eq_true_iff]
      rintro ⟨hfills, hmore⟩
      exact Nat.not_le_of_lt hmore (hwhole (of_decide_eq_true hfills))
    rw [clash?, if_neg hsingle, if_neg (mt List.contains_iff_mem.1 hfree)]
    refine ih hnodup fun other hother => ⟨?_, (hrest other hother).2⟩
    rw [List.mem_cons, not_or]
    exact ⟨fun heq => hnew (List.mem_map.2 ⟨other, hother, heq⟩), (hrest other hother).1⟩

/-- A clear intake passes its check. -/
theorem check_of_clear {intake : Intake} (h : intake.Clear) : intake.check = .ok () := by
  have hfault : intake.fault? = none := by
    rw [fault?, if_neg (mt List.isEmpty_iff.1 h.inputs_ne)]
    refine clash?_eq_none h.targets_nodup fun mapping hmapping =>
      ⟨List.not_mem_nil, fun hwhole => ?_⟩
    exact Nat.le_of_eq (congrArg List.length (h.whole_alone mapping hmapping hwhole))
  rw [check, hfault]

/-! ## Groups -/

/-- Mappings grouped by their sources: a group for each source, with the mappings that
read it. -/
structure Grouped (groups : List (String × List Mapping)) (mappings : List Mapping) : Prop where
  sources_nodup : (groups.map (·.1)).Nodup
  mem_sources : ∀ source, source ∈ groups.map (·.1) ↔ source ∈ mappings.map (·.node)
  exact : ∀ group ∈ groups, group.2 = mappings.filter (·.node = group.1)

variable {groups : List (String × List Mapping)} {mappings : List Mapping} {mapping : Mapping}

theorem sources_putInGroup (mapping : Mapping) (groups : List (String × List Mapping)) :
    (putInGroup mapping groups).map (·.1) =
      if mapping.node ∈ groups.map (·.1) then groups.map (·.1)
      else groups.map (·.1) ++ [mapping.node] := by
  induction groups with
  | nil => rfl
  | cons group rest ih =>
    obtain ⟨source, group⟩ := group
    rw [putInGroup]
    by_cases heq : source = mapping.node
    · simp [heq]
    · rw [if_neg heq, List.map_cons, ih, List.map_cons]
      by_cases hmem : mapping.node ∈ rest.map (·.1)
      · rw [if_pos hmem, if_pos (List.mem_cons_of_mem _ hmem)]
      · rw [if_neg hmem, if_neg (List.not_mem_cons_of_ne_of_not_mem (Ne.symm heq) hmem),
          List.cons_append]

/-- A group with one more mapping: one of the old groups, which takes the mapping if it
is for its source, or a new one. -/
theorem mem_putInGroup {group : String × List Mapping}
    (h : group ∈ putInGroup mapping groups) (hnodup : (groups.map (·.1)).Nodup) :
    (group ∈ groups ∧ group.1 ≠ mapping.node) ∨
      (∃ old ∈ groups, old.1 = mapping.node ∧ group = (mapping.node, old.2 ++ [mapping])) ∨
      (mapping.node ∉ groups.map (·.1) ∧ group = (mapping.node, [mapping])) := by
  induction groups with
  | nil => exact .inr (.inr ⟨nofun, List.mem_singleton.1 h⟩)
  | cons first rest ih =>
    obtain ⟨source, mappings⟩ := first
    obtain ⟨hfirst, hrest⟩ := List.nodup_cons.1 hnodup
    rw [putInGroup] at h
    by_cases heq : source = mapping.node
    · rw [if_pos heq] at h
      rcases List.mem_cons.1 h with rfl | hmem
      · exact .inr (.inl ⟨_, List.mem_cons_self, heq, by rw [heq]⟩)
      · refine .inl ⟨List.mem_cons_of_mem _ hmem, fun hsource => hfirst ?_⟩
        rw [heq, ← hsource]
        exact List.mem_map.2 ⟨group, hmem, rfl⟩
    · rw [if_neg heq] at h
      rcases List.mem_cons.1 h with rfl | hmem
      · exact .inl ⟨List.mem_cons_self, heq⟩
      · rcases ih hmem hrest with ⟨hold, hne⟩ | ⟨old, hold, hgroup⟩ | ⟨hnew, hgroup⟩
        · exact .inl ⟨List.mem_cons_of_mem _ hold, hne⟩
        · exact .inr (.inl ⟨old, List.mem_cons_of_mem _ hold, hgroup⟩)
        · refine .inr (.inr ⟨?_, hgroup⟩)
          rw [List.map_cons, List.mem_cons, not_or]
          exact ⟨Ne.symm heq, hnew⟩

/-- Putting one more mapping into its group. -/
theorem Grouped.put (h : Grouped groups mappings) (mapping : Mapping) :
    Grouped (putInGroup mapping groups) (mappings ++ [mapping]) := by
  refine ⟨?_, fun source => ?_, fun group hgroup => ?_⟩
  · rw [sources_putInGroup]
    split
    · exact h.sources_nodup
    next hnew =>
      rw [← List.concat_eq_append]
      exact h.sources_nodup.concat hnew
  · rw [sources_putInGroup, List.map_append, List.mem_append, ← h.mem_sources, List.map_singleton]
    split
    next hold => exact ⟨.inl, Or.rec id fun hlast => List.mem_singleton.1 hlast ▸ hold⟩
    · exact List.mem_append
  · rw [List.filter_append]
    rcases mem_putInGroup hgroup h.sources_nodup with
      ⟨hold, hne⟩ | ⟨old, hold, hsource, rfl⟩ | ⟨hnew, rfl⟩
    · rw [← h.exact group hold, List.filter_singleton, decide_eq_false (Ne.symm hne)]
      exact (List.append_nil _).symm
    · rw [h.exact old hold, hsource, List.filter_singleton, decide_eq_true rfl]
      rfl
    · have hnone : mappings.filter (·.node = mapping.node) = [] :=
        List.filter_eq_nil_iff.2 fun m hm heq =>
          hnew ((h.mem_sources _).2 (of_decide_eq_true heq ▸ List.mem_map_of_mem hm))
      rw [hnone, List.filter_singleton, decide_eq_true rfl]
      rfl

theorem perm_putInGroup (mapping : Mapping) (groups : List (String × List Mapping)) :
    ((putInGroup mapping groups).flatMap (·.2)).Perm (groups.flatMap (·.2) ++ [mapping]) := by
  induction groups with
  | nil => exact .rfl
  | cons group rest ih =>
    obtain ⟨source, group⟩ := group
    rw [putInGroup]
    split
    · simp only [List.flatMap_cons, List.append_assoc]
      exact List.perm_append_comm.append_left group
    · simp only [List.flatMap_cons, List.append_assoc]
      exact ih.append_left group

/-- The groups of an intake are those of its sources, and no mapping is lost. -/
theorem grouped_groups (intake : Intake) :
    Grouped intake.groups intake.inputs ∧
      (intake.groups.flatMap (·.2)).Perm intake.inputs := by
  unfold groups
  induction intake.inputs using List.reverseRecOn with
  | nil => exact ⟨⟨List.nodup_nil, fun _ => .rfl, fun _ hgroup => nomatch hgroup⟩, .rfl⟩
  | append_singleton mappings mapping ih =>
    rw [List.foldl_append]
    exact ⟨ih.1.put mapping, (perm_putInGroup mapping _).trans (ih.2.append_right [mapping])⟩

/-! ## Edges -/

/-- The edge for one group of mappings. -/
def edgeOf (target : String) (group : String × List Mapping) : Edge :=
  if group.2.length = 1 && group.2.all Mapping.isWhole then { source := group.1, target }
  else .mapped group.1 target group.2

/-- The edges of an intake, one for each source. -/
def edges (intake : Intake) : List Edge :=
  intake.groups.map (edgeOf intake.key)

@[simp] theorem source_edgeOf (target : String) (group : String × List Mapping) :
    (edgeOf target group).source = group.1 := by
  unfold edgeOf
  split <;> rfl

@[simp] theorem target_edgeOf (target : String) (group : String × List Mapping) :
    (edgeOf target group).target = target := by
  unfold edgeOf
  split <;> rfl

variable {intake : Intake}

theorem Grouped.inputs_ne (h : Grouped groups mappings) {group : String × List Mapping}
    (hgroup : group ∈ groups) : group.2 ≠ [] := by
  obtain ⟨mapping, hmapping, hnode⟩ :=
    List.mem_map.1 ((h.mem_sources group.1).1 (List.mem_map.2 ⟨group, hgroup, rfl⟩))
  rw [h.exact group hgroup]
  exact List.ne_nil_of_mem (List.mem_filter.2 ⟨hmapping, decide_eq_true hnode⟩)

/-- The group of a mapping that is alone is that mapping. -/
theorem Grouped.eq_singleton (h : Grouped groups [mapping]) {group : String × List Mapping}
    (hgroup : group ∈ groups) : group.2 = [mapping] := by
  have hexact := h.exact group hgroup
  rw [List.filter_singleton] at hexact
  cases hread : decide (mapping.node = group.1) with
  | true => rwa [hread] at hexact
  | false =>
    rw [hread] at hexact
    exact absurd hexact (h.inputs_ne hgroup)

/-- A group with different targets makes an edge. -/
theorem drawEdge_eq (target : String) (graph : Graph) {group : String × List Mapping}
    (hne : group.2 ≠ []) (hnodup : (group.2.map (·.target)).Nodup) :
    drawEdge target graph group = graph.insertEdge (edgeOf target group) := by
  unfold drawEdge edgeOf
  split
  · rfl
  · rw [Graph.connectMapped, if_neg (mt List.isEmpty_iff.1 hne),
      Graph.repeated?_eq_none_iff.2 hnodup]

/-- The edges of a clear intake are inserted one after the other. -/
theorem Clear.drawEdges_eq (h : intake.Clear) (graph : Graph) :
    drawEdges graph intake = intake.edges.foldlM Graph.insertEdge graph := by
  have hgroups := (grouped_groups intake).1
  have hdraw : ∀ group ∈ intake.groups, ∀ graph,
      drawEdge intake.key graph group = graph.insertEdge (edgeOf intake.key group) := by
    intro group hgroup graph
    refine drawEdge_eq intake.key graph (hgroups.inputs_ne hgroup) ?_
    rw [hgroups.exact group hgroup]
    exact h.targets_nodup.sublist (List.filter_sublist.map _)
  rw [drawEdges, edges, List.foldlM_map]
  exact foldlM_congr graph hdraw

theorem mem_edges {edge : Edge} :
    edge ∈ intake.edges ↔ ∃ group ∈ intake.groups, edgeOf intake.key group = edge :=
  List.mem_map

theorem target_of_mem_edges {edge : Edge} (h : edge ∈ intake.edges) :
    edge.target = intake.key := by
  obtain ⟨group, _, rfl⟩ := mem_edges.1 h
  exact target_edgeOf _ _

theorem sources_edges (intake : Intake) :
    intake.edges.map (·.source) = intake.groups.map (·.1) := by
  simp [edges]

/-- The sources of the edges are those that the mappings name. -/
theorem mem_sources_edges (intake : Intake) (source : String) :
    (∃ edge ∈ intake.edges, edge.source = source) ↔
      ∃ mapping ∈ intake.inputs, mapping.node = source := by
  have hsources := (grouped_groups intake).1.mem_sources source
  rwa [← sources_edges, List.mem_map, List.mem_map] at hsources

theorem apart_edges (intake : Intake) :
    intake.edges.Pairwise fun a b => a.source ≠ b.source := by
  have hsources := (grouped_groups intake).1.sources_nodup
  rwa [← sources_edges, List.Nodup, List.pairwise_map] at hsources

/-- An edge fills what the mappings of its group fill. -/
theorem targets_edgeOf (target : String) {group : String × List Mapping} (hne : group.2 ≠ []) :
    (edgeOf target group).targets = group.2.map (·.target) := by
  unfold edgeOf
  split
  next hwhole =>
    rw [Bool.and_eq_true, decide_eq_true_eq, List.all_eq_true] at hwhole
    obtain ⟨mapping, hmapping⟩ := List.length_eq_one_iff.1 hwhole.1
    have htarget := hwhole.2 mapping (hmapping ▸ List.mem_singleton_self mapping)
    rw [Mapping.isWhole, Bool.and_eq_true] at htarget
    rw [hmapping, List.map_singleton, of_decide_eq_true htarget.2]
    rfl
  · have hplain : (Edge.mapped group.1 target group.2).isPlain = false := by
      simpa [Edge.isPlain, Edge.mapped] using hne
    rw [Edge.targets, Edge.effectiveMappings, if_neg (by simp [hplain])]
    simp [Edge.mapped, Function.comp_def]

/-- The edges together fill what the mappings fill. -/
theorem perm_targets (intake : Intake) :
    (intake.edges.flatMap Edge.targets).Perm (intake.inputs.map (·.target)) := by
  obtain ⟨hgroups, hperm⟩ := grouped_groups intake
  have htargets : intake.edges.flatMap Edge.targets =
      (intake.groups.flatMap (·.2)).map (·.target) := by
    rw [edges, List.flatMap_map, List.map_flatMap]
    exact List.flatMap_congr fun group hgroup => targets_edgeOf _ (hgroups.inputs_ne hgroup)
  rw [htargets]
  exact hperm.map _

end Intake

end Dataflow
