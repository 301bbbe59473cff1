import Dataflow.Proofs.Gathering
import Dataflow.Proofs.Intakes

/-!
# Mappings in another order

Mappings that fill different parts of an input can be given in any order.  The check
accepts them with the same guards, and what they read is stored under the same names.
So an edge whose mappings are rearranged makes a wire that contributes the same.  The
order shows in errors alone: which mapping fails first, and the text for all of them.

* `Mapping.extract_of_perm`, `Mapping.check_of_perm`: mappings in another order.
* `Graph.exists_wire_of_rearranged`, `Wire.Rearranged.apply`: edges and their wires.
* `Intake.exists_rearranged`: the edges of an intake.
-/

namespace Dataflow

/-! ## Mappings -/

/-- Guards for different targets can be added in either order. -/
theorem GuardPlan.insert_comm (plan : GuardPlan) {guard guard' : Guard}
    (h : guard.field ≠ guard'.field) :
    (plan.insert guard).insert guard' = (plan.insert guard').insert guard :=
  congrArg GuardPlan.mk (plan.guards.insert_comm h guard guard')

namespace Mapping

variable {predecessor successor : Ty} {mappings mappings' : List Mapping}

theorem field_of_guard? {mapping : Mapping} {guard : Guard}
    (h : mapping.guard? predecessor successor = .ok (some guard)) :
    guard.field = mapping.target := by
  obtain ⟨_, _, _, _, ⟨_, hguard⟩ | ⟨_, hguard⟩⟩ := guard?_eq_ok h
  · exact nomatch hguard
  · rw [Option.some.inj hguard]

section

variable (hperm : mappings.Perm mappings') (hnodup : (mappings.map (·.target)).Nodup)
include hperm hnodup

/-- A loop over mappings to different targets gives the same in any order when its steps
for different targets may change places. -/
theorem foldlM_of_perm {β : Type} {f : β → Mapping → Except Error β}
    (hswap : ∀ first second : Mapping, first.target ≠ second.target → ∀ b c,
      (f b first >>= fun b => f b second) = .ok c → (f b second >>= fun b => f b first) = .ok c)
    {b c : β} (h : mappings.foldlM f b = .ok c) : mappings'.foldlM f b = .ok c :=
  foldlM_eq_ok_of_perm hperm (fun first hfirst second hsecond hne => hswap first second fun heq =>
    hne (List.inj_on_of_nodup_map hnodup hfirst hsecond heq)) h

/-- Parts for different targets can be read in any order. -/
theorem extract_of_perm {output : Value} {fields : Fields}
    (h : extract mappings output = .ok fields) : extract mappings' output = .ok fields := by
  refine foldlM_of_perm hperm hnodup (fun first second htargets before after h => ?_) h
  obtain ⟨between, hread, h⟩ := bind_eq_ok h
  obtain ⟨part, hpart, hread⟩ := bind_eq_ok hread
  obtain ⟨part', hpart', h⟩ := bind_eq_ok h
  obtain rfl := Except.ok.inj hread
  obtain rfl := Except.ok.inj h
  rw [hpart, hpart']
  exact congrArg Except.ok (before.insert_comm htargets part part').symm

/-- Guards for different targets can be found in any order. -/
theorem guards_of_perm {plan : GuardPlan} (h : guards predecessor successor mappings = .ok plan) :
    guards predecessor successor mappings' = .ok plan := by
  refine foldlM_of_perm hperm hnodup (fun first second htargets before after h => ?_) h
  obtain ⟨between, hadd, h⟩ := bind_eq_ok h
  obtain ⟨guard, hguard, hadd⟩ := bind_eq_ok hadd
  obtain ⟨guard', hguard', h⟩ := bind_eq_ok h
  rw [hguard, hguard']
  cases guard with
  | none =>
    obtain rfl := Except.ok.inj hadd
    cases guard' <;> exact h
  | some guard =>
    obtain rfl := Except.ok.inj hadd
    cases guard' with
    | none => exact h
    | some guard' =>
      obtain rfl := Except.ok.inj h
      rw [← field_of_guard? hguard, ← field_of_guard? hguard'] at htargets
      exact congrArg Except.ok (before.insert_comm htargets).symm

/-- Mappings to different targets pass the check in any order, with the same guards. -/
theorem check_of_perm {plan : Option GuardPlan}
    (h : check predecessor successor mappings = .ok plan) :
    check predecessor successor mappings' = .ok plan := by
  unfold check at h ⊢
  dsimp only at h ⊢
  rw [← hperm.isEmpty_eq, ← hperm.any_eq, ← hperm.any_eq]
  obtain ⟨hne, h⟩ := throwIf_eq_ok h
  obtain ⟨hwhole, h⟩ := throwIf_eq_ok h
  obtain ⟨hsuccessor, h⟩ := throwIf_eq_ok h
  obtain ⟨hpredecessor, h⟩ := throwIf_eq_ok h
  obtain ⟨full, hfull, h⟩ := bind_eq_ok h
  rw [if_neg hne, if_neg hwhole, if_neg hsuccessor, if_neg hpredecessor,
    guards_of_perm hperm hnodup hfull]
  exact h

end

end Mapping

/-! ## Edges and wires -/

/-- The edge with its mappings in another order. -/
structure Edge.Rearranged (edge other : Edge) : Prop where
  source : other.source = edge.source
  target : other.target = edge.target
  mappings : edge.mappings.Perm other.mappings

namespace Edge.Rearranged

variable {edge other : Edge}

theorem symm (h : edge.Rearranged other) : other.Rearranged edge :=
  ⟨h.source.symm, h.target.symm, h.mappings.symm⟩

theorem isPlain_eq (h : edge.Rearranged other) : other.isPlain = edge.isPlain :=
  h.mappings.isEmpty_eq.symm

theorem effectiveMappings (h : edge.Rearranged other) :
    edge.effectiveMappings.Perm other.effectiveMappings := by
  unfold Edge.effectiveMappings
  rw [h.isPlain_eq, h.source]
  split
  · exact .rfl
  · exact h.mappings

end Edge.Rearranged

/-- The wire with its mappings in another order. -/
structure Wire.Rearranged (wire other : Wire) : Prop where
  source : other.source = wire.source
  target : other.target = wire.target
  mappings : wire.mappings.Perm other.mappings
  plan : other.plan = wire.plan

namespace Wire.Rearranged

variable {wire other : Wire}

theorem symm (h : wire.Rearranged other) : other.Rearranged wire :=
  ⟨h.source.symm, h.target.symm, h.mappings.symm, h.plan.symm⟩

/-- A rearranged wire contributes what the wire does. -/
theorem apply (h : wire.Rearranged other) (hnodup : wire.targets.Nodup) {output : Value}
    {fields : Fields} (happly : wire.apply output = .ok fields) :
    other.apply output = .ok fields := by
  obtain ⟨extracted, hextract, hguarded⟩ := bind_eq_ok happly
  rw [Wire.apply, Mapping.extract_of_perm h.mappings hnodup hextract]
  show other.guarded extracted = _
  rw [guarded, h.plan]
  exact hguarded

end Wire.Rearranged

/-- A rearranged edge makes a rearranged wire. -/
theorem Graph.exists_wire_of_rearranged {graph : Graph} {edge other : Edge}
    (h : edge.Rearranged other) (hnodup : edge.targets.Nodup) {wire : Wire}
    (hwire : graph.wire edge = .ok wire) :
    ∃ wire', graph.wire other = .ok wire' ∧ wire.Rearranged wire' := by
  obtain ⟨plan, hplan, hwire⟩ := bind_eq_ok hwire
  obtain rfl := Except.ok.inj hwire
  have hplan' : graph.edgePlan other = .ok plan := by
    unfold edgePlan at hplan ⊢
    dsimp only at hplan ⊢
    rw [h.isPlain_eq, h.source, h.target]
    by_cases hplain : edge.isPlain = true
    · rwa [if_pos hplain] at hplan ⊢
    · rw [Edge.targets, Edge.effectiveMappings, if_neg hplain] at hnodup
      rw [if_neg hplain] at hplan ⊢
      exact Mapping.check_of_perm h.mappings hnodup hplan
  refine ⟨⟨other.source, other.target, other.effectiveMappings, plan⟩, ?_,
    h.source, h.target, h.effectiveMappings, rfl⟩
  rw [wire, hplan']
  rfl

/-! ## Intakes -/

namespace Intake

variable {intake other : Intake}

/-- An intake is clear whatever the order of its mappings. -/
theorem Clear.of_perm (h : intake.Clear) (hinputs : other.inputs.Perm intake.inputs) :
    other.Clear := by
  refine ⟨fun hnone => h.inputs_ne ?_, (hinputs.map _).nodup_iff.2 h.targets_nodup,
    fun mapping hmapping hwhole => ?_⟩
  · rw [hnone] at hinputs
    exact hinputs.nil_eq.symm
  · rw [h.whole_alone mapping (hinputs.mem_iff.1 hmapping) hwhole] at hinputs
    exact List.perm_singleton.1 hinputs

/-- The edges of a clear intake fill different parts each. -/
theorem Clear.nodup_targets (h : intake.Clear) {edge : Edge} (hedge : edge ∈ intake.edges) :
    edge.targets.Nodup :=
  (List.nodup_flatMap.1 (intake.perm_targets.nodup_iff.2 h.targets_nodup)).1 edge hedge

theorem rearranged_edgeOf (target : String) {group group' : String × List Mapping}
    (hsource : group'.1 = group.1) (hperm : group.2.Perm group'.2) :
    (edgeOf target group).Rearranged (edgeOf target group') := by
  unfold edgeOf
  rw [hperm.length_eq, hperm.all_eq, hsource]
  split
  · exact ⟨rfl, rfl, .rfl⟩
  · exact ⟨rfl, rfl, hperm.map _⟩

/-- The edges of an intake whose mappings are in another order are rearranged. -/
theorem exists_rearranged (hkey : other.key = intake.key)
    (hinputs : other.inputs.Perm intake.inputs) {edge : Edge} (hedge : edge ∈ intake.edges) :
    ∃ edge' ∈ other.edges, edge.Rearranged edge' := by
  obtain ⟨group, hgroup, rfl⟩ := mem_edges.1 hedge
  have hgroups := (grouped_groups intake).1
  have hgroups' := (grouped_groups other).1
  have hsource : group.1 ∈ other.groups.map (·.1) := by
    rw [hgroups'.mem_sources, (hinputs.map _).mem_iff, ← hgroups.mem_sources]
    exact List.mem_map_of_mem hgroup
  obtain ⟨group', hgroup', hsource⟩ := List.mem_map.1 hsource
  refine ⟨edgeOf other.key group', mem_edges.2 ⟨group', hgroup', rfl⟩, ?_⟩
  rw [hkey]
  refine rearranged_edgeOf _ hsource ?_
  rw [hgroups.exact group hgroup, hgroups'.exact group' hgroup', hsource]
  exact hinputs.symm.filter _

end Intake

end Dataflow
