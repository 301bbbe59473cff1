import Dataflow.Proofs.Assembling
import Dataflow.Proofs.GuardElision
import Mathlib.Data.List.Nodup

/-!
# Gathered values

How many values are gathered for a target.  When some wires contribute, each fills the
targets of its own mappings, so there are as many values for a target as there are
mappings to it.  Where there is one value for each target, no policy is looked up.

* `length_gathered`: the number of values for a target.
* `gather_eq_of_single`: single values do not depend on the order of contributions.
* `Assembler.assemble_withMerges`: single values do not depend on the policies.
* `Assembler.outcome_assemble_of_merges`: why an input is not assembled.
* `Assembler.outcome_of_single`: with single values there is nothing to merge.
-/

namespace Dataflow

/-! ## Numbers of values -/

/-- The parts of an input that a wire fills. -/
def Wire.targets (wire : Wire) : List String :=
  wire.mappings.map (·.target)

/-- A wire contributes to the targets of its mappings, and to all of them. -/
theorem Wire.isSome_find?_iff {wire : Wire} {output : Value} {fields : Fields}
    (h : wire.apply output = .ok fields) (target : String) :
    (fields.find? target).isSome = true ↔ target ∈ wire.targets := by
  have hextract := extract_of_apply h
  have hfind := Mapping.find?_of_extract hextract target
  rw [Option.isSome_iff_exists]
  constructor
  · rintro ⟨value, hvalue⟩
    exact List.mem_map.2 (Mapping.exists_target_of_extract hextract hvalue)
  · intro hmem
    obtain ⟨mapping, hmapping, rfl⟩ := List.mem_map.1 hmem
    -- some mapping to the target is the last one, and all of them have read something
    obtain ⟨last, hlast⟩ : ∃ last, Mapping.arriving? wire.mappings mapping.target = some last := by
      rw [← Option.isSome_iff_exists, Mapping.arriving?, List.find?_isSome]
      exact ⟨mapping, List.mem_reverse.2 hmapping, decide_eq_true rfl⟩
    obtain ⟨value, hvalue⟩ := Mapping.extract_isOk_iff_take.1 ⟨fields, hextract⟩ last
      (Mapping.mem_of_arriving? hlast).1
    exact ⟨value, (hfind value).2 ⟨last, hlast, hvalue⟩⟩

/-- The wires contribute one after the other what they make of some outputs. -/
def Contribute (wires : List Wire) (contributions : List Fields) : Prop :=
  List.Forall₂ (fun wire fields => ∃ output, wire.apply output = .ok fields) wires contributions

/-- There are as many values for a target as there are mappings to it. -/
theorem length_gathered {wires : List Wire} {contributions : List Fields}
    (h : Contribute wires contributions) (hnodup : ∀ wire ∈ wires, wire.targets.Nodup)
    (target : String) :
    (contributions.filterMap (·.find? target)).length =
      (wires.flatMap Wire.targets).count target := by
  induction h with
  | nil => rfl
  | @cons wire fields wires contributions hfields _ ih =>
    obtain ⟨output, happly⟩ := hfields
    obtain ⟨hwire, hrest⟩ := List.forall_mem_cons.1 hnodup
    have hiff := wire.isSome_find?_iff happly target
    rw [List.filterMap_cons, List.flatMap_cons, List.count_append, ← ih hrest]
    cases hfind : fields.find? target with
    | none =>
      have hnot : target ∉ wire.targets := fun hmem => by
        rw [hfind] at hiff
        exact Bool.false_ne_true (hiff.2 hmem)
      rw [List.count_eq_zero_of_not_mem hnot, Nat.zero_add]
    | some value =>
      have hmem : target ∈ wire.targets := hiff.1 (by rw [hfind]; rfl)
      rw [List.count_eq_one_of_mem hwire hmem, List.length_cons, Nat.add_comm]

/-- There is one value for each target. -/
def Gathered.Single (gathered : Gathered) : Prop :=
  ∀ target values, gathered.find? target = some values → ∃ value, values = [value]

/-- Wires that fill different targets contribute single values. -/
theorem single_of_contribute {wires : List Wire} {contributions : List Fields}
    (h : Contribute wires contributions) (hnodup : (wires.flatMap Wire.targets).Nodup) :
    (gather contributions).Single := by
  intro target values hvalues
  rw [find?_gather] at hvalues
  split at hvalues
  · exact nomatch hvalues
  next hne =>
    obtain rfl := Option.some.inj hvalues
    have hwires : ∀ wire ∈ wires, wire.targets.Nodup := (List.nodup_flatMap.1 hnodup).1
    have hcount := List.nodup_iff_count_le_one.1 hnodup target
    rw [← length_gathered h hwires] at hcount
    exact List.length_eq_one_iff.1
      (Nat.le_antisymm hcount (List.length_pos_iff.2 hne))

/-- One contribution has one value for each target. -/
theorem single_gather_singleton (fields : Fields) : (gather [fields]).Single := by
  intro target values hvalues
  rw [find?_gather, List.filterMap_cons, List.filterMap_nil] at hvalues
  cases hfind : fields.find? target with
  | none =>
    rw [hfind] at hvalues
    exact nomatch hvalues
  | some value =>
    rw [hfind] at hvalues
    exact ⟨value, (Option.some.inj hvalues).symm⟩

/-- Single values are the same whatever the order of the contributions they are from. -/
theorem gather_eq_of_single {contributions others : List Fields}
    (h : (gather contributions).Single) (hothers : (gather others).Single)
    (hmem : ∀ fields, fields ∈ others ↔ fields ∈ contributions) :
    gather others = gather contributions := by
  refine Table.eq_of_find?_eq fun target => ?_
  have hvalues : ∀ value, value ∈ others.filterMap (·.find? target) ↔
      value ∈ contributions.filterMap (·.find? target) := by
    simp only [List.mem_filterMap, hmem, implies_true]
  have hsingle := h target
  have hsingle' := hothers target
  rw [find?_gather] at hsingle hsingle' ⊢
  rw [find?_gather]
  by_cases hnone : contributions.filterMap (·.find? target) = []
  · have hnone' : others.filterMap (·.find? target) = [] := by
      rwa [List.eq_nil_iff_forall_not_mem, forall_congr' fun value => not_congr (hvalues value),
        ← List.eq_nil_iff_forall_not_mem]
    rw [if_pos hnone, if_pos hnone']
  · have hnone' : others.filterMap (·.find? target) ≠ [] := by
      obtain ⟨value, hvalue⟩ := List.exists_mem_of_ne_nil _ hnone
      exact List.ne_nil_of_mem ((hvalues value).2 hvalue)
    rw [if_neg hnone] at hsingle ⊢
    rw [if_neg hnone'] at hsingle' ⊢
    obtain ⟨value, hvalue⟩ := hsingle _ rfl
    obtain ⟨value', hvalue'⟩ := hsingle' _ rfl
    have hsame := (hvalues value').1 (hvalue' ▸ List.mem_singleton_self value')
    rw [hvalue, List.mem_singleton] at hsame
    rw [hvalue, hvalue', hsame]

/-! ## Assembling single values -/

namespace Assembler

/-- The same assembler with other policies. -/
def withMerges (assembler : Assembler) (merges : MergeRegistry) : Assembler :=
  { assembler with merges }

variable {gathered : Gathered}

theorem assemble_withMerges (assembler : Assembler) (merges : MergeRegistry)
    (h : gathered.Single) :
    (assembler.withMerges merges).assemble gathered = assembler.assemble gathered := by
  unfold assemble
  cases hwhole : gathered.find? "" with
  | some values =>
    obtain ⟨value, rfl⟩ := h "" values hwhole
    rfl
  | none =>
    refine foldlM_congr _ fun entry hentry input => ?_
    obtain ⟨field, values⟩ := entry
    obtain ⟨value, rfl⟩ := h field values (Table.mem_entries_iff.1 hentry)
    rfl

/-- An input is not assembled because compiling has missed something, or because the
values for one part do not merge. -/
theorem outcome_assemble_of_merges (assembler : Assembler) {permitted : Error → Prop}
    (hinternal : ∀ e : Error, e.kind = .internal → permitted e)
    (hmerge : ∀ field type values, gathered.find? field = some values →
      assembler.target.part field = .ok type →
        Outcome permitted (fun _ => True) (assembler.merges.merge field type values)) :
    Outcome permitted (fun _ => True) (assembler.assemble gathered) := by
  unfold assemble
  cases hwhole : gathered.find? "" with
  | some values =>
    dsimp only
    split
    · exact hmerge "" assembler.target values hwhole (if_pos rfl)
    · exact hinternal _ rfl
  | none =>
    refine outcome_foldlM (fun _ => True) trivial fun entry hentry input _ => ?_
    unfold store
    dsimp only
    cases htype : assembler.target.part entry.1 with
    | error e => exact hinternal _ rfl
    | ok type =>
      refine (hmerge entry.1 type entry.2 (Table.mem_entries_iff.1 hentry) htype).bind
        fun merged _ _ => ?_
      cases input.assign assembler.target entry.1 merged with
      | error e => exact hinternal _ rfl
      | ok stored => trivial

/-- What can go wrong with single values is that they cannot be stored. -/
theorem outcome_of_single (assembler : Assembler) (h : gathered.Single) :
    Outcome (fun e => e.kind = .internal) (fun _ => True) (assembler.assemble gathered) := by
  refine assembler.outcome_assemble_of_merges (fun _ => id) fun field type values hfind _ => ?_
  obtain ⟨value, rfl⟩ := h field values hfind
  trivial

end Assembler

end Dataflow
