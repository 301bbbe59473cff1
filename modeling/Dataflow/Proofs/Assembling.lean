import Dataflow.Assembly
import Dataflow.Proofs.Outcome
import Dataflow.Proofs.Tables
import Mathlib.Data.List.Induction

/-!
# Assembled inputs

What is gathered from some contributions is, target by target, the values in
their order of arrival.  From that follows what an assembled input is like, given
what merging and storing keep.

* `find?_gather`: the values gathered for a target.
* `MergeRegistry.merge_eq_ok_iff`: what values merge to.
* `Assembler.outcome_assemble`: an assembled input has a property of values that
  zero values have and that merging and storing keep.  The property stays open:
  it can be the declared type, or nothing at all where only the errors matter.
-/

namespace Dataflow

/-! ## Gathering -/

theorem Gathered.find?_add (gathered : Gathered) (fields : Fields) (target : String) :
    (gathered.add fields).find? target =
      match fields.find? target with
      | none => gathered.find? target
      | some value => some ((gathered.find? target).getD [] ++ [value]) := by
  obtain ⟨entries, hasc⟩ := fields
  show (entries.foldl _ gathered).find? target = match Ordered.find? target entries with
    | none => _
    | some value => _
  induction entries generalizing gathered with
  | nil => rfl
  | cons entry rest ih =>
    obtain ⟨key, value⟩ := entry
    obtain ⟨hhead, hrest⟩ := List.pairwise_cons.1 hasc
    rw [List.foldl_cons, ih _ hrest, Table.find?_insert]
    by_cases heq : target = key
    · -- the key of an ordered list does not come again
      subst heq
      rw [if_pos rfl, Ordered.find?_eq_none_of_lt hhead, Ordered.find?_cons_self]
    · rw [if_neg heq, Ordered.find?_cons_of_ne heq]

/-- The values gathered for a target, in order of arrival. -/
theorem find?_gather (contributions : List Fields) (target : String) :
    (gather contributions).find? target =
      if contributions.filterMap (·.find? target) = [] then none
      else some (contributions.filterMap (·.find? target)) := by
  induction contributions using List.reverseRecOn with
  | nil => rfl
  | append_singleton contributions fields ih =>
    have hlast : gather (contributions ++ [fields]) = (gather contributions).add fields := by
      rw [gather, List.foldl_append]
      rfl
    rw [hlast, Gathered.find?_add, ih, List.filterMap_append]
    cases hvalue : fields.find? target with
    | none => simp [hvalue]
    | some value =>
      by_cases hempty : contributions.filterMap (·.find? target) = [] <;> simp [hvalue, hempty]

/-- What is gathered for a target are values that arrived for it. -/
theorem mem_of_find?_gather {contributions : List Fields} {target : String}
    {values : List Value} (h : (gather contributions).find? target = some values) :
    values ≠ [] ∧ ∀ value ∈ values, ∃ fields ∈ contributions, fields.find? target = some value := by
  rw [find?_gather] at h
  split at h
  · exact nomatch h
  next hne =>
    obtain rfl := Option.some.inj h
    exact ⟨hne, fun value hvalue => List.mem_filterMap.1 hvalue⟩

/-- Where nothing waits for the whole, every value waits for a named part. -/
theorem Gathered.ne_empty {gathered : Gathered} (hparts : gathered.find? "" = none) {name : String}
    {values : List Value} (h : gathered.find? name = some values) : name ≠ "" := by
  rintro rfl
  rw [hparts] at h
  exact nomatch h

/-! ## Merging -/

/-- A merged value is the only one, or what a policy makes of several.  Whatever
goes wrong is reported as a merge error. -/
theorem MergeRegistry.outcome_merge {registry : MergeRegistry} {field : String} {type : Ty}
    {values : List Value} {holds : Value → Prop} (hone : ∀ value, values = [value] → holds value)
    (hpolicy : ∀ policy value, registry.policy? type = some policy →
      policy type values = .ok value → holds value) :
    Outcome (fun e => e.kind = .merge) holds (registry.merge field type values) := by
  unfold merge
  split
  · rfl
  next value => exact hone value rfl
  · split
    · rfl
    next policy hregistered =>
      cases hmade : policy type values with
      | ok value => exact hpolicy policy value hregistered hmade
      | error e => cases e <;> rfl

/-- What is reported of an error that comes up in a policy. -/
def Error.reported : Error → String
  | .merge _ _ _ reason => reason
  | e => e.message

/-- Several values merge to what their policy makes of them; an error of the policy is
reported as a merge error. -/
theorem MergeRegistry.merge_several {registry : MergeRegistry} {field : String} {type : Ty}
    {values : List Value} {policy : Policy} (hseveral : 1 < values.length)
    (hpolicy : registry.policy? type = some policy) :
    registry.merge field type values =
      (policy type values).mapError fun e => .merge field type.text values.length e.reported := by
  match values, hseveral with
  | first :: second :: rest, _ =>
    unfold merge
    dsimp only
    rw [hpolicy]
    dsimp only
    cases policy type (first :: second :: rest) with
    | ok merged => rfl
    | error e => cases e <;> rfl

/-- Values merge to the only one, or to what the policy makes of several. -/
theorem MergeRegistry.merge_eq_ok_iff {registry : MergeRegistry} {field : String} {type : Ty}
    {values : List Value} {merged : Value} :
    registry.merge field type values = .ok merged ↔ values = [merged] ∨
      1 < values.length ∧ ∃ policy, registry.policy? type = some policy ∧
        policy type values = .ok merged := by
  match values with
  | [] => simp [merge]
  | [value] => simp [merge]
  | first :: second :: rest =>
    have hseveral : 1 < (first :: second :: rest).length := by simp
    constructor
    · intro h
      cases hpolicy : registry.policy? type with
      | none =>
        unfold merge at h
        dsimp only at h
        rw [hpolicy] at h
        exact nomatch h
      | some policy =>
        rw [merge_several hseveral hpolicy] at h
        exact .inr ⟨hseveral, policy, rfl, mapError_eq_ok h⟩
    · rintro (h | ⟨-, policy, hpolicy, h⟩)
      · exact nomatch h
      · rw [merge_several hseveral hpolicy, h]
        rfl

/-! ## Assembling -/

namespace Assembler

variable {assembler : Assembler} {gathered : Gathered} {contributions : List Fields}
  {made : Value}

/-- Values for the whole input are merged, unless there are others. -/
theorem assemble_of_some {values : List Value} (h : gathered.find? "" = some values) :
    assembler.assemble gathered =
      if (gathered.erase "").isEmpty then assembler.merges.merge "" assembler.target values
      else .error (.internal (.wholeAndFields assembler.target.text)) := by
  rw [assemble, h]

/-- Without values for the whole input the parts are stored one by one. -/
theorem assemble_of_none (h : gathered.find? "" = none) :
    assembler.assemble gathered =
      gathered.entries.foldlM (fun input entry => assembler.store input entry.1 entry.2)
        assembler.target.zero := by
  rw [assemble, h]

/-- An input that is assembled from values for the whole is what they merge to, and there
are no others. -/
theorem merge_of_assemble {values : List Value} (hwhole : gathered.find? "" = some values)
    (h : assembler.assemble gathered = .ok made) :
    (gathered.erase "").isEmpty = true ∧
      assembler.merges.merge "" assembler.target values = .ok made := by
  rw [assemble_of_some hwhole] at h
  split at h
  next hrest => exact ⟨hrest, h⟩
  · exact nomatch h

/-- An input that is assembled of parts has a property of the zero value that storing
parts keeps, and every part was stored. -/
theorem keeps_of_assemble (keeps : Value → Prop) (hparts : gathered.find? "" = none)
    (hzero : keeps assembler.target.zero)
    (hstore : ∀ field values, gathered.find? field = some values → field ≠ "" →
      ∀ input stored, keeps input → assembler.store input field values = .ok stored → keeps stored)
    (h : assembler.assemble gathered = .ok made) :
    keeps made ∧ ∀ field values, gathered.find? field = some values →
      ∃ input stored, keeps input ∧ assembler.store input field values = .ok stored := by
  rw [assemble_of_none hparts] at h
  obtain ⟨hmade, hstores⟩ := steps_of_foldlM keeps hzero (fun entry hentry =>
    have hfind := Table.mem_entries_iff.1 hentry
    hstore _ _ hfind (Gathered.ne_empty hparts hfind)) h
  exact ⟨hmade, fun field values hfind => hstores _ (Table.mem_entries_iff.2 hfind)⟩

/-- Contributions to the whole input alone are merged. -/
theorem assemble_of_whole {values : List Value}
    (hwhole : ∀ fields ∈ contributions, ∀ target value, fields.find? target = some value →
      target = "")
    (hvalues : (gather contributions).find? "" = some values) :
    assembler.assemble (gather contributions) =
      assembler.merges.merge "" assembler.target values := by
  have hrest : ((gather contributions).erase "").isEmpty = true := by
    rw [Table.isEmpty_iff]
    intro target
    rw [Table.find?_erase]
    split
    · rfl
    next hne =>
      cases hfind : (gather contributions).find? target with
      | none => rfl
      | some found =>
        obtain ⟨hfound, hmem⟩ := mem_of_find?_gather hfind
        obtain ⟨value, hvalue⟩ := List.exists_mem_of_ne_nil found hfound
        obtain ⟨fields, hfields, hfind⟩ := hmem value hvalue
        exact absurd (hwhole fields hfields target value hfind) hne
  rw [assemble_of_some hvalues, if_pos hrest]

/-- An assembled input has a property of values that zero values have and that
merging and storing keep.  The contributions are for the whole input or for
parts of it, and not for both. -/
theorem outcome_assemble (assembler : Assembler) {permitted : Error → Prop}
    (holds : Ty → Value → Prop)
    (hzero : holds assembler.target assembler.target.zero)
    (hmerge : ∀ field type values, values ≠ [] → (∀ value ∈ values, holds type value) →
      Outcome permitted (holds type) (assembler.merges.merge field type values))
    (hassign : ∀ field type input value, field ≠ "" → assembler.target.part field = .ok type →
      holds assembler.target input → holds type value →
        Outcome (fun e => permitted (.internal (.notStored field assembler.target.text e)))
          (holds assembler.target) (input.assign assembler.target field value))
    (huniform : (∀ fields ∈ contributions, ∀ target value, fields.find? target = some value →
        target = "") ∨
      ∀ fields ∈ contributions, ∀ target value, fields.find? target = some value → target ≠ "")
    (hfields : ∀ fields ∈ contributions, ∀ target value, fields.find? target = some value →
      ∃ type, assembler.target.part target = .ok type ∧ holds type value) :
    Outcome permitted (holds assembler.target) (assembler.assemble (gather contributions)) := by
  have hgathered : ∀ target values, (gather contributions).find? target = some values →
      values ≠ [] ∧ ∃ type, assembler.target.part target = .ok type ∧
        ∀ value ∈ values, holds type value := by
    intro target values hfind
    obtain ⟨hne, hmem⟩ := mem_of_find?_gather hfind
    obtain ⟨first, hfirst⟩ := List.exists_mem_of_ne_nil values hne
    obtain ⟨fields, hmem', hfind'⟩ := hmem first hfirst
    obtain ⟨type, htype, _⟩ := hfields fields hmem' target first hfind'
    refine ⟨hne, type, htype, fun value hvalue => ?_⟩
    obtain ⟨fields, hmem', hfind'⟩ := hmem value hvalue
    obtain ⟨type', htype', hholds⟩ := hfields fields hmem' target value hfind'
    rw [htype] at htype'
    exact Except.ok.inj htype' ▸ hholds
  cases hwhole : (gather contributions).find? "" with
  | some values =>
    obtain ⟨hne, type, htype, hholds⟩ := hgathered "" values hwhole
    obtain rfl := Except.ok.inj htype
    obtain ⟨first, hfirst⟩ := List.exists_mem_of_ne_nil values hne
    obtain ⟨fields, hmem, hfind⟩ := (mem_of_find?_gather hwhole).2 first hfirst
    rcases huniform with hall | hnone
    · rw [assemble_of_whole hall hwhole]
      exact hmerge "" _ values hne hholds
    · exact absurd rfl (hnone fields hmem "" first hfind)
  | none =>
    rw [assemble_of_none hwhole]
    refine outcome_foldlM (holds assembler.target) hzero fun entry hentry input hinput => ?_
    obtain ⟨field, values⟩ := entry
    have hfind := Table.mem_entries_iff.1 hentry
    have hfield := Gathered.ne_empty hwhole hfind
    obtain ⟨hne, type, htype, hholds⟩ := hgathered field values hfind
    rw [store, htype]
    refine (hmerge field type values hne hholds).bind fun merged _ hmerged => ?_
    have := hassign field type input merged hfield htype hinput hmerged
    cases hstored : input.assign assembler.target field merged with
    | ok stored =>
      rw [hstored] at this
      exact this
    | error e =>
      rw [hstored] at this
      exact this

end Assembler

end Dataflow
