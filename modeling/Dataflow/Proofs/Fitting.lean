import Dataflow.Merge.Stock
import Dataflow.Proofs.Contributions

/-!
# Inputs that do not fit

A policy may make anything of several values.  What it makes for a part of an input is
checked when it is stored, so an input that is put together part by part has its declared
type whatever the policies do.  What it makes for the whole input is not stored in
anything, and nothing checks it: several values for the whole input become whatever the
policy makes of them.

* `Assembler.fits_of_store`: a part that was stored fits.
* `Assembler.fits_unless_merged`: the inputs that fit, and the others.
-/

namespace Dataflow

/-- A type with a named part is not an open type, in boxes or not. -/
theorem Ty.isOpen_unboxed_of_part {type part : Ty} {name : String}
    (h : type.part name = .ok part) (hname : name ≠ "") : type.unboxed.isOpen = false := by
  rcases part_eq_ok_cases h hname with rfl | ⟨shape, -, hshape, -⟩
  · rfl
  · rw [hshape]
    rfl

namespace Assembler

variable {assembler : Assembler} {gathered : Gathered} {input stored made : Value}

/-- Several values wait for the whole input and for nothing else, and the policy for its
type makes one of them. -/
def MergesWhole (assembler : Assembler) (gathered : Gathered) (made : Value) : Prop :=
  ∃ values policy, gathered.find? "" = some values ∧ (gathered.erase "").isEmpty = true ∧
    1 < values.length ∧ assembler.merges.policy? assembler.target = some policy ∧
      policy assembler.target values = .ok made

/-- What is stored in a part of an input fits the declared type of the part. -/
theorem fits_of_store {field : String} {values : List Value} {type : Ty} {merged : Value}
    (hinput : input.type = assembler.target)
    (h : assembler.store input field values = .ok stored)
    (htype : assembler.target.part field = .ok type)
    (hmerged : assembler.merges.merge field type values = .ok merged) :
    merged.fits type = true := by
  obtain ⟨type', htype', h⟩ := bind_eq_ok h
  obtain ⟨merged', hmerged', h⟩ := bind_eq_ok h
  obtain rfl := Except.ok.inj ((mapError_eq_ok htype').symm.trans htype)
  obtain rfl := Except.ok.inj (hmerged'.symm.trans hmerged)
  rw [← hinput] at htype h
  exact (Value.exists_assign_iff htype merged').1 ⟨stored, mapError_eq_ok h⟩

/-- An input that is put together of parts, at least one, has its declared type, and what
is stored in each of its parts fits. -/
theorem type_of_parts (hparts : gathered.find? "" = none) {name : String} {values : List Value}
    (hname : gathered.find? name = some values) (h : assembler.assemble gathered = .ok made) :
    made.type = assembler.target ∧ ∀ field values type merged,
      gathered.find? field = some values → assembler.target.part field = .ok type →
        assembler.merges.merge field type values = .ok merged → merged.fits type = true := by
  obtain ⟨type, -, htype, -⟩ := (holds_of_assemble hparts h).1 name values hname
  have hzero := Ty.zero_type (Ty.isOpen_unboxed_of_part htype (Gathered.ne_empty hparts hname))
  obtain ⟨hmade, hstores⟩ := keeps_of_assemble (fun input => input.type = assembler.target) hparts
    hzero (fun _ _ _ hfield _ _ hinput hstored => (type_of_store hfield hstored).trans hinput) h
  refine ⟨hmade, fun field values type merged hfind htype hmerged => ?_⟩
  obtain ⟨input, stored, hinput, hstored⟩ := hstores field values hfind
  exact fits_of_store hinput hstored htype hmerged

/-- An assembled input fits its declared type, or a policy made it of several values for
the whole input.  What such a policy makes is the input, whether it fits or not.  What a
policy makes for a part and does not fit is an error. -/
theorem fits_unless_merged (hne : gathered.isEmpty = false)
    (hwhole : ∀ values, gathered.find? "" = some values →
      ∀ value ∈ values, value.fits assembler.target = true) :
    (∀ made, assembler.assemble gathered = .ok made →
      made.fits assembler.target = true ∨ assembler.MergesWhole gathered made) ∧
    (∀ made, assembler.MergesWhole gathered made → assembler.assemble gathered = .ok made) ∧
    ∀ field values type merged, field ≠ "" → gathered.find? field = some values →
      assembler.target.part field = .ok type →
        assembler.merges.merge field type values = .ok merged → merged.fits type = false →
          ∃ e, assembler.assemble gathered = .error e := by
  refine ⟨fun made hmade => ?_, ?_, ?_⟩
  · cases hfind : gathered.find? "" with
    | some values =>
      obtain ⟨hrest, hmerged⟩ := merge_of_assemble hfind hmade
      rcases MergeRegistry.merge_eq_ok_iff.1 hmerged with rfl | ⟨hlength, policy, hpolicy, hmade⟩
      · exact .inl (hwhole _ hfind made (List.mem_singleton_self made))
      · exact .inr ⟨values, policy, hfind, hrest, hlength, hpolicy, hmade⟩
    | none =>
      obtain ⟨name, hname⟩ := not_forall.1 (mt Table.isEmpty_iff.2 (ne_true_of_eq_false hne))
      obtain ⟨values, hname⟩ := Option.ne_none_iff_exists'.1 hname
      refine .inl ?_
      show made.type.fits assembler.target = true
      rw [(type_of_parts hfind hname hmade).1]
      exact Ty.fits_refl _
  · rintro made ⟨values, policy, hfind, hrest, hlength, hpolicy, hmade⟩
    rw [assemble_of_some hfind, if_pos hrest, MergeRegistry.merge_eq_ok_iff]
    exact .inr ⟨hlength, policy, hpolicy, hmade⟩
  · intro field values type merged hfield hfind htype hmerged hfits
    cases hmade : assembler.assemble gathered with
    | error e => exact ⟨e, rfl⟩
    | ok made =>
      cases hwhole : gathered.find? "" with
      | some values =>
        have hrest := Table.isEmpty_iff.1 (merge_of_assemble hwhole hmade).1 field
        rw [Table.find?_erase, if_neg hfield, hfind] at hrest
        exact nomatch hrest
      | none =>
        have hfit := (type_of_parts hwhole hfind hmade).2 _ _ _ _ hfind htype hmerged
        rw [hfits] at hfit
        exact nomatch hfit

/-! ## A policy that describes its values -/

/-- Makes inputs of a type, and of several numbers a text that describes them. -/
def describing (target : Ty) : Assembler where
  target := target
  merges := MergeRegistry.standard.registerKind .int .describe

/-- Two numbers for the whole of a number become a text. -/
theorem described_not_fits :
    let gathered : Gathered := Table.empty.insert "" [.int 1, .int 2]
    gathered.isEmpty = false ∧
      (∀ values, gathered.find? "" = some values → ∀ value ∈ values, value.fits .int = true) ∧
      ∃ made, (describing .int).assemble gathered = .ok made ∧ made.fits .int = false := by
  refine ⟨rfl, fun values hvalues => ?_, .string "2*Int", rfl, rfl⟩
  obtain rfl := Option.some.inj hvalues
  decide

/-- Two numbers for the total of a bill become a text that is refused. -/
theorem fits_unless_merged_described :
    let gathered : Gathered := Table.empty.insert "total" [.int 1, .int 2]
    ∃ e, (describing (.record Graph.bill)).assemble gathered = .error e := by
  intro gathered
  obtain ⟨-, -, hrefused⟩ := @fits_unless_merged (describing (.record Graph.bill)) gathered rfl
    (fun values hvalues => nomatch hvalues)
  exact hrefused "total" [.int 1, .int 2] .int (.string "2*Int") (by decide) rfl rfl rfl rfl

end Assembler

end Dataflow
