import Dataflow.Json
import Dataflow.Proofs.Lists

/-!
# Documents with their members in another order

The members of a JSON object have no order, so a writer and whoever hands the document
on may list them as they like.

* `Json.Shuffled`: two documents that differ in the order of members at most.
* `Json.Shuffled.single`, `Json.Shuffled.members`: what has become of an object.
-/

namespace Dataflow

namespace Json

/-- The second document is the first one with the members of its objects in another
order. -/
inductive Shuffled : Json → Json → Prop
  | null : Shuffled .null .null
  | bool (b : Bool) : Shuffled (.bool b) (.bool b)
  | number (mantissa : Int) (exponent : Nat) :
      Shuffled (.number mantissa exponent) (.number mantissa exponent)
  | string (s : String) : Shuffled (.string s) (.string s)
  | array {items items' : List Json} (hitems : List.Forall₂ Shuffled items items') :
      Shuffled (.array items) (.array items')
  | object {members members' members'' : List (String × Json)}
      (hnames : members.map (·.1) = members'.map (·.1))
      (hparts : List.Forall₂ Shuffled (members.map (·.2)) (members'.map (·.2)))
      (horder : members'.Perm members'') : Shuffled (.object members) (.object members'')

mutual

/-- Every document is itself in some order. -/
theorem Shuffled.refl : ∀ json : Json, json.Shuffled json
  | .null => .null
  | .bool b => .bool b
  | .number mantissa exponent => .number mantissa exponent
  | .string s => .string s
  | .array items => .array (Shuffled.refl_items items)
  | .object members => .object rfl (Shuffled.refl_members members) .rfl

theorem Shuffled.refl_items : ∀ items : List Json, List.Forall₂ Shuffled items items
  | [] => .nil
  | json :: rest => .cons (Shuffled.refl json) (Shuffled.refl_items rest)

theorem Shuffled.refl_members : ∀ members : List (String × Json),
    List.Forall₂ Shuffled (members.map (·.2)) (members.map (·.2))
  | [] => .nil
  | (_, json) :: rest => .cons (Shuffled.refl json) (Shuffled.refl_members rest)

end

/-! ## Lookups -/

variable {name : String} {members members' : List (String × Json)} {json part : Json}

theorem member?_eq_none_iff : member? name members = none ↔ name ∉ members.map (·.1) := by
  induction members with
  | nil => simp [member?]
  | cons head rest ih =>
    obtain ⟨n, json⟩ := head
    rw [member?, List.map_cons, List.mem_cons, not_or, ← ih]
    split
    next heq => simp [heq]
    next hne => simp [Ne.symm hne]

theorem mem_of_member?_eq_some (h : member? name members = some part) : (name, part) ∈ members := by
  induction members with
  | nil => exact nomatch h
  | cons head rest ih =>
    obtain ⟨n, json⟩ := head
    rw [member?] at h
    split at h
    next hname =>
      rw [← hname, ← Option.some.inj h]
      exact List.mem_cons_self
    · exact List.mem_cons_of_mem _ (ih h)

/-- In an object without repeated names every member is found. -/
theorem member?_of_mem (hnodup : (members.map (·.1)).Nodup) (h : (name, part) ∈ members) :
    member? name members = some part := by
  induction members with
  | nil => exact nomatch h
  | cons head rest ih =>
    obtain ⟨n, json⟩ := head
    obtain ⟨hnew, hnodup⟩ := List.nodup_cons.1 hnodup
    rw [member?]
    rcases List.mem_cons.1 h with heq | hmem
    · obtain ⟨rfl, rfl⟩ := Prod.mk.inj heq
      exact if_pos rfl
    · have hne : n ≠ name := by
        rintro rfl
        exact hnew (List.mem_map.2 ⟨_, hmem, rfl⟩)
      rw [if_neg hne]
      exact ih hnodup hmem

/-! ## What has become of a document -/

/-- Two objects have members of the same names, and those of one name are the same but
for the order of members. -/
structure Corresponds (members members' : List (String × Json)) : Prop where
  found : ∀ name part, member? name members = some part →
    ∃ part', member? name members' = some part' ∧ part.Shuffled part'
  missing : ∀ name, member? name members = none → member? name members' = none

theorem Corresponds.text (h : Corresponds members members') (name text : String)
    (hname : member? name members = some (.string text)) :
    member? name members' = some (.string text) := by
  obtain ⟨part, hpart, hshuffled⟩ := h.found name _ hname
  cases hshuffled
  exact hpart

/-- Members of the same names, compared one by one. -/
theorem forall₂_of_parts {R : Json → Json → Prop} (hnames : members.map (·.1) = members'.map (·.1))
    (hparts : List.Forall₂ R (members.map (·.2)) (members'.map (·.2))) :
    List.Forall₂ (fun a b => a.1 = b.1 ∧ R a.2 b.2) members members' := by
  induction members generalizing members' with
  | nil => exact List.forall₂_nil_left_iff.2 (List.map_eq_nil_iff.1 hnames.symm)
  | cons member rest ih =>
    obtain ⟨member', rest', rfl⟩ := List.exists_cons_of_ne_nil
      (show members' ≠ [] by rintro rfl; exact nomatch hnames)
    obtain ⟨hname, hnames⟩ := List.cons.inj hnames
    obtain ⟨hpart, hparts⟩ := List.forall₂_cons.1 hparts
    exact .cons ⟨hname, hpart⟩ (ih hnames hparts)

namespace Shuffled

/-- A text stays as it is. -/
theorem eq_string {text : String} (h : (Json.string text).Shuffled json) : json = .string text := by
  cases h
  rfl

/-- The items of an array stay where they are. -/
theorem items {items : List Json} (h : (Json.array items).Shuffled json) :
    ∃ items', json = .array items' ∧ List.Forall₂ Shuffled items items' := by
  cases h with
  | array hitems => exact ⟨_, rfl, hitems⟩

/-- Some texts stay as they are. -/
theorem eq_strings {texts : List String} (h : (Json.strings texts).Shuffled json) :
    json = .strings texts := by
  obtain ⟨items, rfl, hitems⟩ := h.items
  have heq : ∀ {texts : List String} {items : List Json},
      List.Forall₂ Shuffled (texts.map .string) items → items = texts.map .string := by
    intro texts
    induction texts with
    | nil => exact List.forall₂_nil_left_iff.1
    | cons text rest ih =>
      intro items hitems
      obtain ⟨json, others, hjson, hothers, rfl⟩ := List.forall₂_cons_left_iff.1 hitems
      rw [hjson.eq_string, ih hothers, List.map_cons]
  rw [heq hitems, strings]

/-- An object of one member stays one. -/
theorem single (h : (Json.object [(name, part)]).Shuffled json) :
    ∃ part', json = .object [(name, part')] ∧ part.Shuffled part' := by
  cases h with
  | @object _ middle _ hnames hparts horder =>
    obtain ⟨⟨name', part'⟩, rfl⟩ := List.length_eq_one_iff.1
      (by simpa using congrArg List.length hnames.symm)
    obtain rfl := List.singleton_perm.1 horder
    obtain rfl : name = name' := (List.cons.inj hnames).1
    exact ⟨part', rfl, (List.forall₂_cons.1 hparts).1⟩

/-- An object without repeated names has the same members as before. -/
theorem corresponds (h : (Json.object members).Shuffled json)
    (hnodup : (members.map (·.1)).Nodup) :
    ∃ members', json = .object members' ∧ Corresponds members members' := by
  cases h with
  | @object _ middle members' hnames hparts horder =>
    have hperm := horder.map (·.1)
    rw [hnames] at hnodup
    refine ⟨members', rfl, fun name part hfound => ?_, fun name hmissing => ?_⟩
    · obtain ⟨⟨name', part'⟩, hmem, hname, hpart⟩ := exists_right_of_forall₂
        (forall₂_of_parts hnames hparts) (mem_of_member?_eq_some hfound)
      obtain rfl : name = name' := hname
      exact ⟨part', member?_of_mem (hperm.nodup_iff.1 hnodup) (horder.subset hmem), hpart⟩
    · rw [member?_eq_none_iff, hnames, hperm.mem_iff] at hmissing
      exact member?_eq_none_iff.2 hmissing

end Shuffled

end Json

end Dataflow
