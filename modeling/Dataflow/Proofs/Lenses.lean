import Dataflow.Proofs.Formed

/-!
# Reading back what was written

A named part of a value is a lens: a read after a write gives what was written,
the other parts and the type stay as they are, the second of two writes counts,
and writing what is there changes nothing.  There are two kinds of values with
named parts, maps with text keys and records in boxes, and `Value.assign_cases`
says what a write does to each.

* `Value.take_assign_self`, `Value.take_assign_of_ne`: reads after a write.
* `Value.assign_assign`: a write after a write.
* `Value.assign_take`: writing what is there.
-/

namespace Dataflow

/-! ## Fields of records -/

namespace RecordOf

variable {τ : Type} {record : RecordOf τ} {name other : String} {i j : Nat}
  {field field' : FieldOf τ}

/-- Different names find different places. -/
theorem Finds.ne (h : record.Finds name i field) (h' : record.Finds other j field')
    (hne : other ≠ name) : i ≠ j := by
  rintro rfl
  obtain rfl := Option.some.inj (h.place_eq.symm.trans h'.place_eq)
  exact hne (h'.name_eq.symm.trans h.name_eq)

theorem Finds.lt_length (h : record.Finds name i field) : i < record.fields.length :=
  (List.getElem?_eq_some_iff.1 h.place_eq).1

end RecordOf

namespace RecordValue

variable {shape : RecordType} {values values' : List Value} {name : String}

/-- A read of a field depends on the value at its place only. -/
theorem getField_congr
    (h : ∀ i field, shape.Finds name i field → values[i]? = values'[i]?) :
    RecordValue.getField ⟨shape, values⟩ name = RecordValue.getField ⟨shape, values'⟩ name := by
  rcases shape.finds_cases name with ⟨hi, hfield⟩ | ⟨i, field, hfinds⟩
  · rw [getField_missing hi hfield, getField_missing hi hfield]
    rfl
  by_cases hshown : field.isShown = true
  · rw [getField_shown hfinds hshown, getField_shown hfinds hshown]
    dsimp only
    rw [h i field hfinds]
    rfl
  · rw [getField_hidden hfinds hshown, getField_hidden hfinds hshown]
    rfl

end RecordValue

theorem MapValue.getKey_string {elem : Ty} {entries : List (Key × Value)} (name : String) :
    MapValue.getKey ⟨.string, elem, entries⟩ name =
      match Ordered.find? (.string name) entries with
      | some value => .ok value
      | none => .error ⟨.keyNotFound, s!"key={name}, type=Map<{Ty.string.text}, {elem.text}>"⟩ := rfl

/-! ## What a write does -/

namespace Value

variable {dest written new part : Value} {declared : Ty} {name other : String}

/-- A write by name that succeeds stores an entry in a map with text keys, or
replaces one value of a record in boxes. -/
theorem assign_cases (hname : name ≠ "") (h : dest.assign declared name new = .ok written) :
    (∃ elem entries, dest = .map .string elem entries ∧ new.fits elem = true ∧
      written = .map .string elem (Ordered.insert (.string name) new entries)) ∨
    ∃ shape values i field, dest.unboxed = .record shape values ∧ shape.Finds name i field ∧
      field.isShown = true ∧ new.fits field.type = true ∧
      written = dest.refill (.record shape (values.set i new)) := by
  rcases dest.shape_cases with ⟨key, elem, entries, rfl⟩ | ⟨shape, values, hdest⟩ | ⟨hmap, hrecord⟩
  · rw [assign_map hname] at h
    obtain ⟨map, hset, rfl⟩ := map_eq_ok h
    obtain rfl : key = .string := MapValue.key_of_setKey hset
    rw [MapValue.setKey_string] at hset
    split at hset
    next hfits => exact .inl ⟨elem, entries, rfl, hfits, Except.ok.inj hset ▸ rfl⟩
    · exact nomatch hset
  · rw [assign_eq_setField hdest hname] at h
    exact .inr (setField_cases h)
  · obtain ⟨-, -, hassign⟩ := refuses_of_neither hmap hrecord hname
    obtain ⟨e, he, -⟩ := hassign declared new
    rw [he] at h
    exact nomatch h

/-- A write to a shown field of a record in boxes. -/
theorem assign_shown {shape : RecordType} {values : List Value} {i : Nat} {field : Field}
    (hdest : dest.unboxed = .record shape values) (hname : name ≠ "")
    (hfinds : shape.Finds name i field) (hshown : field.isShown = true) (declared : Ty)
    (new : Value) :
    dest.assign declared name new =
      if new.fits field.type then .ok (dest.refill (.record shape (values.set i new)))
      else .error ⟨.typeMismatch,
        s!"field={name}, from={new.type.text}, to={field.type.text}"⟩ := by
  rw [assign_eq_setField hdest hname, setField_eq hdest, RecordValue.setField_shown hfinds hshown]
  split <;> rfl

/-! ## The laws -/

/-- A read after a write gives what was written. -/
theorem take_assign_self (hdest : dest.Formed) (hname : name ≠ "")
    (h : dest.assign declared name new = .ok written) : written.take name = .ok new := by
  rcases assign_cases hname h with ⟨elem, entries, -, -, rfl⟩ |
    ⟨shape, values, i, field, hvalues, hfinds, hshown, -, rfl⟩
  · rw [take_map hname, MapValue.getKey_string, Ordered.find?_insert_self]
  · have hi : i < values.length := by
      rw [hdest.record hvalues]
      exact hfinds.lt_length
    rw [take_eq_getField (unboxed_refill _ _) hname, RecordValue.getField_shown hfinds hshown]
    simp [hi]

/-- A value put in the place of one field changes no read of another. -/
theorem take_refill_set_of_ne {shape : RecordType} {values : List Value} {i : Nat} {field : Field}
    (hdest : dest.unboxed = .record shape values) (hfinds : shape.Finds name i field)
    (hother : other ≠ "") (hne : other ≠ name) :
    (dest.refill (.record shape (values.set i new))).take other = dest.take other := by
  rw [take_eq_getField (unboxed_refill _ _) hother, take_eq_getField hdest hother]
  exact RecordValue.getField_congr fun j field' hfinds' =>
    List.getElem?_set_ne (hfinds.ne hfinds' hne)

/-- A write changes no other part, and no other refusal. -/
theorem take_assign_of_ne (hname : name ≠ "") (h : dest.assign declared name new = .ok written)
    (hother : other ≠ "") (hne : other ≠ name) : written.take other = dest.take other := by
  rcases assign_cases hname h with ⟨elem, entries, rfl, -, rfl⟩ |
    ⟨shape, values, i, field, hvalues, hfinds, -, -, rfl⟩
  · have hkey : Key.string other ≠ .string name := fun heq => hne (Key.string.inj heq)
    rw [take_map hother, take_map hother, MapValue.getKey_string, MapValue.getKey_string,
      Ordered.find?_insert_of_ne hkey]
  · exact take_refill_set_of_ne hvalues hfinds hother hne

/-- Of two writes to one part the second counts, whether it succeeds or not. -/
theorem assign_assign (hname : name ≠ "") (h : dest.assign declared name new = .ok written)
    (declared' : Ty) (new' : Value) :
    written.assign declared' name new' = dest.assign declared' name new' := by
  rcases assign_cases hname h with ⟨elem, entries, rfl, -, rfl⟩ |
    ⟨shape, values, i, field, hvalues, hfinds, hshown, -, rfl⟩
  · rw [assign_map hname, assign_map hname, MapValue.setKey_string, MapValue.setKey_string,
      Ordered.insert_insert]
  · have hkind : (Value.record shape (values.set i new)).kind ≠ .boxed := nofun
    rw [assign_shown (unboxed_refill _ _) hname hfinds hshown,
      assign_shown hvalues hname hfinds hshown, List.set_set, refill_refill dest hkind]

/-- Every field of a record in boxes holds a value that fits its declared type. -/
def FieldsFit (value : Value) : Prop :=
  ∀ shape values, value.unboxed = .record shape values →
    List.Forall₂ (fun field value => value.fits field.type = true) shape.fields values

theorem WellTyped.fieldsFit {value : Value} (h : value.WellTyped) : value.FieldsFit := by
  intro shape values hvalues
  have hrecord : (Value.record shape values).WellTyped := hvalues ▸ h.unboxed
  cases hrecord with
  | record fits inner => exact fits

/-- Writing what is there changes nothing. -/
theorem assign_take (hdest : dest.Formed) (hfields : dest.FieldsFit) (hname : name ≠ "")
    (h : dest.take name = .ok part) (declared : Ty) :
    dest.assign declared name part = .ok dest := by
  rcases dest.shape_cases with ⟨key, elem, entries, rfl⟩ | ⟨shape, values, hvalues⟩ |
    ⟨hmap, hrecord⟩
  · have hformed : MapValue.Formed ⟨key, elem, entries⟩ := hdest.map rfl
    rw [take_map hname] at h
    obtain rfl : key = .string := MapValue.key_of_getKey h
    rw [MapValue.getKey_string] at h
    split at h
    next hfind =>
      obtain rfl := Except.ok.inj h
      have hfits : _ = true := hformed.fits _ (Ordered.mem_of_find?_eq_some hfind)
      rw [assign_map hname, MapValue.setKey_string, if_pos hfits,
        Ordered.insert_eq_self hformed.ascending hfind]
      rfl
    · exact nomatch h
  · rw [take_eq_getField hvalues hname] at h
    obtain ⟨i, field, hfinds, hshown, hpart⟩ := RecordValue.getField_cases h
    obtain ⟨part', hpart', hfits⟩ := exists_getElem?_of_forall₂ (hfields _ _ hvalues) hfinds.place_eq
    obtain rfl := Option.some.inj (hpart.symm.trans hpart')
    have hset : values.set i part = values := by
      obtain ⟨hi, rfl⟩ := List.getElem?_eq_some_iff.1 hpart
      exact List.set_getElem_self hi
    rw [assign_shown hvalues hname hfinds hshown, if_pos hfits, hset, ← hvalues, refill_unboxed]
  · obtain ⟨-, ⟨e, he, -⟩, -⟩ := refuses_of_neither hmap hrecord hname
    rw [he] at h
    exact nomatch h

end Value

end Dataflow
