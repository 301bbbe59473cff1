import Dataflow.Proofs.Operations

/-!
# Maps in key order and complete records

Some facts about maps and records are not in their types: a map has its entries
in key order, and they fit its types; a record has one value for each field of
its record type.  They hold of zero values, and writes keep them: storing an entry
checks it and keeps the order, and writing a field keeps the number of values.

* `Value.Formed`: the facts about a value.
* `Value.formed_assign`: a write by name keeps them.
* `Ty.formed_zero`: zero values have them.
-/

namespace Dataflow

/-! ## The order of keys -/

instance : Std.TransOrd Key where
  eq_swap {a b} :=
    match a, b with
    | .bool x, .bool y => Std.OrientedOrd.eq_swap (a := x) (b := y)
    | .int x, .int y => Std.OrientedOrd.eq_swap (a := x) (b := y)
    | .string x, .string y => Std.OrientedOrd.eq_swap (a := x) (b := y)
    | .bool _, .int _ | .bool _, .string _ | .int _, .bool _ | .int _, .string _
    | .string _, .bool _ | .string _, .int _ => rfl
  isLE_trans {a b c} hab hbc := by
    cases a with
    | bool x =>
      cases b with
      | bool y =>
        cases c with
        | bool z => exact Std.TransOrd.isLE_trans (a := x) (b := y) hab hbc
        | _ => rfl
      | _ => cases c <;> first | rfl | exact nomatch hbc
    | int x =>
      cases b with
      | bool y => exact nomatch hab
      | int y =>
        cases c with
        | bool z => exact nomatch hbc
        | int z => exact Std.TransOrd.isLE_trans (a := x) (b := y) hab hbc
        | string z => rfl
      | string y => cases c <;> first | rfl | exact nomatch hbc
    | string x =>
      cases b with
      | string y =>
        cases c with
        | string z => exact Std.TransOrd.isLE_trans (a := x) (b := y) hab hbc
        | _ => exact nomatch hbc
      | _ => exact nomatch hab

/-! ## Formed values -/

/-- A map as entries that are stored one by one make it. -/
structure MapValue.Formed (map : MapValue) : Prop where
  ascending : Ordered.Ascending map.entries
  keys : ∀ e ∈ map.entries, e.1.type = map.key
  fits : ∀ e ∈ map.entries, e.2.fits map.value = true

/-- Inside its boxes the value is a map as entries make it, a record with one
value for each field, or neither. -/
structure Value.Formed (value : Value) : Prop where
  map : ∀ {key elem entries}, value.unboxed = .map key elem entries →
    MapValue.Formed ⟨key, elem, entries⟩
  record : ∀ {shape values}, value.unboxed = .record shape values →
    values.length = shape.fields.length

theorem MapValue.formed_empty (key elem : Ty) : (MapValue.empty key elem).Formed :=
  ⟨.nil, nofun, nofun⟩

/-- Storing an entry checks it and keeps the order. -/
theorem MapValue.formed_insert {map written : MapValue} {key : Key} {value : Value}
    (hmap : map.Formed) (h : map.insert key value = .ok written) : written.Formed := by
  obtain ⟨hkey, hfits, rfl⟩ := insert_cases h
  refine ⟨Ordered.ascending_insert key value hmap.ascending, fun e he => ?_, fun e he => ?_⟩
  all_goals rcases Ordered.eq_or_mem_of_mem_insert he with rfl | he
  · exact hkey
  · exact hmap.keys e he
  · exact hfits
  · exact hmap.fits e he

namespace Value

variable {value dest new written : Value} {name : String}

theorem formed_list (list : ListValue) : list.toValue.Formed := ⟨nofun, nofun⟩

theorem formed_map {key elem : Ty} {entries : List (Key × Value)}
    (h : MapValue.Formed ⟨key, elem, entries⟩) : (Value.map key elem entries).Formed where
  map heq := by
    obtain ⟨rfl, rfl, rfl⟩ := Value.map.inj heq
    exact h
  record := nofun

/-- What is inside the boxes says whether a value is formed. -/
theorem formed_refill (dest : Value) {shape : RecordType} {values : List Value}
    (h : values.length = shape.fields.length) : (dest.refill (.record shape values)).Formed where
  map heq := by
    rw [unboxed_refill] at heq
    exact nomatch heq
  record heq := by
    rw [unboxed_refill] at heq
    obtain ⟨rfl, rfl⟩ := Value.record.inj heq
    exact h

/-- Writing a field keeps the number of values. -/
theorem formed_setField (hvalue : value.Formed) (h : value.setField name new = .ok written) :
    written.Formed := by
  obtain ⟨shape, values, i, field, hunboxed, -, -, -, rfl⟩ := setField_cases h
  exact formed_refill value (by rw [List.length_set, hvalue.record hunboxed])

theorem formed_setKey (hvalue : value.Formed) (h : value.setKey name new = .ok written) :
    written.Formed := by
  cases value with
  | map key elem entries =>
    rw [setKey_map] at h
    obtain ⟨map, hmap, rfl⟩ := map_eq_ok h
    exact formed_map (MapValue.formed_insert (hvalue.map rfl) (MapValue.insert_of_setKey hmap))
  | _ => exact nomatch h

/-- A write by name keeps a value formed, whatever is written. -/
theorem formed_assign {declared : Ty} (hdest : dest.Formed) (hname : name ≠ "")
    (h : dest.assign declared name new = .ok written) : written.Formed := by
  rw [assign_eq, if_neg hname] at h
  split at h
  · exact formed_setKey hdest h
  · exact formed_setField hdest h

end Value

theorem Ty.length_zeros (fields : List Field) : (Ty.zeros fields).length = fields.length := by
  induction fields with
  | nil => simp [zeros]
  | cons field fields ih =>
    rw [zeros, List.length_cons, ih, List.length_cons]

theorem Ty.formed_zero : ∀ type : Ty, type.zero.Formed
  | .any | .null | .bool | .int | .float | .string | .interface _ => by
    rw [zero]
    exact ⟨nofun, nofun⟩
  | .list elem => by
    rw [zero]
    exact Value.formed_list (.empty elem)
  | .map key elem => by
    rw [zero]
    exact Value.formed_map (MapValue.formed_empty key elem)
  | .record shape => by
    rw [zero]
    exact Value.formed_refill .null (length_zeros _)
  | .boxed inner => by
    rw [zero]
    exact ⟨(formed_zero inner).map, (formed_zero inner).record⟩

/-- The zero value of a record in boxes is a record of zeros. -/
theorem Ty.unboxed_zero : ∀ {type : Ty} {shape : RecordType}, type.unboxed = .record shape →
    type.zero.unboxed = .record shape (zeros shape.fields)
  | .record ⟨_, _, _⟩, _, h => by
    obtain rfl := Ty.record.inj h
    rw [zero]
    rfl
  | .boxed inner, _, h => by
    have ih : inner.zero.unboxed = _ := @unboxed_zero inner _ h
    rw [zero]
    exact ih

end Dataflow
