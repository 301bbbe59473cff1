import Dataflow.Proofs.Assignability
import Dataflow.Proofs.Lists
import Dataflow.Proofs.Tables
import Dataflow.Ty.Part
import Dataflow.Value.Part

/-!
# Well-typed values

A value is well typed when every container inside it holds what it declares to
hold.  `Value.OfType` adds that the value fits a declared type; it is what a
node may expect of its input.

* `Ty.part_eq_ok_cases`: the two kinds of types that have named parts.
* `Value.OfType.take`: a part of a typed value has the declared type of the
  part; only a map can lack one.
* `Value.OfType.assign`: storing a value of the declared type of a part succeeds
  and keeps the type of the whole.
* `Ty.zero_ofType`: the zero value of a type has the type, unless a box of the
  type hides an open type.
-/

namespace Dataflow

/-! ## The judgement -/

/-- Every container inside the value holds what it declares to hold. -/
inductive Value.WellTyped : Value → Prop
  | null : WellTyped .null
  | bool (b : Bool) : WellTyped (.bool b)
  | int (i : Int64) : WellTyped (.int i)
  | float (d : Double) : WellTyped (.float d)
  | string (s : String) : WellTyped (.string s)
  | list {elem : Ty} {items : List Value} (fits : ∀ item ∈ items, item.fits elem = true)
      (inner : ∀ item ∈ items, WellTyped item) : WellTyped (.list elem items)
  | map {key value : Ty} {entries : List (Key × Value)} (keys : ∀ e ∈ entries, e.1.type = key)
      (fits : ∀ e ∈ entries, e.2.fits value = true) (inner : ∀ e ∈ entries, WellTyped e.2) :
      WellTyped (.map key value entries)
  | record {shape : RecordType} {values : List Value}
      (fits : List.Forall₂ (fun field value => value.fits field.type = true) shape.fields values)
      (inner : ∀ value ∈ values, WellTyped value) : WellTyped (.record shape values)
  | boxed {inner : Value} (h : WellTyped inner) : WellTyped (.boxed inner)

/-- A well-typed value that fits a declared type. -/
structure Value.OfType (value : Value) (type : Ty) : Prop where
  wellTyped : value.WellTyped
  fits : value.fits type = true

/-! ## Parts of types -/

namespace Ty

/-- A type with a named part is a map with text keys or a record in boxes. -/
theorem part_eq_ok_cases {type part : Ty} {name : String} (h : type.part name = .ok part)
    (hname : name ≠ "") :
    type = .map .string part ∨ ∃ shape field, type.unboxed = .record shape ∧
      shape.field? name = some field ∧ field.isShown = true ∧ field.type = part := by
  unfold Ty.part at h
  rw [if_neg hname] at h
  split at h
  next key value =>
    split at h
    next hkey => exact .inl (by rw [hkey, Except.ok.inj h])
    · exact nomatch h
  · split at h
    next shape hshape =>
      split at h
      · exact nomatch h
      next field hfield =>
        split at h
        next hshown => exact .inr ⟨shape, field, hshape, hfield, hshown, Except.ok.inj h⟩
        · exact nomatch h
    · exact nomatch h

theorem isOpen_of_unboxed {type : Ty} {shape : RecordType} (h : type.unboxed = .record shape) :
    type.isOpen = false := by
  cases type <;> first | rfl | exact nomatch h

end Ty

/-! ## Parts of values -/

instance : Std.LawfulEqOrd Key where
  compare_self {key} := by
    cases key with
    | bool b => exact Std.compare_self (a := b)
    | int i => exact Std.compare_self (a := i)
    | string s => exact Std.compare_self (a := s)
  eq_of_compare {a b} h :=
    match a, b, h with
    | .bool x, .bool y, h => congrArg Key.bool (Std.LawfulEqOrd.eq_of_compare (a := x) (b := y) h)
    | .int x, .int y, h => congrArg Key.int (Std.LawfulEqOrd.eq_of_compare (a := x) (b := y) h)
    | .string x, .string y, h =>
      congrArg Key.string (Std.LawfulEqOrd.eq_of_compare (a := x) (b := y) h)

namespace RecordOf

/-- The two lookups by name find the same field. -/
theorem position?_of_field? {τ : Type} {record : RecordOf τ} {name : String} {field : FieldOf τ}
    (h : record.field? name = some field) :
    ∃ i, record.position? name = some i ∧ record.fields[i]? = some field := by
  rw [field?, List.find?_eq_bind_findIdx?_getElem?] at h
  exact Option.bind_eq_some_iff.1 h

end RecordOf

namespace RecordValue

theorem getField_eq_ok (record : RecordValue) {name : String} {field : Field}
    (hfits : List.Forall₂ (fun field value => value.fits field.type = true)
      record.shape.fields record.values)
    (hfield : record.shape.field? name = some field) (hshown : field.isShown = true) :
    ∃ value ∈ record.values, record.getField name = .ok value ∧
      value.fits field.type = true := by
  obtain ⟨i, hi, hfi⟩ := RecordOf.position?_of_field? hfield
  obtain ⟨value, hvalue, hfit⟩ := exists_getElem?_of_forall₂ hfits hfi
  refine ⟨value, List.mem_of_getElem? hvalue, ?_, hfit⟩
  rw [getField, hi, hfield]
  simp [hshown, hvalue]

theorem setField_eq_ok (record : RecordValue) {name : String} {field : Field} {new : Value}
    (hfits : List.Forall₂ (fun field value => value.fits field.type = true)
      record.shape.fields record.values)
    (hfield : record.shape.field? name = some field) (hshown : field.isShown = true)
    (hnew : new.fits field.type = true) :
    ∃ i, record.setField name new = .ok { record with values := record.values.set i new } ∧
      List.Forall₂ (fun field value => value.fits field.type = true)
        record.shape.fields (record.values.set i new) := by
  obtain ⟨i, hi, hfi⟩ := RecordOf.position?_of_field? hfield
  refine ⟨i, ?_, forall₂_set hfits hfi hnew⟩
  simp [setField, Write.written, storeField, hi, hfield, hshown, hnew]

end RecordValue

namespace Value

/-- Only a map can lack an entry under a name. -/
def hasEntry (value : Value) (name : String) : Bool :=
  match value with
  | .map _ _ entries => name = "" || (Ordered.find? (.string name) entries).isSome
  | _ => true

theorem WellTyped.unboxed {value : Value} (h : value.WellTyped) : value.unboxed.WellTyped := by
  induction h with
  | boxed _ ih => exact ih
  | null => exact .null
  | bool b => exact .bool b
  | int i => exact .int i
  | float d => exact .float d
  | string s => exact .string s
  | list fits inner => exact .list fits inner
  | map keys fits inner => exact .map keys fits inner
  | record fits inner => exact .record fits inner

/-- A value whose type is a record in boxes is a record in boxes. -/
theorem unboxed_eq_record {value : Value} {shape : RecordType}
    (h : value.type.unboxed = .record shape) : ∃ values, value.unboxed = .record shape values := by
  rw [unboxed_type] at h
  cases hv : value.unboxed with
  | record shape' values =>
    rw [hv] at h
    obtain rfl := Ty.record.inj h
    exact ⟨values, rfl⟩
  | _ => rw [hv] at h; exact nomatch h

/-- A value whose type is a map is a map. -/
theorem eq_map_of_type {value : Value} {key elem : Ty} (h : value.type = .map key elem) :
    ∃ entries, value = .map key elem entries := by
  cases value with
  | map k v entries =>
    obtain ⟨rfl, rfl⟩ := Ty.map.inj h
    exact ⟨entries, rfl⟩
  | _ => exact nomatch h

theorem take_eq_getField {value : Value} {shape : RecordType} {values : List Value}
    {name : String} (h : value.unboxed = .record shape values) (hname : name ≠ "") :
    value.take name = RecordValue.getField ⟨shape, values⟩ name := by
  have hget : value.getField name = RecordValue.getField ⟨shape, values⟩ name := by
    rw [getField, h]
  unfold take
  rw [if_neg hname]
  split
  · exact nomatch h
  · exact hget

theorem take_map {key elem : Ty} {entries : List (Key × Value)} {name : String}
    (hname : name ≠ "") :
    (Value.map key elem entries).take name = MapValue.getKey ⟨key, elem, entries⟩ name := by
  rw [take, if_neg hname]
  rfl

/-- A part of a typed value has the declared type of the part, and it is there
unless the value is a map that lacks it. -/
theorem OfType.take {value : Value} {type part : Ty} {name : String} (h : value.OfType type)
    (hpart : type.part name = .ok part) :
    (∃ taken, value.take name = .ok taken ∧ taken.OfType part ∧ value.hasEntry name = true) ∨
      ((∃ detail, value.take name = .error ⟨.keyNotFound, detail⟩) ∧
        value.hasEntry name = false) := by
  by_cases hname : name = ""
  · subst hname
    obtain rfl := Except.ok.inj hpart
    refine .inl ⟨value, rfl, h, ?_⟩
    cases value <;> rfl
  rcases Ty.part_eq_ok_cases hpart hname with rfl | ⟨shape, field, hshape, hfield, hshown, rfl⟩
  · obtain ⟨entries, rfl⟩ := eq_map_of_type (type_eq_of_fits h.fits rfl)
    rw [take_map hname, MapValue.getKey, MapValue.find?]
    cases hf : Ordered.find? (.string name) entries with
    | none => exact .inr ⟨⟨_, rfl⟩, by simp [hasEntry, hname, hf]⟩
    | some taken =>
      refine .inl ⟨taken, rfl, ?_, by simp [hasEntry, hf]⟩
      cases h.wellTyped with
      | map keys fits inner =>
        have hmem := Ordered.mem_of_find?_eq_some hf
        exact ⟨inner _ hmem, fits _ hmem⟩
  · have htype : value.type = type := type_eq_of_fits h.fits (Ty.isOpen_of_unboxed hshape)
    obtain ⟨values, hvalues⟩ := unboxed_eq_record (htype ▸ hshape)
    have hwt : (Value.record shape values).WellTyped := hvalues ▸ h.wellTyped.unboxed
    cases hwt with
    | record fits inner =>
      obtain ⟨taken, hmem, hget, hfit⟩ :=
        RecordValue.getField_eq_ok ⟨shape, values⟩ fits hfield hshown
      refine .inl ⟨taken, ?_, ⟨inner _ hmem, hfit⟩, ?_⟩
      · rw [take_eq_getField hvalues hname, hget]
      · cases value <;> first | rfl | exact nomatch hvalues

/-! ## Storing parts -/

theorem WellTyped.setField {value new : Value} {shape : RecordType} {values : List Value}
    {name : String} {field : Field} (h : value.WellTyped)
    (hvalues : value.unboxed = .record shape values) (hfield : shape.field? name = some field)
    (hshown : field.isShown = true) (hnew : new.OfType field.type) :
    ∃ value', value.setField name new = .ok value' ∧ value'.WellTyped ∧
      value'.type = value.type := by
  induction h with
  | @record shape' values' fits inner =>
    obtain ⟨rfl, rfl⟩ := Value.record.inj hvalues
    obtain ⟨i, hset, hfits⟩ :=
      RecordValue.setField_eq_ok ⟨shape', values'⟩ fits hfield hshown hnew.fits
    refine ⟨.record shape' (values'.set i new), ?_, .record hfits fun value hvalue => ?_, rfl⟩
    · rw [setField_record, hset]
      rfl
    · rcases List.mem_or_eq_of_mem_set hvalue with hmem | rfl
      · exact inner _ hmem
      · exact hnew.wellTyped
  | boxed _ ih =>
    obtain ⟨value', hset, hwt, htype⟩ := ih hvalues
    refine ⟨.boxed value', ?_, .boxed hwt, congrArg Ty.boxed htype⟩
    rw [setField_boxed, hset]
    rfl
  | _ => exact nomatch hvalues

/-- Storing a value of the declared type of a part succeeds and keeps the type
of the whole. -/
theorem OfType.assign {value new : Value} {type part : Ty} {name : String}
    (h : value.OfType type) (hpart : type.part name = .ok part) (hname : name ≠ "")
    (hnew : new.OfType part) :
    ∃ value', value.assign type name new = .ok value' ∧ value'.OfType type := by
  rcases Ty.part_eq_ok_cases hpart hname with rfl | ⟨shape, field, hshape, hfield, hshown, rfl⟩
  · obtain ⟨entries, rfl⟩ := eq_map_of_type (type_eq_of_fits h.fits rfl)
    refine ⟨.map .string part (Ordered.insert (.string name) new entries), ?_, ?_, h.fits⟩
    · have hstored : MapValue.insert ⟨.string, part, entries⟩ (.string name) new =
          .ok ⟨.string, part, Ordered.insert (.string name) new entries⟩ :=
        MapValue.insert_of_fits rfl hnew.fits
      simp [assign_eq, hname, setKey_map, MapValue.setKey_eq, MapValue.hasTextKeys, hstored,
        Except.map, MapValue.toValue]
    · cases h.wellTyped with
      | map keys fits inner =>
        refine .map (fun e he => ?_) (fun e he => ?_) fun e he => ?_
        all_goals rcases Ordered.eq_or_mem_of_mem_insert he with rfl | he
        · rfl
        · exact keys e he
        · exact hnew.fits
        · exact fits e he
        · exact hnew.wellTyped
        · exact inner e he
  · have htype : value.type = type := type_eq_of_fits h.fits (Ty.isOpen_of_unboxed hshape)
    obtain ⟨values, hvalues⟩ := unboxed_eq_record (htype ▸ hshape)
    obtain ⟨value', hset, hwt, htype'⟩ := h.wellTyped.setField hvalues hfield hshown hnew
    refine ⟨value', ?_, hwt, ?_⟩
    · rw [assign_eq, if_neg hname]
      split
      · exact nomatch hvalues
      · exact hset
    · show value'.type.fits type = true
      rw [htype', htype]
      exact Ty.fits_refl type

end Value

/-! ## Zero values -/

namespace Ty

mutual

/-- Whether no box of the type hides an open type, at any depth. -/
def boxesClosed : Ty → Bool
  | .list elem => elem.boxesClosed
  | .map key value => key.boxesClosed && value.boxesClosed
  | .record ⟨_, fields, _⟩ => fieldsClosed fields
  | .boxed inner => !inner.unboxed.isOpen && inner.boxesClosed
  | _ => true

/-- Whether no box of the types of some fields hides an open type. -/
def fieldsClosed : List Field → Bool
  | [] => true
  | ⟨_, type, _⟩ :: rest => type.boxesClosed && fieldsClosed rest

end

/-- The zero value of a type that is not open under its boxes has that type. -/
theorem zero_type : ∀ {type : Ty}, type.unboxed.isOpen = false → type.zero.type = type
  | .null, _ | .bool, _ | .int, _ | .float, _ | .string, _ | .list _, _ | .map _ _, _
  | .record ⟨_, _, _⟩, _ => by rw [zero]; rfl
  | .boxed inner, h => by
    have ih : inner.zero.type = inner := zero_type h
    rw [zero, Value.type, ih]

theorem fits_of_zero_type {type : Ty} (h : type.zero.type = type) :
    type.zero.fits type = true := by
  show type.zero.type.fits type = true
  rw [h]
  exact fits_refl type

/-- Whether the type is an open type inside one or more boxes. -/
def hidesOpen : Ty → Bool
  | .boxed inner => inner.unboxed.isOpen
  | _ => false

theorem zero_fits_of_hidesOpen {type : Ty} (h : type.hidesOpen = false) :
    type.zero.fits type = true := by
  cases type with
  | any => exact fits_any _
  | interface shape => exact fits_iff.2 (.inr (.inr ⟨shape, rfl, .inl (by rw [zero]; rfl)⟩))
  | boxed inner =>
    have htype : (Ty.boxed inner).zero.type = .boxed inner := zero_type h
    exact fits_of_zero_type htype
  | _ => exact fits_of_zero_type (zero_type rfl)

theorem zero_fits {type : Ty} (h : type.boxesClosed = true) : type.zero.fits type = true := by
  refine zero_fits_of_hidesOpen ?_
  cases type with
  | boxed inner =>
    rw [boxesClosed, Bool.and_eq_true, Bool.not_eq_true'] at h
    exact h.1
  | _ => rfl

mutual

theorem zero_wellTyped : ∀ {type : Ty}, type.boxesClosed = true → type.zero.WellTyped
  | .any, _ | .null, _ | .interface _, _ => by rw [zero]; exact .null
  | .bool, _ => by rw [zero]; exact .bool _
  | .int, _ => by rw [zero]; exact .int _
  | .float, _ => by rw [zero]; exact .float _
  | .string, _ => by rw [zero]; exact .string _
  | .list _, _ => by rw [zero]; exact .list nofun nofun
  | .map _ _, _ => by rw [zero]; exact .map nofun nofun nofun
  | .record ⟨_, fields, _⟩, h => by
    have hclosed : fieldsClosed fields = true := h
    rw [zero]
    exact .record (zeros_ofType hclosed).1 (zeros_ofType hclosed).2
  | .boxed inner, h => by
    rw [boxesClosed, Bool.and_eq_true] at h
    rw [zero]
    exact .boxed (zero_wellTyped h.2)

theorem zeros_ofType : ∀ {fields : List Field}, fieldsClosed fields = true →
    List.Forall₂ (fun field value => value.fits field.type = true) fields (zeros fields) ∧
      ∀ value ∈ zeros fields, value.WellTyped
  | [], _ => by
    rw [zeros]
    exact ⟨.nil, nofun⟩
  | ⟨_, type, _⟩ :: rest, h => by
    rw [fieldsClosed, Bool.and_eq_true] at h
    obtain ⟨hfits, hinner⟩ := zeros_ofType h.2
    rw [zeros]
    refine ⟨.cons (zero_fits h.1) hfits, fun value hvalue => ?_⟩
    rcases List.mem_cons.1 hvalue with rfl | hvalue
    · exact zero_wellTyped h.1
    · exact hinner value hvalue

end

/-- The zero value of a type has the type. -/
theorem zero_ofType {type : Ty} (h : type.boxesClosed = true) : type.zero.OfType type :=
  ⟨zero_wellTyped h, zero_fits h⟩

end Ty

end Dataflow
