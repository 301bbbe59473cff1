import Dataflow.Proofs.Guarding
import Dataflow.Proofs.Lenses

/-!
# Zero values and the types they are of

A zero value fits its type, unless the type is an open type in a box.  To such a
type no value fits, because what is in a box has a type of its own there.  The
fields of a zero record hold the zero values of their types, at every depth, and
a field that is never written keeps it.

* `Ty.zero_fits_iff`: the types that their zero values fit.
* `Ty.zero_eachField`: what the fields of a zero value hold.
* `Value.take_unwritten`: a field that is never written.
* `Ty.zero_inhabits`: the three together.
-/

namespace Dataflow

/-! ## Fitting -/

/-- The type that a value has of its own is not open. -/
theorem Value.type_isOpen (value : Value) : value.type.isOpen = false := by
  cases value <;> rfl

namespace Ty

variable {type : Ty}

/-- No value fits an open type in a box. -/
theorem fits_of_hidesOpen (h : type.hidesOpen = true) (value : Value) :
    value.fits type = false := by
  cases type with
  | boxed inner =>
    refine eq_false_of_ne_true fun hfits => ?_
    have htype : value.type = .boxed inner := Value.type_eq_of_fits hfits rfl
    have hinner : value.unboxed.type = inner.unboxed := by
      rw [← Value.unboxed_type, htype]
      rfl
    have hopen : inner.unboxed.isOpen = true := h
    rw [← hinner, Value.type_isOpen] at hopen
    exact nomatch hopen
  | _ => exact nomatch h

theorem zero_fits_iff : type.zero.fits type = true ↔ type.hidesOpen = false := by
  refine ⟨fun hfits => ?_, zero_fits_of_hidesOpen⟩
  refine eq_false_of_ne_true fun hopen => ?_
  rw [fits_of_hidesOpen hopen] at hfits
  exact nomatch hfits

end Ty

/-! ## Fields at every depth -/

/-- Every field of every record inside the value has a property, at any depth. -/
inductive Value.EachField (holds : Field → Value → Prop) : Value → Prop
  | null : EachField holds .null
  | bool (b : Bool) : EachField holds (.bool b)
  | int (i : Int64) : EachField holds (.int i)
  | float (d : Double) : EachField holds (.float d)
  | string (s : String) : EachField holds (.string s)
  | list {elem : Ty} {items : List Value} (inner : ∀ item ∈ items, EachField holds item) :
      EachField holds (.list elem items)
  | map {key value : Ty} {entries : List (Key × Value)}
      (inner : ∀ e ∈ entries, EachField holds e.2) : EachField holds (.map key value entries)
  | record {shape : RecordType} {values : List Value}
      (fields : List.Forall₂ holds shape.fields values)
      (inner : ∀ value ∈ values, EachField holds value) : EachField holds (.record shape values)
  | boxed {inner : Value} (h : EachField holds inner) : EachField holds (.boxed inner)

namespace Ty

theorem forall₂_zeros (fields : List Field) :
    List.Forall₂ (fun field value => value = field.type.zero) fields (zeros fields) := by
  induction fields with
  | nil =>
    rw [zeros]
    exact .nil
  | cons field fields ih =>
    rw [zeros]
    exact .cons rfl ih

variable {holds : Field → Value → Prop}

mutual

/-- What holds of zero values in the fields of their types holds of every field of
a zero value. -/
theorem zero_eachField (hzero : ∀ field : Field, holds field field.type.zero) :
    ∀ type : Ty, type.zero.EachField holds
  | .any | .null | .interface _ => by rw [zero]; exact .null
  | .bool => by rw [zero]; exact .bool _
  | .int => by rw [zero]; exact .int _
  | .float => by rw [zero]; exact .float _
  | .string => by rw [zero]; exact .string _
  | .list _ => by rw [zero]; exact .list nofun
  | .map _ _ => by rw [zero]; exact .map nofun
  | .record ⟨_, fields, _⟩ => by
    rw [zero]
    exact .record ((forall₂_zeros fields).imp fun field _ heq => heq ▸ hzero field)
      (zeros_eachField hzero fields)
  | .boxed inner => by
    rw [zero]
    exact .boxed (zero_eachField hzero inner)

theorem zeros_eachField (hzero : ∀ field : Field, holds field field.type.zero) :
    ∀ (fields : List Field), ∀ value ∈ zeros fields, value.EachField holds
  | [], value, hvalue => by
    rw [zeros] at hvalue
    exact nomatch hvalue
  | ⟨_, type, _⟩ :: rest, value, hvalue => by
    rw [zeros] at hvalue
    rcases List.mem_cons.1 hvalue with rfl | hvalue
    · exact zero_eachField hzero type
    · exact zeros_eachField hzero rest value hvalue

end

end Ty

/-! ## Fields that are never written -/

/-- A read of a shown field of a zero record gives the zero value of its type. -/
theorem Ty.take_zero {type part : Ty} {shape : RecordType} {name : String}
    (hshape : type.unboxed = .record shape) (hname : name ≠ "") (h : type.part name = .ok part) :
    type.zero.take name = .ok part.zero := by
  rcases part_eq_ok_cases h hname with rfl | ⟨shape', field, hshape', hfield, hshown, rfl⟩
  · exact nomatch hshape
  obtain rfl := Ty.record.inj (hshape.symm.trans hshape')
  obtain ⟨i, hfinds⟩ := RecordOf.exists_finds hfield
  obtain ⟨value, hvalue, rfl⟩ := exists_getElem?_of_forall₂ (forall₂_zeros _) hfinds.place_eq
  rw [Value.take_eq_getField (unboxed_zero hshape) hname,
    RecordValue.getField_shown hfinds hshown, hvalue]

/-- Writes to fields of other names leave a field as it is. -/
theorem Value.take_unwritten {value written : Value} {writes : List (String × Value)}
    {name : String} (hname : name ≠ "") (hwrites : ∀ write ∈ writes, write.1 ≠ name)
    (h : writes.foldlM (fun value write => value.setField write.1 write.2) value = .ok written) :
    written.take name = value.take name := by
  induction writes generalizing value with
  | nil => rw [Except.ok.inj h]
  | cons write writes ih =>
    obtain ⟨hwrite, hwrites⟩ := List.forall_mem_cons.1 hwrites
    rw [List.foldlM_cons] at h
    obtain ⟨next, hnext, h⟩ := bind_eq_ok h
    obtain ⟨shape, values, i, field, hvalue, hfinds, -, -, rfl⟩ := setField_cases hnext
    rw [ih hwrites h, take_refill_set_of_ne hvalue hfinds hname hwrite.symm]

/-! ## The zero values of all types -/

/-- A zero value fits its type unless the type is an open type in a box, which no
value fits.  At every depth a field of a zero value holds the zero value of its
declared type, which fits it on the same condition.  A shown field of a record in
boxes that is never written can be read and gives that zero value, and this can be
stored in a part of the same declared type exactly on that condition. -/
theorem Ty.zero_inhabits :
    (∀ type : Ty, type.zero.fits type = true ↔ type.hidesOpen = false) ∧
    (∀ type : Ty, type.hidesOpen = true → ∀ value : Value, value.fits type = false) ∧
    (∀ type : Ty, type.zero.EachField fun field value =>
      value = field.type.zero ∧ (value.fits field.type = true ↔ field.type.hidesOpen = false)) ∧
    ∀ (type part : Ty) (shape : RecordType) (name : String) (writes : List (String × Value))
      (value : Value), type.unboxed = .record shape → name ≠ "" → type.part name = .ok part →
      (∀ write ∈ writes, write.1 ≠ name) →
      writes.foldlM (fun value write => value.setField write.1 write.2) type.zero = .ok value →
        value.take name = .ok part.zero ∧
        ∀ (dest : Value) (other : String), dest.type.part other = .ok part →
          ((∃ written, dest.assign dest.type other part.zero = .ok written) ↔
            part.hidesOpen = false) := by
  refine ⟨fun type => zero_fits_iff, fun type => fits_of_hidesOpen,
    zero_eachField fun field => ⟨rfl, zero_fits_iff⟩, ?_⟩
  intro type part shape name writes value hshape hname hpart hwrites h
  refine ⟨by rw [Value.take_unwritten hname hwrites h, take_zero hshape hname hpart],
    fun dest other hother => ?_⟩
  rw [Value.exists_assign_iff hother, zero_fits_iff]

/-- A record type with a boxed field of any type. -/
def crate : RecordType :=
  ((RecordOf.named "Crate").field "label" .string).field "content" (.boxed .any)

/-- The content of a labelled crate is still its zero value, and no crate takes it. -/
theorem Ty.zero_inhabits_crate :
    let content : Ty := .boxed .any
    content.hidesOpen = true ∧ (∀ value : Value, value.fits content = false) ∧
    ∃ labelled, [("label", Value.string "fragile")].foldlM
        (fun value write => value.setField write.1 write.2) (Ty.record crate).zero = .ok labelled ∧
      labelled.take "content" = .ok content.zero ∧
      ((∃ written, labelled.assign labelled.type "content" content.zero = .ok written) ↔
        content.hidesOpen = false) := by
  intro content
  obtain ⟨-, hnone, -, hunwritten⟩ := zero_inhabits
  refine ⟨rfl, hnone content rfl, _, rfl, ?_⟩
  obtain ⟨hread, hwrite⟩ := hunwritten (.record crate) content crate "content"
    [("label", .string "fragile")] _ rfl (by decide) rfl (by decide) rfl
  exact ⟨hread, hwrite _ "content" rfl⟩

/-- Neither the zero value of a boxed open type nor the unwritten field of a zero
record of that type can be stored where they come from. -/
theorem Ty.zero_boxed_any_not_fits :
    (Ty.boxed .any).zero.fits (.boxed .any) = false ∧
    (Ty.record crate).part "content" = .ok (.boxed .any) ∧
    (Ty.record crate).zero.take "content" = .ok (Ty.boxed .any).zero ∧
    ∃ e, (Ty.record crate).zero.assign (.record crate) "content" (Ty.boxed .any).zero = .error e ∧
      e.kind = .typeMismatch :=
  ⟨rfl, rfl, rfl, _, rfl, rfl⟩

end Dataflow
