import Dataflow.Proofs.Outcome
import Dataflow.Proofs.WellTyped

/-!
# Types, reads and writes agree about parts

The declared type of a part, the read of the part and the write to it are three
lookups of their own.  They branch on the same things: a map with or without
text keys, a record in any number of boxes, or neither.  There is a section for
each of the three, and `Value.shape_cases` puts them together.

* `Value.refill`: a value with what is inside its boxes replaced, which is what a
  write to a boxed record does (`Value.setField_eq`).
* `Value.assign_of_part`: a write to a part succeeds on the values that fit the
  declared type of the part.
* `Value.parts_agree`: on well-typed values the three lookups agree, in their
  results and in the kinds of their errors.
-/

namespace Dataflow

/-! ## Kinds of refusals -/

/-- The kind of error with which a write is refused where the type or a read is
refused with the given kind. -/
def AccessKind.ofWrite : AccessKind → AccessKind
  | .fieldNotAccessible => .fieldNotWritable
  | kind => kind

/-- What is there after a write in place, refused or not. -/
def Value.assigned (dest : Value) (declared : Ty) (name : String) (new : Value) : Value :=
  (storePart declared name new).left dest

/-- A refused write leaves the value as it was. -/
theorem Value.assigned_of_error {dest new : Value} {declared : Ty} {name : String}
    {e : AccessError} (h : dest.assign declared name new = .error e) :
    dest.assigned declared name new = dest :=
  (atomic_storePart declared name new).left_of_error h

/-! ## Fields of records -/

namespace RecordOf

variable {τ : Type} {record : RecordOf τ} {name : String} {i : Nat} {field : FieldOf τ}

/-- A name finds a field, at a place of the record. -/
structure Finds (record : RecordOf τ) (name : String) (i : Nat) (field : FieldOf τ) : Prop where
  position_eq : record.position? name = some i
  field_eq : record.field? name = some field
  place_eq : record.fields[i]? = some field
  name_eq : field.name = name

theorem exists_finds (h : record.field? name = some field) : ∃ i, record.Finds name i field := by
  obtain ⟨i, hi, hplace⟩ := position?_of_field? h
  exact ⟨i, hi, h, hplace, by simpa using List.find?_some h⟩

/-- The two lookups by name find the same field, or both find nothing. -/
theorem finds_cases (record : RecordOf τ) (name : String) :
    (record.position? name = none ∧ record.field? name = none) ∨
      ∃ i field, record.Finds name i field := by
  cases hfield : record.field? name with
  | some field =>
    obtain ⟨i, hi⟩ := exists_finds hfield
    exact .inr ⟨i, field, hi⟩
  | none =>
    refine .inl ⟨List.findIdx?_eq_none_iff.2 fun field hmem => ?_, rfl⟩
    simpa using List.find?_eq_none.1 hfield field hmem

end RecordOf

/-- The declared type of a part of a record in boxes. -/
theorem Ty.part_of_unboxed {type : Ty} {shape : RecordType} (h : type.unboxed = .record shape)
    {name : String} (hname : name ≠ "") :
    type.part name =
      match shape.field? name with
      | none => .error ⟨.fieldNotFound, s!"type {type.text} has no field {name}"⟩
      | some field =>
        if field.isShown then .ok field.type
        else .error ⟨.fieldNotAccessible, s!"type {type.text} has a private field {name}"⟩ := by
  unfold part
  rw [if_neg hname]
  split
  · exact nomatch h
  · exact h ▸ rfl

theorem Ty.part_map {key elem : Ty} {name : String} (hname : name ≠ "") :
    (Ty.map key elem).part name =
      if key = .string then .ok elem
      else .error ⟨.unsupportedKeyType,
        s!"type {(Ty.map key elem).text} is not a map with string keys"⟩ := by
  rw [part, if_neg hname]

namespace RecordValue

variable {record : RecordValue} {name : String} {i : Nat} {field : Field}

theorem getField_missing (hi : record.shape.position? name = none)
    (hfield : record.shape.field? name = none) :
    record.getField name = .error ⟨.fieldNotFound, record.fieldDetail name⟩ := by
  rw [getField, hi, hfield]

theorem setField_missing (hi : record.shape.position? name = none)
    (hfield : record.shape.field? name = none) (new : Value) :
    record.setField name new = .error ⟨.fieldNotFound, record.fieldDetail name⟩ := by
  simp [setField, Write.written, storeField, hi, hfield]

theorem getField_hidden (h : record.shape.Finds name i field) (hhidden : ¬field.isShown = true) :
    record.getField name = .error ⟨.fieldNotAccessible, record.fieldDetail name⟩ := by
  rw [getField, h.position_eq, h.field_eq]
  simp [hhidden]

theorem setField_hidden (h : record.shape.Finds name i field) (hhidden : ¬field.isShown = true)
    (new : Value) :
    record.setField name new = .error ⟨.fieldNotWritable, record.fieldDetail name⟩ := by
  simp [setField, Write.written, storeField, h.position_eq, h.field_eq, hhidden]

/-- A read of a shown field gives the value at its place. -/
theorem getField_shown (h : record.shape.Finds name i field) (hshown : field.isShown = true) :
    record.getField name =
      match record.values[i]? with
      | some value => .ok value
      | none => .error ⟨.fieldNotFound, record.fieldDetail name⟩ := by
  rw [getField, h.position_eq, h.field_eq]
  simp only [hshown]
  rfl

/-- A write to a shown field replaces the value at its place, if the new one
fits. -/
theorem setField_shown (h : record.shape.Finds name i field) (hshown : field.isShown = true)
    (new : Value) :
    record.setField name new =
      if new.fits field.type then .ok { record with values := record.values.set i new }
      else .error ⟨.typeMismatch,
        s!"field={name}, from={new.type.text}, to={field.type.text}"⟩ := by
  cases hfits : new.fits field.type <;>
    simp [setField, Write.written, storeField, h.position_eq, h.field_eq, hshown, hfits]

/-- A read that succeeds is one of a shown field with a value. -/
theorem getField_cases {value : Value} (h : record.getField name = .ok value) :
    ∃ i field, record.shape.Finds name i field ∧ field.isShown = true ∧
      record.values[i]? = some value := by
  rcases record.shape.finds_cases name with ⟨hi, hfield⟩ | ⟨i, field, hfinds⟩
  · rw [getField_missing hi hfield] at h
    exact nomatch h
  by_cases hshown : field.isShown = true
  · rw [getField_shown hfinds hshown] at h
    split at h
    next hvalue => exact ⟨i, field, hfinds, hshown, Except.ok.inj h ▸ hvalue⟩
    · exact nomatch h
  · rw [getField_hidden hfinds hshown] at h
    exact nomatch h

/-- A write that succeeds replaces the value of a shown field by one that fits. -/
theorem setField_cases {written : RecordValue} {new : Value}
    (h : record.setField name new = .ok written) :
    ∃ i field, record.shape.Finds name i field ∧ field.isShown = true ∧
      new.fits field.type = true ∧ written = { record with values := record.values.set i new } := by
  rcases record.shape.finds_cases name with ⟨hi, hfield⟩ | ⟨i, field, hfinds⟩
  · rw [setField_missing hi hfield] at h
    exact nomatch h
  by_cases hshown : field.isShown = true
  · rw [setField_shown hfinds hshown] at h
    split at h
    next hfits => exact ⟨i, field, hfinds, hshown, hfits, (Except.ok.inj h).symm⟩
    · exact nomatch h
  · rw [setField_hidden hfinds hshown] at h
    exact nomatch h

/-- Where the type of a record in boxes refuses a field, so do reads of the
record and writes to it. -/
theorem refuses_of_part {type : Ty} {e : AccessError} (htype : type.unboxed = .record record.shape)
    (hname : name ≠ "") (h : type.part name = .error e) :
    (∃ e', record.getField name = .error e' ∧ e'.kind = e.kind) ∧
      ∀ new, ∃ e', record.setField name new = .error e' ∧ e'.kind = e.kind.ofWrite := by
  rw [Ty.part_of_unboxed htype hname] at h
  rcases record.shape.finds_cases name with ⟨hi, hfield⟩ | ⟨i, field, hfinds⟩
  · rw [hfield] at h
    obtain rfl := Except.error.inj h
    exact ⟨⟨_, getField_missing hi hfield, rfl⟩, fun new => ⟨_, setField_missing hi hfield new, rfl⟩⟩
  · rw [hfinds.field_eq] at h
    dsimp only at h
    split at h
    · exact nomatch h
    next hhidden =>
      obtain rfl := Except.error.inj h
      exact ⟨⟨_, getField_hidden hfinds hhidden, rfl⟩,
        fun new => ⟨_, setField_hidden hfinds hhidden new, rfl⟩⟩

end RecordValue

/-! ## Records in boxes -/

namespace Value

/-- The value with what is inside its boxes replaced. -/
def refill : Value → Value → Value
  | .boxed inner, content => .boxed (inner.refill content)
  | _, content => content

theorem refill_unboxed (value : Value) : value.refill value.unboxed = value := by
  induction value using Value.unboxed.induct with
  | case1 inner ih => exact congrArg Value.boxed ih
  | case2 value h =>
    cases value with
    | boxed inner => exact absurd rfl (h inner)
    | _ => rfl

theorem unboxed_refill (value content : Value) :
    (value.refill content).unboxed = content.unboxed := by
  induction value using Value.unboxed.induct with
  | case1 inner ih => exact ih
  | case2 value h =>
    cases value with
    | boxed inner => exact absurd rfl (h inner)
    | _ => rfl

/-- What is not in a box itself can be replaced again. -/
theorem refill_refill (value : Value) {content : Value} (hcontent : content.kind ≠ .boxed)
    (content' : Value) : (value.refill content).refill content' = value.refill content' := by
  induction value using Value.unboxed.induct with
  | case1 inner ih => exact congrArg Value.boxed ih
  | case2 value h =>
    cases value with
    | boxed inner => exact absurd rfl (h inner)
    | _ => cases content <;> first | rfl | exact absurd rfl hcontent

variable {value : Value} {shape : RecordType} {values : List Value} {name : String}

/-- A write to a record in boxes is a write to the record. -/
theorem setField_eq (h : value.unboxed = .record shape values) (name : String) (new : Value) :
    value.setField name new =
      (RecordValue.setField ⟨shape, values⟩ name new).map fun record =>
        value.refill record.toValue := by
  induction value using Value.unboxed.induct with
  | case1 inner ih =>
    rw [setField_boxed, ih h]
    cases RecordValue.setField ⟨shape, values⟩ name new <;> rfl
  | case2 value hboxed =>
    obtain rfl : value = .record shape values := by
      cases value with
      | boxed inner => exact absurd rfl (hboxed inner)
      | _ => exact h
    exact setField_record shape values name new

/-- A write by name to a record in boxes is a write to a field. -/
theorem assign_eq_setField (h : value.unboxed = .record shape values) (hname : name ≠ "")
    (declared : Ty) (new : Value) : value.assign declared name new = value.setField name new := by
  rw [assign_eq, if_neg hname]
  split
  · exact nomatch h
  · rfl

/-- What is no record in boxes has no field to write to. -/
theorem setField_of_neither (h : ∀ shape values, value.unboxed ≠ .record shape values)
    (name : String) (new : Value) :
    ∃ e, value.setField name new = .error e ∧ e.kind = .unsupportedShape := by
  induction value using Value.unboxed.induct with
  | case1 inner ih =>
    obtain ⟨e, he, hkind⟩ := ih h
    exact ⟨e, by rw [setField_boxed, he]; rfl, hkind⟩
  | case2 value hboxed =>
    cases value with
    | boxed inner => exact absurd rfl (hboxed inner)
    | record shape values => exact absurd rfl (h shape values)
    | _ => exact ⟨_, rfl, rfl⟩

/-- A write to a field that succeeds replaces one value of a record in boxes. -/
theorem setField_cases {new written : Value} (h : value.setField name new = .ok written) :
    ∃ shape values i field, value.unboxed = .record shape values ∧
      shape.Finds name i field ∧ field.isShown = true ∧ new.fits field.type = true ∧
      written = value.refill (.record shape (values.set i new)) := by
  by_cases hrecord : ∃ shape values, value.unboxed = .record shape values
  · obtain ⟨shape, values, hvalue⟩ := hrecord
    rw [setField_eq hvalue] at h
    obtain ⟨record, hset, rfl⟩ := map_eq_ok h
    obtain ⟨i, field, hfinds, hshown, hfits, rfl⟩ := RecordValue.setField_cases hset
    exact ⟨shape, values, i, field, hvalue, hfinds, hshown, hfits, rfl⟩
  · push Not at hrecord
    obtain ⟨e, he, -⟩ := setField_of_neither hrecord name new
    rw [he] at h
    exact nomatch h

/-! ## Entries of maps -/

theorem assign_map {key elem : Ty} {entries : List (Key × Value)} (hname : name ≠ "")
    (declared : Ty) (new : Value) :
    (Value.map key elem entries).assign declared name new =
      (MapValue.setKey ⟨key, elem, entries⟩ name new).map MapValue.toValue := by
  rw [assign_eq, if_neg hname]
  exact setKey_map key elem entries name new

end Value

namespace MapValue

variable {map written : MapValue} {name : String} {new : Value}

theorem insert_of_setKey (h : map.setKey name new = .ok written) :
    map.insert (.string name) new = .ok written := by
  rw [setKey_eq] at h
  split at h
  · exact nomatch h
  · exact h

theorem key_of_setKey (h : map.setKey name new = .ok written) : map.key = .string :=
  (insert_cases (insert_of_setKey h)).1.symm

theorem key_of_getKey {value : Value} (h : map.getKey name = .ok value) : map.key = .string := by
  unfold getKey at h
  split at h
  · exact nomatch h
  next hkeys => simpa [hasTextKeys] using hkeys

theorem setKey_string {elem : Ty} {entries : List (Key × Value)} (name : String)
    (new : Value) :
    MapValue.setKey ⟨.string, elem, entries⟩ name new =
      if new.fits elem then .ok ⟨.string, elem, Ordered.insert (.string name) new entries⟩
      else .error ⟨.typeMismatch,
        s!"map value has a mismatched type. key={name}, from={new.type.text}, to={elem.text}"⟩ := by
  cases hfits : new.fits elem <;>
    simp [setKey_eq, hasTextKeys, insert, Write.written, run_exchange, Key.type, Key.text,
      valueMismatch, hfits]

end MapValue

/-! ## The three kinds of values -/

namespace Value

/-- A value is a map, a record in boxes, or without parts. -/
theorem shape_cases (value : Value) :
    (∃ key elem entries, value = .map key elem entries) ∨
    (∃ shape values, value.unboxed = .record shape values) ∨
    (∀ key elem entries, value ≠ .map key elem entries) ∧
      ∀ shape values, value.unboxed ≠ .record shape values := by
  by_cases hmap : ∃ key elem entries, value = .map key elem entries
  · exact .inl hmap
  by_cases hrecord : ∃ shape values, value.unboxed = .record shape values
  · exact .inr (.inl hrecord)
  · push Not at hmap hrecord
    exact .inr (.inr ⟨hmap, hrecord⟩)

theorem hasEntry_eq_false_iff {value : Value} {name : String} :
    value.hasEntry name = false ↔ name ≠ "" ∧ ∃ key elem entries,
      value = .map key elem entries ∧ Ordered.find? (.string name) entries = none := by
  cases value <;> simp [hasEntry]

/-- A value that is neither a map nor a record in boxes has no parts. -/
theorem refuses_of_neither {value : Value} {name : String}
    (hmap : ∀ key elem entries, value ≠ .map key elem entries)
    (hrecord : ∀ shape values, value.unboxed ≠ .record shape values) (hname : name ≠ "") :
    (∃ e, value.type.part name = .error e ∧ e.kind = .unsupportedShape) ∧
    (∃ e, value.take name = .error e ∧ e.kind = .unsupportedShape) ∧
    ∀ declared new, ∃ e, value.assign declared name new = .error e ∧ e.kind = .unsupportedShape := by
  refine ⟨?_, ?_, fun declared new => ?_⟩
  · unfold Ty.part
    rw [if_neg hname]
    split
    next key elem htype =>
      obtain ⟨entries, hvalue⟩ := eq_map_of_type htype
      exact absurd hvalue (hmap key elem entries)
    · split
      next shape hshape =>
        obtain ⟨values, hvalue⟩ := unboxed_eq_record hshape
        exact absurd hvalue (hrecord shape values)
      · exact ⟨_, rfl, rfl⟩
  · unfold take
    rw [if_neg hname]
    split
    · exact absurd rfl (hmap _ _ _)
    · unfold getField
      split
      next hvalue => exact absurd hvalue (hrecord _ _)
      · exact ⟨_, rfl, rfl⟩
  · rw [assign_eq, if_neg hname]
    split
    · exact absurd rfl (hmap _ _ _)
    · exact setField_of_neither hrecord name new

/-- Where the type of a value refuses a part, so do reads of the value and writes
to it. -/
theorem refuses_of_part {value : Value} {name : String} {e : AccessError}
    (h : value.type.part name = .error e) :
    (∃ e', value.take name = .error e' ∧ e'.kind = e.kind) ∧
      ∀ declared new, ∃ e', value.assign declared name new = .error e' ∧
        e'.kind = e.kind.ofWrite := by
  have hname : name ≠ "" := by
    rintro rfl
    exact nomatch h
  rcases value.shape_cases with ⟨key, elem, entries, rfl⟩ | ⟨shape, values, hvalue⟩ |
    ⟨hmap, hrecord⟩
  · rw [show (Value.map key elem entries).type = .map key elem from rfl, Ty.part_map hname] at h
    split at h
    · exact nomatch h
    next hkey =>
      obtain rfl := Except.error.inj h
      have hkeys : (!MapValue.hasTextKeys ⟨key, elem, entries⟩) = true := by
        simpa [MapValue.hasTextKeys] using hkey
      have hget : (Value.map key elem entries).take name =
          .error ⟨.unsupportedKeyType, s!"map key type is {key.text}"⟩ := by
        rw [take_map hname, MapValue.getKey, if_pos hkeys]
      have hset (declared : Ty) (new : Value) :
          (Value.map key elem entries).assign declared name new =
            .error ⟨.unsupportedKeyType, s!"map key type is {key.text}"⟩ := by
        rw [assign_map hname, MapValue.setKey_eq, if_pos hkeys]
        rfl
      exact ⟨⟨_, hget, rfl⟩, fun declared new => ⟨_, hset declared new, rfl⟩⟩
  · have htype : value.type.unboxed = .record shape := by rw [unboxed_type, hvalue]; rfl
    obtain ⟨⟨e', hget, hkind⟩, hset⟩ :=
      @RecordValue.refuses_of_part ⟨shape, values⟩ name _ e htype hname h
    refine ⟨⟨e', by rw [take_eq_getField hvalue hname, hget], hkind⟩, fun declared new => ?_⟩
    obtain ⟨e', hset, hkind⟩ := hset new
    refine ⟨e', ?_, hkind⟩
    rw [assign_eq_setField hvalue hname, setField_eq hvalue, hset]
    rfl
  · obtain ⟨⟨e', hpart, hkind⟩, htake, hassign⟩ := refuses_of_neither hmap hrecord hname
    obtain rfl := Except.error.inj (h.symm.trans hpart)
    rw [hkind]
    exact ⟨htake, hassign⟩

/-- A write to a part that the type of a value has succeeds with the values that
fit the declared type of the part, and is refused with the others. -/
theorem assign_of_part {value : Value} {name : String} {part : Ty}
    (h : value.type.part name = .ok part) (new : Value) :
    (new.fits part = true → ∃ written, value.assign value.type name new = .ok written) ∧
      (new.fits part = false → ∃ e, value.assign value.type name new = .error e ∧
        e.kind = .typeMismatch) := by
  by_cases hname : name = ""
  · subst hname
    obtain rfl := Except.ok.inj h
    rw [assign_eq, if_pos rfl]
    split <;> simp_all
  rcases Ty.part_eq_ok_cases h hname with htype | ⟨shape, field, hshape, hfield, hshown, rfl⟩
  · obtain ⟨entries, rfl⟩ := eq_map_of_type htype
    rw [assign_map hname, MapValue.setKey_string]
    split <;> simp_all [Except.map]
  · obtain ⟨values, hvalues⟩ := unboxed_eq_record hshape
    obtain ⟨i, hfinds⟩ := RecordOf.exists_finds hfield
    rw [assign_eq_setField hvalues hname, setField_eq hvalues,
      RecordValue.setField_shown hfinds hshown]
    split <;> simp_all [Except.map]

theorem exists_assign_iff {value : Value} {name : String} {part : Ty}
    (h : value.type.part name = .ok part) (new : Value) :
    (∃ written, value.assign value.type name new = .ok written) ↔ new.fits part = true := by
  obtain ⟨hfits, hrefused⟩ := assign_of_part h new
  refine ⟨fun ⟨written, hwritten⟩ => ?_, hfits⟩
  by_contra hnew
  obtain ⟨e, he, -⟩ := hrefused (eq_false_of_ne_true hnew)
  rw [he] at hwritten
  exact nomatch hwritten

/-- Types, reads and writes agree about the parts of a well-typed value.  Where
the type of the value refuses a part, a read and every write are refused with the
same kind of error (a hidden field is not writable where it is not accessible).
Where it has a part, a read gives a value that fits the declared type of the
part, unless the value is a map without the key, and a write succeeds exactly
with the values that fit.  A refused write changes nothing. -/
theorem parts_agree {value : Value} (h : value.WellTyped) (name : String) :
    (∀ e, value.type.part name = .error e →
      (∃ e', value.take name = .error e' ∧ e'.kind = e.kind) ∧
      ∀ new, (∃ e', value.assign value.type name new = .error e' ∧ e'.kind = e.kind.ofWrite) ∧
        value.assigned value.type name new = value) ∧
    ∀ part, value.type.part name = .ok part →
      ((∃ taken, value.take name = .ok taken ∧ taken.fits part = true) ∨
        (∃ elem entries, value = .map .string elem entries ∧
          Ordered.find? (.string name) entries = none) ∧
        ∃ e, value.take name = .error e ∧ e.kind = .keyNotFound) ∧
      ∀ new, (new.fits part = true ↔ ∃ written, value.assign value.type name new = .ok written) ∧
        (new.fits part = false →
          (∃ e, value.assign value.type name new = .error e ∧ e.kind = .typeMismatch) ∧
          value.assigned value.type name new = value) := by
  refine ⟨fun e he => ?_, fun part hpart => ⟨?_, fun new => ?_⟩⟩
  · obtain ⟨htake, hassign⟩ := refuses_of_part he
    refine ⟨htake, fun new => ?_⟩
    obtain ⟨e', hassign, hkind⟩ := hassign value.type new
    exact ⟨⟨e', hassign, hkind⟩, assigned_of_error hassign⟩
  · have hvalue : value.OfType value.type := ⟨h, Ty.fits_refl _⟩
    rcases hvalue.take hpart with ⟨taken, htake, htaken, -⟩ | ⟨⟨detail, htake⟩, hentry⟩
    · exact .inl ⟨taken, htake, htaken.fits⟩
    · obtain ⟨hname, key, elem, entries, rfl, hfind⟩ := hasEntry_eq_false_iff.1 hentry
      rcases Ty.part_eq_ok_cases hpart hname with hmap | ⟨shape, -, hshape, -⟩
      · obtain ⟨rfl, -⟩ := Ty.map.inj hmap
        exact .inr ⟨⟨elem, entries, rfl, hfind⟩, _, htake, rfl⟩
      · exact nomatch hshape
  · refine ⟨(exists_assign_iff hpart new).symm, fun hnew => ?_⟩
    obtain ⟨e, he, hkind⟩ := (assign_of_part hpart new).2 hnew
    exact ⟨⟨e, he, hkind⟩, assigned_of_error he⟩

end Value

/-- A record type with a shown and a hidden field. -/
def guest : RecordType := ((RecordOf.named "Guest").field "name" .string).privateField "code" .int

/-- The code of a boxed guest can be neither read nor written, and no number can be
stored as the name. -/
theorem Value.parts_agree_guest :
    let boxed : Value := (Ty.boxed (.record guest)).zero
    boxed.WellTyped ∧
    (∃ e, boxed.type.part "code" = .error e ∧ e.kind = .fieldNotAccessible ∧
      (∃ e', boxed.take "code" = .error e' ∧ e'.kind = e.kind) ∧
      (∃ e', boxed.assign boxed.type "code" (.int 3) = .error e' ∧
        e'.kind = .fieldNotWritable)) ∧
    (boxed.type.part "name" = .ok .string ∧ (Value.int 3).fits .string = false ∧
      boxed.assigned boxed.type "name" (.int 3) = boxed ∧
      ∃ written, boxed.assign boxed.type "name" (.string "Ada") = .ok written) := by
  intro boxed
  have hboxed : boxed.WellTyped := Ty.zero_wellTyped rfl
  obtain ⟨hrefused, -⟩ := parts_agree hboxed "code"
  obtain ⟨-, hname⟩ := parts_agree hboxed "name"
  refine ⟨hboxed, ⟨⟨.fieldNotAccessible, "type Box<Guest> has a private field code"⟩, rfl, rfl, ?_⟩,
    rfl, rfl, ?_, ?_⟩
  · obtain ⟨hread, hwrite⟩ := hrefused _ rfl
    exact ⟨hread, (hwrite (.int 3)).1⟩
  · exact (((hname .string rfl).2 (.int 3)).2 rfl).2
  · exact ((hname .string rfl).2 (.string "Ada")).1.1 rfl

end Dataflow
