import Dataflow.Value.Container

/-!
# Parts of values

Reading and writing the named parts of a value: the shown fields of a record,
boxed or not, and the entries of a map with text keys.  A box around a map
hides its keys.  Every check comes before the write, so a write that is refused
leaves all as it was (`Value.atomic_storePart`).

`take` and `assign` choose between fields and keys by the shape of the value,
and the empty name stands for the whole value.
-/

namespace Dataflow

/-- Things with a shape, whose fields and keys can be read and written.
Whatever an instance does not provide is refused. -/
class HasParts (α : Type) where
  /-- The coarse shape. -/
  kind : α → Kind
  /-- Reads a field. -/
  getField : α → String → Except AccessError Value := fun whole name =>
    .error ⟨.unsupportedShape, s!"{(kind whole).word} has no field {name}"⟩
  /-- Writes a field. -/
  setField : α → String → Value → Except AccessError α := fun whole name _ =>
    .error ⟨.unsupportedShape, s!"{(kind whole).word} has no field {name}"⟩
  /-- Reads the entry of a key. -/
  getKey : α → String → Except AccessError Value := fun whole key =>
    .error ⟨.unsupportedShape, s!"{(kind whole).word} has no key {key}"⟩
  /-- Writes the entry of a key. -/
  setKey : α → String → Value → Except AccessError α := fun whole key _ =>
    .error ⟨.unsupportedShape, s!"{(kind whole).word} has no key {key}"⟩

/-! ## Records and maps -/

namespace RecordValue

/-- What the errors about a field say. -/
def fieldDetail (record : RecordValue) (name : String) : String :=
  s!"field={name}, type={record.shape.name}"

/-- Reads a shown field. -/
def getField (record : RecordValue) (name : String) : Except AccessError Value :=
  match record.shape.position? name, record.shape.field? name with
  | some i, some field =>
    if !field.isShown then
      .error ⟨.fieldNotAccessible, record.fieldDetail name⟩
    else
      match record.values[i]? with
      | some value => .ok value
      | none => .error ⟨.fieldNotFound, record.fieldDetail name⟩
  | _, _ => .error ⟨.fieldNotFound, record.fieldDetail name⟩

/-- Writes a shown field with a value that fits its declared type. -/
def storeField (name : String) (value : Value) : Write RecordValue Unit := do
  let record ← get
  match record.shape.position? name, record.shape.field? name with
  | some i, some field =>
    if !field.isShown then
      throw ⟨.fieldNotWritable, record.fieldDetail name⟩
    else if !value.fits field.type then
      throw ⟨.typeMismatch, s!"field={name}, from={value.type.text}, to={field.type.text}"⟩
    else
      set { record with values := record.values.set i value }
  | _, _ => throw ⟨.fieldNotFound, record.fieldDetail name⟩

/-- The record with a shown field written. -/
def setField (record : RecordValue) (name : String) (value : Value) :
    Except AccessError RecordValue :=
  (storeField name value).written record

theorem atomic_storeField (name : String) (value : Value) : (storeField name value).Atomic := by
  intro record e after h
  unfold storeField at h
  rw [EStateM.run_bind, EStateM.run_get] at h
  dsimp only at h
  split at h
  · split at h
    · exact (EStateM.Result.error.inj h).2.symm
    · split at h
      · exact (EStateM.Result.error.inj h).2.symm
      · exact nomatch h
  · exact (EStateM.Result.error.inj h).2.symm

instance : HasParts RecordValue where
  kind _ := .record
  getField := getField
  setField := setField

end RecordValue

namespace MapValue

/-- Reads the entry of a text key. -/
def getKey (map : MapValue) (key : String) : Except AccessError Value :=
  if !map.hasTextKeys then
    .error ⟨.unsupportedKeyType, s!"map key type is {map.key.text}"⟩
  else
    match map.find? (.string key) with
    | some value => .ok value
    | none => .error ⟨.keyNotFound, s!"key={key}, type=Map<{map.key.text}, {map.value.text}>"⟩

/-- Writes the entry of a text key. -/
def storeKey (key : String) (value : Value) : Write MapValue Unit := do
  let map ← get
  if !map.hasTextKeys then
    throw ⟨.unsupportedKeyType, s!"map key type is {map.key.text}"⟩
  else
    let _ ← exchange (.string key) value

/-- The map with the entry of a text key written. -/
def setKey (map : MapValue) (key : String) (value : Value) : Except AccessError MapValue :=
  (storeKey key value).written map

theorem run_storeKey (map : MapValue) (key : String) (value : Value) :
    (storeKey key value).run map =
      if !map.hasTextKeys then
        .error ⟨.unsupportedKeyType, s!"map key type is {map.key.text}"⟩ map
      else
        match (exchange (.string key) value).run map with
        | .ok _ after => .ok () after
        | .error e after => .error e after := by
  unfold storeKey
  rw [EStateM.run_bind, EStateM.run_get]
  dsimp only
  split
  · rfl
  · rw [EStateM.run_bind]
    cases (exchange (.string key) value).run map <;> rfl

theorem atomic_storeKey (key : String) (value : Value) : (storeKey key value).Atomic := by
  intro map e after h
  rw [run_storeKey] at h
  split at h
  · exact (EStateM.Result.error.inj h).2.symm
  · split at h
    · exact nomatch h
    next e' after' hexchange =>
      obtain ⟨-, rfl⟩ := EStateM.Result.error.inj h
      exact atomic_exchange _ value map e' after' hexchange

theorem setKey_eq (map : MapValue) (key : String) (value : Value) :
    map.setKey key value =
      if !map.hasTextKeys then .error ⟨.unsupportedKeyType, s!"map key type is {map.key.text}"⟩
      else map.insert (.string key) value := by
  rw [setKey, Write.written, run_storeKey, insert, Write.written]
  by_cases hkeys : (!map.hasTextKeys) = true
  · rw [if_pos hkeys, if_pos hkeys]
  · rw [if_neg hkeys, if_neg hkeys]
    cases (exchange (.string key) value).run map <;> rfl

instance : HasParts MapValue where
  kind _ := .map
  getKey := getKey
  setKey := setKey

end MapValue

/-! ## Values -/

namespace Value

/-- Reads a field of a record inside any number of boxes. -/
def getField (value : Value) (name : String) : Except AccessError Value :=
  match value.unboxed with
  | .record shape values => RecordValue.getField ⟨shape, values⟩ name
  | other => .error ⟨.unsupportedShape,
      s!"{other.type.text} is not a record or boxed record, field={name}"⟩

/-- Writes a field of a record inside any number of boxes. -/
def storeField (name : String) (new : Value) : Write Value Unit
  | .boxed inner => Write.around .boxed (storeField name new inner)
  | .record shape values =>
    Write.around RecordValue.toValue ((RecordValue.storeField name new).run ⟨shape, values⟩)
  | other => .error ⟨.unsupportedShape,
      s!"{other.type.text} is not a record or boxed record, field={name}"⟩ other

/-- The value with a field of a record inside any number of boxes written. -/
def setField (value : Value) (name : String) (new : Value) : Except AccessError Value :=
  (storeField name new).written value

/-- Reads the entry of a map. -/
def getKey (value : Value) (key : String) : Except AccessError Value :=
  match value with
  | .map keyType valueType entries => MapValue.getKey ⟨keyType, valueType, entries⟩ key
  | other => .error ⟨.unsupportedShape, s!"{other.type.text} is not a map, key={key}"⟩

/-- Writes the entry of a map. -/
def storeKey (key : String) (new : Value) : Write Value Unit
  | .map keyType valueType entries =>
    Write.around MapValue.toValue ((MapValue.storeKey key new).run ⟨keyType, valueType, entries⟩)
  | other => .error ⟨.unsupportedShape, s!"{other.type.text} is not a map, key={key}"⟩ other

/-- The value with the entry of a map written. -/
def setKey (value : Value) (key : String) (new : Value) : Except AccessError Value :=
  (storeKey key new).written value

instance : HasParts Value where
  kind := kind
  getField := getField
  setField := setField
  getKey := getKey
  setKey := setKey

/-- The part of a value under a name. -/
def take (value : Value) (name : String) : Except AccessError Value :=
  if name = "" then
    .ok value
  else
    match value with
    | .map .. => value.getKey name
    | _ => value.getField name

/-- Replaces the part of a value under a name.  To replace the whole value, the new one
has to fit the declared type. -/
def storePart (declared : Ty) (name : String) (new : Value) : Write Value Unit := do
  if name = "" then
    if new.fits declared then
      set new
    else
      throw ⟨.typeMismatch,
        s!"mapping entire value has a mismatched type. from={new.type.text}, to={declared.text}"⟩
  else
    match ← get with
    | .map .. => storeKey name new
    | _ => storeField name new

/-- The value with the part under a name replaced. -/
def assign (dest : Value) (declared : Ty) (name : String) (new : Value) :
    Except AccessError Value :=
  (storePart declared name new).written dest

/-! ## What writes do -/

theorem setField_boxed (inner : Value) (name : String) (new : Value) :
    (Value.boxed inner).setField name new = (inner.setField name new).map .boxed :=
  Write.written_around (storeField name new) (storeField name new) Value.boxed inner rfl

theorem setField_record (shape : RecordType) (values : List Value) (name : String)
    (new : Value) :
    (Value.record shape values).setField name new =
      (RecordValue.setField ⟨shape, values⟩ name new).map RecordValue.toValue :=
  Write.written_around (storeField name new) (RecordValue.storeField name new)
    RecordValue.toValue ⟨shape, values⟩ rfl

theorem setKey_map (key elem : Ty) (entries : List (Key × Value)) (name : String)
    (new : Value) :
    (Value.map key elem entries).setKey name new =
      (MapValue.setKey ⟨key, elem, entries⟩ name new).map MapValue.toValue :=
  Write.written_around (storeKey name new) (MapValue.storeKey name new)
    MapValue.toValue ⟨key, elem, entries⟩ rfl

theorem assign_eq (dest : Value) (declared : Ty) (name : String) (new : Value) :
    dest.assign declared name new =
      if name = "" then
        if new.fits declared then
          .ok new
        else
          .error ⟨.typeMismatch,
            s!"mapping entire value has a mismatched type. from={new.type.text}, to={declared.text}"⟩
      else
        match dest with
        | .map .. => dest.setKey name new
        | _ => dest.setField name new := by
  rw [assign, Write.written, storePart]
  by_cases hname : name = ""
  · rw [if_pos hname, if_pos hname]
    cases new.fits declared <;> rfl
  · rw [if_neg hname, if_neg hname, EStateM.run_bind, EStateM.run_get]
    cases dest <;> rfl

theorem atomic_storeField (name : String) (new : Value) : (storeField name new).Atomic := by
  intro value
  induction value using Value.unboxed.induct with
  | case1 inner ih =>
    exact fun e after => Write.eq_of_around Value.boxed rfl ih
  | case2 value hboxed =>
    intro e after h
    cases value with
    | boxed inner => exact absurd rfl (hboxed inner)
    | record shape values =>
      exact Write.eq_of_around RecordValue.toValue rfl
        (RecordValue.atomic_storeField name new ⟨shape, values⟩) h
    | _ => exact (EStateM.Result.error.inj h).2.symm

theorem atomic_storeKey (name : String) (new : Value) : (storeKey name new).Atomic := by
  intro value e after h
  cases value with
  | map key elem entries =>
    exact Write.eq_of_around MapValue.toValue rfl
      (MapValue.atomic_storeKey name new ⟨key, elem, entries⟩) h
  | _ => exact (EStateM.Result.error.inj h).2.symm

/-- A write that is refused leaves the value as it was. -/
theorem atomic_storePart (declared : Ty) (name : String) (new : Value) :
    (storePart declared name new).Atomic := by
  intro value e after h
  unfold storePart at h
  split at h
  · split at h
    · exact nomatch h
    · exact (EStateM.Result.error.inj h).2.symm
  · rw [EStateM.run_bind, EStateM.run_get] at h
    cases value with
    | map => exact atomic_storeKey name new _ e after h
    | _ => exact atomic_storeField name new _ e after h

end Value

end Dataflow
