import Dataflow.AccessError
import Dataflow.Ty.Fit
import Dataflow.Value
import Dataflow.Value.Write

/-!
# Lists, maps and records

The three containers as types of their own, with the operations that check
what they store.  Entries of a map are stored in place.
-/

namespace Dataflow

/-- Whether the value can be stored where `dest` is declared. -/
def Value.fits (value : Value) (dest : Ty) : Bool :=
  value.type.fits dest

/-! ## Lists -/

/-- A list with its element type. -/
structure ListValue where
  elem : Ty
  items : List Value

namespace ListValue

/-- The list without items. -/
def empty (elem : Ty) : ListValue := ⟨elem, []⟩

/-- The list as a value. -/
def toValue (list : ListValue) : Value := .list list.elem list.items

/-- Appends an item that fits the element type. -/
def push (list : ListValue) (item : Value) : Except AccessError ListValue :=
  if item.fits list.elem then
    .ok { list with items := list.items ++ [item] }
  else
    .error ⟨.typeMismatch,
      s!"list item has a mismatched type. from={item.type.text}, to={list.elem.text}"⟩

/-- Appends items that fit the element type, up to the first that does not. -/
def pushAll (list : ListValue) (items : List Value) : Except AccessError ListValue :=
  items.foldlM push list

/-- The list of some items, all of which have to fit the element type. -/
def ofItems (elem : Ty) (items : List Value) : Except AccessError ListValue :=
  (empty elem).pushAll items

/-- Appends the items of a list with the same element type. -/
def append (list other : ListValue) : Except AccessError ListValue :=
  if other.elem = list.elem then
    .ok { list with items := list.items ++ other.items }
  else
    .error ⟨.typeMismatch, s!"cannot append List<{other.elem.text}> to List<{list.elem.text}>"⟩

end ListValue

/-! ## Maps -/

/-- A map with its key and value types. -/
structure MapValue where
  key : Ty
  value : Ty
  /-- The entries, in key order. -/
  entries : List (Key × Value)

namespace MapValue

/-- The map without entries. -/
def empty (key value : Ty) : MapValue := ⟨key, value, []⟩

/-- The map as a value. -/
def toValue (map : MapValue) : Value := .map map.key map.value map.entries

/-- Whether the keys are texts. -/
def hasTextKeys (map : MapValue) : Bool :=
  map.key = .string

/-- The value stored under a key. -/
def find? (map : MapValue) (key : Key) : Option Value :=
  Ordered.find? key map.entries

/-- Whether there is an entry for a key. -/
def contains (map : MapValue) (key : Key) : Bool :=
  (map.find? key).isSome

/-- The refusal of a key that is of another type than the map's keys. -/
def keyMismatch (map : MapValue) (key : Key) : AccessError :=
  ⟨.typeMismatch,
    s!"map key has a mismatched type. key={key.text}, from={key.type.text}, to={map.key.text}"⟩

/-- The refusal of a value that does not fit the type of the map's values. -/
def valueMismatch (map : MapValue) (key : Key) (value : Value) : AccessError :=
  ⟨.typeMismatch,
    s!"map value has a mismatched type. key={key.text}, from={value.type.text}, to={map.value.text}"⟩

/-- Stores a value under a key and gives the one that was there.  The key is checked
before the value, and both before anything is written. -/
def exchange (key : Key) (value : Value) : Write MapValue (Option Value) := do
  let map ← get
  if key.type ≠ map.key then
    throw (map.keyMismatch key)
  else if !value.fits map.value then
    throw (map.valueMismatch key value)
  else
    set { map with entries := Ordered.insert key value map.entries }
    return map.find? key

/-- The map with a value stored under a key, in place of the one already there. -/
def insert (map : MapValue) (key : Key) (value : Value) : Except AccessError MapValue :=
  (exchange key value).written map

theorem run_exchange (map : MapValue) (key : Key) (value : Value) :
    (exchange key value).run map =
      if key.type ≠ map.key then .error (map.keyMismatch key) map
      else if !value.fits map.value then .error (map.valueMismatch key value) map
      else .ok (map.find? key) { map with entries := Ordered.insert key value map.entries } := by
  change EStateM.run (if _ then _ else if _ then _ else _) map = _
  split
  · rfl
  · split <;> rfl

theorem atomic_exchange (key : Key) (value : Value) : (exchange key value).Atomic := by
  intro map e after h
  rw [run_exchange] at h
  split at h
  · exact (EStateM.Result.error.inj h).2.symm
  · split at h
    · exact (EStateM.Result.error.inj h).2.symm
    · exact nomatch h

/-- A key and a value that fit are stored. -/
theorem insert_of_fits {map : MapValue} {key : Key} {value : Value} (hkey : key.type = map.key)
    (hfits : value.fits map.value = true) :
    map.insert key value = .ok { map with entries := Ordered.insert key value map.entries } := by
  simp [insert, Write.written, run_exchange, hkey, hfits]

/-- What was stored is a key and a value that fit. -/
theorem insert_cases {map written : MapValue} {key : Key} {value : Value}
    (h : map.insert key value = .ok written) :
    key.type = map.key ∧ value.fits map.value = true ∧
      written = { map with entries := Ordered.insert key value map.entries } := by
  by_cases hkey : key.type = map.key
  · by_cases hfits : value.fits map.value = true
    · rw [insert_of_fits hkey hfits] at h
      exact ⟨hkey, hfits, (Except.ok.inj h).symm⟩
    · simp [insert, Write.written, run_exchange, hkey, hfits] at h
  · simp [insert, Write.written, run_exchange, hkey] at h

/-- The map with text keys of some entries, all of which have to fit the value
type; of two entries with one key the later counts. -/
def ofEntries (value : Ty) (entries : List (String × Value)) : Except AccessError MapValue :=
  entries.foldlM (fun map e => map.insert (.string e.1) e.2) (empty .string value)

end MapValue

/-! ## Records -/

/-- A record of a record type. -/
structure RecordValue where
  shape : RecordType
  /-- One value for each declared field, in order. -/
  values : List Value

namespace RecordValue

/-- The record with every field at its zero value. -/
def zero (shape : RecordType) : RecordValue := ⟨shape, Ty.zeros shape.fields⟩

/-- The record as a value. -/
def toValue (record : RecordValue) : Value := .record record.shape record.values

end RecordValue

/-- The list in a value, if it is one. -/
def Value.asList? : Value → Option ListValue
  | .list elem items => some ⟨elem, items⟩
  | _ => none

end Dataflow
