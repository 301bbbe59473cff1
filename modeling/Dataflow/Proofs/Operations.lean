import Dataflow.Proofs.Assembling
import Dataflow.Proofs.Merging
import Dataflow.Proofs.Parts

/-!
# Operations keep values well typed

Values are made and written by a few operations, each of which checks what it
stores.  What any number of operations make of well-typed values is therefore
well typed, whatever they are and however the result of one is handed to the
next.  A write keeps the type of what it writes to.

* `Whole`, `Operation`: the operations with all that they are given.
* `Operation.wellTyped_run`: one operation makes a well-typed value of
  well-typed ones.
* `Operation.type_of_run`: a write keeps the type of what it writes to.
* `built_wellTyped`: the same for any number of operations, by induction.
-/

namespace Dataflow

/-! ## Writing an item or a part -/

namespace ListValue

variable {list other written : ListValue} {item : Value}

theorem elem_of_push (h : list.push item = .ok written) : written.elem = list.elem := by
  unfold push at h
  split at h
  · rw [← Except.ok.inj h]
  · exact nomatch h

theorem elem_of_append (h : list.append other = .ok written) : written.elem = list.elem := by
  unfold append at h
  split at h
  · rw [← Except.ok.inj h]
  · exact nomatch h

/-- Appending keeps a list well typed, because the element types are the same. -/
theorem wellTyped_append (hlist : list.toValue.WellTyped) (hother : other.toValue.WellTyped)
    (h : list.append other = .ok written) : written.toValue.WellTyped := by
  unfold append at h
  split at h
  next helem =>
    obtain rfl := Except.ok.inj h
    cases hlist with
    | list fits inner =>
      cases hother with
      | list fits' inner' =>
        refine .list (fun item hitem => ?_) fun item hitem => ?_
        all_goals rcases List.mem_append.1 hitem with hitem | hitem
        · exact fits item hitem
        · exact helem ▸ fits' item hitem
        · exact inner item hitem
        · exact inner' item hitem
  · exact nomatch h

end ListValue

/-- Writing a field keeps the record type. -/
theorem RecordValue.shape_of_setField {record written : RecordValue} {name : String} {new : Value}
    (h : record.setField name new = .ok written) : written.shape = record.shape := by
  obtain ⟨i, field, -, -, -, rfl⟩ := setField_cases h
  rfl

/-- Writing a field keeps a record well typed. -/
theorem RecordValue.wellTyped_setField {record written : RecordValue} {name : String} {new : Value}
    (hrecord : record.toValue.WellTyped) (hnew : new.WellTyped)
    (h : record.setField name new = .ok written) : written.toValue.WellTyped := by
  obtain ⟨i, field, hfinds, -, hfits, rfl⟩ := setField_cases h
  cases hrecord with
  | record fits inner =>
    refine .record (forall₂_set fits hfinds.place_eq hfits) fun value hvalue => ?_
    rcases List.mem_or_eq_of_mem_set hvalue with hmem | rfl
    · exact inner value hmem
    · exact hnew

theorem MapValue.type_of_insert {map written : MapValue} {key : Key} {value : Value}
    (h : map.insert key value = .ok written) : written.toValue.type = map.toValue.type := by
  obtain ⟨-, -, rfl⟩ := insert_cases h
  rfl

theorem MapValue.wellTyped_setKey {map written : MapValue} {key : String} {new : Value}
    (hmap : map.toValue.WellTyped) (hnew : new.WellTyped)
    (h : map.setKey key new = .ok written) : written.toValue.WellTyped := by
  have hinsert := wellTyped_insert (.string key) hmap hnew
  rw [insert_of_setKey h] at hinsert
  exact hinsert.1

namespace Value

variable {value dest new written : Value} {declared : Ty} {name : String}

theorem type_of_setField (h : value.setField name new = .ok written) :
    written.type = value.type := by
  induction value using Value.unboxed.induct generalizing written with
  | case1 inner ih =>
    rw [setField_boxed] at h
    obtain ⟨written', hwritten, rfl⟩ := map_eq_ok h
    exact congrArg Ty.boxed (ih hwritten)
  | case2 value hboxed =>
    cases value with
    | boxed inner => exact absurd rfl (hboxed inner)
    | record shape values =>
      rw [setField_record] at h
      obtain ⟨record, hrecord, rfl⟩ := map_eq_ok h
      exact congrArg Ty.record (RecordValue.shape_of_setField hrecord)
    | _ => cases h

theorem wellTyped_setField (hvalue : value.WellTyped) (hnew : new.WellTyped)
    (h : value.setField name new = .ok written) : written.WellTyped := by
  induction hvalue generalizing written with
  | boxed _ ih =>
    rw [setField_boxed] at h
    obtain ⟨written', hwritten, rfl⟩ := map_eq_ok h
    exact .boxed (ih hwritten)
  | record fits inner =>
    rw [setField_record] at h
    obtain ⟨record, hrecord, rfl⟩ := map_eq_ok h
    exact RecordValue.wellTyped_setField (.record fits inner) hnew hrecord
  | _ => exact nomatch h

theorem type_of_setKey (h : value.setKey name new = .ok written) :
    written.type = value.type := by
  cases value with
  | map key elem entries =>
    rw [setKey_map] at h
    obtain ⟨map, hmap, rfl⟩ := map_eq_ok h
    exact MapValue.type_of_insert (MapValue.insert_of_setKey hmap)
  | _ => exact nomatch h

theorem wellTyped_setKey (hvalue : value.WellTyped) (hnew : new.WellTyped)
    (h : value.setKey name new = .ok written) : written.WellTyped := by
  cases value with
  | map key elem entries =>
    rw [setKey_map] at h
    obtain ⟨map, hmap, rfl⟩ := map_eq_ok h
    have hwhole : (MapValue.toValue ⟨key, elem, entries⟩).WellTyped := hvalue
    exact MapValue.wellTyped_setKey hwhole hnew hmap
  | _ => exact nomatch h

theorem type_of_assign (hname : name ≠ "") (h : dest.assign declared name new = .ok written) :
    written.type = dest.type := by
  rw [assign_eq, if_neg hname] at h
  split at h
  · exact type_of_setKey h
  · exact type_of_setField h

theorem wellTyped_assign (hdest : dest.WellTyped) (hnew : new.WellTyped)
    (h : dest.assign declared name new = .ok written) : written.WellTyped := by
  rw [assign_eq] at h
  split at h
  · split at h
    · exact Except.ok.inj h ▸ hnew
    · exact nomatch h
  · split at h
    · exact wellTyped_setKey hdest hnew h
    · exact wellTyped_setField hdest hnew h

end Value

/-! ## Merging and assembling -/

/-- A value merged from well-typed values by the policies that are in force from
the beginning is one of them, or it has the type that is asked for. -/
theorem MergeRegistry.mem_or_ofType_of_merge {field : String} {type : Ty} {values : List Value}
    {merged : Value} (hvalues : ∀ value ∈ values, value.WellTyped)
    (h : standard.merge field type values = .ok merged) :
    merged ∈ values ∨ merged.OfType type := by
  have hmerge : Outcome (fun e => e.kind = .merge)
      (fun value => value ∈ values ∨ value.OfType type) (standard.merge field type values) := by
    refine outcome_merge (fun value hvalue => ?_) fun policy value hpolicy hvalue => .inr ?_
    · exact .inl (by simp [hvalue])
    · rcases policy?_standard hpolicy with rfl | rfl
      · exact Policy.ofType_concat hvalues hvalue
      · exact Policy.ofType_union hvalues hvalue
  rw [h] at hmerge
  exact hmerge

/-- Merging keeps values well typed. -/
theorem MergeRegistry.wellTyped_merge {field : String} {type : Ty} {values : List Value}
    {merged : Value} (hvalues : ∀ value ∈ values, value.WellTyped)
    (h : standard.merge field type values = .ok merged) : merged.WellTyped :=
  (mem_or_ofType_of_merge hvalues h).elim (hvalues merged) (·.wellTyped)

namespace Assembler

variable {target : Ty} {gathered : Gathered} {input stored made : Value}

/-- Storing a part keeps the type of an input, whatever the policies are. -/
theorem type_of_store {assembler : Assembler} {field : String} {values : List Value}
    (hfield : field ≠ "") (h : assembler.store input field values = .ok stored) :
    stored.type = input.type := by
  obtain ⟨_, -, h⟩ := bind_eq_ok h
  obtain ⟨_, -, h⟩ := bind_eq_ok h
  exact Value.type_of_assign hfield (mapError_eq_ok h)

/-- Storing well-typed values keeps an input well typed. -/
theorem wellTyped_store {field : String} {values : List Value} (hinput : input.WellTyped)
    (hvalues : ∀ value ∈ values, value.WellTyped)
    (h : store ⟨target, .standard⟩ input field values = .ok stored) : stored.WellTyped := by
  obtain ⟨declared, -, h⟩ := bind_eq_ok h
  obtain ⟨merged, hmerged, h⟩ := bind_eq_ok h
  have hwell := MergeRegistry.wellTyped_merge hvalues hmerged
  exact Value.wellTyped_assign hinput hwell (mapError_eq_ok h)

/-- An assembled input is what the values for the whole input are merged to, or it
has a property of the zero value that storing parts keeps. -/
theorem assemble_cases {assembler : Assembler} (keeps : Value → Prop)
    (hzero : keeps assembler.target.zero)
    (hstore : ∀ field values, gathered.find? field = some values → field ≠ "" →
      ∀ input stored, keeps input → assembler.store input field values = .ok stored → keeps stored)
    (h : assembler.assemble gathered = .ok made) :
    (∃ whole, gathered.find? "" = some whole ∧
      assembler.merges.merge "" assembler.target whole = .ok made) ∨
    gathered.find? "" = none ∧ keeps made := by
  cases hwhole : gathered.find? "" with
  | some whole => exact .inl ⟨whole, rfl, (merge_of_assemble hwhole h).2⟩
  | none => exact .inr ⟨rfl, (keeps_of_assemble keeps hwhole hzero hstore h).1⟩

/-- An input assembled of well-typed values is well typed, and it has the type of
inputs if the values for the whole input have it. -/
theorem wellTyped_assemble (htarget : target.boxesClosed = true)
    (hvalues : ∀ field values, gathered.find? field = some values →
      ∀ value ∈ values, value.WellTyped)
    (h : assemble ⟨target, .standard⟩ gathered = .ok made) :
    made.WellTyped ∧ ((∀ values, gathered.find? "" = some values →
      ∀ value ∈ values, value.fits target = true) → made.fits target = true) := by
  have hstore : ∀ field values, gathered.find? field = some values → field ≠ "" →
      ∀ input stored, input.WellTyped ∧ input.type = target.zero.type →
        store ⟨target, .standard⟩ input field values = .ok stored →
        stored.WellTyped ∧ stored.type = target.zero.type := by
    intro field values hfind hfield input stored hinput hstored
    exact ⟨wellTyped_store hinput.1 (hvalues _ _ hfind) hstored,
      (type_of_store hfield hstored).trans hinput.2⟩
  rcases assemble_cases _ ⟨Ty.zero_wellTyped htarget, rfl⟩ hstore h with
    ⟨whole, hwhole, hmerged⟩ | ⟨-, hwell, htype⟩
  · have hmade := MergeRegistry.mem_or_ofType_of_merge (hvalues "" whole hwhole) hmerged
    exact ⟨hmade.elim (hvalues "" whole hwhole made) (·.wellTyped),
      fun hfits => hmade.elim (hfits whole hwhole made) (·.fits)⟩
  · refine ⟨hwell, fun _ => ?_⟩
    have hfits : target.zero.type.fits target = true := Ty.zero_fits htarget
    rw [← htype] at hfits
    exact hfits

end Assembler

/-! ## Operations -/

/-- The values gathered for one target are among all the values gathered. -/
theorem Gathered.mem_flatten_values (gathered : Gathered) {field : String} {values : List Value}
    {value : Value} (hfind : gathered.find? field = some values) (hvalue : value ∈ values) :
    value ∈ gathered.values.flatten :=
  List.mem_flatten.2
    ⟨values, List.mem_map.2 ⟨(field, values), Table.mem_entries_iff.2 hfind, rfl⟩, hvalue⟩

/-- What a part can be written to. -/
inductive Whole
  | record (record : RecordValue)
  | map (map : MapValue)
  | value (value : Value)

namespace Whole

/-- The whole as a value. -/
def toValue : Whole → Value
  | .record inner => inner.toValue
  | .map inner => inner.toValue
  | .value inner => inner

/-- The whole with a field written. -/
def setField (whole : Whole) (name : String) (new : Value) : Except AccessError Value :=
  match whole with
  | .record inner => RecordValue.toValue <$> HasParts.setField inner name new
  | .map inner => MapValue.toValue <$> HasParts.setField inner name new
  | .value inner => HasParts.setField inner name new

/-- The whole with the entry of a key written. -/
def setKey (whole : Whole) (key : String) (new : Value) : Except AccessError Value :=
  match whole with
  | .record inner => RecordValue.toValue <$> HasParts.setKey inner key new
  | .map inner => MapValue.toValue <$> HasParts.setKey inner key new
  | .value inner => HasParts.setKey inner key new

end Whole

/-- An operation that makes or writes a value, with all that it is given. -/
inductive Operation
  /-- The zero value of a type. -/
  | zero (type : Ty)
  /-- Appends an item to a list. -/
  | push (list : ListValue) (item : Value)
  /-- Appends a list to a list. -/
  | append (list other : ListValue)
  /-- The list of some items. -/
  | ofItems (elem : Ty) (items : List Value)
  /-- Stores an entry in a map. -/
  | insert (map : MapValue) (key : Key) (value : Value)
  /-- The map with text keys of some entries. -/
  | ofEntries (elem : Ty) (entries : List (String × Value))
  /-- Writes a field. -/
  | setField (whole : Whole) (name : String) (new : Value)
  /-- Writes the entry of a text key. -/
  | setKey (whole : Whole) (key : String) (new : Value)
  /-- Replaces the part under a name, the empty name standing for the whole. -/
  | assign (dest : Value) (declared : Ty) (name : String) (new : Value)
  /-- Merges the values for one target. -/
  | merge (field : String) (type : Ty) (values : List Value)
  /-- Assembles an input of gathered values. -/
  | convert (target : Ty) (gathered : Gathered)

namespace Operation

/-- The value that an operation makes. -/
def run : Operation → Except Error Value
  | .zero type => .ok type.zero
  | .push list item => (ListValue.toValue <$> list.push item).mapError .access
  | .append list other => (ListValue.toValue <$> list.append other).mapError .access
  | .ofItems elem items => (ListValue.toValue <$> ListValue.ofItems elem items).mapError .access
  | .insert map key value => (MapValue.toValue <$> map.insert key value).mapError .access
  | .ofEntries elem entries =>
    (MapValue.toValue <$> MapValue.ofEntries elem entries).mapError .access
  | .setField whole name new => (whole.setField name new).mapError .access
  | .setKey whole key new => (whole.setKey key new).mapError .access
  | .assign dest declared name new => (dest.assign declared name new).mapError .access
  | .merge field type values => MergeRegistry.standard.merge field type values
  | .convert target gathered => Assembler.assemble ⟨target, .standard⟩ gathered

/-- The values that an operation is given. -/
def arguments : Operation → List Value
  | .zero _ => []
  | .push list item => [list.toValue, item]
  | .append list other => [list.toValue, other.toValue]
  | .ofItems _ items => items
  | .insert map _ value => [map.toValue, value]
  | .ofEntries _ entries => entries.map (·.2)
  | .setField whole _ new => [whole.toValue, new]
  | .setKey whole _ new => [whole.toValue, new]
  | .assign dest _ _ new => [dest, new]
  | .merge _ _ values => values
  | .convert _ gathered => gathered.values.flatten

/-- What an operation writes to, if it keeps something of what it is given. -/
def written? : Operation → Option Value
  | .push list _ | .append list _ => some list.toValue
  | .insert map _ _ => some map.toValue
  | .setField whole _ _ | .setKey whole _ _ => some whole.toValue
  | .assign dest _ name _ => if name = "" then none else some dest
  | _ => none

/-- An operation that starts from the zero value of a type is for a type whose
boxes hide no open type. -/
def Closed : Operation → Prop
  | .zero type => type.boxesClosed = true
  | .convert target _ => target.boxesClosed = true
  | _ => True

end Operation

/-! ## What one operation makes -/

namespace Whole

variable {whole : Whole} {name : String} {new written : Value}

theorem type_of_setField (h : whole.setField name new = .ok written) :
    written.type = whole.toValue.type := by
  cases whole with
  | record inner =>
    obtain ⟨record, hrecord, rfl⟩ := map_eq_ok h
    exact congrArg Ty.record (RecordValue.shape_of_setField hrecord)
  | map inner => exact nomatch h
  | value inner => exact Value.type_of_setField h

theorem wellTyped_setField (hwhole : whole.toValue.WellTyped) (hnew : new.WellTyped)
    (h : whole.setField name new = .ok written) : written.WellTyped := by
  cases whole with
  | record inner =>
    obtain ⟨record, hrecord, rfl⟩ := map_eq_ok h
    exact RecordValue.wellTyped_setField hwhole hnew hrecord
  | map inner => exact nomatch h
  | value inner => exact Value.wellTyped_setField hwhole hnew h

theorem type_of_setKey (h : whole.setKey name new = .ok written) :
    written.type = whole.toValue.type := by
  cases whole with
  | record inner => exact nomatch h
  | map inner =>
    obtain ⟨map, hmap, rfl⟩ := map_eq_ok h
    exact MapValue.type_of_insert (MapValue.insert_of_setKey hmap)
  | value inner => exact Value.type_of_setKey h

theorem wellTyped_setKey (hwhole : whole.toValue.WellTyped) (hnew : new.WellTyped)
    (h : whole.setKey name new = .ok written) : written.WellTyped := by
  cases whole with
  | record inner => exact nomatch h
  | map inner =>
    obtain ⟨map, hmap, rfl⟩ := map_eq_ok h
    exact MapValue.wellTyped_setKey hwhole hnew hmap
  | value inner => exact Value.wellTyped_setKey hwhole hnew h

end Whole

/-- The map of well-typed entries is well typed. -/
theorem MapValue.wellTyped_ofEntries (elem : Ty) {entries : List (String × Value)}
    (hentries : ∀ entry ∈ entries, entry.2.WellTyped) :
    Outcome (fun _ => True) (fun map : MapValue => map.toValue.WellTyped)
      (MapValue.ofEntries elem entries) := by
  refine outcome_foldlM (fun map : MapValue => map.toValue.WellTyped)
    (.map nofun nofun nofun) fun entry hentry map hmap => ?_
  exact (wellTyped_insert _ hmap (hentries entry hentry)).imp (fun _ => id) fun _ h => h.1

namespace Operation

variable {operation : Operation} {value whole : Value}

/-- An operation makes a well-typed value of well-typed values. -/
theorem wellTyped_run (hclosed : operation.Closed)
    (harguments : ∀ argument ∈ operation.arguments, argument.WellTyped) (h : operation.run = .ok value) :
    value.WellTyped := by
  cases operation with
  | zero type =>
    obtain rfl := Except.ok.inj h
    exact Ty.zero_wellTyped hclosed
  | push list item =>
    obtain ⟨hlist, hitem⟩ : list.toValue.WellTyped ∧ item.WellTyped := by
      simpa [arguments] using harguments
    obtain ⟨made, hmade, rfl⟩ := map_eq_ok (mapError_eq_ok h)
    have hpush := ListValue.wellTyped_push hlist hitem
    rw [hmade] at hpush
    exact hpush.1
  | append list other =>
    obtain ⟨hlist, hother⟩ : list.toValue.WellTyped ∧ other.toValue.WellTyped := by
      simpa [arguments] using harguments
    obtain ⟨made, hmade, rfl⟩ := map_eq_ok (mapError_eq_ok h)
    exact ListValue.wellTyped_append hlist hother hmade
  | ofItems elem items =>
    obtain ⟨made, hmade, rfl⟩ := map_eq_ok (mapError_eq_ok h)
    have hempty : (ListValue.empty elem).toValue.WellTyped := .list nofun nofun
    have hitems : ∀ item ∈ items, item.WellTyped := harguments
    have hpush := ListValue.wellTyped_pushAll hempty hitems
    rw [show (ListValue.empty elem).pushAll items = .ok made from hmade] at hpush
    exact hpush.1
  | insert map key item =>
    obtain ⟨hmap, hitem⟩ : map.toValue.WellTyped ∧ item.WellTyped := by
      simpa [arguments] using harguments
    obtain ⟨made, hmade, rfl⟩ := map_eq_ok (mapError_eq_ok h)
    have hinsert := MapValue.wellTyped_insert key hmap hitem
    rw [hmade] at hinsert
    exact hinsert.1
  | ofEntries elem entries =>
    obtain ⟨made, hmade, rfl⟩ := map_eq_ok (mapError_eq_ok h)
    have hentries : ∀ entry ∈ entries, entry.2.WellTyped := fun entry hentry =>
      harguments entry.2 (List.mem_map_of_mem hentry)
    have hall := MapValue.wellTyped_ofEntries elem hentries
    rw [hmade] at hall
    exact hall
  | setField whole name new =>
    obtain ⟨hwhole, hnew⟩ : whole.toValue.WellTyped ∧ new.WellTyped := by
      simpa [arguments] using harguments
    exact Whole.wellTyped_setField hwhole hnew (mapError_eq_ok h)
  | setKey whole key new =>
    obtain ⟨hwhole, hnew⟩ : whole.toValue.WellTyped ∧ new.WellTyped := by
      simpa [arguments] using harguments
    exact Whole.wellTyped_setKey hwhole hnew (mapError_eq_ok h)
  | assign dest declared name new =>
    obtain ⟨hdest, hnew⟩ : dest.WellTyped ∧ new.WellTyped := by
      simpa [arguments] using harguments
    exact Value.wellTyped_assign hdest hnew (mapError_eq_ok h)
  | merge field type values => exact MergeRegistry.wellTyped_merge harguments h
  | convert target gathered =>
    refine (Assembler.wellTyped_assemble hclosed (fun field values hfind item hitem => ?_) h).1
    exact harguments item (gathered.mem_flatten_values hfind hitem)

/-- A write keeps the type of what it writes to. -/
theorem type_of_run (h : operation.run = .ok value) (hwritten : operation.written? = some whole) :
    value.type = whole.type := by
  cases operation with
  | push list item =>
    obtain rfl := Option.some.inj hwritten
    obtain ⟨made, hmade, rfl⟩ := map_eq_ok (mapError_eq_ok h)
    exact congrArg Ty.list (ListValue.elem_of_push hmade)
  | append list other =>
    obtain rfl := Option.some.inj hwritten
    obtain ⟨made, hmade, rfl⟩ := map_eq_ok (mapError_eq_ok h)
    exact congrArg Ty.list (ListValue.elem_of_append hmade)
  | insert map key item =>
    obtain rfl := Option.some.inj hwritten
    obtain ⟨made, hmade, rfl⟩ := map_eq_ok (mapError_eq_ok h)
    exact MapValue.type_of_insert hmade
  | setField written name new =>
    obtain rfl := Option.some.inj hwritten
    exact Whole.type_of_setField (mapError_eq_ok h)
  | setKey written key new =>
    obtain rfl := Option.some.inj hwritten
    exact Whole.type_of_setKey (mapError_eq_ok h)
  | assign dest declared name new =>
    have hname : name ≠ "" := by
      rintro rfl
      exact nomatch hwritten
    rw [written?, if_neg hname] at hwritten
    obtain rfl := Option.some.inj hwritten
    exact Value.type_of_assign hname (mapError_eq_ok h)
  | _ => exact nomatch hwritten

end Operation

/-! ## What any number of operations make -/

/-- A value is built from given ones by operations, each of which is given values
that are built before it. -/
inductive Built (given : Value → Prop) : Value → Prop
  /-- A given value. -/
  | given {value : Value} (h : given value) : Built given value
  /-- The value of one more operation. -/
  | operation {operation : Operation} {value : Value} (hclosed : operation.Closed)
      (harguments : ∀ argument ∈ operation.arguments, Built given argument)
      (h : operation.run = .ok value) : Built given value

theorem Built.wellTyped {value : Value} (h : Built Value.WellTyped value) : value.WellTyped := by
  induction h with
  | given h => exact h
  | operation hclosed _ h ih => exact Operation.wellTyped_run hclosed ih h

/-- Values stay well typed: zero values are well typed, operations make only
well-typed values of well-typed ones, inputs assembled of values that fit have
the type they are assembled for, and writes keep the type of what they write
to. -/
theorem built_wellTyped :
    (∀ type : Ty, type.boxesClosed = true → type.zero.WellTyped) ∧
    (∀ value, Built Value.WellTyped value → value.WellTyped) ∧
    (∀ (target : Ty) (gathered : Gathered) (value : Value), target.boxesClosed = true →
      (∀ argument ∈ gathered.values.flatten, Built Value.WellTyped argument) →
      (∀ argument ∈ (gathered.find? "").getD [], argument.fits target = true) →
      Assembler.assemble ⟨target, .standard⟩ gathered = .ok value → value.OfType target) ∧
    ∀ (operation : Operation) (value whole : Value), operation.run = .ok value →
      operation.written? = some whole → value.type = whole.type := by
  refine ⟨fun type => Ty.zero_wellTyped, fun value => Built.wellTyped, ?_,
    fun operation value whole => Operation.type_of_run⟩
  intro target gathered value htarget hmade hfits h
  have hvalues : ∀ field values, gathered.find? field = some values →
      ∀ argument ∈ values, argument.WellTyped := by
    intro field values hfind argument hargument
    exact (hmade argument (gathered.mem_flatten_values hfind hargument)).wellTyped
  obtain ⟨hwell, hfitting⟩ := Assembler.wellTyped_assemble htarget hvalues h
  refine ⟨hwell, hfitting fun values hfind argument hargument => hfits argument ?_⟩
  rw [hfind]
  exact hargument

/-- A boxed record type with two fields of one name. -/
def twins : Ty :=
  .boxed (.record ⟨"Twins", [⟨"count", .int, .shown⟩, ⟨"count", .string, .shown⟩], .empty⟩)

/-- A write to the first of the two fields. -/
def countTwins : Operation := .setField (.value twins.zero) "count" (.int 7)

/-- Two lists for one whole input. -/
def twoLists : Gathered :=
  gather [Table.empty.insert "" (.list .int [.int 1]), Table.empty.insert "" (.list .int [.int 2])]

theorem built_wellTyped_twins :
    (twins.boxesClosed = true ∧ twins.zero.WellTyped) ∧
    (∃ written, Built Value.WellTyped written ∧ written.WellTyped ∧
      countTwins.run = .ok written ∧ countTwins.written? = some twins.zero ∧
      written.type = twins.zero.type) ∧
    ∃ joined, (∀ argument ∈ (twoLists.find? "").getD [], argument.fits (.list .int) = true) ∧
      Assembler.assemble ⟨.list .int, .standard⟩ twoLists = .ok joined ∧
      joined.OfType (.list .int) := by
  obtain ⟨hzero, hmade, hjoin, htype⟩ := built_wellTyped
  have hclosed : twins.boxesClosed = true := rfl
  refine ⟨⟨hclosed, hzero twins hclosed⟩, ?_, ?_⟩
  · obtain ⟨written, hrun⟩ : ∃ written, countTwins.run = .ok written := ⟨_, rfl⟩
    have hany : countTwins.Closed := trivial
    have hwritten : Built Value.WellTyped written := by
      refine .operation hany (fun argument hargument => .given ?_) hrun
      obtain rfl | rfl : argument = twins.zero ∨ argument = .int 7 := by
        simpa [countTwins, Operation.arguments, Whole.toValue] using hargument
      · exact hzero twins hclosed
      · exact .int 7
    exact ⟨written, hwritten, hmade written hwritten, hrun, rfl, htype _ _ _ hrun rfl⟩
  · have hfind : twoLists.find? "" = some [.list .int [.int 1], .list .int [.int 2]] := rfl
    have hfits : ∀ argument ∈ (twoLists.find? "").getD [], argument.fits (.list .int) = true := by
      rw [hfind]
      simp [Value.fits, Value.type, Ty.fits]
    have hassembled : Assembler.assemble ⟨.list .int, .standard⟩ twoLists =
        .ok (.list .int [.int 1, .int 2]) := rfl
    refine ⟨_, hfits, hassembled, hjoin _ _ _ rfl (fun argument hargument => .given ?_) hfits
      hassembled⟩
    have hvalues : twoLists.values = [[.list .int [.int 1], .list .int [.int 2]]] := rfl
    rw [hvalues] at hargument
    obtain rfl | rfl : argument = .list .int [.int 1] ∨ argument = .list .int [.int 2] := by
      simpa using hargument
    · exact .list (by simp [Value.fits, Value.type, Ty.fits]) (by simpa using .int 1)
    · exact .list (by simp [Value.fits, Value.type, Ty.fits]) (by simpa using .int 2)

end Dataflow
