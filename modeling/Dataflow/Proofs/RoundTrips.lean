import Dataflow.Proofs.Lenses

/-!
# Rebuilding a value from its parts

A map with text keys is rebuilt from its entries, and a record in boxes from its
shown fields, whatever the order in which they are written into a zero value.
For a record that takes one more fact: no write reaches the other fields, so
they hold what they hold in a zero record.

* `Value.Alike`: two values that differ in their named parts at most.  A write to
  one of them keeps them alike, and alike values with the same parts are the same
  (`Value.Alike.eq_of_take`).
* `Value.transfer_eq_self`: the parts of a value rebuild it in any value that is
  like it.
* `Value.Filled.alike`: what is built from a zero record is like the zero record.
* `Value.parts_are_lenses`: the laws of reads and writes, and the two round trips.
-/

namespace Dataflow

/-! ## Values that differ in their named parts -/

/-- A place of a record that reads and writes by name reach. -/
def RecordOf.Opens {τ : Type} (record : RecordOf τ) (i : Nat) : Prop :=
  ∃ name field, name ≠ "" ∧ record.Finds name i field ∧ field.isShown = true

/-- The place that a name finds is reached only if its field is shown. -/
theorem RecordOf.Finds.isShown_of_opens {τ : Type} {record : RecordOf τ} {name : String} {i : Nat}
    {field : FieldOf τ} (h : record.Finds name i field) (hopens : record.Opens i) :
    field.isShown = true := by
  obtain ⟨name', field', -, h', hshown⟩ := hopens
  obtain rfl := Option.some.inj (h.place_eq.symm.trans h'.place_eq)
  exact hshown

namespace Value

/-- Two values that differ in their named parts at most: two maps with text keys,
or two records in the same boxes. -/
inductive Alike : Value → Value → Prop
  /-- The entry of the empty key has no name to be read or written by. -/
  | map {elem : Ty} {entries entries' : List (Key × Value)}
      (h : MapValue.Formed ⟨.string, elem, entries⟩)
      (h' : MapValue.Formed ⟨.string, elem, entries'⟩)
      (hempty : Ordered.find? (.string "") entries = Ordered.find? (.string "") entries') :
      Alike (.map .string elem entries) (.map .string elem entries')
  | record {value : Value} {shape : RecordType} {values values' : List Value}
      (hvalue : value.unboxed = .record shape values)
      (hlength : values.length = shape.fields.length)
      (hlength' : values'.length = shape.fields.length)
      (hidden : ∀ i, ¬shape.Opens i → values[i]? = values'[i]?) :
      Alike value (value.refill (.record shape values'))

variable {a b source dest written new : Value} {shape : RecordType} {values : List Value}
  {declared : Ty} {name : String}

theorem refill_record_refill_record (value : Value) (values values' : List Value) :
    (value.refill (.record shape values)).refill (.record shape values') =
      value.refill (.record shape values') := by
  have hkind : (Value.record shape values).kind ≠ .boxed := nofun
  exact refill_refill value hkind _

namespace Alike

theorem symm (h : a.Alike b) : b.Alike a := by
  cases h with
  | map h h' hempty => exact .map h' h hempty.symm
  | @record _ shape values values' hvalue hlength hlength' hidden =>
    have hback : Alike (a.refill (.record shape values'))
        ((a.refill (.record shape values')).refill (.record shape values)) :=
      .record (unboxed_refill _ _) hlength' hlength fun i hi => (hidden i hi).symm
    rwa [refill_record_refill_record, ← hvalue, refill_unboxed] at hback

/-- A formed record in boxes is like itself. -/
theorem refl_of_record (h : a.Formed) (ha : a.unboxed = .record shape values) : a.Alike a := by
  have hlength := h.record ha
  have hself : a.Alike (a.refill (.record shape values)) :=
    .record ha hlength hlength fun _ _ => rfl
  rwa [← ha, refill_unboxed] at hself

theorem boxed (h : a.Alike b) (ha : a.unboxed = .record shape values) :
    (Value.boxed a).Alike (.boxed b) := by
  cases h with
  | map => exact nomatch ha
  | record hvalue hlength hlength' hidden =>
    have hboxed : (Value.boxed a).unboxed = _ := hvalue
    exact .record hboxed hlength hlength' hidden

theorem formed_right (h : a.Alike b) : b.Formed := by
  cases h with
  | map _ h' => exact formed_map h'
  | record _ _ hlength' => exact formed_refill a hlength'

theorem formed_left (h : a.Alike b) : a.Formed := h.symm.formed_right

theorem unboxed_right (h : a.Alike b) (ha : a.unboxed = .record shape values) :
    ∃ values', b.unboxed = .record shape values' := by
  cases h with
  | map => exact nomatch ha
  | @record _ shape' _ values' hvalue =>
    obtain ⟨rfl, -⟩ := Value.record.inj (ha.symm.trans hvalue)
    exact ⟨values', unboxed_refill _ _⟩

/-- A write to one of two values that are alike keeps them alike. -/
theorem assign_right (h : a.Alike b) (hname : name ≠ "")
    (hwrite : b.assign declared name new = .ok written) : a.Alike written := by
  cases h with
  | @map elem entries entries' hentries hentries' hempty =>
    have hformed : written.Formed := formed_assign (formed_map hentries') hname hwrite
    rcases assign_cases hname hwrite with ⟨elem', entries'', hmap, -, rfl⟩ | ⟨_, _, _, _, hrecord, -⟩
    · obtain ⟨-, rfl, rfl⟩ := Value.map.inj hmap
      have hne : Key.string "" ≠ .string name := fun heq => hname (Key.string.inj heq).symm
      exact .map hentries (hformed.map rfl) (by rw [hempty, Ordered.find?_insert_of_ne hne])
    · exact nomatch hrecord
  | @record _ shape values values' hvalue hlength hlength' hidden =>
    have hunboxed := unboxed_refill a (.record shape values')
    rcases assign_cases hname hwrite with ⟨elem, entries, hmap, -⟩ |
      ⟨shape', values'', i, field, hvalues, hfinds, hshown, -, rfl⟩
    · rw [hmap] at hunboxed
      exact nomatch hunboxed
    · obtain ⟨rfl, rfl⟩ := Value.record.inj (hunboxed.symm.trans hvalues)
      rw [refill_record_refill_record]
      refine .record hvalue hlength (by rw [List.length_set, hlength']) fun j hj => ?_
      have hij : i ≠ j := by
        rintro rfl
        exact hj ⟨name, field, hname, hfinds, hshown⟩
      rw [hidden j hj, List.getElem?_set_ne hij]

/-- What can be written to one of two values that are alike can be written to the
other. -/
theorem exists_assign (h : a.Alike b) (hname : name ≠ "")
    (hwrite : a.assign declared name new = .ok written) (declared' : Ty) :
    ∃ written', b.assign declared' name new = .ok written' := by
  rcases assign_cases hname hwrite with ⟨elem, entries, rfl, hfits, -⟩ |
    ⟨shape, values, i, field, hvalues, hfinds, hshown, hfits, -⟩
  · cases h with
    | map => exact ⟨_, by rw [assign_map hname, MapValue.setKey_string, if_pos hfits]; rfl⟩
    | record hvalue => exact nomatch hvalue
  · obtain ⟨values', hvalues'⟩ := h.unboxed_right hvalues
    exact ⟨_, by rw [assign_shown hvalues' hname hfinds hshown, if_pos hfits]⟩

/-- Two records that are alike refuse the same hidden fields. -/
theorem take_of_hidden (h : a.Alike b) (ha : a.unboxed = .record shape values) (hname : name ≠ "")
    (hhidden : ∀ field, shape.field? name = some field → ¬field.isShown = true) :
    b.take name = a.take name := by
  cases h with
  | map => exact nomatch ha
  | @record _ shape' values values' hvalue _ _ hidden =>
    obtain ⟨rfl, -⟩ := Value.record.inj (ha.symm.trans hvalue)
    rw [take_eq_getField hvalue hname, take_eq_getField (unboxed_refill _ _) hname]
    refine RecordValue.getField_congr fun i field hfinds => (hidden i fun hopens => ?_).symm
    exact hhidden field hfinds.field_eq (hfinds.isShown_of_opens hopens)

/-- Alike values with the same named parts are the same. -/
theorem eq_of_take (h : a.Alike b) (htake : ∀ name, name ≠ "" → a.take name = b.take name) :
    a = b := by
  cases h with
  | @map elem entries entries' hentries hentries' hempty =>
    have hfind (key : Key) : Ordered.find? key entries = Ordered.find? key entries' := by
      by_cases hkey : key.type = .string
      · obtain ⟨name, rfl⟩ : ∃ name, key = .string name := by
          cases key with
          | string name => exact ⟨name, rfl⟩
          | _ => exact nomatch hkey
        by_cases hname : name = ""
        · rw [hname, hempty]
        · have hread := htake name hname
          rw [take_map hname, take_map hname, MapValue.getKey_string, MapValue.getKey_string] at hread
          cases hfind : Ordered.find? (.string name) entries <;>
            cases hfind' : Ordered.find? (.string name) entries' <;> simp_all
      · -- no map with text keys has an entry for another kind of key
        have hnone {entries : List (Key × Value)}
            (hformed : MapValue.Formed ⟨.string, elem, entries⟩) :
            Ordered.find? key entries = none := by
          cases hfind : Ordered.find? key entries with
          | none => rfl
          | some value => exact absurd (hformed.keys _ (Ordered.mem_of_find?_eq_some hfind)) hkey
        rw [hnone hentries, hnone hentries']
    have hsame : entries = entries' :=
      Ordered.eq_of_find?_eq hentries.ascending hentries'.ascending hfind
    rw [hsame]
  | @record _ shape values values' hvalue hlength hlength' hidden =>
    have hvalues : values = values' := by
      refine List.ext_getElem? fun i => ?_
      by_cases hopens : shape.Opens i
      · obtain ⟨name, field, hname, hfinds, hshown⟩ := hopens
        have hread := htake name hname
        have hi : i < values.length := hlength ▸ hfinds.lt_length
        have hi' : i < values'.length := hlength' ▸ hfinds.lt_length
        rw [take_eq_getField hvalue hname, take_eq_getField (unboxed_refill _ _) hname,
          RecordValue.getField_shown hfinds hshown, RecordValue.getField_shown hfinds hshown] at hread
        simpa [hi, hi'] using hread
      · exact hidden i hopens
    rw [← hvalues, ← hvalue, refill_unboxed]

end Alike

/-! ## Parts written one by one -/

/-- Writes the parts of a value that some names stand for into another value, one
after another. -/
def transfer (source dest : Value) (declared : Ty) (names : List String) :
    Except AccessError Value :=
  names.foldlM (fun dest name => do
    let part ← source.take name
    dest.assign declared name part) dest

/-- The parts of a value rebuild it in any value that is like it, once every part
in which the two differ is written. -/
theorem transfer_eq_self {names : List String} (halike : source.Alike dest)
    (hfields : source.FieldsFit)
    (hnames : ∀ name ∈ names, name ≠ "" ∧ ∃ part, source.take name = .ok part)
    (hrest : ∀ name, name ≠ "" → name ∉ names → dest.take name = source.take name) :
    source.transfer dest declared names = .ok source := by
  induction names generalizing dest with
  | nil =>
    have hsame : source = dest := halike.eq_of_take fun name hname => (hrest name hname nofun).symm
    rw [← hsame]
    rfl
  | cons name names ih =>
    obtain ⟨⟨hname, part, hpart⟩, hnames⟩ := List.forall_mem_cons.1 hnames
    obtain ⟨written, hwritten⟩ : ∃ written, dest.assign declared name part = .ok written :=
      halike.exists_assign hname (assign_take halike.formed_left hfields hname hpart declared) _
    have hstep : source.transfer dest declared (name :: names) =
        source.transfer written declared names := by
      rw [transfer, List.foldlM_cons, hpart]
      show (dest.assign declared name part >>= fun dest => source.transfer dest declared names) = _
      rw [hwritten]
      rfl
    rw [hstep]
    refine ih (halike.assign_right hname hwritten) hnames fun other hother hnot => ?_
    by_cases heq : other = name
    · rw [heq, take_assign_self halike.formed_right hname hwritten, hpart]
    · rw [take_assign_of_ne hname hwritten hother heq]
      exact hrest other hother (by simp [heq, hnot])

/-- The entries of a map with text keys, none of them empty, rebuild it. -/
theorem transfer_map {elem : Ty} {entries : List (Key × Value)} {order : List String}
    (h : (Value.map .string elem entries).Formed) (hempty : ∀ v, (Key.string "", v) ∉ entries)
    (horder : ∀ name, name ∈ order ↔ ∃ v, (Key.string name, v) ∈ entries) :
    (Value.map .string elem entries).transfer (Ty.map .string elem).zero declared order =
      .ok (.map .string elem entries) := by
  have hformed : MapValue.Formed ⟨.string, elem, entries⟩ := h.map rfl
  have hfind {name : String} {v : Value} : (Key.string name, v) ∈ entries ↔
      Ordered.find? (.string name) entries = some v :=
    Ordered.mem_iff_find?_eq_some hformed.ascending
  have hnone {name : String} (hname : ∀ v, (Key.string name, v) ∉ entries) :
      Ordered.find? (.string name) entries = none :=
    Option.eq_none_iff_forall_ne_some.2 fun v hv => hname v (hfind.2 hv)
  have halike : (Value.map .string elem entries).Alike (.map .string elem []) :=
    .map hformed (MapValue.formed_empty .string elem) (hnone hempty)
  rw [show (Ty.map .string elem).zero = .map .string elem [] by rw [Ty.zero]]
  refine transfer_eq_self halike (fun _ _ => nofun) (fun name hmem => ?_) fun name hname hmem => ?_
  · obtain ⟨v, hv⟩ := (horder name).1 hmem
    have hname : name ≠ "" := by
      rintro rfl
      exact hempty v hv
    exact ⟨hname, v, by rw [take_map hname, MapValue.getKey_string, hfind.1 hv]⟩
  · have hnothing : Ordered.find? (.string name) entries = none :=
      hnone fun v hv => hmem ((horder name).2 ⟨v, hv⟩)
    rw [take_map hname, take_map hname, MapValue.getKey_string, MapValue.getKey_string, hnothing]
    rfl

/-! ## Records built from zero values -/

/-- A value of a declared type that is built from a zero value by writes.  It can
be put into a box at any time. -/
inductive Filled : Ty → Value → Prop
  | zero (type : Ty) : Filled type type.zero
  | boxed {type : Ty} {inner : Value} (h : Filled type inner) :
      Filled (.boxed type) (.boxed inner)
  | write {type : Ty} {value written : Value} {operation : Operation} (h : Filled type value)
      (hwritten : operation.written? = some value) (hrun : operation.run = .ok written) :
      Filled type written

end Value

/-- An operation that writes to a record in boxes writes one of its fields. -/
theorem Operation.setField_of_written {operation : Operation} {whole value : Value}
    {shape : RecordType} {values : List Value} (hrecord : whole.unboxed = .record shape values)
    (hwritten : operation.written? = some whole) (h : operation.run = .ok value) :
    ∃ name new, whole.setField name new = .ok value := by
  cases operation with
  | push list item | append list other =>
    obtain rfl := Option.some.inj hwritten
    exact nomatch hrecord
  | insert map key item =>
    obtain rfl := Option.some.inj hwritten
    exact nomatch hrecord
  | setField written name new =>
    obtain rfl := Option.some.inj hwritten
    have h := mapError_eq_ok h
    cases written with
    | record inner => exact ⟨name, new, (Value.setField_record ..).trans h⟩
    | map inner => exact nomatch h
    | value inner => exact ⟨name, new, h⟩
  | setKey written key new =>
    obtain rfl := Option.some.inj hwritten
    have h := mapError_eq_ok h
    cases written with
    | record inner => exact nomatch h
    | map inner => exact nomatch hrecord
    | value inner =>
      cases inner with
      | map => exact nomatch hrecord
      | _ => exact nomatch h
  | assign dest declared name new =>
    have hname : name ≠ "" := by
      rintro rfl
      exact nomatch hwritten
    have hdest : (Operation.assign dest declared name new).written? = some dest := if_neg hname
    obtain rfl := Option.some.inj (hdest.symm.trans hwritten)
    have h := mapError_eq_ok h
    rw [Value.assign_eq_setField hrecord hname] at h
    exact ⟨name, new, h⟩
  | _ => exact nomatch hwritten

namespace Value

variable {type declared : Ty} {shape : RecordType} {value : Value}

/-- Writes change a zero record in its shown fields only. -/
theorem Filled.alike (hshape : type.unboxed = .record shape)
    (hnames : ∀ field ∈ shape.fields, field.name ≠ "") (h : Filled type value) :
    type.zero.Alike value := by
  induction h with
  | zero type => exact .refl_of_record (Ty.formed_zero type) (Ty.unboxed_zero hshape)
  | @boxed type inner h ih =>
    rw [Ty.zero]
    exact (ih hshape).boxed (Ty.unboxed_zero hshape)
  | @write type value written operation h hwritten hrun ih =>
    obtain ⟨values, hvalues⟩ := (ih hshape).unboxed_right (Ty.unboxed_zero hshape)
    obtain ⟨name, new, hset⟩ := Operation.setField_of_written hvalues hwritten hrun
    obtain ⟨_, _, i, field, hvalues', hfinds, -⟩ := setField_cases hset
    obtain ⟨rfl, -⟩ := Value.record.inj (hvalues.symm.trans hvalues')
    have hname : name ≠ "" :=
      hfinds.name_eq ▸ hnames field (List.mem_of_getElem? hfinds.place_eq)
    have hwrite : value.assign type name new = .ok written := by
      rw [assign_eq_setField hvalues hname, hset]
    exact (ih hshape).assign_right hname hwrite

/-- The shown fields of a record in boxes that is built from a zero value rebuild
it. -/
theorem transfer_record {order : List String} (hshape : type.unboxed = .record shape)
    (hnames : ∀ field ∈ shape.fields, field.name ≠ "") (h : Filled type value)
    (hfields : value.FieldsFit)
    (horder : ∀ name, name ∈ order ↔ ∃ field, shape.field? name = some field ∧ field.isShown = true) :
    value.transfer type.zero declared order = .ok value := by
  have hzero := Ty.unboxed_zero hshape
  have halike := h.alike hshape hnames
  obtain ⟨values, hvalues⟩ := halike.unboxed_right hzero
  refine transfer_eq_self halike.symm hfields (fun name hmem => ?_) fun name hname hmem => ?_
  · obtain ⟨field, hfield, hshown⟩ := (horder name).1 hmem
    obtain ⟨i, hfinds⟩ := RecordOf.exists_finds hfield
    have hname : name ≠ "" :=
      hfinds.name_eq ▸ hnames field (List.mem_of_getElem? hfinds.place_eq)
    obtain ⟨part, hpart, -⟩ := exists_getElem?_of_forall₂ (hfields _ _ hvalues) hfinds.place_eq
    refine ⟨hname, part, ?_⟩
    rw [take_eq_getField hvalues hname, RecordValue.getField_shown hfinds hshown, hpart]
  · refine halike.symm.take_of_hidden hvalues hname fun field hfield hshown => ?_
    exact hmem ((horder name).2 ⟨field, hfield, hshown⟩)

/-! ## Lenses and round trips -/

/-- The named parts of a value are lenses.  After a write a read gives what was
written, the type and every other read are as before, and a second write to the
same part counts instead; writing what is there changes nothing where the fields
fit.  So the entries of a map with text keys, none of them empty, rebuild it from
the empty map, and the shown fields of a record in boxes rebuild it from the zero
value of its type, if writes made it from that value.  The parts can be written in
any order. -/
theorem parts_are_lenses :
    (∀ (dest : Value) (declared : Ty) (name : String) (new written : Value), dest.Formed →
      name ≠ "" → dest.assign declared name new = .ok written →
        written.take name = .ok new ∧ written.type = dest.type ∧
        (∀ other, other ≠ "" → other ≠ name → written.take other = dest.take other) ∧
        ∀ declared' new', written.assign declared' name new' = dest.assign declared' name new') ∧
    (∀ (dest : Value) (declared : Ty) (name : String) (part : Value), dest.Formed →
      dest.FieldsFit → name ≠ "" → dest.take name = .ok part →
        dest.assign declared name part = .ok dest) ∧
    (∀ (elem declared : Ty) (entries : List (Key × Value)) (order : List String),
      (Value.map .string elem entries).Formed → (∀ v, (Key.string "", v) ∉ entries) →
      (∀ name, name ∈ order ↔ ∃ v, (Key.string name, v) ∈ entries) →
        (Value.map .string elem entries).transfer (Ty.map .string elem).zero declared order =
          .ok (.map .string elem entries)) ∧
    ∀ (type declared : Ty) (shape : RecordType) (value : Value) (order : List String),
      type.unboxed = .record shape → (∀ field ∈ shape.fields, field.name ≠ "") →
      Filled type value → value.FieldsFit →
      (∀ name, name ∈ order ↔ ∃ field, shape.field? name = some field ∧ field.isShown = true) →
        value.transfer type.zero declared order = .ok value := by
  refine ⟨fun dest declared name new written hdest hname h => ?_,
    fun dest declared name part hdest hfields hname h => assign_take hdest hfields hname h declared,
    fun elem declared entries order => transfer_map,
    fun type declared shape value order => transfer_record⟩
  exact ⟨take_assign_self hdest hname h, type_of_assign hname h,
    fun other hother hne => take_assign_of_ne hname h hother hne, assign_assign hname h⟩

/-- A boxed guest with a name, and a map with two entries. -/
theorem parts_are_lenses_guest :
    let type : Ty := .boxed (.record guest)
    let ada : Value := .boxed (.record guest [.string "Ada", .int 0])
    let ages : List (Key × Value) := [(.string "Ada", .int 36), (.string "Alan", .int 41)]
    (type.zero.assign type "name" (.string "Ada") = .ok ada ∧ ada.take "name" = .ok (.string "Ada") ∧
      ada.type = type.zero.type ∧ ada.take "code" = type.zero.take "code" ∧
      ada.assign type "name" (.int 7) = type.zero.assign type "name" (.int 7)) ∧
    ada.assign type "name" (.string "Ada") = .ok ada ∧
    (Value.map .string .int ages).transfer (Ty.map .string .int).zero (.map .string .int)
      ["Alan", "Ada"] = .ok (.map .string .int ages) ∧
    ada.transfer type.zero type ["name"] = .ok ada := by
  intro type ada ages
  obtain ⟨hwrite, hsame, hmap, hrecord⟩ := parts_are_lenses
  have hzero : type.zero.Formed := Ty.formed_zero type
  have hada : type.zero.assign type "name" (.string "Ada") = .ok ada := rfl
  have hformed : ada.Formed := formed_assign hzero (by decide) hada
  have hfields : ada.FieldsFit :=
    (wellTyped_assign (Ty.zero_wellTyped rfl) (.string "Ada") hada).fieldsFit
  refine ⟨⟨hada, ?_⟩, ?_, ?_, ?_⟩
  · obtain ⟨hread, htype, hother, hagain⟩ := hwrite _ _ _ _ _ hzero (by decide) hada
    exact ⟨hread, htype, hother "code" (by decide) (by decide), hagain type (.int 7)⟩
  · exact hsame ada type "name" _ hformed hfields (by decide) rfl
  · have hages : MapValue.Formed ⟨.string, .int, ages⟩ :=
      ⟨by decide, by simp [ages, Key.type], by simp [ages, Value.fits, Value.type, Ty.fits]⟩
    refine hmap .int _ ages _ (formed_map hages) (by simp [ages]) fun name => ?_
    simp [ages, exists_or, or_comm]
  · refine hrecord type type guest ada ["name"] rfl (by decide) ?_ hfields fun name => ?_
    · have hrun : (Operation.assign type.zero type "name" (.string "Ada")).run = .ok ada := rfl
      exact .write (.zero type) rfl hrun
    · have hguest : guest.fields = [⟨"name", .string, .shown⟩, ⟨"code", .int, .hidden⟩] := rfl
      simp only [List.mem_singleton, RecordOf.field?, hguest, List.find?_cons]
      by_cases hname : name = "name"
      · simp [hname, FieldOf.isShown]
      by_cases hcode : name = "code"
      · simp [hcode, FieldOf.isShown]
      · simp [hname, Ne.symm hname, Ne.symm hcode]

end Value

end Dataflow
