import Dataflow.Proofs.Parts
import Dataflow.Proofs.Verdicts
import Mathlib.Data.List.Induction
import Mathlib.Data.List.Nodup

/-!
# Record types as their declarations make them

A record type is built by calls, each of which declares a field or a capability.  The
first declaration of a name says where its field stands, and the last one says what the
field is like.  Nothing that a record type has is ever taken away.

* `RecordOf.fieldNames_after_cases`, `RecordOf.field?_after`,
  `RecordOf.mem_capabilities_after`: what one call does to the names, to the lookups and
  to the capabilities.
* `RecordOf.fieldNames_build`, `RecordOf.field?_build_eq_some_iff`,
  `RecordOf.mem_capabilities_build`: the same of all calls together.
* `RecordOf.build_asDeclared`: a record type is what its calls declare.
-/

namespace Dataflow

namespace RecordOf

variable {τ : Type}

/-! ## Calls -/

/-- A call that declares a part of a record type. -/
inductive Call (τ : Type)
  | field (name : String) (type : τ)
  | privateField (name : String) (type : τ)
  | provide (capability : String)

namespace Call

/-- The field that a call declares. -/
def declared? : Call τ → Option (FieldOf τ)
  | .field name type => some ⟨name, type, .shown⟩
  | .privateField name type => some ⟨name, type, .hidden⟩
  | .provide _ => none

/-- The name of the field that a call declares. -/
def name? (call : Call τ) : Option String :=
  call.declared?.map (·.name)

end Call

/-- The record type after a call. -/
def after (record : RecordOf τ) : Call τ → RecordOf τ
  | .field name type => record.field name type
  | .privateField name type => record.privateField name type
  | .provide capability => record.provide capability

/-- The record type after some calls. -/
def afterAll (record : RecordOf τ) (calls : List (Call τ)) : RecordOf τ :=
  calls.foldl after record

/-- The record type that some calls build from one without fields and capabilities. -/
def build (name : String) (calls : List (Call τ)) : RecordOf τ :=
  (named name).afterAll calls

variable {record : RecordOf τ} {call : Call τ} {calls : List (Call τ)} {field : FieldOf τ}
  {name : String}

theorem build_concat (name : String) (calls : List (Call τ)) (call : Call τ) :
    build name (calls ++ [call]) = (build name calls).after call :=
  List.foldl_concat ..

/-- A call declares a field or a capability. -/
theorem after_cases (record : RecordOf τ) (call : Call τ) :
    (∃ field, call.declared? = some field ∧ record.after call = record.declare field) ∨
      ∃ capability, call = .provide capability ∧
        record.after call = record.provide capability := by
  cases call with
  | field name type => exact .inl ⟨_, rfl, rfl⟩
  | privateField name type => exact .inl ⟨_, rfl, rfl⟩
  | provide capability => exact .inr ⟨_, rfl, rfl⟩

/-! ## Names and places -/

/-- The names of the fields, in declaration order. -/
def fieldNames (record : RecordOf τ) : List String :=
  record.fields.map (·.name)

/-- A field of a new name goes to the end, and one of an old name moves nothing. -/
theorem fieldNames_declare (record : RecordOf τ) (field : FieldOf τ) :
    (record.declare field).fieldNames =
      if field.name ∈ record.fieldNames then record.fieldNames
      else record.fieldNames ++ [field.name] := by
  show (putField field record.fields).map (·.name) = _
  unfold fieldNames
  induction record.fields with
  | nil => rfl
  | cons f rest ih =>
    rw [putField]
    by_cases heq : f.name = field.name
    · simp [heq]
    · rw [if_neg heq, List.map_cons, ih, List.map_cons]
      simp only [List.mem_cons, Ne.symm heq, false_or]
      split <;> rfl

/-- A call adds a new name behind the others, or it leaves the names as they are. -/
theorem fieldNames_after_cases (record : RecordOf τ) (call : Call τ) :
    (∃ name, call.name? = some name ∧ name ∉ record.fieldNames ∧
      (record.after call).fieldNames = record.fieldNames ++ [name]) ∨
    ((∀ name, call.name? = some name → name ∈ record.fieldNames) ∧
      (record.after call).fieldNames = record.fieldNames) := by
  rcases record.after_cases call with ⟨field, hfield, hafter⟩ | ⟨capability, rfl, -⟩
  · have hname : call.name? = some field.name := by rw [Call.name?, hfield]; rfl
    rw [hafter, fieldNames_declare]
    by_cases hold : field.name ∈ record.fieldNames
    · rw [if_pos hold]
      exact .inr ⟨fun name h => Option.some.inj (hname.symm.trans h) ▸ hold, rfl⟩
    · rw [if_neg hold]
      exact .inl ⟨field.name, hname, hold, rfl⟩
  · exact .inr ⟨nofun, rfl⟩

/-- A call keeps names different. -/
theorem nodup_fieldNames_after (h : record.fieldNames.Nodup) (call : Call τ) :
    (record.after call).fieldNames.Nodup := by
  rcases record.fieldNames_after_cases call with ⟨name, -, hnew, hnames⟩ | ⟨-, hnames⟩
  · rw [hnames, ← List.concat_eq_append]
    exact h.concat hnew
  · rwa [hnames]

/-- A call moves no field. -/
theorem fieldNames_prefix_after (record : RecordOf τ) (call : Call τ) :
    record.fieldNames <+: (record.after call).fieldNames := by
  rcases record.fieldNames_after_cases call with ⟨name, -, -, hnames⟩ | ⟨-, hnames⟩
  · exact hnames ▸ List.prefix_append _ _
  · exact hnames ▸ List.prefix_rfl

theorem nodup_fieldNames_build (recordName : String) (calls : List (Call τ)) :
    (build recordName calls).fieldNames.Nodup := by
  induction calls using List.reverseRecOn with
  | nil => exact .nil
  | append_singleton calls call ih =>
    rw [build_concat]
    exact nodup_fieldNames_after ih call

theorem fieldNames_prefix_afterAll (record : RecordOf τ) (calls : List (Call τ)) :
    record.fieldNames <+: (record.afterAll calls).fieldNames := by
  induction calls generalizing record with
  | nil => exact List.prefix_rfl
  | cons call calls ih => exact (record.fieldNames_prefix_after call).trans (ih _)

/-- The names stand in the order of their first declarations. -/
theorem fieldNames_build (recordName : String) (calls : List (Call τ)) :
    (build recordName calls).fieldNames = (calls.filterMap Call.name?).eraseDups := by
  induction calls using List.reverseRecOn with
  | nil => rfl
  | append_singleton calls call ih =>
    rw [build_concat, List.filterMap_append]
    rcases (build recordName calls).fieldNames_after_cases call with
      ⟨name, hname, hnew, hnames⟩ | ⟨hold, hnames⟩
    · rw [ih, List.mem_eraseDups] at hnew
      rw [hnames, List.filterMap_cons_some hname, List.filterMap_nil, eraseDups_concat,
        if_neg hnew, ih]
    -- a call for an old name is no first declaration, and neither is one for a capability
    · rw [hnames, ih]
      cases hname : call.name? with
      | none => rw [List.filterMap_cons_none hname, List.filterMap_nil, List.append_nil]
      | some name =>
        have hmem := hold name hname
        rw [ih, List.mem_eraseDups] at hmem
        rw [List.filterMap_cons_some hname, List.filterMap_nil, eraseDups_concat, if_pos hmem]

/-- A place is the place of a name. -/
theorem position?_eq_findIdx? (record : RecordOf τ) (name : String) :
    record.position? name = record.fieldNames.findIdx? (· = name) := by
  rw [fieldNames, List.findIdx?_map]
  rfl

theorem position?_afterAll {i : Nat} (h : record.position? name = some i)
    (calls : List (Call τ)) : (record.afterAll calls).position? name = some i := by
  rw [position?_eq_findIdx?] at h ⊢
  exact (record.fieldNames_prefix_afterAll calls).findIdx?_eq_some h

/-! ## Fields -/

/-- Of the calls that declare a field of this name, the last one declares this field. -/
def LastDeclared (calls : List (Call τ)) (field : FieldOf τ) : Prop :=
  ∃ before call after, calls = before ++ call :: after ∧ call.declared? = some field ∧
    ∀ later ∈ after, later.name? ≠ some field.name

theorem not_lastDeclared_nil (field : FieldOf τ) : ¬LastDeclared [] field := by
  rintro ⟨before, call, after, hcalls, -, -⟩
  simp at hcalls

/-- One more call settles the field of its own name and leaves the others to the calls
before it. -/
theorem lastDeclared_concat_iff :
    LastDeclared (calls ++ [call]) field ↔
      call.declared? = some field ∨ LastDeclared calls field ∧ call.name? ≠ some field.name := by
  constructor
  · rintro ⟨before, last, after, hcalls, hlast, hafter⟩
    -- the declaring call is the new one if nothing comes after it
    rcases List.eq_nil_or_concat' after with rfl | ⟨after, later, rfl⟩
    · obtain ⟨-, hcall⟩ := List.append_inj' hcalls rfl
      obtain rfl := List.singleton_inj.1 hcall
      exact .inl hlast
    · rw [← List.cons_append, ← List.append_assoc] at hcalls
      obtain ⟨rfl, hcall⟩ := List.append_inj' hcalls rfl
      obtain rfl := List.singleton_inj.1 hcall
      exact .inr ⟨⟨before, last, after, rfl, hlast, fun later hlater =>
        hafter later (List.mem_append_left _ hlater)⟩,
        hafter call (List.mem_append_right _ List.mem_cons_self)⟩
  · rintro (hcall | ⟨⟨before, last, after, rfl, hlast, hafter⟩, hcall⟩)
    · exact ⟨calls, call, [], rfl, hcall, nofun⟩
    · refine ⟨before, last, after ++ [call], by simp, hlast, fun later hlater => ?_⟩
      rcases List.mem_append.1 hlater with hlater | hlater
      · exact hafter later hlater
      · obtain rfl := List.mem_singleton.1 hlater
        exact hcall

/-- A name finds the field that was declared for it, and other names find what they found
before. -/
theorem field?_declare (record : RecordOf τ) (field : FieldOf τ) (name : String) :
    (record.declare field).field? name =
      if field.name = name then some field else record.field? name := by
  show (putField field record.fields).find? (·.name = name) = _
  unfold field?
  induction record.fields with
  | nil =>
    rw [putField, List.find?_singleton]
    simp
  | cons f rest ih =>
    rw [putField]
    by_cases heq : f.name = field.name
    · rw [if_pos heq, List.find?_cons, List.find?_cons, heq]
      by_cases hname : field.name = name <;> simp [hname]
    · rw [if_neg heq, List.find?_cons, ih, List.find?_cons]
      by_cases hf : f.name = name
      · have hname : field.name ≠ name := fun h => heq (hf.trans h.symm)
        simp [hf, hname]
      · simp [hf]

theorem field?_after (record : RecordOf τ) (call : Call τ) (name : String) :
    (record.after call).field? name =
      if call.name? = some name then call.declared? else record.field? name := by
  rcases record.after_cases call with ⟨field, hfield, hafter⟩ | ⟨capability, rfl, -⟩
  · rw [hafter, field?_declare, Call.name?, hfield]
    simp
  · rfl

/-- A name finds the field that was declared last for it. -/
theorem field?_build_eq_some_iff {recordName : String} :
    (build recordName calls).field? name = some field ↔
      LastDeclared calls field ∧ field.name = name := by
  induction calls using List.reverseRecOn with
  | nil => exact iff_of_false nofun fun h => not_lastDeclared_nil field h.1
  | append_singleton calls call ih =>
    rw [build_concat, field?_after, lastDeclared_concat_iff]
    by_cases hname : call.name? = some name
    -- the new call is for the name that is looked up, so no earlier one counts
    · rw [if_pos hname]
      constructor
      · intro hcall
        rw [Call.name?, hcall] at hname
        exact ⟨.inl hcall, Option.some.inj hname⟩
      · rintro ⟨hcall | ⟨-, hother⟩, rfl⟩
        · exact hcall
        · exact absurd hname hother
    · rw [if_neg hname, ih]
      constructor
      · rintro ⟨hlast, rfl⟩
        exact ⟨.inr ⟨hlast, hname⟩, rfl⟩
      · rintro ⟨hcall | ⟨hlast, -⟩, rfl⟩
        · exact absurd (by rw [Call.name?, hcall]; rfl) hname
        · exact ⟨hlast, rfl⟩

/-- The names of the fields are those that find one. -/
theorem mem_fieldNames_iff : name ∈ record.fieldNames ↔ ∃ i field, record.Finds name i field := by
  constructor
  · intro hmem
    obtain ⟨field, hfield, hname⟩ := List.mem_map.1 hmem
    refine (finds_cases record name).resolve_left fun hmissing => ?_
    simpa [hname] using List.find?_eq_none.1 hmissing.2 field hfield
  · rintro ⟨i, field, hfinds⟩
    exact hfinds.name_eq ▸ List.mem_map_of_mem (List.mem_of_getElem? hfinds.place_eq)

/-- Where names are different, a field is what its name finds. -/
theorem mem_fields_iff (h : record.fieldNames.Nodup) :
    field ∈ record.fields ↔ record.field? field.name = some field := by
  refine ⟨fun hmem => ?_, List.mem_of_find?_eq_some⟩
  obtain ⟨i, other, hfinds⟩ := mem_fieldNames_iff.1 (List.mem_map_of_mem hmem)
  have hother : other ∈ record.fields := List.mem_of_getElem? hfinds.place_eq
  obtain rfl := List.inj_on_of_nodup_map h hother hmem hfinds.name_eq
  exact hfinds.field_eq

/-! ## Capabilities -/

theorem mem_capabilities_after {capability : String} :
    capability ∈ (record.after call).capabilities.names ↔
      call = .provide capability ∨ capability ∈ record.capabilities.names := by
  cases call with
  | provide added =>
    rw [Call.provide.injEq, eq_comm]
    exact Capabilities.mem_names_insert
  | _ => exact (or_iff_right nofun).symm

/-- Each call that declares a capability adds it, and none is taken away. -/
theorem mem_capabilities_afterAll {capability : String} :
    capability ∈ (record.afterAll calls).capabilities.names ↔
      .provide capability ∈ calls ∨ capability ∈ record.capabilities.names := by
  induction calls generalizing record with
  | nil => exact (or_iff_right nofun).symm
  | cons call calls ih =>
    show capability ∈ ((record.after call).afterAll calls).capabilities.names ↔ _
    rw [ih, mem_capabilities_after, List.mem_cons, eq_comm (a := call), or_left_comm, or_assoc]

theorem mem_capabilities_build {recordName capability : String} :
    capability ∈ (build recordName calls).capabilities.names ↔ .provide capability ∈ calls :=
  mem_capabilities_afterAll.trans (or_iff_left nofun)

/-! ## All calls together -/

theorem name_afterAll (record : RecordOf τ) (calls : List (Call τ)) :
    (record.afterAll calls).name = record.name := by
  induction calls generalizing record with
  | nil => rfl
  | cons call calls ih =>
    refine (ih (record.after call)).trans ?_
    cases call <;> rfl

theorem mem_fieldNames_build (recordName : String) :
    name ∈ (build recordName calls).fieldNames ↔ ∃ call ∈ calls, call.name? = some name := by
  rw [fieldNames_build, List.mem_eraseDups, List.mem_filterMap]

/-- A record type is what some calls declare, and further calls keep it. -/
structure AsDeclared (name : String) (calls : List (Call Ty)) (record : RecordType) : Prop where
  name_eq : record.name = name
  nodup : record.fieldNames.Nodup
  /-- The names stand in the order of their first declarations. -/
  order : record.fieldNames = (calls.filterMap Call.name?).eraseDups
  /-- A field has its type and visibility from the last declaration of its name. -/
  latest : ∀ field, field ∈ record.fields ↔ LastDeclared calls field
  provided : ∀ capability, capability ∈ record.capabilities.names ↔ .provide capability ∈ calls
  /-- Both lookups of a declared name lead to one field. -/
  found : ∀ call ∈ calls, ∀ name, call.name? = some name →
    ∃ i field, record.Finds name i field ∧ LastDeclared calls field
  missing : ∀ name, (∀ call ∈ calls, call.name? ≠ some name) →
    record.position? name = none ∧ record.field? name = none
  implements : ∀ (type : Ty) (interface : Interface), type.unboxed = .record record →
    (type.implements interface = true ↔
      ∀ capability ∈ interface.capabilities.names, .provide capability ∈ calls)
  /-- No further call moves a field. -/
  stays : ∀ further name i, record.position? name = some i →
    (record.afterAll further).position? name = some i
  /-- No further call takes an interface away. -/
  keeps : ∀ further (type type' : Ty) (interface : Interface), type.unboxed = .record record →
    type'.unboxed = .record (record.afterAll further) → type.implements interface = true →
      type'.implements interface = true

/-- Whatever calls build a record type, its names are different and stand in the order in
which they were first declared, each field is the one that was declared last for its name,
the two lookups by name agree, and interfaces are implemented by what was provided. -/
theorem build_asDeclared (name : String) (calls : List (Call Ty)) :
    AsDeclared name calls (build name calls) where
  name_eq := name_afterAll (named name) calls
  nodup := nodup_fieldNames_build name calls
  order := fieldNames_build name calls
  latest field := by
    rw [mem_fields_iff (nodup_fieldNames_build name calls), field?_build_eq_some_iff,
      and_iff_left rfl]
  provided _ := mem_capabilities_build
  found call hcall wanted hname := by
    obtain ⟨i, field, hfinds⟩ := mem_fieldNames_iff.1
      ((mem_fieldNames_build name).2 ⟨call, hcall, hname⟩)
    exact ⟨i, field, hfinds, (field?_build_eq_some_iff.1 hfinds.field_eq).1⟩
  missing wanted hnone := by
    refine (finds_cases (build name calls) wanted).resolve_right fun hfinds => ?_
    obtain ⟨call, hcall, hname⟩ := (mem_fieldNames_build name).1 (mem_fieldNames_iff.2 hfinds)
    exact hnone call hcall hname
  implements type interface h := by
    simp only [Ty.implements_of_unboxed h, mem_capabilities_build]
  stays further _ _ h := position?_afterAll h further
  keeps further type type' interface h h' himplements := by
    rw [Ty.implements_of_unboxed h] at himplements
    exact (Ty.implements_of_unboxed h').2 fun capability hcapability =>
      mem_capabilities_afterAll.2 (.inr (himplements capability hcapability))

example :
    build "User" [.field "name" Ty.string, .privateField "secret" .string, .provide "Named",
      .field "age" .int, .privateField "name" .int] =
      ⟨"User", [⟨"name", .int, .hidden⟩, ⟨"secret", .string, .hidden⟩, ⟨"age", .int, .shown⟩],
        .ofList ["Named"]⟩ := rfl

end RecordOf

end Dataflow
