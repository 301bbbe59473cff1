import Dataflow.Json.Plans
import Dataflow.Proofs.Shuffles
import Dataflow.Proofs.Tables
import Mathlib.Data.List.Perm.Basic

/-!
# Documents of types and plans

Whatever is written as JSON is read back, in whatever order the members of objects
stand.

* `Ty.ofJson?_of_shuffled`: types, by induction on them and on the fields in them.
* `GuardPlan.guardsOfJson?_of_shuffled`: guards, whose names may come in any order.
* `Json.Inverse`: reading undoes writing.
* `documents_inverse`: it does so for types and plans and all their parts, though
  empty members are not written.
-/

namespace Dataflow

variable {json : Json} {members : List (String × Json)}

/-! ## Sets and words -/

theorem Visibility.ofJson?_of_shuffled {visibility : Visibility}
    (h : visibility.toJson.Shuffled json) : Visibility.ofJson? json = some visibility := by
  rw [Visibility.toJson] at h
  rw [h.eq_string]
  cases visibility <;> rfl

namespace Json

variable {α β : Type}

/-- What is written item by item is read item by item. -/
theorem mapM_eq_some {R : α → β → Prop} {read : β → Option α} {xs : List α} {ys : List β}
    (h : List.Forall₂ R xs ys) (hread : ∀ x ∈ xs, ∀ y, R x y → read y = some x) :
    ys.mapM read = some xs := by
  induction h with
  | nil => rfl
  | cons hhead htail ih =>
    obtain ⟨hx, hxs⟩ := List.forall_mem_cons.1 hread
    rw [List.mapM_cons, hx _ hhead, ih hxs]
    rfl

theorem mapM_asString? (texts : List String) :
    (texts.map Json.string).mapM asString? = some texts := by
  refine mapM_eq_some (R := fun text json => json = .string text) ?_ ?_
  · rw [List.forall₂_map_right_iff]
    exact List.forall₂_same.2 fun _ _ => rfl
  · rintro text _ _ rfl
    rfl

end Json

/-- The names of a set make the set again. -/
theorem Capabilities.ofList_names (set : Capabilities) : ofList set.names = set := by
  have hmarks : ∀ (names : List String) (set : Capabilities), (names.foldl insert set).marks =
      (names.map fun name => (name, ())).foldl (fun table e => table.insert e.1 e.2) set.marks := by
    intro names
    induction names with
    | nil => exact fun _ => rfl
    | cons name rest ih => exact fun set => ih (set.insert name)
  have hnames : set.names.map (fun name => (name, ())) = set.marks.entries := by
    rw [names, List.map_map]
    exact List.map_id _
  refine congrArg Capabilities.mk ?_
  show (set.names.foldl insert empty).marks = set.marks
  rw [hmarks, hnames]
  exact Table.ofList_of_perm .rfl

theorem Capabilities.ofJson?_of_shuffled {set : Capabilities} (h : set.toJson.Shuffled json) :
    Capabilities.ofJson? json = some set := by
  rw [Capabilities.toJson] at h
  rw [h.eq_strings, ofJson?, Json.strings, Json.asArray?]
  show (do return ofList (← (set.names.map Json.string).mapM Json.asString?)) = _
  rw [Json.mapM_asString?]
  exact congrArg some set.ofList_names

theorem Interface.ofJson?_of_shuffled {interface : Interface}
    (h : interface.toJson.Shuffled json) : Interface.ofJson? json = some interface := by
  obtain ⟨members, rfl, hmembers⟩ := h.corresponds (by simp)
  obtain ⟨capabilities, hfound, hshuffled⟩ := hmembers.found "capabilities"
    interface.capabilities.toJson (by simp [Json.member?])
  have hname := hmembers.text "name" interface.name (by simp [Json.member?])
  simp [ofJson?, hname, hfound, Json.asString?, Capabilities.ofMember?,
    Capabilities.ofJson?_of_shuffled hshuffled]

/-! ## Types -/

theorem Ty.ofMember?_eq (name : String) (members : List (String × Json)) :
    Ty.ofMember? name members = (Json.member? name members).bind Ty.ofJson? := by
  induction members with
  | nil => simp [Ty.ofMember?, Json.member?]
  | cons head rest ih =>
    obtain ⟨n, json⟩ := head
    rw [Ty.ofMember?, Json.member?]
    split
    · rfl
    · exact ih

theorem Ty.fieldsOfMember?_eq (members : List (String × Json)) :
    Ty.fieldsOfMember? members =
      ((Json.member? "fields" members).bind Json.asArray?).bind Ty.fieldsOfJson? := by
  induction members with
  | nil => simp [Ty.fieldsOfMember?, Json.member?]
  | cons head rest ih =>
    obtain ⟨n, json⟩ := head
    rw [Ty.fieldsOfMember?.eq_def, Json.member?]
    dsimp only
    split
    · cases json <;> rfl
    · exact ih

/-- A field is read back if its type is. -/
theorem Field.ofJson?_of_type (field : Field) (h : field.toJson.Shuffled json)
    (htype : ∀ json, field.type.toJson.Shuffled json → Ty.ofJson? json = some field.type) :
    Field.ofJson? json = some field := by
  obtain ⟨members, rfl, hmembers⟩ := h.corresponds (by simp)
  have hname := hmembers.text "name" field.name (by simp [Json.member?])
  obtain ⟨type, hty, htypes⟩ := hmembers.found "ty" field.type.toJson (by simp [Json.member?])
  obtain ⟨visibility, hvis, hshuffled⟩ := hmembers.found "visibility" field.visibility.toJson
    (by simp [Json.member?])
  rw [Field.ofJson?, Ty.ofMember?_eq]
  simp [hname, hty, hvis, Json.asString?, htype _ htypes, Visibility.ofMember?,
    Visibility.ofJson?_of_shuffled hshuffled]

/-- A record type is read back if its fields are. -/
theorem RecordType.ofJson?_of_fields (shape : RecordType) (h : shape.toJson.Shuffled json)
    (hfields : ∀ items, List.Forall₂ Json.Shuffled (Ty.fieldsToJson shape.fields) items →
      Ty.fieldsOfJson? items = some shape.fields) :
    RecordType.ofJson? json = some shape := by
  obtain ⟨members, rfl, hmembers⟩ := h.corresponds (by simp)
  have hname := hmembers.text "name" shape.name (by simp [Json.member?])
  obtain ⟨fields, hfound, hshuffled⟩ := hmembers.found "fields"
    (.array (Ty.fieldsToJson shape.fields)) (by simp [Json.member?])
  obtain ⟨items, rfl, hitems⟩ := hshuffled.items
  obtain ⟨capabilities, hcaps, hshuffled⟩ := hmembers.found "capabilities"
    shape.capabilities.toJson (by simp [Json.member?])
  rw [RecordType.ofJson?, Ty.fieldsOfMember?_eq]
  simp [hname, hfound, hcaps, Json.asString?, Json.asArray?, hfields _ hitems,
    Capabilities.ofMember?, Capabilities.ofJson?_of_shuffled hshuffled]

mutual

/-- A type is read back.  The induction is on the type and on the fields of the record
types in it. -/
theorem Ty.ofJson?_of_shuffled : ∀ (type : Ty) {json : Json},
    type.toJson.Shuffled json → Ty.ofJson? json = some type
  | .any, _, h | .null, _, h | .bool, _, h | .int, _, h | .float, _, h | .string, _, h => by
    rw [Ty.toJson] at h
    rw [h.eq_string]
    rfl
  | .list elem, _, h => by
    rw [Ty.toJson] at h
    obtain ⟨part, rfl, hpart⟩ := h.single
    rw [Ty.ofJson?, Ty.ofJson?_of_shuffled elem hpart]
    rfl
  | .map key value, _, h => by
    rw [Ty.toJson] at h
    obtain ⟨part, rfl, hpart⟩ := h.single
    obtain ⟨members, rfl, hmembers⟩ := hpart.corresponds (by simp)
    obtain ⟨keyPart, hkey, hkeys⟩ := hmembers.found "key" key.toJson
      (by simp [Json.member?])
    obtain ⟨valuePart, hvalue, hvalues⟩ := hmembers.found "value" value.toJson
      (by simp [Json.member?])
    rw [Ty.ofJson?, Ty.ofMember?_eq, Ty.ofMember?_eq, hkey, hvalue, Option.bind_some,
      Option.bind_some, Ty.ofJson?_of_shuffled key hkeys, Ty.ofJson?_of_shuffled value hvalues]
    rfl
  | .record ⟨name, fields, capabilities⟩, _, h => by
    rw [Ty.toJson] at h
    obtain ⟨part, rfl, hpart⟩ := h.single
    rw [Ty.ofJson?, RecordType.ofJson?_of_fields ⟨name, fields, capabilities⟩ hpart
      fun _ => Ty.fieldsOfJson?_of_shuffled fields]
    rfl
  | .interface shape, _, h => by
    rw [Ty.toJson] at h
    obtain ⟨part, rfl, hpart⟩ := h.single
    rw [Ty.ofJson?, Interface.ofJson?_of_shuffled hpart]
    rfl
  | .boxed inner, _, h => by
    rw [Ty.toJson] at h
    obtain ⟨part, rfl, hpart⟩ := h.single
    rw [Ty.ofJson?, Ty.ofJson?_of_shuffled inner hpart]
    rfl

theorem Ty.fieldsOfJson?_of_shuffled : ∀ (fields : List Field) {items : List Json},
    List.Forall₂ Json.Shuffled (Ty.fieldsToJson fields) items →
      Ty.fieldsOfJson? items = some fields
  | [], _, h => by
    rw [Ty.fieldsToJson] at h
    rw [List.forall₂_nil_left_iff.1 h]
    rfl
  | ⟨name, type, visibility⟩ :: rest, _, h => by
    rw [Ty.fieldsToJson] at h
    obtain ⟨item, others, hitem, hothers, rfl⟩ := List.forall₂_cons_left_iff.1 h
    rw [Ty.fieldsOfJson?, Field.ofJson?_of_type ⟨name, type, visibility⟩ hitem
      fun _ => Ty.ofJson?_of_shuffled type, Ty.fieldsOfJson?_of_shuffled rest hothers]
    rfl

end

/-! ## Mappings and edges -/

/-- A text that is written unless it is empty is read back. -/
theorem Json.Corresponds.textOrEmpty {members' : List (String × Json)}
    (h : Json.Corresponds members members') (name text : String)
    (hname : Json.member? name members = if text = "" then none else some (.string text)) :
    Json.stringOrEmpty? (Json.member? name members') = some text := by
  split at hname
  next hempty =>
    rw [h.missing name hname, hempty]
    rfl
  · rw [h.text name text hname]
    rfl

theorem Mapping.ofJson?_of_shuffled (mapping : Mapping) {json : Json}
    (h : mapping.toJson.Shuffled json) : Mapping.ofJson? json = some mapping := by
  rw [Mapping.toJson] at h
  obtain ⟨members, rfl, hmembers⟩ := h.corresponds
    (by unfold Json.unlessEmpty; split <;> split <;> simp)
  have hnode := hmembers.text "from_node" mapping.node (by simp [Json.member?])
  have hsource := hmembers.textOrEmpty "from" mapping.source
    (by unfold Json.unlessEmpty; split <;> split <;> simp [Json.member?])
  have htarget := hmembers.textOrEmpty "to" mapping.target
    (by unfold Json.unlessEmpty; split <;> split <;> simp [Json.member?])
  simp [ofJson?, hnode, hsource, htarget, Json.asString?]

theorem Mapping.listOfJson?_of_shuffled {mappings : List Mapping}
    (h : (Json.array (mappings.map Mapping.toJson)).Shuffled json) :
    Mapping.listOfJson? json = some mappings := by
  obtain ⟨items, rfl, hitems⟩ := h.items
  rw [List.forall₂_map_left_iff] at hitems
  exact Json.mapM_eq_some hitems fun mapping _ _ => mapping.ofJson?_of_shuffled

theorem Edge.ofJson?_of_shuffled (edge : Edge) {json : Json} (h : edge.toJson.Shuffled json) :
    Edge.ofJson? json = some edge := by
  obtain ⟨source, target, mappings⟩ := edge
  rw [Edge.toJson] at h
  obtain ⟨members, rfl, hmembers⟩ := h.corresponds (by split <;> simp)
  have hsource := hmembers.text "from" source (by simp [Json.member?])
  have htarget := hmembers.text "to" target (by simp [Json.member?])
  cases hplain : mappings.isEmpty with
  | true =>
    have hmappings := hmembers.missing "mappings" (by simp [Json.member?, hplain])
    simp [ofJson?, hsource, htarget, hmappings, Json.asString?, List.isEmpty_iff.1 hplain]
  | false =>
    obtain ⟨part, hfound, hshuffled⟩ := hmembers.found "mappings"
      (.array (mappings.map Mapping.toJson)) (by simp [Json.member?, hplain])
    simp [ofJson?, hsource, htarget, hfound, Json.asString?,
      Mapping.listOfJson?_of_shuffled hshuffled]

/-! ## Guards -/

theorem Guard.ofJson?_of_shuffled (guard : Guard) {json : Json}
    (h : guard.toJson.Shuffled json) : Guard.ofJson? json = some guard := by
  obtain ⟨members, rfl, hmembers⟩ := h.corresponds (by simp)
  have hmapping := hmembers.text "mapping" guard.mapping (by simp [Json.member?])
  have hfield := hmembers.text "field" guard.field (by simp [Json.member?])
  obtain ⟨expected, hfound, hshuffled⟩ := hmembers.found "expected" guard.expected.toJson
    (by simp [Json.member?])
  simp [ofJson?, hmapping, hfield, hfound, Json.asString?,
    guard.expected.ofJson?_of_shuffled hshuffled]

/-- The guards of a plan are read back under the names they are listed under. -/
theorem GuardPlan.guardsOfJson?_of_shuffled {guards : Table Guard}
    (h : (Json.object (guards.entries.map fun e => (e.1, e.2.toJson))).Shuffled json) :
    GuardPlan.guardsOfJson? json = some guards := by
  cases h with
  | @object _ middle members hnames hparts horder =>
    have hmembers := Json.forall₂_of_parts hnames hparts
    rw [List.forall₂_map_left_iff] at hmembers
    have hread : List.Forall₂
        (fun member entry => (do return (member.1, ← Guard.ofJson? member.2)) = some entry)
        middle guards.entries := by
      refine hmembers.flip.imp fun member entry hentry => ?_
      rw [entry.2.ofJson?_of_shuffled hentry.2, ← hentry.1]
      rfl
    obtain ⟨entries, hentries, hperm⟩ := List.perm_comp_forall₂ horder.symm hread
    rw [guardsOfJson?, Json.mapM_eq_some hentries.flip fun _ _ _ => id]
    exact congrArg some (Table.ofList_of_perm hperm)

theorem GuardPlan.ofJson?_of_shuffled (plan : GuardPlan) {json : Json}
    (h : plan.toJson.Shuffled json) : GuardPlan.ofJson? json = some plan := by
  obtain ⟨guards, rfl, hguards⟩ := h.single
  simp [ofJson?, Json.member?, guardsOfJson?_of_shuffled hguards]

/-! ## Reading and writing -/

namespace Json

variable {α : Type}

/-- Reading undoes writing, whatever order the members of objects have got into.  So
distinct values have documents that differ in more than that, and a document that is
read says the same once it is written again. -/
structure Inverse (write : α → Json) (read : Json → Option α) : Prop where
  read_write : ∀ x, read (write x) = some x
  read_shuffled : ∀ x json, (write x).Shuffled json → read json = some x
  injective : Function.Injective write
  apart : ∀ x y, x ≠ y → ¬(write x).Shuffled (write y)
  stable : ∀ json x, read json = some x → read (write x) = some x

theorem Inverse.of_shuffled {write : α → Json} {read : Json → Option α}
    (h : ∀ x json, (write x).Shuffled json → read json = some x) : Inverse write read := by
  have hread : ∀ x, read (write x) = some x := fun x => h x _ (.refl _)
  have hsame : ∀ x y, (write x).Shuffled (write y) → x = y := fun x y hxy =>
    Option.some.inj ((h x _ hxy).symm.trans (hread y))
  exact ⟨hread, h, fun x y hxy => hsame x y (hxy ▸ .refl _), fun x y => mt (hsame x y),
    fun _ x _ => hread x⟩

/-- What an object holds under a name. -/
def part? (name : String) : Json → Option Json
  | .object members => member? name members
  | _ => none

/-- A member is left out for certain values and for no others. -/
def Omits (write : α → Json) (name : String) (empty : α → Prop) : Prop :=
  ∀ x, (write x).part? name = none ↔ empty x

/-- An object without a certain member is read as if the member were there. -/
def MissingMeans (read : Json → Option α) (name : String) (part : Json) : Prop :=
  ∀ members, member? name members = none →
    read (.object members) = read (.object ((name, part) :: members))

end Json

theorem Mapping.omits :
    Json.Omits Mapping.toJson "from" (·.source = "") ∧
      Json.Omits Mapping.toJson "to" (·.target = "") := by
  constructor <;>
  · intro mapping
    unfold Mapping.toJson Json.unlessEmpty
    split <;> split <;> simp_all [Json.part?, Json.member?]

theorem Edge.omits : Json.Omits Edge.toJson "mappings" (·.mappings = []) := by
  intro edge
  unfold Edge.toJson
  split <;> simp_all [Json.part?, Json.member?]

theorem Mapping.missingMeans :
    Json.MissingMeans Mapping.ofJson? "from" (.string "") ∧
      Json.MissingMeans Mapping.ofJson? "to" (.string "") := by
  constructor <;>
  · intro members hmissing
    simp [ofJson?, Json.member?, hmissing, Json.stringOrEmpty?, Json.asString?]

theorem Edge.missingMeans : Json.MissingMeans Edge.ofJson? "mappings" (.array []) := by
  intro members hmissing
  simp [ofJson?, Json.member?, hmissing, Mapping.listOfJson?, Json.asArray?]

theorem Interface.missingMeans :
    Json.MissingMeans Interface.ofJson? "capabilities" (Capabilities.toJson .empty) := by
  intro members hmissing
  simp [ofJson?, Json.member?, hmissing, Capabilities.ofMember?,
    Capabilities.ofJson?_of_shuffled (.refl _)]

theorem RecordType.missingMeans :
    Json.MissingMeans RecordType.ofJson? "capabilities" (Capabilities.toJson .empty) := by
  intro members hmissing
  simp [ofJson?, Ty.fieldsOfMember?_eq, Json.member?, hmissing, Capabilities.ofMember?,
    Capabilities.ofJson?_of_shuffled (.refl _)]

theorem Field.missingMeans :
    Json.MissingMeans Field.ofJson? "visibility" (Visibility.toJson .shown) := by
  intro members hmissing
  simp [ofJson?, Ty.ofMember?_eq, Json.member?, hmissing, Visibility.ofMember?,
    Visibility.ofJson?_of_shuffled (.refl _)]

/-- Types, mappings, edges and guards are what is read from their documents.  Empty names
of parts and empty lists of mappings are not written, and a missing member is read as
the empty or usual one. -/
theorem documents_inverse :
    (Json.Inverse Ty.toJson Ty.ofJson? ∧
      Json.Inverse RecordType.toJson RecordType.ofJson? ∧
      Json.Inverse Field.toJson Field.ofJson? ∧
      Json.Inverse Interface.toJson Interface.ofJson? ∧
      Json.Inverse Mapping.toJson Mapping.ofJson? ∧
      Json.Inverse Edge.toJson Edge.ofJson? ∧
      Json.Inverse Guard.toJson Guard.ofJson? ∧
      Json.Inverse GuardPlan.toJson GuardPlan.ofJson?) ∧
    (Json.Omits Mapping.toJson "from" (·.source = "") ∧
      Json.Omits Mapping.toJson "to" (·.target = "") ∧
      Json.Omits Edge.toJson "mappings" (·.mappings = [])) ∧
    (Json.MissingMeans Field.ofJson? "visibility" (Visibility.toJson .shown) ∧
      Json.MissingMeans RecordType.ofJson? "capabilities" (Capabilities.toJson .empty) ∧
      Json.MissingMeans Interface.ofJson? "capabilities" (Capabilities.toJson .empty) ∧
      Json.MissingMeans Mapping.ofJson? "from" (.string "") ∧
      Json.MissingMeans Mapping.ofJson? "to" (.string "") ∧
      Json.MissingMeans Edge.ofJson? "mappings" (.array [])) := by
  refine ⟨⟨.of_shuffled fun type _ => type.ofJson?_of_shuffled,
    .of_shuffled fun shape _ h => ?_, .of_shuffled fun field _ h => ?_,
    .of_shuffled fun _ _ => Interface.ofJson?_of_shuffled,
    .of_shuffled fun mapping _ => mapping.ofJson?_of_shuffled,
    .of_shuffled fun edge _ => edge.ofJson?_of_shuffled,
    .of_shuffled fun guard _ => guard.ofJson?_of_shuffled,
    .of_shuffled fun plan _ => plan.ofJson?_of_shuffled⟩,
    ⟨Mapping.omits.1, Mapping.omits.2, Edge.omits⟩,
    ⟨Field.missingMeans, RecordType.missingMeans, Interface.missingMeans,
      Mapping.missingMeans.1, Mapping.missingMeans.2, Edge.missingMeans⟩⟩
  · exact RecordType.ofJson?_of_fields shape h fun _ => Ty.fieldsOfJson?_of_shuffled shape.fields
  · exact Field.ofJson?_of_type field h fun _ => field.type.ofJson?_of_shuffled

end Dataflow
