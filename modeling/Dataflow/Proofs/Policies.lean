import Dataflow.Proofs.Assembling

/-!
# Policies in force

Which policy a registry applies to a type, whatever was registered in whatever order,
and what merging makes of it.  A type is looked up by its structure, so two record types
of one name are two types.

* `MergeRegistry.lookup_registerAll_of_last`: the last registration counts.
* `MergeRegistry.policy?_eq_iff`: the policy for a type after a history.
* `MergeRegistry.merge_eq_error_iff`: when merging fails, and what it reports.
* `MergeRegistry.merge_congr`: merging asks the policy of several values for the type
  and no other.
-/

namespace Dataflow

/-! ## Registrations -/

/-- What a policy is registered for. -/
inductive Scope
  /-- One type. -/
  | type (type : Ty)
  /-- All types of one kind. -/
  | kind (kind : Kind)
deriving DecidableEq

/-- A policy and what it is registered for. -/
structure Registration where
  scope : Scope
  policy : Policy

/-- The policy was registered for the scope, and no other was after it. -/
def LastFor (history : List Registration) (scope : Scope) (policy : Policy) : Prop :=
  ∃ before after, history = before ++ ⟨scope, policy⟩ :: after ∧ ∀ r ∈ after, r.scope ≠ scope

/-- For every scope there is a last registration, or none at all. -/
theorem exists_lastFor_or_forall_ne (history : List Registration) (scope : Scope) :
    (∃ policy, LastFor history scope policy) ∨ ∀ r ∈ history, r.scope ≠ scope := by
  induction history with
  | nil => exact .inr nofun
  | cons r history ih =>
    rcases ih with ⟨policy, before, after, rfl, hafter⟩ | hnone
    · exact .inl ⟨policy, r :: before, after, rfl, hafter⟩
    by_cases hscope : r.scope = scope
    · exact .inl ⟨r.policy, [], history, by rw [← hscope]; rfl, hnone⟩
    · exact .inr (List.forall_mem_cons.2 ⟨hscope, hnone⟩)

/-- An error that is no merge error is reported by its text. -/
theorem Error.reported_of_kind_ne {e : Error} (h : e.kind ≠ .merge) : e.reported = e.message := by
  cases e with
  | merge => exact absurd rfl h
  | _ => rfl

namespace MergeRegistry

/-- The registry with one more registration. -/
def register (registry : MergeRegistry) (r : Registration) : MergeRegistry :=
  match r.scope with
  | .type type => registry.registerType type r.policy
  | .kind kind => registry.registerKind kind r.policy

/-- The registry after a history of registrations. -/
def registerAll (registry : MergeRegistry) (history : List Registration) : MergeRegistry :=
  history.foldl register registry

/-- The policy that is registered for a scope. -/
def lookup (registry : MergeRegistry) : Scope → Option Policy
  | .type type => (registry.byType.find? (·.1 = type)).map (·.2)
  | .kind kind => (registry.byKind.find? (·.1 = kind)).map (·.2)

theorem policy?_eq_lookup (registry : MergeRegistry) (type : Ty) :
    registry.policy? type =
      (registry.lookup (.type type)).or (registry.lookup (.kind type.kind)) :=
  rfl

/-- An entry that takes the place of the one for its key is found under that key, and
the others are found as before. -/
theorem find?_replaced {κ : Type} [DecidableEq κ] (entries : List (κ × Policy)) (key other : κ)
    (policy : Policy) :
    (((key, policy) :: entries.filter (·.1 ≠ key)).find? (·.1 = other)).map (·.2) =
      if key = other then some policy else (entries.find? (·.1 = other)).map (·.2) := by
  by_cases heq : key = other
  · rw [if_pos heq, List.find?_cons_of_pos (by simpa using heq)]
    rfl
  · rw [if_neg heq, List.find?_cons_of_neg (by simpa using heq), List.find?_filter]
    congr 2
    funext entry
    by_cases hentry : entry.1 = other
    · simp [hentry, Ne.symm heq]
    · simp [hentry]

theorem lookup_register (registry : MergeRegistry) (r : Registration) (scope : Scope) :
    (registry.register r).lookup scope =
      if r.scope = scope then some r.policy else registry.lookup scope := by
  obtain ⟨own, policy⟩ := r
  cases own with
  | type type =>
    cases scope with
    | type other =>
      simp only [Scope.type.injEq]
      exact find?_replaced registry.byType type other policy
    | kind other => rfl
  | kind kind =>
    cases scope with
    | type other => rfl
    | kind other =>
      simp only [Scope.kind.injEq]
      exact find?_replaced registry.byKind kind other policy

/-- A history leaves alone what it has no registration for. -/
theorem lookup_registerAll_of_forall_ne {history : List Registration} {scope : Scope}
    (h : ∀ r ∈ history, r.scope ≠ scope) (registry : MergeRegistry) :
    (registry.registerAll history).lookup scope = registry.lookup scope := by
  induction history generalizing registry with
  | nil => rfl
  | cons r history ih =>
    obtain ⟨hr, hhistory⟩ := List.forall_mem_cons.1 h
    show ((registry.register r).registerAll history).lookup scope = _
    rw [ih hhistory, lookup_register, if_neg hr]

/-- The last registration counts. -/
theorem lookup_registerAll_of_last {history : List Registration} {scope : Scope} {policy : Policy}
    (h : LastFor history scope policy) (registry : MergeRegistry) :
    (registry.registerAll history).lookup scope = some policy := by
  obtain ⟨before, after, rfl, hafter⟩ := h
  have hsplit : registry.registerAll (before ++ ⟨scope, policy⟩ :: after) =
      ((registry.registerAll before).register ⟨scope, policy⟩).registerAll after := by
    rw [registerAll, List.foldl_append]
    rfl
  rw [hsplit, lookup_registerAll_of_forall_ne hafter, lookup_register, if_pos rfl]

/-! ## The policy for a type -/

/-- What a registry has from the beginning, by kind. -/
def FromStart (registry : MergeRegistry) (builtIn : Kind → Option Policy) : Prop :=
  (∀ type, registry.lookup (.type type) = none) ∧
    ∀ kind, registry.lookup (.kind kind) = builtIn kind

/-- The policies that are in force without any registration. -/
def standardPolicy? : Kind → Option Policy
  | .map => some Policy.union
  | .list => some Policy.concat
  | _ => none

theorem fromStart_empty : empty.FromStart fun _ => none :=
  ⟨fun _ => rfl, fun _ => rfl⟩

theorem fromStart_standard : standard.FromStart standardPolicy? :=
  ⟨fun _ => rfl, fun kind => by cases kind <;> rfl⟩

/-- The policy for a type after a history: the last one for the type itself, or else
the last one for its kind, or else the one that was there from the beginning. -/
inductive Chosen (builtIn : Kind → Option Policy) (history : List Registration) (type : Ty) :
    Option Policy → Prop
  | byType {policy : Policy} (h : LastFor history (.type type) policy) :
      Chosen builtIn history type (some policy)
  | byKind {policy : Policy} (htype : ∀ r ∈ history, r.scope ≠ .type type)
      (h : LastFor history (.kind type.kind) policy) : Chosen builtIn history type (some policy)
  | builtIn (htype : ∀ r ∈ history, r.scope ≠ .type type)
      (hkind : ∀ r ∈ history, r.scope ≠ .kind type.kind) :
      Chosen builtIn history type (builtIn type.kind)

variable {registry : MergeRegistry} {builtIn : Kind → Option Policy}

theorem policy?_of_chosen (hstart : registry.FromStart builtIn) {history : List Registration}
    {type : Ty} {chosen : Option Policy} (h : Chosen builtIn history type chosen) :
    (registry.registerAll history).policy? type = chosen := by
  rw [policy?_eq_lookup]
  cases h with
  | byType hlast =>
    rw [lookup_registerAll_of_last hlast]
    rfl
  | byKind htype hlast =>
    rw [lookup_registerAll_of_forall_ne htype, hstart.1, lookup_registerAll_of_last hlast]
    rfl
  | builtIn htype hkind =>
    rw [lookup_registerAll_of_forall_ne htype, hstart.1, lookup_registerAll_of_forall_ne hkind,
      hstart.2]
    rfl

theorem exists_chosen (builtIn : Kind → Option Policy) (history : List Registration) (type : Ty) :
    ∃ chosen, Chosen builtIn history type chosen := by
  rcases exists_lastFor_or_forall_ne history (.type type) with ⟨policy, hlast⟩ | htype
  · exact ⟨_, .byType hlast⟩
  rcases exists_lastFor_or_forall_ne history (.kind type.kind) with ⟨policy, hlast⟩ | hkind
  · exact ⟨_, .byKind htype hlast⟩
  · exact ⟨_, .builtIn htype hkind⟩

/-- The policy for a type after a history of registrations. -/
theorem policy?_eq_iff (hstart : registry.FromStart builtIn) {history : List Registration}
    {type : Ty} {policy : Option Policy} :
    (registry.registerAll history).policy? type = policy ↔
      Chosen builtIn history type policy := by
  obtain ⟨chosen, hchosen⟩ := exists_chosen builtIn history type
  refine ⟨fun h => ?_, policy?_of_chosen hstart⟩
  rwa [← h, policy?_of_chosen hstart hchosen]

/-- A registration for one type says nothing about another, not even about one of the
same name. -/
theorem policy?_registerType_of_ne (registry : MergeRegistry) {type other : Ty}
    (h : other ≠ type) (policy : Policy) :
    (registry.registerType other policy).policy? type = registry.policy? type := by
  have hlookup := registry.lookup_register ⟨.type other, policy⟩ (.type type)
  rw [if_neg (fun heq => h (Scope.type.inj heq))] at hlookup
  rw [policy?_eq_lookup, policy?_eq_lookup, ← hlookup]
  rfl

/-! ## Merging -/

/-- Why values of a type do not merge. -/
inductive Refusal (registry : MergeRegistry) (type : Ty) (values : List Value) : String → Prop
  /-- There is nothing to merge. -/
  | noValue (hnone : values = []) : Refusal registry type values "no value to merge"
  /-- There are several values and no policy for them. -/
  | noPolicy (hseveral : 1 < values.length) (hpolicy : registry.policy? type = none) :
      Refusal registry type values "no merge policy for this type"
  /-- The policy gave a reason of its own. -/
  | reason {policy : Policy} {field text reason : String} {count : Nat}
      (hseveral : 1 < values.length) (hpolicy : registry.policy? type = some policy)
      (hfailed : policy type values = .error (.merge field text count reason)) :
      Refusal registry type values reason
  /-- The policy failed in another way. -/
  | failure {policy : Policy} {e : Error} (hseveral : 1 < values.length)
      (hpolicy : registry.policy? type = some policy) (hfailed : policy type values = .error e)
      (hother : e.kind ≠ .merge) : Refusal registry type values e.message

variable {field : String} {type : Ty} {values : List Value}

theorem refusal_of_error {policy : Policy} {e : Error} (hseveral : 1 < values.length)
    (hpolicy : registry.policy? type = some policy) (hfailed : policy type values = .error e) :
    Refusal registry type values e.reported := by
  cases e with
  | merge field text count reason => exact .reason hseveral hpolicy hfailed
  | _ => exact .failure hseveral hpolicy hfailed nofun

theorem merge_of_no_policy (hseveral : 1 < values.length) (hpolicy : registry.policy? type = none) :
    registry.merge field type values =
      .error (.merge field type.text values.length "no merge policy for this type") := by
  match values, hseveral with
  | first :: second :: rest, _ =>
    unfold merge
    dsimp only
    rw [hpolicy]

/-- Merging fails where there is a reason to refuse the values, and the error says which
field and type it was, how many values there were, and the reason. -/
theorem merge_eq_error_iff {e : Error} :
    registry.merge field type values = .error e ↔
      ∃ reason, Refusal registry type values reason ∧
        e = .merge field type.text values.length reason := by
  constructor
  · intro h
    match values, h with
    | [], h => exact ⟨_, .noValue rfl, (Except.error.inj h).symm⟩
    | first :: second :: rest, h =>
      have hseveral : 1 < (first :: second :: rest).length := by simp
      cases hpolicy : registry.policy? type with
      | none =>
        rw [merge_of_no_policy hseveral hpolicy] at h
        exact ⟨_, .noPolicy hseveral hpolicy, (Except.error.inj h).symm⟩
      | some policy =>
        rw [merge_several hseveral hpolicy] at h
        cases hmade : policy type (first :: second :: rest) with
        | ok merged =>
          rw [hmade] at h
          cases h
        | error e' =>
          rw [hmade] at h
          exact ⟨_, refusal_of_error hseveral hpolicy hmade, (Except.error.inj h).symm⟩
  · rintro ⟨reason, hrefusal, rfl⟩
    cases hrefusal with
    | noValue hnone => rw [hnone]; rfl
    | noPolicy hseveral hpolicy => exact merge_of_no_policy hseveral hpolicy
    | reason hseveral hpolicy hfailed =>
      rw [merge_several hseveral hpolicy, hfailed]
      rfl
    | failure hseveral hpolicy hfailed hother =>
      rw [merge_several hseveral hpolicy, hfailed, ← Error.reported_of_kind_ne hother]
      rfl

/-- Merging asks nothing of a registry but what its policy for the type makes of the
values, all of them and in their order, and that only when there are several. -/
theorem merge_congr {other : MergeRegistry}
    (h : 1 < values.length → (other.policy? type).map (fun policy => policy type values) =
      (registry.policy? type).map fun policy => policy type values) :
    other.merge field type values = registry.merge field type values := by
  match values, h with
  | [], _ => rfl
  | [value], _ => rfl
  | first :: second :: rest, h =>
    have hseveral : 1 < (first :: second :: rest).length := by simp
    have h := h hseveral
    cases hpolicy : registry.policy? type with
    | none =>
      rw [hpolicy, Option.map_none, Option.map_eq_none_iff] at h
      rw [merge_of_no_policy hseveral hpolicy, merge_of_no_policy hseveral h]
    | some policy =>
      rw [hpolicy, Option.map_some, Option.map_eq_some_iff] at h
      obtain ⟨policy', hpolicy', hmade⟩ := h
      rw [merge_several hseveral hpolicy, merge_several hseveral hpolicy', hmade]

/-- A registry works in a uniform way after a history of registrations: which policy it
has for a type is said by the history, several values go to that policy and to no other,
and all failures are reported alike. -/
structure Uniform (builtIn : Kind → Option Policy) (history : List Registration)
    (registry : MergeRegistry) : Prop where
  chosen : ∀ type policy, registry.policy? type = policy ↔ Chosen builtIn history type policy
  apart : ∀ name fields fields' capabilities capabilities' policy, fields ≠ fields' →
    (registry.registerType (.record ⟨name, fields', capabilities'⟩) policy).policy?
        (.record ⟨name, fields, capabilities⟩) =
      registry.policy? (.record ⟨name, fields, capabilities⟩)
  single : ∀ field type value, registry.merge field type [value] = .ok value
  several : ∀ field type values policy, 1 < values.length → registry.policy? type = some policy →
    registry.merge field type values =
      (policy type values).mapError fun e => .merge field type.text values.length e.reported
  asked : ∀ field type values, ∀ other : MergeRegistry,
    (1 < values.length → (other.policy? type).map (fun policy => policy type values) =
      (registry.policy? type).map fun policy => policy type values) →
    other.merge field type values = registry.merge field type values
  refused : ∀ field type values e, registry.merge field type values = .error e ↔
    ∃ reason, Refusal registry type values reason ∧
      e = .merge field type.text values.length reason

theorem uniform_registerAll (hstart : registry.FromStart builtIn) (history : List Registration) :
    Uniform builtIn history (registry.registerAll history) where
  chosen _ _ := policy?_eq_iff hstart
  apart _ _ _ _ _ policy hne := by
    refine policy?_registerType_of_ne _ (fun heq => hne ?_) policy
    exact (congrArg RecordOf.fields (Ty.record.inj heq)).symm
  single _ _ _ := rfl
  several _ _ _ _ := merge_several
  asked _ _ _ _ := merge_congr
  refused _ _ _ _ := merge_eq_error_iff

/-- After any history of registrations, on the registry without policies and on the
standard one, policies are looked up and failures are reported in one way. -/
theorem registrations_uniform (history : List Registration) :
    Uniform (fun _ => none) history (empty.registerAll history) ∧
      Uniform standardPolicy? history (standard.registerAll history) :=
  ⟨uniform_registerAll fromStart_empty history, uniform_registerAll fromStart_standard history⟩

end MergeRegistry

end Dataflow
