import Dataflow.Circuit
import Dataflow.Mapping.Check
import Dataflow.Proofs.Outcome
import Dataflow.Proofs.WellTyped
import Mathlib.Data.List.Induction

/-!
# Guards that are left out

The check of an edge puts guards only on the targets whose declared types leave
open whether a value fits.  `Mapping.extractChecked` is the path without that
saving: it looks at every extracted value.  On values of the predecessor's type
the two agree, in their results and in the errors they report.

The argument has three parts.

* What the check finds out: `Planned` says that every mapping resolves, and which
  targets have a guard.  It is an induction over the mappings from the back,
  because the last mapping to a target decides which value arrives there.
* What extraction delivers: `find?_of_extract` and `extract_isOk_iff`.
* A plan as a search: `GuardPlan.apply_eq` reads a plan as the search for the
  first refused value in target order.  Two such searches agree when they agree
  at every target, which is `guards_refuse_iff`.
-/

namespace Dataflow

/-! ## Plans as searches -/

/-- The error with which a guard refuses a value, if it does. -/
def Guard.refusal? (guard : Guard) (value : Value) : Option Error :=
  if value.fits guard.expected then none
  else some (.runtimeType guard.mapping value.type.text guard.expected.text)

theorem Guard.check_eq (guard : Guard) (value : Value) :
    guard.check value =
      match guard.refusal? value with
      | none => .ok value
      | some e => .error e := by
  unfold Guard.check Guard.refusal?
  split <;> rfl

theorem Guard.outcome_check (guard : Guard) (value : Value) :
    Outcome (fun e => e.kind = .runtimeType) (fun _ => True) (guard.check value) := by
  unfold Guard.check
  split
  · trivial
  · exact Eq.refl ErrorKind.runtimeType

/-- A plan hands the fields on as they are, or reports the first refused value in
target order. -/
theorem GuardPlan.apply_eq (plan : GuardPlan) (fields : Fields) :
    plan.apply fields =
      match plan.guards.entries.findSome? fun e => (fields.find? e.1).bind e.2.refusal? with
      | none => .ok fields
      | some e => .error e := by
  unfold GuardPlan.apply
  induction plan.guards.entries with
  | nil => rfl
  | cons entry rest ih =>
    rw [List.foldlM_cons, List.findSome?_cons]
    cases hf : fields.find? entry.1 with
    | none => exact ih
    | some value =>
      dsimp only
      rw [Option.bind_some, Guard.check_eq]
      cases entry.2.refusal? value with
      | some e => rfl
      | none =>
        show List.foldlM _ ((fields.erase entry.1).insert entry.1 value) rest = _
        rw [Table.insert_erase_self hf]
        exact ih

namespace Wire

/-- The guards of a wire by their targets. -/
def guards (wire : Wire) : Table Guard :=
  match wire.plan with
  | none => .empty
  | some plan => plan.guards

theorem guarded_eq (wire : Wire) (fields : Fields) :
    wire.guarded fields =
      match wire.guards.entries.findSome? fun e => (fields.find? e.1).bind e.2.refusal? with
      | none => .ok fields
      | some e => .error e := by
  unfold guarded guards
  cases wire.plan with
  | none => rfl
  | some plan => exact plan.apply_eq fields

/-- What a wire hands on is what it has extracted. -/
theorem extract_of_apply {wire : Wire} {output : Value} {fields : Fields}
    (h : wire.apply output = .ok fields) : Mapping.extract wire.mappings output = .ok fields := by
  obtain ⟨extracted, hextract, h⟩ := bind_eq_ok h
  rw [guarded_eq] at h
  split at h
  · rw [hextract, Except.ok.inj h]
  · exact nomatch h

/-- Extraction fails because a part cannot be read. -/
theorem outcome_extract (mappings : List Mapping) (output : Value) :
    Outcome (fun e => e.kind = .access) (fun _ => True) (Mapping.extract mappings output) := by
  refine outcome_foldlM (fun _ => True) trivial fun mapping _ fields _ => ?_
  cases output.take mapping.source with
  | ok part => trivial
  | error access => exact Eq.refl ErrorKind.access

/-- The guards of a wire fail because a value does not fit. -/
theorem outcome_guarded (wire : Wire) (fields : Fields) :
    Outcome (fun e => e.kind = .runtimeType) (fun _ => True) (wire.guarded fields) := by
  unfold guarded
  cases wire.plan with
  | none => trivial
  | some plan =>
    refine outcome_foldlM (fun _ => True) trivial fun entry _ fields _ => ?_
    cases fields.find? entry.1 with
    | none => trivial
    | some value => exact (entry.2.outcome_check value).bind fun _ _ _ => trivial

/-- A wire fails because a part cannot be read or a value does not fit. -/
theorem kind_of_apply_error {wire : Wire} {output : Value} :
    Outcome (fun e => e.kind = .access ∨ e.kind = .runtimeType) (fun _ => True)
      (wire.apply output) :=
  ((outcome_extract wire.mappings output).imp (fun _ => .inl) fun _ => id).bind fun fields _ _ =>
    (wire.outcome_guarded fields).imp (fun _ => .inr) fun _ => id

end Wire

namespace Mapping

/-! ## The path that checks everything -/

/-- The mapping whose value arrives at a target: of several the last one, which
writes over the others. -/
def arriving? (mappings : List Mapping) (target : String) : Option Mapping :=
  mappings.reverse.find? (·.target = target)

/-- The error with which the declared type of a target refuses a value. -/
def refusal? (successor : Ty) (mappings : List Mapping) (target : String) (value : Value) :
    Option Error :=
  match successor.part target with
  | .error e => some (.access e)
  | .ok declared =>
    if value.fits declared then none
    else some (.runtimeType (((arriving? mappings target).map text).getD "")
      value.type.text declared.text)

/-- Reads every mapped part of an output and checks every one of them against the
declared type of its target. -/
def extractChecked (successor : Ty) (mappings : List Mapping) (output : Value) :
    Except Error Fields := do
  let fields ← extract mappings output
  match fields.entries.findSome? fun e => refusal? successor mappings e.1 e.2 with
  | none => return fields
  | some e => throw e

/-- Every value fits the declared type of its target. -/
def Fitting (successor : Ty) (fields : Fields) : Prop :=
  ∀ target value, fields.find? target = some value →
    ∃ declared, successor.part target = .ok declared ∧ value.fits declared = true

/-- The mappings of an edge passed the check with a plan: mappings of parts, or
the one mapping that a plain edge stands for. -/
inductive Accepted (predecessor successor : Ty) : List Mapping → Option GuardPlan → Prop
  | mapped {mappings : List Mapping} {plan : Option GuardPlan}
      (h : check predecessor successor mappings = .ok plan) :
      Accepted predecessor successor mappings plan
  | plain {node : String} {guard : Option Guard}
      (h : checkWhole node predecessor successor = .ok guard) :
      Accepted predecessor successor [{ node }] (guard.map GuardPlan.empty.insert)

theorem arriving?_concat (mappings : List Mapping) (mapping : Mapping) (target : String) :
    arriving? (mappings ++ [mapping]) target =
      if mapping.target = target then some mapping else arriving? mappings target := by
  unfold arriving?
  rw [List.reverse_append, List.reverse_singleton, List.singleton_append, List.find?_cons]
  by_cases h : mapping.target = target <;> simp [h]

theorem mem_of_arriving? {mappings : List Mapping} {mapping : Mapping} {target : String}
    (h : arriving? mappings target = some mapping) :
    mapping ∈ mappings ∧ mapping.target = target :=
  ⟨List.mem_reverse.1 (List.mem_of_find?_eq_some h), by simpa using List.find?_some h⟩

/-! ## What the check finds out -/

/-- Every mapping resolves and may fit, and the guards are those that the last
mapping to each target needs, with at most some that are not needed. -/
structure Planned (predecessor successor : Ty) (mappings : List Mapping)
    (guards : Table Guard) : Prop where
  resolved : ∀ mapping ∈ mappings, ∃ source target,
    predecessor.part mapping.source = .ok source ∧
      successor.part mapping.target = .ok target ∧ source.fit target ≠ .never
  expected : ∀ target guard, guards.find? target = some guard →
    successor.part target = .ok guard.expected
  guarded : ∀ target mapping source declared, arriving? mappings target = some mapping →
    predecessor.part mapping.source = .ok source → successor.part target = .ok declared →
      source.fit declared = .conditional →
        guards.find? target = some ⟨mapping.text, target, declared⟩

section Planned

variable {predecessor successor : Ty} {mappings : List Mapping}

/-- What the check of one mapping says about it. -/
theorem guard?_eq_ok {mapping : Mapping} {guard : Option Guard}
    (h : mapping.guard? predecessor successor = .ok guard) :
    ∃ source target, predecessor.part mapping.source = .ok source ∧
      successor.part mapping.target = .ok target ∧
      (source.fit target = .always ∧ guard = none ∨
        source.fit target = .conditional ∧
          guard = some ⟨mapping.text, mapping.target, target⟩) := by
  obtain ⟨⟨source, target⟩, hresolve, h⟩ := bind_eq_ok h
  obtain ⟨source', hsource, hresolve⟩ := bind_eq_ok hresolve
  obtain ⟨target', htarget, hresolve⟩ := bind_eq_ok hresolve
  obtain ⟨rfl, rfl⟩ := Prod.mk.inj (Except.ok.inj hresolve)
  refine ⟨source', target', mapError_eq_ok hsource, mapError_eq_ok htarget, ?_⟩
  cases hfit : source'.fit target' with
  | always =>
    simp only [hfit] at h
    exact .inl ⟨rfl, (Except.ok.inj h).symm⟩
  | conditional =>
    simp only [hfit] at h
    exact .inr ⟨rfl, (Except.ok.inj h).symm⟩
  | never =>
    simp only [hfit] at h
    exact nomatch h

/-- One more mapping that needs no guard. -/
theorem Planned.concat_always {guards : Table Guard} {mapping : Mapping} {source target : Ty}
    (h : Planned predecessor successor mappings guards)
    (hsource : predecessor.part mapping.source = .ok source)
    (htarget : successor.part mapping.target = .ok target) (hfit : source.fit target = .always) :
    Planned predecessor successor (mappings ++ [mapping]) guards where
  resolved := by
    intro m hm
    rcases List.mem_append.1 hm with hm | hm
    · exact h.resolved m hm
    · obtain rfl := List.mem_singleton.1 hm
      exact ⟨source, target, hsource, htarget, by rw [hfit]; nofun⟩
  expected := h.expected
  guarded := by
    intro t m s d harr hs hd hc
    rw [arriving?_concat] at harr
    split at harr
    next heq =>
      -- the last mapping to this target always fits, so it is not conditional
      obtain rfl := Option.some.inj harr
      subst heq
      rw [hsource] at hs
      rw [htarget] at hd
      obtain rfl := Except.ok.inj hs
      obtain rfl := Except.ok.inj hd
      rw [hfit] at hc
      exact nomatch hc
    · exact h.guarded t m s d harr hs hd hc

/-- One more mapping that needs a guard, which replaces the one of its target. -/
theorem Planned.concat_conditional {guards : Table Guard} {mapping : Mapping} {source target : Ty}
    (h : Planned predecessor successor mappings guards)
    (hsource : predecessor.part mapping.source = .ok source)
    (htarget : successor.part mapping.target = .ok target)
    (hfit : source.fit target = .conditional) :
    Planned predecessor successor (mappings ++ [mapping])
      (guards.insert mapping.target ⟨mapping.text, mapping.target, target⟩) where
  resolved := by
    intro m hm
    rcases List.mem_append.1 hm with hm | hm
    · exact h.resolved m hm
    · obtain rfl := List.mem_singleton.1 hm
      exact ⟨source, target, hsource, htarget, by rw [hfit]; nofun⟩
  expected := by
    intro t g hg
    rw [Table.find?_insert] at hg
    split at hg
    next heq =>
      obtain rfl := Option.some.inj hg
      rw [heq, htarget]
    · exact h.expected t g hg
  guarded := by
    intro t m s d harr hs hd hc
    rw [arriving?_concat] at harr
    rw [Table.find?_insert]
    split at harr
    next heq =>
      obtain rfl := Option.some.inj harr
      subst heq
      rw [htarget] at hd
      obtain rfl := Except.ok.inj hd
      rw [if_pos rfl]
    next hne =>
      rw [if_neg fun heq => hne heq.symm]
      exact h.guarded t m s d harr hs hd hc

/-- One more mapping adds its guard, if it needs one. -/
theorem guards_concat {mapping : Mapping} {plan : GuardPlan}
    (h : guards predecessor successor (mappings ++ [mapping]) = .ok plan) :
    ∃ before source target, guards predecessor successor mappings = .ok before ∧
      predecessor.part mapping.source = .ok source ∧ successor.part mapping.target = .ok target ∧
      (source.fit target = .always ∧ plan = before ∨
        source.fit target = .conditional ∧
          plan = before.insert ⟨mapping.text, mapping.target, target⟩) := by
  unfold guards at h
  rw [List.foldlM_append] at h
  obtain ⟨before, hbefore, hlast⟩ := bind_eq_ok h
  rw [List.foldlM_cons] at hlast
  obtain ⟨after, hstep, hnil⟩ := bind_eq_ok hlast
  obtain ⟨guard, hguard, hinsert⟩ := bind_eq_ok hstep
  obtain ⟨source, target, hsource, htarget, hcases⟩ := guard?_eq_ok hguard
  obtain rfl : after = plan := Except.ok.inj hnil
  refine ⟨before, source, target, hbefore, hsource, htarget, ?_⟩
  rcases hcases with ⟨hfit, rfl⟩ | ⟨hfit, rfl⟩
  · exact .inl ⟨hfit, (Except.ok.inj hinsert).symm⟩
  · exact .inr ⟨hfit, (Except.ok.inj hinsert).symm⟩

/-- The guards that a list of mappings is given. -/
theorem planned_of_guards {plan : GuardPlan}
    (h : guards predecessor successor mappings = .ok plan) :
    Planned predecessor successor mappings plan.guards := by
  induction mappings using List.reverseRecOn generalizing plan with
  | nil =>
    obtain rfl := Except.ok.inj h
    exact ⟨nofun, nofun, nofun⟩
  | append_singleton mappings mapping ih =>
    obtain ⟨before, source, target, hbefore, hsource, htarget, ⟨hfit, rfl⟩ | ⟨hfit, rfl⟩⟩ :=
      guards_concat h
    · exact (ih hbefore).concat_always hsource htarget hfit
    · exact (ih hbefore).concat_conditional hsource htarget hfit

/-- What a check that succeeds gives are the guards, if there are any. -/
theorem guards_of_check {plan : Option GuardPlan}
    (h : check predecessor successor mappings = .ok plan) :
    ∃ full, guards predecessor successor mappings = .ok full ∧
      plan = if full.guards.isEmpty then none else some full := by
  unfold check at h
  obtain ⟨_, h⟩ := throwIf_eq_ok h
  obtain ⟨_, h⟩ := throwIf_eq_ok h
  obtain ⟨_, h⟩ := throwIf_eq_ok h
  obtain ⟨_, h⟩ := throwIf_eq_ok h
  obtain ⟨full, hfull, h⟩ := bind_eq_ok h
  exact ⟨full, hfull, (Except.ok.inj h).symm⟩

theorem planned_of_check {plan : Option GuardPlan}
    (h : check predecessor successor mappings = .ok plan) (source target : String) :
    Planned predecessor successor mappings (Wire.guards ⟨source, target, mappings, plan⟩) := by
  obtain ⟨full, hfull, rfl⟩ := guards_of_check h
  have hplanned := planned_of_guards hfull
  by_cases hempty : full.guards.isEmpty = true
  · have heq : full.guards = .empty := Table.eq_of_find?_eq fun name => by
      rw [Table.isEmpty_iff.1 hempty name]
      rfl
    rw [if_pos hempty]
    rwa [heq] at hplanned
  · rwa [if_neg hempty]

theorem planned_of_checkWhole {node : String} {guard : Option Guard}
    (h : checkWhole node predecessor successor = .ok guard) (source target : String) :
    Planned predecessor successor [{ node }]
      (Wire.guards ⟨source, target, [{ node }], guard.map GuardPlan.empty.insert⟩) := by
  have hnone : Planned predecessor successor [] (.empty : Table Guard) := ⟨nofun, nofun, nofun⟩
  have hsource : predecessor.part ({ node } : Mapping).source = .ok predecessor := rfl
  have htarget : successor.part ({ node } : Mapping).target = .ok successor := rfl
  unfold checkWhole at h
  dsimp only at h
  split at h
  next hfit =>
    obtain rfl := Except.ok.inj h
    exact hnone.concat_always hsource htarget hfit
  next hfit =>
    obtain rfl := Except.ok.inj h
    exact hnone.concat_conditional hsource htarget hfit
  · exact nomatch h

/-- What is known about the mappings and the guards of an accepted edge. -/
theorem Accepted.planned {plan : Option GuardPlan}
    (h : Accepted predecessor successor mappings plan) (source target : String) :
    Planned predecessor successor mappings (Wire.guards ⟨source, target, mappings, plan⟩) := by
  cases h with
  | mapped h => exact planned_of_check h source target
  | plain h => exact planned_of_checkWhole h source target

end Planned

/-! ## What extraction delivers -/

theorem extract_concat (mappings : List Mapping) (mapping : Mapping) (output : Value) :
    extract (mappings ++ [mapping]) output = do
      let fields ← extract mappings output
      let part ← (output.take mapping.source).mapError .access
      return fields.insert mapping.target part := by
  unfold extract
  rw [List.foldlM_append]
  refine congrArg _ (funext fun fields => ?_)
  rw [List.foldlM_cons]
  cases output.take mapping.source <;> rfl

/-- The value at a target is the one that the last mapping to it reads. -/
theorem find?_of_extract {mappings : List Mapping} {output : Value} {fields : Fields}
    (h : extract mappings output = .ok fields) (target : String) (value : Value) :
    fields.find? target = some value ↔ ∃ mapping, arriving? mappings target = some mapping ∧
      output.take mapping.source = .ok value := by
  induction mappings using List.reverseRecOn generalizing fields with
  | nil =>
    obtain rfl := Except.ok.inj h
    exact ⟨nofun, fun ⟨_, harr, _⟩ => nomatch harr⟩
  | append_singleton mappings mapping ih =>
    rw [extract_concat] at h
    obtain ⟨fields', hfields', h⟩ := bind_eq_ok h
    obtain ⟨part, hpart, h⟩ := bind_eq_ok h
    obtain rfl := Except.ok.inj h
    have htake := mapError_eq_ok hpart
    rw [Table.find?_insert, arriving?_concat]
    by_cases heq : target = mapping.target
    · rw [if_pos heq, if_pos heq.symm]
      constructor
      · intro hv
        obtain rfl := Option.some.inj hv
        exact ⟨mapping, rfl, htake⟩
      · rintro ⟨m, hm, hv⟩
        obtain rfl := Option.some.inj hm
        rw [htake] at hv
        rw [Except.ok.inj hv]
    · rw [if_neg heq, if_neg fun h => heq h.symm]
      exact ih hfields'

/-- Extraction fills only targets of mappings. -/
theorem exists_target_of_extract {mappings : List Mapping} {output value : Value}
    {fields : Fields} {target : String} (h : extract mappings output = .ok fields)
    (hvalue : fields.find? target = some value) : ∃ mapping ∈ mappings, mapping.target = target := by
  obtain ⟨mapping, harriving, _⟩ := (find?_of_extract h target value).1 hvalue
  exact ⟨mapping, mem_of_arriving? harriving⟩

/-- Extraction succeeds when every mapped part is there. -/
theorem extract_isOk_iff_take {mappings : List Mapping} {output : Value} :
    (∃ fields, extract mappings output = .ok fields) ↔
      ∀ mapping ∈ mappings, ∃ value, output.take mapping.source = .ok value := by
  refine exists_foldlM_eq_ok_iff (fun mapping _ fields => ?_) Table.empty
  cases output.take mapping.source with
  | ok value => exact ⟨fun _ => ⟨value, rfl⟩, fun _ => ⟨_, rfl⟩⟩
  | error e => exact ⟨nofun, nofun⟩

section Typed

variable {predecessor successor : Ty} {mappings : List Mapping} {output : Value}

/-- On a typed output extraction fails only for lack of an entry. -/
theorem extract_isOk_iff (hparts : ∀ mapping ∈ mappings, ∃ source,
    predecessor.part mapping.source = .ok source) (houtput : output.OfType predecessor) :
    (∃ fields, extract mappings output = .ok fields) ↔
      ∀ mapping ∈ mappings, output.hasEntry mapping.source = true := by
  refine extract_isOk_iff_take.trans (forall₂_congr fun mapping hmapping => ?_)
  obtain ⟨source, hsource⟩ := hparts mapping hmapping
  rcases houtput.take hsource with ⟨value, htake, _, hentry⟩ | ⟨⟨detail, htake⟩, hentry⟩
  · exact ⟨fun _ => hentry, fun _ => ⟨value, htake⟩⟩
  · refine ⟨fun ⟨value, hv⟩ => ?_, fun h => ?_⟩
    · rw [htake] at hv
      exact nomatch hv
    · rw [hentry] at h
      exact nomatch h

theorem extract_error (hparts : ∀ mapping ∈ mappings, ∃ source,
    predecessor.part mapping.source = .ok source) (houtput : output.OfType predecessor) :
    Outcome (fun e => ∃ detail, e = .access ⟨.keyNotFound, detail⟩) (fun _ => True)
      (extract mappings output) := by
  refine outcome_foldlM (fun _ => True) trivial fun mapping hmapping fields _ => ?_
  obtain ⟨source, hsource⟩ := hparts mapping hmapping
  rcases houtput.take hsource with ⟨value, htake, _, _⟩ | ⟨⟨detail, htake⟩, _⟩
  · rw [htake]
    trivial
  · rw [htake]
    exact ⟨detail, rfl⟩

/-- The value that arrives at a target has the type that its mapping reads. -/
theorem ofType_of_extract {fields : Fields} {guards : Table Guard} {target : String}
    {value : Value} (hplanned : Planned predecessor successor mappings guards)
    (houtput : output.OfType predecessor) (hfields : extract mappings output = .ok fields)
    (hvalue : fields.find? target = some value) :
    ∃ mapping source declared, arriving? mappings target = some mapping ∧
      predecessor.part mapping.source = .ok source ∧ successor.part target = .ok declared ∧
      source.fit declared ≠ .never ∧ value.OfType source := by
  obtain ⟨mapping, harr, htake⟩ := (find?_of_extract hfields target value).1 hvalue
  obtain ⟨hmem, rfl⟩ := mem_of_arriving? harr
  obtain ⟨source, declared, hsource, hdeclared, hfit⟩ := hplanned.resolved mapping hmem
  refine ⟨mapping, source, declared, harr, hsource, hdeclared, hfit, ?_⟩
  rcases houtput.take hsource with ⟨value', htake', hofType, _⟩ | ⟨⟨detail, htake'⟩, _⟩
  · rw [htake] at htake'
    obtain rfl := Except.ok.inj htake'
    exact hofType
  · rw [htake] at htake'
    exact nomatch htake'

/-! ## The two paths agree -/

/-- At every target the guards refuse what the declared type refuses, with the
same error. -/
theorem guards_refuse_iff {fields : Fields} {guards : Table Guard}
    (hplanned : Planned predecessor successor mappings guards)
    (houtput : output.OfType predecessor) (hfields : extract mappings output = .ok fields)
    (target : String) :
    (guards.find? target).bind (fun guard => (fields.find? target).bind guard.refusal?) =
      (fields.find? target).bind (refusal? successor mappings target) := by
  cases hvalue : fields.find? target with
  | none => simp
  | some value =>
    obtain ⟨mapping, source, declared, harr, hsource, hdeclared, hnever, htyped⟩ :=
      ofType_of_extract hplanned houtput hfields hvalue
    simp only [Option.bind_some, refusal?, hdeclared, harr, Option.map_some, Option.getD_some]
    cases hfit : source.fit declared with
    | never => exact absurd hfit hnever
    | always =>
      rw [if_pos (Value.fits_of_fit_eq_always htyped.fits hfit)]
      cases hguard : guards.find? target with
      | none => rfl
      | some guard =>
        have hexpected := hplanned.expected target guard hguard
        rw [hdeclared] at hexpected
        obtain rfl := Except.ok.inj hexpected
        exact if_pos (Value.fits_of_fit_eq_always htyped.fits hfit)
    | conditional =>
      rw [hplanned.guarded target mapping source declared harr hsource hdeclared hfit]
      rfl

/-- Applying an accepted wire is extracting and checking everything. -/
theorem apply_eq_extractChecked {plan : Option GuardPlan} {source target : String}
    (hplanned : Planned predecessor successor mappings
      (Wire.guards ⟨source, target, mappings, plan⟩))
    (houtput : output.OfType predecessor) :
    Wire.apply ⟨source, target, mappings, plan⟩ output =
      extractChecked successor mappings output := by
  unfold Wire.apply extractChecked
  cases hfields : extract mappings output with
  | error e => rfl
  | ok fields =>
    show Wire.guarded ⟨source, target, mappings, plan⟩ fields = _
    rw [Wire.guarded_eq,
      Ordered.findSome?_eq_of_find?_eq
        (f := fun k (guard : Guard) => (fields.find? k).bind guard.refusal?)
        (g := refusal? successor mappings) (Table.ascending _) fields.ascending
        (guards_refuse_iff hplanned houtput hfields)]
    rfl

/-- The checked path hands on the extracted fields when all of them fit. -/
theorem extractChecked_eq_ok_iff {fields : Fields} :
    extractChecked successor mappings output = .ok fields ↔
      extract mappings output = .ok fields ∧ Fitting successor fields := by
  have hnone : ∀ fields : Fields,
      (fields.entries.findSome? fun e => refusal? successor mappings e.1 e.2) = none ↔
        Fitting successor fields := by
    intro fields
    rw [List.findSome?_eq_none_iff, Prod.forall]
    refine forall₂_congr fun target value => ?_
    rw [Table.mem_entries_iff]
    refine imp_congr_right fun _ => ?_
    unfold refusal?
    cases successor.part target with
    | error e => simp
    | ok declared => simp
  unfold extractChecked
  cases hextract : extract mappings output with
  | error e => exact ⟨fun h => (nomatch h), fun h => (nomatch h.1)⟩
  | ok fields' =>
    simp only [bind, Except.bind]
    split
    next hnone' =>
      constructor
      · intro h
        obtain rfl := Except.ok.inj h
        exact ⟨rfl, (hnone _).1 hnone'⟩
      · exact fun h => h.1
    next e hsome =>
      refine ⟨fun h => (nomatch h), fun h => ?_⟩
      obtain rfl := Except.ok.inj h.1
      rw [(hnone _).2 h.2] at hsome
      exact nomatch hsome

/-- On a typed output the checked path fails for lack of an entry or because a
value does not fit. -/
theorem extractChecked_error {guards : Table Guard}
    (hplanned : Planned predecessor successor mappings guards)
    (houtput : output.OfType predecessor) :
    Outcome (fun e => (∃ detail, e = .access ⟨.keyNotFound, detail⟩) ∨
        ∃ mapping actual expected, e = .runtimeType mapping actual expected) (fun _ => True)
      (extractChecked successor mappings output) := by
  have hparts : ∀ mapping ∈ mappings, ∃ source, predecessor.part mapping.source = .ok source :=
    fun mapping hmapping => (hplanned.resolved mapping hmapping).imp fun _ h => h.choose_spec.1
  refine ((extract_error hparts houtput).imp (fun _ => .inl) fun _ _ => trivial).bind
    fun fields hfields _ => ?_
  split
  · trivial
  next e hsome =>
    obtain ⟨⟨target, value⟩, hmem, hrefusal⟩ := List.exists_of_findSome?_eq_some hsome
    obtain ⟨_, _, declared, _, _, hdeclared, _, _⟩ :=
      ofType_of_extract hplanned houtput hfields (Table.mem_entries_iff.1 hmem)
    simp only [refusal?, hdeclared] at hrefusal
    split at hrefusal
    · exact nomatch hrefusal
    · obtain rfl := Option.some.inj hrefusal
      exact .inr ⟨_, _, _, rfl⟩

/-- Leaving guards out is sound and exact.  On a typed output an accepted wire does
what the path does that checks everything: it succeeds exactly when every mapped
entry is there and every extracted value fits the declared type of its target,
it hands on exactly the extracted fields, and it fails for no other reason than
a missing entry or a value that does not fit. -/
theorem apply_sound_exact {plan : Option GuardPlan} {source target : String}
    (haccepted : Accepted predecessor successor mappings plan)
    (houtput : output.OfType predecessor) :
    Wire.apply ⟨source, target, mappings, plan⟩ output =
        extractChecked successor mappings output ∧
      (∀ fields, Wire.apply ⟨source, target, mappings, plan⟩ output = .ok fields ↔
        extract mappings output = .ok fields ∧ Fitting successor fields) ∧
      ((∃ fields, Wire.apply ⟨source, target, mappings, plan⟩ output = .ok fields) ↔
        (∀ mapping ∈ mappings, output.hasEntry mapping.source = true) ∧
          ∀ fields, extract mappings output = .ok fields → Fitting successor fields) ∧
      ∀ e, Wire.apply ⟨source, target, mappings, plan⟩ output = .error e →
        (∃ detail, e = .access ⟨.keyNotFound, detail⟩) ∨
          ∃ mapping actual expected, e = .runtimeType mapping actual expected := by
  have hplanned := haccepted.planned source target
  have heq := apply_eq_extractChecked hplanned houtput
  have hparts : ∀ mapping ∈ mappings, ∃ part, predecessor.part mapping.source = .ok part :=
    fun mapping hmapping => (hplanned.resolved mapping hmapping).imp fun _ h => h.choose_spec.1
  refine ⟨heq, fun fields => ?_, ?_, fun e he => ?_⟩
  · rw [heq]
    exact extractChecked_eq_ok_iff
  · rw [heq, ← extract_isOk_iff hparts houtput]
    constructor
    · rintro ⟨fields, h⟩
      obtain ⟨hfields, hfit⟩ := extractChecked_eq_ok_iff.1 h
      refine ⟨⟨fields, hfields⟩, fun fields' hfields' => ?_⟩
      rw [hfields] at hfields'
      obtain rfl := Except.ok.inj hfields'
      exact hfit
    · rintro ⟨⟨fields, hfields⟩, hfit⟩
      exact ⟨fields, extractChecked_eq_ok_iff.2 ⟨hfields, hfit fields hfields⟩⟩
  · have herror := extractChecked_error hplanned houtput
    rw [heq] at he
    rwa [he] at herror

end Typed

/-- Two mappings to one target, of which the first reads a value that would not
fit: only the value that arrives is checked. -/
theorem apply_replaced_value :
    let order : Ty := .record ⟨"Order", [⟨"total", .int, .shown⟩], .empty⟩
    let mappings : List Mapping := [⟨"parse", "text", "total"⟩, ⟨"parse", "count", "total"⟩]
    let plan : GuardPlan := GuardPlan.empty.insert ⟨text ⟨"parse", "count", "total"⟩, "total", .int⟩
    let output : Value :=
      .map .string .any [(.string "count", .int 5), (.string "text", .string "five")]
    Accepted (.map .string .any) order mappings (some plan) ∧
      output.OfType (.map .string .any) ∧
      Wire.apply ⟨"parse", "bill", mappings, some plan⟩ output =
        .ok (Table.empty.insert "total" (.int 5)) := by
  intro order mappings plan output
  have haccepted : Accepted (.map .string .any) order mappings (some plan) :=
    .mapped (by decide +kernel)
  have houtput : output.OfType (.map .string .any) := by
    refine ⟨.map (by decide +kernel) (by decide +kernel) fun e he => ?_, by decide +kernel⟩
    rcases List.mem_cons.1 he with rfl | he
    · exact .int 5
    · obtain rfl := List.mem_singleton.1 he
      exact .string "five"
  refine ⟨haccepted, houtput, ((apply_sound_exact haccepted houtput).2.1 _).2 ⟨by cbv, ?_⟩⟩
  intro target value hvalue
  rw [Table.find?_insert] at hvalue
  split at hvalue
  next heq =>
    obtain rfl := Option.some.inj hvalue
    subst heq
    exact ⟨.int, by decide +kernel, by decide +kernel⟩
  · rw [Table.find?_empty] at hvalue
    cases hvalue

end Mapping

end Dataflow
