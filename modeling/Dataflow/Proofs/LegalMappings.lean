import Dataflow.Proofs.GuardElision

/-!
# Legal mappings

The check of some mappings looks at all of them together, then at the two types, then at
one mapping after the other, and it reports the first fault.  What it accepts can be said
without any of that: `Mapping.Legal` is a condition on the mappings as a set.  Whether the
check succeeds, which targets it guards and what they have to be, and the kind of its
error do not depend on the order of the mappings.

* `Mapping.check_isOk_iff`: the accepted mappings.
* `Mapping.isSome_guard?_iff`: the guarded targets.
* `Mapping.kind_of_check_error`: the kind of error for the others.
* `Mapping.check_exact`: the three together, and the same for every order.
-/

namespace Dataflow

/-- A type with a named part is built part by part. -/
theorem Ty.isConstructible_of_part {type part : Ty} {name : String}
    (h : type.part name = .ok part) (hname : name ≠ "") : type.isConstructible = true := by
  rcases part_eq_ok_cases h hname with rfl | ⟨shape, -, hshape, -⟩
  · rfl
  · unfold isConstructible
    split
    · rfl
    · rw [hshape]
      rfl

theorem GuardPlan.guard?_insert (plan : GuardPlan) (guard : Guard) (target : String) :
    (plan.insert guard).guard? target =
      if target = guard.field then some guard else plan.guard? target :=
  plan.guards.find?_insert _ _ _

namespace Mapping

/-! ## Legal mappings -/

/-- The mapping connects two parts that are there, with a verdict on their types. -/
def Connects (predecessor successor : Ty) (mapping : Mapping) (verdict : Fit) : Prop :=
  ∃ source target, predecessor.part mapping.source = .ok source ∧
    successor.part mapping.target = .ok target ∧ source.fit target = verdict

/-- There is a mapping, and not one that reads the whole output together with one that
fills the whole input. -/
structure Shaped (mappings : List Mapping) : Prop where
  ne_nil : mappings ≠ []
  apart : ¬((∃ mapping ∈ mappings, mapping.source = "") ∧ ∃ mapping ∈ mappings, mapping.target = "")

/-- The mappings go together, and each connects two parts of which the one may fit the
other. -/
structure Legal (predecessor successor : Ty) (mappings : List Mapping) : Prop
    extends Shaped mappings where
  connects : ∀ mapping ∈ mappings,
    ∃ verdict, verdict ≠ .never ∧ mapping.Connects predecessor successor verdict

/-- Some mapping fills the target with values of which each has to be checked. -/
def Questions (predecessor successor : Ty) (mappings : List Mapping) (target : String) : Prop :=
  ∃ mapping ∈ mappings, mapping.target = target ∧
    mapping.Connects predecessor successor .conditional

variable {predecessor successor : Ty} {mappings mappings' : List Mapping}

theorem Shaped.of_perm (h : Shaped mappings) (hperm : mappings.Perm mappings') :
    Shaped mappings' := by
  refine ⟨fun hnil => h.ne_nil ?_, ?_⟩
  · rw [hnil] at hperm
    exact hperm.eq_nil
  · simp only [← hperm.mem_iff]
    exact h.apart

theorem shaped_iff_of_perm (hperm : mappings.Perm mappings') : Shaped mappings ↔ Shaped mappings' :=
  ⟨fun h => h.of_perm hperm, fun h => h.of_perm hperm.symm⟩

theorem legal_iff_of_perm (hperm : mappings.Perm mappings') :
    Legal predecessor successor mappings ↔ Legal predecessor successor mappings' := by
  have hconnects : ∀ {a b : List Mapping}, a.Perm b → Legal predecessor successor a →
      Legal predecessor successor b := fun h hlegal =>
    ⟨hlegal.toShaped.of_perm h, fun mapping hmapping =>
      hlegal.connects mapping (h.mem_iff.2 hmapping)⟩
  exact ⟨hconnects hperm, hconnects hperm.symm⟩

theorem questions_iff_of_perm (hperm : mappings.Perm mappings') (target : String) :
    Questions predecessor successor mappings target ↔
      Questions predecessor successor mappings' target := by
  simp only [Questions, hperm.mem_iff]

/-! ## Single mappings -/

theorem guard?_isOk_iff (mapping : Mapping) :
    (∃ guard, mapping.guard? predecessor successor = .ok guard) ↔
      ∃ verdict, verdict ≠ .never ∧ mapping.Connects predecessor successor verdict := by
  constructor
  · rintro ⟨guard, h⟩
    obtain ⟨source, target, hsource, htarget, ⟨hfit, -⟩ | ⟨hfit, -⟩⟩ := guard?_eq_ok h
    · exact ⟨.always, nofun, source, target, hsource, htarget, hfit⟩
    · exact ⟨.conditional, nofun, source, target, hsource, htarget, hfit⟩
  · rintro ⟨verdict, hverdict, source, target, hsource, htarget, rfl⟩
    have hresolve : mapping.resolve predecessor successor = .ok (source, target) := by
      rw [resolve, hsource, htarget]
      rfl
    rw [guard?, hresolve]
    cases hfit : source.fit target with
    | always => exact ⟨_, by simp only [hfit, bind, Except.bind]; rfl⟩
    | conditional => exact ⟨_, by simp only [hfit, bind, Except.bind]; rfl⟩
    | never => exact absurd hfit hverdict

/-- The check of a mapping fails because of the declared types. -/
theorem outcome_guard? (mapping : Mapping) :
    Outcome (fun e => e.kind = .staticType) (fun _ => True)
      (mapping.guard? predecessor successor) := by
  have hresolve : Outcome (fun e : Error => e.kind = .staticType) (fun _ => True)
      (mapping.resolve predecessor successor) := by
    unfold resolve
    cases predecessor.part mapping.source with
    | error e => exact Eq.refl ErrorKind.staticType
    | ok source =>
      cases successor.part mapping.target with
      | error e => exact Eq.refl ErrorKind.staticType
      | ok target => trivial
  refine hresolve.bind fun types _ _ => ?_
  obtain ⟨source, target⟩ := types
  cases hfit : source.fit target with
  | always => simp only [hfit]; trivial
  | conditional => simp only [hfit]; trivial
  | never => simp only [hfit]; exact Eq.refl ErrorKind.staticType

/-! ## Guards -/

theorem guards_isOk_iff :
    (∃ plan, guards predecessor successor mappings = .ok plan) ↔
      ∀ mapping ∈ mappings,
        ∃ verdict, verdict ≠ .never ∧ mapping.Connects predecessor successor verdict := by
  refine exists_foldlM_eq_ok_iff (fun mapping _ plan => ?_) GuardPlan.empty
  rw [← guard?_isOk_iff]
  constructor
  · rintro ⟨plan', h⟩
    obtain ⟨guard, hguard, -⟩ := bind_eq_ok h
    exact ⟨guard, hguard⟩
  · rintro ⟨guard, hguard⟩
    rw [hguard]
    cases guard with
    | none => exact ⟨plan, rfl⟩
    | some guard => exact ⟨plan.insert guard, rfl⟩

theorem outcome_guards :
    Outcome (fun e => e.kind = .staticType) (fun _ => True)
      (guards predecessor successor mappings) :=
  outcome_foldlM (fun _ => True) trivial fun mapping _ plan _ =>
    (outcome_guard? mapping).bind fun guard _ _ => by cases guard <;> trivial

/-- The targets with a guard are those that some mapping questions. -/
theorem isSome_guard?_iff {plan : GuardPlan} (h : guards predecessor successor mappings = .ok plan)
    (target : String) :
    (plan.guard? target).isSome = true ↔ Questions predecessor successor mappings target := by
  induction mappings using List.reverseRecOn generalizing plan with
  | nil =>
    obtain rfl := Except.ok.inj h
    exact ⟨nofun, fun ⟨_, hmapping, _⟩ => nomatch hmapping⟩
  | append_singleton mappings mapping ih =>
    obtain ⟨before, source, declared, hbefore, hsource, hdeclared, hcases⟩ := guards_concat h
    have hlast : Questions predecessor successor (mappings ++ [mapping]) target ↔
        Questions predecessor successor mappings target ∨
          mapping.target = target ∧ source.fit declared = .conditional := by
      simp only [Questions, List.mem_append, List.mem_singleton, or_and_right, exists_or,
        exists_eq_left, Connects, hsource, hdeclared, Except.ok.injEq]
      simp
    rw [hlast, ← ih hbefore]
    rcases hcases with ⟨hfit, rfl⟩ | ⟨hfit, rfl⟩
    · simp [hfit]
    · rw [GuardPlan.guard?_insert]
      by_cases htarget : target = mapping.target
      · simp [htarget, hfit]
      · simp [htarget, Ne.symm htarget]

/-- A guard stands under its target and knows its declared type. -/
theorem expected_of_guard? {plan : GuardPlan}
    (h : guards predecessor successor mappings = .ok plan) {target : String} {guard : Guard}
    (hguard : plan.guard? target = some guard) :
    guard.field = target ∧ successor.part target = .ok guard.expected := by
  refine ⟨?_, (planned_of_guards h).expected target guard hguard⟩
  induction mappings using List.reverseRecOn generalizing plan with
  | nil =>
    obtain rfl := Except.ok.inj h
    exact nomatch hguard
  | append_singleton mappings mapping ih =>
    obtain ⟨before, _, declared, hbefore, -, -, ⟨-, rfl⟩ | ⟨-, rfl⟩⟩ := guards_concat h
    · exact ih hbefore hguard
    · rw [GuardPlan.guard?_insert] at hguard
      split at hguard
      next heq => rw [← Option.some.inj hguard, heq]
      · exact ih hbefore hguard

/-! ## The check -/

theorem shaped_iff_any : Shaped mappings ↔ mappings ≠ [] ∧
    ¬(mappings.any readsWhole = true ∧ mappings.any fillsWhole = true) := by
  have hany : (mappings.any readsWhole = true ∧ mappings.any fillsWhole = true) ↔
      (∃ mapping ∈ mappings, mapping.source = "") ∧ ∃ mapping ∈ mappings, mapping.target = "" := by
    simp [readsWhole, fillsWhole]
  rw [hany]
  exact ⟨fun h => ⟨h.ne_nil, h.apart⟩, fun h => ⟨h.1, h.2⟩⟩

/-- The check of mappings that go together fails because of the declared types. -/
theorem outcome_check (h : Shaped mappings) :
    Outcome (fun e => e.kind = .staticType) (fun _ => True)
      (check predecessor successor mappings) := by
  obtain ⟨hne, hwhole⟩ := shaped_iff_any.1 h
  unfold check
  dsimp only
  rw [if_neg (mt List.isEmpty_iff.1 hne), if_neg (by rwa [Bool.and_eq_true])]
  split
  · exact Eq.refl ErrorKind.staticType
  split
  · exact Eq.refl ErrorKind.staticType
  · exact outcome_guards.bind fun _ _ _ => trivial

/-- Mappings that do not go together have no valid structure. -/
theorem exists_structural_of_check (predecessor successor : Ty) (h : ¬Shaped mappings) :
    ∃ fault, check predecessor successor mappings = .error (.structural fault) := by
  unfold check
  dsimp only
  by_cases hempty : mappings.isEmpty = true
  · exact ⟨_, if_pos hempty⟩
  · rw [if_neg hempty]
    have hwhole : mappings.any readsWhole = true ∧ mappings.any fillsWhole = true := by
      by_contra hwhole
      exact h (shaped_iff_any.2 ⟨mt List.isEmpty_iff.2 hempty, hwhole⟩)
    exact ⟨_, if_pos ((Bool.and_eq_true _ _).mpr hwhole)⟩

/-- Legal mappings pass the check.  That both types can be built part by part follows from
the parts that are there. -/
theorem check_of_legal (h : Legal predecessor successor mappings) :
    ∃ plan, check predecessor successor mappings = .ok plan := by
  obtain ⟨hne, hwhole⟩ := shaped_iff_any.1 h.toShaped
  obtain ⟨plan, hplan⟩ := guards_isOk_iff.2 h.connects
  obtain ⟨first, hfirst⟩ := List.exists_mem_of_ne_nil mappings hne
  obtain ⟨_, _, source, target, hsource, htarget, _⟩ := h.connects first hfirst
  have hsuccessor : mappings.any fillsWhole = false → successor.isConstructible = true := by
    intro hnone
    refine Ty.isConstructible_of_part htarget fun hempty => ?_
    rw [List.any_eq_false] at hnone
    exact hnone first hfirst (decide_eq_true hempty)
  have hpredecessor : mappings.any readsWhole = false → predecessor.isConstructible = true := by
    intro hnone
    refine Ty.isConstructible_of_part hsource fun hempty => ?_
    rw [List.any_eq_false] at hnone
    exact hnone first hfirst (decide_eq_true hempty)
  unfold check
  dsimp only
  rw [if_neg (mt List.isEmpty_iff.1 hne), if_neg (by rwa [Bool.and_eq_true]),
    if_neg (by simpa using hsuccessor), if_neg (by simpa using hpredecessor), hplan]
  exact ⟨_, rfl⟩

theorem check_isOk_iff :
    (∃ plan, check predecessor successor mappings = .ok plan) ↔
      Legal predecessor successor mappings := by
  refine ⟨fun ⟨plan, h⟩ => ?_, check_of_legal⟩
  have hshaped : Shaped mappings := by
    by_contra hnot
    obtain ⟨fault, herror⟩ := exists_structural_of_check predecessor successor hnot
    rw [h] at herror
    exact nomatch herror
  obtain ⟨full, hfull, -⟩ := guards_of_check h
  exact ⟨hshaped, guards_isOk_iff.1 ⟨full, hfull⟩⟩

/-- The kind of error says whether the mappings go together. -/
theorem kind_of_check_error {e : Error} (h : check predecessor successor mappings = .error e) :
    (Shaped mappings → e.kind = .staticType) ∧ (¬Shaped mappings → e.kind = .structural) := by
  refine ⟨fun hshaped => ?_, fun hnot => ?_⟩
  · have houtcome : Outcome (fun e => e.kind = .staticType) (fun _ => True)
        (check predecessor successor mappings) := outcome_check hshaped
    rwa [h] at houtcome
  · obtain ⟨fault, herror⟩ := exists_structural_of_check predecessor successor hnot
    rw [h] at herror
    rw [Except.error.inj herror]
    rfl

/-! ## Plans -/

/-- The guard that an edge has for a target. -/
def guardFor? (plan : Option GuardPlan) (target : String) : Option Guard :=
  plan.bind (·.guard? target)

/-- The plan guards the targets that some mapping questions, with their declared types,
and there is a plan just if there is such a target. -/
structure Guarding (predecessor successor : Ty) (mappings : List Mapping)
    (plan : Option GuardPlan) : Prop where
  isSome_iff : ∀ target, (guardFor? plan target).isSome = true ↔
    Questions predecessor successor mappings target
  expected : ∀ target guard, guardFor? plan target = some guard →
    guard.field = target ∧ successor.part target = .ok guard.expected
  eq_none_iff : plan = none ↔ ∀ target, ¬Questions predecessor successor mappings target

theorem guarding_of_check {plan : Option GuardPlan}
    (h : check predecessor successor mappings = .ok plan) :
    Guarding predecessor successor mappings plan := by
  obtain ⟨full, hfull, rfl⟩ := guards_of_check h
  have hiff := isSome_guard?_iff hfull
  by_cases hempty : full.guards.isEmpty = true
  · have hnone : ∀ target, ¬Questions predecessor successor mappings target := fun target => by
      rw [← hiff, GuardPlan.guard?, Table.isEmpty_iff.1 hempty]
      nofun
    rw [if_pos hempty]
    exact ⟨fun target => ⟨nofun, fun hsome => absurd hsome (hnone target)⟩, nofun,
      ⟨fun _ => hnone, fun _ => rfl⟩⟩
  · rw [if_neg hempty]
    refine ⟨hiff, fun target guard => expected_of_guard? hfull, ⟨nofun, fun hnone => ?_⟩⟩
    refine absurd (Table.isEmpty_iff.2 fun target => ?_) hempty
    have hnot := hnone target
    rw [← hiff] at hnot
    show full.guard? target = none
    simpa using hnot

/-- Two plans guard the same targets, with the same declared types. -/
def SameGuards (plan plan' : Option GuardPlan) : Prop :=
  ∀ target, (guardFor? plan target).map (fun guard => (guard.field, guard.expected)) =
    (guardFor? plan' target).map fun guard => (guard.field, guard.expected)

theorem Guarding.sameGuards {plan plan' : Option GuardPlan}
    (h : Guarding predecessor successor mappings plan)
    (h' : Guarding predecessor successor mappings' plan')
    (hquestions : ∀ target, Questions predecessor successor mappings target ↔
      Questions predecessor successor mappings' target) : SameGuards plan plan' := by
  intro target
  have hiff : (guardFor? plan target).isSome = true ↔ (guardFor? plan' target).isSome = true := by
    rw [h.isSome_iff, h'.isSome_iff, hquestions]
  cases hguard : guardFor? plan target with
  | none =>
    cases hguard' : guardFor? plan' target with
    | none => rfl
    | some guard' => simp [hguard, hguard'] at hiff
  | some guard =>
    cases hguard' : guardFor? plan' target with
    | none => simp [hguard, hguard'] at hiff
    | some guard' =>
      obtain ⟨hfield, hexpected⟩ := h.expected target guard hguard
      obtain ⟨hfield', hexpected'⟩ := h'.expected target guard' hguard'
      rw [hexpected] at hexpected'
      simp [hfield, hfield', Except.ok.inj hexpected']

/-- The check accepts exactly the legal mappings, and what it finds out is about them as a
set.  Its guards are for the targets that some mapping leaves open, each with the declared
type of the target, and there is no plan just if there is no such target.  In another order
the same mappings fail with the same kind of error, or pass with the same guards. -/
theorem check_exact (predecessor successor : Ty) (mappings : List Mapping) :
    ((∃ plan, check predecessor successor mappings = .ok plan) ↔
      Legal predecessor successor mappings) ∧
    (∀ plan, check predecessor successor mappings = .ok plan →
      Guarding predecessor successor mappings plan) ∧
    ∀ mappings', mappings.Perm mappings' →
      Alike SameGuards ((check predecessor successor mappings).mapError Error.kind)
        ((check predecessor successor mappings').mapError Error.kind) := by
  refine ⟨check_isOk_iff, fun plan => guarding_of_check, fun mappings' hperm => ?_⟩
  have hok : (∃ plan, check predecessor successor mappings = .ok plan) ↔
      ∃ plan, check predecessor successor mappings' = .ok plan := by
    rw [check_isOk_iff, check_isOk_iff, legal_iff_of_perm hperm]
  cases hcheck : check predecessor successor mappings with
  | ok plan =>
    obtain ⟨plan', hcheck'⟩ := hok.1 ⟨plan, hcheck⟩
    rw [hcheck']
    exact (guarding_of_check hcheck).sameGuards (guarding_of_check hcheck')
      (questions_iff_of_perm hperm)
  | error e =>
    cases hcheck' : check predecessor successor mappings' with
    | ok plan' =>
      obtain ⟨plan, hok⟩ := hok.2 ⟨plan', hcheck'⟩
      rw [hcheck] at hok
      exact nomatch hok
    | error e' =>
      obtain ⟨htype, hstructure⟩ := kind_of_check_error hcheck
      obtain ⟨htype', hstructure'⟩ := kind_of_check_error hcheck'
      show e.kind = e'.kind
      by_cases hshaped : Shaped mappings
      · rw [htype hshaped, htype' (hshaped.of_perm hperm)]
      · rw [hstructure hshaped, hstructure' (mt (shaped_iff_of_perm hperm).2 hshaped)]

/-- Two mappings to the number of a sink, of which the second reads something of any
type. -/
def counted : List Mapping := [⟨"source", "count", "number"⟩, ⟨"source", "payload", "number"⟩]

/-- The number has a guard because of one of the two mappings, in either order, and a third
mapping that fills the whole input from the whole output is too much. -/
theorem check_exact_counted :
    let source : Ty :=
      .record (((RecordOf.named "Source").field "count" .int).field "payload" .any)
    let sink : Ty := .boxed (.record ((RecordOf.named "Sink").field "number" .int))
    (∃ plan plan', check source sink counted = .ok plan ∧
      check source sink counted.reverse = .ok plan' ∧
      (∃ guard, guardFor? plan "number" = some guard ∧ guard.expected = .int) ∧
      SameGuards plan plan') ∧
    ∃ e, check source sink (⟨"source", "", ""⟩ :: counted) = .error e ∧ e.kind = .structural := by
  intro source sink
  obtain ⟨hok, hplan, hperm⟩ := check_exact source sink counted
  have hcount : counted[0].Connects source sink .always := ⟨.int, .int, rfl, rfl, rfl⟩
  have hpayload : counted[1].Connects source sink .conditional := ⟨.any, .int, rfl, rfl, rfl⟩
  have hlegal : Legal source sink counted := by
    refine ⟨⟨nofun, by decide⟩, fun mapping hmapping => ?_⟩
    rcases List.mem_cons.1 hmapping with rfl | hmapping
    · exact ⟨.always, nofun, hcount⟩
    · exact List.mem_singleton.1 hmapping ▸ ⟨.conditional, nofun, hpayload⟩
  obtain ⟨plan, hcheck⟩ := hok.2 hlegal
  have halike := hperm counted.reverse (List.reverse_perm counted).symm
  rw [hcheck] at halike
  obtain ⟨hsome, hexpected, -⟩ := hplan plan hcheck
  obtain ⟨guard, hguard⟩ := Option.isSome_iff_exists.1
    ((hsome "number").2 ⟨counted[1], List.mem_cons_of_mem _ List.mem_cons_self, rfl, hpayload⟩)
  refine ⟨?_, _, rfl, rfl⟩
  cases hreverse : check source sink counted.reverse with
  | ok plan' =>
    rw [hreverse] at halike
    refine ⟨plan, plan', hcheck, rfl, ⟨guard, hguard, ?_⟩, halike⟩
    exact (Except.ok.inj (hexpected "number" guard hguard).2).symm
  | error e =>
    rw [hreverse] at halike
    exact halike.elim

end Mapping

end Dataflow
