import Dataflow.Proofs.GuardElision

/-!
# What plans refuse

A plan takes the values it guards out of the fields, one after the other in the order of
their names, and puts each back when it has passed its guard.  Nothing comes of that but
a verdict: the fields are handed on as they were, or the first value that does not fit
is reported.  The names are those under which the guards stand, whatever the guards say
about themselves, so this covers plans that were read from a file.

* `GuardPlan.Guards`: a value that a guard of the plan looks at.
* `GuardPlan.apply_filters`: what a plan hands on, and what it reports.
-/

namespace Dataflow

namespace Guard

variable {guard : Guard} {value : Value}

theorem refusal?_eq_none_iff : guard.refusal? value = none ↔ value.fits guard.expected = true := by
  unfold refusal?
  split <;> simp_all

theorem refusal?_eq_some_iff {e : Error} : guard.refusal? value = some e ↔
    value.fits guard.expected = false ∧
      e = .runtimeType guard.mapping value.type.text guard.expected.text := by
  unfold refusal?
  cases value.fits guard.expected with
  | true => exact ⟨nofun, fun h => nomatch h.1⟩
  | false => exact ⟨fun h => ⟨rfl, (Option.some.inj h).symm⟩, fun h => h.2 ▸ rfl⟩

end Guard

namespace GuardPlan

/-- A guard stands under a name, and a value is there under the same name. -/
structure Guards (plan : GuardPlan) (fields : Fields) (name : String) (guard : Guard)
    (value : Value) : Prop where
  guard_eq : plan.guard? name = some guard
  value_eq : fields.find? name = some value

variable {plan : GuardPlan} {fields : Fields}

/-- The search for a refused value finds none just if all guarded values fit. -/
theorem search_eq_none_iff :
    (plan.guards.entries.findSome? fun e => (fields.find? e.1).bind e.2.refusal?) = none ↔
      ∀ name guard value, plan.Guards fields name guard value →
        value.fits guard.expected = true := by
  rw [List.findSome?_eq_none_iff]
  constructor
  · intro h name guard value hguards
    have hnone := h (name, guard) (Table.mem_entries_iff.2 hguards.guard_eq)
    rw [hguards.value_eq] at hnone
    exact Guard.refusal?_eq_none_iff.1 hnone
  · intro h entry hentry
    refine Option.bind_eq_none_iff.2 fun value hvalue => ?_
    exact Guard.refusal?_eq_none_iff.2
      (h entry.1 entry.2 value ⟨Table.mem_entries_iff.1 hentry, hvalue⟩)

/-- The search finds the refused value with the smallest name. -/
theorem search_eq_some_iff {e : Error} :
    (plan.guards.entries.findSome? fun e => (fields.find? e.1).bind e.2.refusal?) = some e ↔
      ∃ name guard value, plan.Guards fields name guard value ∧
        value.fits guard.expected = false ∧
        e = .runtimeType guard.mapping value.type.text guard.expected.text ∧
        ∀ name' guard' value', plan.Guards fields name' guard' value' →
          compare name' name = .lt → value'.fits guard'.expected = true := by
  rw [Ordered.findSome?_eq_some_iff (f := fun name guard => (fields.find? name).bind guard.refusal?)
    plan.guards.ascending]
  constructor
  · rintro ⟨name, guard, hguard, hrefused, hsmaller⟩
    obtain ⟨value, hvalue, hrefused⟩ := Option.bind_eq_some_iff.1 hrefused
    obtain ⟨hfits, he⟩ := Guard.refusal?_eq_some_iff.1 hrefused
    refine ⟨name, guard, value, ⟨hguard, hvalue⟩, hfits, he, fun name' guard' value' h hlt => ?_⟩
    have hnone := hsmaller name' guard' h.guard_eq hlt
    rw [h.value_eq] at hnone
    exact Guard.refusal?_eq_none_iff.1 hnone
  · rintro ⟨name, guard, value, h, hfits, he, hsmaller⟩
    refine ⟨name, guard, h.guard_eq, ?_, fun name' guard' hguard' hlt => ?_⟩
    · rw [h.value_eq]
      exact Guard.refusal?_eq_some_iff.2 ⟨hfits, he⟩
    · refine Option.bind_eq_none_iff.2 fun value' hvalue' => ?_
      exact Guard.refusal?_eq_none_iff.2 (hsmaller name' guard' value' ⟨hguard', hvalue'⟩ hlt)

/-- A plan succeeds just if every value under a guarded name fits what its guard expects,
and then it gives the fields back as they were.  Otherwise it reports the value with the
smallest name among those that do not fit, in the words of the guard under that name. -/
theorem apply_filters (plan : GuardPlan) (fields : Fields) :
    (∀ out, plan.apply fields = .ok out ↔
      (∀ name guard value, plan.Guards fields name guard value →
        value.fits guard.expected = true) ∧ out = fields) ∧
    ∀ e, plan.apply fields = .error e ↔
      ∃ name guard value, plan.Guards fields name guard value ∧
        value.fits guard.expected = false ∧
        e = .runtimeType guard.mapping value.type.text guard.expected.text ∧
        ∀ name' guard' value', plan.Guards fields name' guard' value' →
          compare name' name = .lt → value'.fits guard'.expected = true := by
  have happly := plan.apply_eq fields
  cases hsearch : plan.guards.entries.findSome? fun e => (fields.find? e.1).bind e.2.refusal? with
  | none =>
    rw [hsearch] at happly
    have hfit := search_eq_none_iff.1 hsearch
    refine ⟨fun out => ?_, fun e => ?_⟩
    · rw [happly, Except.ok.injEq, eq_comm]
      exact (and_iff_right hfit).symm
    · rw [happly, ← search_eq_some_iff, hsearch]
      exact ⟨nofun, nofun⟩
  | some refused =>
    rw [hsearch] at happly
    refine ⟨fun out => ?_, fun e => ?_⟩
    · rw [happly, ← search_eq_none_iff, hsearch]
      exact ⟨nofun, fun h => nomatch h.1⟩
    · rw [happly, ← search_eq_some_iff, hsearch, Except.error.injEq, Option.some.injEq]

/-- A plan that was read from a file, with its guards under other names than their own. -/
def relabelled : GuardPlan :=
  ⟨.ofList [("size", ⟨"of the size", "name", .int⟩), ("name", ⟨"of the name", "size", .string⟩)]⟩

theorem guards_relabelled {fields : Fields} {name : String} {guard : Guard} {value : Value}
    (h : relabelled.Guards fields name guard value) :
    name = "name" ∧ guard.expected = .string ∨ name = "size" ∧ guard.expected = .int := by
  have hmem : (name, guard) ∈ relabelled.guards.entries := Table.mem_entries_iff.2 h.guard_eq
  have hentries : relabelled.guards.entries =
      [("name", ⟨"of the name", "size", .string⟩), ("size", ⟨"of the size", "name", .int⟩)] := by
    decide
  rw [hentries] at hmem
  simp only [List.mem_cons, Prod.mk.injEq, List.not_mem_nil, or_false] at hmem
  rcases hmem with ⟨rfl, rfl⟩ | ⟨rfl, rfl⟩
  · exact .inl ⟨rfl, rfl⟩
  · exact .inr ⟨rfl, rfl⟩

/-- Two values that fit pass with a third that no guard looks at.  Of two that do not fit
the one for the smaller name is reported. -/
theorem apply_filters_relabelled :
    let fit : Fields := .ofList [("size", .int 3), ("name", .string "crate"), ("note", .null)]
    let unfit : Fields := .ofList [("size", .null), ("name", .int 3), ("note", .null)]
    relabelled.apply fit = .ok fit ∧
      relabelled.apply unfit = .error (.runtimeType "of the name" "Int" "String") := by
  intro fit unfit
  obtain ⟨haccepts, -⟩ := apply_filters relabelled fit
  obtain ⟨-, hreports⟩ := apply_filters relabelled unfit
  refine ⟨(haccepts fit).2 ⟨fun name guard value h => ?_, rfl⟩, (hreports _).2
    ⟨"name", ⟨"of the name", "size", .string⟩, .int 3, ⟨rfl, rfl⟩, rfl, rfl,
      fun name guard value h hlt => ?_⟩⟩
  · rcases guards_relabelled h with ⟨rfl, hexpected⟩ | ⟨rfl, hexpected⟩
    · have hvalue : fit.find? "name" = some (.string "crate") := rfl
      obtain rfl := Option.some.inj (hvalue.symm.trans h.value_eq)
      rw [hexpected]
      rfl
    · have hvalue : fit.find? "size" = some (.int 3) := rfl
      obtain rfl := Option.some.inj (hvalue.symm.trans h.value_eq)
      rw [hexpected]
      rfl
  · -- no guarded name comes before this one
    rcases guards_relabelled h with ⟨rfl, _⟩ | ⟨rfl, _⟩ <;> exact absurd hlt (by decide)

end GuardPlan

end Dataflow
