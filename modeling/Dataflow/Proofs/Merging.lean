import Dataflow.Merge
import Dataflow.Proofs.Outcome
import Dataflow.Proofs.WellTyped

/-!
# Sound policies

A policy is sound when it makes a value of the type it is asked for out of values
of that type, or fails.  The two policies that are in force from the beginning
are sound, because lists and maps check what they store.

* `Policy.ofType_union`, `Policy.ofType_concat`: what the two policies make of
  well-typed values has the type they are asked for.
* `MergeRegistry.standard_sound`: the registry that holds them.
-/

namespace Dataflow

/-! ## Lists and maps that check -/

namespace ListValue

theorem wellTyped_push {list : ListValue} {item : Value} (hlist : list.toValue.WellTyped)
    (hitem : item.WellTyped) :
    Outcome (fun _ => True) (fun list' => list'.toValue.WellTyped ∧ list'.elem = list.elem)
      (list.push item) := by
  unfold push
  split
  next hfits =>
    refine ⟨?_, rfl⟩
    cases hlist with
    | list fits inner =>
      refine .list (fun i hi => ?_) fun i hi => ?_
      all_goals rcases List.mem_append.1 hi with hi | hi
      · exact fits i hi
      · exact List.mem_singleton.1 hi ▸ hfits
      · exact inner i hi
      · exact List.mem_singleton.1 hi ▸ hitem
  · trivial

theorem wellTyped_pushAll {list : ListValue} {items : List Value}
    (hlist : list.toValue.WellTyped) (hitems : ∀ item ∈ items, item.WellTyped) :
    Outcome (fun _ => True) (fun list' => list'.toValue.WellTyped ∧ list'.elem = list.elem)
      (list.pushAll items) := by
  refine outcome_foldlM (fun list' : ListValue =>
    list'.toValue.WellTyped ∧ list'.elem = list.elem) ⟨hlist, rfl⟩ ?_
  rintro item hitem list' ⟨hlist', helem⟩
  exact (wellTyped_push hlist' (hitems item hitem)).imp (fun _ => id)
    fun _ h => ⟨h.1, h.2.trans helem⟩

/-- A well-typed list fits its own type. -/
theorem ofType_toValue {list : ListValue} {elem : Ty}
    (h : list.toValue.WellTyped ∧ list.elem = elem) : list.toValue.OfType (.list elem) := by
  obtain ⟨hwell, rfl⟩ := h
  exact ⟨hwell, Ty.fits_refl (.list list.elem)⟩

end ListValue

namespace MapValue

theorem wellTyped_insert {map : MapValue} (key : Key) {value : Value}
    (hmap : map.toValue.WellTyped) (hvalue : value.WellTyped) :
    Outcome (fun _ => True)
      (fun map' => map'.toValue.WellTyped ∧ map'.toValue.type = map.toValue.type)
      (map.insert key value) := by
  cases h : map.insert key value with
  | error e => trivial
  | ok written =>
    obtain ⟨hkey, hfits, rfl⟩ := insert_cases h
    refine ⟨?_, rfl⟩
    cases hmap with
    | map keys fits inner =>
      refine .map (fun e he => ?_) (fun e he => ?_) fun e he => ?_
      all_goals rcases Ordered.eq_or_mem_of_mem_insert he with rfl | he
      · exact hkey
      · exact keys e he
      · exact hfits
      · exact fits e he
      · exact hvalue
      · exact inner e he

end MapValue

/-! ## Policies -/

namespace Policy

/-- A policy makes a value of the type it is asked for, or fails. -/
def Sound (policy : Policy) (type : Ty) : Prop :=
  ∀ values : List Value, (∀ value ∈ values, value.OfType type) →
    ∀ merged, policy type values = .ok merged → merged.OfType type

/-- The inner values of a well-typed map are well typed. -/
theorem wellTyped_uniteInto {united : MapValue} {key elem : Ty} {entries : List (Key × Value)}
    (hunited : united.toValue.WellTyped) (hentries : (Value.map key elem entries).WellTyped) :
    Outcome (fun _ => True)
      (fun united' => united'.toValue.WellTyped ∧ united'.toValue.type = united.toValue.type)
      (uniteInto united entries) := by
  refine outcome_foldlM (fun united' : MapValue =>
    united'.toValue.WellTyped ∧ united'.toValue.type = united.toValue.type) ⟨hunited, rfl⟩ ?_
  rintro entry hentry united' ⟨hunited', htype⟩
  split
  · trivial
  · cases hentries with
    | map keys fits inner =>
      have hinsert := MapValue.wellTyped_insert entry.1 hunited' (inner entry hentry)
      cases hnext : united'.insert entry.1 entry.2 with
      | error e => trivial
      | ok next =>
        rw [hnext] at hinsert
        exact ⟨hinsert.1, hinsert.2.trans htype⟩

/-- The union of well-typed values is a well-typed map of the type it is asked
for. -/
theorem ofType_union {type : Ty} {values : List Value} {merged : Value}
    (hvalues : ∀ value ∈ values, value.WellTyped) (h : union type values = .ok merged) :
    merged.OfType type := by
  cases type with
  | map key elem =>
    obtain ⟨united, hunited, hmerged⟩ := bind_eq_ok h
    obtain rfl := Except.ok.inj hmerged
    have hall : Outcome (fun _ : Error => True) (fun united : MapValue =>
        united.toValue.WellTyped ∧ united.toValue.type = .map key elem) (.ok united) := by
      rw [← hunited]
      refine outcome_foldlM _ ⟨.map nofun nofun nofun, rfl⟩ ?_
      rintro item hitem united ⟨hwell, htype⟩
      split
      next entries =>
        exact (wellTyped_uniteInto hwell (hvalues _ hitem)).imp (fun _ => id)
          fun _ h => ⟨h.1, h.2.trans htype⟩
      · trivial
    refine ⟨hall.1, ?_⟩
    show united.toValue.type.fits _ = true
    rw [hall.2]
    exact Ty.fits_refl _
  | _ => exact nomatch h

/-- The lists of well-typed values joined are a well-typed list of the type that
is asked for. -/
theorem ofType_concat {type : Ty} {values : List Value} {merged : Value}
    (hvalues : ∀ value ∈ values, value.WellTyped) (h : concat type values = .ok merged) :
    merged.OfType type := by
  cases type with
  | list elem =>
    obtain ⟨joined, hjoined, hmerged⟩ := bind_eq_ok h
    obtain rfl := Except.ok.inj hmerged
    have hall : Outcome (fun _ : Error => True) (fun joined : ListValue =>
        joined.toValue.WellTyped ∧ joined.elem = elem) (.ok joined) := by
      rw [← hjoined]
      refine outcome_foldlM _ ⟨.list nofun nofun, rfl⟩ ?_
      rintro item hitem joined ⟨hwell, helem⟩
      split
      next items =>
        cases hvalues _ hitem with
        | list fits inner =>
          have hpush := ListValue.wellTyped_pushAll hwell inner
          cases hnext : joined.pushAll items with
          | error e => trivial
          | ok next =>
            rw [hnext] at hpush
            exact ⟨hpush.1, hpush.2.trans helem⟩
      · trivial
    exact ListValue.ofType_toValue hall
  | _ => exact nomatch h

theorem union_sound (type : Ty) : Sound union type := fun _ hvalues _ h =>
  ofType_union (fun value hvalue => (hvalues value hvalue).wellTyped) h

theorem concat_sound (type : Ty) : Sound concat type := fun _ hvalues _ h =>
  ofType_concat (fun value hvalue => (hvalues value hvalue).wellTyped) h

end Policy

/-- Every policy of a registry is sound for the types it is looked up for. -/
def MergeRegistry.Sound (registry : MergeRegistry) : Prop :=
  ∀ type policy, registry.policy? type = some policy → policy.Sound type

/-- The policies that are in force from the beginning. -/
theorem MergeRegistry.policy?_standard {type : Ty} {policy : Policy}
    (h : standard.policy? type = some policy) :
    policy = Policy.concat ∨ policy = Policy.union := by
  obtain ⟨entry, hentry, rfl⟩ : ∃ entry ∈ standard.byKind, entry.2 = policy := by
    obtain ⟨entry, hentry, hpolicy⟩ := Option.map_eq_some_iff.1 h
    exact ⟨entry, List.mem_of_find?_eq_some hentry, hpolicy⟩
  rcases List.mem_cons.1 hentry with rfl | hentry
  · exact .inl rfl
  · obtain rfl := List.mem_singleton.1 hentry
    exact .inr rfl

theorem MergeRegistry.standard_sound : standard.Sound := by
  intro type policy hpolicy
  rcases policy?_standard hpolicy with rfl | rfl
  · exact Policy.concat_sound type
  · exact Policy.union_sound type

end Dataflow
