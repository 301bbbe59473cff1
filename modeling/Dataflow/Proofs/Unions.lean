import Dataflow.Proofs.Formed

/-!
# What the standard policies make

The policies that are in force from the beginning are exact.  Maps are united when no
key is in two of them, and then the union has their entries and no others; lists are
joined in any case.  What is made depends only on the entries of the maps and on the
items of the lists, and not on the stages in which they are merged: a stage of one value
does not ask a policy, and hands the value on.

* `Policy.outcome_uniteInto`, `Policy.outcome_unite`: the two loops over entries and over maps.
* `MergeRegistry.unites_merge`: the union of maps, or a common key.
* `MergeRegistry.merge_lists`: lists one after the other.
* `MergeRegistry.merge_exact`: both, in any order of the maps and in two stages.
-/

namespace Dataflow

/-! ## Maps and lists of a type -/

namespace Value

/-- The value is a map of the type, and its entries fit. -/
def IsMap (key elem : Ty) (value : Value) : Prop :=
  ∃ entries, value = .map key elem entries ∧ MapValue.Formed ⟨key, elem, entries⟩

/-- The value is a list of the type, and its items fit. -/
def IsList (elem : Ty) (value : Value) : Prop :=
  ∃ items, value = .list elem items ∧ ∀ item ∈ items, item.fits elem = true

/-- What a map has under a key. -/
def entry? (value : Value) (key : Key) : Option Value :=
  match value with
  | .map _ _ entries => Ordered.find? key entries
  | _ => none

/-- The items of a list. -/
def items (value : Value) : List Value :=
  match value with
  | .list _ items => items
  | _ => []

/-- No key is in both maps. -/
def Apart (a b : Value) : Prop :=
  ∀ key, a.entry? key = none ∨ b.entry? key = none

theorem Apart.symm {a b : Value} (h : a.Apart b) : b.Apart a :=
  fun key => (h key).symm

theorem not_apart_iff {a b : Value} :
    ¬a.Apart b ↔ ∃ key v v', a.entry? key = some v ∧ b.entry? key = some v' := by
  simp [Apart, Option.ne_none_iff_exists']

/-- The map has the entries of some maps, and no others. -/
structure IsUnion (key elem : Ty) (values : List Value) (merged : Value) : Prop where
  isMap : merged.IsMap key elem
  entry?_eq_some_iff : ∀ k v, merged.entry? k = some v ↔ ∃ value ∈ values, value.entry? k = some v

variable {key elem : Ty} {values xs ys : List Value}

theorem isUnion_nil (key elem : Ty) : IsUnion key elem [] (MapValue.empty key elem).toValue :=
  ⟨⟨[], rfl, MapValue.formed_empty key elem⟩, fun _ _ => ⟨nofun, nofun⟩⟩

theorem isUnion_singleton {value : Value} (h : value.IsMap key elem) :
    IsUnion key elem [value] value :=
  ⟨h, fun k v => by simp⟩

/-- A map is known by its type and its entries. -/
theorem IsUnion.unique {merged merged' : Value} (h : IsUnion key elem values merged)
    (h' : IsUnion key elem values merged') : merged = merged' := by
  obtain ⟨entries, rfl, hformed⟩ := h.isMap
  obtain ⟨entries', rfl, hformed'⟩ := h'.isMap
  have hfind : ∀ k, Ordered.find? k entries = Ordered.find? k entries' := fun k =>
    Option.ext fun v => (h.entry?_eq_some_iff k v).trans (h'.entry?_eq_some_iff k v).symm
  have heq : entries = entries' :=
    Ordered.eq_of_find?_eq hformed.ascending hformed'.ascending hfind
  rw [heq]

theorem IsUnion.of_perm {values' : List Value} {merged : Value}
    (h : IsUnion key elem values merged) (hperm : values.Perm values') :
    IsUnion key elem values' merged :=
  ⟨h.isMap, fun k v => by simp only [h.entry?_eq_some_iff, hperm.mem_iff]⟩

/-- The union of two unions is the union of all. -/
theorem IsUnion.append {x y merged : Value} (hx : IsUnion key elem xs x)
    (hy : IsUnion key elem ys y) (h : IsUnion key elem [x, y] merged) :
    IsUnion key elem (xs ++ ys) merged := by
  refine ⟨h.isMap, fun k v => ?_⟩
  simp only [h.entry?_eq_some_iff, List.mem_cons, List.not_mem_nil, or_false, exists_eq_left,
    hx.entry?_eq_some_iff, hy.entry?_eq_some_iff, List.mem_append, or_and_right,
    exists_or]

/-- Two unions have a common key just if a map of the one has a common key with a map of
the other. -/
theorem IsUnion.apart_iff {x y : Value} (hx : IsUnion key elem xs x) (hy : IsUnion key elem ys y) :
    x.Apart y ↔ ∀ a ∈ xs, ∀ b ∈ ys, a.Apart b := by
  rw [← not_iff_not, not_apart_iff]
  push Not
  simp only [not_apart_iff, hx.entry?_eq_some_iff, hy.entry?_eq_some_iff]
  constructor
  · rintro ⟨k, v, v', ⟨a, ha, hv⟩, b, hb, hv'⟩
    exact ⟨a, ha, b, hb, k, v, v', hv, hv'⟩
  · rintro ⟨a, ha, b, hb, k, v, v', hv, hv'⟩
    exact ⟨k, v, v', ⟨a, ha, hv⟩, b, hb, hv'⟩

/-- Maps of two lists are pairwise apart when those of each list are, and their unions. -/
theorem IsUnion.pairwise_append_iff {x y : Value} (hx : IsUnion key elem xs x)
    (hy : IsUnion key elem ys y) :
    (xs ++ ys).Pairwise Apart ↔ xs.Pairwise Apart ∧ ys.Pairwise Apart ∧ x.Apart y := by
  rw [List.pairwise_append, hx.apart_iff hy]

/-- The computation unites the maps if no two of them have a common key, and is a merge
error otherwise. -/
def Unites (key elem : Ty) (values : List Value) (merging : Except Error Value) : Prop :=
  Outcome (fun e => e.kind = .merge ∧ ¬values.Pairwise Apart)
    (fun merged => values.Pairwise Apart ∧ IsUnion key elem values merged) merging

theorem Unites.of_perm {values' : List Value} {merging : Except Error Value}
    (h : Unites key elem values merging) (hperm : values.Perm values') :
    Unites key elem values' merging := by
  have hiff : values.Pairwise Apart ↔ values'.Pairwise Apart :=
    hperm.pairwise_iff fun hapart => hapart.symm
  exact h.imp (fun e he => ⟨he.1, mt hiff.2 he.2⟩)
    fun merged hmerged => ⟨hiff.1 hmerged.1, hmerged.2.of_perm hperm⟩

theorem Unites.isOk_iff {merging : Except Error Value} (h : Unites key elem values merging) :
    (∃ merged, merging = .ok merged) ↔ values.Pairwise Apart := by
  cases merging with
  | ok merged => exact ⟨fun _ => h.1, fun _ => ⟨merged, rfl⟩⟩
  | error e => exact ⟨nofun, fun hall => absurd hall h.2⟩

end Value

/-! ## The two loops -/

/-- Entries are added to a map that has none of their keys. -/
structure MapValue.Adds (map : MapValue) (entries : List (Key × Value)) (added : MapValue) :
    Prop where
  formed : added.Formed
  key_eq : added.key = map.key
  value_eq : added.value = map.value
  apart : ∀ k, map.find? k = none ∨ Ordered.find? k entries = none
  find?_eq : ∀ k, added.find? k = (map.find? k).or (Ordered.find? k entries)

/-- Some key of the map is also the key of an entry. -/
def MapValue.Shares (map : MapValue) (entries : List (Key × Value)) : Prop :=
  ∃ k v v', map.find? k = some v ∧ Ordered.find? k entries = some v'

namespace MapValue

variable {map written added : MapValue} {key : Key} {value : Value} {rest : List (Key × Value)}

theorem find?_of_insert (h : map.insert key value = .ok written) (k : Key) :
    written.find? k = if k = key then some value else map.find? k := by
  obtain ⟨-, -, rfl⟩ := insert_cases h
  split
  next heq => rw [heq]; exact Ordered.find?_insert_self key value map.entries
  next hne => exact Ordered.find?_insert_of_ne hne value map.entries

/-- The first entry is stored, and the rest is added to the result. -/
theorem Adds.cons (hnew : map.find? key = none) (hwritten : map.insert key value = .ok written)
    (h : written.Adds rest added) : map.Adds ((key, value) :: rest) added := by
  obtain ⟨-, -, heq⟩ := insert_cases hwritten
  refine ⟨h.formed, h.key_eq.trans (by rw [heq]), h.value_eq.trans (by rw [heq]), fun k => ?_,
    fun k => ?_⟩
  all_goals by_cases hk : k = key
  · exact .inl (hk ▸ hnew)
  · have hapart := h.apart k
    rwa [find?_of_insert hwritten, if_neg hk, ← Ordered.find?_cons_of_ne hk value rest] at hapart
  · subst hk
    rw [h.find?_eq, find?_of_insert hwritten, if_pos rfl, hnew, Ordered.find?_cons_self]
    rfl
  · rw [h.find?_eq, find?_of_insert hwritten, if_neg hk, Ordered.find?_cons_of_ne hk]

theorem Adds.isUnion {entries : List (Key × Value)} (h : map.Adds entries added) :
    Value.IsUnion map.key map.value [map.toValue, .map map.key map.value entries]
      added.toValue := by
  have hformed := h.formed
  refine ⟨⟨added.entries, by rw [toValue, h.key_eq, h.value_eq], ?_⟩, fun k v => ?_⟩
  · rw [← h.key_eq, ← h.value_eq]
    exact hformed
  · have hmem : (∃ value ∈ [map.toValue, .map map.key map.value entries],
        value.entry? k = some v) ↔ map.find? k = some v ∨ Ordered.find? k entries = some v := by
      simp [Value.entry?, toValue, find?]
    rw [hmem]
    show added.find? k = some v ↔ _
    rw [h.find?_eq]
    rcases h.apart k with hnone | hnone <;> simp [hnone]

/-- A key that the rest shares with the result was in the map before. -/
theorem Shares.cons (hascending : Ordered.Ascending ((key, value) :: rest))
    (hwritten : map.insert key value = .ok written) (h : written.Shares rest) :
    map.Shares ((key, value) :: rest) := by
  obtain ⟨k, v, v', hv, hv'⟩ := h
  have hk : k ≠ key := by
    rintro rfl
    rw [Ordered.find?_eq_none_of_lt (List.pairwise_cons.1 hascending).1] at hv'
    exact nomatch hv'
  rw [find?_of_insert hwritten, if_neg hk] at hv
  exact ⟨k, v, v', hv, (Ordered.find?_cons_of_ne hk value rest).trans hv'⟩

end MapValue

namespace Policy

/-- The entries of a map are added to those of another, unless they have a common key. -/
theorem outcome_uniteInto {united : MapValue} {entries : List (Key × Value)}
    (hunited : united.Formed) (hentries : MapValue.Formed ⟨united.key, united.value, entries⟩) :
    Outcome (fun e => e.kind = .merge ∧ united.Shares entries) (united.Adds entries)
      (uniteInto united entries) := by
  induction entries generalizing united with
  | nil => exact ⟨hunited, rfl, rfl, fun k => .inr rfl, fun k => Option.or_none.symm⟩
  | cons entry rest ih =>
    obtain ⟨key, value⟩ := entry
    obtain ⟨hkey, hkeys⟩ := List.forall_mem_cons.1 hentries.keys
    obtain ⟨hfits, hrest⟩ := List.forall_mem_cons.1 hentries.fits
    rw [uniteInto, List.foldlM_cons]
    cases hfind : united.find? key with
    | some old =>
      have hcontains : united.contains key = true := by rw [MapValue.contains, hfind]; rfl
      rw [if_pos hcontains]
      exact ⟨rfl, key, old, value, hfind, Ordered.find?_cons_self key value rest⟩
    | none =>
      have hcontains : ¬united.contains key = true := by rw [MapValue.contains, hfind]; nofun
      have hinsert : united.insert key value =
          .ok { united with entries := Ordered.insert key value united.entries } :=
        MapValue.insert_of_fits hkey hfits
      rw [if_neg hcontains]
      dsimp only
      rw [hinsert]
      have hlater := (List.pairwise_cons.1 hentries.ascending).2
      exact (ih (MapValue.formed_insert hunited hinsert) ⟨hlater, hkeys, hrest⟩).imp
        (fun e he => ⟨he.1, he.2.cons hentries.ascending hinsert⟩)
        fun united' hadds => hadds.cons hfind hinsert

/-- Maps without common keys are added one after the other. -/
theorem outcome_unite {key elem : Ty} {unite : MapValue → Value → Except Error MapValue}
    (hunite : ∀ united key elem entries,
      unite united (.map key elem entries) = uniteInto united entries)
    {values : List Value} (h : ∀ value ∈ values, value.IsMap key elem) :
    Outcome (fun e => e.kind = .merge ∧ ¬values.Pairwise Value.Apart)
      (fun united => values.Pairwise Value.Apart ∧ Value.IsUnion key elem values united.toValue)
      (values.foldlM unite (MapValue.empty key elem)) := by
  induction values using List.reverseRecOn with
  | nil => exact ⟨.nil, Value.isUnion_nil key elem⟩
  | append_singleton values value ih =>
    obtain ⟨hvalues, hvalue⟩ := List.forall_mem_append.1 h
    have hlast := Value.isUnion_singleton (hvalue value (List.mem_singleton_self value))
    obtain ⟨entries, rfl, hentries⟩ := hlast.isMap
    rw [List.foldlM_append]
    have hnot : ¬values.Pairwise Value.Apart →
        ¬(values ++ [Value.map key elem entries]).Pairwise Value.Apart :=
      mt fun hall => (List.pairwise_append.1 hall).1
    refine ((ih hvalues).imp (fun e he => And.imp_right hnot he) fun _ => id).bind
      fun united _ hunited => ?_
    obtain ⟨hapart, hunion⟩ := hunited
    obtain ⟨entries', heq, hformed⟩ := hunion.isMap
    obtain ⟨rfl, rfl, rfl⟩ := Value.map.inj heq
    have hstep : [Value.map united.key united.value entries].foldlM unite united =
        uniteInto united entries := by
      rw [List.foldlM_cons, hunite]
      exact bind_pure _
    rw [hstep, hunion.pairwise_append_iff hlast]
    refine (outcome_uniteInto hformed hentries).imp (fun e he => ⟨he.1, fun hall => ?_⟩)
      fun added hadds => ⟨⟨hapart, List.pairwise_singleton _ _, hadds.apart⟩, ?_⟩
    · exact absurd hall.2.2 (Value.not_apart_iff.2 he.2)
    · exact hunion.append hlast hadds.isUnion

/-- Maps without common keys are united; maps with a common key are a merge error. -/
theorem unites_union {key elem : Ty} {values : List Value}
    (h : ∀ value ∈ values, value.IsMap key elem) :
    Value.Unites key elem values (union (.map key elem) values) :=
  (outcome_unite (fun _ _ _ _ => rfl) h).bind fun _ _ hunited => hunited

/-- Items that fit are appended. -/
theorem pushAll_of_fits {list : ListValue} {items : List Value}
    (h : ∀ item ∈ items, item.fits list.elem = true) :
    list.pushAll items = .ok { list with items := list.items ++ items } := by
  induction items generalizing list with
  | nil => rw [List.append_nil]; rfl
  | cons item items ih =>
    obtain ⟨hitem, hitems⟩ := List.forall_mem_cons.1 h
    have hpush : list.push item = .ok { list with items := list.items ++ [item] } := if_pos hitem
    rw [ListValue.pushAll, List.foldlM_cons, hpush]
    have hrest : ListValue.pushAll { list with items := list.items ++ [item] } items =
        .ok { list with items := list.items ++ [item] ++ items } := ih hitems
    rwa [List.append_assoc] at hrest

/-- Lists are appended one after the other. -/
theorem foldlM_join {join : ListValue → Value → Except Error ListValue}
    (hjoin : ∀ joined elem items,
      join joined (.list elem items) = (joined.pushAll items).mapError .access)
    {values : List Value} {joined : ListValue} (h : ∀ value ∈ values, value.IsList joined.elem) :
    values.foldlM join joined =
      .ok { joined with items := joined.items ++ values.flatMap Value.items } := by
  induction values generalizing joined with
  | nil => rw [List.flatMap_nil, List.append_nil]; rfl
  | cons value values ih =>
    obtain ⟨⟨items, rfl, hitems⟩, hvalues⟩ := List.forall_mem_cons.1 h
    have hstep : join joined (.list joined.elem items) =
        .ok { joined with items := joined.items ++ items } := by
      rw [hjoin, pushAll_of_fits hitems]
      rfl
    have hrest : values.foldlM join { joined with items := joined.items ++ items } =
        .ok { joined with items := joined.items ++ items ++ values.flatMap Value.items } :=
      ih hvalues
    rw [List.foldlM_cons, hstep, List.flatMap_cons, ← List.append_assoc]
    exact hrest

theorem concat_eq {elem : Ty} {values : List Value} (h : ∀ value ∈ values, value.IsList elem) :
    concat (.list elem) values = .ok (.list elem (values.flatMap Value.items)) := by
  rw [concat, foldlM_join (fun _ _ _ => rfl) h]
  rfl

end Policy

/-! ## Merging -/

namespace MergeRegistry

variable {key elem : Ty} {values xs ys : List Value}

/-- Values are merged as the policy for their type says, and one value is as it should
be. -/
theorem outcome_merge_of_outcome {registry : MergeRegistry} {type : Ty} {policy : Policy}
    {conflicting : Prop} {holds : Value → Prop} (field : String)
    (hpolicy : registry.policy? type = some policy) (hne : values ≠ [])
    (hone : ∀ value, values = [value] → holds value)
    (h : Outcome (fun _ => conflicting) holds (policy type values)) :
    Outcome (fun e => e.kind = .merge ∧ conflicting) holds (registry.merge field type values) := by
  match values, hne with
  | [value], _ => exact hone value rfl
  | first :: second :: rest, _ =>
    rw [merge_several (by simp) hpolicy]
    cases hmade : policy type (first :: second :: rest) with
    | ok merged =>
      rw [hmade] at h
      exact h
    | error e =>
      rw [hmade] at h
      exact ⟨rfl, h⟩

theorem unites_merge (field : String) (hne : values ≠ [])
    (h : ∀ value ∈ values, value.IsMap key elem) :
    Value.Unites key elem values (standard.merge field (.map key elem) values) := by
  refine outcome_merge_of_outcome field rfl hne (fun value hone => ?_)
    ((Policy.unites_union h).imp (fun _ => And.right) fun _ => id)
  subst hone
  exact ⟨List.pairwise_singleton _ _, Value.isUnion_singleton (h value (List.mem_singleton_self _))⟩

/-- The values in two stages. -/
def mergeStaged (registry : MergeRegistry) (field : String) (type : Ty) (xs ys : List Value) :
    Except Error Value := do
  let x ← registry.merge field type xs
  let y ← registry.merge field type ys
  registry.merge field type [x, y]

/-- Two stages unite what one does. -/
theorem unites_mergeStaged (field : String) (hxs : xs ≠ []) (hys : ys ≠ [])
    (h : ∀ value ∈ xs ++ ys, value.IsMap key elem) :
    Value.Unites key elem (xs ++ ys) (standard.mergeStaged field (.map key elem) xs ys) := by
  obtain ⟨hx, hy⟩ := List.forall_mem_append.1 h
  have hnotx : ¬xs.Pairwise Value.Apart → ¬(xs ++ ys).Pairwise Value.Apart :=
    mt fun hall => (List.pairwise_append.1 hall).1
  have hnoty : ¬ys.Pairwise Value.Apart → ¬(xs ++ ys).Pairwise Value.Apart :=
    mt fun hall => (List.pairwise_append.1 hall).2.1
  refine ((unites_merge field hxs hx).imp (fun e => And.imp_right hnotx) fun _ => id).bind
    fun x _ hunionx => ?_
  refine ((unites_merge field hys hy).imp (fun e => And.imp_right hnoty) fun _ => id).bind
    fun y _ huniony => ?_
  obtain ⟨hapartx, hunionx⟩ := hunionx
  obtain ⟨haparty, huniony⟩ := huniony
  have hpair : ∀ value ∈ [x, y], value.IsMap key elem := by
    simp [hunionx.isMap, huniony.isMap]
  have hiff : (xs ++ ys).Pairwise Value.Apart ↔ [x, y].Pairwise Value.Apart := by
    rw [hunionx.pairwise_append_iff huniony, List.pairwise_pair]
    exact ⟨fun hall => hall.2.2, fun hall => ⟨hapartx, haparty, hall⟩⟩
  rw [hiff]
  exact (unites_merge field (List.cons_ne_nil x [y]) hpair).imp (fun _ => id)
    fun merged hmerged => ⟨hmerged.1, hunionx.append huniony hmerged.2⟩

theorem merge_lists (field : String) (hne : values ≠ [])
    (h : ∀ value ∈ values, value.IsList elem) :
    standard.merge field (.list elem) values = .ok (.list elem (values.flatMap Value.items)) := by
  rw [merge_eq_ok_iff]
  match values, hne with
  | [value], _ =>
    obtain ⟨items, rfl, -⟩ := h value (List.mem_singleton_self value)
    exact .inl (by rw [List.flatMap_singleton]; rfl)
  | first :: second :: rest, _ => exact .inr ⟨by simp, Policy.concat, rfl, Policy.concat_eq h⟩

theorem mergeStaged_lists (field : String) (hxs : xs ≠ []) (hys : ys ≠ [])
    (h : ∀ value ∈ xs ++ ys, value.IsList elem) :
    standard.mergeStaged field (.list elem) xs ys =
      .ok (.list elem ((xs ++ ys).flatMap Value.items)) := by
  obtain ⟨hx, hy⟩ := List.forall_mem_append.1 h
  have hitems : ∀ {values : List Value}, (∀ value ∈ values, value.IsList elem) →
      (Value.list elem (values.flatMap Value.items)).IsList elem := by
    intro values hvalues
    refine ⟨_, rfl, fun item hitem => ?_⟩
    obtain ⟨value, hvalue, hitem⟩ := List.mem_flatMap.1 hitem
    obtain ⟨items, rfl, hfits⟩ := hvalues value hvalue
    exact hfits item hitem
  rw [mergeStaged, merge_lists field hxs hx, merge_lists field hys hy]
  show standard.merge field (.list elem) [_, _] = _
  rw [merge_lists field (List.cons_ne_nil _ _) (by simp [hitems hx, hitems hy])]
  simp [Value.items]

/-- The values are maps of one map type, or lists of one list type. -/
def Mergeable (type : Ty) (values : List Value) : Prop :=
  (∃ key elem, type = .map key elem ∧ ∀ value ∈ values, value.IsMap key elem) ∨
    ∃ elem, type = .list elem ∧ ∀ value ∈ values, value.IsList elem

/-- Both give the same value, or both are a merge error. -/
def Agree (merging merging' : Except Error Value) : Prop :=
  match merging, merging' with
  | .ok merged, .ok merged' => merged = merged'
  | .error e, .error e' => e.kind = .merge ∧ e'.kind = .merge
  | _, _ => False

theorem agree_of_unites {merging merging' : Except Error Value}
    (h : Value.Unites key elem values merging) (h' : Value.Unites key elem values merging') :
    Agree merging merging' := by
  cases merging with
  | ok merged =>
    cases merging' with
    | ok merged' => exact h.2.unique h'.2
    | error e' => exact h'.2 h.1
  | error e =>
    cases merging' with
    | ok merged' => exact h.2 h'.1
    | error e' => exact ⟨h.1, h'.1⟩

/-- What the standard policies make is exact.  Maps are merged just if no key is in two
of them, to the map with all their entries and no others, and in another order to the
same map; lists are merged in any case, to their items one after the other.  Merging in
two stages is merging at once. -/
theorem merge_exact (field : String) :
    (∀ key elem values, values ≠ [] → (∀ value ∈ values, value.IsMap key elem) →
      ((∃ merged, standard.merge field (.map key elem) values = .ok merged) ↔
        values.Pairwise Value.Apart) ∧
      (∀ merged, standard.merge field (.map key elem) values = .ok merged →
        Value.IsUnion key elem values merged) ∧
      ∀ values', values.Perm values' →
        Agree (standard.merge field (.map key elem) values)
          (standard.merge field (.map key elem) values')) ∧
    (∀ elem values, values ≠ [] → (∀ value ∈ values, value.IsList elem) →
      standard.merge field (.list elem) values = .ok (.list elem (values.flatMap Value.items))) ∧
    ∀ type xs ys, xs ≠ [] → ys ≠ [] → Mergeable type (xs ++ ys) →
      Agree (standard.merge field type (xs ++ ys)) (standard.mergeStaged field type xs ys) := by
  refine ⟨fun key elem values hne h => ?_, fun elem values hne h => merge_lists field hne h,
    fun type xs ys hxs hys h => ?_⟩
  · have hunites := unites_merge field hne h
    refine ⟨hunites.isOk_iff, fun merged hmerged => ?_, fun values' hperm => ?_⟩
    · rw [hmerged] at hunites
      exact hunites.2
    · have hne' : values' ≠ [] := fun hnil => hne (hnil ▸ hperm).eq_nil
      have hunites' := unites_merge field hne' fun value hvalue => h value (hperm.mem_iff.2 hvalue)
      exact agree_of_unites hunites (hunites'.of_perm hperm.symm)
  · rcases h with ⟨key, elem, rfl, h⟩ | ⟨elem, rfl, h⟩
    · exact agree_of_unites (unites_merge field (List.append_ne_nil_of_left_ne_nil hxs ys) h)
        (unites_mergeStaged field hxs hys h)
    · rw [merge_lists field (List.append_ne_nil_of_left_ne_nil hxs ys) h,
        mergeStaged_lists field hxs hys h]
      rfl

/-- A map with one number under a text. -/
def numbered (name : String) (number : Int64) : Value :=
  .map .string .int [(.string name, .int number)]

theorem isMap_numbered (name : String) (number : Int64) :
    (numbered name number).IsMap .string .int := by
  refine ⟨_, rfl, List.pairwise_singleton _ _, fun e he => ?_, fun e he => ?_⟩
  all_goals rw [List.mem_singleton.1 he]; rfl

/-- Two maps with different keys have one union in both orders, and no third map with one
of the keys goes with them, in one stage or in two. -/
theorem merge_exact_numbered :
    let maps : List Value := [numbered "a" 1, numbered "b" 2]
    let merge := standard.merge "bag" (.map .string .int)
    (∃ merged, merge maps = .ok merged ∧ Value.IsUnion .string .int maps merged) ∧
      Agree (merge maps) (merge maps.reverse) ∧
      (∃ e, merge (maps ++ [numbered "a" 3]) = .error e) ∧
      ∃ e, standard.mergeStaged "bag" (.map .string .int) maps [numbered "a" 3] = .error e ∧
        e.kind = .merge := by
  intro maps merge
  obtain ⟨hmaps, -, hstaged⟩ := merge_exact "bag"
  have hisMap : ∀ value ∈ maps ++ [numbered "a" 3], value.IsMap .string .int := by
    simp [maps, isMap_numbered]
  obtain ⟨-, hunion, hperm⟩ := hmaps .string .int maps (List.cons_ne_nil _ _)
    (List.forall_mem_append.1 hisMap).1
  refine ⟨⟨_, rfl, hunion _ rfl⟩, hperm _ (List.reverse_perm maps).symm, ⟨_, rfl⟩, ?_⟩
  have hagree := hstaged (.map .string .int) maps [numbered "a" 3] (List.cons_ne_nil _ _)
    (List.cons_ne_nil _ _) (.inl ⟨.string, .int, rfl, hisMap⟩)
  cases hmerging : standard.mergeStaged "bag" (.map .string .int) maps [numbered "a" 3] with
  | ok merged =>
    rw [hmerging] at hagree
    exact hagree.elim
  | error e =>
    rw [hmerging] at hagree
    exact ⟨e, rfl, hagree.2⟩

end MergeRegistry

end Dataflow
