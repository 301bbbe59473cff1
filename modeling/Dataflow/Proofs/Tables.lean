import Dataflow.Ordered

/-!
# Lookups in ordered tables

What a lookup sees after each operation on an association list or a table, and
that lookups tell two ordered lists apart.  Later proofs read tables through
`find?` alone and never look at how the entries are kept.

* `find?_insert`, `find?_erase`: the lookups after a write.
* `mem_iff_find?_eq_some`: in an ordered list an entry is what its key finds.
* `eq_of_find?_eq`: two ordered lists with the same lookups are the same list.
* `findSome?_eq_some_iff`: a search in key order ends at the smallest hit.
* `findSome?_eq_of_find?_eq`: the first hit of a search in key order depends on
  the lookups only.
* `Table.ofList_of_perm`: the entries of a table make the table again.
-/

namespace Dataflow

/-! ## Association lists -/

namespace Ordered

variable {κ α β : Type} [Ord κ]

theorem find?_cons (key k : κ) (v : α) (rest : List (κ × α)) :
    find? key ((k, v) :: rest) = if compare key k = .eq then some v else find? key rest := rfl

variable [Std.LawfulEqOrd κ]

theorem find?_cons_self (key : κ) (v : α) (rest : List (κ × α)) :
    find? key ((key, v) :: rest) = some v := by
  rw [find?_cons, if_pos Std.compare_self]

theorem find?_cons_of_ne {key k : κ} (h : key ≠ k) (v : α) (rest : List (κ × α)) :
    find? key ((k, v) :: rest) = find? key rest := by
  rw [find?_cons, if_neg fun he => h (Std.LawfulEqCmp.eq_of_compare he)]

theorem find?_insert_self (key : κ) (value : α) (entries : List (κ × α)) :
    find? key (insert key value entries) = some value := by
  induction entries with
  | nil => exact find?_cons_self key value []
  | cons head rest ih =>
    obtain ⟨k, v⟩ := head
    rw [insert]
    split
    · exact find?_cons_self key value _
    · exact find?_cons_self key value rest
    next hgt =>
      rw [find?_cons, if_neg (by rw [hgt]; decide)]
      exact ih

theorem find?_insert_of_ne {key other : κ} (h : other ≠ key) (value : α)
    (entries : List (κ × α)) :
    find? other (insert key value entries) = find? other entries := by
  induction entries with
  | nil => exact find?_cons_of_ne h value []
  | cons head rest ih =>
    obtain ⟨k, v⟩ := head
    rw [insert]
    split
    · exact find?_cons_of_ne h value _
    next heq =>
      obtain rfl := Std.LawfulEqCmp.eq_of_compare heq
      rw [find?_cons_of_ne h, find?_cons_of_ne h]
    · rw [find?_cons, find?_cons, ih]

/-- Of two values stored under one key the second counts. -/
theorem insert_insert (key : κ) (value value' : α) (entries : List (κ × α)) :
    insert key value' (insert key value entries) = insert key value' entries := by
  induction entries with
  | nil => simp [insert, Std.compare_self]
  | cons head rest ih =>
    obtain ⟨k, v⟩ := head
    cases hc : compare key k with
    | lt => simp [insert, hc, Std.compare_self]
    | eq => simp [insert, hc, Std.compare_self]
    | gt => simp [insert, hc, ih]

theorem mem_of_find?_eq_some {key : κ} {v : α} {entries : List (κ × α)}
    (h : find? key entries = some v) : (key, v) ∈ entries := by
  induction entries with
  | nil => exact nomatch h
  | cons head rest ih =>
    obtain ⟨k, v'⟩ := head
    rw [find?_cons] at h
    split at h
    next heq =>
      obtain rfl := Std.LawfulEqCmp.eq_of_compare heq
      obtain rfl := Option.some.inj h
      exact List.mem_cons_self
    · exact List.mem_cons_of_mem _ (ih h)

/-- The keys after the first one of an ordered list are other keys. -/
theorem ne_of_mem_of_ascending {k : κ} {v : α} {rest : List (κ × α)} {e : κ × α}
    (h : Ascending ((k, v) :: rest)) (he : e ∈ rest) : e.1 ≠ k := by
  intro hk
  have hlt : compare k e.1 = .lt := (List.pairwise_cons.1 h).1 e he
  rw [hk, Std.compare_self] at hlt
  exact nomatch hlt

/-- In an ordered list an entry is what its key finds. -/
theorem mem_iff_find?_eq_some {key : κ} {v : α} {entries : List (κ × α)}
    (h : Ascending entries) : (key, v) ∈ entries ↔ find? key entries = some v := by
  refine ⟨fun hmem => ?_, mem_of_find?_eq_some⟩
  induction entries with
  | nil => exact nomatch hmem
  | cons head rest ih =>
    obtain ⟨k, v'⟩ := head
    rcases List.mem_cons.1 hmem with heq | hmem
    · obtain ⟨rfl, rfl⟩ := Prod.mk.inj heq
      exact find?_cons_self key v rest
    · rw [find?_cons_of_ne (ne_of_mem_of_ascending h hmem)]
      exact ih (List.pairwise_cons.1 h).2 hmem

/-- A key that is smaller than all keys is not found. -/
theorem find?_eq_none_of_lt {key : κ} {entries : List (κ × α)}
    (h : ∀ e ∈ entries, compare key e.1 = .lt) : find? key entries = none := by
  cases hf : find? key entries with
  | none => rfl
  | some v =>
    have hlt : compare key key = .lt := h _ (mem_of_find?_eq_some hf)
    rw [Std.compare_self] at hlt
    exact nomatch hlt

variable [Std.TransOrd κ]

/-- The first key of an ordered list is the first key of any ordered list with
the same lookups. -/
theorem compare_ne_lt_of_find?_eq {k k' : κ} {v v' : α} {rest rest' : List (κ × α)}
    (hb : Ascending ((k', v') :: rest'))
    (h : ∀ key, find? key ((k, v) :: rest) = find? key ((k', v') :: rest')) :
    compare k k' ≠ .lt := by
  intro hlt
  have hnone : find? k ((k', v') :: rest') = none := by
    refine find?_eq_none_of_lt fun e he => ?_
    rcases List.mem_cons.1 he with rfl | he
    · exact hlt
    · exact Std.TransCmp.lt_trans hlt ((List.pairwise_cons.1 hb).1 e he)
  rw [← h k, find?_cons_self] at hnone
  exact nomatch hnone

/-- Two ordered lists with the same lookups are the same list. -/
theorem eq_of_find?_eq {a b : List (κ × α)} (ha : Ascending a) (hb : Ascending b)
    (h : ∀ key, find? key a = find? key b) : a = b := by
  induction a generalizing b with
  | nil =>
    cases b with
    | nil => rfl
    | cons head rest =>
      obtain ⟨k, v⟩ := head
      have := h k
      rw [find?_cons_self] at this
      exact nomatch this
  | cons head rest ih =>
    obtain ⟨k, v⟩ := head
    cases b with
    | nil =>
      have := h k
      rw [find?_cons_self] at this
      exact nomatch this
    | cons head' rest' =>
      obtain ⟨k', v'⟩ := head'
      have hk : k = k' := by
        cases hc : compare k k' with
        | eq => exact Std.LawfulEqCmp.eq_of_compare hc
        | lt => exact absurd hc (compare_ne_lt_of_find?_eq hb h)
        | gt =>
          exact absurd (Std.OrientedCmp.lt_of_gt hc)
            (compare_ne_lt_of_find?_eq ha fun key => (h key).symm)
      subst hk
      have hv : v = v' := by
        have := h k
        rw [find?_cons_self, find?_cons_self] at this
        exact Option.some.inj this
      subst hv
      refine congrArg _ (ih (List.pairwise_cons.1 ha).2 (List.pairwise_cons.1 hb).2 fun key => ?_)
      by_cases hkey : key = k
      · subst hkey
        rw [find?_eq_none_of_lt (List.pairwise_cons.1 ha).1,
          find?_eq_none_of_lt (List.pairwise_cons.1 hb).1]
      · have := h key
        rwa [find?_cons_of_ne hkey, find?_cons_of_ne hkey] at this

/-- Storing what is there already changes nothing. -/
theorem insert_eq_self {key : κ} {value : α} {entries : List (κ × α)} (h : Ascending entries)
    (hfind : find? key entries = some value) : insert key value entries = entries := by
  refine eq_of_find?_eq (ascending_insert key value h) h fun other => ?_
  by_cases hother : other = key
  · rw [hother, find?_insert_self, hfind]
  · exact find?_insert_of_ne hother value entries

/-! ## Searching in key order -/

/-- The entries for which a search has an answer, with the answers. -/
def answers (f : κ → α → Option β) (entries : List (κ × α)) : List (κ × β) :=
  entries.filterMap fun e => (f e.1 e.2).map fun b => (e.1, b)

omit [Ord κ] [Std.LawfulEqOrd κ] [Std.TransOrd κ] in
theorem findSome?_eq_head?_answers (f : κ → α → Option β) (entries : List (κ × α)) :
    entries.findSome? (fun e => f e.1 e.2) = (answers f entries).head?.map (·.2) := by
  induction entries with
  | nil => rfl
  | cons head rest ih =>
    cases hf : f head.1 head.2 with
    | none => simpa [answers, hf] using ih
    | some b => simp [answers, hf]

omit [Std.LawfulEqOrd κ] [Std.TransOrd κ] in
theorem ascending_answers {entries : List (κ × α)} (f : κ → α → Option β)
    (h : Ascending entries) : Ascending (answers f entries) := by
  refine List.Pairwise.filterMap _ (fun e e' hlt b hb b' hb' => ?_) h
  obtain ⟨_, _, rfl⟩ := Option.map_eq_some_iff.1 hb
  obtain ⟨_, _, rfl⟩ := Option.map_eq_some_iff.1 hb'
  exact hlt

omit [Std.TransOrd κ] in
theorem find?_answers {entries : List (κ × α)} (f : κ → α → Option β) (h : Ascending entries)
    (key : κ) : find? key (answers f entries) = (find? key entries).bind (f key) := by
  cases hf : find? key entries with
  | none =>
    cases ha : find? key (answers f entries) with
    | none => rfl
    | some b =>
      obtain ⟨e, he, heq⟩ := List.mem_filterMap.1 (mem_of_find?_eq_some ha)
      obtain ⟨_, _, heq⟩ := Option.map_eq_some_iff.1 heq
      obtain rfl := (Prod.mk.inj heq).1
      rw [(mem_iff_find?_eq_some h).1 he] at hf
      exact nomatch hf
  | some v =>
    have hmem := mem_of_find?_eq_some hf
    show _ = f key v
    cases hb : f key v with
    | some b =>
      rw [← mem_iff_find?_eq_some (ascending_answers f h)]
      exact List.mem_filterMap.2 ⟨(key, v), hmem, by simp [hb]⟩
    | none =>
      cases ha : find? key (answers f entries) with
      | none => rfl
      | some b =>
        obtain ⟨e, he, heq⟩ := List.mem_filterMap.1 (mem_of_find?_eq_some ha)
        obtain ⟨b', hb', heq⟩ := Option.map_eq_some_iff.1 heq
        obtain ⟨rfl, rfl⟩ := Prod.mk.inj heq
        rw [(mem_iff_find?_eq_some h).1 he] at hf
        obtain rfl := Option.some.inj hf
        rw [hb] at hb'
        exact nomatch hb'

/-- A search in key order ends at the smallest key that has an answer. -/
theorem findSome?_eq_some_iff {entries : List (κ × α)} {f : κ → α → Option β} {b : β}
    (h : Ascending entries) :
    entries.findSome? (fun e => f e.1 e.2) = some b ↔
      ∃ key v, find? key entries = some v ∧ f key v = some b ∧
        ∀ other v', find? other entries = some v' → compare other key = .lt →
          f other v' = none := by
  rw [List.findSome?_eq_some_iff]
  constructor
  · rintro ⟨before, ⟨key, v⟩, after, hsplit, hb, hbefore⟩
    have hfind : find? key entries = some v :=
      (mem_iff_find?_eq_some h).1 (hsplit ▸ List.mem_append_right _ List.mem_cons_self)
    refine ⟨key, v, hfind, hb, fun other v' hother hlt => ?_⟩
    have hmem : (other, v') ∈ before ++ (key, v) :: after :=
      hsplit ▸ (mem_iff_find?_eq_some h).2 hother
    rcases List.mem_append.1 hmem with hmem | hmem
    · exact hbefore _ hmem
    -- no key from the found one on is smaller than it
    · rw [hsplit] at h
      obtain ⟨hafter, _⟩ := List.pairwise_cons.1 (List.pairwise_append.1 h).2.1
      rcases List.mem_cons.1 hmem with heq | hmem
      · obtain ⟨rfl, rfl⟩ := Prod.mk.inj heq
        rw [Std.compare_self] at hlt
        exact nomatch hlt
      · have hgt : compare other other = .lt := Std.TransCmp.lt_trans hlt (hafter _ hmem)
        rw [Std.compare_self] at hgt
        exact nomatch hgt
  · rintro ⟨key, v, hfind, hb, hsmaller⟩
    obtain ⟨before, after, hsplit⟩ := List.append_of_mem ((mem_iff_find?_eq_some h).2 hfind)
    refine ⟨before, (key, v), after, hsplit, hb, fun e he => ?_⟩
    have hmem : (e.1, e.2) ∈ entries := hsplit ▸ List.mem_append_left _ he
    have hlt : compare e.1 key = .lt :=
      (List.pairwise_append.1 (hsplit ▸ h)).2.2 e he (key, v) List.mem_cons_self
    exact hsmaller e.1 e.2 ((mem_iff_find?_eq_some h).1 hmem) hlt

/-- The first answer in key order depends on the answers of the keys only. -/
theorem findSome?_eq_of_find?_eq {γ : Type} {a : List (κ × α)} {b : List (κ × γ)}
    {f : κ → α → Option β} {g : κ → γ → Option β} (ha : Ascending a) (hb : Ascending b)
    (h : ∀ key, (find? key a).bind (f key) = (find? key b).bind (g key)) :
    a.findSome? (fun e => f e.1 e.2) = b.findSome? (fun e => g e.1 e.2) := by
  have heq : answers f a = answers g b :=
    eq_of_find?_eq (ascending_answers f ha) (ascending_answers g hb) fun key => by
      rw [find?_answers f ha, find?_answers g hb, h]
  rw [findSome?_eq_head?_answers, findSome?_eq_head?_answers, heq]

end Ordered

/-! ## Tables -/

namespace Table

variable {α : Type}

@[simp] theorem find?_empty (name : String) : (empty : Table α).find? name = none := rfl

@[simp] theorem find?_insert_self (table : Table α) (name : String) (value : α) :
    (table.insert name value).find? name = some value :=
  Ordered.find?_insert_self name value table.entries

theorem find?_insert_of_ne (table : Table α) {name other : String} (h : other ≠ name)
    (value : α) : (table.insert name value).find? other = table.find? other :=
  Ordered.find?_insert_of_ne h value table.entries

theorem find?_insert (table : Table α) (name other : String) (value : α) :
    (table.insert name value).find? other =
      if other = name then some value else table.find? other := by
  by_cases h : other = name
  · rw [if_pos h, h, find?_insert_self]
  · rw [if_neg h, find?_insert_of_ne table h]

theorem mem_entries_iff {table : Table α} {name : String} {value : α} :
    (name, value) ∈ table.entries ↔ table.find? name = some value :=
  Ordered.mem_iff_find?_eq_some table.ascending

/-- Tables with the same lookups are the same. -/
theorem eq_of_find?_eq {a b : Table α} (h : ∀ name, a.find? name = b.find? name) : a = b := by
  obtain ⟨entries, ascending⟩ := a
  obtain ⟨entries', ascending'⟩ := b
  obtain rfl : entries = entries' := Ordered.eq_of_find?_eq ascending ascending' h
  rfl

/-- Values for different names can be stored in either order. -/
theorem insert_comm (table : Table α) {name name' : String} (h : name ≠ name')
    (value value' : α) :
    (table.insert name value).insert name' value' =
      (table.insert name' value').insert name value := by
  refine eq_of_find?_eq fun other => ?_
  simp only [find?_insert]
  by_cases hname : other = name
  · rw [if_pos hname, if_neg (hname ▸ h), if_pos hname]
  · rw [if_neg hname, if_neg hname]

theorem find?_erase (table : Table α) (name other : String) :
    (table.erase name).find? other = if other = name then none else table.find? other := by
  have hmem : ∀ v, (other, v) ∈ (table.erase name).entries ↔
      (other, v) ∈ table.entries ∧ other ≠ name := by
    intro v
    show (other, v) ∈ Ordered.erase name table.entries ↔ _
    rw [Ordered.erase, List.mem_filter, decide_eq_true_iff, ne_eq,
      Std.LawfulEqCmp.compare_eq_iff_eq]
    exact and_congr_right fun _ => ne_comm
  cases hf : (table.erase name).find? other with
  | some v =>
    obtain ⟨hv, hne⟩ := (hmem v).1 (mem_entries_iff.2 hf)
    rw [if_neg hne, mem_entries_iff.1 hv]
  | none =>
    split
    · rfl
    next hne =>
      cases ht : table.find? other with
      | none => rfl
      | some v =>
        rw [mem_entries_iff.1 ((hmem v).2 ⟨mem_entries_iff.2 ht, hne⟩)] at hf
        exact nomatch hf

/-- What is taken out and put back is where it was. -/
theorem insert_erase_self {table : Table α} {name : String} {value : α}
    (h : table.find? name = some value) : (table.erase name).insert name value = table := by
  refine eq_of_find?_eq fun other => ?_
  rw [find?_insert, find?_erase]
  split
  next heq => rw [heq, h]
  · rfl

theorem nodup_names (table : Table α) : (table.entries.map (·.1)).Nodup := by
  rw [List.Nodup, List.pairwise_map]
  refine table.ascending.imp fun hlt heq => ?_
  rw [heq, Std.compare_self] at hlt
  exact nomatch hlt

/-- Entries of different names are all found once they are stored, and nothing else has
changed. -/
theorem find?_foldl_insert {entries : List (String × α)} (hnodup : (entries.map (·.1)).Nodup)
    (table : Table α) (name : String) :
    (∀ value, (name, value) ∈ entries →
      (entries.foldl (fun table e => table.insert e.1 e.2) table).find? name = some value) ∧
    (name ∉ entries.map (·.1) →
      (entries.foldl (fun table e => table.insert e.1 e.2) table).find? name =
        table.find? name) := by
  induction entries generalizing table with
  | nil => exact ⟨nofun, fun _ => rfl⟩
  | cons entry rest ih =>
    obtain ⟨hnew, hnodup⟩ := List.nodup_cons.1 hnodup
    obtain ⟨hfound, hother⟩ := ih hnodup (table.insert entry.1 entry.2)
    refine ⟨fun value hmem => ?_, fun hname => ?_⟩
    · rcases List.mem_cons.1 hmem with rfl | hmem
      · exact (hother hnew).trans (find?_insert_self table name value)
      · exact hfound value hmem
    · rw [List.map_cons, List.mem_cons, not_or] at hname
      exact (hother hname.2).trans (find?_insert_of_ne table hname.1 entry.2)

/-- The entries of a table make the table again, in whatever order they come. -/
theorem ofList_of_perm {table : Table α} {entries : List (String × α)}
    (h : entries.Perm table.entries) : ofList entries = table := by
  have hnodup : (entries.map (·.1)).Nodup := (h.map _).nodup_iff.2 table.nodup_names
  refine eq_of_find?_eq fun name => ?_
  obtain ⟨hfound, hother⟩ := find?_foldl_insert hnodup empty name
  cases hname : table.find? name with
  | some value => exact hfound value (h.mem_iff.2 (mem_entries_iff.2 hname))
  | none =>
    refine hother fun hmem => ?_
    obtain ⟨⟨_, value⟩, hentry, rfl⟩ := List.mem_map.1 hmem
    rw [mem_entries_iff.1 (h.mem_iff.1 hentry)] at hname
    exact nomatch hname

theorem isEmpty_iff {table : Table α} :
    table.isEmpty = true ↔ ∀ name, table.find? name = none := by
  constructor
  · intro h name
    show Ordered.find? name table.entries = none
    rw [List.isEmpty_iff.1 h]
    rfl
  · intro h
    refine List.isEmpty_iff.2 (List.eq_nil_iff_forall_not_mem.2 fun e he => ?_)
    have := mem_entries_iff.1 he
    rw [h] at this
    exact nomatch this

end Table

end Dataflow
