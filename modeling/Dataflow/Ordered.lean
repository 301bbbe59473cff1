/-!
# Ordered association lists

Finite maps as lists of entries in strictly ascending key order.  The functions
of `Ordered` work on bare lists, so that a recursive type can hold a map of
itself; `Table` is the same thing for text keys with the order in its type.

Text is ordered by code points, which is also the order of its UTF-8 bytes.
-/

namespace Dataflow

/-! ## Entries -/

namespace Ordered

variable {κ α : Type} [Ord κ]

/-- Each key is smaller than every key after it. -/
abbrev Ascending (entries : List (κ × α)) : Prop :=
  entries.Pairwise fun a b => compare a.1 b.1 = .lt

/-- The value stored under a key. -/
def find? (key : κ) : List (κ × α) → Option α
  | [] => none
  | (k, v) :: rest => if compare key k = .eq then some v else find? key rest

/-- Stores a value under a key, in place of the one already there. -/
def insert (key : κ) (value : α) : List (κ × α) → List (κ × α)
  | [] => [(key, value)]
  | (k, v) :: rest =>
    match compare key k with
    | .lt => (key, value) :: (k, v) :: rest
    | .eq => (key, value) :: rest
    | .gt => (k, v) :: insert key value rest

/-- Removes the entry of a key. -/
def erase (key : κ) (entries : List (κ × α)) : List (κ × α) :=
  entries.filter fun e => compare key e.1 ≠ .eq

/-- An entry of an updated list is the new one or an old one. -/
theorem eq_or_mem_of_mem_insert {key : κ} {value : α} {entries : List (κ × α)} {e : κ × α}
    (h : e ∈ insert key value entries) : e = (key, value) ∨ e ∈ entries := by
  induction entries with
  | nil => simpa [insert] using h
  | cons head rest ih =>
    obtain ⟨k, v⟩ := head
    rw [insert] at h
    split at h
    · simpa using h
    · rcases List.mem_cons.1 h with h | h
      · exact .inl h
      · exact .inr (List.mem_cons_of_mem _ h)
    · rcases List.mem_cons.1 h with h | h
      · exact .inr (h ▸ List.mem_cons_self)
      · exact (ih h).imp_right (List.mem_cons_of_mem _)

/-- Storing keeps the order of keys. -/
theorem ascending_insert [Std.TransOrd κ] [Std.LawfulEqOrd κ] {entries : List (κ × α)}
    (key : κ) (value : α) (h : Ascending entries) : Ascending (insert key value entries) := by
  induction entries with
  | nil => simp [insert, Ascending]
  | cons head rest ih =>
    obtain ⟨k, v⟩ := head
    obtain ⟨hhead, hrest⟩ := List.pairwise_cons.1 h
    rw [insert]
    split
    next hlt =>
      refine List.pairwise_cons.2 ⟨fun e he => ?_, h⟩
      rcases List.mem_cons.1 he with rfl | he
      · exact hlt
      · exact Std.TransCmp.lt_trans hlt (hhead e he)
    next heq =>
      obtain rfl := Std.LawfulEqCmp.eq_of_compare heq
      exact List.pairwise_cons.2 ⟨hhead, hrest⟩
    next hgt =>
      refine List.pairwise_cons.2 ⟨fun e he => ?_, ih hrest⟩
      rcases eq_or_mem_of_mem_insert he with rfl | he
      · exact Std.OrientedCmp.lt_of_gt hgt
      · exact hhead e he

end Ordered

/-! ## Tables -/

/-- A finite map from names to values, kept in name order. -/
structure Table (α : Type) where
  /-- The entries, in name order. -/
  entries : List (String × α)
  /-- No name occurs twice, and smaller names come first. -/
  ascending : Ordered.Ascending entries
deriving DecidableEq

namespace Table

variable {α β : Type}

/-- The table without entries. -/
def empty : Table α := ⟨[], .nil⟩

instance : Inhabited (Table α) := ⟨empty⟩

/-- The value stored under a name. -/
def find? (table : Table α) (name : String) : Option α :=
  Ordered.find? name table.entries

/-- Stores a value under a name, in place of the one already there. -/
def insert (table : Table α) (name : String) (value : α) : Table α :=
  ⟨Ordered.insert name value table.entries, Ordered.ascending_insert name value table.ascending⟩

/-- Removes the entry of a name. -/
def erase (table : Table α) (name : String) : Table α :=
  ⟨Ordered.erase name table.entries, table.ascending.filter _⟩

/-- The table of a list of entries; of two entries with one name the later counts. -/
def ofList (entries : List (String × α)) : Table α :=
  entries.foldl (fun table e => table.insert e.1 e.2) empty

/-- The stored values, in name order. -/
def values (table : Table α) : List α :=
  table.entries.map (·.2)

/-- The number of entries. -/
def size (table : Table α) : Nat :=
  table.entries.length

/-- Whether there is no entry. -/
def isEmpty (table : Table α) : Bool :=
  table.entries.isEmpty

end Table

end Dataflow
