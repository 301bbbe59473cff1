import Mathlib.Data.List.Forall2
import Mathlib.Data.List.Nodup

/-!
# Lists in parallel

What two lists that are related entry by entry know about each other, where the entries of
a list without repetitions stand, and how first occurrences grow with a list.
-/

namespace Dataflow

variable {α β : Type} {R : α → β → Prop}

theorem exists_getElem?_of_forall₂ {as : List α} {bs : List β} (h : List.Forall₂ R as bs)
    {i : Nat} {a : α} (ha : as[i]? = some a) : ∃ b, bs[i]? = some b ∧ R a b := by
  induction h generalizing i with
  | nil => exact nomatch ha
  | cons hr _ ih =>
    cases i with
    | zero =>
      obtain rfl := Option.some.inj ha
      exact ⟨_, rfl, hr⟩
    | succ i => exact ih ha

theorem forall₂_set {as : List α} {bs : List β} (h : List.Forall₂ R as bs) {i : Nat} {a : α}
    {b : β} (ha : as[i]? = some a) (hr : R a b) : List.Forall₂ R as (bs.set i b) := by
  induction h generalizing i with
  | nil => exact nomatch ha
  | cons hr' ht ih =>
    cases i with
    | zero =>
      obtain rfl := Option.some.inj ha
      exact .cons hr ht
    | succ i => exact .cons hr' (ih ha)

theorem exists_left_of_forall₂ {as : List α} {bs : List β} (h : List.Forall₂ R as bs) {b : β}
    (hb : b ∈ bs) : ∃ a ∈ as, R a b := by
  induction h with
  | nil => exact nomatch hb
  | cons hr _ ih =>
    rcases List.mem_cons.1 hb with rfl | hb
    · exact ⟨_, List.mem_cons_self, hr⟩
    · obtain ⟨a, ha, hr⟩ := ih hb
      exact ⟨a, List.mem_cons_of_mem _ ha, hr⟩

theorem exists_right_of_forall₂ {as : List α} {bs : List β} (h : List.Forall₂ R as bs) {a : α}
    (ha : a ∈ as) : ∃ b ∈ bs, R a b :=
  exists_left_of_forall₂ h.flip ha

theorem map_eq_map_of_forall₂ {γ : Type} {as : List α} {bs : List β} (h : List.Forall₂ R as bs)
    {f : α → γ} {g : β → γ} (hfg : ∀ a b, R a b → f a = g b) : as.map f = bs.map g := by
  induction h with
  | nil => rfl
  | cons hr _ ih => rw [List.map_cons, List.map_cons, hfg _ _ hr, ih]

/-- What is found by two of its marks is in the list and has them. -/
theorem mem_and_eq_of_find? {κ : Type} [DecidableEq κ] {as : List α} {f g : α → κ} {x y : κ} {a : α}
    (h : (as.find? fun a => f a = x && g a = y) = some a) : a ∈ as ∧ f a = x ∧ g a = y := by
  have hmarks := List.find?_some h
  rw [Bool.and_eq_true_iff, decide_eq_true_iff, decide_eq_true_iff] at hmarks
  exact ⟨List.mem_of_find?_eq_some h, hmarks⟩

/-- Looking for the same in both lists finds entries that are related. -/
theorem exists_find?_of_forall₂ {as : List α} {bs : List β} (h : List.Forall₂ R as bs)
    {p : α → Bool} {q : β → Bool} (hpq : ∀ a b, R a b → p a = q b) {a : α}
    (ha : as.find? p = some a) : ∃ b, bs.find? q = some b ∧ R a b := by
  induction h with
  | nil => exact nomatch ha
  | @cons a' b' _ _ hr _ ih =>
    rw [List.find?_cons] at ha
    rw [List.find?_cons, ← hpq _ _ hr]
    cases hp : p a' with
    | true =>
      rw [hp] at ha
      obtain rfl := Option.some.inj ha
      exact ⟨b', rfl, hr⟩
    | false =>
      rw [hp] at ha
      exact ih ha

/-- Pairing two lists by position pairs what is related. -/
theorem forall₂_zipWith {γ : Type} {as : List α} {bs : List β} (h : List.Forall₂ R as bs)
    (g : α → β → γ) : List.Forall₂ (fun a c => ∃ b, R a b ∧ c = g a b) as (List.zipWith g as bs) := by
  induction h with
  | nil => exact .nil
  | cons hr _ ih => exact .cons ⟨_, hr, rfl⟩ ih

/-- What is related to a list that is taken apart can be taken apart in the same
way. -/
theorem forall₂_append_cons {as : List α} {before after : List β} {b : β}
    (h : List.Forall₂ R as (before ++ b :: after)) :
    ∃ before' a after', as = before' ++ a :: after' ∧ List.Forall₂ R before' before ∧ R a b ∧
      List.Forall₂ R after' after := by
  induction before generalizing as with
  | nil =>
    cases h with
    | cons hr h => exact ⟨[], _, _, rfl, .nil, hr, h⟩
  | cons c before ih =>
    cases h with
    | cons hr h =>
      obtain ⟨before', a, after', rfl, hbefore, ha, hafter⟩ := ih h
      exact ⟨_ :: before', a, after', rfl, .cons hr hbefore, ha, hafter⟩

/-- What stands in front of an entry that occurs once comes before it. -/
theorem idxOf_lt_of_split [DecidableEq α] {as before after : List α} {a b : α} (hnodup : as.Nodup)
    (hsplit : as = before ++ b :: after) (ha : a ∈ before) : as.idxOf a < as.idxOf b := by
  subst hsplit
  have hb : b ∉ before := fun hmem =>
    (List.nodup_append.1 hnodup).2.2 b hmem b List.mem_cons_self rfl
  rw [List.idxOf_append_of_mem ha, List.idxOf_append_of_notMem hb, List.idxOf_cons_self]
  exact List.idxOf_lt_length_of_mem ha

/-- One more entry comes last among the first occurrences, or it is no first occurrence. -/
theorem eraseDups_concat [DecidableEq α] (as : List α) (a : α) :
    (as ++ [a]).eraseDups = if a ∈ as then as.eraseDups else as.eraseDups ++ [a] := by
  rw [List.eraseDups_append, List.removeAll, List.filter_singleton]
  by_cases h : a ∈ as
  · rw [if_pos h, List.elem_eq_true_of_mem h]
    exact List.append_nil _
  · rw [if_neg h, Bool.eq_false_iff.2 (mt List.elem_iff.1 h)]
    rfl

end Dataflow
