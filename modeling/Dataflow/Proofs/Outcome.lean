import Dataflow.Error
import Dataflow.Proofs.Lists

/-!
# Outcomes of computations

A computation that may fail is described by what holds of its value and by the
errors it may end with.  `Outcome` states both at once, and it follows a program
through its steps: `Outcome.bind` for one step after another,
`outcome_foldlM` for a loop with an invariant, `outcome_mapM` for a step on every
entry of a list.

The inversions at the top take a successful computation apart.
-/

namespace Dataflow

variable {ε α β γ : Type}

/-! ## Successful computations -/

theorem bind_eq_ok {x : Except ε α} {f : α → Except ε β} {b : β} (h : x >>= f = .ok b) :
    ∃ a, x = .ok a ∧ f a = .ok b := by
  cases x with
  | ok a => exact ⟨a, rfl, h⟩
  | error e => exact nomatch h

/-- After a check that did not fail the computation goes on. -/
theorem throwIf_eq_ok {c : Prop} [Decidable c] {e : ε} {f : Unit → Except ε β} {b : β}
    (h : (if c then throw e >>= f else f ()) = .ok b) : ¬c ∧ f () = .ok b := by
  by_cases hc : c
  · rw [if_pos hc] at h
    exact nomatch h
  · rw [if_neg hc] at h
    exact ⟨hc, h⟩

theorem mapError_eq_ok {δ : Type} {x : Except ε α} {f : ε → δ} {a : α}
    (h : x.mapError f = .ok a) : x = .ok a := by
  cases x with
  | ok a' => exact congrArg _ (Except.ok.inj h)
  | error e => exact nomatch h

theorem map_eq_ok {x : Except ε α} {f : α → β} {b : β} (h : f <$> x = .ok b) :
    ∃ a, x = .ok a ∧ f a = b := by
  cases x with
  | ok a => exact ⟨a, rfl, Except.ok.inj h⟩
  | error e => exact nomatch h

theorem forM_eq_ok {f : α → Except ε Unit} {as : List α} (h : as.forM f = .ok ()) :
    ∀ a ∈ as, f a = .ok () := by
  induction as with
  | nil => exact nofun
  | cons a as ih =>
    change (f a >>= fun _ => as.forM f) = .ok () at h
    obtain ⟨_, ha, has⟩ := bind_eq_ok h
    exact List.forall_mem_cons.2 ⟨ha, ih has⟩

theorem forM_eq_ok_of_forall {f : α → Except ε Unit} {as : List α} (h : ∀ a ∈ as, f a = .ok ()) :
    as.forM f = .ok () := by
  induction as with
  | nil => rfl
  | cons a as ih =>
    obtain ⟨ha, has⟩ := List.forall_mem_cons.1 h
    show (f a >>= fun _ => as.forM f) = .ok ()
    rw [ha]
    exact ih has

theorem forall₂_of_mapM_eq_ok {f : α → Except ε β} {as : List α} {bs : List β}
    (h : as.mapM f = .ok bs) : List.Forall₂ (fun a b => f a = .ok b) as bs := by
  induction as generalizing bs with
  | nil =>
    obtain rfl := Except.ok.inj h
    exact .nil
  | cons a as ih =>
    rw [List.mapM_cons] at h
    obtain ⟨b, hb, h⟩ := bind_eq_ok h
    obtain ⟨bs', hbs, h⟩ := bind_eq_ok h
    obtain rfl := Except.ok.inj h
    exact .cons hb (ih hbs)

/-- A loop whose steps succeed or fail whatever came before succeeds when all of them
do. -/
theorem exists_foldlM_eq_ok_iff {f : β → α → Except ε β} {succeeds : α → Prop} {as : List α}
    (hstep : ∀ a ∈ as, ∀ b, (∃ b', f b a = .ok b') ↔ succeeds a) (b : β) :
    (∃ b', as.foldlM f b = .ok b') ↔ ∀ a ∈ as, succeeds a := by
  induction as generalizing b with
  | nil => exact ⟨fun _ => nofun, fun _ => ⟨b, rfl⟩⟩
  | cons a as ih =>
    obtain ⟨ha, has⟩ := List.forall_mem_cons.1 hstep
    rw [List.foldlM_cons, List.forall_mem_cons, ← ha b]
    constructor
    · rintro ⟨c, h⟩
      obtain ⟨b', hb', h⟩ := bind_eq_ok h
      exact ⟨⟨b', hb'⟩, (ih has b').1 ⟨c, h⟩⟩
    · rintro ⟨⟨b', hb'⟩, hrest⟩
      rw [hb']
      exact (ih has b').2 hrest

/-- A loop that succeeds keeps what its steps keep, and every step has succeeded. -/
theorem steps_of_foldlM {f : β → α → Except ε β} {as : List α} {b c : β} (keeps : β → Prop)
    (hb : keeps b) (hstep : ∀ a ∈ as, ∀ b b', keeps b → f b a = .ok b' → keeps b')
    (h : as.foldlM f b = .ok c) :
    keeps c ∧ ∀ a ∈ as, ∃ b b', keeps b ∧ f b a = .ok b' := by
  induction as generalizing b with
  | nil =>
    obtain rfl := Except.ok.inj h
    exact ⟨hb, nofun⟩
  | cons a as ih =>
    rw [List.foldlM_cons] at h
    obtain ⟨b', hb', h⟩ := bind_eq_ok h
    obtain ⟨ha, has⟩ := List.forall_mem_cons.1 hstep
    obtain ⟨hc, hsteps⟩ := ih (ha b b' hb hb') has h
    exact ⟨hc, List.forall_mem_cons.2 ⟨⟨b, b', hb, hb'⟩, hsteps⟩⟩

/-! ## The same steps -/

theorem foldlM_congr {f g : β → α → Except ε β} {as : List α} (b : β)
    (h : ∀ a ∈ as, ∀ b, f b a = g b a) : as.foldlM f b = as.foldlM g b := by
  induction as generalizing b with
  | nil => rfl
  | cons a as ih =>
    obtain ⟨ha, has⟩ := List.forall_mem_cons.1 h
    rw [List.foldlM_cons, List.foldlM_cons, ha]
    exact bind_congr fun b' => ih b' has

/-- A loop over the parts of some entries is a loop over the entries. -/
theorem foldlM_flatMap (f : β → γ → Except ε β) (g : α → List γ) (as : List α) (b : β) :
    (as.flatMap g).foldlM f b = as.foldlM (fun b a => (g a).foldlM f b) b := by
  induction as generalizing b with
  | nil => rfl
  | cons a as ih =>
    rw [List.flatMap_cons, List.foldlM_append, List.foldlM_cons]
    exact bind_congr ih

/-- A loop gives the same for its entries in another order when the steps for any two
different ones may change places. -/
theorem foldlM_eq_ok_of_perm {f : β → α → Except ε β} {as as' : List α} (hperm : as.Perm as')
    (hswap : ∀ a ∈ as, ∀ a' ∈ as, a ≠ a' → ∀ b c,
      (f b a >>= fun b => f b a') = .ok c → (f b a' >>= fun b => f b a) = .ok c)
    {b c : β} (h : as.foldlM f b = .ok c) : as'.foldlM f b = .ok c := by
  induction hperm generalizing b with
  | nil => exact h
  | cons a _ ih =>
    rw [List.foldlM_cons] at h ⊢
    obtain ⟨b', hb', h⟩ := bind_eq_ok h
    rw [hb']
    refine ih (fun a ha a' ha' => ?_) h
    exact hswap a (List.mem_cons_of_mem _ ha) a' (List.mem_cons_of_mem _ ha')
  | swap a a' as =>
    simp only [List.foldlM_cons, ← bind_assoc] at h ⊢
    obtain ⟨b', hb', h⟩ := bind_eq_ok h
    have hb : (f b a >>= fun b => f b a') = .ok b' := by
      by_cases heq : a' = a
      · rwa [heq] at hb' ⊢
      · exact hswap a' List.mem_cons_self a (List.mem_cons_of_mem _ List.mem_cons_self) heq b b' hb'
    rw [hb]
    exact h
  | trans hfirst _ ih ih' =>
    exact ih' (fun a ha a' ha' => hswap a (hfirst.mem_iff.2 ha) a' (hfirst.mem_iff.2 ha'))
      (ih hswap h)

theorem forM_congr {f g : α → Except ε Unit} {as : List α} (h : ∀ a ∈ as, f a = g a) :
    as.forM f = as.forM g := by
  induction as with
  | nil => rfl
  | cons a as ih =>
    obtain ⟨ha, has⟩ := List.forall_mem_cons.1 h
    show (f a >>= fun _ => as.forM f) = (g a >>= fun _ => as.forM g)
    rw [ha, ih has]

/-- A pass whose results are completed from the entries is a pass without that, paired with
the entries by position. -/
theorem mapM_eq_zipWith {δ : Type} {f : α → Except ε β} {f' : δ → Except ε γ} {c : α → δ}
    {g : α → β → γ} {as : List α} (h : ∀ a ∈ as, f' (c a) = g a <$> f a) :
    (as.map c).mapM f' = List.zipWith g as <$> as.mapM f := by
  induction as with
  | nil => rfl
  | cons a as ih =>
    obtain ⟨ha, has⟩ := List.forall_mem_cons.1 h
    rw [List.map_cons, List.mapM_cons, List.mapM_cons, ha, ih has]
    cases f a with
    | error e => rfl
    | ok b =>
      cases as.mapM f with
      | error e => rfl
      | ok bs => rfl

/-! ## Values and errors at once -/

/-- The computation gives a value with a property or ends with a permitted
error. -/
def Outcome (permitted : ε → Prop) (holds : α → Prop) : Except ε α → Prop
  | .ok a => holds a
  | .error e => permitted e

variable {permitted : ε → Prop} {holds : α → Prop}

theorem Outcome.bind {x : Except ε α} {f : α → Except ε β} {holds' : β → Prop}
    (hx : Outcome permitted holds x)
    (hf : ∀ a, x = .ok a → holds a → Outcome permitted holds' (f a)) :
    Outcome permitted holds' (x >>= f) := by
  cases x with
  | ok a => exact hf a rfl hx
  | error e => exact hx

theorem Outcome.imp {permitted' : ε → Prop} {holds' : α → Prop} {x : Except ε α}
    (hx : Outcome permitted holds x) (he : ∀ e, permitted e → permitted' e)
    (ha : ∀ a, holds a → holds' a) : Outcome permitted' holds' x := by
  cases x with
  | ok a => exact ha a hx
  | error e => exact he e hx

/-- A loop keeps an invariant that each of its steps keeps. -/
theorem outcome_foldlM {f : β → α → Except ε β} {as : List α} (keeps : β → Prop) {b : β}
    (hb : keeps b) (hstep : ∀ a ∈ as, ∀ b, keeps b → Outcome permitted keeps (f b a)) :
    Outcome permitted keeps (as.foldlM f b) := by
  induction as generalizing b with
  | nil => exact hb
  | cons a as ih =>
    obtain ⟨ha, has⟩ := List.forall_mem_cons.1 hstep
    rw [List.foldlM_cons]
    exact (ha b hb).bind fun b' _ hb' => ih hb' has

/-- A step on every entry of a list gives a value for each. -/
theorem outcome_mapM {f : α → Except ε β} {as : List α} {related : α → β → Prop}
    (hstep : ∀ a ∈ as, Outcome permitted (related a) (f a)) :
    Outcome permitted (List.Forall₂ related as) (as.mapM f) := by
  induction as with
  | nil => exact .nil
  | cons a as ih =>
    obtain ⟨ha, has⟩ := List.forall_mem_cons.1 hstep
    rw [List.mapM_cons]
    exact ha.bind fun b _ hb => (ih has).bind fun bs _ hbs => .cons hb hbs

/-- A step that succeeds on every entry of a list succeeds on the list. -/
theorem exists_mapM_eq_ok {f : α → Except ε β} {as : List α} (h : ∀ a ∈ as, ∃ b, f a = .ok b) :
    ∃ bs, as.mapM f = .ok bs := by
  have hall : Outcome (fun _ => False) (List.Forall₂ (fun _ _ => True) as) (as.mapM f) := by
    refine outcome_mapM fun a ha => ?_
    obtain ⟨b, hb⟩ := h a ha
    rw [hb]
    trivial
  cases hbs : as.mapM f with
  | ok bs => exact ⟨bs, rfl⟩
  | error e =>
    rw [hbs] at hall
    exact hall.elim

/-- A check of every entry of a list fails as the check of one entry fails. -/
theorem outcome_forM {f : α → Except ε Unit} {as : List α}
    (hstep : ∀ a ∈ as, Outcome permitted (fun _ => True) (f a)) :
    Outcome permitted (fun _ => True) (as.forM f) := by
  induction as with
  | nil => trivial
  | cons a as ih =>
    obtain ⟨ha, has⟩ := List.forall_mem_cons.1 hstep
    exact ha.bind fun _ _ _ => ih has

/-! ## Two computations -/

/-- Two computations end with the same error, or with values that are related. -/
def Alike {ε α β : Type} (related : α → β → Prop) : Except ε α → Except ε β → Prop
  | .ok a, .ok b => related a b
  | .error e, .error e' => e = e'
  | _, _ => False

end Dataflow
