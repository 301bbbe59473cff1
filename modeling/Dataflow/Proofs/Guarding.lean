import Dataflow.Guard
import Dataflow.Proofs.Verdicts

/-!
# Guards decide by the verdict

A guard looks at the type that a value has of its own.  That type is never open,
so the verdict on it is never left open either: a guard accepts the values whose
own type always fits and refuses those whose own type never does.  Fitting is a
preorder, which makes it safe to leave a guard out where the declared types
always fit.

* `Value.fit_type`: the verdict on the type of a value.
* `Guard.check_eq_ok_iff`: the values that a guard accepts.
* `Ty.fits_preorder_sound`: fitting is a preorder and sound for values.
-/

namespace Dataflow

namespace Value

/-- The type that a value has of its own is not `any`. -/
theorem type_ne_any (value : Value) : value.type ≠ .any := by
  cases value <;> nofun

/-- The verdict on the type that a value has says whether the value fits. -/
theorem fit_type (value : Value) (dest : Ty) :
    value.type.fit dest = if value.fits dest then .always else .never := by
  by_cases h : value.fits dest = true
  · rw [if_pos h]
    exact Ty.fit_eq_always_iff.2 h
  · rw [if_neg h, Ty.fit_eq_never_iff]
    exact ⟨eq_false_of_ne_true h, value.type_ne_any,
      fun shape hshape => absurd hshape (value.type_ne_interface shape)⟩

end Value

namespace Guard

variable {guard : Guard} {value : Value}

theorem check_eq_ok_iff : guard.check value = .ok value ↔ value.fits guard.expected = true := by
  unfold check
  split <;> simp_all

theorem check_eq_error_iff :
    (∃ e, guard.check value = .error e) ↔ value.fits guard.expected = false := by
  unfold check
  split <;> simp_all

end Guard

/-- Fitting is a preorder, and a value that fits a type fits wherever that type
always fits.  The type that a value has of its own is not open: the verdict on it
is `always` for the values that a guard accepts and `never` for the others, and
it is the only type that is not open and that the value fits. -/
theorem Ty.fits_preorder_sound :
    (∀ type : Ty, type.fits type = true) ∧
    (∀ a b c : Ty, a.fits b = true → b.fits c = true → a.fits c = true) ∧
    (∀ source dest : Ty, (source.fit dest = .always ↔ source.fits dest = true) ∧
      (source.fits dest = true →
        ∀ value : Value, value.fits source = true → value.fits dest = true)) ∧
    (∀ value : Value, value.type ≠ .any ∧ ∀ shape, value.type ≠ .interface shape) ∧
    (∀ (value : Value) (guard : Guard),
      (value.type.fit guard.expected = .always ↔ guard.check value = .ok value) ∧
      (value.type.fit guard.expected = .never ↔ ∃ e, guard.check value = .error e)) ∧
    ∀ (value : Value) (dest : Ty), dest.isOpen = false → value.fits dest = true →
      value.type = dest := by
  refine ⟨fits_refl, fun a b c => fits_trans, fun source dest => ⟨fit_eq_always_iff, ?_⟩,
    fun value => ⟨value.type_ne_any, value.type_ne_interface⟩, fun value guard => ?_,
    fun value dest hopen hfits => Value.type_eq_of_fits hfits hopen⟩
  · exact fun hfits value hvalue => fits_trans hvalue hfits
  · rw [Guard.check_eq_ok_iff, Guard.check_eq_error_iff, value.fit_type]
    cases value.fits guard.expected <;> simp

/-- A boxed user fits the interface for names, everything fits the interface that
asks for nothing, and so the user fits that one.  The box has no other type than
its own among those that are not open. -/
theorem Ty.fits_preorder_sound_user :
    let user : Value := .boxed (RecordValue.zero agedUser).toValue
    let named : Ty := .interface (.asking "Named")
    let free : Ty := .interface (.named "Free")
    (user.type.fits named = true ∧ named.fits free = true ∧ user.type.fits free = true) ∧
      (user.fits named = true ∧ user.fits free = true) ∧
      ((Ty.boxed (.record agedUser)).isOpen = false ∧
        user.fits (.boxed (.record agedUser)) = true ∧
        user.type = .boxed (.record agedUser)) := by
  intro user named free
  obtain ⟨-, htrans, hsound, -, -, hown⟩ := fits_preorder_sound
  have huser : user.type.fits named = true :=
    fits_iff.2 (.inr (.inr ⟨_, rfl, .inr implements_agedUser.1⟩))
  have hfree : named.fits free = true :=
    fits_iff.2 (.inr (.inr ⟨_, rfl, .inr (implements_iff.2 (.inl rfl))⟩))
  have hself : user.fits (.boxed (.record agedUser)) = true := fits_refl _
  exact ⟨⟨huser, hfree, htrans _ _ _ huser hfree⟩, ⟨huser, (hsound named free).2 hfree user huser⟩,
    rfl, hself, hown _ _ rfl hself⟩

end Dataflow
