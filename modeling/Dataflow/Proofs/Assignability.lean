import Dataflow.Ty.Fit
import Dataflow.Value.Container

/-!
# Assignability

Fitting is reflexive and transitive, so a value that fits a declared type fits
wherever that type is always accepted.  The type that a value has of its own is
never open, under no box either, which leaves only one type that is not open
for a value to fit: its own.

* `Ty.fits_iff`: the three ways of fitting.
* `Ty.fits_trans`: transitivity, with the interface in the middle as the case
  that takes work.
* `Value.type_eq_of_fits`: a value fits a type that is not open only as its own.
-/

namespace Dataflow

/-! ## Capabilities -/

namespace Capabilities

theorem subset_iff {set other : Capabilities} :
    set.subset other = true ↔ ∀ name ∈ set.names, name ∈ other.names := by
  simp [subset]

theorem subset_trans {a b c : Capabilities} (hab : a.subset b = true) (hbc : b.subset c = true) :
    a.subset c = true :=
  subset_iff.2 fun name hname => subset_iff.1 hbc name (subset_iff.1 hab name hname)

/-- A subset of an empty set is empty. -/
theorem isEmpty_of_subset {a b : Capabilities} (hab : a.subset b = true)
    (hb : b.isEmpty = true) : a.isEmpty = true := by
  refine List.isEmpty_iff.2 (List.eq_nil_iff_forall_not_mem.2 fun name hname => ?_)
  have hmem : name ∈ b.names := subset_iff.1 hab name hname
  rw [List.isEmpty_iff.1 hb] at hmem
  exact nomatch hmem

end Capabilities

namespace Ty

/-! ## Implementing -/

/-- The capabilities that a type provides, for the types that declare any. -/
def provided? (type : Ty) : Option Capabilities :=
  match type.unboxed with
  | .record shape => some shape.capabilities
  | .interface shape => some shape.capabilities
  | _ => none

theorem implements_iff {type : Ty} {shape : Interface} :
    type.implements shape = true ↔ shape.capabilities.isEmpty = true ∨
      ∃ caps, type.provided? = some caps ∧ shape.capabilities.subset caps = true := by
  unfold implements provided?
  by_cases h : shape.capabilities.isEmpty = true
  · simp [h]
  · rw [if_neg h, or_iff_right h]
    cases type.unboxed <;> simp [Interface.isSatisfiedBy]

/-- What implements an interface implements every interface that asks for no
more. -/
theorem implements_of_implements {type : Ty} {shape wider : Interface}
    (h : type.implements shape = true)
    (hw : (Ty.interface shape).implements wider = true) : type.implements wider = true := by
  rcases implements_iff.1 hw with hempty | ⟨caps, hcaps, hsub⟩
  · exact implements_iff.2 (.inl hempty)
  · obtain rfl := Option.some.inj hcaps
    rcases implements_iff.1 h with hempty | ⟨caps, hcaps, hsub'⟩
    · exact implements_iff.2 (.inl (Capabilities.isEmpty_of_subset hsub hempty))
    · exact implements_iff.2 (.inr ⟨caps, hcaps, Capabilities.subset_trans hsub hsub'⟩)

/-- In any number of boxes, a record type implements the interfaces for what it provides. -/
theorem implements_of_unboxed {type : Ty} {shape : RecordType} {interface : Interface}
    (h : type.unboxed = .record shape) :
    type.implements interface = true ↔
      ∀ name ∈ interface.capabilities.names, name ∈ shape.capabilities.names := by
  have hprovided : type.provided? = some shape.capabilities := by rw [provided?, h]
  rw [implements_iff, hprovided, ← Capabilities.subset_iff]
  constructor
  · rintro (hempty | ⟨caps, hcaps, hsub⟩)
    · exact Capabilities.subset_iff.2 (by simp [List.isEmpty_iff.1 hempty])
    · exact Option.some.inj hcaps ▸ hsub
  · exact fun hsub => .inr ⟨_, rfl, hsub⟩

/-! ## Fitting -/

/-- The three ways of fitting. -/
theorem fits_iff {type dest : Ty} :
    type.fits dest = true ↔ type = dest ∨ dest = .any ∨
      ∃ shape, dest = .interface shape ∧ (type = .null ∨ type.implements shape = true) := by
  unfold fits
  by_cases h : type = dest
  · simp [h]
  · rw [if_neg h, or_iff_right h]
    cases dest <;> simp

theorem fits_refl (type : Ty) : type.fits type = true := fits_iff.2 (.inl rfl)

theorem fits_any (type : Ty) : type.fits .any = true := fits_iff.2 (.inr (.inl rfl))

/-- A type fits one that is not open only if it is the same. -/
theorem eq_of_fits {type dest : Ty} (h : type.fits dest = true) (hd : dest.isOpen = false) :
    type = dest := by
  rcases fits_iff.1 h with rfl | rfl | ⟨shape, rfl, _⟩
  · rfl
  · exact nomatch hd
  · exact nomatch hd

/-- Fitting is transitive. -/
theorem fits_trans {a b c : Ty} (hab : a.fits b = true) (hbc : b.fits c = true) :
    a.fits c = true := by
  rcases fits_iff.1 hbc with rfl | rfl | ⟨shape, rfl, hshape⟩
  · exact hab
  · exact fits_any a
  rcases fits_iff.1 hab with rfl | rfl | ⟨inner, rfl, hinner⟩
  · exact hbc
  · -- `any` declares nothing, so it implements only what asks for nothing
    rcases hshape with h | h
    · exact nomatch h
    · rcases implements_iff.1 h with hempty | ⟨_, hcaps, _⟩
      · exact fits_iff.2 (.inr (.inr ⟨shape, rfl, .inr (implements_iff.2 (.inl hempty))⟩))
      · exact nomatch hcaps
  · have himp : (Ty.interface inner).implements shape = true := hshape.resolve_left nofun
    rcases hinner with rfl | hinner
    · exact fits_iff.2 (.inr (.inr ⟨shape, rfl, .inl rfl⟩))
    · exact fits_iff.2 (.inr (.inr ⟨shape, rfl, .inr (implements_of_implements hinner himp)⟩))

theorem fit_eq_always_iff {source dest : Ty} :
    source.fit dest = .always ↔ source.fits dest = true := by
  unfold fit
  by_cases h : source.fits dest = true
  · simp [h]
  · rw [if_neg h]
    cases source <;> simp [h]
    split <;> simp

end Ty

/-! ## The type of a value -/

namespace Value

theorem unboxed_type (value : Value) : value.type.unboxed = value.unboxed.type := by
  induction value using Value.unboxed.induct with
  | case1 inner ih => exact ih
  | case2 value h =>
    cases value with
    | boxed inner => exact absurd rfl (h inner)
    | _ => rfl

/-- A value fits a type that is not open only as its own. -/
theorem type_eq_of_fits {value : Value} {type : Ty} (h : value.fits type = true)
    (hopen : type.isOpen = false) : value.type = type :=
  Ty.eq_of_fits h hopen

/-- A value fits wherever a type that it fits is always accepted. -/
theorem fits_of_fit_eq_always {value : Value} {source dest : Ty} (h : value.fits source = true)
    (hfit : source.fit dest = .always) : value.fits dest = true :=
  Ty.fits_trans h (Ty.fit_eq_always_iff.1 hfit)

end Value

end Dataflow
