import Dataflow.Proofs.Assignability
import Dataflow.Proofs.Tables

/-!
# The verdict that nothing fits

Two types that never fit have no value in common, with one exception.  Two
interfaces count as unrelated when neither asks for all that the other asks for,
and still the absent value fits both, and so does a record that provides what
both ask for.

* `Value.fits_interface_iff`: the values that fit an interface.
* `Ty.fit_eq_never_iff`: when the verdict is `never`.
* `Ty.fit_interface_eq_never_iff`: the verdict on two interfaces.
* `Ty.fits_both_iff`: the values that fit both of two types that never fit.
-/

namespace Dataflow

namespace Value

/-- The type that a value has of its own is not an interface. -/
theorem type_ne_interface (value : Value) (shape : Interface) : value.type ≠ .interface shape := by
  cases value <;> nofun

theorem type_eq_null_iff {value : Value} : value.type = .null ↔ value = .null := by
  cases value <;> simp [type]

/-- The values that fit an interface are the absent one and those whose type
implements it. -/
theorem fits_interface_iff {value : Value} {shape : Interface} :
    value.fits (.interface shape) = true ↔ value = .null ∨ value.type.implements shape = true := by
  unfold fits
  simp [Ty.fits_iff, value.type_ne_interface, type_eq_null_iff]

end Value

namespace Ty

/-! ## When the verdict is `never` -/

/-- Never is the verdict unless the source fits, or is open and does not rule
the destination out. -/
theorem fit_eq_never_iff {source dest : Ty} :
    source.fit dest = .never ↔ source.fits dest = false ∧ source ≠ .any ∧
      ∀ shape, source = .interface shape → dest.implements shape = false := by
  unfold fit
  by_cases h : source.fits dest = true
  · simp [h]
  · rw [if_neg h]
    cases source <;> simp [h]

theorem implements_self (shape : Interface) : (Ty.interface shape).implements shape = true :=
  implements_iff.2 (.inr ⟨shape.capabilities, rfl, Capabilities.subset_iff.2 fun _ => id⟩)

/-- Two interfaces never fit when neither implements the other. -/
theorem fit_interface_eq_never_iff {a b : Interface} :
    (Ty.interface a).fit (.interface b) = .never ↔
      (Ty.interface a).implements b = false ∧ (Ty.interface b).implements a = false := by
  have hfits : (Ty.interface a).fits (.interface b) = (Ty.interface a).implements b := by
    rw [Bool.eq_iff_iff, fits_iff]
    constructor
    · rintro (h | h | ⟨shape, hshape, h⟩)
      · obtain rfl := Ty.interface.inj h
        exact implements_self a
      · exact nomatch h
      · obtain rfl := Ty.interface.inj hshape
        exact h.resolve_left nofun
    · exact fun h => .inr (.inr ⟨b, rfl, .inr h⟩)
  rw [fit_eq_never_iff, hfits]
  simp

/-! ## Values that fit both -/

section

variable {source dest : Ty} {value : Value}

/-- Types that never fit and have a value in common are an interface and
something that is open or absent. -/
theorem eq_interface_of_fits_both (h : source.fit dest = .never)
    (hsource : value.fits source = true) (hdest : value.fits dest = true) :
    ∃ a, source = .interface a ∧ (dest = .null ∨ ∃ b, dest = .interface b) := by
  obtain ⟨hfits, hany, hopen⟩ := fit_eq_never_iff.1 h
  rcases fits_iff.1 hsource with htype | rfl | ⟨a, rfl, ha⟩
  · -- the value would carry its type past the verdict
    rw [← htype, show value.type.fits dest = true from hdest] at hfits
    exact nomatch hfits
  · exact absurd rfl hany
  refine ⟨a, rfl, ?_⟩
  rcases fits_iff.1 hdest with htype | rfl | ⟨b, rfl, _⟩
  · rcases ha with hnull | himp
    · exact .inl (htype ▸ hnull)
    · rw [htype, hopen a rfl] at himp
      exact nomatch himp
  · rw [fits_any] at hfits
    exact nomatch hfits
  · exact .inr ⟨b, rfl⟩

/-- No value fits both of two types that never fit, unless both are interfaces:
then neither implements the other, and the values that fit both are the absent
one and those whose type implements both. -/
theorem fits_both_iff (h : source.fit dest = .never)
    (hnull : source.kind = .interface → dest ≠ .null) :
    value.fits source = true ∧ value.fits dest = true ↔
      ∃ a b, source = .interface a ∧ dest = .interface b ∧
        (Ty.interface a).implements b = false ∧ (Ty.interface b).implements a = false ∧
        (value = .null ∨ value.type.implements a = true ∧ value.type.implements b = true) := by
  constructor
  · rintro ⟨hsource, hdest⟩
    obtain ⟨a, rfl, rfl | ⟨b, rfl⟩⟩ := eq_interface_of_fits_both h hsource hdest
    · exact absurd rfl (hnull rfl)
    · obtain ⟨hab, hba⟩ := fit_interface_eq_never_iff.1 h
      rw [Value.fits_interface_iff] at hsource hdest
      exact ⟨a, b, rfl, rfl, hab, hba, or_and_left.2 ⟨hsource, hdest⟩⟩
  · rintro ⟨a, b, rfl, rfl, -, -, hvalue⟩
    rw [Value.fits_interface_iff, Value.fits_interface_iff]
    exact or_and_left.1 hvalue

end

end Ty

/-! ## Two interfaces with a record in common -/

/-- The names of a set are the added ones. -/
theorem Capabilities.mem_names_insert {set : Capabilities} {name added : String} :
    name ∈ (set.insert added).names ↔ name = added ∨ name ∈ set.names := by
  have hnames : ∀ {set : Capabilities}, name ∈ set.names ↔ set.marks.find? name = some () := by
    intro set
    rw [← Table.mem_entries_iff, names, List.mem_map]
    exact ⟨fun ⟨_, hentry, hname⟩ => hname ▸ hentry, fun hentry => ⟨_, hentry, rfl⟩⟩
  rw [hnames, hnames, insert, Table.find?_insert]
  by_cases h : name = added <;> simp [h]

/-- The interface that asks for one capability and is named after it. -/
def Interface.asking (capability : String) : Interface :=
  (Interface.named capability).require capability

@[simp] theorem Interface.names_asking (capability : String) :
    (asking capability).capabilities.names = [capability] := rfl

/-- A record implements an interface for a capability that it provides. -/
theorem Ty.implements_asking {shape : RecordType} {capability : String}
    (h : capability ∈ shape.capabilities.names) :
    (Ty.record shape).implements (.asking capability) = true := by
  rw [implements_of_unboxed rfl]
  simpa using h

/-- Interfaces for different capabilities never fit. -/
theorem Ty.fit_asking {a b : String} (h : a ≠ b) :
    (Ty.interface (.asking a)).fit (.interface (.asking b)) = .never := by
  simp [fit_interface_eq_never_iff, implements, unboxed, Interface.isSatisfiedBy,
    Capabilities.isEmpty, Capabilities.subset, h, h.symm]

/-- A record type that provides two capabilities. -/
def agedUser : RecordType := ((RecordOf.named "User").provide "Named").provide "Aged"

theorem implements_agedUser :
    (Ty.record agedUser).implements (.asking "Named") = true ∧
      (Ty.record agedUser).implements (.asking "Aged") = true := by
  constructor <;> refine Ty.implements_asking ?_
  all_goals simp [agedUser, RecordOf.provide, Capabilities.mem_names_insert]

/-- A value that fits both of two types that never fit. -/
theorem Ty.fits_both_of_fit_eq_never :
    (Ty.interface (.asking "Named")).fit (.interface (.asking "Aged")) = .never ∧
      (RecordValue.zero agedUser).toValue.fits (.interface (.asking "Named")) = true ∧
      (RecordValue.zero agedUser).toValue.fits (.interface (.asking "Aged")) = true :=
  ⟨fit_asking (by simp), Value.fits_interface_iff.2 (.inr implements_agedUser.1),
    Value.fits_interface_iff.2 (.inr implements_agedUser.2)⟩

/-- A number does not fit an interface, and what fits both would have to. -/
theorem Ty.fits_both_iff_int :
    (Ty.interface (.asking "Named")).fit .int = .never ∧
      ((Ty.interface (.asking "Named")).kind = .interface → Ty.int ≠ .null) ∧
      ¬((Value.int 3).fits (.interface (.asking "Named")) = true ∧
        (Value.int 3).fits .int = true) := by
  have hfit : (Ty.interface (.asking "Named")).fit .int = .never := by
    simp [fit_eq_never_iff, fits, implements, unboxed, Capabilities.isEmpty]
  have hnull : (Ty.interface (.asking "Named")).kind = .interface → Ty.int ≠ .null := by simp
  refine ⟨hfit, hnull, fun h => ?_⟩
  obtain ⟨_, _, _, hdest, _⟩ := (fits_both_iff hfit hnull).1 h
  cases hdest

end Dataflow
