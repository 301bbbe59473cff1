import Dataflow.AccessError

/-!
# Writes in place

A write changes a value where it stands.  When it fails, what it has written by then
stays.  `Write.written` is how values are written to elsewhere: it gives the value that
a write makes, or the error it ends with.  `Write.left` is what stands there in either
case, and a write that is `Atomic` leaves all as it was when it fails.
-/

namespace Dataflow

/-- A write to something.  A write that fails leaves it as it is then. -/
abbrev Write (σ α : Type) := EStateM AccessError σ α

namespace Write

variable {σ τ α : Type}

/-- What a write makes of something. -/
def written (write : Write σ α) (whole : σ) : Except AccessError σ :=
  match write.run whole with
  | .ok _ after => .ok after
  | .error e _ => .error e

/-- What is there after a write. -/
def left (write : Write σ α) (whole : σ) : σ :=
  match write.run whole with
  | .ok _ after => after
  | .error _ after => after

/-- The outcome of a write to what is inside something. -/
def around (wrap : σ → τ) : EStateM.Result AccessError σ α → EStateM.Result AccessError τ α
  | .ok a after => .ok a (wrap after)
  | .error e after => .error e (wrap after)

/-- A write that fails leaves all as it was. -/
def Atomic (write : Write σ α) : Prop :=
  ∀ whole e after, write.run whole = .error e after → after = whole

theorem Atomic.left_of_error {write : Write σ α} (h : write.Atomic) {whole : σ} {e : AccessError}
    (hwritten : write.written whole = .error e) : write.left whole = whole := by
  unfold written at hwritten
  unfold left
  cases hrun : write.run whole with
  | ok a after =>
    rw [hrun] at hwritten
    exact nomatch hwritten
  | error e' after => exact h whole e' after hrun

/-- A write to what is inside something makes of it what is made of the inside. -/
theorem written_around (outer : Write τ α) (inner : Write σ α) (wrap : σ → τ) (whole : σ)
    (h : outer.run (wrap whole) = around wrap (inner.run whole)) :
    outer.written (wrap whole) = (inner.written whole).map wrap := by
  rw [written, written, h]
  cases inner.run whole <;> rfl

theorem eq_of_around {outer : Write τ α} {inner : Write σ α} (wrap : σ → τ) {whole : σ}
    {e : AccessError} {after : τ} (h : outer.run (wrap whole) = around wrap (inner.run whole))
    (hinner : ∀ e after, inner.run whole = .error e after → after = whole)
    (herror : outer.run (wrap whole) = .error e after) : after = wrap whole := by
  rw [h] at herror
  cases hrun : inner.run whole with
  | ok a after' =>
    rw [hrun] at herror
    exact nomatch herror
  | error e' after' =>
    rw [hrun, hinner e' after' hrun] at herror
    exact (EStateM.Result.error.inj herror).2.symm

end Write

end Dataflow
