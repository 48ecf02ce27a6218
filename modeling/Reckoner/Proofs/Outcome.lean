import Reckoner.Failure

/-!
# Outcome — values and failures in sequence

What follows from one outcome after another (`bind_eq_ok_iff`), two outcomes side by side (`Alike`), and the judgement
that a recognizer passes on one (`Judged`): a value where the recognizer accepts, a syntax error where it refuses, and
nothing else.
-/
namespace Reckoner

namespace Outcome

/-- Outcomes are compared by what they hold. -/
instance decidableEq {ε α : Type} [DecidableEq ε] [DecidableEq α] : DecidableEq (Except ε α)
  | .ok a, .ok b => decidable_of_iff (a = b) ⟨congrArg _, Except.ok.inj⟩
  | .error e, .error f => decidable_of_iff (e = f) ⟨congrArg _, Except.error.inj⟩
  | .ok _, .error _ => isFalse (by simp)
  | .error _, .ok _ => isFalse (by simp)

variable {α β γ : Type}

/-- **A value comes out of a sequence exactly when each part has one.** -/
theorem bind_eq_ok_iff {x : Except Failure α} {k : α → Except Failure β} {b : β} :
    x.bind k = .ok b ↔ ∃ a, x = .ok a ∧ k a = .ok b := by
  cases x with
  | error f => exact ⟨fun h => (by cases h), fun ⟨a, ha, _⟩ => (by cases ha)⟩
  | ok a => exact ⟨fun h => ⟨a, rfl, h⟩, fun ⟨_, ha, h⟩ => (by cases ha; exact h)⟩

theorem bind_assoc (x : Except Failure α) (k : α → Except Failure β) (l : β → Except Failure γ) :
    (x.bind k).bind l = x.bind fun a => (k a).bind l := by
  cases x <;> rfl

/-- What comes next matters only for values that come first. -/
theorem bind_congr {x : Except Failure α} {k l : α → Except Failure β} (h : ∀ a, x = .ok a → k a = l a) :
    x.bind k = x.bind l := by
  cases x with
  | error f => rfl
  | ok a => exact h a rfl

/-- Two outcomes that fail in the same way, or have values that are so related. -/
inductive Alike (related : α → β → Prop) : Except Failure α → Except Failure β → Prop where
  | ok {a : α} {b : β} (h : related a b) : Alike related (.ok a) (.ok b)
  | error (f : Failure) : Alike related (.error f) (.error f)

/-- **An outcome as a recognizer judges it**: a value if it accepts, a syntax error if it refuses. -/
def Judged (accepted : Bool) : Except Failure α → Prop
  | .ok _ => accepted = true
  | .error f => accepted = false ∧ f.kind = .syntaxError

theorem judged_ok {accepted : Bool} {a : α} (h : accepted = true) : Judged accepted (.ok a : Except Failure α) := h

theorem judged_error {accepted : Bool} {f : Failure} (h : accepted = false) (hf : f.kind = .syntaxError) :
    Judged accepted (.error f : Except Failure α) := ⟨h, hf⟩

theorem Judged.exists_ok_iff {accepted : Bool} {x : Except Failure α} (h : Judged accepted x) :
    (∃ a, x = .ok a) ↔ accepted = true := by
  cases x with
  | ok a => exact ⟨fun _ => h, fun _ => ⟨a, rfl⟩⟩
  | error f => exact ⟨fun ⟨_, ha⟩ => (by cases ha), fun ht => (by rw [h.1] at ht; cases ht)⟩

theorem Judged.exists_error_iff {accepted : Bool} {x : Except Failure α} (h : Judged accepted x) :
    (∃ f, x = .error f ∧ f.kind = .syntaxError) ↔ ¬accepted = true := by
  cases x with
  | ok a => exact ⟨fun ⟨_, hf, _⟩ => (by cases hf), fun hn => absurd h hn⟩
  | error f => exact ⟨fun _ ht => (by rw [h.1] at ht; cases ht), fun _ => ⟨f, rfl, h.2⟩⟩

/-- **A sequence is accepted when both its parts are.** -/
theorem Judged.bind {first second : Bool} {x : Except Failure α} {k : α → Except Failure β} (hx : Judged first x)
    (hk : ∀ a, Judged second (k a)) : Judged (first && second) (x.bind k) := by
  cases x with
  | error f => exact judged_error (by rw [hx.1, Bool.false_and]) hx.2
  | ok a =>
    have hfirst : first = true := hx
    rw [hfirst, Bool.true_and]
    exact hk a

end Outcome
end Reckoner
