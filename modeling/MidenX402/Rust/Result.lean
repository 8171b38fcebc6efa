import Mathlib.Logic.Basic

/-! # Results and early returns -/

namespace Rust
variable {ε ε' β γ : Type}

theorem except_bind_eq_ok {x : Except ε β} {f : β → Except ε γ} {c : γ} (h : x.bind f = .ok c) :
    ∃ b, x = .ok b ∧ f b = .ok c := by
  cases x with
  | error e => cases h
  | ok b => exact ⟨b,rfl,h⟩

theorem map_eq_ok {f : β → γ} {x : Except ε β} {c : γ} (h : x.map f = .ok c) :
    ∃ b, x = .ok b ∧ f b = c := by
  cases x with
  | error e => cases h
  | ok b => exact ⟨b,rfl,Except.ok.inj h⟩

theorem mapError_ok (g : ε → ε') (b : β) : (Except.ok b : Except ε β).mapError g = .ok b := rfl

theorem mapError_eq_ok {g : ε → ε'} {x : Except ε β} {b : β} :
    x.mapError g = .ok b ↔ x = .ok b := by
  constructor
  · intro h
    cases x with
    | error e => cases h
    | ok c => exact congrArg Except.ok (Except.ok.inj h)
  · rintro rfl
    exact mapError_ok g b

end Rust
