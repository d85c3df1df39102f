import Mathlib.Logic.Basic

/-!
How a computation that may throw comes to return: what is behind an `Except` that is known to
be a value.
-/

namespace HaybarnHttpfs.Foundation.Exceptions

universe u v w

variable {ε : Type u} {α : Type v}

theorem toOption_eq_some {x : Except ε α} {a : α} : x.toOption = some a ↔ x = .ok a := by
  cases x with
  | error e => exact iff_of_false nofun nofun
  | ok value =>
      constructor
      · rintro ⟨rfl⟩
        rfl
      · rintro ⟨rfl⟩
        rfl

theorem map_eq_ok {β : Type w} {f : α → β} {x : Except ε α} {b : β} :
    x.map f = .ok b ↔ ∃ a, x = .ok a ∧ f a = b := by
  constructor
  · intro hmap
    cases x with
    | error e => cases hmap
    | ok a => exact ⟨a, rfl, Except.ok.inj hmap⟩
  · rintro ⟨a, rfl, rfl⟩
    rfl

theorem bind_eq_ok {β : Type v} {f : α → Except ε β} {x : Except ε α} {b : β} :
    x >>= f = .ok b ↔ ∃ a, x = .ok a ∧ f a = .ok b := by
  constructor
  · intro hbind
    cases x with
    | error e => cases hbind
    | ok a => exact ⟨a, rfl, hbind⟩
  · rintro ⟨a, rfl, hnext⟩
    exact hnext

end HaybarnHttpfs.Foundation.Exceptions
