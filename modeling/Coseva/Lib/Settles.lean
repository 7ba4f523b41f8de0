/-
  Computations with fuel: one `Settles` when every fuel from some bound on gives
  the same result.
-/
import Mathlib.Order.Defs.LinearOrder
import Mathlib.Tactic.Common

/-- With enough fuel, a computation gives one result. -/
def Settles {α : Type} (m : ℕ → Option α) : Prop := ∃ bound r, ∀ fuel ≥ bound, m fuel = some r

namespace Settles

variable {α β : Type}

theorem const (r : α) : Settles fun _ => some r := ⟨0, r, fun _ _ => rfl⟩

theorem map {m : ℕ → Option α} (h : Settles m) (f : α → β) : Settles fun fuel => (m fuel).map f := by
  obtain ⟨bound, r, hm⟩ := h
  refine ⟨bound, f r, fun fuel hfuel => ?_⟩
  simp only [hm fuel hfuel, Option.map_some]

theorem bind {m : ℕ → Option α} {f : α → ℕ → Option β} (h : Settles m) (hf : ∀ r, Settles (f r)) :
    Settles fun fuel => (m fuel).bind fun r => f r fuel := by
  obtain ⟨bound, r, hm⟩ := h
  obtain ⟨bound', r', hf⟩ := hf r
  refine ⟨max bound bound', r', fun fuel hfuel => ?_⟩
  simp only [hm fuel (Nat.max_le.mp hfuel |>.1), Option.bind_some]
  exact hf fuel (Nat.max_le.mp hfuel |>.2)

/-- One more turn. -/
theorem succ {m m' : ℕ → Option α} (h : Settles m) (hm : ∀ fuel, m' (fuel + 1) = m fuel) :
    Settles m' := by
  obtain ⟨bound, r, h⟩ := h
  refine ⟨bound + 1, r, fun fuel hfuel => ?_⟩
  obtain ⟨fuel, rfl⟩ := Nat.exists_eq_add_of_le' (Nat.one_le_of_lt hfuel)
  rw [hm]
  exact h fuel (by omega)

end Settles
