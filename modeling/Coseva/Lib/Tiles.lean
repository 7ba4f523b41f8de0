/-
  Pieces of a line, one behind the other: each holds a point, none overlaps the next, and there may
  be gaps between them.

  * `Tiles lo pieces hi`: the pieces lie between two bounds;
  * `Tiles.append`, `Tiles.single`, `Tiles.shift`: how pieces are put together and moved;
  * `Tiles.before`: of two pieces the earlier one ends before the later one starts.
-/
import Mathlib.Data.List.Basic
import Mathlib.Tactic.Common

/-- The pieces lie one behind the other between `lo` and `hi`. -/
def Tiles : ℕ → List (ℕ × ℕ) → ℕ → Prop
  | lo, [], hi => lo ≤ hi
  | lo, piece :: pieces, hi => lo ≤ piece.1 ∧ piece.1 < piece.2 ∧ Tiles piece.2 pieces hi

namespace Tiles

theorem single {lo start stop hi : ℕ} (h : lo ≤ start) (hlt : start < stop) (h' : stop ≤ hi) :
    Tiles lo [(start, stop)] hi := ⟨h, hlt, h'⟩

theorem le : ∀ {pieces : List (ℕ × ℕ)} {lo hi : ℕ}, Tiles lo pieces hi → lo ≤ hi
  | [], _, _, h => h
  | _ :: _, _, _, ⟨hle, hlt, h⟩ => Nat.le_trans hle (Nat.le_trans (Nat.le_of_lt hlt) h.le)

theorem append : ∀ {pieces rest : List (ℕ × ℕ)} {lo mid hi : ℕ}, Tiles lo pieces mid →
    Tiles mid rest hi → Tiles lo (pieces ++ rest) hi
  | [], [], _, _, _, h, h' => Nat.le_trans h h'
  | [], _ :: _, _, _, _, h, ⟨hle, hlt, h'⟩ => ⟨Nat.le_trans h hle, hlt, h'⟩
  | _ :: _, _, _, _, _, ⟨hle, hlt, h⟩, h' => ⟨hle, hlt, h.append h'⟩

theorem mono_right {pieces : List (ℕ × ℕ)} {lo hi hi' : ℕ} (h : Tiles lo pieces hi) (hle : hi ≤ hi') :
    Tiles lo pieces hi' := by
  have hnil : Tiles hi [] hi' := hle
  rw [← List.append_nil pieces]
  exact h.append hnil

/-- The pieces of another line, which begins at `offset` of this one. -/
def moved (offset : ℕ) (pieces : List (ℕ × ℕ)) : List (ℕ × ℕ) :=
  pieces.map fun piece => (offset + piece.1, offset + piece.2)

theorem shift (offset : ℕ) : ∀ {pieces : List (ℕ × ℕ)} {lo hi : ℕ}, Tiles lo pieces hi →
    Tiles (offset + lo) (moved offset pieces) (offset + hi)
  | [], _, _, h => Nat.add_le_add_left h offset
  | _ :: _, _, _, ⟨hle, hlt, h⟩ =>
    ⟨Nat.add_le_add_left hle offset, Nat.add_lt_add_left hlt offset, h.shift offset⟩

@[simp] theorem length_moved (offset : ℕ) (pieces : List (ℕ × ℕ)) :
    (moved offset pieces).length = pieces.length := List.length_map _

/-- A piece lies between the bounds and holds a point. -/
theorem within {piece : ℕ × ℕ} : ∀ {pieces : List (ℕ × ℕ)} {lo hi : ℕ}, Tiles lo pieces hi →
    piece ∈ pieces → lo ≤ piece.1 ∧ piece.1 < piece.2 ∧ piece.2 ≤ hi
  | first :: rest, lo, hi, ⟨hle, hlt, h⟩, hmem => by
    rcases List.mem_cons.mp hmem with rfl | hmem
    · exact ⟨hle, hlt, h.le⟩
    · obtain ⟨h1, h2, h3⟩ := h.within hmem
      exact ⟨Nat.le_trans hle (Nat.le_trans (Nat.le_of_lt hlt) h1), h2, h3⟩

/-- An earlier piece ends before a later one starts. -/
theorem before {piece later : ℕ × ℕ} : ∀ {pieces : List (ℕ × ℕ)} {lo hi i j : ℕ}, Tiles lo pieces hi →
    i < j → pieces[i]? = some piece → pieces[j]? = some later → piece.2 ≤ later.1
  | first :: rest, _, _, 0, j + 1, ⟨_, _, h⟩, _, hpiece, hlater => by
    obtain rfl : first = piece := Option.some.inj hpiece
    rw [List.getElem?_cons_succ] at hlater
    exact (h.within (List.mem_of_getElem? hlater)).1
  | _ :: _, _, _, i + 1, j + 1, ⟨_, _, h⟩, hlt, hpiece, hlater =>
    h.before (Nat.lt_of_succ_lt_succ hlt) (List.getElem?_cons_succ ▸ hpiece)
      (List.getElem?_cons_succ ▸ hlater)

end Tiles
