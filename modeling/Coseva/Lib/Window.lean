/-
  Windows of lists: `take` and `drop` at the offsets a scanner works with, the
  search of a window for the first element that satisfies a predicate, and what
  an index finds behind a known prefix.
-/
import Mathlib.Data.List.Basic
import Mathlib.Tactic.Common

namespace Window

variable {α : Type}

/-- The text between two offsets. -/
theorem drop_take_of_drop {l u v : List α} {i n : ℕ} (h : l.drop i = u ++ v)
    (hn : n = i + u.length) : (l.take n).drop i = u := by
  subst hn
  rw [List.drop_take, h]; simp

/-- The text between two offsets, when the window goes further. -/
theorem drop_take_append {l u v : List α} {i n : ℕ} (h : l.drop i = u ++ v)
    (hn : i + u.length ≤ n) : (l.take n).drop i = u ++ v.take (n - (i + u.length)) := by
  rw [List.drop_take, h, List.take_append, List.take_of_length_le (by omega)]
  congr 2; omega

/-- What lies behind a known text. -/
theorem drop_of_drop {l u v : List α} {i j : ℕ} (h : l.drop i = u ++ v) (hj : j = i + u.length) :
    l.drop j = v := by
  subst hj
  rw [← List.drop_drop, h, List.drop_left]

/-- A text in front of `n` stands in every list that agrees up to `n`. -/
theorem drop_of_take {l l' u v : List α} {i n : ℕ} (hsame : l'.take n = l.take n)
    (h : l.drop i = u ++ v) (hn : i + u.length ≤ n) :
    l'.drop i = u ++ l'.drop (i + u.length) := by
  have hu : (l.take (i + u.length)).drop i = u := drop_take_of_drop h rfl
  have htake := congrArg (fun l => (l.take (i + u.length)).drop i) hsame
  simp only [List.take_take, Nat.min_eq_left hn] at htake
  rw [hu, List.drop_take, Nat.add_sub_cancel_left] at htake
  rw [← List.drop_drop]
  conv_lhs => rw [← List.take_append_drop u.length (l'.drop i), htake]

theorem getElem?_of_drop {l v : List α} {i j : ℕ} {x : α} {u : List α}
    (h : l.drop i = u ++ x :: v) (hj : j = i + u.length) : l[j]? = some x := by
  subst hj
  rw [← List.getElem?_drop, h, List.getElem?_append_right (Nat.le_refl _), Nat.sub_self]; rfl

/-- The last element of a known text. -/
theorem getElem?_last_of_drop {l u v : List α} {i j : ℕ} (h : l.drop i = u ++ v)
    (hj : j + 1 = i + u.length) (hu : u ≠ []) : l[j]? = u.getLast? := by
  obtain ⟨w, x, rfl⟩ : ∃ w x, u = w ++ [x] :=
    ⟨_, _, (List.dropLast_append_getLast hu).symm⟩
  rw [List.append_assoc] at h
  rw [List.getLast?_append, List.getLast?_singleton, Option.some_or]
  simp only [List.length_append, List.length_singleton] at hj
  exact getElem?_of_drop h (by omega)

theorem lt_length_of_drop {l v : List α} {i : ℕ} {x : α} (h : l.drop i = x :: v) :
    i < l.length := by
  by_contra hi
  rw [List.drop_eq_nil_of_le (by omega)] at h; cases h

theorem length_of_drop {l u : List α} {i : ℕ} (h : l.drop i = u) (hi : i ≤ l.length) :
    l.length = i + u.length := by
  rw [← h, List.length_drop]; omega

/-- The longest text of which every element satisfies `p`. -/
theorem takeWhile_append {p : α → Bool} {u v : List α} (hu : ∀ x ∈ u, p x = true)
    (hv : ∀ x, v.head? = some x → p x = false) : (u ++ v).takeWhile p = u := by
  rw [List.takeWhile_append_of_pos hu]
  cases v with
  | nil => rw [List.takeWhile_nil, List.append_nil]
  | cons x v => rw [List.takeWhile_cons, hv x rfl, if_neg Bool.false_ne_true, List.append_nil]

/-! ## Searches -/

/-- The search of a window passes a text without a match. -/
theorem window_findIdx? {p : α → Bool} {l u v : List α} {x : α} {i n : ℕ}
    (h : l.drop i = u ++ x :: v) (hu : ∀ y ∈ u, p y = false) (hx : p x = true)
    (hn : i + u.length < n) : ((l.take n).drop i).findIdx? p = some u.length := by
  rw [drop_take_append h (Nat.le_of_lt hn), List.take_cons (by omega)]
  rw [List.findIdx?_append, List.findIdx?_eq_none_iff.mpr hu]
  simp [List.findIdx?_cons, hx]

/-- The search passes a text without a match and stops at the match behind it. -/
theorem findIdx?_append_cons {p : α → Bool} {u v : List α} {x : α} (hu : ∀ y ∈ u, p y = false)
    (hx : p x = true) : (u ++ x :: v).findIdx? p = some u.length := by
  rw [List.findIdx?_append, List.findIdx?_eq_none_iff.mpr hu]
  simp [List.findIdx?_cons, hx]

theorem findIdx?_none {p : α → Bool} {u : List α} (hu : ∀ y ∈ u, p y = false) :
    u.findIdx? p = none :=
  List.findIdx?_eq_none_iff.mpr hu

/-- What a successful search has passed. -/
theorem of_findIdx?_some {p : α → Bool} {l : List α} {i : ℕ} (h : l.findIdx? p = some i) :
    ∃ u x v, l = u ++ x :: v ∧ u.length = i ∧ p x = true ∧ ∀ y ∈ u, p y = false := by
  rw [List.findIdx?_eq_some_iff_getElem] at h
  obtain ⟨hi, hp, hlt⟩ := h
  refine ⟨l.take i, l[i], l.drop (i + 1), ?_, by simp; omega, hp, ?_⟩
  · rw [List.getElem_cons_drop, List.take_append_drop]
  · intro y hy
    obtain ⟨j, hj, rfl⟩ := List.getElem_of_mem hy
    rw [List.length_take] at hj
    rw [List.getElem_take]
    simpa using hlt j (by omega)

/-- A match in front of `n` is found in every list that agrees up to `n`. -/
theorem findIdx?_of_take {p : α → Bool} {l l' : List α} {i k n : ℕ}
    (hsame : l'.take n = l.take n) (h : (l.drop i).findIdx? p = some k) (hn : i + k < n) :
    (l'.drop i).findIdx? p = some k := by
  obtain ⟨u, x, v, hl, hlen, hx, hu⟩ := of_findIdx?_some h
  have hcons : l.drop i = (u ++ [x]) ++ v := by
    rw [hl, List.append_assoc]; rfl
  have hwidth : i + (u ++ [x]).length ≤ n := by
    rw [List.length_append, List.length_singleton]; omega
  rw [drop_of_take hsame hcons hwidth, List.append_assoc, ← hlen]
  exact findIdx?_append_cons hu hx

theorem getElem?_of_take {l l' : List α} {i n : ℕ} (hsame : l'.take n = l.take n) (hi : i < n) :
    l'[i]? = l[i]? := by
  have := congrArg (·[i]?) hsame
  simpa [List.getElem?_take, hi] using this

/-- What a successful search of the window between two offsets has passed. -/
theorem of_window_some {p : α → Bool} {l : List α} {i j n : ℕ}
    (h : ((l.take j).drop i).findIdx? p = some n) :
    ∃ u x v, l.drop i = u ++ x :: v ∧ u.length = n ∧ p x = true ∧ (∀ y ∈ u, p y = false) ∧
      i + n < j := by
  obtain ⟨u, x, v, hl, hu, hx, hall⟩ := of_findIdx?_some h
  have hlen := congrArg List.length hl
  simp only [List.length_drop, List.length_take, List.length_append, List.length_cons] at hlen
  refine ⟨u, x, v ++ l.drop j, ?_, hu, hx, hall, by omega⟩
  rw [← List.cons_append, ← List.append_assoc, ← hl, ← List.drop_append_of_le_length]
  · rw [List.take_append_drop]
  · simp only [List.length_take]; omega

/-- What a search of the window between two offsets has passed in vain. -/
theorem of_window_none {p : α → Bool} {l : List α} {i j : ℕ} (hij : i ≤ j) (hj : j ≤ l.length)
    (h : ((l.take j).drop i).findIdx? p = none) :
    ∃ u, l.drop i = u ++ l.drop j ∧ j = i + u.length ∧ ∀ y ∈ u, p y = false := by
  refine ⟨(l.take j).drop i, ?_, ?_, List.findIdx?_eq_none_iff.mp h⟩
  · rw [← List.drop_append_of_le_length]
    · rw [List.take_append_drop]
    · simp only [List.length_take]; omega
  · simp only [List.length_drop, List.length_take]; omega

end Window
