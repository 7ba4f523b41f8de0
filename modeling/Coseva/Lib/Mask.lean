/-
  Bit masks of a block: one bit for each letter of a list, the first letter in the
  lowest bit, and the search that reads a list by blocks.

  * `mask`: the letters that satisfy a test, and `trailingZeros`, the first of them;
  * `findBlocks`: the search by blocks, and `findBlocks_eq`, that it finds what a
    search letter by letter does.
-/
import Coseva.Lib.Words

namespace Mask

variable {α : Type*}

/-- Bit `i` is set when the letter at `i` satisfies the test. -/
def mask (p : α → Bool) : List α → ℕ
  | [] => 0
  | a :: l => (p a).toNat + 2 * mask p l

/-- The number of zero bits below the lowest bit that is set, of `width` bits. -/
def trailingZeros : ℕ → ℕ → ℕ
  | 0, _ => 0
  | width + 1, m => if m % 2 = 1 then 0 else 1 + trailingZeros width (m / 2)

/-- The lowest bit of a mask is that of the first letter that satisfies the test. -/
theorem findIdx?_eq_trailingZeros (p : α → Bool) (l : List α) :
    l.findIdx? p = if mask p l = 0 then none else some (trailingZeros l.length (mask p l)) := by
  induction l with
  | nil => rfl
  | cons a l ih =>
    rw [List.findIdx?_cons, List.length_cons, trailingZeros]
    cases h : p a with
    | true =>
      have hodd : (1 + 2 * mask p l) % 2 = 1 := by omega
      simp only [mask, h, Bool.toNat_true, ↓reduceIte, hodd]
      exact (if_neg (by omega)).symm
    | false =>
      have heven : ¬ (2 * mask p l) % 2 = 1 := by omega
      simp only [mask, h, Bool.toNat_false, Nat.zero_add, Bool.false_eq_true, ↓reduceIte, heven, ih,
        Nat.mul_div_cancel_left _ (show 0 < 2 by decide)]
      by_cases hz : mask p l = 0
      · rw [if_pos hz, if_pos (by omega)]
        rfl
      · rw [if_neg hz, if_neg (by omega), Option.map_some, Nat.add_comm]

/-! ## Searching by blocks -/

/-- The search in whole blocks of `width` letters, of which `index` came before. -/
def findInBlocks (p : α → Bool) (width : ℕ) : ℕ → List (List α) → Option ℕ
  | _, [] => none
  | index, block :: blocks =>
    let m := mask p block
    if m ≠ 0 then some (index * width + trailingZeros width m)
    else findInBlocks p width (index + 1) blocks

/-- The search in the whole blocks and then in the letters that are left. -/
def findBlocks (p : α → Bool) (width : ℕ) (l : List α) : Option ℕ :=
  let (blocks, tail) := Words.chunks width l
  match findInBlocks p width 0 blocks with
  | some i => some i
  | none => (tail.findIdx? p).map (blocks.length * width + ·)

theorem findInBlocks_eq (p : α → Bool) (width : ℕ) (blocks : List (List α))
    (h : ∀ b ∈ blocks, b.length = width) (index : ℕ) :
    findInBlocks p width index blocks = (blocks.flatten.findIdx? p).map (index * width + ·) := by
  induction blocks generalizing index with
  | nil => rfl
  | cons block blocks ih =>
    have hlen := h block (List.mem_cons_self ..)
    rw [findInBlocks, List.flatten_cons, List.findIdx?_append, findIdx?_eq_trailingZeros p block,
      ih (fun b hb => h b (List.mem_cons_of_mem _ hb)), hlen]
    by_cases hz : mask p block = 0
    · simp only [hz, ne_eq, not_true_eq_false, ↓reduceIte, Option.none_or, Option.map_map]
      congr 1
      funext i
      simp only [Function.comp_apply, Nat.succ_mul]
      omega
    · simp only [hz, ne_eq, not_false_eq_true, ↓reduceIte, Option.some_or, Option.map_some]

theorem length_flatten_blocks {width : ℕ} (blocks : List (List α))
    (h : ∀ b ∈ blocks, b.length = width) : blocks.flatten.length = blocks.length * width := by
  induction blocks with
  | nil => simp
  | cons block blocks ih =>
    rw [List.flatten_cons, List.length_append, h block (List.mem_cons_self ..),
      ih (fun b hb => h b (List.mem_cons_of_mem _ hb)), List.length_cons, Nat.succ_mul,
      Nat.add_comm]

/-- **Searching by blocks** finds what a search letter by letter does. -/
theorem findBlocks_eq (p : α → Bool) (width : ℕ) (l : List α) :
    findBlocks p width l = l.findIdx? p := by
  have hflat : (Words.chunks width l).1.flatten ++ (Words.chunks width l).2 = l :=
    Words.flatten_chunks
  have hwidth : ∀ c ∈ (Words.chunks width l).1, c.length = width :=
    fun c hc => Words.length_of_mem_chunks hc
  have hblocks := findInBlocks_eq p width (Words.chunks width l).1 hwidth 0
  simp only [Nat.zero_mul, Nat.zero_add, Option.map_id'] at hblocks
  conv_rhs => rw [← hflat, List.findIdx?_append, length_flatten_blocks _ hwidth, ← hblocks]
  change (match findInBlocks p width 0 (Words.chunks width l).1 with
    | some i => some i
    | none => _) = _
  rcases hfind : findInBlocks p width 0 (Words.chunks width l).1 with _ | i
  · rw [Option.none_or]
    show Option.map _ _ = Option.map _ _
    congr 1
    funext i
    exact Nat.add_comm _ _
  · rfl

end Mask
