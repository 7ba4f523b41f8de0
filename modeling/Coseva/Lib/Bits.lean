/-
  Machine words as sets of positions: the lowest position of a word, the positions
  below it and above it, and the parity of the positions up to each one.

  * `getLsbD_lowest`, `getLsbD_lowest_sub_one`, `getLsbD_clearLowest`: the positions of
    `x & -x`, of `(x & -x) - 1` and of `x & (x - 1)`;
  * `parityBefore`: the parity of the positions below one, and `getLsbD_parity64`, that
    six shifts compute it for a word of 64 bits;
  * `ofMask`: the word of a list's letters that satisfy a test.
-/
import Coseva.Lib.Mask

namespace Bits

variable {w : ℕ}

/-! ## The lowest position -/

theorem getLsbD_sub_one (x : BitVec w) (i : ℕ) :
    (x - 1#w).getLsbD i = (decide (i < w) && !(x.getLsbD i ^^ decide (∃ j < i, x.getLsbD j = true))) := by
  have hnot : ~~~(x - 1#w) = -x := by rw [BitVec.not_sub_one_eq_not_add_one, BitVec.neg_eq_not_add]
  have hbit := congrArg (fun y : BitVec w => y.getLsbD i) hnot
  simp only [BitVec.getLsbD_not, BitVec.getLsbD_neg] at hbit
  by_cases hi : i < w
  · simp only [hi, decide_true, Bool.true_and] at hbit ⊢
    rw [← hbit, Bool.not_not]
  · simp only [hi, decide_false, Bool.false_and]
    exact BitVec.getLsbD_of_ge _ _ (Nat.le_of_not_lt hi)

variable {x : BitVec w}

/-- Below a position that has no lower ones, and only there, no position is lower. -/
theorem ctz_le_iff (hx : x ≠ 0#w) {i : ℕ} :
    (∃ j < i, x.getLsbD j = true) ↔ x.ctz.toNat < i := by
  constructor
  · rintro ⟨j, hj, hset⟩
    refine lt_of_le_of_lt (Nat.le_of_not_lt fun hlt => ?_) hj
    rw [BitVec.getLsbD_false_of_lt_ctz hlt] at hset
    cases hset
  · exact fun hlt => ⟨_, hlt, BitVec.getLsbD_true_ctz_of_ne_zero hx⟩

theorem ctz_lt (hx : x ≠ 0#w) : x.ctz.toNat < w := by
  have := BitVec.getLsbD_true_ctz_of_ne_zero hx
  exact BitVec.lt_of_getLsbD this

theorem ctz_le_of_getLsbD {i : ℕ} (h : x.getLsbD i = true) : x.ctz.toNat ≤ i :=
  Nat.le_of_not_lt fun hlt => by
    rw [BitVec.getLsbD_false_of_lt_ctz hlt] at h
    cases h

/-- `x & -x` is the lowest position. -/
theorem getLsbD_lowest (hx : x ≠ 0#w) (i : ℕ) :
    (x &&& -x).getLsbD i = decide (i = x.ctz.toNat) := by
  have hset := BitVec.getLsbD_true_ctz_of_ne_zero hx
  rw [BitVec.getLsbD_and, BitVec.getLsbD_neg]
  simp only [ctz_le_iff hx]
  rcases Nat.lt_trichotomy i x.ctz.toNat with hlt | rfl | hgt
  · rw [BitVec.getLsbD_false_of_lt_ctz hlt, decide_eq_false hlt.ne, Bool.false_and]
  · rw [hset, decide_eq_true (ctz_lt hx), decide_eq_false (lt_irrefl _)]
    simp
  · rw [decide_eq_false hgt.ne', decide_eq_true hgt]
    cases hi : x.getLsbD i with
    | false => rfl
    | true => rw [decide_eq_true (BitVec.lt_of_getLsbD hi)]; rfl

/-- Below a single position. -/
theorem getLsbD_sub_one_of_single {k : ℕ} (hk : k < w) (h : ∀ i, x.getLsbD i = decide (i = k)) (i : ℕ) :
    (x - 1#w).getLsbD i = decide (i < k) := by
  have hlower : (∃ j < i, x.getLsbD j = true) ↔ k < i := by simp [h]
  rw [getLsbD_sub_one, h]
  simp only [hlower]
  rcases Nat.lt_trichotomy i k with hlt | rfl | hgt
  · simp [hlt, hlt.ne, hlt.le.not_gt, hlt.trans hk]
  · simp [hk]
  · simp [hgt, hgt.ne', hgt.le.not_gt]

/-- `(x & -x) - 1` is all positions below the lowest one. -/
theorem getLsbD_lowest_sub_one (hx : x ≠ 0#w) (i : ℕ) :
    ((x &&& -x) - 1#w).getLsbD i = decide (i < x.ctz.toNat) :=
  getLsbD_sub_one_of_single (ctz_lt hx) (getLsbD_lowest hx) i

/-- `x & (x - 1)` is all positions but the lowest one. -/
theorem getLsbD_clearLowest (hx : x ≠ 0#w) (i : ℕ) :
    (x &&& (x - 1#w)).getLsbD i = (x.getLsbD i && decide (x.ctz.toNat < i)) := by
  rw [BitVec.getLsbD_and, getLsbD_sub_one]
  simp only [ctz_le_iff hx]
  cases hset : x.getLsbD i with
  | false => rfl
  | true => simp [BitVec.lt_of_getLsbD hset]

theorem eq_zero_iff : x = 0#w ↔ ∀ i, x.getLsbD i = false := by
  refine ⟨fun h i => (by rw [h, BitVec.getLsbD_zero]), fun h => ?_⟩
  refine BitVec.eq_of_getLsbD_eq fun i _ => ?_
  rw [h i, BitVec.getLsbD_zero]

theorem getLsbD_one_shiftLeft {k : ℕ} (hk : k < w) (i : ℕ) : (1#w <<< k).getLsbD i = decide (i = k) := by
  rw [← BitVec.twoPow_eq, BitVec.getLsbD_twoPow]
  by_cases hi : i = k
  · simp [hi, hk]
  · simp [hi, Ne.symm hi]

/-- The two words share all positions of the second one. -/
theorem and_eq_right_iff {y : BitVec w} :
    x &&& y = y ↔ ∀ i, y.getLsbD i = true → x.getLsbD i = true := by
  constructor
  · intro h i hi
    rw [← h, BitVec.getLsbD_and, Bool.and_eq_true] at hi
    exact hi.1
  · intro h
    refine BitVec.eq_of_getLsbD_eq fun i _ => ?_
    rw [BitVec.getLsbD_and]
    cases hi : y.getLsbD i with
    | false => rw [Bool.and_false]
    | true => rw [h i hi, Bool.and_true]

/-! ## Parity -/

/-- The parity of the positions below `i`. -/
def parityBefore (f : ℕ → Bool) : ℕ → Bool
  | 0 => false
  | i + 1 => parityBefore f i ^^ f i

/-- Where no position is set, the parity stays. -/
theorem parityBefore_eq {f : ℕ → Bool} {a b : ℕ} (hle : a ≤ b)
    (h : ∀ k, a ≤ k → k < b → f k = false) : parityBefore f b = parityBefore f a := by
  induction b, hle using Nat.le_induction with
  | base => rfl
  | succ b hle ih =>
    rw [parityBefore, h b hle (Nat.lt_succ_self b), Bool.xor_false]
    exact ih fun k hk hlt => h k hk (hlt.trans (Nat.lt_succ_self b))

/-- The word has, at each position, the parity of the last `n` positions up to it. -/
def ParityOf (f : ℕ → Bool) (n : ℕ) (x : BitVec w) : Prop :=
  ∀ i < w, x.getLsbD i = (parityBefore f (i + 1) ^^ parityBefore f (i + 1 - n))

theorem parityOf_one : ParityOf x.getLsbD 1 x := by
  intro i _
  rw [Nat.add_sub_cancel, parityBefore]
  cases parityBefore x.getLsbD i <;> simp

/-- One shift doubles how far back the parity reaches. -/
theorem ParityOf.double {f : ℕ → Bool} {n : ℕ} {x : BitVec w} (h : ParityOf f n x) :
    ParityOf f (n + n) (x ^^^ (x <<< n)) := by
  intro i hi
  rw [BitVec.getLsbD_xor, BitVec.getLsbD_shiftLeft, h i hi]
  by_cases hlt : i < n
  · rw [show i + 1 - (n + n) = 0 by omega, show i + 1 - n = 0 by omega]
    simp [hlt]
  · rw [h (i - n) (by omega), show i - n + 1 = i + 1 - n by omega,
      show i + 1 - n - n = i + 1 - (n + n) by omega]
    simp only [hi, hlt, decide_true, decide_false, Bool.not_false, Bool.true_and]
    cases parityBefore f (i + 1 - n) <;> simp

/-- Six shifts reach back over a word of 64 bits. -/
theorem ParityOf.whole {f : ℕ → Bool} {x : BitVec w} (h : ParityOf f w x) {i : ℕ} (hi : i < w) :
    x.getLsbD i = parityBefore f (i + 1) := by
  rw [h i hi, show i + 1 - w = 0 by omega, parityBefore, Bool.xor_false]

/-! ## Words of lists -/

variable {α : Type*}

theorem testBit_mask (p : α → Bool) (l : List α) (i : ℕ) :
    (Mask.mask p l).testBit i = l[i]?.any p := by
  induction l generalizing i with
  | nil => simp [Mask.mask]
  | cons a l ih =>
    cases i with
    | zero => cases h : p a <;> simp [Mask.mask, h]
    | succ i =>
      have hhalf : ((p a).toNat + 2 * Mask.mask p l) / 2 = Mask.mask p l := by
        have := Bool.toNat_le (p a)
        omega
      rw [Mask.mask, Nat.testBit_succ, hhalf, ih, List.getElem?_cons_succ]

/-- The word of the letters that satisfy a test, the first letter in the lowest bit. -/
def ofMask (w : ℕ) (p : α → Bool) (l : List α) : BitVec w := BitVec.ofNat w (Mask.mask p l)

theorem getLsbD_ofMask (p : α → Bool) (l : List α) (i : ℕ) :
    (ofMask w p l).getLsbD i = (decide (i < w) && l[i]?.any p) := by
  rw [ofMask, BitVec.getLsbD_ofNat, testBit_mask]

end Bits
