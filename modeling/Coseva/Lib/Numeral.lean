/-
  Numerals read from the front: the value of digits in a base, accumulated digit by
  digit.

  * `accumulate`: the value so far, and `accumulate_zero`, that it ends with the value
    of the numeral;
  * `le_accumulate`: the value never falls;
  * `step_lt`: the bound that the number of digits gives.
-/
import Mathlib.Data.Nat.Digits.Lemmas

namespace Numeral

/-- The value of some digits of base `b`, behind a front of value `acc`. -/
def accumulate (b acc : ℕ) : List ℕ → ℕ
  | [] => acc
  | d :: ds => accumulate b (acc * b + d) ds

variable {b : ℕ}

theorem accumulate_eq (ds : List ℕ) : ∀ acc,
    accumulate b acc ds = acc * b ^ ds.length + Nat.ofDigits b ds.reverse := by
  induction ds with
  | nil =>
    intro acc
    simp [accumulate]
  | cons d ds ih =>
    intro acc
    rw [accumulate, ih, List.reverse_cons, Nat.ofDigits_append, Nat.ofDigits_singleton,
      List.length_reverse, List.length_cons, pow_succ]
    ring

/-- From nothing, the value of the numeral. -/
theorem accumulate_zero (ds : List ℕ) : accumulate b 0 ds = Nat.ofDigits b ds.reverse := by
  rw [accumulate_eq, Nat.zero_mul, Nat.zero_add]

theorem le_accumulate (hb : 0 < b) (ds : List ℕ) (acc : ℕ) : acc ≤ accumulate b acc ds := by
  rw [accumulate_eq]
  exact (Nat.le_mul_of_pos_right acc (pow_pos hb _)).trans (Nat.le_add_right _ _)

/-- One digit more leaves less room. -/
theorem step_lt {n acc d : ℕ} (hacc : acc < b ^ n) (hd : d < b) : acc * b + d < b ^ (n + 1) := by
  have hle : (acc + 1) * b ≤ b ^ n * b := Nat.mul_le_mul_right b hacc
  rw [Nat.add_mul, Nat.one_mul] at hle
  rw [pow_succ]
  omega

end Numeral
