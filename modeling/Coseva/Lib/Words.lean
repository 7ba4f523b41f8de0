/-
  Bytes packed into words — the scan for a byte that reads several bytes of a
  buffer as one unsigned integer.

  * `ofBytes`: the little-endian word of a list of bytes;
  * `zeroMask`: the mask whose bits mark the zero bytes of a word (the lowest
    one exactly, the others up to borrows);
  * `zeroMask_ne_zero`: the mask is non-zero iff some byte is zero, and
    `zeroMask_xor_ne_zero`: xored with a repeated byte, iff that byte occurs;
  * `chunks`: a list cut into whole chunks and a remainder, and `any_chunks`.
-/
import Mathlib.Data.Nat.Bitwise
import Mathlib.Tactic.Ring
import Mathlib.Tactic.IntervalCases

namespace Words

/-! ## Words of bytes -/

/-- The word of `bs`, least significant byte first. -/
def ofBytes : List UInt8 → ℕ
  | [] => 0
  | b :: bs => b.toNat + 256 * ofBytes bs

/-- The word of `n` bytes that are all one. -/
def ones : ℕ → ℕ
  | 0 => 0
  | n + 1 => 1 + 256 * ones n

theorem ofBytes_lt (bs : List UInt8) : ofBytes bs < 256 ^ bs.length := by
  induction bs with
  | nil => simp [ofBytes]
  | cons b bs ih =>
    have := b.toNat_lt
    simp only [ofBytes, List.length_cons, pow_succ]; omega

theorem ones_lt (n : ℕ) : ones n < 256 ^ n := by
  induction n with
  | zero => simp [ones]
  | succ n ih => simp only [ones, pow_succ]; omega

theorem ofBytes_replicate (n : ℕ) (b : UInt8) :
    ofBytes (List.replicate n b) = ones n * b.toNat := by
  induction n with
  | zero => simp [ofBytes, ones]
  | succ n ih => simp only [List.replicate_succ, ofBytes, ih, ones]; ring

/-! ## Bitwise operations act byte by byte -/

theorem testBit_add {a : ℕ} (A j : ℕ) (ha : a < 256) :
    (a + 256 * A).testBit j = if j < 8 then a.testBit j else A.testBit (j - 8) := by
  rw [Nat.add_comm]; exact Nat.testBit_two_pow_mul_add (i := 8) A ha j

theorem land_add {a b : ℕ} (A B : ℕ) (ha : a < 256) (hb : b < 256) :
    (a + 256 * A) &&& (b + 256 * B) = (a &&& b) + 256 * (A &&& B) := by
  have hab : a &&& b < 256 := Nat.and_lt_two_pow (n := 8) a hb
  apply Nat.eq_of_testBit_eq; intro j
  rw [Nat.testBit_and, testBit_add A j ha, testBit_add B j hb, testBit_add _ j hab]
  split_ifs <;> simp

theorem xor_add {a b : ℕ} (A B : ℕ) (ha : a < 256) (hb : b < 256) :
    (a + 256 * A) ^^^ (b + 256 * B) = (a ^^^ b) + 256 * (A ^^^ B) := by
  have hab : a ^^^ b < 256 := Nat.xor_lt_two_pow (n := 8) ha hb
  apply Nat.eq_of_testBit_eq; intro j
  rw [Nat.testBit_xor, testBit_add A j ha, testBit_add B j hb, testBit_add _ j hab]
  split_ifs <;> simp

theorem ofBytes_xor (as bs : List UInt8) (h : as.length = bs.length) :
    ofBytes (List.zipWith (· ^^^ ·) as bs) = ofBytes as ^^^ ofBytes bs := by
  induction as generalizing bs with
  | nil => cases bs <;> simp_all [ofBytes]
  | cons a as ih =>
    cases bs with
    | nil => simp at h
    | cons b bs =>
      simp only [List.length_cons, Nat.add_right_cancel_iff] at h
      simp only [List.zipWith_cons_cons, ofBytes, ih bs h, UInt8.toNat_xor]
      rw [xor_add _ _ a.toNat_lt b.toNat_lt]

/-! ## The mask of zero bytes -/

/-- Of an `n`-byte word, `(w - ones) & !w & highs`, in wrapping arithmetic. -/
def zeroMask (n w : ℕ) : ℕ :=
  ((w + 256 ^ n - ones n) % 256 ^ n) &&& (256 ^ n - 1 - w) &&& (ones n * 128)

/-- A non-zero lowest byte borrows nothing and leaves no bit in the mask. -/
theorem zeroMask_cons_pos {n b W : ℕ} (hb : 0 < b) (hb' : b < 256) (hW : W < 256 ^ n) :
    zeroMask (n + 1) (b + 256 * W) = 256 * zeroMask n W := by
  have h1 := ones_lt n
  have hsub : (b + 256 * W + 256 ^ (n + 1) - ones (n + 1)) % 256 ^ (n + 1) =
      (b - 1) + 256 * ((W + 256 ^ n - ones n) % 256 ^ n) := by
    have he : b + 256 * W + 256 ^ (n + 1) - ones (n + 1) =
        (b - 1) + 256 * (W + 256 ^ n - ones n) := by
      simp only [ones, pow_succ]; omega
    rw [he, pow_succ, Nat.mul_comm (256 ^ n), Nat.mod_mul, Nat.add_mul_mod_self_left,
      Nat.add_mul_div_left _ _ (by omega), Nat.mod_eq_of_lt (show b - 1 < 256 by omega),
      Nat.div_eq_of_lt (show b - 1 < 256 by omega), Nat.zero_add]
  have hnot : 256 ^ (n + 1) - 1 - (b + 256 * W) = (255 - b) + 256 * (256 ^ n - 1 - W) := by
    rw [pow_succ]; omega
  have hhigh : ones (n + 1) * 128 = 128 + 256 * (ones n * 128) := by simp only [ones]; ring
  have hbyte : (b - 1) &&& (255 - b) &&& 128 = 0 := by
    interval_cases b <;> decide
  have hand : (b - 1) &&& (255 - b) < 256 := Nat.and_lt_two_pow (n := 8) _ (by omega)
  simp only [zeroMask, hsub, hnot, hhigh]
  rw [land_add _ _ (by omega) (by omega), land_add _ _ hand (by omega), hbyte, Nat.zero_add]

/-- A zero lowest byte sets its bit. -/
theorem zeroMask_cons_zero {n W : ℕ} (hW : W < 256 ^ n) :
    (zeroMask (n + 1) (256 * W)).testBit 7 = true := by
  have h1 := ones_lt n
  have he : 256 * W + 256 ^ (n + 1) - ones (n + 1) = 255 + 256 * (W + 256 ^ n - ones n - 1) := by
    simp only [ones, pow_succ]; omega
  have hsub : ((256 * W + 256 ^ (n + 1) - ones (n + 1)) % 256 ^ (n + 1)).testBit 7 = true := by
    rw [show (256 : ℕ) ^ (n + 1) = 2 ^ (8 * n + 8) by rw [show (256 : ℕ) = 2 ^ 8 by rfl, ← pow_mul]; ring_nf] at *
    rw [Nat.testBit_mod_two_pow, he, testBit_add _ _ (by omega)]
    simp only [show 7 < 8 * n + 8 by omega, show 7 < 8 by omega, decide_true, Bool.true_and,
      if_true]
    decide
  have hnot : 256 ^ (n + 1) - 1 - 256 * W = 255 + 256 * (256 ^ n - 1 - W) := by
    rw [pow_succ]; omega
  have hhigh : ones (n + 1) * 128 = 128 + 256 * (ones n * 128) := by simp only [ones]; ring
  rw [zeroMask, Nat.testBit_and, Nat.testBit_and, hsub, hnot, hhigh,
    testBit_add _ _ (by omega), testBit_add _ _ (by omega)]
  simp only [show 7 < 8 by omega, if_true]; decide

/-- **The mask is non-zero iff some byte of the word is zero.** -/
theorem zeroMask_ne_zero (bs : List UInt8) : zeroMask bs.length (ofBytes bs) ≠ 0 ↔ 0 ∈ bs := by
  induction bs with
  | nil => simp [zeroMask, ofBytes, ones]
  | cons b bs ih =>
    have hlt := ofBytes_lt bs
    rcases Nat.eq_zero_or_pos b.toNat with hb | hb
    · have hb0 : b = 0 := UInt8.toNat_inj.mp hb
      subst hb0
      have hbit := zeroMask_cons_zero hlt
      simp only [List.length_cons, ofBytes, UInt8.toNat_zero, Nat.zero_add, List.mem_cons_self, iff_true]
      intro h0; rw [h0] at hbit; simp at hbit
    · have hb0 : (0 : UInt8) ≠ b := fun h => by subst h; simp at hb
      simp only [List.length_cons, ofBytes, zeroMask_cons_pos hb b.toNat_lt hlt, List.mem_cons,
        hb0, false_or, ← ih]
      omega

/-- **The mask of a word xored with a repeated byte is non-zero iff the byte
    occurs in it.** -/
theorem zeroMask_xor_ne_zero (bs : List UInt8) (b : UInt8) :
    zeroMask bs.length (ofBytes bs ^^^ ones bs.length * b.toNat) ≠ 0 ↔ b ∈ bs := by
  have hzip : List.zipWith (· ^^^ ·) bs (List.replicate bs.length b) = bs.map (· ^^^ b) := by
    apply List.ext_getElem <;> simp
  have hmask := zeroMask_ne_zero (bs.map (· ^^^ b))
  rw [List.length_map] at hmask
  rw [← ofBytes_replicate, ← ofBytes_xor _ _ (by simp), hzip, hmask]
  simp

/-! ## Chunks -/

/-- `xs` cut into its whole chunks of `n` elements and what is left over. -/
def chunks {α : Type*} (n : ℕ) (xs : List α) : List (List α) × List α :=
  ((List.range (xs.length / n)).map fun i => (xs.drop (n * i)).take n,
    xs.drop (n * (xs.length / n)))

section
variable {α : Type*} {n : ℕ} {xs : List α}

theorem length_of_mem_chunks {c : List α} (hc : c ∈ (chunks n xs).1) : c.length = n := by
  simp only [chunks, List.mem_map, List.mem_range] at hc
  obtain ⟨i, hi, rfl⟩ := hc
  have : n * i + n ≤ xs.length :=
    calc n * i + n = n * (i + 1) := by ring
      _ ≤ n * (xs.length / n) := Nat.mul_le_mul_left n hi
      _ ≤ xs.length := Nat.mul_div_le _ _
  simp only [List.length_take, List.length_drop]; omega

theorem take_append_chunks (k : ℕ) :
    ((List.range k).map fun i => (xs.drop (n * i)).take n).flatten ++ xs.drop (n * k) = xs := by
  induction k with
  | zero => simp
  | succ k ih =>
    rw [List.range_succ, List.map_append, List.flatten_append, List.append_assoc]
    conv_rhs => rw [← ih]
    simp [Nat.mul_succ, ← List.drop_drop, List.take_append_drop]

/-- The chunks and the remainder make up the list. -/
theorem flatten_chunks : (chunks n xs).1.flatten ++ (chunks n xs).2 = xs :=
  take_append_chunks _

/-- An element is found in the chunks or in the remainder iff it is in the
    list. -/
theorem any_chunks (p : α → Bool) :
    ((chunks n xs).1.any (·.any p) || (chunks n xs).2.any p) = xs.any p := by
  conv_rhs => rw [← @flatten_chunks α n xs]
  rw [List.any_append, List.any_flatten]

end

end Words
