/-
  Periods of a word, its maximal suffix and its critical factorization: why
  matching a word from its critical position outwards misses no occurrence.

  A word is a function of the position with a length, and suffixes are named by
  where they begin.

  * `Below`: the suffix at one position is smaller than at another, by the first
    letter in which they differ;
  * `Scan`: the invariant of the scan for the maximal suffix, with one lemma for
    each of its steps, and `Scan.exit`, what it has found;
  * `Critical`: a position at which a local repetition is a period of the word,
    and `Critical.of_suffixes`, the larger of the two maximal suffixes is one;
  * `Critical.right_mismatch`, `left_mismatch_short` and `left_mismatch_long`:
    the positions that a mismatch rules out.
-/
import Mathlib.Order.RelClasses
import Mathlib.Tactic.Common
import Mathlib.Tactic.Ring

namespace TwoWay

variable {α : Type*}

/-! ## Periods -/

/-- From position `l` on, letters at distance `s` are equal. -/
def PeriodFrom (x : ℕ → α) (n l s : ℕ) : Prop := ∀ i, l ≤ i → i + s < n → x i = x (i + s)

/-- A repetition of length `s` around position `l`, as far as the word reaches. -/
def Repeats (x : ℕ → α) (n l s : ℕ) : Prop :=
  ∀ j < s, s ≤ l + j → l + j < n → x (l + j - s) = x (l + j)

/-- The word occurs in `y`, of length `m`, at `b`. -/
def Occurs (x : ℕ → α) (n : ℕ) (y : ℕ → α) (m b : ℕ) : Prop := b + n ≤ m ∧ ∀ i < n, x i = y (b + i)

variable {x : ℕ → α} {n : ℕ}

theorem PeriodFrom.mono {l l' s : ℕ} (h : PeriodFrom x n l s) (hl : l ≤ l') :
    PeriodFrom x n l' s := fun i hi => h i (hl.trans hi)

/-- Letters are equal at each multiple of a period. -/
theorem PeriodFrom.mul {l s : ℕ} (h : PeriodFrom x n l s) (a : ℕ) {i : ℕ} (hi : l ≤ i)
    (hlt : i + a * s < n) : x i = x (i + a * s) := by
  induction a with
  | zero => simp
  | succ a ih =>
    rw [Nat.succ_mul] at hlt ⊢
    rw [ih (by omega), h (i + a * s) (by omega) (by omega), Nat.add_assoc]

/-! ## The order of suffixes -/

/-- The suffix at `a` is smaller than the suffix at `b`, by a letter of both. -/
def Below (lt : α → α → Prop) (x : ℕ → α) (n a b : ℕ) : Prop :=
  ∃ d, a + d < n ∧ b + d < n ∧ (∀ e < d, x (a + e) = x (b + e)) ∧ lt (x (a + d)) (x (b + d))

/-- No suffix is larger than the one at `l`: the others are smaller by a letter, or
    prefixes of it. -/
def MaximalAt (lt : α → α → Prop) (x : ℕ → α) (n l : ℕ) : Prop :=
  ∀ h < n, Below lt x n h l ∨ (l ≤ h ∧ ∀ e, h + e < n → x (h + e) = x (l + e))

section order

variable {lt : α → α → Prop}

theorem Below.trans [IsStrictTotalOrder α lt] {a b c : ℕ} (hab : Below lt x n a b) (hbc : Below lt x n b c) :
    Below lt x n a c := by
  obtain ⟨d, had, hbd, heq, hlt⟩ := hab
  obtain ⟨d', hbd', hcd', heq', hlt'⟩ := hbc
  rcases Nat.lt_trichotomy d d' with h | rfl | h
  · exact ⟨d, had, by omega, fun e he => (heq e he).trans (heq' e (he.trans h)), heq' d h ▸ hlt⟩
  · exact ⟨d, had, hcd', fun e he => (heq e he).trans (heq' e he), IsTrans.trans _ _ _ hlt hlt'⟩
  · exact ⟨d', by omega, hcd', fun e he => (heq e (he.trans h)).trans (heq' e he),
      (heq d' h).symm ▸ hlt'⟩

theorem Below.mono {n' a b : ℕ} (h : Below lt x n a b) (hn : n ≤ n') : Below lt x n' a b := by
  obtain ⟨d, had, hbd, heq, hlt⟩ := h
  exact ⟨d, by omega, by omega, heq, hlt⟩

theorem Below.asymm [IsStrictTotalOrder α lt] {a b : ℕ} (hab : Below lt x n a b) : ¬ Below lt x n b a := by
  intro hba
  obtain ⟨d, -, -, -, hlt⟩ := hab.trans hba
  exact irrefl _ hlt

/-! ## The scan for the maximal suffix -/

/-- The scan compares the letters at `pos + offset` and at `candidate + offset`: what lies
    before is a repetition of the first `period` letters of the suffix at `pos`, no
    rotation of which is as large, and the suffixes before `pos` are smaller. -/
structure Scan (lt : α → α → Prop) (x : ℕ → α) (n pos candidate offset period : ℕ) : Prop where
  offset_lt : offset < period
  blocks : ∃ m, 0 < m ∧ candidate = pos + m * period
  bound : candidate + offset ≤ n
  repeated : PeriodFrom x (candidate + offset) pos period
  rotations : ∀ b, 0 < b → b < period → Below lt x (pos + period) (pos + b) pos
  before : ∀ h < pos, Below lt x n h pos

theorem Scan.start (hn : 0 < n) : Scan lt x n 0 1 0 1 where
  offset_lt := Nat.one_pos
  blocks := ⟨1, Nat.one_pos, rfl⟩
  bound := hn
  repeated := fun _ _ h => by omega
  rotations := fun _ _ h => by omega
  before := nofun

section scan

variable {pos candidate offset period : ℕ}

theorem Scan.period_le (s : Scan lt x n pos candidate offset period) : pos + period ≤ candidate := by
  obtain ⟨m, hm, hj⟩ := s.blocks
  have := Nat.le_mul_of_pos_left period hm
  omega

theorem Scan.pos_lt (s : Scan lt x n pos candidate offset period) : pos < candidate := by
  have := s.period_le
  have := s.offset_lt
  omega

/-- The letters behind the candidate repeat those behind the position. -/
theorem Scan.letters (s : Scan lt x n pos candidate offset period) {e : ℕ} (he : e < offset) :
    x (pos + e) = x (candidate + e) := by
  obtain ⟨m, hm, hj⟩ := s.blocks
  rw [s.repeated.mul m (Nat.le_add_right pos e) (by omega)]
  congr 1
  omega

/-- A later suffix is smaller by a letter that has been compared, or it agrees with the
    suffix at the position as far as letters have been compared, and its next letter is
    compared with one that is at least the current one. -/
theorem Scan.inside (s : Scan lt x n pos candidate offset period) {h : ℕ} (hpos : pos < h)
    (hle : h ≤ candidate + offset) :
    Below lt x (candidate + offset) h pos ∨
      (∀ e, h + e < candidate + offset → x (h + e) = x (pos + e)) ∧
        (x (pos + offset) = x (pos + (candidate + offset - h)) ∨
          lt (x (pos + offset)) (x (pos + (candidate + offset - h)))) := by
  have hk := s.offset_lt
  obtain ⟨m, hm, hj⟩ := s.blocks
  obtain ⟨a, r, hr, hh⟩ : ∃ a r, r < period ∧ h = pos + r + a * period :=
    ⟨(h - pos) / period, (h - pos) % period, Nat.mod_lt _ (by omega), by
      have := Nat.div_add_mod (h - pos) period
      rw [Nat.mul_comm] at this
      omega⟩
  have ham : a ≤ m := by
    by_contra hlt
    have := Nat.mul_le_mul_right period (show m + 1 ≤ a by omega)
    rw [Nat.succ_mul] at this
    omega
  -- a letter of the suffix at `h` is the letter one block or more before it
  have hblock : ∀ e, h + e < candidate + offset → x (h + e) = x (pos + r + e) := by
    intro e he
    rw [s.repeated.mul a (show pos ≤ pos + r + e by omega) (by omega)]
    congr 1
    omega
  rcases Nat.eq_zero_or_pos r with rfl | hr0
  · have ha : 0 < a := Nat.pos_of_ne_zero fun ha => by
      subst ha
      omega
    refine Or.inr ⟨fun e he => hblock e he, Or.inl ?_⟩
    have hsplit : (m - a) * period + a * period = m * period := by
      rw [← Nat.add_mul, Nat.sub_add_cancel ham]
    have hge := Nat.le_mul_of_pos_left period ha
    rw [s.repeated.mul (m - a) (Nat.le_add_right pos offset) (by omega)]
    congr 1
    omega
  · obtain ⟨d, hrd, -, heq, hlt⟩ := s.rotations r hr0 hr
    by_cases hd : h + d < candidate + offset
    · refine Or.inl ⟨d, hd, by omega, fun e he => ?_, hblock d hd ▸ hlt⟩
      rw [hblock e (by omega), heq e he]
    · have ha : a = m := by
        by_contra hne
        have := Nat.mul_le_mul_right period (show a + 1 ≤ m by omega)
        rw [Nat.succ_mul] at this
        omega
      subst ha
      refine Or.inr ⟨fun e he => (hblock e he).trans (heq e (by omega)), ?_⟩
      rw [show pos + offset = pos + r + (candidate + offset - h) by omega]
      rcases Nat.lt_or_ge (candidate + offset - h) d with hlt' | hge
      · exact Or.inl (heq _ hlt')
      · rw [show candidate + offset - h = d by omega]
        exact Or.inr hlt

/-- The next letter is smaller: all that has been compared is a new period. -/
theorem Scan.smaller [IsStrictTotalOrder α lt] (s : Scan lt x n pos candidate offset period)
    (hlt : candidate + offset < n) (h : lt (x (candidate + offset)) (x (pos + offset))) :
    Scan lt x n pos (candidate + (offset + 1)) 0 (candidate + (offset + 1) - pos) := by
  have hposlt := s.pos_lt
  refine ⟨by omega, ⟨1, Nat.one_pos, by omega⟩, hlt, fun e _ _ => by omega, ?_, s.before⟩
  intro b hb hbp
  have hbelow := s.inside (show pos < pos + b by omega) (by omega)
  rcases hbelow with hbelow | ⟨hagree, hcur⟩
  · exact hbelow.mono (by omega)
  · refine ⟨candidate + offset - (pos + b), by omega, by omega, fun e he => hagree e (by omega), ?_⟩
    rw [show pos + b + (candidate + offset - (pos + b)) = candidate + offset by omega]
    rcases hcur with hcur | hcur
    · exact hcur ▸ h
    · exact IsTrans.trans _ _ _ h hcur

theorem Scan.extend (s : Scan lt x n pos candidate offset period)
    (h : x (candidate + offset) = x (pos + offset)) :
    PeriodFrom x (candidate + offset + 1) pos period := by
  obtain ⟨m, hm, hj⟩ := s.blocks
  intro e he hlt
  rcases Nat.lt_or_ge (e + period) (candidate + offset) with hin | hlast
  · exact s.repeated e he hin
  · have hmul : m * period = (m - 1) * period + period := by
      rw [← Nat.succ_mul, Nat.succ_eq_add_one, Nat.sub_add_cancel hm]
    have hk := s.offset_lt
    rw [show e + period = candidate + offset by omega, h,
      s.repeated.mul (m - 1) (Nat.le_add_right pos offset) (by omega)]
    congr 1
    omega

/-- The letters are equal, within the period. -/
theorem Scan.equal (s : Scan lt x n pos candidate offset period) (hlt : candidate + offset < n)
    (h : x (candidate + offset) = x (pos + offset)) (hk : offset + 1 ≠ period) :
    Scan lt x n pos candidate (offset + 1) period := by
  have := s.offset_lt
  exact ⟨by omega, s.blocks, hlt, s.extend h, s.rotations, s.before⟩

/-- The letters are equal, and one more period is complete. -/
theorem Scan.wrap (s : Scan lt x n pos candidate offset period) (hlt : candidate + offset < n)
    (h : x (candidate + offset) = x (pos + offset)) (hk : offset + 1 = period) :
    Scan lt x n pos (candidate + (offset + 1)) 0 period := by
  obtain ⟨m, hm, hj⟩ := s.blocks
  refine ⟨by omega, ⟨m + 1, m.succ_pos, ?_⟩, hlt, s.extend h, s.rotations, s.before⟩
  rw [Nat.succ_mul]
  omega

/-- The next letter is larger: the candidate is the new position. -/
theorem Scan.larger [IsStrictTotalOrder α lt] (s : Scan lt x n pos candidate offset period)
    (hlt : candidate + offset < n) (h : lt (x (pos + offset)) (x (candidate + offset))) :
    Scan lt x n candidate (candidate + 1) 0 1 := by
  have hposlt := s.pos_lt
  have hnew : Below lt x n pos candidate :=
    ⟨offset, by omega, hlt, fun e he => s.letters he, h⟩
  refine ⟨Nat.one_pos, ⟨1, Nat.one_pos, by omega⟩, by omega, fun e _ _ => by omega,
    fun b _ _ => by omega, ?_⟩
  intro i hi
  rcases Nat.lt_trichotomy i pos with hip | rfl | hip
  · exact (s.before i hip).trans hnew
  · exact hnew
  · rcases s.inside hip (by omega) with hbelow | ⟨hagree, -⟩
    · exact (hbelow.mono hlt.le).trans hnew
    · refine ⟨offset, by omega, hlt, fun e he => ?_, ?_⟩
      · rw [hagree e (by omega), s.letters he]
      · rw [hagree offset (by omega)]
        exact h

/-- The position of a maximal suffix, with the least period of that suffix. -/
structure Suffix (lt : α → α → Prop) (x : ℕ → α) (n pos period : ℕ) : Prop where
  maximal : MaximalAt lt x n pos
  period_pos : 0 < period
  fits : pos + period ≤ n
  repeated : PeriodFrom x n pos period
  least : ∀ s, 0 < s → s < period → ¬ PeriodFrom x n pos s

/-- **What the scan finds**: where its letters end, the position is that of the maximal
    suffix and the period is the least one of that suffix. -/
theorem Scan.exit [IsStrictTotalOrder α lt] (s : Scan lt x n pos candidate offset period)
    (hn : n ≤ candidate + offset) :
    Suffix lt x n pos period := by
  obtain rfl : n = candidate + offset := Nat.le_antisymm hn s.bound
  have hp := s.offset_lt
  have hle := s.period_le
  refine ⟨fun h hh => ?_, by omega, by omega, s.repeated, fun b hb hbp hper => ?_⟩
  · rcases Nat.lt_trichotomy h pos with hlt | rfl | hgt
    · exact Or.inl (s.before h hlt)
    · exact Or.inr ⟨le_rfl, fun _ _ => rfl⟩
    · exact (s.inside hgt hh.le).imp_right fun hagree => ⟨hgt.le, hagree.1⟩
  · obtain ⟨d, hd, hd', -, hlt⟩ := s.rotations b hb hbp
    rw [hper (pos + d) (by omega) (by omega), Nat.add_right_comm] at hlt
    exact irrefl _ hlt

end scan

/-! ## Critical positions -/

/-- A position around which each repetition is a period of the whole word, with the least
    period of what is behind it. -/
structure Critical (x : ℕ → α) (n pos period : ℕ) : Prop where
  period_pos : 0 < period
  fits : pos + period ≤ n
  repeated : PeriodFrom x n pos period
  least : ∀ s, 0 < s → s < period → ¬ PeriodFrom x n pos s
  global : ∀ s, 0 < s → Repeats x n pos s → pos < s ∧ PeriodFrom x n 0 s

section critical

variable {l l' p : ℕ}

/-- A repetition around the position of a maximal suffix is longer than what is before it. -/
theorem Suffix.lt_of_repeats [IsStrictTotalOrder α lt] (h : Suffix lt x n l p) {s : ℕ}
    (hs : 0 < s) (hrep : Repeats x n l s) : l < s := by
  by_contra hle
  have hfits := h.fits
  have hp := h.period_pos
  -- the suffix `s` letters earlier is smaller: neither in the repetition nor behind it
  rcases h.maximal (l - s) (by omega) with ⟨d, hd, hd', heq, hlt⟩ | ⟨hge, -⟩
  · rcases Nat.lt_or_ge d s with hds | hds
    · rw [show l - s + d = l + d - s by omega, hrep d hds (by omega) hd'] at hlt
      exact irrefl _ hlt
    · have hback : Below lt x n l (l + s) := by
        refine ⟨d - s, by omega, by omega, fun e he => ?_, ?_⟩
        · have := heq (s + e) (by omega)
          rwa [show l - s + (s + e) = l + e by omega, ← Nat.add_assoc] at this
        · rwa [show l + (d - s) = l - s + d by omega, show l + s + (d - s) = l + d by omega]
      rcases h.maximal (l + s) (by omega) with hbelow | ⟨-, hagree⟩
      · exact hback.asymm hbelow
      · obtain ⟨d, -, hd, -, hlt⟩ := hback
        rw [hagree d hd] at hlt
        exact irrefl _ hlt
  · omega

/-- **Critical factorization**: of the maximal suffixes for an order and for its reverse, the
    shorter one begins at a critical position. -/
theorem Critical.of_suffixes [IsStrictTotalOrder α lt] {p' : ℕ} (h : Suffix lt x n l p)
    (h' : Suffix (Function.swap lt) x n l' p') (hle : l' ≤ l) : Critical x n l p := by
  refine ⟨h.period_pos, h.fits, h.repeated, h.least, fun s hs hrep => ?_⟩
  have hls := h.lt_of_repeats hs hrep
  have hfront : ∀ i < l, i + s < n → x i = x (i + s) := by
    intro i hi hlt
    have := hrep (i + s - l) (by omega) (by omega) (by omega)
    rwa [show l + (i + s - l) - s = i by omega, show l + (i + s - l) = i + s by omega] at this
  refine ⟨hls, fun i _ hlt => ?_⟩
  rcases Nat.lt_or_ge i l with hi | hi
  · exact hfront i hi hlt
  rcases h.maximal (l + s) (by omega) with ⟨d, hd, hd', heq, hlt'⟩ | ⟨-, hagree⟩
  · -- the letter that makes the suffix at `l + s` smaller makes the one at `l' + s` larger
    exfalso
    have hback : Below (Function.swap lt) x n l' (l' + s) := by
      refine ⟨l - l' + d, by omega, by omega, fun e he => ?_, ?_⟩
      · rcases Nat.lt_or_ge (l' + e) l with hel | hel
        · rw [hfront (l' + e) hel (by omega), Nat.add_right_comm]
        · have := heq (l' + e - l) (by omega)
          rw [show l + s + (l' + e - l) = l' + s + e by omega,
            show l + (l' + e - l) = l' + e by omega] at this
          exact this.symm
      · rw [show l' + (l - l' + d) = l + d by omega,
          show l' + s + (l - l' + d) = l + s + d by omega]
        exact hlt'
    rcases h'.maximal (l' + s) (by omega) with hbelow | ⟨-, hagree⟩
    · exact hback.asymm hbelow
    · obtain ⟨d, -, hd, -, hlt⟩ := hback
      rw [hagree d hd] at hlt
      exact irrefl _ hlt
  · have := hagree (i - l) (by omega)
    rw [show l + s + (i - l) = i + s by omega, show l + (i - l) = i by omega] at this
    exact this.symm

end critical

end order

/-! ## Matching from a critical position -/

section matching

variable {y : ℕ → α} {m pos period base : ℕ}

/-- An occurrence a little later repeats the letters that match here. -/
theorem Occurs.repeats {s i : ℕ} (h : Occurs x n y m (base + s))
    (hmatch : ∀ j, pos ≤ j → j < i → x j = y (base + j)) (hsi : pos + s ≤ i ∨ i = n) :
    Repeats x n pos s := by
  intro j hj hge hlt
  rw [h.2 (pos + j - s) (by omega), hmatch (pos + j) (by omega) (by omega)]
  congr 1
  omega

/-- A mismatch behind the critical position rules out the shifts up to it. -/
theorem Critical.right_mismatch (h : Critical x n pos period) {i s : ℕ} (hi : i < n)
    (hmatch : ∀ j, pos ≤ j → j < i → x j = y (base + j)) (hne : x i ≠ y (base + i))
    (hs : s ≤ i - pos) : ¬ Occurs x n y m (base + s) := by
  intro hocc
  rcases Nat.eq_zero_or_pos s with rfl | hpos
  · exact hne (hocc.2 i hi)
  · have hper := (h.global s hpos (hocc.repeats hmatch (Or.inl (by omega)))).2
    have heq := hper (i - s) (Nat.zero_le _) (by omega)
    rw [hocc.2 (i - s) (by omega), show i - s + s = i by omega,
      show base + s + (i - s) = base + i by omega] at heq
    exact hne heq.symm

/-- Where all letters behind the critical position match, no shift below the least period of
    them does. -/
theorem Critical.left_mismatch_short (h : Critical x n pos period) {s : ℕ} (hpos : 0 < s)
    (hmatch : ∀ j, pos ≤ j → j < n → x j = y (base + j)) (hs : s < period) :
    ¬ Occurs x n y m (base + s) := by
  intro hocc
  have hper := (h.global s hpos (hocc.repeats hmatch (Or.inr rfl))).2
  exact h.least s hpos hs (hper.mono (Nat.zero_le _))

/-- The least period behind the critical position is one of the word when some period of the
    word fits there. -/
theorem Critical.period_of_fits (h : Critical x n pos period) {s : ℕ} (hpos : 0 < s)
    (hper : PeriodFrom x n 0 s) (hs : pos + s ≤ n) : PeriodFrom x n 0 period := by
  have hp := h.period_pos
  -- what is left of `s` by the period, in the range from one to the period
  obtain ⟨a, q, hq0, hqp, hsq⟩ : ∃ a q, 0 < q ∧ q ≤ period ∧ s = q + a * period := by
    refine ⟨(s - 1) / period, (s - 1) % period + 1, Nat.succ_pos _, Nat.mod_lt _ hp, ?_⟩
    have := Nat.div_add_mod (s - 1) period
    rw [Nat.mul_comm] at this
    omega
  have hrep : Repeats x n pos q := by
    intro j hj hge hlt
    rw [hper (pos + j - q) (Nat.zero_le _) (by omega),
      h.repeated.mul a (Nat.le_add_right pos j) (by omega)]
    congr 1
    omega
  obtain ⟨-, hglobal⟩ := h.global q hq0 hrep
  rcases Nat.lt_or_ge q period with hlt | hge
  · exact absurd (hglobal.mono (Nat.zero_le _)) (h.least q hq0 hlt)
  · rwa [Nat.le_antisymm hqp hge] at hglobal

/-- Where the period behind the critical position is not one of the word, a match of all
    letters behind it rules out the shifts up to the longer side. -/
theorem Critical.left_mismatch_long (h : Critical x n pos period)
    (hlong : ¬ PeriodFrom x n 0 period) {s : ℕ} (hpos : 0 < s)
    (hmatch : ∀ j, pos ≤ j → j < n → x j = y (base + j)) (hs : s ≤ max pos (n - pos)) :
    ¬ Occurs x n y m (base + s) := by
  intro hocc
  have hfits := h.fits
  obtain ⟨hlt, hper⟩ := h.global s hpos (hocc.repeats hmatch (Or.inr rfl))
  exact hlong (h.period_of_fits hpos hper (by omega))

/-- What is known of the next alignment after a shift by the period of the word. -/
theorem Critical.memory (h : Critical x n pos period) (hshort : PeriodFrom x n 0 period)
    (hmatch : ∀ j, pos ≤ j → j < n → x j = y (base + j)) {j : ℕ} (hj : j < n - period) :
    x j = y (base + period + j) := by
  have hrep : Repeats x n pos period := by
    intro e he hge hlt
    rw [hshort (pos + e - period) (Nat.zero_le _) (by omega)]
    congr 1
    omega
  obtain ⟨hlt, -⟩ := h.global period h.period_pos hrep
  rw [hshort j (Nat.zero_le _) (by omega), hmatch (j + period) (by omega) (by omega)]
  congr 1
  omega

end matching

end TwoWay
