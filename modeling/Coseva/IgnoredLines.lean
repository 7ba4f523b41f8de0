/-
  Coseva — the lines between records: where a comment or a blank line ends, on a
  whole input and on a window of it.

  * `LineEnd`: a record ending, for a search from a position;
  * `findRecordEnding_eq_some`, `findRecordEnding_eq_none`: the search finds the
    first one;
  * `IgnoredLine`: a comment or a blank line, from its first byte to behind its
    ending;
  * `findRecordEnding_window`, `recordEndingWidthAt_window`: a window shows the
    endings that lie in it.
-/
import Coseva.Progress

namespace Coseva

namespace Engine

/-! ## The first ending -/

section ending

variable (cfg : ParserSettings) (input : Bytes)

/-- A record ending has its leading byte at `pos`, for a search from `start`. -/
def LineEnd (start pos : ℕ) : Prop :=
  start ≤ pos ∧ input[pos]? = some cfg.dialect.recordEnding.byte ∧
    match cfg.dialect.recordEnding with
    | .newline => True
    | .crLf => start < pos ∧ input[pos - 1]? = some 13
    | .ofByte _ => cfg.dialect.endingTail.confirms (input.drop (pos + 1)) = true

variable {cfg input}

theorem byteAt_eq_iff {i : ℕ} {b : UInt8} (hb : b ≠ 0) :
    byteAt input i = b ↔ input[i]? = some b := by
  rw [byteAt, List.getD_eq_getElem?_getD]
  rcases input[i]? with _ | a
  · simp [Ne.symm hb]
  · simp

/-- The ending that a search from a later position finds too. -/
theorem LineEnd.mono {start start' pos : ℕ} (h : LineEnd cfg input start' pos)
    (hle : start ≤ start') : LineEnd cfg input start pos := by
  obtain ⟨hpos, hbyte, hconfirmed⟩ := h
  refine ⟨hle.trans hpos, hbyte, ?_⟩
  split at hconfirmed
  · trivial
  · exact ⟨lt_of_le_of_lt hle hconfirmed.1, hconfirmed.2⟩
  · exact hconfirmed

variable (cfg input) in
theorem findRecordEndingLoop_first (start : ℕ) (fuel searchStart : ℕ) (hle : start ≤ searchStart)
    (hfuel : input.length < searchStart + fuel) :
    match findRecordEndingLoop cfg input start fuel searchStart with
    | none => ∀ pos, searchStart ≤ pos → ¬ LineEnd cfg input start pos
    | some stop => ∃ pos, searchStart ≤ pos ∧ LineEnd cfg input start pos ∧
        (∀ j, searchStart ≤ j → LineEnd cfg input start j → pos ≤ j) ∧
        stop = pos + cfg.dialect.endingTail.width := by
  induction fuel generalizing searchStart with
  | zero =>
    intro pos hpos hends
    have := (List.getElem?_eq_some_iff.1 hends.2.1).1
    omega
  | succ fuel ih =>
    rw [findRecordEndingLoop]
    -- no ending leads with a byte that the search passes
    rcases hfind : find1 cfg.dialect.recordEnding.byte (input.drop searchStart) with _ | relative
    · intro pos hpos hends
      rw [find1, List.findIdx?_eq_none_iff] at hfind
      have hmem : cfg.dialect.recordEnding.byte ∈ input.drop searchStart := by
        refine List.mem_of_getElem? (i := pos - searchStart) ?_
        rw [List.getElem?_drop, Nat.add_sub_cancel' hpos]
        exact hends.2.1
      have := hfind _ hmem
      simp at this
    obtain ⟨hlt, hbyte, hbefore⟩ := List.findIdx?_eq_some_iff_getElem.1 hfind
    rw [List.length_drop] at hlt
    rw [List.getElem_drop, beq_iff_eq] at hbyte
    have hget : input[searchStart + relative]? = some cfg.dialect.recordEnding.byte := by
      rw [List.getElem?_eq_getElem (by omega), hbyte]
    have hpassed : ∀ j, searchStart ≤ j → LineEnd cfg input start j → searchStart + relative ≤ j := by
      intro j hj hends
      refine Nat.le_of_not_lt fun hlt' => ?_
      have := hbefore (j - searchStart) (by omega)
      rw [List.getElem_drop, beq_iff_eq] at this
      refine this ?_
      have hj' := hends.2.1
      rw [List.getElem?_eq_getElem (by omega)] at hj'
      simpa [Nat.add_sub_cancel' hj] using hj'
    simp only
    have hconfirm : (match cfg.dialect.recordEnding with
        | .newline => true
        | .crLf => decide (start < searchStart + relative) &&
            byteAt input (searchStart + relative - 1) == 13
        | .ofByte _ => cfg.dialect.endingTail.confirms (input.drop (searchStart + relative + 1))) =
          true ↔ LineEnd cfg input start (searchStart + relative) := by
      unfold LineEnd
      rw [hget]
      split
      · simp; omega
      · rw [Bool.and_eq_true, decide_eq_true_eq, beq_iff_eq, byteAt_eq_iff (by decide)]
        simp; omega
      · simp; omega
    split_ifs with hc
    · exact ⟨_, Nat.le_add_right _ _, hconfirm.1 hc, hpassed, rfl⟩
    · have hne : ∀ j, searchStart ≤ j → LineEnd cfg input start j → searchStart + relative + 1 ≤ j := by
        intro j hj hends
        refine Nat.lt_of_le_of_ne (hpassed j hj hends) ?_
        rintro rfl
        exact hc (hconfirm.2 hends)
      have hrest := ih (searchStart + relative + 1) (by omega) (by omega)
      rcases hrun : findRecordEndingLoop cfg input start fuel (searchStart + relative + 1) with
        _ | stop <;> rw [hrun] at hrest
      · exact fun pos hpos hends => hrest pos (hne pos hpos hends) hends
      · obtain ⟨pos, hpos, hends, hfirst, rfl⟩ := hrest
        exact ⟨pos, by omega, hends, fun j hj hj' => hfirst j (hne j hj hj') hj', rfl⟩

/-- **The search** finds the first ending. -/
theorem findRecordEnding_eq_some {start stop : ℕ} :
    findRecordEnding cfg input start = some stop ↔
      ∃ pos, LineEnd cfg input start pos ∧ (∀ j, LineEnd cfg input start j → pos ≤ j) ∧
        stop = pos + cfg.dialect.endingTail.width := by
  have hfirst := findRecordEndingLoop_first cfg input start (input.length + 1) start le_rfl (by omega)
  rw [findRecordEnding]
  rcases hrun : findRecordEndingLoop cfg input start (input.length + 1) start with _ | stop' <;>
    rw [hrun] at hfirst
  · exact ⟨nofun, fun ⟨pos, hends, _⟩ => absurd hends (hfirst pos hends.1)⟩
  · obtain ⟨pos, -, hends, hmin, rfl⟩ := hfirst
    constructor
    · rintro h
      cases h
      exact ⟨pos, hends, fun j hj => hmin j hj.1 hj, rfl⟩
    · rintro ⟨pos', hends', hmin', rfl⟩
      rw [Nat.le_antisymm (hmin pos' hends'.1 hends') (hmin' pos hends)]

theorem findRecordEnding_eq_none {start : ℕ} :
    findRecordEnding cfg input start = none ↔ ∀ pos, ¬ LineEnd cfg input start pos := by
  have hfirst := findRecordEndingLoop_first cfg input start (input.length + 1) start le_rfl (by omega)
  rw [findRecordEnding]
  rcases hrun : findRecordEndingLoop cfg input start (input.length + 1) start with _ | stop' <;>
    rw [hrun] at hfirst
  · exact ⟨fun _ pos hends => hfirst pos hends.1 hends, fun _ => rfl⟩
  · obtain ⟨pos, -, hends, -, -⟩ := hfirst
    exact ⟨nofun, fun h => absurd hends (h pos)⟩

end ending

/-! ## Ignored lines -/

section line

variable (cfg : ParserSettings) (input : Bytes)

/-- A comment begins at `pos`. -/
def CommentAt (pos : ℕ) : Prop :=
  ∃ comment, cfg.dialect.comment = some comment ∧ input[pos]? = some comment

/-- A blank line that is skipped is at `pos`. -/
def BlankAt (pos : ℕ) : Prop :=
  cfg.blankRecords = .skip ∧ ∃ width, recordEndingWidthAt cfg input pos = some width

/-- A comment or a blank line from `pos` to behind its ending at `next`. -/
def IgnoredLine (pos next : ℕ) : Prop :=
  (CommentAt cfg input pos ∨ BlankAt cfg input pos) ∧
    findRecordEnding cfg input pos = some next

variable {cfg input} (hs : cfg.dialect.Sound)

include hs in
theorem width_endingTail : cfg.dialect.endingTail.width = cfg.dialect.endingTail.asSlice.length + 1 :=
  Tail.width_eq hs.usable.2

include hs in
theorem width_line (h : cfg.dialect.recordEnding = .newline ∨ cfg.dialect.recordEnding = .crLf) :
    cfg.dialect.endingTail.width = 1 := by
  rw [width_endingTail hs, hs.ending_tail h, List.length_nil]

include hs in
/-- The ending of a blank line is the first one from its first byte. -/
theorem findRecordEnding_blank {pos width : ℕ} (h : recordEndingWidthAt cfg input pos = some width) :
    findRecordEnding cfg input pos = some (pos + width) := by
  rw [findRecordEnding_eq_some]
  unfold recordEndingWidthAt at h
  simp only at h
  unfold LineEnd
  rcases hending : cfg.dialect.recordEnding with _ | _ | byte <;> simp only [hending] at h
  · split_ifs at h with h1 h2
    · cases h
      exact ⟨pos, ⟨le_rfl, h1, trivial⟩, fun j hj => hj.1, by rw [width_line hs (Or.inl hending)]⟩
    cases h
    refine ⟨pos + 1, ⟨Nat.le_succ pos, h2.2, trivial⟩, fun j hj => ?_, by
      rw [width_line hs (Or.inl hending)]⟩
    refine Nat.lt_of_le_of_ne hj.1 ?_
    rintro rfl
    exact h1 hj.2.1
  · split_ifs at h with h1
    cases h
    exact ⟨pos + 1, ⟨Nat.le_succ pos, h1.2, Nat.lt_succ_self pos, h1.1⟩,
      fun j hj => hj.2.2.1, by rw [width_line hs (Or.inr hending)]⟩
  · split_ifs at h with h1
    cases h
    exact ⟨pos, ⟨le_rfl, h1.1, h1.2⟩, fun j hj => hj.1, rfl⟩

include hs in
/-- An ignored line has a byte, and lies in the input. -/
theorem findRecordEnding_within {pos next : ℕ} (h : findRecordEnding cfg input pos = some next) :
    pos < next ∧ next ≤ input.length :=
  findRecordEndingLoop_within hs pos _ _ h

end line

/-! ## Windows -/

section window

variable {cfg : ParserSettings} (hs : cfg.dialect.Sound) {data : Bytes} {off stop : ℕ}

theorem getElem?_slice (pos : ℕ) :
    (slice data off stop)[pos]? = if off + pos < stop then data[off + pos]? else none := by
  rw [slice, List.getElem?_drop, List.getElem?_take]

theorem drop_slice (pos : ℕ) :
    (slice data off stop).drop pos = (data.drop (off + pos)).take (stop - (off + pos)) := by
  rw [slice, List.drop_drop, List.drop_take]

include hs in
/-- An ending in a window is one of the input that lies in the window. -/
theorem lineEnd_window {start pos : ℕ} : LineEnd cfg (slice data off stop) start pos ↔
    LineEnd cfg data (off + start) (off + pos) ∧
      off + pos + cfg.dialect.endingTail.width ≤ stop := by
  unfold LineEnd
  rw [getElem?_slice]
  have hle : off + start ≤ off + pos ↔ start ≤ pos := by omega
  have hlt : off + start < off + pos ↔ start < pos := by omega
  rw [hle]
  rcases hending : cfg.dialect.recordEnding with _ | _ | byte
  · rw [width_line hs (Or.inl hending), show off + pos + 1 ≤ stop ↔ off + pos < stop from Iff.rfl]
    split_ifs with hin
    · exact (and_iff_left hin).symm
    · exact ⟨fun h => (by cases h.2.1), fun h => absurd h.2 hin⟩
  · rw [width_line hs (Or.inr hending), getElem?_slice, hlt,
      show off + pos + 1 ≤ stop ↔ off + pos < stop from Iff.rfl]
    by_cases hin : off + pos < stop
    · rw [if_pos hin]
      by_cases hpos : start < pos
      · rw [if_pos (by omega), show off + (pos - 1) = off + pos - 1 by omega]
        exact (and_iff_left hin).symm
      · exact ⟨fun h => absurd h.2.2.1 hpos, fun h => absurd h.1.2.2.1 hpos⟩
    · rw [if_neg hin]
      exact ⟨fun h => (by cases h.2.1), fun h => absurd h.2 hin⟩
  · rw [width_endingTail hs, drop_slice, Tail.confirms, Tail.confirms, List.isPrefixOf_iff_prefix,
      List.isPrefixOf_iff_prefix, List.prefix_take_iff]
    by_cases hin : off + pos < stop
    · rw [if_pos hin, show off + (pos + 1) = off + pos + 1 by omega]
      constructor
      · rintro ⟨hle, hbyte, htail, hlen⟩
        exact ⟨⟨by omega, hbyte, htail⟩, by omega⟩
      · rintro ⟨⟨hle, hbyte, htail⟩, hlen⟩
        exact ⟨by omega, hbyte, htail, by omega⟩
    · rw [if_neg hin]
      constructor
      · rintro ⟨-, hbyte, -⟩
        cases hbyte
      · rintro ⟨-, hlen⟩
        omega

include hs in
/-- **The search of a window** finds the ending of the input, if it lies in the window. -/
theorem findRecordEnding_window {start next : ℕ} :
    findRecordEnding cfg (slice data off stop) start = some next ↔
      findRecordEnding cfg data (off + start) = some (off + next) ∧ off + next ≤ stop := by
  rw [findRecordEnding_eq_some, findRecordEnding_eq_some]
  constructor
  · rintro ⟨pos, hends, hfirst, rfl⟩
    obtain ⟨hends', hle⟩ := (lineEnd_window hs).1 hends
    refine ⟨⟨off + pos, hends', fun j hj => ?_, by omega⟩, by omega⟩
    refine Nat.le_of_not_lt fun hlt => ?_
    obtain ⟨i, rfl⟩ : ∃ i, j = off + i := ⟨j - off, by have := hj.1; omega⟩
    have := hfirst i ((lineEnd_window hs).2 ⟨hj, by omega⟩)
    omega
  · rintro ⟨⟨pos, hends, hfirst, hnext⟩, hle⟩
    obtain ⟨i, rfl⟩ : ∃ i, pos = off + i := ⟨pos - off, by have := hends.1; omega⟩
    refine ⟨i, (lineEnd_window hs).2 ⟨hends, by omega⟩, fun j hj => ?_, by omega⟩
    have := hfirst (off + j) ((lineEnd_window hs).1 hj).1
    omega

include hs in
theorem recordEndingWidthAt_window {pos width : ℕ} :
    recordEndingWidthAt cfg (slice data off stop) pos = some width ↔
      recordEndingWidthAt cfg data (off + pos) = some width ∧ off + pos + width ≤ stop := by
  unfold recordEndingWidthAt
  simp only [getElem?_slice, ← Nat.add_assoc]
  by_cases hin : off + pos < stop
  · rw [if_pos hin]
    rcases hending : cfg.dialect.recordEnding with _ | _ | byte
    · simp only
      split_ifs <;> simp_all <;> omega
    · simp only
      split_ifs <;> simp_all <;> omega
    · simp only [drop_slice, Tail.confirms, List.isPrefixOf_iff_prefix, List.prefix_take_iff,
        width_endingTail hs, ← Nat.add_assoc]
      constructor
      · intro h
        split_ifs at h with hends
        cases h
        rw [if_pos ⟨hends.1, hends.2.1⟩]
        exact ⟨rfl, by have := hends.2.2; omega⟩
      · rintro ⟨h, hle⟩
        split_ifs at h with hends
        cases h
        rw [if_pos ⟨hends.1, hends.2, by omega⟩]
  · have hwidth : ∀ {width : ℕ}, recordEndingWidthAt cfg data (off + pos) = some width →
        0 < width := by
      intro width h
      have := (findRecordEnding_within hs (findRecordEnding_blank hs h)).1
      omega
    constructor
    · rw [if_neg hin]
      rcases hending : cfg.dialect.recordEnding with _ | _ | byte <;> simp
    · rintro ⟨h, hle⟩
      have := hwidth h
      omega

theorem commentAt_window {pos : ℕ} :
    CommentAt cfg (slice data off stop) pos ↔ CommentAt cfg data (off + pos) ∧ off + pos < stop := by
  unfold CommentAt
  rw [getElem?_slice]
  split_ifs with hin
  · simp [hin]
  · simp [hin]

end window

end Engine

end Coseva
