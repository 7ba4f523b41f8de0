/-
  Coseva — later bytes leave the end of a record in place.

  * `Whole`: the window ends in no delimiter that begins in the record;
  * `step_grown`: a step of the frame in a longer window;
  * `Stops.grown`: **a record end** stays where it is.
-/
import Coseva.FrameScan

namespace Coseva

namespace Frame

open Engine
open WindowScanConfig (confirms_drop slice_grown)

/-- The window does not end in the tail of a delimiter that begins between
    `start` and `stop`. -/
def Whole (d : Dialect) (w : Bytes) (start stop : ℕ) : Prop :=
  ∀ pos < stop, start ≤ pos → w[pos]? = some d.delimiter →
    (w.drop (pos + 1)).isPrefixOf d.delimiterTail.asSlice = true →
    d.delimiterTail.confirms (w.drop (pos + 1)) = true

instance (d : Dialect) (w : Bytes) (start stop : ℕ) : Decidable (Whole d w start stop) :=
  inferInstanceAs (Decidable (∀ pos < stop, _ → _))

/-- A step that stays in front of `stop`, with room for a record ending. -/
def Step.Inside (width stop : ℕ) : Step → Prop
  | .next q => q.cursor + width ≤ stop
  | .ends t => t ≤ stop
  | .halt => False

section grown

variable {cfg : ParserSettings} {w d : Bytes} {recordStart stop : ℕ} (hgrown : w <+: d)

include hgrown

theorem getElem?_some_grown {i : ℕ} {b : UInt8} (hb : w[i]? = some b) : d[i]? = some b := by
  obtain ⟨more, rfl⟩ := hgrown
  rw [List.getElem?_append_left (List.getElem?_eq_some_iff.mp hb).1, hb]

theorem drop_grown (i : ℕ) : w.drop i <+: d.drop i := by
  obtain ⟨more, rfl⟩ := hgrown
  rw [List.drop_append]
  exact List.prefix_append _ _

/-- A tail the window has is a tail of every longer one. -/
theorem confirms_of_window {t : Tail} {i : ℕ} (h : t.confirms (w.drop i) = true) :
    t.confirms (d.drop i) = true := by
  rw [Tail.confirms, List.isPrefixOf_iff_prefix] at h ⊢
  exact h.trans (drop_grown hgrown i)

/-- A tail the window has room for. -/
theorem confirms_room {t : Tail} {i : ℕ} (hi : i + t.asSlice.length ≤ w.length) :
    t.confirms (d.drop i) = t.confirms (w.drop i) := by
  rw [confirms_drop hgrown (show i ≤ w.length by omega) (Nat.le_refl _) (by omega), slice,
    List.take_length]

/-- A delimiter of the record is the same in every longer window. -/
theorem Whole.confirms (h : Whole cfg.dialect w recordStart stop) {pos : ℕ} (hpos : pos < stop)
    (hstart : recordStart ≤ pos) (hb : w[pos]? = some cfg.dialect.delimiter) :
    cfg.dialect.delimiterTail.confirms (d.drop (pos + 1)) =
      cfg.dialect.delimiterTail.confirms (w.drop (pos + 1)) := by
  rw [Bool.eq_iff_iff]
  refine ⟨fun hconfirms => ?_, confirms_of_window hgrown⟩
  rw [Tail.confirms, List.isPrefixOf_iff_prefix] at hconfirms
  rcases List.prefix_or_prefix_of_prefix hconfirms (drop_grown hgrown (pos + 1)) with hin | hcut
  · rw [Tail.confirms, List.isPrefixOf_iff_prefix]
    exact hin
  · exact h pos hpos hstart hb (List.isPrefixOf_iff_prefix.mpr hcut)

theorem skipPostQuoteWhitespace_grown {permits : Bool} {pos : ℕ}
    (h : skipPostQuoteWhitespace w permits pos < w.length) :
    skipPostQuoteWhitespace d permits pos = skipPostQuoteWhitespace w permits pos := by
  unfold skipPostQuoteWhitespace at h ⊢
  split_ifs at h ⊢
  · obtain ⟨more, rfl⟩ := hgrown
    rw [List.drop_append_of_le_length (by omega), List.takeWhile_append, if_neg]
    rw [List.length_drop]
    omega
  · rfl

variable (hs : cfg.dialect.Sound) (hwhole : Whole cfg.dialect w recordStart stop)

include hs hwhole

/-- Behind a closing quote. -/
theorem closed_grown {pos : ℕ} (hpos : recordStart ≤ pos)
    (h : (closed cfg w pos).Inside cfg.dialect.endingTail.width stop) :
    closed cfg d pos = closed cfg w pos := by
  have hskip : pos ≤ skipPostQuoteWhitespace w cfg.syntax'.permitsTrailingWhitespace pos := by
    unfold skipPostQuoteWhitespace
    split_ifs <;> omega
  unfold closed at h ⊢
  simp only at h ⊢
  rcases hnext : w[skipPostQuoteWhitespace w cfg.syntax'.permitsTrailingWhitespace pos]? with
    _ | next
  · rw [hnext] at h
    exact h.elim
  have hin := (List.getElem?_eq_some_iff.mp hnext).1
  rw [skipPostQuoteWhitespace_grown hgrown hin]
  generalize skipPostQuoteWhitespace w cfg.syntax'.permitsTrailingWhitespace pos = after at *
  rw [hnext] at h
  rw [getElem?_some_grown hgrown hnext]
  simp only at h ⊢
  -- two bytes end a record only where the first one begins no other ending
  have hcr : (cfg.dialect.recordEnding.stripsCr && next == 13 &&
      (w.drop (after + 1)).head? == some 10) = true →
      next ≠ cfg.dialect.recordEnding.byte ∧ (d.drop (after + 1)).head? = some 10 := by
    intro hcr
    simp only [Bool.and_eq_true, beq_iff_eq] at hcr
    obtain ⟨⟨hstrips, rfl⟩, hlf⟩ := hcr
    refine ⟨?_, ?_⟩
    · cases hending : cfg.dialect.recordEnding with
      | newline | crLf => exact fun hbyte => absurd hbyte (by decide)
      | ofByte b => rw [hending] at hstrips; cases hstrips
    · rw [List.head?_drop] at hlf ⊢
      exact getElem?_some_grown hgrown hlf
  by_cases hdelimiter : next = cfg.dialect.delimiter
  · subst hdelimiter
    have hne : (cfg.dialect.delimiter == cfg.dialect.recordEnding.byte) = false :=
      beq_eq_false_iff_ne.mpr (Ne.symm hs.ending_ne_delimiter)
    simp only [beq_self_eq_true, Bool.true_and, hne, Bool.and_false, Bool.false_and,
      Bool.false_eq_true, if_false] at h ⊢
    rcases hconfirms : cfg.dialect.delimiterTail.confirms (w.drop (after + 1)) with _ | _
    · rw [hconfirms, if_neg Bool.false_ne_true] at h
      rw [if_neg Bool.false_ne_true]
      split_ifs at h with hlf
      · have hlast : after + 2 ≤ stop := h
        rw [hwhole.confirms hgrown (by omega) (by omega) hnext, hconfirms,
          if_neg Bool.false_ne_true, if_pos hlf, if_pos]
        have hlf' := (hcr hlf).2
        simp only [Bool.and_eq_true, beq_iff_eq] at hlf ⊢
        exact ⟨hlf.1, hlf'⟩
      · exact h.elim
    · rw [confirms_of_window hgrown hconfirms, if_pos rfl, if_pos rfl]
  · have hne : (next == cfg.dialect.delimiter) = false := beq_eq_false_iff_ne.mpr hdelimiter
    simp only [hne, Bool.false_and, Bool.false_eq_true, if_false] at h ⊢
    split_ifs at h with hending hlf
    · rw [if_pos hending]
      simp only [Bool.and_eq_true] at hending
      rw [if_pos]
      simp only [Bool.and_eq_true]
      exact ⟨hending.1, confirms_of_window hgrown hending.2⟩
    · obtain ⟨hbyte, hlf'⟩ := hcr hlf
      rw [if_neg hending, if_pos hlf, if_neg (by simp [hbyte]), if_pos]
      simp only [Bool.and_eq_true, beq_iff_eq] at hlf ⊢
      exact ⟨hlf.1, hlf'⟩
    · exact h.elim

/-- A byte in quotes. -/
theorem quoted_grown {m pos : ℕ} {b : UInt8} (hpos : recordStart ≤ pos) (hb : w[pos]? = some b)
    (h : (quoted cfg w m pos b).Inside cfg.dialect.endingTail.width stop) :
    quoted cfg d m pos b = quoted cfg w m pos b := by
  unfold quoted at h ⊢
  by_cases hstop : quotedByte cfg.dialect b = true
  swap
  · rw [if_neg hstop, if_neg hstop]
  rw [if_pos hstop] at h
  rw [if_pos hstop, if_pos hstop]
  have hbyte : byteAt w pos = b := by rw [byteAt, List.getD_eq_getElem?_getD, hb]; rfl
  have hbyte' : byteAt d pos = b := by
    rw [byteAt, List.getD_eq_getElem?_getD, getElem?_some_grown hgrown hb]; rfl
  rcases hnext : w[pos + 1]? with _ | next
  · -- at the end of the window a record neither goes on nor ends
    have hhalt : closed cfg w (pos + 1) = .halt := by
      have hedge : w.length ≤ skipPostQuoteWhitespace w cfg.syntax'.permitsTrailingWhitespace
          (pos + 1) := by
        have hlen := List.getElem?_eq_none_iff.mp hnext
        unfold skipPostQuoteWhitespace
        split_ifs <;> omega
      unfold closed
      simp only [List.getElem?_eq_none_iff.mpr hedge]
    have hclosing : ∀ byte, quotedStop w cfg.toFormatSettings w.length pos ≠ .escaped byte := by
      intro byte
      unfold quotedStop
      rcases hescape : cfg.dialect.escape with _ | escape | _ | escape <;>
        simp only [hnext, hescape]
      · intro heq
        cases heq
      all_goals
        split_ifs <;> intro heq <;> cases heq
    rcases hstopped : quotedStop w cfg.toFormatSettings w.length pos with byte | _ | _
    · exact absurd hstopped (hclosing byte)
    · rw [hstopped] at h
      simp only [hhalt] at h
      exact h.elim
    · rw [hstopped] at h
      exact h.elim
  have hsame : quotedStop d cfg.toFormatSettings w.length pos =
      quotedStop w cfg.toFormatSettings w.length pos := by
    unfold quotedStop
    simp only [hnext, getElem?_some_grown hgrown hnext, hbyte, hbyte']
  obtain ⟨hescaped, hclosing⟩ := quotedStop_bound d cfg.toFormatSettings
    w.length d.length pos
  rcases hstopped : quotedStop w cfg.toFormatSettings w.length pos with byte | _ | _
  · rw [hescaped byte (hsame.trans hstopped)]
  · rw [hstopped] at h
    rw [hclosing (hsame.trans hstopped)]
    exact closed_grown hgrown hs hwhole (Nat.le_succ_of_le hpos) h
  · rw [hstopped] at h
    exact h.elim

/-- A byte outside quotes. -/
theorem unquoted_grown {m pos : ℕ} {b : UInt8} (hle : stop ≤ w.length) (hpos : recordStart ≤ pos)
    (hb : w[pos]? = some b)
    (h : (unquoted cfg w recordStart m pos b).Inside cfg.dialect.endingTail.width stop) :
    unquoted cfg d recordStart m pos b = unquoted cfg w recordStart m pos b := by
  have hin := (List.getElem?_eq_some_iff.mp hb).1
  have hwidth := width_endingTail hs
  have hbyte : byteAt w pos = b := by rw [byteAt, List.getD_eq_getElem?_getD, hb]; rfl
  have hbyte' : byteAt d pos = b := by
    rw [byteAt, List.getD_eq_getElem?_getD, getElem?_some_grown hgrown hb]; rfl
  have hopens : opens cfg d recordStart m pos = opens cfg w recordStart m pos := by
    unfold opens
    rw [slice_grown hgrown (Nat.le_of_lt hin)]
  unfold unquoted at h ⊢
  rw [hopens]
  by_cases hopen : (cfg.syntax'.quotingEnabled && b == cfg.dialect.quote &&
      opens cfg w recordStart m pos) = true
  · rw [if_pos hopen, if_pos hopen]
  rw [if_neg hopen] at h
  rw [if_neg hopen, if_neg hopen]
  by_cases hsearch : searchByte cfg.toFormatSettings b = true
  swap
  · rw [if_neg hsearch, if_neg hsearch]
  rw [if_pos hsearch] at h
  rw [if_pos hsearch, if_pos hsearch]
  unfold unquotedStop at h ⊢
  simp only [hbyte, hbyte'] at h ⊢
  by_cases hescape : cfg.dialect.escape.unquotedByte = some b
  · rw [if_pos hescape] at h
    rw [if_pos hescape, if_pos hescape]
    unfold resumeAfterUnquotedEscape at h ⊢
    rcases hnext : w[pos + 1]? with _ | next
    · rw [hnext] at h
      have hroom : pos + 1 + cfg.dialect.endingTail.width ≤ stop := h
      have := List.getElem?_eq_none_iff.mp hnext
      omega
    · rw [getElem?_some_grown hgrown hnext]
  rw [if_neg hescape] at h
  rw [if_neg hescape, if_neg hescape]
  by_cases hquote : (cfg.syntax'.quotingEnabled && !cfg.syntax'.permitsUnquotedQuotes &&
      b == cfg.dialect.quote) = true
  · rw [if_pos hquote] at h
    exact h.elim
  rw [if_neg hquote] at h
  rw [if_neg hquote, if_neg hquote]
  by_cases hcr : (cfg.dialect.recordEnding == .crLf && b == 13) = true
  · rw [if_pos hcr] at h
    rw [if_pos hcr, if_pos hcr]
    by_cases hlf : (w.drop (pos + 1)).head? = some 10
    · have hlf' : (d.drop (pos + 1)).head? = some 10 := by
        rw [List.head?_drop] at hlf ⊢
        exact getElem?_some_grown hgrown hlf
      rw [if_pos hlf, if_pos hlf']
    · rw [if_neg hlf] at h
      exact h.elim
  rw [if_neg hcr] at h
  rw [if_neg hcr, if_neg hcr]
  by_cases hending : b = cfg.dialect.recordEnding.byte
  · rw [if_pos hending] at h
    rw [if_pos hending, if_pos hending]
    by_cases hcrlf : (cfg.dialect.recordEnding == .crLf) = true
    · rw [if_pos hcrlf] at h
      exact h.elim
    rw [if_neg hcrlf] at h
    rw [if_neg hcrlf, if_neg hcrlf]
    rcases hconfirms : cfg.dialect.endingTail.confirms (w.drop (pos + 1)) with _ | _
    · -- the record goes on, and the window has room for the tail
      rw [hconfirms, if_neg Bool.false_ne_true] at h
      have hroom : pos + 1 + cfg.dialect.endingTail.width ≤ stop := h
      rw [confirms_room hgrown (by omega), hconfirms]
      simp only [Bool.false_eq_true, if_false]
    · rw [confirms_of_window hgrown hconfirms]
      simp only [if_true]
  rw [if_neg hending] at h
  rw [if_neg hending, if_neg hending]
  have hdelimiter : b = cfg.dialect.delimiter := by
    simp only [searchByte, Syntax.seeksQuotes, Bool.or_eq_true, beq_iff_eq] at hsearch
    rcases hsearch with (((h1 | h1) | h1) | h1) | h1
    · exact h1
    · exact absurd h1 hending
    · exact absurd h1 (by simpa using hquote)
    · exact absurd h1 hcr
    · exact absurd h1 hescape
  subst hdelimiter
  have hlt : pos < stop := by
    rcases hconfirms : cfg.dialect.delimiterTail.confirms (w.drop (pos + 1)) with _ | _ <;>
      rw [hconfirms] at h
    · have hroom : pos + 1 + cfg.dialect.endingTail.width ≤ stop := h
      omega
    · have hroom : pos + cfg.dialect.delimiterTail.width + cfg.dialect.endingTail.width ≤ stop := h
      omega
  rw [hwhole.confirms hgrown hlt hpos hb]

/-- **One step** of the frame is the same in every longer window. -/
theorem step_grown {p : ScanPoint} (hle : stop ≤ w.length) (hp : recordStart ≤ p.cursor)
    (h : (step cfg w recordStart p).Inside cfg.dialect.endingTail.width stop) :
    step cfg d recordStart p = step cfg w recordStart p := by
  unfold step at h ⊢
  rcases hb : w[p.cursor]? with _ | b
  · rw [hb] at h
    exact h.elim
  rw [hb] at h
  rw [getElem?_some_grown hgrown hb]
  simp only at h ⊢
  cases hq : p.inQuotes with
  | true =>
    rw [hq] at h
    exact quoted_grown hgrown hs hwhole hp hb h
  | false =>
    rw [hq] at h
    exact unquoted_grown hgrown hs hwhole hle hp hb h

/-- **The end of a record** is the same in every longer window. -/
theorem Stops.grown {p : ScanPoint} (h : Stops cfg w recordStart p stop) (hle : stop ≤ w.length)
    (hp : recordStart ≤ p.cursor) : Stops cfg d recordStart p stop := by
  induction h with
  | @ends p stop hends =>
    refine .ends ((step_grown hgrown hs hwhole hle hp ?_).trans hends)
    rw [hends]
    exact Nat.le_refl stop
  | @next p q stop hnext hstops ih =>
    have hinside : (step cfg w recordStart p).Inside cfg.dialect.endingTail.width stop := by
      rw [hnext]
      exact hstops.ahead hs
    have hahead : p.cursor < q.cursor := by
      have := step_ahead w recordStart hs p
      rw [hnext] at this
      exact this
    exact .next ((step_grown hgrown hs hwhole hle hp hinside).trans hnext)
      (ih hwhole hle (by omega))

end grown

end Frame

end Coseva
