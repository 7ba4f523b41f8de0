/-
  Coseva — a paused prescan has found no record end.

  * `Mirrors`: the settings of the prescan are those of the parser;
  * `Stops.ahead`: a record ends behind the point it goes on at;
  * `Refuted`: the prescan waits at a delimiter that the text does not go on;
  * `scanFrom_followed`: what the prescan passes, the frame passes;
  * `scanFrom_stops`: a pause in front of a record end is at such a delimiter.
-/
import Coseva.FrameRead
import Coseva.PrescanResume

namespace Coseva

namespace WindowScanConfig

/-- The settings of the prescan are those of the parser. -/
structure Mirrors (config : WindowScanConfig) (cfg : ParserSettings) : Prop where
  quoting : config.quoting = cfg.syntax'.quotingEnabled
  delimiter : config.delimiter = cfg.dialect.delimiter
  delimiterTail : config.delimiterTail = cfg.dialect.delimiterTail
  quote : config.quote = cfg.dialect.quote
  terminator : config.terminator = cfg.dialect.recordEnding.byte
  endingTail : config.endingTail = cfg.dialect.endingTail
  crlf : config.crlf = (cfg.dialect.recordEnding == .crLf)
  escape : config.escape = cfg.dialect.escape
  permitsUnquotedQuotes : config.permitsUnquotedQuotes = cfg.syntax'.permitsUnquotedQuotes
  permitsTrailingWs : config.permitsTrailingWs = cfg.syntax'.permitsTrailingWhitespace
  skipInitialSpace : config.skipInitialSpace = cfg.skipInitialSpace

end WindowScanConfig

theorem ParserSettings.Follows.mirrors {cfg : ParserSettings} {F : CsvFormat} (hF : cfg.Follows F)
    (hvalid : cfg.dialect.invalidity = none) : (cfg.windowScanConfig F hvalid).Mirrors cfg := by
  constructor <;> simp only [ParserSettings.windowScanConfig, hF.dialect, hF.syntax',
    hF.skipInitialSpace]

namespace Frame

open Engine

/-! ## The frame goes forward -/

/-- A step leads behind the byte it reads, and an ending has its whole width. -/
def Step.Ahead (width pos : ℕ) : Step → Prop
  | .next p => pos < p.cursor
  | .ends stop => pos + width ≤ stop
  | .halt => True

theorem Step.Ahead.mono {width pos pos' : ℕ} {s : Step} (h : s.Ahead width pos') (hlt : pos < pos') :
    s.Ahead width pos := by
  cases s with
  | next p => exact Nat.lt_trans hlt h
  | ends stop => exact (Nat.add_le_add_right (Nat.le_of_lt hlt) width).trans h
  | halt => trivial

section ahead

variable {cfg : ParserSettings} {input : Bytes} {recordStart : ℕ} (hs : cfg.dialect.Sound)

include hs

theorem width_endingTail :
    cfg.dialect.endingTail.width = cfg.dialect.endingTail.asSlice.length + 1 :=
  Tail.width_eq hs.usable.2

/-- An ending of two bytes has no tail. -/
theorem width_stripsCr (h : cfg.dialect.recordEnding.stripsCr = true) :
    cfg.dialect.endingTail.width = 1 := by
  have htail : cfg.dialect.endingTail.asSlice = [] := by
    apply hs.ending_tail
    cases hending : cfg.dialect.recordEnding with
    | newline => exact Or.inl rfl
    | crLf => exact Or.inr rfl
    | ofByte b => rw [hending] at h; cases h
  rw [width_endingTail hs, htail]
  rfl

theorem closed_ahead (pos : ℕ) :
    (closed cfg input pos).Ahead cfg.dialect.endingTail.width pos := by
  have hskip : pos ≤ skipPostQuoteWhitespace input cfg.syntax'.permitsTrailingWhitespace pos := by
    unfold skipPostQuoteWhitespace
    split_ifs <;> omega
  have hwidth := Tail.width_eq hs.usable.1
  unfold closed
  simp only
  generalize skipPostQuoteWhitespace input cfg.syntax'.permitsTrailingWhitespace pos = after at hskip
  rcases input[after]? with _ | next
  · trivial
  simp only
  split_ifs with hdelimiter hending hcr
  · show pos < after + cfg.dialect.delimiterTail.width
    omega
  · show pos + cfg.dialect.endingTail.width ≤ after + cfg.dialect.endingTail.width
    omega
  · simp only [Bool.and_eq_true] at hcr
    show pos + cfg.dialect.endingTail.width ≤ after + 2
    rw [width_stripsCr hs hcr.1.1]
    omega
  · trivial

theorem unquotedStop_width {fieldStart pos fieldEnd location : ℕ}
    (h : unquotedStop cfg input fieldStart pos = .ends fieldEnd location true) :
    pos + cfg.dialect.endingTail.width ≤ location := by
  unfold unquotedStop at h
  simp only at h
  split_ifs at h with _ _ hcr
  · cases h
    have hcrlf : cfg.dialect.recordEnding = .crLf := by simpa using (Bool.and_eq_true_iff.mp hcr).1
    rw [width_stripsCr hs (by rw [hcrlf]; rfl)]
    omega
  all_goals cases h
  all_goals exact Nat.le_refl _

variable (input recordStart) in
/-- **A step of the frame** goes forward. -/
theorem step_ahead (p : ScanPoint) :
    (step cfg input recordStart p).Ahead cfg.dialect.endingTail.width p.cursor := by
  obtain ⟨pos, m, q⟩ := p
  unfold step
  simp only
  rcases hb : input[pos]? with _ | b
  · trivial
  have hpos := (List.getElem?_eq_some_iff.mp hb).1
  have hnext : pos < pos + 1 := Nat.lt_succ_self pos
  cases q with
  | true =>
    unfold quoted
    simp only [if_true]
    split_ifs
    · rcases quotedStop input cfg.toFormatSettings input.length pos with _ | _ | _
      · exact Nat.lt_add_of_pos_right (by decide)
      · exact (closed_ahead hs (pos + 1)).mono hnext
      · trivial
    · exact hnext
  | false =>
    unfold unquoted
    simp only [Bool.false_eq_true, if_false]
    split_ifs
    · exact hnext
    · have hahead : StopAhead input pos (unquotedStop cfg input m pos) :=
        unquotedStop_ahead hs m hpos
      rcases hstop : unquotedStop cfg input m pos with cursor | _ | ⟨_, location, _ | _⟩
      · rw [hstop] at hahead
        exact hahead
      · trivial
      · rw [hstop] at hahead
        exact hahead.1
      · exact unquotedStop_width hs hstop
    · exact hnext

/-- **A record ends behind** the point it goes on at. -/
theorem Stops.ahead {p : ScanPoint} {stop : ℕ} (h : Stops cfg input recordStart p stop) :
    p.cursor + cfg.dialect.endingTail.width ≤ stop := by
  induction h with
  | @ends p stop hends =>
    have hahead := step_ahead input recordStart hs p
    rw [hends] at hahead
    exact hahead
  | @next p q stop hnext _ ih =>
    have hahead := step_ahead input recordStart hs p
    rw [hnext] at hahead
    have hlt : p.cursor < q.cursor := hahead
    omega

end ahead

end Frame

namespace WindowScanConfig

open Engine
open Coseva.Frame

variable {config : WindowScanConfig} {cfg : ParserSettings} {w d : Bytes} {recordStart : ℕ}
  {p q c : ScanPoint}

/-- Where the delimiter stands whose tail a paused scan waits for. -/
def delimiterAt (config : WindowScanConfig) (w : Bytes) (c : ScanPoint) : ℕ :=
  if c.inQuotes then config.afterClosing w w.length c.cursor else c.cursor

/-- The scan of `w` waits for the tail of a delimiter that is none in `d`. -/
def Refuted (config : WindowScanConfig) (w d : Bytes) (c : ScanPoint) : Prop :=
  config.delimiterAt w c < w.length ∧ byteAt w (config.delimiterAt w c) = config.delimiter ∧
    config.delimiterTail.confirms (d.drop (config.delimiterAt w c + 1)) = false

/-- A step of the scan that comes to the pause `c`. -/
def Comes (config : WindowScanConfig) (w : Bytes) (recordStart : ℕ) (c : ScanPoint) :
    ScanStep → Prop
  | .next p => config.Within w recordStart p ∧ config.scanFrom w recordStart p = some c
  | .pause p => p = c
  | .defer => False

theorem comes_of_scanFrom (hp : config.Within w recordStart p)
    (h : config.scanFrom w recordStart p = some c) :
    config.Comes w recordStart c (config.scanStep w recordStart p) := by
  rw [scanFrom_eq hp] at h
  rcases hstep : config.scanStep w recordStart p with p' | c' | _ <;> rw [hstep] at h
  · exact ⟨(scanStep_next hp hstep).1, h⟩
  · exact Option.some.inj h
  · cases h

theorem Comes.pauseScan (h : config.Comes w recordStart c (config.pauseScan w recordStart p)) :
    p = c ∧ config.scanEnd w recordStart p.fieldStart = w.length := by
  rcases hpause : config.pauseScan w recordStart p with p' | c' | _
  · exact absurd hpause pauseScan_ne_next
  · obtain ⟨rfl, hend⟩ := pauseScan_eq_pause hpause
    rw [hpause] at h
    exact ⟨h, hend⟩
  · rw [hpause] at h
    exact h.elim

/-- Where a step of the frame of `d` leads, beside a scan of `w` that comes to
    the pause `c`: along the scan, or behind the window. -/
def Followed (config : WindowScanConfig) (cfg : ParserSettings) (w d : Bytes) (recordStart : ℕ)
    (c : ScanPoint) : Step → Prop
  | .next p => (config.Within w recordStart p ∧ config.scanFrom w recordStart p = some c) ∨
      w.length < p.cursor + cfg.dialect.endingTail.width ∨ config.Refuted w d c
  | .ends stop => w.length < stop ∨ config.Refuted w d c
  | .halt => True

theorem Refuted.followed (h : config.Refuted w d c) :
    ∀ s, config.Followed cfg w d recordStart c s
  | .next _ => Or.inr (Or.inr h)
  | .ends _ => Or.inr h
  | .halt => trivial

theorem Followed.behind {s : Step} {pos : ℕ} (hpos : w.length ≤ pos)
    (hwidth : 0 < cfg.dialect.endingTail.width)
    (h : s.Ahead cfg.dialect.endingTail.width pos) :
    config.Followed cfg w d recordStart c s := by
  cases s with
  | next p =>
    have hlt : pos < p.cursor := h
    exact Or.inr (Or.inl (by omega))
  | ends stop =>
    have hle : pos + cfg.dialect.endingTail.width ≤ stop := h
    exact Or.inl (by omega)
  | halt => trivial

section step

variable (hm : config.Mirrors cfg) (hs : cfg.dialect.Sound) (hgrown : w <+: d)

include hgrown

theorem getElem?_grown {i : ℕ} (hi : i < w.length) : d[i]? = some (byteAt w i) := by
  obtain ⟨more, rfl⟩ := hgrown
  rw [List.getElem?_append_left hi, byteAt, List.getD_eq_getElem?_getD, List.getElem?_eq_getElem hi]
  rfl

/-- A tail the window has room for. -/
theorem confirms_drop {t : Tail} {pos scanEnd : ℕ} (hpos : pos ≤ scanEnd) (hend : scanEnd ≤ w.length)
    (hfits : t.asSlice.length ≤ scanEnd - pos) :
    t.confirms (d.drop pos) = t.confirms (slice w pos scanEnd) := by
  rw [← confirms_grown hgrown hpos (hend.trans hgrown.length_le) hend (Nat.le_refl _) hfits, slice,
    List.take_length]

include hm in
theorem afterClosing_drop {pos scanEnd : ℕ} (hpos : pos + 1 ≤ scanEnd) (hend : scanEnd ≤ w.length)
    (hlt : config.afterClosing w scanEnd pos < scanEnd) :
    skipPostQuoteWhitespace d cfg.syntax'.permitsTrailingWhitespace (pos + 1) =
      config.afterClosing w scanEnd pos := by
  rw [← afterClosing_grown hgrown hpos (hend.trans hgrown.length_le) hend (Nat.le_refl _) hlt]
  unfold skipPostQuoteWhitespace afterClosing skipTrailing
  rw [hm.permitsTrailingWs, slice, List.take_length]

section quoted

include hm

theorem stepClosed_followed {m pos : ℕ} (hlt : pos + 1 < config.scanEnd w recordStart m)
    (h : config.Comes w recordStart c (config.stepClosed w recordStart m pos)) :
    config.Followed cfg w d recordStart c (closed cfg d (pos + 1)) := by
  have hend := scanEnd_le config w recordStart m
  have hwidth := width_delimiterTail config
  unfold stepClosed at h
  simp only at h
  by_cases hedge : (config.permitsTrailingWs && decide (config.afterClosing w
      (config.scanEnd w recordStart m) pos ≥ config.scanEnd w recordStart m)) = true
  · rw [if_pos hedge] at h
    exact h.elim
  rw [if_neg hedge] at h
  have hafter := afterClosing_lt hlt (Bool.eq_false_of_not_eq_true hedge)
  have hskip := afterClosing_drop hm hgrown (Nat.le_of_lt hlt) hend hafter
  unfold closed
  simp only [hskip]
  generalize hat : config.afterClosing w (config.scanEnd w recordStart m) pos = after at *
  rw [getElem?_grown hgrown (Nat.lt_of_lt_of_le hafter hend)]
  simp only
  by_cases hdelimiter : byteAt w after = config.delimiter
  · rw [if_pos hdelimiter] at h
    rw [hdelimiter, hm.delimiter, ← hm.delimiterTail]
    simp only [beq_self_eq_true, Bool.true_and]
    by_cases hshort : config.scanEnd w recordStart m - (after + 1) <
        config.delimiterTail.asSlice.length
    · rw [if_pos hshort] at h
      obtain ⟨rfl, hlimit⟩ := h.pauseScan
      simp only at hlimit
      rcases hconfirms : config.delimiterTail.confirms (d.drop (after + 1)) with _ | _
      · refine Refuted.followed ?_ _
        have hdelimiterAt : config.delimiterAt w ⟨pos, m, true⟩ = after := by
          rw [delimiterAt, if_pos rfl, ← hlimit, hat]
        unfold Refuted
        rw [hdelimiterAt]
        exact ⟨Nat.lt_of_lt_of_le hafter hend, hdelimiter, hconfirms⟩
      · rw [if_pos rfl]
        refine Or.inr (Or.inl ?_)
        show w.length < after + config.delimiterTail.width + cfg.dialect.endingTail.width
        omega
    · rw [if_neg hshort] at h
      rw [confirms_drop hgrown (by omega) hend (by omega)]
      rcases hconfirms : config.delimiterTail.confirms
          (slice w (after + 1) (config.scanEnd w recordStart m)) with _ | _
      · rw [hconfirms, if_pos (by rfl)] at h
        exact h.elim
      · rw [hconfirms, if_neg (by simp)] at h
        rw [if_pos rfl]
        exact Or.inl h
  · rw [if_neg hdelimiter] at h
    exact h.elim

omit hgrown in
/-- A stop in quotes: an escape, a doubled quote or a closing one. -/
theorem quoted_stop {m pos : ℕ} {b : UInt8} (hb : d[pos]? = some b) :
    (config.doubled = false → b = config.quotedEscape → config.stops true b = true →
        quoted cfg d m pos b = .next ⟨pos + 2, m, true⟩ ∨ quoted cfg d m pos b = .halt) ∧
      (config.doubled = false → b ≠ config.quotedEscape → config.stops true b = true →
        quoted cfg d m pos b = closed cfg d (pos + 1)) ∧
      (config.doubled = true → config.stops true b = true → quoted cfg d m pos b =
        if d[pos + 1]? = some config.quote then .next ⟨pos + 2, m, true⟩
        else closed cfg d (pos + 1)) := by
  have hat : byteAt d pos = b := by rw [byteAt, List.getD_eq_getElem?_getD, hb]; rfl
  have hquoted : config.stops true b = quotedByte cfg.dialect b := by
    unfold stops quotedByte doubled quotedEscape
    rw [hm.quote, hm.escape]
    cases cfg.dialect.escape <;> rfl
  simp only [hquoted]
  unfold quoted quotedStop doubled quotedEscape
  rw [hm.escape, hm.quote]
  rcases hescape : cfg.dialect.escape with _ | escape | _ | escape <;> simp only [hat, hescape]
  · refine ⟨fun h => (by cases h), fun h => (by cases h), fun _ hstop => ?_⟩
    rw [if_pos hstop]
    split_ifs <;> rfl
  all_goals
    refine ⟨fun _ hescape hstop => ?_, fun _ hescape hstop => ?_,
      fun h => (by cases h)⟩ <;> rw [if_pos hstop]
  · rw [if_pos hescape]
    rcases d[pos + 1]? with _ | next
    · exact Or.inr rfl
    · simp only
      split_ifs
      · exact Or.inr rfl
      · exact Or.inl rfl
  · rw [if_neg hescape]
  · rw [if_pos hescape]
    rcases d[pos + 1]? with _ | next
    · exact Or.inr rfl
    · exact Or.inl rfl
  · rw [if_neg hescape]
  · rw [if_pos hescape]
    rcases d[pos + 1]? with _ | next
    · exact Or.inr rfl
    · exact Or.inl rfl
  · rw [if_neg hescape]

include hs

theorem stepQuoted_followed {m pos : ℕ} (hlt : pos < config.scanEnd w recordStart m)
    (hstop : config.stops true (byteAt w pos) = true)
    (h : config.Comes w recordStart c (config.stepQuoted w recordStart m pos)) :
    config.Followed cfg w d recordStart c (step cfg d recordStart ⟨pos, m, true⟩) := by
  have hend := scanEnd_le config w recordStart m
  have hwidth : 0 < cfg.dialect.endingTail.width := by
    rw [width_endingTail hs]
    exact Nat.succ_pos _
  have hb := getElem?_grown hgrown (Nat.lt_of_lt_of_le hlt hend)
  have hclosed : w.length ≤ pos + 1 →
      config.Followed cfg w d recordStart c (closed cfg d (pos + 1)) := fun hedge =>
    Followed.behind hedge hwidth (closed_ahead hs (pos + 1))
  have hnext : w.length ≤ pos + 1 →
      config.Followed cfg w d recordStart c (.next ⟨pos + 2, m, true⟩) := fun hedge =>
    Or.inr (Or.inl (by simp only; omega))
  have hstep : step cfg d recordStart ⟨pos, m, true⟩ = quoted cfg d m pos (byteAt w pos) := by
    unfold step
    simp only [hb, if_true]
  obtain ⟨hescaped, hclosing, hdoubled⟩ := quoted_stop (m := m) hm hb
  rw [hstep]
  unfold stepQuoted at h
  simp only at h
  by_cases hescape : (!config.doubled && byteAt w pos == config.quotedEscape) = true
  · rw [if_pos hescape] at h
    simp only [Bool.and_eq_true, Bool.not_eq_true', beq_iff_eq] at hescape
    rcases hescaped hescape.1 hescape.2 hstop with heq | heq <;> rw [heq]
    · by_cases hedge : pos + 1 ≥ config.scanEnd w recordStart m
      · rw [if_pos hedge] at h
        obtain ⟨-, hlimit⟩ := h.pauseScan
        simp only at hlimit
        exact hnext (by omega)
      · rw [if_neg hedge] at h
        split_ifs at h
        · exact h.elim
        · exact Or.inl h
    · trivial
  rw [if_neg hescape] at h
  by_cases hedge : pos + 1 ≥ config.scanEnd w recordStart m
  · -- the byte behind the quote is not in the window
    rw [if_pos hedge] at h
    obtain ⟨-, hlimit⟩ := h.pauseScan
    simp only at hlimit
    rcases hd : config.doubled with _ | _
    · rw [hclosing hd (by simpa [hd] using hescape) hstop]
      exact hclosed (by omega)
    · rw [hdoubled hd hstop]
      split_ifs
      · exact hnext (by omega)
      · exact hclosed (by omega)
  rw [if_neg hedge] at h
  have hafter := getElem?_grown hgrown (show pos + 1 < w.length by omega)
  rcases hd : config.doubled with _ | _
  · rw [hclosing hd (by simpa [hd] using hescape) hstop]
    rw [hd, Bool.false_and, if_neg Bool.false_ne_true] at h
    exact stepClosed_followed hm hgrown (by omega) h
  · rw [hdoubled hd hstop, hafter]
    rw [hd, Bool.true_and] at h
    by_cases hpair : byteAt w (pos + 1) = config.quote
    · rw [if_pos (beq_iff_eq.mpr hpair)] at h
      rw [if_pos (congrArg some hpair)]
      exact Or.inl h
    · rw [if_neg (mt beq_iff_eq.mp hpair)] at h
      rw [if_neg (mt Option.some.inj hpair)]
      exact stepClosed_followed hm hgrown (by omega) h

end quoted

include hm hs

theorem stepUnquoted_followed {m pos : ℕ} (hm' : recordStart ≤ m ∧ m ≤ pos)
    (hlt : pos < config.scanEnd w recordStart m)
    (h : config.Comes w recordStart c (config.stepUnquoted w recordStart m pos)) :
    config.Followed cfg w d recordStart c (step cfg d recordStart ⟨pos, m, false⟩) := by
  have hend := scanEnd_le config w recordStart m
  have hb := getElem?_grown hgrown (Nat.lt_of_lt_of_le hlt hend)
  have hwidth := width_endingTail hs
  unfold stepUnquoted at h
  simp only at h
  by_cases hescape : config.escape.unquotedByte = some (byteAt w pos)
  · rw [if_pos hescape] at h
    rw [hm.escape] at hescape
    have hbd : byteAt d pos = byteAt w pos := by
      rw [byteAt, List.getD_eq_getElem?_getD, hb]; rfl
    have hstep : step cfg d recordStart ⟨pos, m, false⟩ =
        .next ⟨resumeAfterUnquotedEscape d pos, m, false⟩ := by
      rw [step_unquoted hb (fun i h1 h2 _ hi => ?_) (by simp [searchByte, hescape]), unquotedStop]
      · simp only [hbd, hescape, if_true]
      · obtain rfl : i = pos := by omega
        rw [hb] at hi
        exact absurd (Option.some.inj hi) (hs.escape _ (Or.inr hescape)).2.1
    rw [hstep]
    by_cases hedge : pos + 1 ≥ config.scanEnd w recordStart m
    · rw [if_pos hedge] at h
      obtain ⟨-, hlimit⟩ := h.pauseScan
      simp only at hlimit
      have hresume : pos + 1 ≤ resumeAfterUnquotedEscape d pos := by
        unfold resumeAfterUnquotedEscape
        split_ifs <;> omega
      exact Or.inr (Or.inl (by simp only; omega))
    · rw [if_neg hedge] at h
      have hnext := getElem?_grown hgrown (show pos + 1 < w.length by omega)
      rw [resumeAfterUnquotedEscape, hnext, Option.isSome_some, if_pos rfl]
      exact Or.inl h
  rw [if_neg hescape] at h
  by_cases hdelimiter : byteAt w pos = config.delimiter
  · rw [if_pos hdelimiter] at h
    rw [step_separator hs (by rw [hb, hdelimiter, hm.delimiter]), ← hm.delimiterTail]
    by_cases hshort : config.scanEnd w recordStart m - (pos + 1) <
        config.delimiterTail.asSlice.length
    · rw [if_pos hshort] at h
      obtain ⟨rfl, hlimit⟩ := h.pauseScan
      simp only at hlimit
      rcases hconfirms : config.delimiterTail.confirms (d.drop (pos + 1)) with _ | _
      · have hrefuted : config.Refuted w d ⟨pos, m, false⟩ :=
          ⟨Nat.lt_of_lt_of_le hlt hend, hdelimiter, hconfirms⟩
        exact hrefuted.followed _
      · rw [if_pos rfl]
        have := width_delimiterTail config
        refine Or.inr (Or.inl ?_)
        show w.length < pos + config.delimiterTail.width + cfg.dialect.endingTail.width
        omega
    · rw [if_neg hshort] at h
      rw [confirms_drop hgrown (by omega) hend (by omega)]
      rcases hconfirms : config.delimiterTail.confirms
          (slice w (pos + 1) (config.scanEnd w recordStart m)) with _ | _
      · rw [hconfirms, if_pos (by rfl)] at h
        rw [if_neg Bool.false_ne_true]
        exact Or.inl h
      · rw [hconfirms, if_neg (by simp)] at h
        rw [if_pos rfl]
        exact Or.inl h
  rw [if_neg hdelimiter] at h
  by_cases hquote : (config.quoting && byteAt w pos == config.quote) = true
  · rw [if_pos hquote] at h
    simp only [Bool.and_eq_true, beq_iff_eq, hm.quoting, hm.quote] at hquote
    obtain ⟨hquoting, hquote⟩ := hquote
    have hopens : opens cfg d recordStart m pos =
        (decide (pos = m) || (config.skipInitialSpace && m != recordStart
          && (slice w m pos).all (· == 32))) := by
      unfold opens
      rw [hm.skipInitialSpace, slice_grown hgrown (by omega)]
      rfl
    unfold stepQuote at h
    rw [← hopens] at h
    by_cases hopen : opens cfg d recordStart m pos = true
    · rw [if_pos hopen] at h
      have hstep : step cfg d recordStart ⟨pos, m, false⟩ = .next ⟨pos + 1, pos, true⟩ := by
        unfold step unquoted
        simp only [hb, Bool.false_eq_true, if_false, hquoting, hquote, hopen, beq_self_eq_true,
          Bool.and_self, if_true]
      rw [hstep]
      exact Or.inl h
    · rw [if_neg hopen] at h
      split_ifs at h with hpermits
      · rw [step_passed hb (by rw [hquote]; exact hs.delimiter_ne_quote.symm)
          (by rw [hquote]; exact hs.ending_ne_quote.symm)
          (fun _ _ => ⟨Bool.eq_false_of_not_eq_true hopen, hm.permitsUnquotedQuotes ▸ hpermits⟩)
          (fun hcrlf => by rw [hquote]; exact hs.crLf_quote hcrlf) (hm.escape ▸ hescape)]
        exact Or.inl h
      · exact h.elim
  rw [if_neg hquote] at h
  by_cases hending : byteAt w pos = config.terminator ∧ config.endingTail.isEmpty = false
  · rw [if_pos hending] at h
    rw [hm.terminator, hm.endingTail] at hending
    have hcrlf : cfg.dialect.recordEnding ≠ .crLf := by
      intro hcrlf
      have hempty := hs.ending_tail (Or.inr hcrlf)
      have hlong := hending.2
      rw [Tail.asSlice, hs.usable.2, if_neg Bool.false_ne_true] at hempty
      rw [Tail.isEmpty, hs.usable.2, hempty] at hlong
      cases hlong
    rw [step_terminator hs (by rw [hb, hending.1]) hcrlf]
    rw [hm.endingTail] at h
    by_cases hshort : config.scanEnd w recordStart m - (pos + 1) <
        cfg.dialect.endingTail.asSlice.length
    · rw [if_pos hshort] at h
      obtain ⟨-, hlimit⟩ := h.pauseScan
      simp only at hlimit
      split_ifs
      · exact Or.inl (by omega)
      · exact Or.inr (Or.inl (by simp only; omega))
    · rw [if_neg hshort] at h
      rw [confirms_drop hgrown (by omega) hend (by omega)]
      rcases hconfirms : cfg.dialect.endingTail.confirms
          (slice w (pos + 1) (config.scanEnd w recordStart m)) with _ | _
      · rw [hconfirms, if_pos (by rfl)] at h
        rw [if_neg Bool.false_ne_true]
        exact Or.inl h
      · rw [hconfirms, if_neg (by simp)] at h
        exact h.elim
  · rw [if_neg hending] at h
    exact h.elim

omit hs hgrown in
/-- A byte that stops no search. -/
theorem step_unstopped (hb : d[p.cursor]? = some (byteAt w p.cursor))
    (hstop : config.stops p.inQuotes (byteAt w p.cursor) = false) :
    step cfg d recordStart p = .next ⟨p.cursor + 1, p.fieldStart, p.inQuotes⟩ := by
  obtain ⟨pos, m, q⟩ := p
  cases q with
  | true =>
    have hquoted : quotedByte cfg.dialect (byteAt w pos) = false := by
      rw [← hstop]
      unfold stops quotedByte doubled quotedEscape
      rw [hm.quote, hm.escape]
      cases cfg.dialect.escape <;> rfl
    unfold step quoted
    simp only [hb, if_true, hquoted, Bool.false_eq_true, if_false]
  | false =>
    simp only [stops, Bool.false_eq_true, if_false, Bool.or_eq_false_iff, beq_eq_false_iff_ne,
      hm.delimiter, hm.terminator, hm.escape, hm.crlf, hm.quoting, hm.quote,
      Bool.and_eq_false_iff] at hstop
    obtain ⟨⟨⟨⟨hdelimiter, hquote⟩, hending⟩, hcr⟩, hescape⟩ := hstop
    refine step_passed hb hdelimiter hending (fun hq hquoting => ?_) (fun hcrlf => ?_) hescape
    · rcases hquote with hoff | hne
      · rw [hquoting] at hoff
        cases hoff
      · exact absurd hq hne
    · rcases hcr with hoff | hne
      · exact absurd hcrlf hoff
      · exact hne

omit hm hs hgrown in
/-- The scan passes a byte that stops no search. -/
theorem scanFrom_unstopped (hp : config.Within w recordStart p)
    (hlt : p.cursor < config.scanEnd w recordStart p.fieldStart)
    (hstop : config.stops p.inQuotes (byteAt w p.cursor) = false) :
    config.Within w recordStart ⟨p.cursor + 1, p.fieldStart, p.inQuotes⟩ ∧
      config.scanFrom w recordStart ⟨p.cursor + 1, p.fieldStart, p.inQuotes⟩ =
        config.scanFrom w recordStart p := by
  have hnext : config.Within w recordStart ⟨p.cursor + 1, p.fieldStart, p.inQuotes⟩ :=
    ⟨hp.record, Nat.le_succ_of_le hp.field, hlt⟩
  refine ⟨hnext, ?_⟩
  have hcons : slice w p.cursor (config.scanEnd w recordStart p.fieldStart) =
      byteAt w p.cursor :: slice w (p.cursor + 1) (config.scanEnd w recordStart p.fieldStart) :=
    slice_cons hlt (Nat.lt_of_lt_of_le hlt (scanEnd_le config w recordStart p.fieldStart))
  rw [scanFrom_eq hnext, scanFrom_eq hp, scanStep_eq, scanStep_eq, hcons, List.findIdx?_cons, hstop]
  simp only [Bool.false_eq_true, if_false]
  rcases (slice w (p.cursor + 1) (config.scanEnd w recordStart p.fieldStart)).findIdx?
    (config.stops p.inQuotes) with _ | relative
  · rfl
  · simp only [Option.map_some, show p.cursor + (relative + 1) = p.cursor + 1 + relative by omega]

/-- **One step**: what the scan passes on its way to a pause, the frame passes. -/
theorem scanFrom_followed (hp : config.Within w recordStart p)
    (h : config.scanFrom w recordStart p = some c) :
    config.Followed cfg w d recordStart c (step cfg d recordStart p) := by
  have hend := scanEnd_le config w recordStart p.fieldStart
  have hcomes := comes_of_scanFrom hp h
  rw [scanStep_eq] at hcomes
  by_cases hlt : p.cursor < config.scanEnd w recordStart p.fieldStart
  swap
  · rw [slice, List.drop_eq_nil_of_le (by rw [List.length_take]; omega), List.findIdx?_nil] at hcomes
    obtain ⟨-, hlimit⟩ := hcomes.pauseScan
    simp only at hlimit
    exact Followed.behind (by omega) (by rw [width_endingTail hs]; exact Nat.succ_pos _)
      (step_ahead d recordStart hs p)
  have hb := getElem?_grown hgrown (Nat.lt_of_lt_of_le hlt hend)
  rcases hstop : config.stops p.inQuotes (byteAt w p.cursor) with _ | _
  · obtain ⟨hnext, hsame⟩ := scanFrom_unstopped hp hlt hstop
    rw [step_unstopped hm hb hstop]
    exact Or.inl ⟨hnext, hsame.trans h⟩
  · rw [slice_cons hlt (Nat.lt_of_lt_of_le hlt hend), List.findIdx?_cons, hstop] at hcomes
    obtain ⟨pos, m, q⟩ := p
    cases q with
    | true => exact stepQuoted_followed hm hs hgrown hlt hstop hcomes
    | false => exact stepUnquoted_followed hm hs hgrown ⟨hp.record, hp.field⟩ hlt hcomes

/-- **A pause in front of a record end** waits for the tail of a delimiter that
    the text does not go on. -/
theorem scanFrom_stops {stop : ℕ} (hstops : Stops cfg d recordStart p stop)
    (hp : config.Within w recordStart p) (h : config.scanFrom w recordStart p = some c)
    (hle : stop ≤ w.length) : config.Refuted w d c := by
  induction hstops with
  | @ends p stop hends =>
    have hfollowed := scanFrom_followed hm hs hgrown hp h
    rw [hends] at hfollowed
    rcases hfollowed with hbehind | hrefuted
    · omega
    · exact hrefuted
  | @next p q stop hnext hstops ih =>
    have hfollowed := scanFrom_followed hm hs hgrown hp h
    rw [hnext] at hfollowed
    rcases hfollowed with ⟨hq, hscan⟩ | hbehind | hrefuted
    · exact ih hq hscan hle
    · have hahead := hstops.ahead hs
      omega
    · exact hrefuted

end step

end WindowScanConfig

end Coseva
