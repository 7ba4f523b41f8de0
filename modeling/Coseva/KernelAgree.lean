/-
  Coseva — a record that a kernel of the default dialect takes, the general
  parser takes as well, when the limits cannot bite in it.

  * `plainLoop_short`: the plain kernel takes the record or finds a quote;
  * `fieldsLoop_short`: the field-by-field parser takes what the kernel that
    knows quotes takes.
-/
import Coseva.Cut

namespace Coseva

namespace Engine

open Run

variable {cfg : ParserSettings} {F : CsvFormat} {input : Bytes} {start stop : ℕ} {e : Engine}

/-! ## The plain kernel -/

section plain

variable (h : Splits cfg F) (hfit : cfg.limits.Fits (stop - start)) (hlt : stop < input.length)

include hfit

theorem pushSpan_short {source : Source} {i j byte : ℕ} {quoted : Bool}
    (hlen : e.spans.len < stop - start) (hwidth : j - i ≤ stop - start) :
    pushSpan cfg input source i j byte quoted e = .ok () (e.parsed e.location
      (e.spans.push ⟨source, i, j, quoted, false⟩) e.terminated) := by
  have h1 := hfit.field
  have h2 := hfit.fields
  rw [pushSpan, SpanStorage.tryPushBounded, if_neg]
  · rfl
  simp only [ge_iff_le, gt_iff_lt, Bool.or_eq_true, decide_eq_true_eq, not_or]
  omega

theorem checkRecordLimit_short {byte : ℕ} (hbyte : byte ≤ stop) :
    checkRecordLimit cfg input start byte e = .ok () e := by
  have h1 := hfit.record
  unfold checkRecordLimit
  rw [checkRecordLimitFor, if_neg (by omega)]; rfl

theorem checkScratchLimit_short {scratchStart byte : ℕ}
    (hscratch : e.spans.scratch.length ≤ scratchStart + (stop - start)) :
    checkScratchLimit cfg input scratchStart byte e = .ok () e := by
  have h1 := hfit.field
  rw [checkScratchLimit, if_neg (by omega)]

theorem endPlainRecord_short {fieldStart fieldEnd pos location : ℕ} {terminated : Bool}
    (hlen : e.spans.len < stop - start) (hstart : start ≤ fieldStart) (hend : fieldEnd ≤ stop)
    (hlocation : location ≤ stop) :
    ∃ e', endPlainRecord cfg F input start fieldStart fieldEnd pos location terminated e =
      .ok true e' := by
  unfold endPlainRecord
  rw [bind_ok (pushSpan_short hfit hlen (by omega)), bind_ok (setLocation_apply ..),
    bind_ok (setTerminated_apply ..), bind_ok (checkRecordLimit_short hfit hlocation)]
  obtain ⟨l, u, hfold⟩ := @foldPlainRecord_apply (((e.parsed e.location
    (e.spans.push ⟨.input, fieldStart, fieldEnd, false, false⟩) e.terminated).parsed location _
      _).parsed _ _ terminated) cfg F start terminated
  exact ⟨_, bind_ok hfold⟩

include h hlt

/-- The plain kernel ends the record, or it finds a quote in it. -/
theorem plainLoop_short :
    ∀ (text : Bytes) (pos fieldStart : ℕ) (e : Engine), start ≤ fieldStart → fieldStart ≤ pos →
      pos ≤ plainEnd cfg input start → slice input pos (plainEnd cfg input start) = text →
      Open cfg.dialect input stop false pos → e.spans.len ≤ pos - start →
      ∃ taken e', plainLoop cfg F input start (plainEnd cfg input start) fieldStart
          (structuralMatches cfg.dialect pos text) e = .ok taken e' ∧
        (taken = false → cfg.dialect.quote ∈ slice input pos stop ∧ e'.spans.len = 0) := by
  intro text
  induction text with
  | nil =>
    intro pos fieldStart e hstart hfield hle htext hopen hlen
    have hpos := hopen.lt_stop hlt
    have h1 := hfit.record
    have := congrArg List.length htext
    simp only [slice, List.length_drop, List.length_take, List.length_nil] at this
    unfold plainEnd at this hle
    omega
  | cons b text ih =>
    intro pos fieldStart e hstart hfield hle htext hopen hlen
    have hin := hopen.lt_stop hlt
    have hpos : pos < plainEnd cfg input start := by
      have := congrArg List.length htext
      simp only [slice, List.length_drop, List.length_take, List.length_cons] at this
      omega
    rw [slice_cons hpos (by omega)] at htext
    obtain ⟨hb, hrest⟩ := List.cons.inj htext
    have hdrop : input.drop pos = b :: input.drop (pos + 1) := by
      rw [List.drop_eq_getElem_cons (by omega), ← hb]
      unfold byteAt
      rw [List.getD_eq_getElem _ _ (by omega)]
    have hnext : b ≠ cfg.dialect.quote → b ≠ cfg.dialect.recordEnding.byte →
        ∀ (fieldStart : ℕ) (e : Engine), start ≤ fieldStart → fieldStart ≤ pos + 1 →
          e.spans.len ≤ pos + 1 - start →
          ∃ taken e', plainLoop cfg F input start (plainEnd cfg input start) fieldStart
              (structuralMatches cfg.dialect (pos + 1) text) e = .ok taken e' ∧
            (taken = false → cfg.dialect.quote ∈ slice input pos stop ∧ e'.spans.len = 0) := by
      intro hq he fieldStart e hstart hfield hlen
      obtain ⟨taken, e', hrun, htaken⟩ := ih (pos + 1) fieldStart e hstart hfield
        hpos hrest (hopen.other hdrop hq he) hlen
      refine ⟨taken, e', hrun, fun ht => ⟨?_, (htaken ht).2⟩⟩
      rw [slice_cons hin (by omega)]
      exact List.mem_cons_of_mem _ (htaken ht).1
    rw [structuralMatches]
    split_ifs with hmatch
    · rw [plainLoop]
      simp only [h.follows.dialect, h.follows.syntax', hasEscape_false h, h.quoting,
        h.unquotedQuotes, or_true, and_true, Bool.false_eq_true, if_false]
      by_cases hdelimiter : b = cfg.dialect.delimiter
      · rw [if_pos hdelimiter, bind_ok (pushSpan_short hfit (by omega) (by omega))]
        refine hnext (hdelimiter ▸ h.sound.delimiter_ne_quote)
          (hdelimiter ▸ h.sound.ending_ne_delimiter.symm) _ _ (by omega) (Nat.le_refl _) ?_
        show (e.spans.push _).len ≤ pos + 1 - start
        simp only [SpanStorage.len, SpanStorage.push, List.length_append, List.length_singleton]
        have : e.spans.spans.length ≤ pos - start := hlen
        omega
      rw [if_neg hdelimiter]
      by_cases hquote : b = cfg.dialect.quote
      · rw [if_pos hquote]
        refine ⟨false, _, rfl, fun _ => ⟨?_, rfl⟩⟩
        rw [slice_cons hin (by omega), hb, hquote]
        exact List.mem_cons_self
      rw [if_neg hquote]
      by_cases hending : b = cfg.dialect.recordEnding.byte
      · rw [if_pos hending]
        have hstop := hopen.ending (hending ▸ hdrop) h.sound.ending_ne_quote
        have hstrip : (if cfg.dialect.recordEnding.stripsCr = true then stripCr input fieldStart pos
            else pos) ≤ stop := by
          unfold stripCr
          split_ifs <;> omega
        have hlen' : e.spans.len < stop - start := by omega
        obtain ⟨e', hrun⟩ : ∃ e', endPlainRecord cfg F input start fieldStart _ pos (pos + 1) true e =
            .ok true e' := endPlainRecord_short hfit hlen' hstart hstrip (Nat.le_of_eq hstop.symm)
        exact ⟨true, e', hrun, fun h => (by cases h)⟩
      · rw [if_neg hending]
        exact hnext hquote hending _ e hstart (by omega) (by omega)
    · simp only [Bool.or_eq_true, beq_iff_eq, not_or] at hmatch
      exact hnext hmatch.1.2 hmatch.2 _ e hstart (by omega) (by omega)

end plain

/-! ## The field-by-field parser -/

/-- The settings of a parser that may use the kernels of the default dialect. -/
structure Default (cfg : ParserSettings) (F : CsvFormat) : Prop where
  follows : cfg.Follows F
  csv : Csv cfg.toFormatSettings
  trim : cfg.trim = .none
  initialSpace : cfg.skipInitialSpace = false
  fieldCount : cfg.fieldCount = .flexible
  limits : cfg.limits = .default

section fields

variable (hd : Default cfg F) (hfit : cfg.limits.Fits (stop - start))

include hfit

theorem lt_scanEnd_short (pos fieldStart : ℕ) (hpos : pos < stop) (hin : stop ≤ input.length)
    (hstart : start ≤ fieldStart) : pos < scanEnd cfg input start fieldStart := by
  have h1 := hfit.record
  have h2 := hfit.field
  unfold scanEnd
  omega

include hd

/-- A bare field in front of a comma or a line feed. -/
theorem parseField_bare_short {u v : Bytes} {x : UInt8} (header : Bool)
    (hdrop : input.drop e.location = u ++ x :: v) (hu : ∀ b ∈ u, b ≠ 44 ∧ b ≠ 34 ∧ b ≠ 10)
    (hx : x = 44 ∨ x = 10) (hstart : start ≤ e.location) (hstop : e.location + u.length + 1 ≤ stop)
    (hin : stop ≤ input.length) (hlen : e.spans.len < stop - start) :
    ∃ e', parseField cfg F input start header e = .ok (x == 10) e' ∧
      e'.location = e.location + u.length + 1 ∧ e'.spans.len = e.spans.len + 1 := by
  have hspaces : skipDelimiterSpaces cfg input F start e = .ok () e := by
    unfold skipDelimiterSpaces
    rw [get_bind, hd.follows.skipInitialSpace, hd.initialSpace]; rfl
  have hdialect : cfg.dialect = .csv := hd.csv.dialect
  have hrules : cfg.syntax' = .strict := hd.csv.syntax'
  have hx34 : x ≠ 34 := by rcases hx with rfl | rfl <;> decide
  have hfirst : input[e.location]? ≠ some 34 := by
    rw [← List.head?_drop, hdrop]
    cases u with
    | nil => simpa using hx34
    | cons b u => simpa using (hu b List.mem_cons_self).2.1
  have hgeneral : cfg.fmtGeneralParsing F = false := by
    unfold ParserSettings.fmtGeneralParsing
    rw [hd.follows.dialect, hd.follows.trim, hdialect, hd.trim]; rfl
  have hscan := lt_scanEnd_short hfit (e.location + u.length) e.location (by omega) hin hstart
  have hle := scanEnd_le cfg input start e.location
  have hfind : find3 44 34 10 (slice input e.location (scanEnd cfg input start e.location)) =
      some u.length := by
    refine Window.window_findIdx? hdrop (fun b hb => ?_) ?_ hscan
    · obtain ⟨h1, h2, h3⟩ := hu b hb
      simp only [Bool.or_eq_false_iff, beq_eq_false_iff_ne]
      exact ⟨⟨h1, h2⟩, h3⟩
    · rcases hx with rfl | rfl <;> rfl
  have hbyte : byteAt input (e.location + u.length) = x := byteAt_of_drop hdrop rfl
  unfold parseField
  rw [bind_ok hspaces, get_bind, hd.follows.dialect, hdialect, if_neg fun hq => hfirst hq.1]
  unfold parseUnquotedField
  rw [if_neg (by simp [hgeneral])]
  unfold parseUnquotedFieldRuntime
  rw [get_bind]
  have hseek : (Syntax.strict.quotingEnabled && !Syntax.strict.permitsUnquotedQuotes) = true := rfl
  have hbytes : ∀ l, find3 Dialect.csv.delimiter Dialect.csv.quote Dialect.csv.recordEnding.byte l =
      find3 44 34 10 l := fun _ => rfl
  simp only [hd.follows.dialect, hd.follows.syntax', hdialect, hrules, hseek, if_true, hbytes,
    hfind, hbyte]
  rw [if_neg (by omega), if_neg (by exact hx34)]
  rw [bind_ok (pushSpan_short hfit hlen ?_), bind_ok (setLocation_apply ..),
    bind_ok (noteTerminatedIf_apply ..), bind_ok (checkRecordLimit_short hfit (by omega))]
  · exact ⟨_, rfl, rfl, List.length_append⟩
  · split_ifs <;> omega

/-- What stands behind a closing quote: a comma, or the end of the record. -/
def QuoteEnd (input : Bytes) (pos : ℕ) (last : Bool) (location : ℕ) : Prop :=
  (input[pos]? = some 44 ∧ last = false ∧ location = pos + 1) ∨
  (input[pos]? = some 10 ∧ last = true ∧ location = pos + 1) ∨
  (input[pos]? = some 13 ∧ input[pos + 1]? = some 10 ∧ last = true ∧ location = pos + 2)

theorem finishQuotedField_short {afterQuote location : ℕ} {last : Bool}
    (hend : QuoteEnd input afterQuote last location) (hlocation : location ≤ stop) (e : Engine) :
    ∃ e', finishQuotedField cfg F input start afterQuote e = .ok last e' ∧
      e'.location = location ∧ e'.spans = e.spans := by
  have hdialect : cfg.dialect = .csv := hd.csv.dialect
  have hrules : cfg.syntax' = .strict := hd.csv.syntax'
  have hspaces : ∀ pos, skipPostQuoteWhitespace input Syntax.strict.permitsTrailingWhitespace pos =
      pos := fun _ => rfl
  have hconfirms : ∀ after, Dialect.csv.delimiterTail.confirms after = true ∧
      Dialect.csv.endingTail.confirms after = true := fun _ => ⟨rfl, rfl⟩
  have hwidths : Dialect.csv.delimiterTail.width = 1 ∧ Dialect.csv.endingTail.width = 1 :=
    ⟨rfl, rfl⟩
  have hrecord : ∀ t, ∃ e', endQuotedRecord cfg input start location t e = .ok true e' ∧
      e'.location = location ∧ e'.spans = e.spans := by
    intro t
    unfold endQuotedRecord
    rw [bind_ok (setLocation_apply ..), bind_ok (setTerminated_apply ..),
      bind_ok (checkRecordLimit_short hfit hlocation)]
    exact ⟨_, rfl, rfl, rfl⟩
  unfold finishQuotedField
  simp only [hd.follows.dialect, hd.follows.syntax', hdialect, hrules, hspaces, hconfirms, hwidths,
    Bool.and_true]
  rcases hend with ⟨hbyte, rfl, rfl⟩ | ⟨hbyte, rfl, rfl⟩ | ⟨hbyte, hnext, rfl, rfl⟩
  · rw [hbyte]
    exact ⟨_, rfl, rfl, rfl⟩
  · rw [hbyte]
    exact hrecord true
  · have hhead : (input.drop (afterQuote + 1)).head? = some 10 := by rw [List.head?_drop, hnext]
    rw [hbyte]
    simp only [hhead]
    exact hrecord true

theorem closeQuotedField_short {contentStart scratchStart segmentStart pos location : ℕ}
    {last : Bool} (copied : Bool) (hend : QuoteEnd input (pos + 1) last location)
    (hlocation : location ≤ stop) (hlen : e.spans.len < stop - start)
    (hwidth : pos - contentStart ≤ stop - start)
    (hscratch : e.spans.scratch.length + (pos - segmentStart) ≤ scratchStart + (stop - start)) :
    ∃ e', closeQuotedField cfg F input start contentStart scratchStart segmentStart pos copied e =
        .ok last e' ∧ e'.location = location ∧ e'.spans.len = e.spans.len + 1 := by
  have hpush : ∀ (source : Source) (i j : ℕ) (e : Engine), e.spans.len < stop - start →
      j - i ≤ stop - start → ∃ e', (do
          pushSpan cfg input source i j pos true
          finishQuotedField cfg F input start (pos + 1) : Parse Bool) e = .ok last e' ∧
        e'.location = location ∧ e'.spans.len = e.spans.len + 1 := by
    intro source i j e hlen hwidth
    obtain ⟨e', hrun, hmoved, hspans⟩ := finishQuotedField_short hd hfit hend hlocation
      (e.parsed e.location (e.spans.push ⟨source, i, j, true, false⟩) e.terminated)
    rw [bind_ok (pushSpan_short hfit hlen hwidth)]
    exact ⟨e', hrun, hmoved, by rw [hspans]; exact List.length_append⟩
  unfold closeQuotedField
  cases copied with
  | true =>
    simp only [if_true]
    rw [bind_ok (extendScratch_apply ..), get_bind]
    refine hpush _ _ _ _ hlen ?_
    simp only [parsed_spans, SpanStorage.extendScratch, List.length_append, slice,
      List.length_drop, List.length_take]
    omega
  | false =>
    simp only [Bool.false_eq_true, if_false]
    rw [get_bind]
    exact hpush _ _ _ e hlen hwidth

omit hfit hd in
theorem borrowedClosing_le {scan : Bytes} {closing : ℕ} :
    ∀ (fuel cursor segment : ℕ) (scratch : Bytes),
      (borrowedClosing scan fuel cursor segment scratch).map Prod.fst = some closing →
      cursor ≤ closing ∧ closing < scan.length
  | 0, _, _, _, hclosing => by cases hclosing
  | fuel + 1, cursor, segment, scratch, hclosing => by
    rw [borrowedClosing] at hclosing
    rcases hfind : find1 34 (scan.drop cursor) with _ | relative
    · rw [hfind] at hclosing; cases hclosing
    obtain ⟨u, x, v, hl, hlen, -, -⟩ := Window.of_findIdx?_some hfind
    have hlt : cursor + relative < scan.length := by
      have := congrArg List.length hl
      simp only [List.length_drop, List.length_append, List.length_cons] at this
      omega
    rw [hfind] at hclosing
    simp only at hclosing
    split_ifs at hclosing
    · obtain rfl : cursor + relative = closing := Option.some.inj hclosing
      exact ⟨Nat.le_add_right _ _, hlt⟩
    · have := borrowedClosing_le fuel _ _ _ hclosing
      exact ⟨by omega, this.2⟩

/-- The closing quote that the kernel finds closes the field. -/
theorem quotedLoop_short {scan rest : Bytes} (hsuffix : input.drop start = scan ++ rest)
    {contentStart scratchStart closing location : ℕ} {last : Bool}
    (hcontent : start ≤ contentStart) (hstop : start + closing + 1 ≤ stop)
    (hend : QuoteEnd input (start + closing + 1) last location) (hlocation : location ≤ stop)
    (hin : stop ≤ input.length) :
    ∀ (fuel fuel' cursor segment : ℕ) (scratch : Bytes) (copied : Bool) (segmentStart : ℕ)
      (e : Engine), cursor ≤ scan.length → contentStart ≤ start + cursor →
      (borrowedClosing scan fuel cursor segment scratch).map Prod.fst = some closing →
      input.length + 2 ≤ fuel' + (start + cursor) → segmentStart = start + cursor →
      e.spans.len < stop - start →
      e.spans.scratch.length ≤ scratchStart + (if copied then start + cursor - contentStart else 0) →
      ∃ e', quotedLoop cfg F input start contentStart scratchStart fuel' segmentStart
          (start + cursor) copied e = .ok last e' ∧ e'.location = location ∧
        e'.spans.len = e.spans.len + 1
  | 0, _, _, _, _, _, _, _, _, _, hclosing, _, _, _, _ => by cases hclosing
  | fuel + 1, fuel', cursor, segment, scratch, copied, segmentStart, e, hcursor, hle, hclosing,
      hfuel, hsegment, hlen, hscratch => by
    have hdialect : cfg.dialect = .csv := hd.csv.dialect
    have hbound := borrowedClosing_le (fuel + 1) cursor segment scratch hclosing
    obtain ⟨fuel', rfl⟩ : ∃ n, fuel' = n + 1 := ⟨fuel' - 1, by omega⟩
    rw [borrowedClosing] at hclosing
    rcases hfind : find1 34 (scan.drop cursor) with _ | relative
    · rw [hfind] at hclosing; cases hclosing
    obtain ⟨u, x, v, hl, hlen', hx, hu⟩ := Window.of_findIdx?_some hfind
    have hdrop : input.drop (start + cursor) = u ++ x :: (v ++ rest) := by
      rw [drop_of_scan hsuffix hcursor, hl]; simp
    rw [hfind] at hclosing
    simp only at hclosing
    rw [quotedLoop]
    simp only [hd.follows.dialect, hdialect]
    have hwithin := lt_scanEnd_short hfit (start + cursor) contentStart (by omega) hin hcontent
    rw [if_neg (by omega)]
    have hrelative : cursor + relative ≤ closing := by
      split_ifs at hclosing
      · exact Nat.le_of_eq (Option.some.inj hclosing)
      · have := (borrowedClosing_le fuel _ _ _ hclosing).1
        omega
    have hscan := lt_scanEnd_short hfit (start + cursor + relative) contentStart (by omega) hin
      hcontent
    have hsearch : findQuoted Dialect.csv (slice input (start + cursor)
        (scanEnd cfg input start contentStart)) = some relative := by
      rw [← hlen']
      exact Window.window_findIdx? hdrop hu hx (by rw [hlen']; exact hscan)
    have hstopEq : ∀ (scanEnd pos : ℕ), quotedStop input (cfg.fmt F) scanEnd pos =
        if input[pos + 1]? = some 34 then .escaped 34 else .closing := by
      intro scanEnd pos
      simp only [quotedStop, hd.follows.dialect, hdialect]
      rfl
    rw [hsearch]
    simp only [hstopEq]
    by_cases hnext : scan[cursor + relative + 1]? = some 34
    · rw [if_neg (by simpa using hnext)] at hclosing
      have hagain : input[start + cursor + relative + 1]? = some 34 := by
        have hat := (List.getElem?_eq_some_iff.mp hnext).1
        rw [show start + cursor + relative + 1 = start + (cursor + relative + 1) by omega,
          ← List.getElem?_drop, hsuffix, List.getElem?_append_left hat, hnext]
      have hrest := borrowedClosing_le fuel _ _ _ hclosing
      rw [if_pos hagain]
      simp only
      unfold copySegment
      rw [bind_ok (extendScratch_apply ..), bind_ok (extendScratch_apply ..)]
      have hgrown : (e.spans.scratch ++ ((if copied then [] else slice input contentStart segmentStart)
          ++ slice input segmentStart (start + cursor + relative)) ++ [34]).length ≤
          scratchStart + (start + (cursor + relative + 2) - contentStart - 1) := by
        simp only [List.length_append, List.length_singleton]
        have hsegment' : (slice input segmentStart (start + cursor + relative)).length ≤ relative := by
          simp only [slice, List.length_drop, List.length_take]
          omega
        cases copied with
        | true =>
          simp only [if_true, List.length_nil] at hscratch ⊢
          omega
        | false =>
          have hcopied : (slice input contentStart segmentStart).length ≤
              start + cursor - contentStart := by
            simp only [slice, List.length_drop, List.length_take]
            omega
          simp only [Bool.false_eq_true, if_false] at hscratch ⊢
          omega
      rw [bind_ok (checkScratchLimit_short hfit (Nat.le_trans hgrown (by omega))),
        show start + cursor + relative + 2 = start + (cursor + relative + 2) by omega]
      exact quotedLoop_short hsuffix hcontent hstop hend hlocation hin fuel fuel' _ _ _ true _ _
        (by omega) (by omega) hclosing (by omega) rfl hlen (Nat.le_trans hgrown (by rw [if_pos rfl]; omega))
    · rw [if_pos (by simpa using hnext)] at hclosing
      obtain rfl : cursor + relative = closing := Option.some.inj hclosing
      have hne : input[start + cursor + relative + 1]? ≠ some 34 := by
        rw [Nat.add_assoc start]
        rintro hq
        rcases hend with ⟨hb, -⟩ | ⟨hb, -⟩ | ⟨hb, -⟩ <;> rw [hq] at hb <;> cases hb
      rw [if_neg hne]
      refine closeQuotedField_short hd hfit copied ?_ hlocation hlen ?_ ?_
      · rw [Nat.add_assoc start]
        exact hend
      · omega
      · split_ifs at hscratch <;> omega

omit hfit in
/-- What follows the last field. -/
theorem endFields_short (header : Bool) (e : Engine) : ∃ e', (do
      markNullSpans cfg F input header
      let e ← get
      validateFieldCount cfg input e.spans.len : Parse Unit) e = .ok () e' := by
  have hmark : markNullSpans cfg F input header e = .ok () e := by
    unfold markNullSpans
    rw [hd.follows.nulls, if_pos (Or.inl hd.csv.nulls)]; rfl
  rw [bind_ok hmark, get_bind]
  unfold validateFieldCount
  rw [get_bind, hd.fieldCount]
  exact ⟨e, rfl⟩

/-- **The field-by-field parser** takes what the kernel that knows quotes
    takes. -/
theorem fieldsLoop_short {scan rest : Bytes} (hsuffix : input.drop start = scan ++ rest)
    (hlt : stop < input.length) (hscan : stop ≤ start + scan.length) (limits : Option Limits)
    (suffix : Bytes) (header : Bool) :
    ∀ (fuel fieldsAdded fieldStart : ℕ) (storage : SpanStorage) (fuel' : ℕ) (e : Engine)
      {taken : ℕ × Bool × SpanStorage}, fieldStart ≤ scan.length →
      Open cfg.dialect input stop false (start + fieldStart) →
      borrowedRecordLoop limits suffix scan start fuel fieldsAdded fieldStart storage = some taken →
      e.location = start + fieldStart → e.spans.len ≤ fieldStart →
      input.length + 1 ≤ fuel' + e.location →
      ∃ e', fieldsLoop cfg F input start header fuel' e = .ok () e' := by
  intro fuel
  induction fuel with
  | zero =>
    intro _ _ _ _ _ _ _ _ hrun
    cases hrun
  | succ fuel ih =>
    intro fieldsAdded fieldStart storage fuel' e taken hfield hopen hrun hlocation hlen hfuel
    have hdialect : cfg.dialect = .csv := hd.csv.dialect
    have hq : cfg.dialect.quote = 34 := by rw [hdialect]; rfl
    have he : cfg.dialect.recordEnding.byte = 10 := by rw [hdialect]; rfl
    have hne : cfg.dialect.recordEnding.byte ≠ cfg.dialect.quote := by rw [hdialect]; decide
    have hin := hopen.lt_stop hlt
    obtain ⟨fuel', rfl⟩ : ∃ n, fuel' = n + 1 := ⟨fuel' - 1, by omega⟩
    have hbyte : ∀ {i : ℕ} {b : UInt8}, scan[i]? = some b → input[start + i]? = some b := by
      intro i b hb
      have hat := (List.getElem?_eq_some_iff.mp hb).1
      rw [← List.getElem?_drop, hsuffix, List.getElem?_append_left hat, hb]
    have hcons : ∀ {i : ℕ} {b : UInt8}, scan[i]? = some b →
        input.drop (start + i) = b :: input.drop (start + i + 1) := by
      intro i b hb
      have hget := hbyte hb
      rw [List.drop_eq_getElem_cons (List.getElem?_eq_some_iff.mp hget).1,
        (List.getElem?_eq_some_iff.mp hget).2]
    -- the loop goes on behind the field, or the record ends with it
    have hstep : ∀ (last : Bool) (e' : Engine),
        parseField cfg F input start header e = .ok last e' →
        (last = false → ∃ e'', fieldsLoop cfg F input start header fuel' e' = .ok () e'') →
        ∃ e'', fieldsLoop cfg F input start header (fuel' + 1) e = .ok () e'' := by
      intro last e' hparse hmore
      rw [fieldsLoop, bind_ok hparse]
      cases last with
      | true => exact endFields_short hd header e'
      | false => exact hmore rfl
    rw [borrowedRecordLoop] at hrun
    simp only at hrun
    by_cases hfields : limits.any (fun l => fieldsAdded = l.maxFields) = true
    · rw [if_pos hfields] at hrun; cases hrun
    rw [if_neg hfields, if_neg (by omega)] at hrun
    by_cases hquote : scan[fieldStart]? = some 34
    · -- a quoted field
      rw [if_pos hquote] at hrun
      have hopened := hopen.quote (hq ▸ hcons hquote) hne
      rcases hclosing : borrowedClosing scan (scan.length + 1) (fieldStart + 1) (fieldStart + 1)
        storage.scratch with _ | ⟨closing, segment, scratch⟩
      · rw [hclosing] at hrun; cases hrun
      have hat := (List.getElem?_eq_some_iff.mp hquote).1
      obtain ⟨h1, h2, h3, -⟩ := borrowedClosing_lands hdialect hsuffix (scan.length + 1)
        (fieldStart + 1) (fieldStart + 1) storage.scratch (by omega) hopened hclosing
      have hbehind := h3.lt_stop hlt
      have hspaces : skipDelimiterSpaces cfg input F start e = .ok () e := by
        unfold skipDelimiterSpaces
        rw [get_bind, hd.follows.skipInitialSpace, hd.initialSpace]; rfl
      have hparse : ∀ (last : Bool) (location : ℕ), location ≤ stop →
          QuoteEnd input (start + closing + 1) last location →
          ∃ e', parseField cfg F input start header e = .ok last e' ∧ e'.location = location ∧
            e'.spans.len = e.spans.len + 1 := by
        intro last location hle hend
        unfold parseField
        rw [bind_ok hspaces, get_bind, hd.follows.dialect, hd.follows.syntax', hdialect,
          hd.csv.syntax', hlocation, if_pos ⟨hbyte hquote, rfl⟩]
        unfold parseQuotedField
        rw [get_bind, hlocation]
        exact quotedLoop_short hd hfit hsuffix (by omega) (by omega) hend hle (by omega)
          (scan.length + 1) _ (fieldStart + 1) (fieldStart + 1) storage.scratch false _ e (by omega)
          (by omega) (by rw [hclosing]; rfl) (by omega) (by omega) (by omega)
          (Nat.le_of_eq (by rw [if_neg Bool.false_ne_true, Nat.add_zero]))
      rw [hclosing] at hrun
      simp only at hrun
      by_cases hexceeds : limits.any (fun l => closing + 1 - fieldStart > l.maxFieldBytes) = true
      · rw [if_pos hexceeds] at hrun; cases hrun
      rw [if_neg hexceeds] at hrun
      rcases hnext : scan[closing + 1]? with _ | next
      · have := List.getElem?_eq_none_iff.mp hnext
        omega
      rw [hnext] at hrun
      simp only at hrun
      have hcomma' := hbyte hnext
      rw [← Nat.add_assoc] at hcomma'
      split_ifs at hrun with hcomma hlf hcr
      · obtain ⟨e', hparse', hmoved, hspans⟩ := hparse false (start + closing + 2) (by omega)
          (Or.inl ⟨by rw [hcomma', hcomma], rfl, by omega⟩)
        have hopen' := h3.other (hcons hnext) (by rw [hq, hcomma]; decide)
          (by rw [he, hcomma]; decide)
        refine hstep false e' hparse' fun _ => ih _ (closing + 2) _ fuel' e' (by omega) ?_ hrun (by omega) (by omega) (by omega)
        rwa [show start + (closing + 2) = start + (closing + 1) + 1 by omega]
      · have hending : input.drop (start + (closing + 1)) =
            cfg.dialect.recordEnding.byte :: input.drop (start + (closing + 1) + 1) := by
          rw [hcons hnext, hlf, he]
        have hstop := h3.ending hending hne
        obtain ⟨e', hparse', -⟩ := hparse true stop (Nat.le_refl _)
          (Or.inr (Or.inl ⟨by rw [hcomma', hlf], rfl, by omega⟩))
        exact hstep true e' hparse' fun h => (by cases h)
      · have hopen' := h3.other (hcons hnext) (by rw [hq, hcr.1]; decide) (by rw [he, hcr.1]; decide)
        have hending : input.drop (start + (closing + 2)) =
            cfg.dialect.recordEnding.byte :: input.drop (start + (closing + 2) + 1) := by
          rw [he]
          exact hcons hcr.2
        have hstop := hopen'.ending hending hne
        have hfeed := hbyte hcr.2
        rw [← Nat.add_assoc] at hfeed
        obtain ⟨e', hparse', -⟩ := hparse true stop (Nat.le_refl _)
          (Or.inr (Or.inr ⟨by rw [hcomma', hcr.1], hfeed, rfl, by omega⟩))
        exact hstep true e' hparse' fun h => (by cases h)
    · -- a bare field
      rw [if_neg hquote] at hrun
      rcases hfind : find3 44 34 10 (scan.drop fieldStart) with _ | relative
      · have hclean := List.findIdx?_eq_none_iff.mp hfind
        have hend' := hopen.skip (drop_of_scan hsuffix hfield) fun b hb => by
          have := hclean b hb
          simp only [Bool.or_eq_false_iff, beq_eq_false_iff_ne] at this
          rw [hq, he]
          exact ⟨this.1.2, fun _ => this.2⟩
        rw [List.length_drop] at hend'
        have := hend'.lt_stop hlt
        omega
      obtain ⟨u, x, v, hl, hlen', hx, hu⟩ := Window.of_findIdx?_some hfind
      have hclean : ∀ b ∈ u, b ≠ 44 ∧ b ≠ 34 ∧ b ≠ 10 := fun b hb => by
        have := hu b hb
        simp only [Bool.or_eq_false_iff, beq_eq_false_iff_ne] at this
        exact ⟨this.1.1, this.1.2, this.2⟩
      have hdrop : input.drop (start + fieldStart) = u ++ x :: (v ++ rest) := by
        rw [drop_of_scan hsuffix hfield, hl]; simp
      have hget : scan[fieldStart + relative]? = some x :=
        Window.getElem?_of_drop hl (by rw [hlen'])
      have hbyte' : byteAt scan (fieldStart + relative) = x := by
        rw [byteAt, List.getD_eq_getElem?_getD, hget]; rfl
      have hpos := hopen.skip hdrop fun b hb => by
        rw [hq, he]
        exact ⟨(hclean b hb).2.1, fun _ => (hclean b hb).2.2⟩
      rw [hlen', Nat.add_assoc] at hpos
      have hbehind := hpos.lt_stop hlt
      have hat := (List.getElem?_eq_some_iff.mp hget).1
      have hparse : x = 44 ∨ x = 10 → ∃ e', parseField cfg F input start header e =
          .ok (x == 10) e' ∧ e'.location = start + fieldStart + u.length + 1 ∧
          e'.spans.len = e.spans.len + 1 := by
        intro hx
        rw [← hlocation]
        exact parseField_bare_short hd hfit header (by rw [hlocation]; exact hdrop) hclean hx
          (by omega) (by omega) (by omega) (by omega)
      rw [hfind] at hrun
      simp only [hbyte'] at hrun
      split_ifs at hrun with hcomma hexceeds hlf hexceeds
      · obtain ⟨e', hparse', hmoved, hspans⟩ := hparse (Or.inl hcomma)
        have hopen' := hpos.other (hcons hget) (by rw [hq, hcomma]; decide)
          (by rw [he, hcomma]; decide)
        refine hstep _ e' hparse' fun _ => ih _ (fieldStart + relative + 1) _ fuel' e' (by omega) ?_ hrun (by omega)
          (by omega) (by omega)
        rwa [← Nat.add_assoc]
      · obtain ⟨e', hparse', -⟩ := hparse (Or.inr hlf)
        exact hstep _ e' hparse' fun hlast => by rw [hlf] at hlast; cases hlast

end fields

/-! ## The kernel that knows quotes, on two documents -/

/-- In a record of `n` bytes both limits bite alike. -/
structure LimitsAlike (limits limits' : Option Limits) (n : ℕ) : Prop where
  fields : ∀ k < n, limits.any (fun l => k = l.maxFields) = limits'.any fun l => k = l.maxFields
  bytes : ∀ k ≤ n, limits.any (fun l => k > l.maxFieldBytes) =
    limits'.any fun l => k > l.maxFieldBytes

section kernel

variable (hcsv : cfg.dialect = .csv) (hlt : stop < input.length) {scan scan' rest : Bytes}
  (hsuffix : input.drop start = scan ++ rest) (hscan : stop ≤ start + scan.length)
  (hsame : scan'.take (stop - start) = scan.take (stop - start))

include hcsv hlt hsuffix hscan hsame

theorem borrowedClosing_cut :
    ∀ (fuel fuel' cursor segment segment' : ℕ) (scratch scratch' : Bytes),
      Open cfg.dialect input stop true (start + cursor) → stop < start + cursor + fuel →
      stop < start + cursor + fuel' →
      (borrowedClosing scan' fuel' cursor segment' scratch').map Prod.fst =
        (borrowedClosing scan fuel cursor segment scratch).map Prod.fst := by
  intro fuel
  induction fuel with
  | zero =>
    intro fuel' cursor _ _ _ _ hopen hfuel _
    exact absurd hopen.le_stop (by omega)
  | succ fuel ih =>
    intro fuel' cursor segment segment' scratch scratch' hopen hfuel hfuel'
    rcases fuel' with _ | fuel'
    · exact absurd hopen.le_stop (by omega)
    have hq : cfg.dialect.quote = 34 := by rw [hcsv]; rfl
    have hne : cfg.dialect.recordEnding.byte ≠ cfg.dialect.quote := by rw [hcsv]; decide
    have hcursor : cursor ≤ scan.length := by
      have := hopen.lt_stop hlt
      omega
    rw [borrowedClosing, borrowedClosing]
    rcases hfind : find1 34 (scan.drop cursor) with _ | relative
    · have hclean := List.findIdx?_eq_none_iff.mp hfind
      have hend := hopen.skip (drop_of_scan hsuffix hcursor) fun b hb => by
        rw [hq]
        exact ⟨by simpa using hclean b hb, fun h => (by cases h)⟩
      rw [List.length_drop] at hend
      have := hend.lt_stop hlt
      omega
    obtain ⟨u, x, v, hl, hlen, hx, hu⟩ := Window.of_findIdx?_some hfind
    obtain rfl : x = 34 := by simpa using hx
    have hdrop : input.drop (start + cursor) = u ++ (34 :: v ++ rest) := by
      rw [drop_of_scan hsuffix hcursor, hl]; simp
    have hpos := hopen.skip hdrop fun b hb => by
      rw [hq]
      exact ⟨by simpa using hu b hb, fun h => (by cases h)⟩
    have hopening : input.drop (start + cursor + u.length) = cfg.dialect.quote :: (v ++ rest) := by
      rw [hq]; exact Window.drop_of_drop hdrop rfl
    have hclosed := hpos.quote hopening hne
    have hin := hclosed.lt_stop hlt
    rw [hlen] at hclosed hin
    have hfind' : find1 34 (scan'.drop cursor) = some relative :=
      Window.findIdx?_of_take hsame hfind (by omega)
    have hget := @Window.getElem?_of_take _ scan scan' (cursor + relative + 1) _ hsame (by omega)
    rw [hfind']
    simp only [hget]
    by_cases hnext : scan[cursor + relative + 1]? = some 34
    · rw [if_neg (by simpa using hnext), if_neg (by simpa using hnext)]
      have hat := (List.getElem?_eq_some_iff.mp hnext).1
      have hsecond : input.drop (start + cursor + relative + 1) =
          cfg.dialect.quote :: (scan.drop (cursor + relative + 2) ++ rest) := by
        rw [show start + cursor + relative + 1 = start + (cursor + relative + 1) by omega,
          drop_of_scan hsuffix (by omega), hq, List.drop_eq_getElem_cons hat,
          (List.getElem?_eq_some_iff.mp hnext).2]
        rfl
      have hopened := hclosed.quote hsecond hne
      refine ih fuel' (cursor + relative + 2) _ _ _ _ ?_ (by omega) (by omega)
      rwa [show start + (cursor + relative + 2) = start + cursor + relative + 1 + 1 by omega]
    · rw [if_pos (by simpa using hnext), if_pos (by simpa using hnext)]
      rfl

/-- **The kernel that knows quotes** takes a record of both documents, or of
    none. -/
theorem borrowedRecordLoop_cut {limits limits' : Option Limits}
    (hlimits : LimitsAlike limits limits' (stop - start)) (suffix suffix' : Bytes)
    (hscan' : stop ≤ start + scan'.length) :
    ∀ (fuel fuel' fieldsAdded fieldStart : ℕ) (storage storage' : SpanStorage),
      fieldsAdded ≤ fieldStart → Open cfg.dialect input stop false (start + fieldStart) →
      stop < start + fieldStart + fuel → stop < start + fieldStart + fuel' →
      (borrowedRecordLoop limits' suffix' scan' start fuel' fieldsAdded fieldStart storage').map
          Prod.fst =
        (borrowedRecordLoop limits suffix scan start fuel fieldsAdded fieldStart storage).map Prod.fst
  | 0, _, _, _, _, _, _, hopen, hfuel, _ => absurd hopen.le_stop (by omega)
  | _ + 1, 0, _, _, _, _, _, hopen, _, hfuel => absurd hopen.le_stop (by omega)
  | fuel + 1, fuel' + 1, fieldsAdded, fieldStart, storage, storage', hadded, hopen, hfuel,
      hfuel' => by
    have hq : cfg.dialect.quote = 34 := by rw [hcsv]; rfl
    have he : cfg.dialect.recordEnding.byte = 10 := by rw [hcsv]; rfl
    have hne : cfg.dialect.recordEnding.byte ≠ cfg.dialect.quote := by rw [hcsv]; decide
    have hin := hopen.lt_stop hlt
    have hfield : fieldStart ≤ scan.length := by omega
    have hget : ∀ i < stop - start, scan'[i]? = scan[i]? :=
      fun i hi => Window.getElem?_of_take hsame hi
    have hcons : ∀ {i : ℕ} {b : UInt8}, scan[i]? = some b →
        input.drop (start + i) = b :: input.drop (start + i + 1) := by
      intro i b hb
      have hat := (List.getElem?_eq_some_iff.mp hb).1
      have hgot : input[start + i]? = some b := by
        rw [← List.getElem?_drop, hsuffix, List.getElem?_append_left hat, hb]
      rw [List.drop_eq_getElem_cons (List.getElem?_eq_some_iff.mp hgot).1,
        (List.getElem?_eq_some_iff.mp hgot).2]
    rw [borrowedRecordLoop, borrowedRecordLoop]
    simp only [hget fieldStart (by omega), hlimits.fields fieldsAdded (by omega)]
    by_cases hfields : limits'.any (fun l => decide (fieldsAdded = l.maxFields)) = true
    · rw [if_pos hfields, if_pos hfields]
    rw [if_neg hfields, if_neg hfields, if_neg (show fieldStart ≠ scan'.length by omega),
      if_neg (show fieldStart ≠ scan.length by omega)]
    by_cases hquote : scan[fieldStart]? = some 34
    · -- a quoted field
      rw [if_pos hquote, if_pos hquote]
      have hopened := hopen.quote (hq ▸ hcons hquote) hne
      have hclosing := borrowedClosing_cut hcsv hlt hsuffix hscan hsame (scan.length + 1)
        (scan'.length + 1) (fieldStart + 1) (fieldStart + 1) (fieldStart + 1) storage.scratch
        storage'.scratch hopened (by omega) (by omega)
      rcases hfound : borrowedClosing scan (scan.length + 1) (fieldStart + 1) (fieldStart + 1)
        storage.scratch with _ | ⟨closing, segment, scratch⟩ <;>
        rcases hfound' : borrowedClosing scan' (scan'.length + 1) (fieldStart + 1) (fieldStart + 1)
          storage'.scratch with _ | ⟨closing', segment', scratch'⟩ <;>
        rw [hfound, hfound'] at hclosing
      · cases hclosing
      · cases hclosing
      obtain rfl : closing' = closing := Option.some.inj hclosing
      obtain ⟨h1, h2, h3, -⟩ := borrowedClosing_lands hcsv hsuffix (scan.length + 1)
        (fieldStart + 1) (fieldStart + 1) storage.scratch (by omega) hopened hfound
      have hbehind := h3.lt_stop hlt
      simp only [hget (closing' + 1) (by omega), hlimits.bytes (closing' + 1 - fieldStart) (by omega)]
      by_cases hexceeds : limits'.any (fun l => decide (closing' + 1 - fieldStart > l.maxFieldBytes)) =
          true
      · rw [if_pos hexceeds, if_pos hexceeds]
      rw [if_neg hexceeds, if_neg hexceeds]
      rcases hnext : scan[closing' + 1]? with _ | next
      · have := List.getElem?_eq_none_iff.mp hnext
        omega
      simp only
      by_cases hcomma : next = 44
      · rw [if_pos hcomma, if_pos hcomma]
        have hopen' := h3.other (hcons hnext) (by rw [hq, hcomma]; decide)
          (by rw [he, hcomma]; decide)
        refine borrowedRecordLoop_cut hlimits suffix suffix' hscan' fuel fuel' _ (closing' + 2) _ _
          (by omega) ?_ (by omega) (by omega)
        rwa [show start + (closing' + 2) = start + (closing' + 1) + 1 by omega]
      rw [if_neg hcomma, if_neg hcomma]
      by_cases hlf : next = 10
      · rw [if_pos hlf, if_pos hlf]; rfl
      rw [if_neg hlf, if_neg hlf]
      by_cases hcr : next = 13
      · have hopen' := h3.other (hcons hnext) (by rw [hq, hcr]; decide) (by rw [he, hcr]; decide)
        have hafter := hopen'.lt_stop hlt
        rw [hget (closing' + 2) (by omega)]
        split_ifs <;> rfl
      · rw [if_neg fun hc => hcr hc.1, if_neg fun hc => hcr hc.1]
    · -- a bare field
      rw [if_neg hquote, if_neg hquote]
      rcases hfind : find3 44 34 10 (scan.drop fieldStart) with _ | relative
      · have hclean := List.findIdx?_eq_none_iff.mp hfind
        have hend := hopen.skip (drop_of_scan hsuffix hfield) fun b hb => by
          have := hclean b hb
          simp only [Bool.or_eq_false_iff, beq_eq_false_iff_ne] at this
          rw [hq, he]
          exact ⟨this.1.2, fun _ => this.2⟩
        rw [List.length_drop] at hend
        have := hend.lt_stop hlt
        omega
      obtain ⟨u, x, v, hl, hlen, hx, hu⟩ := Window.of_findIdx?_some hfind
      have hdrop : input.drop (start + fieldStart) = u ++ x :: (v ++ rest) := by
        rw [drop_of_scan hsuffix hfield, hl]; simp
      have hgot : scan[fieldStart + relative]? = some x :=
        Window.getElem?_of_drop hl (by rw [hlen])
      have hpos := hopen.skip hdrop fun b hb => by
        have := hu b hb
        simp only [Bool.or_eq_false_iff, beq_eq_false_iff_ne] at this
        rw [hq, he]
        exact ⟨this.1.2, fun _ => this.2⟩
      rw [hlen, Nat.add_assoc] at hpos
      have hbehind := hpos.lt_stop hlt
      have hfind' : find3 44 34 10 (scan'.drop fieldStart) = some relative :=
        Window.findIdx?_of_take hsame hfind (by omega)
      have hbyte : ∀ i < stop - start, byteAt scan' i = byteAt scan i := by
        intro i hi
        rw [byteAt, byteAt, List.getD_eq_getElem?_getD, List.getD_eq_getElem?_getD, hget i hi]
      have hx' : byteAt scan (fieldStart + relative) = x := by
        rw [byteAt, List.getD_eq_getElem?_getD, hgot]; rfl
      have hstrip : stripCr scan' fieldStart (fieldStart + relative) =
          stripCr scan fieldStart (fieldStart + relative) := by
        unfold stripCr
        rw [hbyte (fieldStart + relative - 1) (by omega)]
      have hwidth : stripCr scan fieldStart (fieldStart + relative) ≤ fieldStart + relative := by
        unfold stripCr
        split_ifs <;> omega
      rw [hfind']
      simp only [hbyte (fieldStart + relative) (by omega), hx', hstrip,
        hlimits.bytes (fieldStart + relative - fieldStart) (by omega),
        hlimits.bytes (stripCr scan fieldStart (fieldStart + relative) - fieldStart) (by omega)]
      by_cases hcomma : x = 44
      · rw [if_pos hcomma, if_pos hcomma]
        have hopen' := hpos.other (hcons hgot) (by rw [hq, hcomma]; decide)
          (by rw [he, hcomma]; decide)
        split_ifs
        · rfl
        · refine borrowedRecordLoop_cut hlimits suffix suffix' hscan' fuel fuel' _
            (fieldStart + relative + 1) _ _ (by omega) ?_ (by omega) (by omega)
          rwa [← Nat.add_assoc]
      · rw [if_neg hcomma, if_neg hcomma]
        split_ifs <;> rfl

end kernel

end Engine

end Coseva
