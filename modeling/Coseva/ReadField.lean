/-
  Coseva — the parser reads one spelled field.

  Where the limits cannot bite (`Limits.Fits`), each function of the general
  parser is given by what it leaves: the fields pushed and the cursor behind the
  separator.

  * `parseUnquotedField_reads`, `parseQuotedField_reads`: the two field parsers;
  * `parseField_reads`: a field in either spelling.
-/
import Coseva.Grammar
import Mathlib.Data.List.TakeWhile

namespace Coseva

/-- Nothing in an input of `n` bytes breaches a limit. -/
structure Limits.Fits (l : Limits) (n : ℕ) : Prop where
  record : n ≤ l.maxRecordBytes
  field : n ≤ l.maxFieldBytes
  fields : n ≤ l.maxFields
  offset : n ≤ Span.maxOffset

instance (l : Limits) (n : ℕ) : Decidable (l.Fits n) :=
  decidable_of_iff (n ≤ l.maxRecordBytes ∧ n ≤ l.maxFieldBytes ∧ n ≤ l.maxFields ∧
    n ≤ Span.maxOffset) ⟨fun h => ⟨h.1, h.2.1, h.2.2.1, h.2.2.2⟩,
      fun h => ⟨h.record, h.field, h.fields, h.offset⟩⟩

/-- The format parameter has the settings the parser was built with. -/
structure ParserSettings.Follows (cfg : ParserSettings) (F : CsvFormat) : Prop where
  dialect : (cfg.fmt F).dialect = cfg.dialect
  syntax' : (cfg.fmt F).syntax' = cfg.syntax'
  nulls : (cfg.fmt F).nulls = cfg.nulls
  trim : (cfg.fmt F).trim = cfg.trim
  skipInitialSpace : (cfg.fmt F).skipInitialSpace = cfg.skipInitialSpace

theorem ParserSettings.follows_none (cfg : ParserSettings) : cfg.Follows none :=
  ⟨rfl, rfl, rfl, rfl, rfl⟩

namespace Engine

open Run SpanStorage

variable {cfg : ParserSettings} {F : CsvFormat} {input : Bytes} {e : Engine}

/-! ## Limits that cannot bite -/

section limits

variable (hfit : cfg.limits.Fits input.length)

include hfit

theorem scanEnd_eq (recordStart fieldStart : ℕ) :
    scanEnd cfg input recordStart fieldStart = input.length := by
  have h1 := hfit.record; have h2 := hfit.field
  unfold scanEnd; omega

theorem checkRecordLimitFor_ok {recordStart byte : ℕ} (h : byte ≤ input.length) (field : ℕ) :
    checkRecordLimitFor cfg input recordStart byte field e = .ok () e := by
  have h1 := hfit.record
  rw [checkRecordLimitFor, if_neg (by omega)]; rfl

theorem checkRecordLimit_ok {recordStart byte : ℕ} (h : byte ≤ input.length) :
    checkRecordLimit cfg input recordStart byte e = .ok () e :=
  checkRecordLimitFor_ok hfit h _

theorem checkScratchLimit_ok {scratchStart byte : ℕ}
    (h : e.spans.scratch.length ≤ scratchStart + input.length) :
    checkScratchLimit cfg input scratchStart byte e = .ok () e := by
  have h1 := hfit.field
  rw [checkScratchLimit, if_neg (by omega)]

theorem pushSpan_ok {source : Source} {start stop byte : ℕ} {quoted : Bool}
    (hlen : e.spans.len < input.length) (hstop : stop ≤ start + input.length) :
    pushSpan cfg input source start stop byte quoted e = .ok () (e.parsed e.location
      (e.spans.push ⟨source, start, stop, quoted, false⟩) e.terminated) := by
  have h1 := hfit.field; have h2 := hfit.fields
  rw [pushSpan, tryPushBounded, if_neg]
  · rfl
  simp only [ge_iff_le, gt_iff_lt, Bool.or_eq_true, decide_eq_true_eq, not_or]
  omega

theorem pushNullSpan_ok {byte : ℕ} (hlen : e.spans.len < input.length) :
    pushNullSpan cfg input byte e =
      .ok () (e.parsed e.location (e.spans.pushNull byte) e.terminated) := by
  have h2 := hfit.fields
  rw [pushNullSpan, if_neg (by omega)]
  rfl

end limits

/-! ## Pushing an unquoted field -/

theorem unescapeLoop_length_le (mysql : Bool) (escape : UInt8) :
    ∀ (fuel : ℕ) (raw : Bytes), (unescapeLoop mysql escape fuel raw).length ≤ raw.length
  | 0, raw => by simp [unescapeLoop]
  | fuel + 1, raw => by
    unfold unescapeLoop
    rcases h : find1 escape raw with _ | i
    · simp
    · obtain ⟨u, x, v, rfl, rfl, -, -⟩ := Window.of_findIdx?_some h
      simp only [List.length_append]
      rcases hn : (u ++ x :: v)[u.length + 1]? with _ | b
      · simp
      · have hlt := (List.getElem?_eq_some_iff.mp hn).1
        have hrec := unescapeLoop_length_le mysql escape fuel ((u ++ x :: v).drop (u.length + 2))
        simp only [List.length_append, List.length_drop, List.length_cons, List.length_take]
          at hrec hlt ⊢
        omega

theorem unescapeLoop_of_not_mem {mysql : Bool} {escape : UInt8} {raw : Bytes} {fuel : ℕ}
    (h : raw.contains escape = false) : unescapeLoop mysql escape (fuel + 1) raw = raw := by
  have hf : find1 escape raw = none := by
    refine Window.findIdx?_none fun y hy => ?_
    by_contra hc
    simp only [Bool.not_eq_false, beq_iff_eq] at hc
    subst hc
    simp [List.contains_eq_mem] at h
    exact h hy
  simp [unescapeLoop, hf]

variable (hfit : cfg.limits.Fits input.length)

include hfit

theorem pushGeneralUnquotedSpan_ok {fieldStart fieldEnd : ℕ} (pos : ℕ) (hw : e.spans.Within)
    (hlen : e.spans.len < input.length) (hend : fieldEnd ≤ input.length) :
    ∃ s, pushGeneralUnquotedSpan cfg input fieldStart fieldEnd pos false e =
        .ok () (e.parsed e.location s e.terminated) ∧
      Pushes cfg.nulls input e.spans s
        (unquotedField cfg.toFormatSettings (slice input fieldStart fieldEnd)) := by
  unfold pushGeneralUnquotedSpan unquotedField
  by_cases hnull : rawFieldIsNull cfg.nulls (slice input fieldStart fieldEnd) = true
  · refine ⟨_, by simp only [Bool.not_false, Bool.true_and, hnull, if_true]; exact
      pushNullSpan_ok hfit hlen, hw.push_input _ _ _ _, _, entries_push_input _ _ _ _ _ _, ?_⟩
    rw [if_pos hnull]
    unfold Entry.mark Entry.field
    split <;> simp [slice]
  rw [if_neg hnull]
  simp only [Bool.not_false, Bool.true_and, hnull, Bool.false_eq_true, if_false]
  -- the bytes as they stand
  have hplain : ∃ s, pushSpan cfg input .input fieldStart fieldEnd pos false e =
        .ok () (e.parsed e.location s e.terminated) ∧
      Pushes cfg.nulls input e.spans s ⟨slice input fieldStart fieldEnd, false⟩ := by
    refine ⟨_, pushSpan_ok hfit hlen (by omega), hw.push_input _ _ _ _, _,
      entries_push_input _ _ _ _ _ _, ?_⟩
    simp [Entry.mark, Entry.field, hnull]
  rcases hesc : cfg.dialect.escape.unquotedByte with _ | escape
  · exact hplain
  · simp only
    by_cases hmem : (slice input fieldStart fieldEnd).contains escape = true
    · rw [if_pos hmem]
      generalize htext : unescapeLoop (cfg.dialect.escape == .mysql) escape
        ((slice input fieldStart fieldEnd).length + 1) (slice input fieldStart fieldEnd) = text
      have hle : text.length ≤ input.length := by
        rw [← htext]
        refine (unescapeLoop_length_le _ _ _ _).trans ?_
        simp [slice]
      refine ⟨_, ?_, hw.push_scratch text false, _, entries_push_scratch hw input text false, ?_⟩
      · unfold pushUnescapedSpan
        rw [get_bind, htext, bind_ok (extendScratch_apply _ _),
          bind_ok (checkScratchLimit_ok hfit (by simp [SpanStorage.extendScratch, hle])),
          pushSpan_ok hfit (by simpa using hlen) (by omega)]
        rfl
      · simp [Entry.mark, Entry.field]
    · rw [if_neg hmem, unescapeLoop_of_not_mem (by simpa using hmem)]
      exact hplain

end Engine

/-! ## Unquoted fields -/

/-- The text has no byte that ends an unquoted field of single-byte separators. -/
def Clean (o : FormatSettings) (raw : Bytes) : Prop :=
  ∀ b ∈ raw, b ≠ o.dialect.delimiter ∧ b ≠ o.dialect.recordEnding.byte ∧
    (o.syntax'.seeksQuotes = true → b ≠ o.dialect.quote) ∧
    (o.dialect.recordEnding = .crLf → b ≠ 13)

/-- Separators have no tails. -/
theorem Dialect.tails_of_single {d : Dialect} (h : d.multibyte = false) :
    d.delimiterTail.asSlice = [] ∧ d.endingTail.asSlice = [] := by
  simp only [Dialect.multibyte, Bool.or_eq_false_iff, Bool.not_eq_false', Tail.isEmpty_iff] at h
  exact ⟨by simp [Tail.asSlice, h.1.1, h.1.2], by simp [Tail.asSlice, h.2.1, h.2.2]⟩

/-- Before its first escape an unquoted field has no byte that would end it. -/
theorem Passes.clean {o : FormatSettings} {after raw : Bytes} (hmb : o.dialect.multibyte = false)
    (h : Passes o after raw) : ∀ {u v : Bytes}, raw = u ++ v →
      (∀ escape, o.dialect.escape.unquotedByte = some escape → escape ∉ u) → Clean o u := by
  obtain ⟨hdt, het⟩ := Dialect.tails_of_single hmb
  induction h with
  | nil =>
    intro u v hu _
    obtain ⟨rfl, -⟩ := List.append_eq_nil_iff.mp hu.symm
    intro b hb; cases hb
  | @plain b raw _ hstop _ ih =>
    intro u v hu hesc
    cases u with
    | nil => intro b hb; cases hb
    | cons c u =>
      rw [List.cons_append, List.cons.injEq] at hu
      obtain ⟨rfl, hu⟩ := hu
      have hrest := ih hu fun escape he hmem => hesc escape he (List.mem_cons_of_mem b hmem)
      intro c hc
      rcases List.mem_cons.mp hc with rfl | hc
      · simp only [stopsAt, Tail.confirms, hdt, het, List.isPrefixOf_nil_left, and_true, or_true,
          not_or, not_and] at hstop
        exact ⟨hstop.1, hstop.2.1, fun hs hq => hstop.2.2.2 hq hs, hstop.2.2.1⟩
      · exact hrest c hc
  | @escaped escape b raw he _ _ =>
    intro u v hu hesc
    cases u with
    | nil => intro b hb; cases hb
    | cons c u =>
      rw [List.cons_append, List.cons.injEq] at hu
      exact absurd List.mem_cons_self (hu.1 ▸ hesc escape he)

/-- The bytes that the general scan stops at. -/
def searchByte (o : FormatSettings) (b : UInt8) : Bool :=
  b == o.dialect.delimiter || b == o.dialect.recordEnding.byte
    || (o.syntax'.seeksQuotes && b == o.dialect.quote)
    || (o.dialect.recordEnding == .crLf && b == 13)
    || o.dialect.escape.unquotedByte == some b

namespace Engine

open Run SpanStorage

variable {cfg : ParserSettings} {F : CsvFormat} {input : Bytes} {e : Engine}

theorem earliest_findIdx? (p q : UInt8 → Bool) :
    ∀ l : Bytes, earliest (l.findIdx? p) (l.findIdx? q) = l.findIdx? fun b => p b || q b
  | [] => rfl
  | b :: l => by
    have ih := earliest_findIdx? p q l
    simp only [List.findIdx?_cons]
    rcases hp : p b <;> rcases hq : q b <;> simp only [Bool.false_eq_true, if_false, if_true,
      Bool.or_false, Bool.or_true]
    · rw [← ih]
      rcases l.findIdx? p with _ | i <;> rcases l.findIdx? q with _ | j <;>
        simp [earliest]
      split <;> simp
    · rcases l.findIdx? p with _ | i <;> simp [earliest]
    · rcases l.findIdx? q with _ | i <;> simp [earliest]
    · simp [earliest]

/-- The search of the general scan. -/
theorem findStopByte_eq (cfg : ParserSettings) (remaining : Bytes) :
    findStopByte cfg (cfg.dialect.recordEnding == .crLf || cfg.dialect.escape.escapesUnquoted)
        (cfg.syntax'.quotingEnabled && !cfg.syntax'.permitsUnquotedQuotes)
        (if cfg.dialect.recordEnding == .crLf then 13
          else cfg.dialect.escape.unquotedByte.getD 92)
        (if (cfg.dialect.recordEnding == .crLf) && cfg.dialect.escape.unquotedByte.isSome then
          some (cfg.dialect.escape.unquotedByte.getD 92) else none) remaining =
      remaining.findIdx? (searchByte cfg.toFormatSettings) := by
  have hseek : (cfg.syntax'.quotingEnabled && !cfg.syntax'.permitsUnquotedQuotes) =
      cfg.syntax'.seeksQuotes := rfl
  rw [hseek]
  unfold findStopByte Escape.escapesUnquoted find1 find2 find3 find4
  have hp : ∀ p q : UInt8 → Bool, (∀ b, p b = q b) →
      remaining.findIdx? p = remaining.findIdx? q := fun p q h => by rw [funext h]
  rcases hc : (cfg.dialect.recordEnding == .crLf) with _ | _ <;>
    rcases hs : cfg.syntax'.seeksQuotes with _ | _ <;>
    rcases he : cfg.dialect.escape.unquotedByte with _ | escape <;>
    simp only [Option.isSome_none, Option.isSome_some, Bool.or_false, Bool.or_true, Bool.and_false,
      Bool.and_true, Bool.false_eq_true, if_false, if_true, Option.getD_some, Option.getD_none,
      earliest_findIdx?] <;>
    refine hp _ _ fun b => ?_ <;>
    simp only [searchByte, hc, hs, he, Bool.false_and, Bool.true_and, Bool.or_false,
      Option.some_beq_some, Option.none_beq_some] <;>
    grind

theorem Tail.width_eq {t : Tail} (h : t.unusable = false) : t.width = t.asSlice.length + 1 := by
  simp [Tail.width, Tail.asSlice, h]

theorem byteAt_of_drop {u v : Bytes} {b : UInt8} {i j : ℕ} (h : input.drop i = u ++ b :: v)
    (hj : j = i + u.length) : byteAt input j = b := by
  rw [byteAt, List.getD_eq_getElem?_getD, Window.getElem?_of_drop h hj]; rfl

/-- No carriage return is stripped from a field that ends in none. -/
theorem stripCr_eq {u v : Bytes} {i : ℕ} (h : input.drop i = u ++ v)
    (hu : u.getLast? ≠ some 13) : stripCr input i (i + u.length) = i + u.length := by
  unfold stripCr
  rw [if_neg]
  simp only [Bool.and_eq_true, decide_eq_true_eq, beq_iff_eq, not_and]
  intro hlt hb
  have hne : u ≠ [] := by rintro rfl; simp at hlt
  have hlast := Window.getElem?_last_of_drop (j := i + u.length - 1) h (by omega) hne
  rw [byteAt, List.getD_eq_getElem?_getD, hlast] at hb
  rcases hl : u.getLast? with _ | b
  · rw [List.getLast?_eq_none_iff] at hl; exact hne hl
  · rw [hl] at hb hu; simp only [Option.getD_some] at hb; exact hu (by rw [hb])

section unquoted

variable (hs : cfg.dialect.Sound) (hF : cfg.Follows F) (hfit : cfg.limits.Fits input.length)

include hs hF hfit

/-- The field scanner of the single-byte dialects. -/
theorem parseUnquotedFieldRuntime_reads (hgen : cfg.fmtGeneralParsing F = false)
    {raw rest : Bytes} {last : Bool} {recordStart : ℕ}
    (hraw : Passes cfg.toFormatSettings (cfg.dialect.sepText last ++ rest) raw)
    (hcr : last = true → cfg.dialect.recordEnding = .newline → raw.getLast? ≠ some 13)
    (hdrop : input.drop e.location = raw ++ (cfg.dialect.sepText last ++ rest))
    (hw : e.spans.Within) (hlen : e.spans.len ≤ e.location) :
    ∃ s t, parseUnquotedFieldRuntime cfg F input recordStart e = .ok last
        (e.parsed (e.location + (raw.length + (cfg.dialect.sepText last).length)) s t) ∧
      Pushes cfg.nulls input e.spans s (unquotedField cfg.toFormatSettings raw) := by
  -- the dialect has single-byte separators and no unquoted escape
  simp only [ParserSettings.fmtGeneralParsing, hF.dialect, hF.trim,
    ParserSettings.needsGeneralParsing, Bool.or_eq_false_iff] at hgen
  obtain ⟨⟨⟨hcrlf, hesc⟩, hmb⟩, -⟩ := hgen
  have hcrlf : cfg.dialect.recordEnding ≠ .crLf := by simpa using hcrlf
  have hesc : cfg.dialect.escape.unquotedByte = none := by
    simpa [Escape.escapesUnquoted] using hesc
  obtain ⟨hdt, het⟩ := Dialect.tails_of_single hmb
  have hbytes := hraw.clean hmb (List.append_nil raw).symm (by simp [hesc])
  obtain ⟨b, hb, hsep⟩ : ∃ b, b = (if last then cfg.dialect.recordEnding.byte
      else cfg.dialect.delimiter) ∧ cfg.dialect.sepText last = [b] := by
    cases last <;> simp [Dialect.sepText, Dialect.delimiterText, Dialect.endingText, hdt, het, hcrlf]
  rw [hsep] at hdrop ⊢
  have hloc : e.location + raw.length < input.length :=
    Window.lt_length_of_drop (Window.drop_of_drop hdrop rfl)
  have hquote : b ≠ cfg.dialect.quote := by
    rw [hb]; split
    · exact hs.ending_ne_quote
    · exact hs.delimiter_ne_quote
  have hlast : (b == cfg.dialect.recordEnding.byte) = last := by
    rw [hb]; cases last <;> simp [hs.ending_ne_delimiter.symm]
  -- the search passes the text and stops at the separator
  have hwin : slice input e.location (scanEnd cfg input recordStart e.location) =
      raw ++ b :: rest := by
    rw [scanEnd_eq hfit, slice, List.take_length]; exact hdrop
  have hfind : (if (cfg.fmt F).syntax'.quotingEnabled && !(cfg.fmt F).syntax'.permitsUnquotedQuotes
        then find3 cfg.dialect.delimiter cfg.dialect.quote cfg.dialect.recordEnding.byte
          (raw ++ b :: rest)
        else find2 cfg.dialect.delimiter cfg.dialect.recordEnding.byte (raw ++ b :: rest)) =
      some raw.length := by
    have hsx : ((cfg.fmt F).syntax'.quotingEnabled && !(cfg.fmt F).syntax'.permitsUnquotedQuotes) =
        cfg.syntax'.seeksQuotes := by rw [hF.syntax']; rfl
    rw [hsx]
    split
    · rename_i hseek
      refine Window.findIdx?_append_cons (fun y hy => ?_) ?_
      · obtain ⟨h1, h2, h3, -⟩ := hbytes y hy
        simp [h1, h2, h3 hseek]
      · rw [hb]; cases last <;> simp
    · refine Window.findIdx?_append_cons (fun y hy => ?_) ?_
      · obtain ⟨h1, h2, -⟩ := hbytes y hy
        simp [h1, h2]
      · rw [hb]; cases last <;> simp
  have hpos : byteAt input (e.location + raw.length) = b := byteAt_of_drop hdrop rfl
  have hend : (if (last && cfg.dialect.recordEnding.stripsCr
      && decide (e.location < e.location + raw.length)
      && byteAt input (e.location + raw.length - 1) == 13) = true
      then e.location + raw.length - 1 else e.location + raw.length) = e.location + raw.length := by
    rcases hl : last with _ | _
    · simp
    rcases hr : cfg.dialect.recordEnding with _ | _ | _
    · have := stripCr_eq hdrop (hcr hl hr)
      simpa [stripCr, RecordEnding.stripsCr, hr] using this
    · exact absurd hr hcrlf
    · simp [RecordEnding.stripsCr]
  have hraw' : slice input e.location (e.location + raw.length) = raw :=
    Window.drop_take_of_drop hdrop rfl
  unfold parseUnquotedFieldRuntime
  rw [get_bind]
  simp only [hF.dialect, hwin, hfind, hpos, hlast, hend]
  rw [if_neg (by rw [scanEnd_eq hfit]; omega), if_neg hquote]
  refine ⟨e.spans.push ⟨.input, e.location, e.location + raw.length, false, false⟩,
    last || e.terminated, ?_, hw.push_input _ _ _ _, _, entries_push_input _ _ _ _ _ _, ?_⟩
  · rw [bind_ok (pushSpan_ok hfit (by omega) (by omega)), bind_ok (setLocation_apply _ _),
      bind_ok (noteTerminatedIf_apply _ _), bind_ok (checkRecordLimit_ok hfit (by omega))]
    rfl
  · rw [hraw']
    by_cases hnull : rawFieldIsNull cfg.nulls raw = true <;>
      simp [Entry.mark, Entry.field, unquotedField, hnull, hesc]

omit hs hF hfit in
/-- A byte that the general scan does not stop at for good is passed over. -/
theorem unquotedStop_resume (fieldStart : ℕ) {b : UInt8} {v : Bytes} {pos : ℕ}
    (hdrop : input.drop pos = b :: v) (hsearch : searchByte cfg.toFormatSettings b = true)
    (hesc : cfg.dialect.escape.unquotedByte ≠ some b)
    (hstop : ¬ stopsAt cfg.toFormatSettings b v) :
    unquotedStop cfg input fieldStart pos = .resume (pos + 1) := by
  have hb : byteAt input pos = b := byteAt_of_drop (u := []) hdrop rfl
  have hafter : input.drop (pos + 1) = v := Window.drop_of_drop (u := [b]) hdrop rfl
  have hseek : (cfg.syntax'.quotingEnabled && !cfg.syntax'.permitsUnquotedQuotes) =
    cfg.syntax'.seeksQuotes := rfl
  simp only [stopsAt, not_or, not_and] at hstop
  obtain ⟨h1, h2, h3, h4⟩ := hstop
  simp only [searchByte, Bool.or_eq_true, Bool.and_eq_true, beq_iff_eq] at hsearch
  unfold unquotedStop
  simp only [hb, hafter, hseek]
  rw [if_neg hesc, if_neg (by simpa using fun hs hq => h4 hq hs)]
  rw [if_neg (by simpa using h3)]
  by_cases hend : b = cfg.dialect.recordEnding.byte
  · rw [if_pos hend, if_neg (by simpa using (h2 hend).1), if_neg (h2 hend).2]
  · rw [if_neg hend, if_neg]
    refine h1 ?_
    rcases hsearch with (((hd | hd) | hd) | hd) | hd
    · exact hd
    · exact absurd hd hend
    · exact absurd hd.1 (h4 hd.2)
    · exact absurd hd.2 (h3 hd.1)
    · exact absurd hd hesc

omit hs hF hfit in
/-- An escape takes the byte behind it along. -/
theorem unquotedStop_escape (fieldStart : ℕ) {escape b : UInt8} {v : Bytes} {pos : ℕ}
    (hdrop : input.drop pos = escape :: b :: v)
    (hesc : cfg.dialect.escape.unquotedByte = some escape) :
    unquotedStop cfg input fieldStart pos = .resume (pos + 2) := by
  have hb : byteAt input pos = escape := byteAt_of_drop (u := []) hdrop rfl
  have hnext : input[pos + 1]? = some b := Window.getElem?_of_drop (u := [escape]) hdrop rfl
  unfold unquotedStop
  simp only [hb]
  rw [if_pos hesc, resumeAfterUnquotedEscape, hnext]; rfl

section loop

variable {extended : Bool} {recordStart fieldStart fuel cursor : ℕ} {u v : Bytes} {b : UInt8}

omit hs hF in
theorem generalUnquotedLoop_search (recordStart fieldStart : ℕ)
    (hext : extended = (cfg.dialect.recordEnding == .crLf || cfg.dialect.escape.escapesUnquoted))
    (hdrop : input.drop cursor = u ++ b :: v)
    (hu : ∀ y ∈ u, searchByte cfg.toFormatSettings y = false)
    (hb : searchByte cfg.toFormatSettings b = true) :
    ¬ cursor ≥ scanEnd cfg input recordStart fieldStart ∧
    findStopByte cfg extended (cfg.syntax'.quotingEnabled && !cfg.syntax'.permitsUnquotedQuotes)
      (if cfg.dialect.recordEnding == .crLf then 13 else cfg.dialect.escape.unquotedByte.getD 92)
      (if (cfg.dialect.recordEnding == .crLf) && cfg.dialect.escape.unquotedByte.isSome then
        some (cfg.dialect.escape.unquotedByte.getD 92) else none)
      (slice input cursor (scanEnd cfg input recordStart fieldStart)) = some u.length := by
  have hlt : cursor + u.length < input.length :=
    Window.lt_length_of_drop (Window.drop_of_drop hdrop rfl)
  refine ⟨by rw [scanEnd_eq hfit]; omega, ?_⟩
  rw [hext, findStopByte_eq, scanEnd_eq hfit, slice, List.take_length, hdrop]
  exact Window.findIdx?_append_cons hu hb

omit hs hF in
theorem generalUnquotedLoop_resume
    (hext : extended = (cfg.dialect.recordEnding == .crLf || cfg.dialect.escape.escapesUnquoted))
    (hdrop : input.drop cursor = u ++ b :: v)
    (hu : ∀ y ∈ u, searchByte cfg.toFormatSettings y = false)
    (hb : searchByte cfg.toFormatSettings b = true) {cursor' : ℕ}
    (hstop : unquotedStop cfg input fieldStart (cursor + u.length) = .resume cursor') :
    generalUnquotedLoop cfg input extended recordStart fieldStart false (fuel + 1) cursor e =
      generalUnquotedLoop cfg input extended recordStart fieldStart false fuel cursor' e := by
  obtain ⟨hlt, hfind⟩ := generalUnquotedLoop_search hfit recordStart fieldStart hext hdrop
    hu hb
  rw [generalUnquotedLoop]
  simp only [hfind, hstop]
  rw [if_neg hlt]

omit hs hF in
theorem generalUnquotedLoop_ends
    (hext : extended = (cfg.dialect.recordEnding == .crLf || cfg.dialect.escape.escapesUnquoted))
    (hdrop : input.drop cursor = u ++ b :: v)
    (hu : ∀ y ∈ u, searchByte cfg.toFormatSettings y = false)
    (hb : searchByte cfg.toFormatSettings b = true) {fieldEnd location : ℕ} {terminated : Bool}
    (hstop : unquotedStop cfg input fieldStart (cursor + u.length) =
      .ends fieldEnd location terminated) :
    generalUnquotedLoop cfg input extended recordStart fieldStart false (fuel + 1) cursor e =
      endGeneralField cfg input recordStart fieldStart fieldEnd (cursor + u.length) location false
        terminated e := by
  obtain ⟨hlt, hfind⟩ := generalUnquotedLoop_search hfit recordStart fieldStart hext hdrop
    hu hb
  rw [generalUnquotedLoop]
  simp only [hfind, hstop]
  rw [if_neg hlt]

omit hs hF in
/-- The loop passes over a text: what remains is a prefix without a search
    byte. -/
theorem generalUnquotedLoop_passes (recordStart fieldStart : ℕ)
    (hext : extended = (cfg.dialect.recordEnding == .crLf || cfg.dialect.escape.escapesUnquoted))
    {after raw : Bytes} (hraw : Passes cfg.toFormatSettings after raw) :
    ∀ (cursor : ℕ) (u : Bytes) (fuel : ℕ), input.drop cursor = u ++ (raw ++ after) →
      (∀ y ∈ u, searchByte cfg.toFormatSettings y = false) → raw.length + 1 ≤ fuel →
      ∃ cursor' u' fuel', input.drop cursor' = u' ++ after ∧
        (∀ y ∈ u', searchByte cfg.toFormatSettings y = false) ∧
        cursor' + u'.length = cursor + u.length + raw.length ∧
        generalUnquotedLoop cfg input extended recordStart fieldStart false fuel cursor e =
          generalUnquotedLoop cfg input extended recordStart fieldStart false (fuel' + 1) cursor'
            e := by
  induction hraw with
  | nil =>
    intro cursor u fuel hdrop hu hfuel
    obtain ⟨fuel', rfl⟩ : ∃ n, fuel = n + 1 := ⟨fuel - 1, by simp at hfuel; omega⟩
    exact ⟨cursor, u, fuel', hdrop, hu, by simp, rfl⟩
  | @plain b raw hesc hstop _ ih =>
    intro cursor u fuel hdrop hu hfuel
    simp only [List.length_cons] at hfuel
    rcases hsb : searchByte cfg.toFormatSettings b with _ | _
    · -- not a search byte: one more byte of the prefix
      obtain ⟨c, u', f, h1, h2, h3, h4⟩ := ih cursor (u ++ [b]) fuel
        (by simpa using hdrop) (by
          intro y hy
          rcases List.mem_append.mp hy with hy | hy
          · exact hu y hy
          · rw [List.mem_singleton.mp hy]; exact hsb) (by omega)
      exact ⟨c, u', f, h1, h2, by simp at h3 ⊢; omega, h4⟩
    · -- a lead byte without its tail
      obtain ⟨fuel', rfl⟩ : ∃ n, fuel = n + 1 := ⟨fuel - 1, by omega⟩
      have hd : input.drop (cursor + u.length) = b :: (raw ++ after) :=
        Window.drop_of_drop hdrop rfl
      have hres := unquotedStop_resume fieldStart hd hsb hesc hstop
      obtain ⟨c, u', f, h1, h2, h3, h4⟩ := ih (cursor + u.length + 1) []
        fuel' (by rw [List.nil_append]; exact Window.drop_of_drop (u := [b]) hd rfl)
        (by simp) (by omega)
      refine ⟨c, u', f, h1, h2, by simp at h3 ⊢; omega, ?_⟩
      rw [generalUnquotedLoop_resume hfit hext hdrop hu hsb hres, h4]
  | @escaped escape b raw hesc _ ih =>
    intro cursor u fuel hdrop hu hfuel
    simp only [List.length_cons] at hfuel
    obtain ⟨fuel', rfl⟩ : ∃ n, fuel = n + 1 := ⟨fuel - 1, by omega⟩
    have hd : input.drop (cursor + u.length) = escape :: b :: (raw ++ after) :=
      Window.drop_of_drop hdrop rfl
    have hres := unquotedStop_escape fieldStart hd hesc
    have hsb : searchByte cfg.toFormatSettings escape = true := by simp [searchByte, hesc]
    obtain ⟨c, u', f, h1, h2, h3, h4⟩ := ih (cursor + u.length + 2) []
      fuel' (by rw [List.nil_append]; exact Window.drop_of_drop (u := [escape, b]) hd rfl)
      (by simp) (by omega)
    refine ⟨c, u', f, h1, h2, by simp at h3 ⊢; omega, ?_⟩
    rw [generalUnquotedLoop_resume hfit hext hdrop hu hsb hres, h4]

end loop

omit hs hF hfit in
@[simp] theorem Tail.confirms_append (t : Tail) (rest : Bytes) :
    t.confirms (t.asSlice ++ rest) = true := by
  simp [Tail.confirms]

omit hF hfit in
/-- The scan ends at a separator, and the cursor goes behind it. -/
theorem unquotedStop_sep {raw rest : Bytes} {last : Bool} {fieldStart : ℕ}
    (hce : cfg.dialect.recordEnding = .crLf → cfg.dialect.escape.unquotedByte ≠ some 13)
    (hcr : last = true → cfg.dialect.recordEnding = .newline → raw.getLast? ≠ some 13)
    (hdrop : input.drop fieldStart = raw ++ (cfg.dialect.sepText last ++ rest)) :
    unquotedStop cfg input fieldStart (fieldStart + raw.length) =
      .ends (fieldStart + raw.length)
        (fieldStart + raw.length + (cfg.dialect.sepText last).length) last := by
  have hd := Window.drop_of_drop hdrop rfl
  have hseek : (cfg.syntax'.quotingEnabled && !cfg.syntax'.permitsUnquotedQuotes) =
    cfg.syntax'.seeksQuotes := rfl
  unfold unquotedStop
  simp only [hseek]
  cases last
  · -- a delimiter
    have hd' : input.drop (fieldStart + raw.length) =
        cfg.dialect.delimiter :: (cfg.dialect.delimiterTail.asSlice ++ rest) := hd
    have hb := byteAt_of_drop (u := []) hd' rfl
    have hafter : input.drop (fieldStart + raw.length + 1) =
        cfg.dialect.delimiterTail.asSlice ++ rest := Window.drop_of_drop (u := [_]) hd' rfl
    simp only [List.length_nil, Nat.add_zero] at hb
    rw [hb, hafter, Tail.confirms_append]
    have hesc : cfg.dialect.escape.unquotedByte ≠ some cfg.dialect.delimiter := fun h =>
      (hs.escape _ (Or.inr h)).1 rfl
    rw [if_neg hesc, if_neg (by simp [hs.delimiter_ne_quote]), if_neg (by
      simpa using fun h => hs.crLf_delimiter h), if_neg (Ne.symm hs.ending_ne_delimiter), if_pos rfl,
      Tail.width_eq hs.usable.1]
    simp [Dialect.sepText, Dialect.delimiterText]
  · rcases hr : cfg.dialect.recordEnding with _ | _ | b
    · -- a line feed
      have htail := hs.ending_tail (Or.inl hr)
      have hd' : input.drop (fieldStart + raw.length) = 10 :: rest := by
        rw [hd]; simp [Dialect.sepText, Dialect.endingText, hr, htail, RecordEnding.byte]
      have hb := byteAt_of_drop (u := []) hd' rfl
      simp only [List.length_nil, Nat.add_zero] at hb
      have hesc : cfg.dialect.escape.unquotedByte ≠ some 10 := fun h =>
        (hs.escape _ (Or.inr h)).2.2 (by rw [hr]; rfl)
      have hquote : (10 : UInt8) ≠ cfg.dialect.quote := by
        have := hs.ending_ne_quote; rwa [hr] at this
      have hstrip := stripCr_eq hdrop (hcr rfl hr)
      unfold stripCr at hstrip
      have hconf : ∀ l, cfg.dialect.endingTail.confirms l = true := fun l => by
        simp [Tail.confirms, htail]
      rw [hb, hconf, Tail.width_eq hs.usable.2, if_neg hesc,
        if_neg (by simp [hquote]), if_neg (by simp),
        if_pos (show (10 : UInt8) = RecordEnding.newline.byte from rfl), if_neg (by simp),
        if_pos rfl]
      simp only [beq_self_eq_true, Bool.true_and]
      rw [hstrip]
      simp [Dialect.sepText, Dialect.endingText, hr, htail]
    · -- a carriage return and a line feed
      have htail := hs.ending_tail (Or.inr hr)
      have hd' : input.drop (fieldStart + raw.length) = 13 :: 10 :: rest := by
        rw [hd]; simp [Dialect.sepText, Dialect.endingText, hr, htail, RecordEnding.byte]
      have hb := byteAt_of_drop (u := []) hd' rfl
      have hafter : input.drop (fieldStart + raw.length + 1) = 10 :: rest :=
        Window.drop_of_drop (u := [_]) hd' rfl
      simp only [List.length_nil, Nat.add_zero] at hb
      rw [hb, hafter, if_neg (hce hr), if_neg (by simp [(hs.crLf_quote hr).symm]),
        if_pos (by simp), if_pos (show (10 :: rest).head? = some 10 from rfl)]
      simp [Dialect.sepText, Dialect.endingText, hr, htail]
    · -- a byte of its own
      have hd' : input.drop (fieldStart + raw.length) =
          b :: (cfg.dialect.endingTail.asSlice ++ rest) := by
        rw [hd]; simp [Dialect.sepText, Dialect.endingText, hr, RecordEnding.byte]
      have hb := byteAt_of_drop (u := []) hd' rfl
      have hafter : input.drop (fieldStart + raw.length + 1) =
          cfg.dialect.endingTail.asSlice ++ rest := Window.drop_of_drop (u := [_]) hd' rfl
      simp only [List.length_nil, Nat.add_zero] at hb
      have hesc : cfg.dialect.escape.unquotedByte ≠ some b := fun h =>
        (hs.escape _ (Or.inr h)).2.2 (by rw [hr]; rfl)
      have hquote : b ≠ cfg.dialect.quote := by
        have := hs.ending_ne_quote; rwa [hr] at this
      rw [hb, hafter, Tail.confirms_append, Tail.width_eq hs.usable.2, if_neg hesc,
        if_neg (by simp [hquote]), if_neg (by simp),
        if_pos (show b = (RecordEnding.ofByte b).byte from rfl), if_neg (by simp), if_pos rfl,
        if_neg (by simp)]
      simp [Dialect.sepText, Dialect.endingText, hr]

omit hF hfit in
/-- The first byte of a separator is one the scan stops at. -/
theorem sepText_cons (last : Bool) : ∃ b t, cfg.dialect.sepText last = b :: t ∧
    searchByte cfg.toFormatSettings b = true ∧ b ≠ cfg.dialect.quote := by
  cases last
  · exact ⟨cfg.dialect.delimiter, _, rfl, by simp [searchByte], hs.delimiter_ne_quote⟩
  · by_cases hr : cfg.dialect.recordEnding = .crLf
    · exact ⟨13, _, by simp [Dialect.sepText, Dialect.endingText, hr]; rfl,
        by simp [searchByte, hr], (hs.crLf_quote hr).symm⟩
    · exact ⟨cfg.dialect.recordEnding.byte, _,
        by simp [Dialect.sepText, Dialect.endingText, hr]; rfl, by simp [searchByte],
        hs.ending_ne_quote⟩

omit hs hF in
theorem endGeneralField_ok (recordStart fieldStart fieldEnd pos location : ℕ) (terminated : Bool)
    (hw : e.spans.Within) (hlen : e.spans.len < input.length) (hend : fieldEnd ≤ input.length)
    (hloc : location ≤ input.length) :
    ∃ s, endGeneralField cfg input recordStart fieldStart fieldEnd pos location false terminated e =
        .ok terminated (e.parsed location s (terminated || e.terminated)) ∧
      Pushes cfg.nulls input e.spans s
        (unquotedField cfg.toFormatSettings (slice input fieldStart fieldEnd)) := by
  obtain ⟨s, hpush, hs⟩ := pushGeneralUnquotedSpan_ok hfit pos hw hlen hend
  refine ⟨s, ?_, hs⟩
  unfold endGeneralField
  rw [bind_ok hpush, bind_ok (setLocation_apply _ _), bind_ok (noteTerminatedIf_apply _ _),
    bind_ok (checkRecordLimit_ok hfit hloc)]
  rfl

omit hF in
/-- The general field scanner. -/
theorem parseGeneralUnquotedField_reads {raw rest : Bytes} {last : Bool} {recordStart : ℕ}
    (hce : cfg.dialect.recordEnding = .crLf → cfg.dialect.escape.unquotedByte ≠ some 13)
    (hraw : Passes cfg.toFormatSettings (cfg.dialect.sepText last ++ rest) raw)
    (hcr : last = true → cfg.dialect.recordEnding = .newline → raw.getLast? ≠ some 13)
    (hdrop : input.drop e.location = raw ++ (cfg.dialect.sepText last ++ rest))
    (hw : e.spans.Within) (hlen : e.spans.len ≤ e.location) :
    ∃ s t, parseGeneralUnquotedField cfg input recordStart false e = .ok last
        (e.parsed (e.location + (raw.length + (cfg.dialect.sepText last).length)) s t) ∧
      Pushes cfg.nulls input e.spans s (unquotedField cfg.toFormatSettings raw) := by
  obtain ⟨b, t, hsep, hb, -⟩ := sepText_cons hs last
  have hloc : e.location + raw.length < input.length := by
    refine Window.lt_length_of_drop (x := b) (v := t ++ rest) (Window.drop_of_drop ?_ rfl)
    rw [hdrop, hsep]; rfl
  have htotal : e.location + raw.length + (cfg.dialect.sepText last).length ≤ input.length := by
    have := congrArg List.length hdrop
    simp only [List.length_drop, List.length_append] at this
    omega
  obtain ⟨cursor, u, fuel, hd, hu, hpos, hrun⟩ := generalUnquotedLoop_passes (e := e)
    hfit recordStart e.location rfl hraw e.location [] (input.length + 2) hdrop (by simp) (by omega)
  simp only [List.length_nil, Nat.add_zero] at hpos
  rw [hsep, List.cons_append] at hd
  have hstop := unquotedStop_sep hs hce hcr hdrop
  rw [← hpos] at hstop
  have hraw' : slice input e.location (cursor + u.length) = raw :=
    Window.drop_take_of_drop hdrop hpos
  obtain ⟨s, hend, hpush⟩ := endGeneralField_ok (e := e) hfit recordStart e.location
    (cursor + u.length) (cursor + u.length)
    (cursor + u.length + (cfg.dialect.sepText last).length) last hw (by omega) (by omega) (by omega)
  refine ⟨s, last || e.terminated, ?_, by rwa [hraw'] at hpush⟩
  unfold parseGeneralUnquotedField
  rw [get_bind, hrun, generalUnquotedLoop_ends hfit rfl hd hu hb hstop, hend, hpos, Nat.add_assoc]

/-- **An unquoted field is read** up to its separator. -/
theorem parseUnquotedField_reads {raw rest : Bytes} {last : Bool} {recordStart : ℕ}
    (hce : cfg.dialect.recordEnding = .crLf → cfg.dialect.escape.unquotedByte ≠ some 13)
    (hraw : Passes cfg.toFormatSettings (cfg.dialect.sepText last ++ rest) raw)
    (hcr : last = true → cfg.dialect.recordEnding = .newline → raw.getLast? ≠ some 13)
    (hdrop : input.drop e.location = raw ++ (cfg.dialect.sepText last ++ rest))
    (hw : e.spans.Within) (hlen : e.spans.len ≤ e.location) :
    ∃ s t, parseUnquotedField cfg F input recordStart false e = .ok last
        (e.parsed (e.location + (raw.length + (cfg.dialect.sepText last).length)) s t) ∧
      Pushes cfg.nulls input e.spans s (unquotedField cfg.toFormatSettings raw) := by
  unfold parseUnquotedField
  rcases hgen : cfg.fmtGeneralParsing F with _ | _
  · rw [if_neg (by simp)]
    exact parseUnquotedFieldRuntime_reads hs hF hfit hgen hraw hcr hdrop hw hlen
  · rw [if_pos rfl]
    exact parseGeneralUnquotedField_reads hs hfit hce hraw hcr hdrop hw hlen

end unquoted

/-! ## Quoted fields -/

/-- The separator behind a closing quote is found there: no whitespace that may
    be skipped hides it, or only whitespace remains of the document. -/
def SepFound (o : FormatSettings) (last : Bool) (rest : Bytes) : Prop :=
  (o.syntax'.permitsTrailingWhitespace = true →
    ∀ b, (o.dialect.sepText last).head? = some b → isTrailingSpace b = false) ∨
  (last = true ∧ rest = [] ∧ o.dialect.endingText.all isTrailingSpace = true)

section quoted

variable (hs : cfg.dialect.Sound) (hF : cfg.Follows F) (hfit : cfg.limits.Fits input.length)

include hfit in
theorem endQuotedRecord_ok {recordStart location : ℕ} {terminated : Bool}
    (hloc : location ≤ input.length) :
    endQuotedRecord cfg input recordStart location terminated e =
      .ok true (e.parsed location e.spans terminated) := by
  unfold endQuotedRecord
  rw [bind_ok (setLocation_apply _ _), bind_ok (setTerminated_apply _ _),
    bind_ok (checkRecordLimit_ok hfit hloc)]
  rfl

include hs hF hfit in
/-- What follows a quoted field is its separator. -/
theorem finishQuotedField_reads (recordStart : ℕ) {rest : Bytes} {last : Bool} {afterQuote : ℕ}
    (hfound : SepFound cfg.toFormatSettings last rest) (hle : afterQuote ≤ input.length)
    (hdrop : input.drop afterQuote = cfg.dialect.sepText last ++ rest) :
    ∃ t, finishQuotedField cfg F input recordStart afterQuote e = .ok last
      (e.parsed (afterQuote + (cfg.dialect.sepText last).length) e.spans t) := by
  have htotal : input.length = afterQuote + ((cfg.dialect.sepText last).length + rest.length) := by
    rw [← List.length_append]; exact Window.length_of_drop hdrop hle
  unfold finishQuotedField
  simp only [hF.dialect, hF.syntax']
  by_cases hblank : (last = true ∧ rest = [] ∧ cfg.dialect.endingText.all isTrailingSpace = true) ∧
      cfg.syntax'.permitsTrailingWhitespace = true
  · -- the blank ending of the document is skipped
    obtain ⟨⟨rfl, rfl, hall⟩, hp⟩ := hblank
    have hskip : skipPostQuoteWhitespace input cfg.syntax'.permitsTrailingWhitespace afterQuote =
        afterQuote + (cfg.dialect.sepText true).length := by
      unfold skipPostQuoteWhitespace
      rw [if_pos hp, hdrop, List.append_nil]
      have : (cfg.dialect.sepText true).takeWhile (fun b => b == 32 || b == 9) =
          cfg.dialect.sepText true :=
        List.takeWhile_eq_self_iff.mpr fun b hb => List.all_eq_true.mp hall b hb
      rw [this]
    simp only [List.length_nil, Nat.add_zero] at htotal
    rw [hskip, List.getElem?_eq_none (by omega)]
    exact ⟨_, endQuotedRecord_ok hfit (by omega)⟩
  have hskip : skipPostQuoteWhitespace input cfg.syntax'.permitsTrailingWhitespace afterQuote =
      afterQuote := by
    unfold skipPostQuoteWhitespace
    split
    · rename_i hp
      rcases hfound with hfound | hfound
      · obtain ⟨b, t, hsep, -, -⟩ := sepText_cons hs last
        have hb := hfound hp b (by rw [hsep]; rfl)
        rw [hdrop, hsep, List.cons_append, List.takeWhile_cons_of_neg (by
          simp only [isTrailingSpace] at hb; simp [hb])]
        rfl
      · exact absurd ⟨hfound, hp⟩ hblank
    · rfl
  rw [hskip]
  cases last
  · -- a delimiter
    have hd : input.drop afterQuote =
        cfg.dialect.delimiter :: (cfg.dialect.delimiterTail.asSlice ++ rest) := hdrop
    have hafter : input.drop (afterQuote + 1) = cfg.dialect.delimiterTail.asSlice ++ rest :=
      Window.drop_of_drop (u := [_]) hd rfl
    have hb : input[afterQuote]? = some cfg.dialect.delimiter :=
      Window.getElem?_of_drop (u := []) hd rfl
    rw [hb, hafter]
    simp only [beq_self_eq_true, Tail.confirms_append, Bool.and_self, if_true]
    refine ⟨e.terminated, ?_⟩
    rw [bind_ok (setLocation_apply _ _), pure_apply, Tail.width_eq hs.usable.1]
    rfl
  · rcases hr : cfg.dialect.recordEnding with _ | _ | b
    · -- a line feed
      have htail := hs.ending_tail (Or.inl hr)
      have hsep : cfg.dialect.sepText true = [10] := by
        simp [Dialect.sepText, Dialect.endingText, hr, htail, RecordEnding.byte]
      rw [hsep] at hdrop htotal ⊢
      have hb : input[afterQuote]? = some 10 := Window.getElem?_of_drop (u := []) hdrop rfl
      have hne : ((10 : UInt8) == cfg.dialect.delimiter) = false := by
        have := hs.ending_ne_delimiter; rw [hr] at this; simpa [RecordEnding.byte] using this
      have hconf : ∀ l, cfg.dialect.endingTail.confirms l = true := fun l => by
        simp [Tail.confirms, htail]
      rw [hb]
      simp only [hne, Bool.false_and, hconf, RecordEnding.byte, beq_self_eq_true, Bool.and_true]
      rw [if_neg (by simp), if_pos (by rfl), Tail.width_eq hs.usable.2, htail]
      exact ⟨_, endQuotedRecord_ok hfit (by simp at htotal ⊢; omega)⟩
    · -- a carriage return and a line feed
      have htail := hs.ending_tail (Or.inr hr)
      have hsep : cfg.dialect.sepText true = [13, 10] := by
        simp [Dialect.sepText, Dialect.endingText, hr, htail, RecordEnding.byte]
      rw [hsep] at hdrop htotal ⊢
      have hb : input[afterQuote]? = some 13 := Window.getElem?_of_drop (u := []) hdrop rfl
      have hafter : input.drop (afterQuote + 1) = 10 :: rest :=
        Window.drop_of_drop (u := [13]) hdrop rfl
      have hne : ((13 : UInt8) == cfg.dialect.delimiter) = false := by
        simpa using (hs.crLf_delimiter hr).symm
      rw [hb, hafter]
      simp only [hne, Bool.false_and]
      rw [if_neg (by simp), if_neg (by simp), if_pos (by rfl)]
      exact ⟨_, endQuotedRecord_ok hfit (by simp at htotal; omega)⟩
    · -- a byte of its own
      have hd : input.drop afterQuote = b :: (cfg.dialect.endingTail.asSlice ++ rest) := by
        rw [hdrop]; simp [Dialect.sepText, Dialect.endingText, hr, RecordEnding.byte]
      have hafter : input.drop (afterQuote + 1) = cfg.dialect.endingTail.asSlice ++ rest :=
        Window.drop_of_drop (u := [_]) hd rfl
      have hb : input[afterQuote]? = some b := Window.getElem?_of_drop (u := []) hd rfl
      have hne : (b == cfg.dialect.delimiter) = false := by
        have := hs.ending_ne_delimiter; rw [hr] at this; simpa [RecordEnding.byte] using this
      have hlen : (cfg.dialect.sepText true).length = cfg.dialect.endingTail.width := by
        simp [Dialect.sepText, Dialect.endingText, hr, Tail.width_eq hs.usable.2]
      rw [hb, hafter]
      simp only [hne, Bool.false_and, Tail.confirms_append, RecordEnding.byte, beq_self_eq_true,
        Bool.and_true]
      rw [if_neg (by simp), if_pos (by rfl), hlen]
      exact ⟨_, endQuotedRecord_ok hfit (by omega)⟩

/-! ### The search for the closing quote -/

omit hF hfit in
theorem findQuoted_eq {d : Dialect} (hesc : d.escape.escapesUnquoted = false) (remaining : Bytes) :
    findQuoted d remaining = remaining.findIdx? (quotedSpecial d) := by
  rcases he : d.escape with _ | escape | _ | escape <;> rw [he] at hesc
  · simp only [findQuoted, find1, he]
    congr 1; funext b; simp [quotedSpecial, he]
  · simp only [findQuoted, find2, he]
    congr 1; funext b; simp [quotedSpecial, he]
  · cases hesc
  · cases hesc

/-- An escaped byte is spelled with a byte that the search stops at. -/
theorem quotedEscape_eq {d : Dialect} {x : UInt8} (hx : quotedSpecial d x = true) :
    ∃ a, quotedEscape d x = [a, x] ∧ quotedSpecial d a = true := by
  rcases he : d.escape with _ | escape | _ | escape <;>
    simp only [quotedSpecial, he, Bool.or_eq_true, beq_iff_eq, Bool.false_eq_true] at hx
  · exact ⟨d.quote, by simp [quotedEscape, he, hx], by simp [quotedSpecial, he]⟩
  · exact ⟨escape, by simp [quotedEscape, he], by simp [quotedSpecial, he]⟩

omit hs in
theorem quotedStop_escaped {x : UInt8} {v : Bytes} {pos scanEnd : ℕ}
    (hx : quotedSpecial cfg.dialect x = true)
    (hdrop : input.drop pos = quotedEscape cfg.dialect x ++ v) :
    quotedStop input cfg.toFormatSettings scanEnd pos = .escaped x := by
  obtain ⟨a, ha, -⟩ := quotedEscape_eq hx
  rw [ha] at hdrop
  have hnext : input[pos + 1]? = some x := Window.getElem?_of_drop (u := [a]) hdrop rfl
  have hbyte : byteAt input pos = a := byteAt_of_drop (u := []) hdrop rfl
  rcases he : cfg.dialect.escape with _ | escape | _ | escape <;>
    simp only [quotedSpecial, quotedEscape, he, Bool.or_eq_true, beq_iff_eq, Bool.false_eq_true,
      List.cons.injEq, and_true] at hx ha
  · simp [quotedStop, he, hnext, ha.2]
  · simp only [quotedStop, he, hnext, hbyte]
    rw [if_pos ha.symm, if_neg]
    rcases hx with rfl | rfl <;> simp

include hs in
theorem quotedStop_closing {b : UInt8} {v : Bytes} {pos scanEnd : ℕ}
    (hesc : cfg.dialect.escape.escapesUnquoted = false) (hb : b ≠ cfg.dialect.quote)
    (hdrop : input.drop pos = cfg.dialect.quote :: b :: v) :
    quotedStop input cfg.toFormatSettings scanEnd pos = .closing := by
  have hnext : input[pos + 1]? = some b :=
    Window.getElem?_of_drop (u := [cfg.dialect.quote]) hdrop rfl
  have hbyte : byteAt input pos = cfg.dialect.quote := byteAt_of_drop (u := []) hdrop rfl
  rcases he : cfg.dialect.escape with _ | escape | _ | escape <;> rw [he] at hesc
  · simp [quotedStop, he, hnext, hb]
  · have hne := (hs.escape escape (Or.inl he)).2.1
    simp [quotedStop, he, hbyte, hne.symm]
  · cases hesc
  · cases hesc

include hs hF hfit in
/-- At the closing quote the field is pushed. -/
theorem closeQuotedField_reads {base : SpanStorage} {done content rest : Bytes} {last : Bool}
    {recordStart contentStart cursor : ℕ} {copied : Bool}
    (hfound : SepFound cfg.toFormatSettings last rest)
    (hw : base.Within) (hlen : base.len < input.length)
    (he : e.spans = base.extendScratch done)
    (hcopied : copied = false → done = [] ∧ cursor = contentStart)
    (hdone : done.length ≤ cursor)
    (hdrop : input.drop cursor =
      content ++ (cfg.dialect.quote :: (cfg.dialect.sepText last ++ rest))) :
    ∃ s t, closeQuotedField cfg F input recordStart contentStart base.scratch.length cursor
        (cursor + content.length) copied e = .ok last
        (e.parsed (cursor + (content.length + 1 + (cfg.dialect.sepText last).length)) s t) ∧
      Pushes cfg.nulls input base s ⟨done ++ content, false⟩ := by
  have hafter : input.drop (cursor + content.length + 1) = cfg.dialect.sepText last ++ rest :=
    Window.drop_of_drop (u := content ++ [cfg.dialect.quote]) (by simpa using hdrop) (by simp; omega)
  have hle : cursor + content.length < input.length :=
    Window.lt_length_of_drop (Window.drop_of_drop hdrop rfl)
  have htext : slice input cursor (cursor + content.length) = content :=
    Window.drop_take_of_drop hdrop rfl
  have hrest : ∀ e' : Engine, ∃ t, finishQuotedField cfg F input recordStart
      (cursor + content.length + 1) e' = .ok last
      (e'.parsed (cursor + (content.length + 1 + (cfg.dialect.sepText last).length)) e'.spans t) := by
    intro e'
    obtain ⟨t, ht⟩ := finishQuotedField_reads (e := e') hs hF hfit recordStart
      hfound (by omega) hafter
    exact ⟨t, by rw [ht]; congr 2; omega⟩
  unfold closeQuotedField
  rcases copied with _ | _
  · -- the field is a part of the input
    obtain ⟨rfl, rfl⟩ := hcopied rfl
    have he' : e.spans = base := by rw [he]; simp [SpanStorage.extendScratch]
    have hpush : pushSpan cfg input .input cursor (cursor + content.length)
        (cursor + content.length) true e = .ok () (e.parsed e.location
          (e.spans.push ⟨.input, cursor, cursor + content.length, true, false⟩) e.terminated) :=
      pushSpan_ok hfit (by rw [he']; exact hlen) (by omega)
    obtain ⟨t, ht⟩ := hrest (e.parsed e.location
      (e.spans.push ⟨.input, cursor, cursor + content.length, true, false⟩) e.terminated)
    refine ⟨e.spans.push ⟨.input, cursor, cursor + content.length, true, false⟩, t, ?_, ?_⟩
    · simp only [Bool.false_eq_true, if_false]
      rw [get_bind, bind_ok hpush, ht]; rfl
    · rw [he']
      refine ⟨hw.push_input _ _ _ _, _, entries_push_input _ _ _ _ _ _, ?_⟩
      simp [Entry.mark, Entry.field, htext]
  · -- the field was copied to the scratch buffer
    have hsp : (e.spans.extendScratch content) = base.extendScratch (done ++ content) := by
      rw [he]; simp [SpanStorage.extendScratch]
    have hlen' : (e.spans.extendScratch content).scratch.length =
        base.scratch.length + (done ++ content).length := by
      rw [hsp]; simp [SpanStorage.extendScratch]
    have hpush := @pushSpan_ok _ _ (e.parsed e.location (e.spans.extendScratch content) e.terminated)
      hfit .scratch base.scratch.length (base.scratch.length + (done ++ content).length)
      (cursor + content.length) true (by rw [parsed_spans, hsp]; exact hlen) (by simp; omega)
    obtain ⟨t, ht⟩ := hrest (e.parsed e.location ((base.extendScratch (done ++ content)).push
      ⟨.scratch, base.scratch.length, base.scratch.length + (done ++ content).length, true, false⟩)
      e.terminated)
    refine ⟨(base.extendScratch (done ++ content)).push
      ⟨.scratch, base.scratch.length, base.scratch.length + (done ++ content).length, true, false⟩,
      t, ?_, ?_⟩
    · simp only [if_true, htext]
      rw [bind_ok (extendScratch_apply _ _), get_bind, parsed_spans, hlen', bind_ok hpush]
      simp only [parsed_parsed, parsed_spans, parsed_location, parsed_terminated, hsp]
      exact ht
    · refine ⟨hw.push_scratch _ _, _, entries_push_scratch hw _ _ _, ?_⟩
      simp [Entry.mark, Entry.field]

omit hs hF hfit in
/-- A text splits at the first byte that quotes escape. -/
theorem quotedSplit (d : Dialect) (content : Bytes) :
    (∀ b ∈ content, quotedSpecial d b = false) ∨
      ∃ u x v, content = u ++ x :: v ∧ quotedSpecial d x = true ∧
        ∀ b ∈ u, quotedSpecial d b = false := by
  rcases h : content.findIdx? (quotedSpecial d) with _ | i
  · exact Or.inl fun b hb => by simpa using List.findIdx?_eq_none_iff.mp h b hb
  · obtain ⟨u, x, v, hc, -, hx, hu⟩ := Window.of_findIdx?_some h
    exact Or.inr ⟨u, x, v, hc, hx, hu⟩

include hs hF hfit in
/-- The scan inside quotes, from behind what was copied already. -/
theorem quotedLoop_reads (recordStart contentStart : ℕ) {base : SpanStorage} {rest : Bytes}
    {last : Bool} (hesc : cfg.dialect.escape.escapesUnquoted = false)
    (hfound : SepFound cfg.toFormatSettings last rest) (hw : base.Within)
    (hlen : base.len < input.length) :
    ∀ (fuel : ℕ) (e : Engine) (done content : Bytes) (cursor : ℕ) (copied : Bool),
      content.length + 1 ≤ fuel → e.spans = base.extendScratch done →
      (copied = false → done = [] ∧ cursor = contentStart) → done.length ≤ cursor →
      input.drop cursor = Append.substAll (quotedSpecial cfg.dialect) (quotedEscape cfg.dialect)
        content ++ (cfg.dialect.quote :: (cfg.dialect.sepText last ++ rest)) →
      ∃ s t, quotedLoop cfg F input recordStart contentStart base.scratch.length fuel cursor cursor
          copied e = .ok last
          (e.parsed (cursor + ((Append.substAll (quotedSpecial cfg.dialect)
            (quotedEscape cfg.dialect) content).length + 1 +
              (cfg.dialect.sepText last).length)) s t) ∧
        Pushes cfg.nulls input base s ⟨done ++ content, false⟩ := by
  have hfmt : (cfg.fmt F).dialect = cfg.dialect := hF.dialect
  have hstopF : ∀ scanEnd pos, quotedStop input (cfg.fmt F) scanEnd pos =
      quotedStop input cfg.toFormatSettings scanEnd pos := by
    intro scanEnd pos; simp only [quotedStop, hF.dialect, hF.syntax']
  intro fuel
  induction fuel with
  | zero => intro _ _ _ _ _ h; omega
  | succ fuel ih =>
    intro e done content cursor copied hfuel he hcopied hdone hdrop
    have hcursor : cursor ≤ input.length := by
      by_contra hc
      rw [List.drop_eq_nil_of_le (by omega)] at hdrop
      simp at hdrop
    have hwin : slice input cursor (scanEnd cfg input recordStart contentStart) =
        input.drop cursor := by
      rw [scanEnd_eq hfit, slice, List.take_length]
    unfold quotedLoop
    simp only [hfmt, findQuoted_eq hesc, hwin, hstopF]
    rw [if_neg (by rw [scanEnd_eq hfit]; omega)]
    obtain ⟨b, t, hsep, -, hbq⟩ := sepText_cons hs last
    rcases quotedSplit cfg.dialect content with hnone | ⟨u, x, v, rfl, hx, hu⟩
    · -- the closing quote comes next
      have hq : quotedSpecial cfg.dialect cfg.dialect.quote = true := by
        rcases h : cfg.dialect.escape with _ | _ | _ | _ <;> rw [h] at hesc <;>
          first
          | (simp [quotedSpecial, h]; done)
          | cases hesc
      rw [Append.substAll_of_none hnone] at hdrop ⊢
      have hd : input.drop (cursor + content.length) =
          cfg.dialect.quote :: b :: (t ++ rest) := by
        rw [Window.drop_of_drop hdrop rfl, hsep]; rfl
      rw [hdrop, Window.findIdx?_append_cons hnone hq]
      simp only [quotedStop_closing hs hesc hbq hd]
      exact closeQuotedField_reads hs hF hfit hfound hw hlen he hcopied hdone hdrop
    · -- an escaped byte comes next
      obtain ⟨a, ha, hsa⟩ := quotedEscape_eq hx
      rw [Append.substAll_append, Append.substAll_cons, if_pos hx, Append.substAll_of_none hu,
        List.append_assoc, List.append_assoc] at hdrop
      have hd : input.drop (cursor + u.length) = quotedEscape cfg.dialect x ++
          (Append.substAll (quotedSpecial cfg.dialect) (quotedEscape cfg.dialect) v ++
            (cfg.dialect.quote :: (cfg.dialect.sepText last ++ rest))) :=
        Window.drop_of_drop hdrop rfl
      have hd2 : input.drop (cursor + u.length + 2) =
          Append.substAll (quotedSpecial cfg.dialect) (quotedEscape cfg.dialect) v ++
            (cfg.dialect.quote :: (cfg.dialect.sepText last ++ rest)) :=
        Window.drop_of_drop hd (by rw [ha]; rfl)
      have hle : cursor + u.length + 2 ≤ input.length := by
        by_contra hc
        rw [List.drop_eq_nil_of_le (by omega)] at hd2
        simp at hd2
      have hfind : (input.drop cursor).findIdx? (quotedSpecial cfg.dialect) = some u.length := by
        rw [hdrop, ha]
        exact Window.findIdx?_append_cons hu hsa
      rw [hfind]
      simp only [quotedStop_escaped hx hd]
      have hseg : (if copied then [] else slice input contentStart cursor) ++
          slice input cursor (cursor + u.length) = u := by
        have hu' : slice input cursor (cursor + u.length) = u :=
          Window.drop_take_of_drop hdrop rfl
        rw [hu']
        cases copied
        · obtain ⟨-, rfl⟩ := hcopied rfl
          simp [slice]
        · rfl
      have hspans : (e.spans.extendScratch u).extendScratch [x] =
          base.extendScratch (done ++ u ++ [x]) := by
        rw [he]; simp [SpanStorage.extendScratch]
      unfold copySegment
      rw [hseg, bind_ok (extendScratch_apply _ _), bind_ok (extendScratch_apply _ _)]
      simp only [parsed_parsed, parsed_spans, parsed_location, parsed_terminated, hspans]
      rw [bind_ok (checkScratchLimit_ok hfit (by
        simp only [parsed_spans, SpanStorage.extendScratch, List.length_append,
          List.length_singleton]
        omega))]
      obtain ⟨s, t, hrun, hpush⟩ := ih
        (e.parsed e.location (base.extendScratch (done ++ u ++ [x])) e.terminated)
        (done ++ u ++ [x]) v (cursor + u.length + 2) true (by simp at hfuel; omega) rfl (by simp) (by simp; omega) hd2
      refine ⟨s, t, ?_, by simpa using hpush⟩
      rw [hrun, parsed_parsed, Append.substAll_append, Append.substAll_cons, if_pos hx,
        Append.substAll_of_none hu, ha]
      congr 2
      simp only [List.length_append, List.length_cons, List.length_nil]
      omega

include hs hF hfit in
/-- **A quoted field is read** up to its separator. -/
theorem parseQuotedField_reads {text content rest : Bytes} {last : Bool} {recordStart : ℕ}
    (htext : quotedText cfg.dialect content = .ok text)
    (hfound : SepFound cfg.toFormatSettings last rest)
    (hdrop : input.drop e.location = text ++ (cfg.dialect.sepText last ++ rest))
    (hw : e.spans.Within) (hlen : e.spans.len ≤ e.location) :
    ∃ s t, parseQuotedField cfg F input recordStart e = .ok last
        (e.parsed (e.location + (text.length + (cfg.dialect.sepText last).length)) s t) ∧
      Pushes cfg.nulls input e.spans s ⟨content, false⟩ := by
  unfold quotedText at htext
  rcases hesc : cfg.dialect.escape.escapesUnquoted with _ | _ <;> rw [hesc] at htext
  swap
  · cases htext
  simp only [Bool.false_eq_true, if_false, Except.ok.injEq] at htext
  subst htext
  have hdrop' : input.drop (e.location + 1) = Append.substAll (quotedSpecial cfg.dialect)
      (quotedEscape cfg.dialect) content ++
        (cfg.dialect.quote :: (cfg.dialect.sepText last ++ rest)) :=
    Window.drop_of_drop (u := [cfg.dialect.quote]) (by simpa using hdrop) rfl
  have hlt : e.location < input.length := by
    by_contra hc
    rw [List.drop_eq_nil_of_le (by omega)] at hdrop
    simp at hdrop
  have hcontent : content.length ≤ input.length := by
    have hne : ∀ x, quotedSpecial cfg.dialect x = true → quotedEscape cfg.dialect x ≠ [] := by
      intro x hx
      obtain ⟨a, ha, -⟩ := quotedEscape_eq hx
      simp [ha]
    have hsub := Append.length_le_substAll hne content
    have htotal := congrArg List.length hdrop'
    simp only [List.length_drop, List.length_append] at htotal
    omega
  obtain ⟨s, t, hrun, hpush⟩ := quotedLoop_reads hs hF hfit recordStart (e.location + 1) hesc
    hfound hw (by omega) (input.length + 1) e [] content (e.location + 1) false (by omega)
    (by simp [SpanStorage.extendScratch]) (fun _ => ⟨rfl, rfl⟩) (by simp) hdrop'
  refine ⟨s, t, ?_, by simpa using hpush⟩
  unfold parseQuotedField
  rw [get_bind]
  simp only [hrun]
  congr 2
  simp only [List.length_append, List.length_cons, List.length_nil]
  omega

end quoted

/-! ## One field -/

/-- No escape byte outside quotes is a part of the record ending. -/
def EscapeApart (o : FormatSettings) : Prop :=
  o.dialect.recordEnding = .crLf → o.dialect.escape.unquotedByte ≠ some 13

/-- The field parser finds what stands behind the field. -/
def Delimited (o : FormatSettings) (last : Bool) (text rest : Bytes) : Prop :=
  (last = true → CrFree o text) ∧
    if last then EndVisible o text rest else SepVisible o text o.dialect.delimiterText

theorem quotedText_head {d : Dialect} {content text : Bytes}
    (h : quotedText d content = .ok text) : text.head? = some d.quote := by
  unfold quotedText at h
  split at h
  · cases h
  · cases h; rfl

theorem Delimited.sepFound {o : FormatSettings} {last : Bool} {text rest : Bytes}
    (h : Delimited o last text rest) (hen : o.syntax'.quotingEnabled = true)
    (hhead : text.head? = some o.dialect.quote) : SepFound o last rest := by
  obtain ⟨-, h⟩ := h
  cases last
  · exact Or.inl fun hp b hb => h hp hhead hen b hb
  · rcases h with h | h
    · exact Or.inl fun hp b hb => h hp hhead hen b hb
    · exact Or.inr ⟨rfl, h.1, h.2⟩

/-- **A spelled field is read** up to its separator. -/
theorem parseField_reads (hs : cfg.dialect.Sound) (hF : cfg.Follows F)
    (hfit : cfg.limits.Fits input.length) (hskip : cfg.skipInitialSpace = false)
    (hce : EscapeApart cfg.toFormatSettings) (recordStart : ℕ) (last : Bool)
    {text rest : Bytes} {f : Field}
    (hf : FieldSpells cfg.toFormatSettings (cfg.dialect.sepText last ++ rest) text f)
    (hdel : Delimited cfg.toFormatSettings last text rest)
    (hdrop : input.drop e.location = text ++ (cfg.dialect.sepText last ++ rest))
    (hw : e.spans.Within) (hlen : e.spans.len ≤ e.location) :
    ∃ s t, parseField cfg F input recordStart false e = .ok last
        (e.parsed (e.location + (text.length + (cfg.dialect.sepText last).length)) s t) ∧
      Pushes cfg.nulls input e.spans s f := by
  have hspaces : skipDelimiterSpaces cfg input F recordStart e = .ok () e := by
    unfold skipDelimiterSpaces
    rw [get_bind, hF.skipInitialSpace, hskip]; rfl
  have hhead : input[e.location]? = (text ++ (cfg.dialect.sepText last ++ rest)).head? := by
    rw [← hdrop, List.head?_drop]
  unfold parseField
  rw [bind_ok hspaces, get_bind, hF.dialect, hF.syntax', hhead]
  cases hf with
  | quoted hen htext =>
    have hq := quotedText_head htext
    rw [if_pos ⟨by rw [List.head?_append, hq]; rfl, hen⟩]
    exact parseQuotedField_reads hs hF hfit htext (hdel.sepFound hen hq) hdrop hw hlen
  | unquoted hraw hquote =>
    rw [if_neg]
    · exact parseUnquotedField_reads hs hF hfit hce hraw
        (fun hl hr => hdel.1 hl hr hquote) hdrop hw hlen
    · rintro ⟨hb, hen⟩
      obtain ⟨b, t, hsep, -, hne⟩ := sepText_cons hs last
      rw [List.head?_append, hsep] at hb
      rcases hh : text.head? with _ | c <;> rw [hh] at hb
      · simp only [List.cons_append, List.head?_cons, Option.none_or, Option.some.injEq] at hb
        exact hne hb
      · exact hquote hen (by rw [hh]; exact hb)

end Engine

end Coseva
