/-
  Coseva — the parser reads one spelled record.

  * `parseRecordFields_reads`: the field-by-field parser;
  * `plainLoop_reads`: the plain kernel declines the record or reads it.
-/
import Coseva.ReadField

namespace Coseva

namespace Engine

open Run SpanStorage

variable {cfg : ParserSettings} {F : CsvFormat} {input : Bytes} {e : Engine}

/-! ## Field by field -/

/-- `s` holds the fields `fs`. -/
def Holds (nulls : Nulls) (input : Bytes) (s : SpanStorage) (fs : List Field) : Prop :=
  s.Within ∧ (s.entries input).map (fun x => (x.mark nulls).field) = fs

theorem holds_empty (nulls : Nulls) (input : Bytes) : Holds nulls input .empty [] :=
  ⟨within_empty, rfl⟩

theorem Holds.push {nulls : Nulls} {s s' : SpanStorage} {fs : List Field} {f : Field}
    (h : Holds nulls input s fs) (hp : Pushes nulls input s s' f) :
    Holds nulls input s' (fs ++ [f]) := by
  obtain ⟨hw, x, hx, hf⟩ := hp
  refine ⟨hw, ?_⟩
  rw [hx, List.map_append, h.2, List.map_singleton, hf]

/-- Once the null pass has run the fields are what they read as. -/
theorem Holds.marked {nulls : Nulls} {s : SpanStorage} {fs : List Field}
    (h : Holds nulls input s fs) :
    Holds nulls input (s.markInputNulls input (rawFieldIsNull nulls)) fs ∧
      (s.markInputNulls input (rawFieldIsNull nulls)).resolved input = fs := by
  refine ⟨⟨h.1.mark _, ?_⟩, ?_⟩
  · rw [entries_mark, List.map_map, ← h.2]
    exact List.map_congr_left fun x _ => by simp [Entry.mark_mark]
  · rw [resolved_eq, entries_mark, List.map_map, ← h.2]
    rfl

theorem Holds.resolved_none {s : SpanStorage} {fs : List Field} (h : Holds .none input s fs) :
    s.resolved input = fs := by
  rw [resolved_eq, ← h.2]
  exact List.map_congr_left fun x _ => by rw [Entry.mark_none]

theorem markNullSpans_reads (hF : cfg.Follows F) {fs : List Field}
    (h : Holds cfg.nulls input e.spans fs) :
    ∃ s, markNullSpans cfg F input false e = .ok () (e.parsed e.location s e.terminated) ∧
      s.resolved input = fs := by
  unfold markNullSpans
  rw [hF.nulls]
  by_cases hn : cfg.nulls = .none
  · refine ⟨e.spans, by simp only [hn, true_or, if_true]; rfl, ?_⟩
    rw [hn] at h
    exact h.resolved_none
  · refine ⟨_, by simp only [hn, false_or, Bool.false_eq_true, if_false]; rfl, h.marked.2⟩

theorem validateFieldCount_flexible (hcount : cfg.fieldCount = .flexible) (actual : ℕ) :
    validateFieldCount cfg input actual e = .ok () e := by
  unfold validateFieldCount
  rw [get_bind]
  simp [hcount]

/-- What the reading of a record relies on. -/
structure Reads (cfg : ParserSettings) (F : CsvFormat) (input : Bytes) : Prop where
  sound : cfg.dialect.Sound
  follows : cfg.Follows F
  fits : cfg.limits.Fits input.length
  skipInitialSpace : cfg.skipInitialSpace = false
  escape : EscapeApart cfg.toFormatSettings
  fieldCount : cfg.fieldCount = .flexible

variable (hr : Reads cfg F input)

include hr

/-- **The field-by-field parser** reads a spelled record. -/
theorem fieldsLoop_reads {rest text : Bytes} {fs : List Field} (recordStart : ℕ)
    (h : FieldsSpell cfg.toFormatSettings rest text fs) :
    ∀ (fuel : ℕ) (e : Engine) (before : List Field), text.length ≤ fuel →
      input.drop e.location = text ++ rest → Holds cfg.nulls input e.spans before →
      e.spans.len ≤ e.location →
      ∃ s t, fieldsLoop cfg F input recordStart false fuel e =
          .ok () (e.parsed (e.location + text.length) s t) ∧
        s.resolved input = before ++ fs := by
  induction h with
  | @last text f hf hcr hend =>
    intro fuel e before hfuel hdrop hold hlen
    obtain ⟨b, t, hsep, -, -⟩ := sepText_cons hr.sound true
    have hsep' : cfg.dialect.endingText = b :: t := hsep
    obtain ⟨fuel, rfl⟩ : ∃ n, fuel = n + 1 := ⟨fuel - 1, by simp [hsep'] at hfuel; omega⟩
    obtain ⟨s, t, hrun, hpush⟩ := parseField_reads hr.sound hr.follows hr.fits
      hr.skipInitialSpace hr.escape recordStart true hf ⟨fun _ => hcr, hend⟩
      (by rw [hdrop, List.append_assoc]; rfl) hold.1 hlen
    obtain ⟨s', hmark, hres⟩ := markNullSpans_reads
      (e := e.parsed (e.location + (text.length + (cfg.dialect.sepText true).length)) s t)
      hr.follows (hold.push hpush)
    refine ⟨s', t, ?_, hres⟩
    rw [fieldsLoop, bind_ok hrun, if_pos rfl, bind_ok hmark, get_bind,
      validateFieldCount_flexible hr.fieldCount, List.length_append]
    rfl
  | @more text tail f fs hf hsep hfs ih =>
    intro fuel e before hfuel hdrop hold hlen
    obtain ⟨fuel, rfl⟩ : ∃ n, fuel = n + 1 :=
      ⟨fuel - 1, by simp [Dialect.delimiterText] at hfuel; omega⟩
    obtain ⟨s, t, hrun, hpush⟩ := parseField_reads hr.sound hr.follows hr.fits
      hr.skipInitialSpace hr.escape recordStart false hf ⟨by simp, hsep⟩
      (by rw [hdrop]; simp [Dialect.sepText]) hold.1 hlen
    have hdrop' : input.drop (e.location + (text.length + (cfg.dialect.sepText false).length)) =
        tail ++ rest :=
      Window.drop_of_drop (u := text ++ cfg.dialect.delimiterText) (by rw [hdrop]; simp)
        (by simp [Dialect.sepText])
    obtain ⟨s', t', hrun', hres⟩ := ih fuel
      (e.parsed (e.location + (text.length + (cfg.dialect.sepText false).length)) s t)
      (before ++ [f]) (by simp [Dialect.delimiterText] at hfuel; omega) hdrop' (hold.push hpush)
      (by have := hpush.len; simp [Dialect.sepText, Dialect.delimiterText]; omega)
    refine ⟨s', t', ?_, by rw [hres]; simp⟩
    rw [fieldsLoop, bind_ok hrun, if_neg (by simp), hrun', parsed_parsed, parsed_location]
    congr 2
    simp only [Dialect.sepText, List.length_append, Bool.false_eq_true, if_false]
    omega

theorem parseRecordFields_reads {rest text : Bytes} {fs : List Field} (recordStart : ℕ)
    (h : FieldsSpell cfg.toFormatSettings rest text fs)
    (hdrop : input.drop e.location = text ++ rest) (hspans : e.spans = .empty) :
    ∃ s t, parseRecordFields cfg F input recordStart false e =
        .ok () (e.parsed (e.location + text.length) s t) ∧ s.resolved input = fs := by
  have hlen : text.length ≤ input.length + 2 := by
    have := congrArg List.length hdrop
    simp only [List.length_drop, List.length_append] at this
    omega
  exact fieldsLoop_reads hr recordStart h (input.length + 2) e [] hlen hdrop
    (by rw [hspans]; exact holds_empty _ _) (by rw [hspans]; exact Nat.zero_le _)

/-! ## The plain kernel -/

/-- The engine with another count of folded lines. -/
def folded (e : Engine) (lines upto : ℕ) : Engine :=
  { e with foldedLines := lines, foldedUpto := upto }

omit hr in
theorem foldPlainRecord_apply (cfg : ParserSettings) (F : CsvFormat) (recordStart : ℕ) (terminated : Bool) :
    ∃ l u, foldPlainRecord cfg F recordStart terminated e = .ok () (e.folded l u) := by
  unfold foldPlainRecord foldPlainRecordTerminator
  simp only [modify_apply]
  split
  · exact ⟨e.foldedLines, e.foldedUpto, rfl⟩
  · exact ⟨_, _, rfl⟩

omit hr in
theorem structuralMatches_append (d : Dialect) (u v : Bytes) :
    ∀ pos, structuralMatches d pos (u ++ v) =
      structuralMatches d pos u ++ structuralMatches d (pos + u.length) v := by
  induction u with
  | nil => intro pos; rfl
  | cons b u ih =>
    intro pos
    simp only [List.cons_append, structuralMatches, ih]
    have : pos + 1 + u.length = pos + (b :: u).length := by simp; omega
    split <;> simp [this]

omit hr in
theorem structuralMatches_length_le (d : Dialect) :
    ∀ (pos : ℕ) (l : Bytes), (structuralMatches d pos l).length ≤ l.length
  | _, [] => Nat.le_refl _
  | pos, b :: l => by
    have := structuralMatches_length_le d (pos + 1) l
    simp only [structuralMatches]
    split <;> simp <;> omega

omit hr in
theorem mem_structuralMatches {d : Dialect} {m : ℕ × UInt8} :
    ∀ {pos : ℕ} {l : Bytes}, m ∈ structuralMatches d pos l → pos ≤ m.1 ∧ m.1 < pos + l.length
  | _, [], h => by cases h
  | pos, b :: l, h => by
    simp only [structuralMatches] at h
    have hrec : m ∈ structuralMatches d (pos + 1) l → pos ≤ m.1 ∧ m.1 < pos + (b :: l).length := by
      intro h
      have := mem_structuralMatches h
      simp only [List.length_cons]; omega
    split at h
    · rcases List.mem_cons.mp h with rfl | h
      · simp
      · exact hrec h
    · exact hrec h

/-- The kernel passes over a clean text. -/
theorem plainLoop_clean {recordStart scanEnd fieldStart : ℕ} {ms : List (ℕ × UInt8)} {raw : Bytes} :
    ∀ {pos : ℕ}, Clean cfg.toFormatSettings raw → fieldStart ≤ pos →
      (cfg.syntax'.quotingEnabled = true → pos = fieldStart →
        raw.head? ≠ some cfg.dialect.quote) →
      plainLoop cfg F input recordStart scanEnd fieldStart
          (structuralMatches cfg.dialect pos raw ++ ms) e =
        plainLoop cfg F input recordStart scanEnd fieldStart ms e := by
  induction raw with
  | nil => intro pos _ _ _; rfl
  | cons b raw ih =>
    intro pos hclean hpos hquote
    obtain ⟨hd, hn, hq, -⟩ := hclean b List.mem_cons_self
    have ih := @ih (pos + 1) (fun c hc => hclean c (List.mem_cons_of_mem b hc)) (by omega)
      (fun _ h => absurd h (by omega))
    simp only [structuralMatches]
    split
    · rw [List.cons_append, plainLoop]
      simp only [hr.follows.dialect, hr.follows.syntax']
      rw [if_neg hd, if_neg, if_neg hn]
      · exact ih
      · rintro ⟨rfl, hen, hstart⟩
        rcases hstart with hstart | hperm
        · exact hquote hen hstart rfl
        · exact hq (by simp [Syntax.seeksQuotes, hen, hperm]) rfl
    · exact ih

omit hr in
theorem declinePlain_apply :
    declinePlain e = .ok false (e.parsed e.location e.spans.clearSpans e.terminated) := rfl

/-- Behind an escape the kernel declines. -/
theorem plainLoop_declines {recordStart scanEnd : ℕ} (hend : scanEnd = input.length)
    (hesc : hasEscape cfg F input recordStart scanEnd = true) :
    ∀ (ms : List (ℕ × UInt8)) (e : Engine) (fieldStart : ℕ),
      (∀ m ∈ ms, m.1 ≤ input.length ∧ hasEscape cfg F input recordStart m.1 = true) →
      e.spans.len + ms.length ≤ input.length →
      plainLoop cfg F input recordStart scanEnd fieldStart ms e =
        .ok false (e.parsed e.location e.spans.clearSpans e.terminated) := by
  intro ms
  induction ms with
  | nil =>
    intro e fieldStart _ _
    rw [plainLoop, if_neg (by omega), if_pos hesc, declinePlain_apply]
  | cons m ms ih =>
    intro e fieldStart hms hlen
    obtain ⟨cursor, byte⟩ := m
    obtain ⟨hm, hm'⟩ := hms _ List.mem_cons_self
    have hrest := fun m h => hms m (List.mem_cons_of_mem _ h)
    simp only [List.length_cons] at hlen
    rw [plainLoop]
    simp only
    split
    · rw [bind_ok (pushSpan_ok hr.fits (by omega) (by omega)), ih _ _ hrest (by simp; omega)]
      rfl
    split
    · exact declinePlain_apply
    split
    · exact declinePlain_apply
    · exact ih _ _ hrest (by omega)

/-- The kernel has given the record back. -/
def Declined (e : Engine) (r : EStateM.Result Fault Engine Bool) : Prop :=
  r = .ok false (e.parsed e.location e.spans.clearSpans e.terminated)

omit hr in
/-- How a field of single-byte separators is spelled: between quotes, with an
    escape, or as it stands. -/
theorem fieldSpells_cases {o : FormatSettings} {after text : Bytes} {f : Field}
    (hmb : o.dialect.multibyte = false) (hf : FieldSpells o after text f) :
    (o.syntax'.quotingEnabled = true ∧ text.head? = some o.dialect.quote) ∨
    (o.syntax'.quotingEnabled = true → text.head? ≠ some o.dialect.quote) ∧
      ((∃ escape u v, o.dialect.escape.unquotedByte = some escape ∧ text = u ++ escape :: v ∧
          Clean o u) ∨
        Clean o text ∧ ((⟨text, false, .input, false⟩ : Entry).mark o.nulls).field = f) := by
  cases hf with
  | quoted hen htext => exact Or.inl ⟨hen, quotedText_head htext⟩
  | unquoted hraw hquote =>
    refine Or.inr ⟨hquote, ?_⟩
    have hmark : (∀ escape, o.dialect.escape.unquotedByte = some escape → escape ∉ text) →
        ((⟨text, false, .input, false⟩ : Entry).mark o.nulls).field = unquotedField o text := by
      intro hesc
      unfold unquotedField
      rcases hu : o.dialect.escape.unquotedByte with _ | escape
      · by_cases hnull : rawFieldIsNull o.nulls text = true <;>
          simp [Entry.mark, Entry.field, hnull]
      · simp only
        rw [unescapeLoop_of_not_mem (by simpa [List.contains_eq_mem] using hesc escape hu)]
        by_cases hnull : rawFieldIsNull o.nulls text = true <;>
          simp [Entry.mark, Entry.field, hnull]
    rcases hu : o.dialect.escape.unquotedByte with _ | escape
    · rw [hu] at hmark
      exact Or.inr ⟨hraw.clean hmb (List.append_nil text).symm (by simp [hu]), hmark (by simp)⟩
    · by_cases hmem : escape ∈ text
      · obtain ⟨u, v, hsplit, hnot⟩ := List.eq_append_cons_of_mem hmem
        refine Or.inl ⟨escape, u, v, rfl, hsplit, hraw.clean hmb hsplit fun c hc => ?_⟩
        rw [hu, Option.some.injEq] at hc
        exact hc ▸ hnot
      · have hnot : ∀ c, o.dialect.escape.unquotedByte = some c → c ∉ text := by
          intro c hc
          rw [hu, Option.some.injEq] at hc
          exact hc ▸ hmem
        exact Or.inr ⟨hraw.clean hmb (List.append_nil text).symm hnot, hmark hnot⟩

/-- At a field that is not spelled as it stands the kernel declines. -/
theorem plainLoop_field (hmb : cfg.dialect.multibyte = false) {after text : Bytes} {f : Field}
    {recordStart fieldStart : ℕ} (hf : FieldSpells cfg.toFormatSettings after text f)
    (hstart : recordStart ≤ fieldStart) (hdrop : input.drop fieldStart = text ++ after)
    (hlen : e.spans.len ≤ fieldStart) :
    Declined e (plainLoop cfg F input recordStart input.length fieldStart
        (structuralMatches cfg.dialect fieldStart (text ++ after)) e) ∨
      (cfg.syntax'.quotingEnabled = true → text.head? ≠ some cfg.dialect.quote) ∧
        Clean cfg.toFormatSettings text ∧
        ((⟨text, false, .input, false⟩ : Entry).mark cfg.nulls).field = f := by
  rcases fieldSpells_cases hmb hf with ⟨hen, hq⟩ | ⟨hquote, ⟨escape, u, v, hesc, rfl, hu⟩ | hclean⟩
  · -- the opening quote
    refine Or.inl ?_
    obtain ⟨t, rfl⟩ : ∃ t, text = cfg.dialect.quote :: t := by
      cases text with
      | nil => cases hq
      | cons b t => rw [List.head?_cons, Option.some.injEq] at hq; exact ⟨t, by rw [hq]⟩
    rw [List.cons_append, structuralMatches, if_pos (by simp), plainLoop]
    simp only [hr.follows.dialect, hr.follows.syntax']
    rw [if_neg hr.sound.delimiter_ne_quote.symm, if_pos (by simp [hen])]
    exact declinePlain_apply
  · -- an escape: whatever ends the record lies behind it
    refine Or.inl ?_
    have hne := hr.sound.escape escape (Or.inr hesc)
    have hd : input.drop (fieldStart + u.length) = escape :: (v ++ after) :=
      Window.drop_of_drop (by rw [hdrop]; simp) rfl
    have hescape : ∀ m, fieldStart + u.length < m →
        hasEscape cfg F input recordStart m = true := by
      intro m hm
      unfold hasEscape
      rw [hr.follows.dialect, hesc, Option.any_some, find1, List.findIdx?_isSome, List.any_eq_true]
      refine ⟨escape, ?_, by simp⟩
      have hget : input[fieldStart + u.length]? = some escape := Window.getElem?_of_drop (u := [])
        hd rfl
      refine List.mem_iff_getElem?.mpr ⟨fieldStart + u.length - recordStart, ?_⟩
      rw [slice, List.getElem?_drop, List.getElem?_take, if_pos (by omega), ← hget]
      congr 1; omega
    have htotal := congrArg List.length hdrop
    simp only [List.length_drop, List.length_append, List.length_cons] at htotal
    rw [List.append_assoc, structuralMatches_append, List.cons_append, structuralMatches,
      if_neg (by simp [hne])]
    have hhead : cfg.syntax'.quotingEnabled = true → fieldStart = fieldStart →
        u.head? ≠ some cfg.dialect.quote := by
      intro hen _ hu
      refine hquote hen ?_
      rw [List.head?_append, hu]; rfl
    rw [plainLoop_clean hr hu (Nat.le_refl _) hhead]
    refine plainLoop_declines hr rfl (hescape _ (by omega)) _ _ _ (fun m hm => ?_) ?_
    · have := mem_structuralMatches hm
      simp only [List.length_append] at this
      exact ⟨by omega, hescape _ (by omega)⟩
    · have := structuralMatches_length_le cfg.dialect (fieldStart + u.length + 1) (v ++ after)
      simp only [List.length_append] at this
      omega
  · exact Or.inr ⟨hquote, hclean⟩

/-- At the end of the record the kernel pushes the last field. -/
theorem plainLoop_ending (hmb : cfg.dialect.multibyte = false) {rest text : Bytes} {f : Field}
    {recordStart fieldStart : ℕ} {before : List Field}
    (hf : ((⟨text, false, .input, false⟩ : Entry).mark cfg.nulls).field = f)
    (hcr : CrFree cfg.toFormatSettings text)
    (hquote : cfg.syntax'.quotingEnabled = true → text.head? ≠ some cfg.dialect.quote)
    (hdrop : input.drop fieldStart = text ++ (cfg.dialect.endingText ++ rest))
    (hold : Holds cfg.nulls input e.spans before) (hlen : e.spans.len ≤ fieldStart) :
    Declined e (plainLoop cfg F input recordStart input.length fieldStart
        (structuralMatches cfg.dialect (fieldStart + text.length)
          (cfg.dialect.endingText ++ rest)) e) ∨
      ∃ s l u, plainLoop cfg F input recordStart input.length fieldStart
          (structuralMatches cfg.dialect (fieldStart + text.length)
            (cfg.dialect.endingText ++ rest)) e =
          .ok true ((e.parsed (fieldStart + text.length + cfg.dialect.endingText.length) s
            true).folded l u) ∧ Holds cfg.nulls input s (before ++ [f]) := by
  obtain ⟨-, het⟩ := Dialect.tails_of_single hmb
  -- the terminator proper, and what the kernel strips in front of it
  obtain ⟨cursor, hcursor, hms, hend⟩ : ∃ cursor,
      cursor + 1 = fieldStart + text.length + cfg.dialect.endingText.length ∧
      structuralMatches cfg.dialect (fieldStart + text.length) (cfg.dialect.endingText ++ rest) =
        (cursor, cfg.dialect.recordEnding.byte) :: structuralMatches cfg.dialect (cursor + 1) rest ∧
      (if cfg.dialect.recordEnding.stripsCr then stripCr input fieldStart cursor else cursor) =
        fieldStart + text.length := by
    by_cases hc : cfg.dialect.recordEnding = .crLf
    · have hsep : cfg.dialect.endingText = [13, 10] := by
        simp [Dialect.endingText, hc, het, RecordEnding.byte]
      refine ⟨fieldStart + text.length + 1, by rw [hsep]; rfl, ?_, ?_⟩
      · have hd := (hr.sound.crLf_delimiter hc).symm
        have hq := (hr.sound.crLf_quote hc).symm
        rw [hsep]
        simp [structuralMatches, hc, RecordEnding.byte, hd, hq]
      · rw [hsep] at hdrop
        have hb : byteAt input (fieldStart + text.length) = 13 := byteAt_of_drop hdrop rfl
        rw [hc]
        simp only [RecordEnding.stripsCr, if_true, stripCr, Nat.add_sub_cancel, hb]
        have hlt : fieldStart < fieldStart + text.length + 1 := by omega
        rw [if_pos (by rw [decide_eq_true hlt]; rfl)]
    · have hsep : cfg.dialect.endingText = [cfg.dialect.recordEnding.byte] := by
        simp [Dialect.endingText, hc, het]
      refine ⟨fieldStart + text.length, by rw [hsep]; rfl, ?_, ?_⟩
      · rw [hsep]; simp [structuralMatches]
      · rcases hre : cfg.dialect.recordEnding with _ | _ | b
        · simp only [RecordEnding.stripsCr, if_true]
          exact stripCr_eq hdrop (hcr hre hquote)
        · exact absurd hre hc
        · simp [RecordEnding.stripsCr]
  have htotal := congrArg List.length hdrop
  have hpos : 0 < cfg.dialect.endingText.length := by simp [Dialect.endingText]
  simp only [List.length_drop, List.length_append] at htotal
  rw [hms, plainLoop]
  simp only [hr.follows.dialect, hr.follows.syntax']
  rw [if_neg hr.sound.ending_ne_delimiter, if_neg (by simp [hr.sound.ending_ne_quote]),
    if_pos (by trivial), hend]
  split
  · exact Or.inl declinePlain_apply
  refine Or.inr ⟨e.spans.push ⟨.input, fieldStart, fieldStart + text.length, false, false⟩, ?_⟩
  obtain ⟨l, u, hfold⟩ := foldPlainRecord_apply cfg F
    (e := e.parsed (cursor + 1)
      (e.spans.push ⟨.input, fieldStart, fieldStart + text.length, false, false⟩) true)
    recordStart true
  refine ⟨l, u, ?_, hold.push ⟨hold.1.push_input _ _ _ _, _, entries_push_input _ _ _ _ _ _, ?_⟩⟩
  · unfold endPlainRecord
    rw [bind_ok (pushSpan_ok hr.fits (by omega) (by omega)), bind_ok (setLocation_apply _ _),
      bind_ok (setTerminated_apply _ _), bind_ok (checkRecordLimit_ok hr.fits (by omega))]
    simp only [parsed_parsed, parsed_spans, parsed_location]
    rw [bind_ok hfold, hcursor]
    rfl
  · rw [← hf]
    have : slice input fieldStart (fieldStart + text.length) = text :=
      Window.drop_take_of_drop hdrop rfl
    rw [this]

/-- The record has no carriage return but the one of its ending. -/
def CrOnce (o : FormatSettings) (text : Bytes) : Prop :=
  o.dialect.recordEnding = .crLf →
    ∃ body, text = body ++ o.dialect.endingText ∧ ∀ b ∈ body, b ≠ 13

/-- **The plain kernel** declines a spelled record or reads it. -/
theorem plainLoop_reads (hmb : cfg.dialect.multibyte = false) {rest text : Bytes}
    {fs : List Field} {recordStart : ℕ} (h : FieldsSpell cfg.toFormatSettings rest text fs) :
    ∀ {e : Engine} {fieldStart : ℕ} {before : List Field}, recordStart ≤ fieldStart →
      input.drop fieldStart = text ++ rest → Holds cfg.nulls input e.spans before →
      e.spans.len ≤ fieldStart →
      Declined e (plainLoop cfg F input recordStart input.length fieldStart
          (structuralMatches cfg.dialect fieldStart (text ++ rest)) e) ∨
        (∃ s l u, plainLoop cfg F input recordStart input.length fieldStart
            (structuralMatches cfg.dialect fieldStart (text ++ rest)) e =
            .ok true ((e.parsed (fieldStart + text.length) s true).folded l u) ∧
          Holds cfg.nulls input s (before ++ fs)) ∧ CrOnce cfg.toFormatSettings text := by
  induction h with
  | @last text f hf hcr hend =>
    intro e fieldStart before hstart hdrop hold hlen
    rw [List.append_assoc] at hdrop ⊢
    rcases plainLoop_field hr hmb hf hstart hdrop hlen with hdec | ⟨hquote, hclean, hfield⟩
    · exact Or.inl hdec
    rw [structuralMatches_append, plainLoop_clean hr hclean (Nat.le_refl _) fun hen _ => hquote hen]
    rcases plainLoop_ending hr hmb hfield hcr hquote hdrop hold hlen with
      hdec | ⟨s, l, u, hrun, hs⟩
    · exact Or.inl hdec
    · refine Or.inr ⟨⟨s, l, u, ?_, hs⟩, fun hc => ⟨text, rfl, fun b hb => (hclean b hb).2.2.2 hc⟩⟩
      rw [hrun, List.length_append, Nat.add_assoc]
  | @more text tail f fs hf hsep hfs ih =>
    intro e fieldStart before hstart hdrop hold hlen
    obtain ⟨hdt, -⟩ := Dialect.tails_of_single hmb
    have hdelim : cfg.dialect.delimiterText = [cfg.dialect.delimiter] := by
      simp [Dialect.delimiterText, hdt]
    have hdrop : input.drop fieldStart = text ++ (cfg.dialect.delimiterText ++ (tail ++ rest)) := by
      rw [hdrop]; simp
    have htext : text ++ cfg.dialect.delimiterText ++ tail ++ rest =
        text ++ (cfg.dialect.delimiterText ++ (tail ++ rest)) := by simp
    rw [htext]
    rcases plainLoop_field hr hmb hf hstart hdrop hlen with hdec | ⟨hquote, hclean, hfield⟩
    · exact Or.inl hdec
    have htotal := congrArg List.length hdrop
    simp only [List.length_drop, List.length_append] at htotal
    rw [structuralMatches_append, plainLoop_clean hr hclean (Nat.le_refl _) fun hen _ => hquote hen]
    rw [hdelim] at hdrop htotal ⊢
    simp only [List.length_singleton] at htotal
    -- the delimiter ends the field
    have hslice : slice input fieldStart (fieldStart + text.length) = text :=
      Window.drop_take_of_drop hdrop rfl
    have hpush : Pushes cfg.nulls input e.spans
        (e.spans.push ⟨.input, fieldStart, fieldStart + text.length, false, false⟩) f :=
      ⟨hold.1.push_input _ _ _ _, _, entries_push_input _ _ _ _ _ _, by rw [hslice, hfield]⟩
    have hnext := @ih (e.parsed e.location
        (e.spans.push ⟨.input, fieldStart, fieldStart + text.length, false, false⟩) e.terminated)
      (fieldStart + text.length + 1) (before ++ [f]) (by omega)
      (Window.drop_of_drop (u := text ++ [cfg.dialect.delimiter]) (by rw [hdrop]; simp)
        (by simp; omega)) (hold.push hpush) (by simp; omega)
    have hstep : plainLoop cfg F input recordStart input.length fieldStart
        (structuralMatches cfg.dialect (fieldStart + text.length)
          ([cfg.dialect.delimiter] ++ (tail ++ rest))) e =
        plainLoop cfg F input recordStart input.length (fieldStart + text.length + 1)
          (structuralMatches cfg.dialect (fieldStart + text.length + 1) (tail ++ rest))
          (e.parsed e.location
            (e.spans.push ⟨.input, fieldStart, fieldStart + text.length, false, false⟩)
            e.terminated) := by
      rw [List.singleton_append, structuralMatches, if_pos (by simp), plainLoop]
      simp only [hr.follows.dialect]
      rw [if_pos (by trivial), bind_ok (pushSpan_ok hr.fits (by omega) (by omega))]
    rw [hstep]
    rcases hnext with hdec | ⟨⟨s, l, u, hrun, hs⟩, honce⟩
    · exact Or.inl hdec
    · refine Or.inr ⟨⟨s, l, u, ?_, by simpa using hs⟩, fun hc => ?_⟩
      · rw [hrun, parsed_parsed]
        congr 3
        simp only [List.length_append, List.length_singleton]
        omega
      · obtain ⟨body, rfl, hbody⟩ := honce hc
        refine ⟨text ++ [cfg.dialect.delimiter] ++ body, by simp, fun b hb => ?_⟩
        simp only [List.mem_append, List.mem_singleton] at hb
        rcases hb with (hb | rfl) | hb
        · exact (hclean b hb).2.2.2 hc
        · exact hr.sound.crLf_delimiter hc
        · exact hbody b hb

end Engine

end Coseva
