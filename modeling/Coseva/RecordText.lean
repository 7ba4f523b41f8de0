/-
  Coseva — the text of a record is not skipped, and spells its fields.

  * `readsBlank`: the records whose text begins like a blank line;
  * `record_spells`: the text of a record spells it;
  * `record_kept`: it is not skipped.
-/
import Coseva.Spelling
import Coseva.EmitRun

namespace Coseva

open Engine

/-! ## Records that would be skipped -/

/-- The field is written as no bytes at all. -/
def writesNothing (o : FormatSettings) (isFirst lone : Bool) : Option Bytes → Bool
  | some field => field.isEmpty && !writesQuotes o isFirst lone (some field)
  | none => o.nulls == .postgresCsv

/-- The text of the first field begins with a carriage return that its line feed
    follows. -/
def startsBreak (o : FormatSettings) (field : Option Bytes) : Bool :=
  o.dialect.recordEnding == .newline && field.any fun (bytes : Bytes) => bytes.head? == some 10 &&
    (match o.dialect.escape.unquotedByte with
      | some escape => escape == 13
      | none => o.dialect.quote == 13)

/-- The text of the record begins like a blank line. -/
def readsBlank (o : FormatSettings) : List (Option Bytes) → Bool
  | [] => false
  | [field] => startsBreak o field || writesNothing o true true field
  | field :: next :: fields =>
    startsBreak o field ||
      (o.dialect.recordEnding == .newline && o.dialect.delimiter == 13 &&
        writesNothing o true false field &&
        (match o.dialect.delimiterTail.asSlice with
          | [] => fields.isEmpty && writesNothing o false false next
          | b :: _ => b == 10))

/-- The record begins with the marker of NULL where that is a comment. -/
def readsComment (o : FormatSettings) (row : List (Option Bytes)) : Bool :=
  o.nulls == .mysql && row.head? == some none && o.dialect.comment == some 92

section kept

variable {cfg : ParserSettings} {isFirst last : Bool} {after text : Bytes} {field : Option Bytes}

/-- A text is no blank line by its first two bytes. -/
theorem recordEndingWidthAt_none {l : Bytes} (hend : l.head? ≠ some cfg.dialect.recordEnding.byte)
    (hcr : cfg.dialect.recordEnding = .newline ∨ cfg.dialect.recordEnding = .crLf →
      l.head? = some 13 → l[1]? ≠ some 10) : recordEndingWidthAt cfg l 0 = none := by
  rw [List.head?_eq_getElem?] at hend hcr
  unfold recordEndingWidthAt
  simp only
  split
  · rename_i hr
    rw [hr] at hend
    have hend : l[0]? ≠ some 10 := hend
    rw [if_neg hend, if_neg fun h => hcr (Or.inl hr) h.1 h.2]
  · rename_i hr
    rw [if_neg fun h => hcr (Or.inr hr) h.1 h.2]
  · rename_i b hr
    rw [hr] at hend
    rw [if_neg fun h => hend h.1]

/-- The text is not skipped, where its first two bytes tell. -/
theorem kept_of_head {l : Bytes} (hend : l.head? ≠ some cfg.dialect.recordEnding.byte)
    (hcr : cfg.blankRecords = .skip →
      cfg.dialect.recordEnding = .newline ∨ cfg.dialect.recordEnding = .crLf →
        l.head? = some 13 → l[1]? ≠ some 10)
    (hcomment : ∀ comment, cfg.dialect.comment = some comment → l.head? ≠ some comment) :
    Kept cfg l := ⟨hcomment, fun hb => recordEndingWidthAt_none hend (hcr hb)⟩

/-- A text between quotes is not skipped. -/
theorem quotedText_kept (hs : cfg.dialect.Sound) {bytes : Bytes}
    (hesc : cfg.dialect.escape.unquotedByte = none)
    (hbreak : cfg.blankRecords = .skip → startsBreak cfg.toFormatSettings (some bytes) = false)
    (htext : quotedText cfg.dialect bytes = .ok text) (after : Bytes) : Kept cfg (text ++ after) := by
  unfold quotedText at htext
  split at htext
  · cases htext
  obtain rfl := Except.ok.inj htext
  refine kept_of_head (by simpa using hs.ending_ne_quote.symm) ?_ fun comment hc => ?_
  · intro hb hr hhead
    have hbreak := hbreak hb
    have hq : cfg.dialect.quote = 13 := by simpa using hhead
    have hq10 : cfg.dialect.quote ≠ 10 := by rw [hq]; decide
    have hn : cfg.dialect.recordEnding = .newline :=
      hr.resolve_right fun hc => hs.crLf_quote hc hq
    simp only [startsBreak, hn, hesc, hq, beq_self_eq_true, Option.any_some, Bool.true_and,
      Bool.and_true, beq_eq_false_iff_ne] at hbreak
    simp only [List.cons_append, List.getElem?_cons_succ, ← List.head?_eq_getElem?]
    cases bytes with
    | nil => simpa [Append.substAll] using hq10
    | cons c bytes =>
      have hc : c ≠ 10 := by simpa using hbreak
      rw [Append.substAll_cons]
      split
      · rename_i hspecial
        rcases he : cfg.dialect.escape with _ | escape | _ | escape <;>
          simp only [quotedSpecial, quotedEscape, he, Bool.false_eq_true] at hspecial ⊢
        · simpa using hq10
        · have := (hs.escape escape (Or.inl he)).2.2
          rw [hn] at this
          simpa [RecordEnding.byte] using this
      · simpa using hc
  · have := (hs.comment comment hc).2.1
    simpa using this.symm

/-- A text that stands as it is is not skipped. -/
theorem bareText_kept {bytes : Bytes} (hne : bytes ≠ [])
    (hbare : needsQuotes cfg.dialect bytes true = false) (after : Bytes) :
    Kept cfg (bytes ++ after) := by
  obtain ⟨hclean, hlead⟩ := clean_of_bare hbare
  obtain ⟨b, tail, rfl⟩ := List.exists_cons_of_ne_nil hne
  obtain ⟨-, hr, -, hcr⟩ := hclean b List.mem_cons_self
  refine kept_of_head (by simpa using hr) (fun _ h hb => ?_) fun comment hc hb => ?_
  · exact absurd (by simpa using hb) (hcr h)
  · have hlead := hlead rfl
    have hb : b = comment := by simpa using hb
    simp [Dialect.leads, hc, hb] at hlead

/-- Escaped text is not skipped. -/
theorem escapedText_kept (hs : cfg.dialect.Sound) {escape : UInt8} {bytes : Bytes} (hne : bytes ≠ [])
    (hesc : cfg.dialect.escape.unquotedByte = some escape)
    (hce : EscapeApart cfg.toFormatSettings)
    (hbreak : cfg.blankRecords = .skip → startsBreak cfg.toFormatSettings (some bytes) = false)
    (hreturns : ReturnsApart cfg.toFormatSettings true last bytes)
    (hafter : cfg.dialect.recordEnding = .newline → last = false → after.head? ≠ some 10) :
    Kept cfg (escapedText cfg.dialect escape bytes true ++ after) := by
  obtain ⟨hxd, hxq, hxr⟩ := hs.escape escape (Or.inr hesc)
  obtain ⟨b, tail, rfl⟩ := List.exists_cons_of_ne_nil hne
  have hb10 : cfg.blankRecords = .skip → cfg.dialect.recordEnding = .newline → escape = 13 →
      b ≠ 10 := by
    intro hb hn hx
    simpa [startsBreak, hn, hesc, hx] using hbreak hb
  -- a text that begins with the escape, and what stands behind it
  have hescaped : ∀ {c : UInt8} {v : Bytes}, (cfg.blankRecords = .skip →
      cfg.dialect.recordEnding = .newline → escape = 13 → c ≠ 10) →
        Kept cfg (escape :: c :: v) := by
    intro c v hc
    refine kept_of_head (by simpa using hxr) (fun hb hr hx => ?_) fun comment hcom => ?_
    · have hx : escape = 13 := by simpa using hx
      have hn : cfg.dialect.recordEnding = .newline :=
        hr.resolve_right fun h => hce h (by rw [← hx]; exact hesc)
      simpa using hc hb hn hx
    · have := (hs.comment comment hcom).2.2.2.1
      rw [hesc] at this
      simpa using this
  unfold escapedText
  split
  · exact hescaped hb10
  rename_i hlead
  simp only [Bool.true_and, Bool.not_eq_true] at hlead
  rw [escapeAll_cons]
  rcases escapeOne_cases cfg.dialect escape b with
    ⟨letter, hone, hm, hl, -⟩ | ⟨hone, -⟩ | ⟨hone, hx, hd, hr, hq, hcr⟩ <;> rw [hone]
  · refine hescaped fun _ _ hx => ?_
    rw [hm] at hesc
    obtain rfl : (92 : UInt8) = escape := Option.some.inj hesc
    cases hx
  · exact hescaped hb10
  · -- the byte stands for itself
    refine kept_of_head (by simpa using hr) (fun _ hnl h13 => ?_) fun comment hcom hb => ?_
    · obtain rfl : b = 13 := by simpa using h13
      have hunquoted : cfg.dialect.escape = .unquoted escape := by
        rcases escape_cases hesc with ⟨hm, -⟩ | h
        · exact absurd rfl (hcr hm)
        · exact h
      have hn : cfg.dialect.recordEnding = .newline := hnl.resolve_right fun hc =>
        hreturns.within hc escape hunquoted List.mem_cons_self
      have hten : ∀ c v, escapeAll cfg.dialect escape (c :: v) ++ after ≠ [] ∧
          (escapeAll cfg.dialect escape (c :: v) ++ after).head? ≠ some 10 := by
        intro c v
        rw [hn] at hxr
        rw [escapeAll_cons]
        rcases escapeOne_cases cfg.dialect escape c with
          ⟨_, hone, -⟩ | ⟨hone, -⟩ | ⟨hone, -, -, hcr, -⟩ <;> rw [hone]
        · simpa [RecordEnding.byte] using hxr
        · simpa [RecordEnding.byte] using hxr
        · rw [hn] at hcr
          simpa [RecordEnding.byte] using hcr
      simp only [List.cons_append, List.nil_append, List.getElem?_cons_succ,
        ← List.head?_eq_getElem?]
      cases tail with
      | nil =>
        cases last with
        | true => exact absurd rfl (hreturns.ending hn rfl escape hunquoted)
        | false => simpa [escapeAll] using hafter hn rfl
      | cons c v => exact (hten c v).2
    · have hb : b = comment := by simpa using hb
      simp [Dialect.leads, hcom, hb] at hlead

/-- The marker of NULL is not skipped. -/
theorem marker_kept (hm : MarkerPasses cfg.toFormatSettings after) (hs : cfg.dialect.Sound)
    (hcomment : cfg.dialect.comment ≠ some 92) : Kept cfg (92 :: 78 :: after) := by
  refine ⟨fun comment hc hb => hcomment (by rw [hc, ← hb]; rfl), fun _ => ?_⟩
  unfold recordEndingWidthAt
  simp only
  rcases hr : cfg.dialect.recordEnding with _ | _ | b
  · simp
  · simp
  · simp only
    refine if_neg ?_
    rintro ⟨hb, hconfirms⟩
    obtain rfl : (92 : UInt8) = b := Option.some.inj hb
    rcases hm.passes with hx | ⟨hstop, -⟩
    · exact (hs.escape 92 (Or.inr hx)).2.2 (by rw [hr]; rfl)
    · exact hstop (Or.inr (Or.inl ⟨by rw [hr]; rfl, Or.inr hconfirms⟩))

/-- The text of the first field is not skipped. -/
theorem firstText_kept (valid : cfg.Valid) (hquoting : cfg.quoting ≠ .raw)
    (hce : EscapeApart cfg.toFormatSettings) (hpresent : cfg.nulls = .none → field ≠ none)
    (hst : FieldStands cfg.toFormatSettings true last after field)
    (hbreak : cfg.blankRecords = .skip → startsBreak cfg.toFormatSettings field = false)
    (hcomment : cfg.nulls = .mysql → field = none → cfg.dialect.comment ≠ some 92)
    (hafter : cfg.dialect.recordEnding = .newline → last = false → after.head? ≠ some 10)
    (h : fieldText cfg.dialect cfg.quoting cfg.nulls field true = .ok text) (hne : text ≠ []) :
    Kept cfg (text ++ after) := by
  have hs := valid.sound
  cases field with
  | none =>
    have h : absentText cfg.dialect cfg.quoting cfg.nulls = .ok text := h
    unfold absentText at h
    cases hn : cfg.nulls with
    | none => exact absurd rfl (hpresent hn)
    | postgresCsv => rw [hn] at h; exact absurd (Except.ok.inj h).symm hne
    | mysql =>
      rw [hn] at h
      obtain rfl := Except.ok.inj h
      exact marker_kept (hst.absent hn rfl) hs (hcomment hn rfl)
  | some bytes =>
    rcases hesc : cfg.dialect.escape.unquotedByte with _ | escape
    · rcases presentText_cases hesc hquoting h with ⟨-, htext⟩ | ⟨-, rfl, hbare⟩
      · exact quotedText_kept hs hesc hbreak htext after
      · exact bareText_kept hne hbare after
    · have h : presentText cfg.dialect cfg.quoting cfg.nulls bytes true = .ok text := h
      unfold presentText at h
      rw [hesc] at h
      simp only at h
      split at h
      · -- the marker as a value
        obtain rfl := Except.ok.inj h
        obtain ⟨-, -, hxr⟩ := hs.escape escape (Or.inr hesc)
        refine kept_of_head (by simpa using hxr) (fun _ _ _ => by simp) fun comment hcom => ?_
        have := (hs.comment comment hcom).2.2.2.1
        rw [hesc] at this
        simpa using this
      · obtain rfl := Except.ok.inj h
        refine escapedText_kept hs ?_ hesc hce hbreak (hst.returns bytes rfl) hafter
        rintro rfl
        exact hne (by simp [escapedText, Dialect.leads, bom, escapeAll])

/-- No field's text begins with a line feed that ends records. -/
theorem fieldText_head (valid : cfg.Valid) (hquoting : cfg.quoting ≠ .raw)
    (hr : cfg.dialect.recordEnding = .newline) (hpresent : cfg.nulls = .none → field ≠ none)
    (h : fieldText cfg.dialect cfg.quoting cfg.nulls field isFirst = .ok text) :
    text.head? ≠ some 10 := by
  have hs := valid.sound
  have hq := hs.ending_ne_quote
  rw [hr] at hq
  cases field with
  | none =>
    have h : absentText cfg.dialect cfg.quoting cfg.nulls = .ok text := h
    unfold absentText at h
    cases hn : cfg.nulls with
    | none => exact absurd rfl (hpresent hn)
    | postgresCsv => rw [hn] at h; obtain rfl := Except.ok.inj h; simp
    | mysql => rw [hn] at h; obtain rfl := Except.ok.inj h; simp
  | some bytes =>
    rcases hesc : cfg.dialect.escape.unquotedByte with _ | escape
    · rcases presentText_cases hesc hquoting h with ⟨-, htext⟩ | ⟨-, rfl, hbare⟩
      · rw [quotedText_head htext]
        simpa [RecordEnding.byte] using hq.symm
      · intro hhead
        have := ((clean_of_bare hbare).1 10 (List.mem_of_head? hhead)).2.1
        rw [hr] at this
        exact this rfl
    · have hxr := (hs.escape escape (Or.inr hesc)).2.2
      rw [hr] at hxr
      have hxr : escape ≠ 10 := hxr
      have h : presentText cfg.dialect cfg.quoting cfg.nulls bytes isFirst = .ok text := h
      unfold presentText at h
      rw [hesc] at h
      simp only at h
      split at h
      · obtain rfl := Except.ok.inj h
        simpa using hxr
      · obtain rfl := Except.ok.inj h
        unfold escapedText
        split
        · simpa using hxr
        · cases bytes with
          | nil => simp [escapeAll]
          | cons c bytes =>
            rw [escapeAll_cons]
            rcases escapeOne_cases cfg.dialect escape c with
              ⟨_, hone, -⟩ | ⟨hone, -⟩ | ⟨hone, -, -, hcr, -⟩ <;> rw [hone]
            · simpa using hxr
            · simpa using hxr
            · rw [hr] at hcr
              have hcr : c ≠ 10 := hcr
              simpa using hcr

end kept

/-! ## Records -/

section record

variable {cfg : ParserSettings} {rest text : Bytes} {field : Option Bytes}
  {fields : List (Option Bytes)}

/-- What the emitter's text of a record consists of: the texts of its fields, or
    a pair of quotes for a lone empty one. -/
theorem recordText_cases (h : recordText cfg.dialect cfg.quoting cfg.nulls (field :: fields) =
      .ok text) :
    ∃ t u, fieldText cfg.dialect cfg.quoting cfg.nulls field true = .ok t ∧
      restText cfg.dialect cfg.quoting cfg.nulls fields = .ok u ∧
      ((t = [] ∧ fields = [] ∧ cfg.quoting = .necessary ∧ loneEmpty cfg.nulls [field] = true ∧
          text = [cfg.dialect.quote, cfg.dialect.quote] ++ cfg.dialect.endingText) ∨
        ((t = [] → fields = [] → cfg.quoting = .necessary →
            loneEmpty cfg.nulls [field] = false) ∧
          text = t ++ u ++ cfg.dialect.endingText)) := by
  obtain ⟨joined, hjoined, h⟩ := bind_ok_iff.mp h
  obtain rfl := Except.ok.inj h
  obtain ⟨t, ht, hjoined⟩ := bind_ok_iff.mp hjoined
  obtain ⟨u, hu, hjoined⟩ := bind_ok_iff.mp hjoined
  obtain rfl := Except.ok.inj hjoined
  refine ⟨t, u, ht, hu, ?_⟩
  unfold fixupText
  split
  · rename_i hfix
    obtain ⟨hlone, hempty, hq⟩ := hfix
    simp only [List.isEmpty_iff, List.append_eq_nil_iff] at hempty
    obtain ⟨rfl, rfl⟩ := hempty
    cases fields with
    | nil => exact Or.inl ⟨rfl, rfl, hq, hlone, rfl⟩
    | cons next fields => cases field <;> simp [loneEmpty] at hlone
  · rename_i hfix
    refine Or.inr ⟨?_, rfl⟩
    rintro rfl rfl hq
    obtain rfl := Except.ok.inj hu
    by_contra hlone
    exact hfix ⟨by simpa using hlone, rfl, hq⟩

/-- Necessary quoting is an option of dialects that quote. -/
theorem necessary_quotes (valid : cfg.Valid) (hq : cfg.quoting = .necessary) :
    cfg.dialect.escape.escapesUnquoted = false ∧ cfg.dialect.escape.unquotedByte = none ∧
      cfg.syntax'.quotingEnabled = true := by
  have hesc : cfg.dialect.escape.escapesUnquoted = false := by
    by_contra h
    have := (Valid.escape valid (by simpa using h)).symm
    rw [hq] at this
    cases this
  have hbyte : cfg.dialect.escape.unquotedByte = none := by simpa [Escape.escapesUnquoted] using hesc
  refine ⟨hesc, hbyte, ?_⟩
  unfold FormatSettings.Valid FormatSettings.invalidity at valid
  split at valid
  · cases valid
  split at valid
  · cases valid
  split at valid
  · cases valid
  · rename_i hmode
    simpa [hq] using hmode

/-- **The text of a record spells its fields.** -/
theorem record_spells (valid : cfg.Valid) (hquoting : cfg.quoting ≠ .raw) {final : Bool}
    (hpresent : cfg.nulls = .none → none ∉ field :: fields)
    (hst : RowStands cfg.toFormatSettings rest true (field :: fields))
    (hspaced : rowSpaced cfg.toFormatSettings final true (field :: fields) = true)
    (hfinal : final = true → rest = [])
    (h : recordText cfg.dialect cfg.quoting cfg.nulls (field :: fields) = .ok text) :
    FieldsSpell cfg.toFormatSettings rest text ((field :: fields).map Field.ofOption) := by
  obtain ⟨t, u, ht, hu, ⟨rfl, rfl, hq, hlone, rfl⟩ | ⟨-, rfl⟩⟩ := recordText_cases h
  · obtain ⟨hesc, hbyte, hen⟩ := necessary_quotes valid hq
    obtain rfl : field = some [] := by
      cases field with
      | none =>
        have hn : cfg.nulls = .none := by simpa [loneEmpty] using hlone
        exact absurd List.mem_cons_self (hpresent hn)
      | some bytes =>
        rw [loneEmpty, List.isEmpty_iff] at hlone
        rw [hlone]
    have htext : quotedText cfg.dialect [] = .ok [cfg.dialect.quote, cfg.dialect.quote] := by
      simp [quotedText, hesc, Append.substAll]
    refine .last (.quoted hen htext) (fun _ hhead => absurd rfl (hhead hen)) ?_
    simp only [rowSpaced, writesQuotes, hbyte, hq, Option.isNone_none, List.isEmpty_nil,
      beq_self_eq_true, Bool.and_true, Bool.or_true, Bool.not_true, Bool.or_false, Bool.or_eq_true,
      Bool.not_eq_true', Bool.and_eq_true] at hspaced
    rcases hspaced with (hp | hsep) | ⟨hf, hall⟩
    · exact Or.inl fun hp' => absurd hp' (by simp [hp])
    · exact Or.inl fun _ _ _ b hb => by simpa [hb] using hsep
    · exact Or.inr ⟨hfinal hf, hall⟩
  · exact row_spells valid hquoting fields hpresent hst hspaced hfinal ht hu

/-- A field without text is written as nothing. -/
theorem writesNothing_of_nil (hquoting : cfg.quoting ≠ .raw) {isFirst lone : Bool}
    (hpresent : cfg.nulls = .none → field ≠ none)
    (hlone : lone = true → cfg.quoting = .necessary → field ≠ some [])
    (h : fieldText cfg.dialect cfg.quoting cfg.nulls field isFirst = .ok []) :
    writesNothing cfg.toFormatSettings isFirst lone field = true := by
  cases field with
  | none =>
    have h : absentText cfg.dialect cfg.quoting cfg.nulls = .ok [] := h
    unfold absentText at h
    cases hn : cfg.nulls with
    | none => exact absurd rfl (hpresent hn)
    | postgresCsv => simp [writesNothing, hn]
    | mysql => rw [hn] at h; cases Except.ok.inj h
  | some bytes =>
    rcases hesc : cfg.dialect.escape.unquotedByte with _ | escape
    · rcases presentText_cases hesc hquoting h with ⟨-, htext⟩ | ⟨hq, rfl, -⟩
      · cases quotedText_head htext
      · have hnec : (lone && cfg.quoting == .necessary) = false := by
          rw [Bool.and_eq_false_iff]
          cases lone
          · exact Or.inl rfl
          · exact Or.inr (by simpa using fun hq => hlone rfl hq rfl)
        simp only [writesNothing, writesQuotes, hesc, hq, List.isEmpty_nil, Option.isNone_none,
          Bool.and_true, Bool.true_and, Bool.false_or, hnec, Bool.not_false]
    · have h : presentText cfg.dialect cfg.quoting cfg.nulls bytes isFirst = .ok [] := h
      unfold presentText at h
      rw [hesc] at h
      simp only at h
      split at h
      · cases Except.ok.inj h
      · have htext := Except.ok.inj h
        cases bytes with
        | nil => simp [writesNothing, writesQuotes, hesc]
        | cons c bytes =>
          unfold escapedText at htext
          split at htext
          · cases htext
          · rw [escapeAll_cons] at htext
            rcases escapeOne_cases cfg.dialect escape c with ⟨_, hone, -⟩ | ⟨hone, -⟩ | ⟨hone, -⟩ <;>
              rw [hone] at htext <;> cases htext

/-- The rest of a record is not skipped where its first field has no text. -/
theorem restText_kept (valid : cfg.Valid) (hquoting : cfg.quoting ≠ .raw)
    (hpresent : cfg.nulls = .none → none ∉ field :: fields) {u : Bytes}
    (hu : restText cfg.dialect cfg.quoting cfg.nulls fields = .ok u)
    (hfirst : writesNothing cfg.toFormatSettings true fields.isEmpty field = true)
    (hblank : cfg.blankRecords = .skip → readsBlank cfg.toFormatSettings (field :: fields) = false) :
    Kept cfg (u ++ cfg.dialect.endingText ++ rest) := by
  have hs := valid.sound
  cases fields with
  | nil =>
    -- the record ending alone
    obtain rfl := Except.ok.inj hu
    refine ⟨fun comment hc => ?_, fun hb => ?_⟩
    · obtain ⟨-, -, hce, -, hccr⟩ := hs.comment comment hc
      unfold Dialect.endingText
      split
      · rename_i hr
        simpa using (hccr hr).symm
      · simpa using hce.symm
    · have hfirst : writesNothing cfg.toFormatSettings true true field = true := hfirst
      have := hblank hb
      simp [readsBlank, hfirst] at this
  | cons next fields =>
    obtain ⟨t, ht, hu⟩ := bind_ok_iff.mp hu
    obtain ⟨u', hu', hu⟩ := bind_ok_iff.mp hu
    obtain rfl := Except.ok.inj hu
    have hnext : cfg.nulls = .none → next ≠ none := fun hn hf =>
      hpresent hn (by rw [hf]; simp)
    refine ⟨fun comment hc => ?_, fun hb => ?_⟩
    · have := (hs.comment comment hc).1
      simpa [Dialect.delimiterText] using this.symm
    have hblank := hblank hb
    simp only [readsBlank, Bool.or_eq_false_iff] at hblank
    obtain ⟨-, hblank⟩ := hblank
    refine recordEndingWidthAt_none ?_ fun hr h13 => ?_
    · simpa [Dialect.delimiterText] using hs.ending_ne_delimiter.symm
    have hd : cfg.dialect.delimiter = 13 := by simpa [Dialect.delimiterText] using h13
    have hn : cfg.dialect.recordEnding = .newline :=
      hr.resolve_right fun hc => hs.crLf_delimiter hc hd
    have hfirst : writesNothing cfg.toFormatSettings true false field = true := hfirst
    rw [hn, hd, hfirst] at hblank
    simp only [beq_self_eq_true, Bool.true_and] at hblank
    simp only [Dialect.delimiterText, List.cons_append, List.getElem?_cons_succ,
      ← List.head?_eq_getElem?]
    rcases htail : cfg.dialect.delimiterTail.asSlice with _ | ⟨b, tail⟩ <;>
      rw [htail] at hblank
    swap
    · simpa using hblank
    rcases ht0 : t with _ | ⟨c, t'⟩
    swap
    · have := fieldText_head valid hquoting hn hnext ht
      rw [ht0] at this
      simpa using this
    subst ht0
    cases fields with
    | nil =>
      have := @writesNothing_of_nil cfg next hquoting false false hnext (by simp) ht
      simp [this] at hblank
    | cons third fields =>
      obtain ⟨t'', -, hu'⟩ := bind_ok_iff.mp hu'
      obtain ⟨u'', -, hu'⟩ := bind_ok_iff.mp hu'
      obtain rfl := Except.ok.inj hu'
      simp [Dialect.delimiterText, hd]

/-- What follows the first field does not begin with a line feed that ends records. -/
theorem behindFirst_head (valid : cfg.Valid)
    (hr : cfg.dialect.recordEnding = .newline) {u : Bytes}
    (hu : restText cfg.dialect cfg.quoting cfg.nulls fields = .ok u)
    (hlast : fields.isEmpty = false) (v : Bytes) : (u ++ v).head? ≠ some 10 := by
  have hd := valid.sound.ending_ne_delimiter
  rw [hr] at hd
  cases fields with
  | nil => cases hlast
  | cons next fields =>
    obtain ⟨t, -, hu⟩ := bind_ok_iff.mp hu
    obtain ⟨u', -, hu⟩ := bind_ok_iff.mp hu
    obtain rfl := Except.ok.inj hu
    simpa [Dialect.delimiterText, RecordEnding.byte] using hd.symm

/-- The first field of a record stands in front of what follows it. -/
theorem RowStands.first {o : FormatSettings} {u : Bytes}
    (hu : restText o.dialect o.quoting o.nulls fields = .ok u)
    (h : RowStands o rest true (field :: fields)) :
    FieldStands o true fields.isEmpty (u ++ (o.dialect.endingText ++ rest)) field := by
  cases fields with
  | nil =>
    obtain rfl := Except.ok.inj hu
    exact h
  | cons next fields =>
    have := h.1
    rw [hu] at this
    exact this

/-- **The text of a record is not skipped.** -/
theorem record_kept (valid : cfg.Valid) (hquoting : cfg.quoting ≠ .raw)
    (hce : EscapeApart cfg.toFormatSettings)
    (hpresent : cfg.nulls = .none → none ∉ field :: fields)
    (hst : RowStands cfg.toFormatSettings rest true (field :: fields))
    (hblank : cfg.blankRecords = .skip → readsBlank cfg.toFormatSettings (field :: fields) = false)
    (hcomment : readsComment cfg.toFormatSettings (field :: fields) = false)
    (h : recordText cfg.dialect cfg.quoting cfg.nulls (field :: fields) = .ok text) :
    Kept cfg (text ++ rest) := by
  have hpresent' : cfg.nulls = .none → field ≠ none := fun hn hf =>
    hpresent hn (by rw [hf]; exact List.mem_cons_self)
  have hbreak : cfg.blankRecords = .skip → startsBreak cfg.toFormatSettings field = false := by
    intro hb
    have := hblank hb
    cases fields <;> simp only [readsBlank, Bool.or_eq_false_iff] at this <;> exact this.1
  obtain ⟨t, u, ht, hu, ⟨rfl, rfl, hq, hlone, rfl⟩ | ⟨hfix, rfl⟩⟩ := recordText_cases h
  · -- a pair of quotes
    obtain ⟨hesc, hbyte, -⟩ := necessary_quotes valid hq
    obtain rfl : field = some [] := by
      cases field with
      | none => exact absurd (by simpa [loneEmpty] using hlone) fun hn => hpresent' hn rfl
      | some bytes =>
        rw [loneEmpty, List.isEmpty_iff] at hlone
        rw [hlone]
    have htext : quotedText cfg.dialect [] = .ok [cfg.dialect.quote, cfg.dialect.quote] := by
      simp [quotedText, hesc, Append.substAll]
    rw [List.append_assoc]
    exact quotedText_kept valid.sound hbyte hbreak htext _
  · rw [List.append_assoc, List.append_assoc]
    by_cases hne : t = []
    · subst hne
      rw [List.nil_append, ← List.append_assoc]
      refine restText_kept valid hquoting hpresent hu ?_ hblank
      refine writesNothing_of_nil hquoting hpresent' (fun hlone hq => ?_) ht
      rintro rfl
      rw [List.isEmpty_iff] at hlone
      exact Bool.noConfusion (hfix rfl hlone hq)
    · refine firstText_kept valid hquoting hce hpresent' (hst.first hu) hbreak
        (fun hn hf hc => ?_) (fun hr hlast => ?_) ht hne
      · simp [readsComment, hn, hf, hc] at hcomment
      · exact behindFirst_head valid hr hu hlast _

end record

end Coseva
