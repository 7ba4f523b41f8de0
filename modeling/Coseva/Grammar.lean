/-
  Coseva — what the text of a record says: the reading of a format, independent
  of how the parser scans.

  * `stopsAt`, `Passes`: where an unquoted field ends, and the texts it passes
    over, escapes included;
  * `FieldSpells`, `FieldsSpell`: a text spells a field, or those of a record;
  * `SpanStorage.entries`: the fields that the parser's spans stand for.
-/
import Coseva.Cursor
import Coseva.EmitText
import Coseva.Lib.Run
import Coseva.Lib.Window

namespace Coseva

/-! ## Unambiguous dialects -/

/-- What validity says about the structural bytes. -/
structure Dialect.Sound (d : Dialect) : Prop where
  delimiter_ne_quote : d.delimiter ≠ d.quote
  ending_ne_delimiter : d.recordEnding.byte ≠ d.delimiter
  ending_ne_quote : d.recordEnding.byte ≠ d.quote
  crLf_delimiter : d.recordEnding = .crLf → d.delimiter ≠ 13
  crLf_quote : d.recordEnding = .crLf → d.quote ≠ 13
  /-- the escape byte outside quotes or inside them -/
  escape : ∀ b, d.escape = .backslash b ∨ d.escape.unquotedByte = some b →
    b ≠ d.delimiter ∧ b ≠ d.quote ∧ b ≠ d.recordEnding.byte
  comment : ∀ c, d.comment = some c → c ≠ d.delimiter ∧ c ≠ d.quote ∧ c ≠ d.recordEnding.byte ∧
    d.escape.unquotedByte ≠ some c ∧ (d.recordEnding = .crLf → c ≠ 13)
  usable : d.delimiterTail.unusable = false ∧ d.endingTail.unusable = false
  ending_tail : d.recordEnding = .newline ∨ d.recordEnding = .crLf → d.endingTail.asSlice = []
  tails : ∀ b ∈ d.delimiterTail.asSlice ++ d.endingTail.asSlice, b ≠ d.quote ∧ b ≠ d.escapeByte

theorem Tail.isEmpty_iff (t : Tail) : t.isEmpty = true ↔ t.unusable = false ∧ t.bytes = [] := by
  simp [Tail.isEmpty]

theorem Dialect.multibyteInvalidity_none {d : Dialect} (h : d.multibyteInvalidity = none) :
    (d.delimiterTail.unusable = false ∧ d.endingTail.unusable = false) ∧
    (d.recordEnding = .newline ∨ d.recordEnding = .crLf → d.endingTail.asSlice = []) ∧
    ∀ b ∈ d.delimiterTail.asSlice ++ d.endingTail.asSlice, b ≠ d.quote ∧ b ≠ d.escapeByte := by
  unfold multibyteInvalidity multibyte at h
  split at h
  · rename_i hm
    simp only [Bool.not_or, Bool.not_not, Bool.and_eq_true, Tail.isEmpty_iff] at hm
    refine ⟨⟨hm.1.1, hm.2.1⟩, fun _ => by simp [Tail.asSlice, hm.2.1, hm.2.2], fun b hb => ?_⟩
    simp [Tail.asSlice, hm.1.1, hm.1.2, hm.2.1, hm.2.2] at hb
  split at h
  · cases h
  rename_i hu
  simp only [Bool.or_eq_true, not_or, Bool.not_eq_true] at hu
  split at h
  · cases h
  rename_i he
  split at h
  · cases h
  rename_i ht
  refine ⟨hu, fun hr => ?_, fun b hb => ?_⟩
  · by_contra hne
    refine he ?_
    rw [Bool.and_eq_true, Bool.not_eq_true']
    refine ⟨?_, by rcases hr with hr | hr <;> simp [hr]⟩
    rw [Bool.eq_false_iff]
    intro hemp
    rw [Tail.isEmpty_iff] at hemp
    exact hne (by simp [Tail.asSlice, hemp.1, hemp.2])
  · rw [Bool.not_eq_true, List.any_eq_false] at ht
    have := ht b hb
    simpa using this

/-- A dialect that construction accepts has none of the clashes. -/
theorem Dialect.sound_of_valid {d : Dialect} (hd : d.invalidity = none) : d.Sound := by
  unfold invalidity at hd
  simp only at hd
  split at hd
  · cases hd
  rename_i h1
  split at hd
  · cases hd
  rename_i h2
  simp only [beq_iff_eq, Bool.or_eq_true, Bool.and_eq_true, not_or, not_and] at h1 h2
  obtain ⟨⟨h2, h3⟩, h4⟩ := h2
  split at hd
  · cases hd
  rename_i hesc
  have hescape : ∀ b, d.escape = .backslash b ∨ d.escape.unquotedByte = some b →
      b ≠ d.delimiter ∧ b ≠ d.quote ∧ b ≠ d.recordEnding.byte := by
    intro b hb
    rcases he : d.escape with _ | b' | _ | b' <;> rw [he] at hb hesc <;>
      simp only [Escape.unquotedByte, reduceCtorEq, or_false, false_or, Option.some.injEq,
        Escape.backslash.injEq] at hb <;>
      subst hb <;>
      simp only [ite_eq_right_iff, reduceCtorEq, imp_false, Bool.or_eq_true, beq_iff_eq,
        not_or] at hesc <;>
      exact ⟨hesc.1.1, hesc.1.2, hesc.2⟩
  rcases hc : d.comment with _ | c
  · rw [hc] at hd
    obtain ⟨hu, he, ht⟩ := d.multibyteInvalidity_none hd
    exact ⟨h1, h2, h3, fun hr => (h4 hr).1, fun hr => (h4 hr).2, hescape, (by simp [hc]), hu, he, ht⟩
  · rw [hc] at hd
    simp only at hd
    split at hd
    · cases hd
    rename_i hcom
    simp only [beq_iff_eq, Bool.or_eq_true, Bool.and_eq_true, not_or, not_and] at hcom
    obtain ⟨hu, he, ht⟩ := d.multibyteInvalidity_none hd
    refine ⟨h1, h2, h3, fun hr => (h4 hr).1, fun hr => (h4 hr).2, hescape, ?_, hu, he, ht⟩
    intro c' hc'
    rw [hc, Option.some.injEq] at hc'
    subst hc'
    exact ⟨hcom.1.1.1.1, hcom.1.1.1.2, hcom.1.1.2, hcom.1.2, hcom.2⟩

theorem FormatSettings.Valid.sound {o : FormatSettings} (h : o.Valid) : o.dialect.Sound := by
  unfold Valid invalidity at h
  rcases hd : o.dialect.invalidity with _ | reason
  · exact Dialect.sound_of_valid hd
  · rw [hd] at h; cases h

/-! ## Unquoted text -/

/-- The scan of an unquoted field looks for quotes. -/
def Syntax.seeksQuotes (s : Syntax) : Bool := s.quotingEnabled && !s.permitsUnquotedQuotes

/-- `b`, before `after`, ends an unquoted field or is refused in it. -/
def stopsAt (o : FormatSettings) (b : UInt8) (after : Bytes) : Prop :=
  (b = o.dialect.delimiter ∧ o.dialect.delimiterTail.confirms after) ∨
  (b = o.dialect.recordEnding.byte ∧
    (o.dialect.recordEnding = .crLf ∨ o.dialect.endingTail.confirms after)) ∨
  (o.dialect.recordEnding = .crLf ∧ b = 13) ∨
  (b = o.dialect.quote ∧ o.syntax'.seeksQuotes)

instance (o : FormatSettings) (b : UInt8) (after : Bytes) : Decidable (stopsAt o b after) := by
  unfold stopsAt; infer_instance

/-- The scan of an unquoted field passes over a text that is followed by
    `after`. -/
inductive Passes (o : FormatSettings) (after : Bytes) : Bytes → Prop where
  | nil : Passes o after []
  | plain {b : UInt8} {raw : Bytes} (hesc : o.dialect.escape.unquotedByte ≠ some b)
      (hstop : ¬ stopsAt o b (raw ++ after)) (hraw : Passes o after raw) : Passes o after (b :: raw)
  | escaped {escape b : UInt8} {raw : Bytes}
      (hesc : o.dialect.escape.unquotedByte = some escape) (hraw : Passes o after raw) :
      Passes o after (escape :: b :: raw)

/-- The value of an unquoted field. -/
def unquotedField (o : FormatSettings) (raw : Bytes) : Field :=
  if rawFieldIsNull o.nulls raw then ⟨[], true⟩
  else
    match o.dialect.escape.unquotedByte with
    | some escape =>
      ⟨Engine.unescapeLoop (o.dialect.escape == .mysql) escape (raw.length + 1) raw, false⟩
    | none => ⟨raw, false⟩

/-! ## Fields and records -/

/-- What stands behind a field: the record ending or a delimiter. -/
def Dialect.sepText (d : Dialect) (last : Bool) : Bytes :=
  if last then d.endingText else d.delimiterText

/-- A text that is followed by `after` spells a field. -/
inductive FieldSpells (o : FormatSettings) (after : Bytes) : Bytes → Field → Prop where
  | unquoted {raw : Bytes} (hraw : Passes o after raw)
      (hquote : o.syntax'.quotingEnabled = true → raw.head? ≠ some o.dialect.quote) :
      FieldSpells o after raw (unquotedField o raw)
  | quoted {text content : Bytes} (hen : o.syntax'.quotingEnabled = true)
      (htext : quotedText o.dialect content = .ok text) :
      FieldSpells o after text ⟨content, false⟩

/-- The byte is whitespace that may be skipped behind a closing quote. -/
def isTrailingSpace (b : UInt8) : Bool := b == 32 || b == 9

/-- The separator behind a quoted field survives the whitespace that is skipped
    there. -/
def SepVisible (o : FormatSettings) (text sep : Bytes) : Prop :=
  o.syntax'.permitsTrailingWhitespace = true → text.head? = some o.dialect.quote →
    o.syntax'.quotingEnabled = true → ∀ b, sep.head? = some b → isTrailingSpace b = false

/-- The ending behind a field survives: it is visible, or it is blank and the
    document ends with it. -/
def EndVisible (o : FormatSettings) (text rest : Bytes) : Prop :=
  SepVisible o text o.dialect.endingText ∨
    (rest = [] ∧ o.dialect.endingText.all isTrailingSpace = true)

/-- No carriage return is taken into the record ending. -/
def CrFree (o : FormatSettings) (text : Bytes) : Prop :=
  o.dialect.recordEnding = .newline →
    (o.syntax'.quotingEnabled = true → text.head? ≠ some o.dialect.quote) →
    text.getLast? ≠ some 13

/-- A text that is followed by `rest` spells the fields of a record, its ending
    included. -/
inductive FieldsSpell (o : FormatSettings) (rest : Bytes) : Bytes → List Field → Prop where
  | last {text : Bytes} {f : Field} (hf : FieldSpells o (o.dialect.endingText ++ rest) text f)
      (hcr : CrFree o text) (hend : EndVisible o text rest) :
      FieldsSpell o rest (text ++ o.dialect.endingText) [f]
  | more {text tail : Bytes} {f : Field} {fs : List Field}
      (hf : FieldSpells o (o.dialect.delimiterText ++ (tail ++ rest)) text f)
      (hsep : SepVisible o text o.dialect.delimiterText) (hfs : FieldsSpell o rest tail fs) :
      FieldsSpell o rest (text ++ o.dialect.delimiterText ++ tail) (f :: fs)

theorem FieldsSpell.length_pos {o : FormatSettings} {rest text : Bytes} {fs : List Field}
    (h : FieldsSpell o rest text fs) : 0 < text.length := by
  cases h <;> simp [Dialect.endingText, Dialect.delimiterText]

/-- The text is not skipped as a comment or a blank line. -/
def Kept (cfg : ParserSettings) (text : Bytes) : Prop :=
  (∀ comment, cfg.dialect.comment = some comment → text.head? ≠ some comment) ∧
    (cfg.blankRecords = .skip → Engine.recordEndingWidthAt cfg text 0 = none)

/-! ## What spans stand for -/

/-- A field as the parser stores it. -/
structure Entry where
  bytes : Bytes
  quoted : Bool
  source : Source
  null : Bool
  deriving DecidableEq, Repr

/-- `mark_input_nulls` of a stored field. -/
def Entry.mark (nulls : Nulls) (x : Entry) : Entry :=
  if !x.quoted && x.source == .input && rawFieldIsNull nulls x.bytes then
    ⟨[], false, .input, true⟩
  else x

def Entry.field (x : Entry) : Field := ⟨x.bytes, x.null⟩

theorem Entry.mark_none (x : Entry) : x.mark .none = x := by
  simp [Entry.mark, rawFieldIsNull]

theorem Entry.mark_mark (nulls : Nulls) (x : Entry) : (x.mark nulls).mark nulls = x.mark nulls := by
  by_cases h : (!x.quoted && x.source == .input && rawFieldIsNull nulls x.bytes) = true
  · have hx : x.mark nulls = ⟨[], false, .input, true⟩ := by rw [Entry.mark, if_pos h]
    rw [hx]
    cases nulls <;> simp [Entry.mark, rawFieldIsNull]
  · have hx : x.mark nulls = x := by rw [Entry.mark, if_neg h]
    rw [hx, hx]

namespace SpanStorage

variable {input : Bytes} {s : SpanStorage}

/-- The fields the spans stand for. -/
def entries (s : SpanStorage) (input : Bytes) : List Entry :=
  s.spans.map fun span => ⟨span.bytes input s.scratch, span.quoted, span.source, span.null⟩

/-- The spans of the scratch buffer lie within it. -/
def Within (s : SpanStorage) : Prop :=
  ∀ span ∈ s.spans, span.source = .scratch → span.stop ≤ s.scratch.length

theorem within_empty : empty.Within := by
  intro span h; cases h

@[simp] theorem entries_empty : empty.entries input = [] := rfl

theorem resolved_eq (s : SpanStorage) (input : Bytes) :
    s.resolved input = (s.entries input).map Entry.field := by
  simp [resolved, entries, Entry.field, Function.comp_def]

theorem entries_length (s : SpanStorage) (input : Bytes) : (s.entries input).length = s.len := by
  simp [entries, len]

/-- A span of the input is pushed. -/
theorem entries_push_input (s : SpanStorage) (input : Bytes) (start stop : ℕ)
    (quoted null : Bool) :
    (s.push ⟨.input, start, stop, quoted, null⟩).entries input =
      s.entries input ++ [⟨slice input start stop, quoted, .input, null⟩] := by
  simp [entries, push, Span.bytes, Span.buffer]

theorem Within.push_input (h : s.Within) (start stop : ℕ) (quoted null : Bool) :
    (s.push ⟨.input, start, stop, quoted, null⟩).Within := by
  intro span hs hsrc
  rcases List.mem_append.mp hs with hs | hs
  · exact h span hs hsrc
  · rw [List.mem_singleton.mp hs] at hsrc; cases hsrc

/-- The spans keep what they stand for when the scratch buffer grows. -/
theorem entries_scratch (h : s.Within) (text : Bytes) :
    entries (s.extendScratch text) input = s.entries input := by
  refine List.map_congr_left fun span hs => ?_
  congr 1
  rcases hsrc : span.source with _ | _
  · simp [Span.bytes, Span.buffer, hsrc]
  · simp only [Span.bytes, Span.buffer, hsrc, slice, extendScratch]
    rw [List.take_append_of_le_length (h span hs hsrc)]

theorem Within.extendScratch (h : s.Within) (text : Bytes) : (s.extendScratch text).Within := by
  intro span hs hsrc
  have := h span hs hsrc
  simp [SpanStorage.extendScratch]; omega

/-- A span of what was appended to the scratch buffer is pushed. -/
theorem entries_push_scratch (h : s.Within) (input text : Bytes) (quoted : Bool) :
    ((s.extendScratch text).push
        ⟨.scratch, s.scratch.length, s.scratch.length + text.length, quoted, false⟩).entries input =
      s.entries input ++ [⟨text, quoted, .scratch, false⟩] := by
  have hold : entries (s.extendScratch text) input = s.entries input := entries_scratch h text
  simp only [entries, push, SpanStorage.extendScratch, List.map_append, List.map_cons,
    List.map_nil] at hold ⊢
  rw [hold]
  simp [Span.bytes, Span.buffer, slice, List.take_of_length_le]

theorem Within.push_scratch (h : s.Within) (text : Bytes) (quoted : Bool) :
    ((s.extendScratch text).push
      ⟨.scratch, s.scratch.length, s.scratch.length + text.length, quoted, false⟩).Within := by
  intro span hs hsrc
  rcases List.mem_append.mp hs with hs | hs
  · exact h.extendScratch text span hs hsrc
  · rw [List.mem_singleton.mp hs]; simp [push, SpanStorage.extendScratch]

@[simp] theorem len_extendScratch (s : SpanStorage) (text : Bytes) :
    (s.extendScratch text).len = s.len := rfl

@[simp] theorem len_push (s : SpanStorage) (span : Span) : (s.push span).len = s.len + 1 := by
  simp [len, push]

/-- The null pass is a pass over the stored fields. -/
theorem entries_mark (s : SpanStorage) (input : Bytes) (nulls : Nulls) :
    (s.markInputNulls input (rawFieldIsNull nulls)).entries input =
      (s.entries input).map (Entry.mark nulls) := by
  simp only [entries, markInputNulls, List.map_map]
  refine List.map_congr_left fun span _ => ?_
  simp only [Function.comp_apply, markInputNull, Entry.mark]
  by_cases hsrc : span.source = .input
  · have hb : span.bytes input s.scratch = slice input span.start span.stop := by
      simp [Span.bytes, Span.buffer, hsrc]
    rw [hb]
    split_ifs
    · simp [Span.bytes, Span.buffer, slice]
    · rw [hb]
  · rw [if_neg (by simp [hsrc]), if_neg (by simp [hsrc])]

theorem Within.mark (h : s.Within) (isNull : Bytes → Bool) :
    (s.markInputNulls input isNull).Within := by
  intro span hs hsrc
  simp only [markInputNulls, List.mem_map] at hs
  obtain ⟨old, hold, rfl⟩ := hs
  unfold markInputNull at hsrc ⊢
  split
  · rename_i hc; simp [hc] at hsrc
  · rename_i hc; simp only [hc] at hsrc; exact h old hold hsrc

/-- `s'` holds the fields of `s` and one more, which reads as `f`. -/
def Pushes (nulls : Nulls) (input : Bytes) (s s' : SpanStorage) (f : Field) : Prop :=
  s'.Within ∧ ∃ x, s'.entries input = s.entries input ++ [x] ∧ (x.mark nulls).field = f

theorem Pushes.len {nulls : Nulls} {s s' : SpanStorage} {f : Field}
    (h : Pushes nulls input s s' f) : s'.len = s.len + 1 := by
  obtain ⟨-, x, hx, -⟩ := h
  have := congrArg List.length hx
  rwa [List.length_append, entries_length, entries_length] at this

end SpanStorage

/-! ## The engine after reading -/

namespace Engine

/-- The engine once its cursor, its fields and its mark of a terminator have
    moved on. -/
def parsed (e : Engine) (location : ℕ) (spans : SpanStorage) (terminated : Bool) : Engine :=
  { e with location, spans, terminated }

variable (e : Engine) (location : ℕ) (spans : SpanStorage) (terminated : Bool)

@[simp] theorem parsed_location : (e.parsed location spans terminated).location = location := rfl

@[simp] theorem parsed_spans : (e.parsed location spans terminated).spans = spans := rfl

@[simp] theorem parsed_terminated :
    (e.parsed location spans terminated).terminated = terminated := rfl

@[simp] theorem parsed_parsed (location' : ℕ) (spans' : SpanStorage) (terminated' : Bool) :
    (e.parsed location spans terminated).parsed location' spans' terminated' =
      e.parsed location' spans' terminated' := rfl

theorem parsed_self : e.parsed e.location e.spans e.terminated = e := rfl

@[simp] theorem setLocation_apply :
    setLocation location e = .ok () (e.parsed location e.spans e.terminated) := rfl

@[simp] theorem setTerminated_apply :
    setTerminated terminated e = .ok () (e.parsed e.location e.spans terminated) := rfl

@[simp] theorem noteTerminatedIf_apply : noteTerminatedIf terminated e =
    .ok () (e.parsed e.location e.spans (terminated || e.terminated)) := by
  cases terminated <;> rfl

@[simp] theorem extendScratch_apply (text : Bytes) :
    extendScratch text e = .ok () (e.parsed e.location (e.spans.extendScratch text) e.terminated) :=
  rfl

end Engine

end Coseva
