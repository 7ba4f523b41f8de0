/-
  Coseva — the parsing engine's state, its limits and its errors
  (`coseva/src/engine.rs`, `engine/limits.rs`, `coseva_unsafe/src/span.rs`).

  * `ParserSettings`: what an engine is built from.  Parsers are generic over a
    format type `F`; `fmt` is the format such a parser reads its settings from;
  * `SpanStorage`: the fields of the current record, as spans of the input or of
    the scratch buffer that unescaped fields are decoded into;
  * `Engine`: the mutable state, and `Parse`, the computations on it.  What a
    failed computation has already changed stays changed, as in the source.

  Offsets are natural numbers: every offset of the source is at most the length
  of a slice, and its saturating additions are capped by that length.
-/
import Coseva.Emit

namespace Coseva

/-! ## Errors -/

/-- The errors of `ErrorKind` that parsing a record reports. -/
inductive ErrorKind where
  | parserFailed
  | locationOverflow
  | rejectedBom
  | unexpectedQuote
  | invalidRecordEnding (byte : UInt8)
  | invalidEscape (byte : UInt8)
  | unterminatedQuotedField
  | unexpectedByteAfterQuote (byte : UInt8)
  | fieldTooLarge (limit : ℕ)
  | recordTooLarge (limit : ℕ)
  | tooManyFields (limit : ℕ)
  | fieldCountMismatch (expected actual : ℕ)
  deriving DecidableEq, Repr

/-- `Location`. -/
structure Location where
  byte : ℕ
  line : ℕ
  record : ℕ
  field : ℕ
  deriving DecidableEq, Repr

/-- How a parse fails: with a located error, by a panic, or because a loop of
    the model runs out of fuel. -/
inductive Fault where
  | error (kind : ErrorKind) (location : Location)
  | panic
  | stuck
  deriving DecidableEq, Repr

/-! ## Settings -/

/-- The 64-bit machine: whether it is an x86-64, and the vector instructions
    that run-time detection finds. -/
structure Host where
  x86_64 : Bool
  avx2 : Bool
  bmi2 : Bool
  deriving DecidableEq, Repr

/-- `Headers`: where the header record comes from. -/
inductive Headers where
  | none
  | firstRecord
  | provided (record : List Bytes)
  deriving DecidableEq, Repr

/-- `ParserSettings`, with the machine the parser runs on. -/
structure ParserSettings extends FormatOptions where
  limits : Limits
  fieldCount : FieldCount
  headers : Headers
  host : Host

namespace ParserSettings

variable (F : CsvFormat) (cfg : ParserSettings)

/-- The settings a parser of format `F` reads: those of a static format, or the
    ones it was built with. -/
def fmt : FormatSettings :=
  match F with
  | some o => o.toFormatSettings
  | none => cfg.toFormatSettings

/-- `agrees`: the static format has the settings that parsing reads. -/
def agrees (o : FormatSettings) : Bool :=
  o.dialect == cfg.dialect && o.syntax' == cfg.syntax' && o.nulls == cfg.nulls
    && o.trim == cfg.trim && o.blankRecords == cfg.blankRecords
    && o.skipInitialSpace == cfg.skipInitialSpace

/-- `FormatKind`. -/
inductive FormatKind where
  | csv
  | tsv
  | other
  deriving DecidableEq, Repr

/-- `FormatKind::by_comparison`. -/
def byComparison : FormatKind :=
  if cfg.agrees { dialect := .csv } then .csv
  else if cfg.agrees { dialect := .tsv } then .tsv
  else .other

/-- `FormatKind::of`. -/
def formatKind : FormatKind :=
  match cfg.tag with
  | .csv => .csv
  | .tsv => .tsv
  | .custom => cfg.byComparison
  | _ => .other

/-- `needs_general_parsing`. -/
def needsGeneralParsing (d : Dialect) (trim : Whitespace) : Bool :=
  d.recordEnding == .crLf || d.escape.escapesUnquoted || d.multibyte || trim.exemptsQuoted

/-- `needs_record_pass`. -/
def needsRecordPass (d : Dialect) (nulls : Nulls) : Bool :=
  !(nulls == .none) || d.recordEnding == .crLf

/-- `fmt_plain_kernel`: a static format does not ask for single-byte
    separators. -/
def fmtPlainKernel : Bool :=
  match F with
  | some o => !o.skipInitialSpace
  | none => !cfg.skipInitialSpace && !cfg.dialect.multibyte

/-- `fmt_general_parsing`. -/
def fmtGeneralParsing : Bool := needsGeneralParsing (cfg.fmt F).dialect (cfg.fmt F).trim

/-- `is_csv_format`. -/
def isCsvFormat : Bool :=
  match F with
  | some o => o.tag == .csv
  | none => cfg.formatKind == .csv

/-- `skips_records`. -/
def skipsRecords : Bool := cfg.dialect.comment.isSome || cfg.blankRecords == .skip

end ParserSettings

/-- `fmt_strips_cr`: whether a `\r` before the terminator belongs to it. -/
def RecordEnding.stripsCr : RecordEnding → Bool
  | .newline | .crLf => true
  | .ofByte _ => false

/-- `raw_field_is_null`. -/
def rawFieldIsNull (nulls : Nulls) (raw : Bytes) : Bool :=
  match nulls with
  | .none => false
  | .postgresCsv => raw.isEmpty
  | .mysql => raw == [92, 78]

/-- `mysql_unescape_byte`. -/
def mysqlUnescapeByte (byte : UInt8) : UInt8 :=
  if byte == 48 then 0
  else if byte == 98 then 8
  else if byte == 110 then 10
  else if byte == 114 then 13
  else if byte == 116 then 9
  else if byte == 90 then 26
  else byte

/-! ## Spans -/

/-- `input[i]`, at an index that a search has returned. -/
def byteAt (input : Bytes) (i : ℕ) : UInt8 := input.getD i 0

/-- `input[start..stop]`. -/
def slice (bytes : Bytes) (start stop : ℕ) : Bytes := (bytes.take stop).drop start

/-- `Source`: the buffer a span points into. -/
inductive Source where
  | input
  | scratch
  deriving DecidableEq, Repr

/-- `Span`: one field of a record. -/
structure Span where
  source : Source
  start : ℕ
  stop : ℕ
  quoted : Bool
  null : Bool
  deriving DecidableEq, Repr

namespace Span

/-- `Span::MAX_OFFSET` of a 64-bit target. -/
def maxOffset : ℕ := 2 ^ 62 - 1

/-- The buffer the span points into. -/
def buffer (s : Span) (input scratch : Bytes) : Bytes :=
  match s.source with
  | .input => input
  | .scratch => scratch

/-- `resolve_span`. -/
def bytes (s : Span) (input scratch : Bytes) : Bytes := slice (s.buffer input scratch) s.start s.stop

/-- `u8::is_ascii_whitespace`. -/
def isAsciiWhitespace (b : UInt8) : Bool := [9, 10, 12, 13, 32].contains b

/-- `Span::trim_ascii`. -/
def trimAscii (s : Span) (input scratch : Bytes) : Span :=
  if s.null then s
  else
    let text := s.bytes input scratch
    let start := s.start + (text.takeWhile isAsciiWhitespace).length
    let rest := text.dropWhile isAsciiWhitespace
    { s with start, stop := s.stop - (rest.reverse.takeWhile isAsciiWhitespace).length }

end Span

/-- `SpanStorage`. -/
structure SpanStorage where
  spans : List Span
  scratch : Bytes
  deriving DecidableEq, Repr

/-- A field of a record as a reader sees it. -/
structure Field where
  bytes : Bytes
  null : Bool
  deriving DecidableEq, Repr

namespace SpanStorage

def empty : SpanStorage := ⟨[], []⟩

def len (s : SpanStorage) : ℕ := s.spans.length

/-- One more span. -/
def push (s : SpanStorage) (span : Span) : SpanStorage := { s with spans := s.spans ++ [span] }

/-- `SpanStorage::try_push_*_bounded`: the field, unless it breaches a limit.
    The callers' ranges are ordered and in bounds. -/
def tryPushBounded (s : SpanStorage) (span : Span) (maxFields maxFieldBytes : ℕ) :
    Option SpanStorage :=
  if s.len ≥ maxFields || span.stop - span.start > maxFieldBytes then none
  else some (s.push span)

/-- `SpanStorage::push_null`. -/
def pushNull (s : SpanStorage) (offset : ℕ) : SpanStorage :=
  s.push ⟨.input, offset, offset, false, true⟩

/-- `SpanStorage::clear_spans`. -/
def clearSpans (s : SpanStorage) : SpanStorage := { s with spans := [] }

/-- `SpanStorage::mark_input_nulls` of one span. -/
def markInputNull (input : Bytes) (isNull : Bytes → Bool) (span : Span) : Span :=
  if !span.quoted && span.source == .input && isNull (slice input span.start span.stop) then
    ⟨.input, span.start, span.start, false, true⟩
  else span

/-- `SpanStorage::mark_input_nulls`. -/
def markInputNulls (s : SpanStorage) (input : Bytes) (isNull : Bytes → Bool) : SpanStorage :=
  { s with spans := s.spans.map (markInputNull input isNull) }

/-- `SpanStorage::trim_ascii_where`. -/
def trimAsciiWhere (s : SpanStorage) (input : Bytes) (shouldTrim : Bool → Bool) : SpanStorage :=
  { s with spans := s.spans.map fun span =>
      if shouldTrim span.quoted then span.trimAscii input s.scratch else span }

def extendScratch (s : SpanStorage) (bytes : Bytes) : SpanStorage :=
  { s with scratch := s.scratch ++ bytes }

/-- `SpanStorage::resolved`: the fields the spans stand for. -/
def resolved (s : SpanStorage) (input : Bytes) : List Field :=
  s.spans.map fun span => ⟨span.bytes input s.scratch, span.null⟩

end SpanStorage

/-! ## Engine state -/

/-- `ResumeState`: how far the boundary of an incomplete record was searched.
    `recordStart` is `none` for `NO_OFFSET`. -/
structure ResumeState where
  recordStart : Option ℕ
  scannedTo : ℕ
  fieldStart : ℕ
  inQuotes : Bool
  /-- the checkpoint is inside a comment -/
  ignored : Bool
  deriving DecidableEq, Repr

namespace ResumeState

/-- `ResumeState::new`. -/
def new : ResumeState := ⟨none, 0, 0, false, false⟩

/-- `ResumeState::fresh`. -/
def fresh (recordStart : ℕ) : ResumeState := ⟨some recordStart, recordStart, recordStart, false, false⟩

/-- `ResumeState::ignored`. -/
def ofIgnored (recordStart scannedTo : ℕ) : ResumeState :=
  ⟨some recordStart, scannedTo, recordStart, false, true⟩

end ResumeState

/-- `SliceOwnedParser`: the whole-record parser a configuration allows. -/
inductive OwnedParser where
  | default (checkFieldLimit : Bool)
  | defaultWindowed
  | named (delimiter : UInt8) (backslash checkFieldLimit : Bool)
  deriving DecidableEq, Repr

/-- `SliceQuotedPrefixParser` and `SliceInteriorPrefixParser`. -/
inductive PrefixParser where
  | quoted (checkFieldLimit : Bool)
  | interior (checkFieldLimit : Bool)
  | interiorWindowed
  | structural (checkFieldLimit : Bool)
  | structuralWindowed
  deriving DecidableEq, Repr

/-- The mutable state of `Engine`.  `none` stands for `NO_OFFSET`. -/
structure Engine where
  location : ℕ
  lineBase : ℕ
  lineOrigin : ℕ
  foldedUpto : ℕ
  foldedLines : ℕ
  recordIndex : ℕ
  expectedFields : Option ℕ
  headersInitialized : Bool
  spans : SpanStorage
  ownedParser : Option OwnedParser
  quotedPrefixParser : Option PrefixParser
  interiorPrefixParser : Option PrefixParser
  interiorHandoffParser : Option PrefixParser
  multiQuoteParser : Option PrefixParser
  /-- how many more records are predicted to have an interior quote -/
  interiorQuotes : ℕ
  asciiStructuralBackoff : ℕ
  asciiStructuralSucceeded : Bool
  cursorStart : Option ℕ
  cursorIndex : ℕ
  cursorEnd : Option ℕ
  resume : ResumeState
  failed : Bool
  terminated : Bool
  deriving DecidableEq, Repr

/-- A computation on the engine. -/
abbrev Parse := EStateM Fault Engine

/-- `physical_line`. -/
def physicalLine (input : Bytes) (lineBase lineOrigin byte : ℕ) : ℕ :=
  let stop := min byte input.length
  lineBase + (slice input (min lineOrigin stop) stop).count 10

namespace Engine

variable (cfg : ParserSettings) (input : Bytes)

/-! ## Limits -/

/-- `error_for`. -/
def errorFor {α : Type} (kind : ErrorKind) (byte field : ℕ) : Parse α := fun e =>
  .error (.error kind ⟨byte, physicalLine input e.lineBase e.lineOrigin byte, e.recordIndex, field⟩) e

/-- `error`: an error in the field being parsed. -/
def error {α : Type} (kind : ErrorKind) (byte : ℕ) : Parse α := fun e =>
  errorFor input kind byte e.spans.len e

/-- A panic of the source. -/
def panic {α : Type} : Parse α := throw .panic

/-- `validate_field_count`. -/
def validateFieldCount (actual : ℕ) : Parse Unit := do
  let e ← get
  match cfg.fieldCount, e.expectedFields with
  | .flexible, _ => pure ()
  | .exact expected, _ | .matchFirst, some expected =>
    if actual = expected then pure ()
    else error input (.fieldCountMismatch expected actual) e.location
  | .matchFirst, none => set { e with expectedFields := some actual }

/-- `scan_end`. -/
def scanEnd (recordStart fieldStart : ℕ) : ℕ :=
  min input.length
    (min (recordStart + (cfg.limits.maxRecordBytes + 1)) (fieldStart + (cfg.limits.maxFieldBytes + 1)))

/-- `check_record_limit_for`. -/
def checkRecordLimitFor (recordStart byte field : ℕ) : Parse Unit :=
  if byte - recordStart > cfg.limits.maxRecordBytes then
    errorFor input (.recordTooLarge cfg.limits.maxRecordBytes) byte field
  else pure ()

/-- `check_record_limit`. -/
def checkRecordLimit (recordStart byte : ℕ) : Parse Unit := fun e =>
  checkRecordLimitFor cfg input recordStart byte e.spans.len e

/-- `check_scan_end_for`. -/
def checkScanEndFor (byte recordStart fieldStart field : ℕ) : Parse Unit :=
  if byte - fieldStart > cfg.limits.maxFieldBytes then
    errorFor input (.fieldTooLarge cfg.limits.maxFieldBytes) byte field
  else checkRecordLimitFor cfg input recordStart byte field

/-- `check_scan_end`. -/
def checkScanEnd (byte recordStart fieldStart : ℕ) : Parse Unit := fun e =>
  checkScanEndFor cfg input byte recordStart fieldStart e.spans.len e

/-- `check_scratch_limit`. -/
def checkScratchLimit (scratchStart byte : ℕ) : Parse Unit := fun e =>
  if e.spans.scratch.length - scratchStart > cfg.limits.maxFieldBytes then
    error input (.fieldTooLarge cfg.limits.maxFieldBytes) byte e
  else .ok () e

/-- The loop of `skip_delimiter_spaces_for`. -/
def skipSpaces (recordStart field : ℕ) : (fuel : ℕ) → Parse Unit
  | 0 => throw .stuck
  | fuel + 1 => do
    let e ← get
    if input[e.location]? = some 32 then do
      set { e with location := e.location + 1 }
      checkRecordLimitFor cfg input recordStart (e.location + 1) field
      skipSpaces recordStart field fuel
    else pure ()

/-- `skip_delimiter_spaces`. -/
def skipDelimiterSpaces (F : CsvFormat) (recordStart : ℕ) : Parse Unit := do
  let e ← get
  if !(cfg.fmt F).skipInitialSpace || e.location == recordStart then pure ()
  else skipSpaces cfg input recordStart e.spans.len (input.length + 1)

/-! ## Marks of the window and of the line count -/

/-- `note_terminated` and `clear_terminated`. -/
def setTerminated (terminated : Bool) : Parse Unit := modify fun e => { e with terminated }

/-- `note_terminated`, when a terminator was consumed. -/
def noteTerminatedIf (terminated : Bool) : Parse Unit :=
  if terminated then setTerminated true else pure ()

/-- `fold_plain_record_terminator`: count the line of a record that begins where
    the last fold ended. -/
def foldPlainRecordTerminator (recordStart : ℕ) (terminated : Bool) (terminator : UInt8) :
    Parse Unit :=
  modify fun e =>
    if e.foldedUpto ≠ recordStart || terminator ≠ 10 then e
    else { e with
      foldedLines := e.foldedLines + terminated.toNat
      foldedUpto := e.location }

/-- `fold_plain_record`. -/
def foldPlainRecord (F : CsvFormat) (recordStart : ℕ) (terminated : Bool) : Parse Unit :=
  foldPlainRecordTerminator recordStart terminated (cfg.fmt F).dialect.recordEnding.byte

/-- Move the cursor. -/
def setLocation (location : ℕ) : Parse Unit := modify fun e => { e with location }

/-! ## Pushing fields -/

/-- `push_span`. -/
def pushSpan (source : Source) (start stop byte : ℕ) (quoted : Bool) : Parse Unit := fun e =>
  match e.spans.tryPushBounded ⟨source, start, stop, quoted, false⟩ cfg.limits.maxFields
      cfg.limits.maxFieldBytes with
  | some spans => .ok () { e with spans }
  | none =>
    -- `span_limit_error`
    error input (if e.spans.len ≥ cfg.limits.maxFields then .tooManyFields cfg.limits.maxFields
      else .fieldTooLarge cfg.limits.maxFieldBytes) byte e

/-- `push_null_span`. -/
def pushNullSpan (byte : ℕ) : Parse Unit := fun e =>
  if e.spans.len = cfg.limits.maxFields then
    error input (.tooManyFields cfg.limits.maxFields) byte e
  else .ok () { e with spans := e.spans.pushNull byte }

/-- Append to the scratch buffer. -/
def extendScratch (bytes : Bytes) : Parse Unit :=
  modify fun e => { e with spans := e.spans.extendScratch bytes }

/-- Drop the spans of a record that is declined. -/
def clearSpans : Parse Unit := modify fun e => { e with spans := e.spans.clearSpans }

end Engine

end Coseva
