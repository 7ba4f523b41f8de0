/-
  Coseva — the borrowed parse path, which spans fields in the input
  (`coseva/src/engine/borrowed_parser.rs`), with the record kernels of the
  default dialect it tries first (`coseva_unsafe/src/record.rs`).

  * `tryParseBorrowedPlain`: the plain kernel, which takes a record without
    quotes or declines it;
  * `parseUnquotedField`, `generalUnquotedLoop`, `parseQuotedField`: the
    field-by-field parser;
  * `parseRecord`: one record.
-/
import Coseva.Engine

namespace Coseva

namespace Engine

variable (cfg : ParserSettings) (F : CsvFormat) (input : Bytes)

/-! ## Unquoted fields -/

/-- `parse_unquoted_field_runtime`. -/
def parseUnquotedFieldRuntime (recordStart : ℕ) : Parse Bool := do
  let e ← get
  let o := cfg.fmt F
  let fieldStart := e.location
  let scanEnd := scanEnd cfg input recordStart fieldStart
  if fieldStart > scanEnd then panic
  else
    let remaining := slice input fieldStart scanEnd
    let special :=
      if o.syntax'.quotingEnabled && !o.syntax'.permitsUnquotedQuotes then
        find3 o.dialect.delimiter o.dialect.quote o.dialect.recordEnding.byte remaining
      else find2 o.dialect.delimiter o.dialect.recordEnding.byte remaining
    match special with
    | none => do
      checkScanEnd cfg input scanEnd recordStart fieldStart
      pushSpan cfg input .input fieldStart scanEnd scanEnd false
      setLocation scanEnd
      setTerminated false
      pure true
    | some relative =>
      let pos := fieldStart + relative
      let byte := byteAt input pos
      if byte = o.dialect.quote then error input .unexpectedQuote pos
      else
        let terminated := byte == o.dialect.recordEnding.byte
        let fieldEnd :=
          if terminated && o.dialect.recordEnding.stripsCr && fieldStart < pos
              && byteAt input (pos - 1) == 13 then pos - 1
          else pos
        do
          pushSpan cfg input .input fieldStart fieldEnd pos false
          setLocation (pos + 1)
          noteTerminatedIf terminated
          checkRecordLimit cfg input recordStart (pos + 1)
          pure terminated

/-- `earliest`. -/
def earliest : Option ℕ → Option ℕ → Option ℕ
  | some a, some b => some (if a < b then a else b)
  | some a, none => some a
  | none, some b => some b
  | none, none => none

/-- `find_stop_byte`: the next byte that could end the field. -/
def findStopByte (extended allowQuoteSearch : Bool) (extra : UInt8) (also : Option UInt8)
    (remaining : Bytes) : Option ℕ :=
  let d := cfg.dialect
  let recordEnding := d.recordEnding.byte
  let found :=
    match extended, allowQuoteSearch with
    | true, true => find4 d.delimiter d.quote recordEnding extra remaining
    | true, false => find3 d.delimiter recordEnding extra remaining
    | false, true => find3 d.delimiter d.quote recordEnding remaining
    | false, false => find2 d.delimiter recordEnding remaining
  match also with
  | some escape => earliest found (find1 escape remaining)
  | none => found

/-- The loop of `push_unescaped_span`: the field with its escapes decoded.  A
    trailing lone escape byte is literal. -/
def unescapeLoop (mysql : Bool) (escape : UInt8) : (fuel : ℕ) → (remaining : Bytes) → Bytes
  | 0, _ => []
  | fuel + 1, remaining =>
    match find1 escape remaining with
    | none => remaining
    | some i =>
      remaining.take i ++
        match remaining[i + 1]? with
        | some escaped =>
          (if mysql then mysqlUnescapeByte escaped else escaped) ::
            unescapeLoop mysql escape fuel (remaining.drop (i + 2))
        | none => [escape]

/-- `push_unescaped_span`. -/
def pushUnescapedSpan (escape : UInt8) (fieldStart fieldEnd pos : ℕ) : Parse Unit := do
  let e ← get
  let raw := slice input fieldStart fieldEnd
  let scratchStart := e.spans.scratch.length
  let text := unescapeLoop (cfg.dialect.escape == .mysql) escape (raw.length + 1) raw
  extendScratch text
  checkScratchLimit cfg input scratchStart pos
  pushSpan cfg input .scratch scratchStart (scratchStart + text.length) pos false

/-- `push_general_unquoted_span`. -/
def pushGeneralUnquotedSpan (fieldStart fieldEnd pos : ℕ) (header : Bool) : Parse Unit :=
  let raw := slice input fieldStart fieldEnd
  if !header && rawFieldIsNull cfg.nulls raw then pushNullSpan cfg input fieldStart
  else
    match cfg.dialect.escape.unquotedByte with
    | some escape =>
      if raw.contains escape then pushUnescapedSpan cfg input escape fieldStart fieldEnd pos
      else pushSpan cfg input .input fieldStart fieldEnd pos false
    | none => pushSpan cfg input .input fieldStart fieldEnd pos false

/-- `resume_after_unquoted_escape`. -/
def resumeAfterUnquotedEscape (pos : ℕ) : ℕ :=
  if input[pos + 1]?.isSome then pos + 2 else pos + 1

/-- The end of a field whose record goes on or ends at `location`. -/
def endGeneralField (recordStart fieldStart fieldEnd pos location : ℕ) (header terminated : Bool) :
    Parse Bool := do
  pushGeneralUnquotedSpan cfg input fieldStart fieldEnd pos header
  setLocation location
  noteTerminatedIf terminated
  checkRecordLimit cfg input recordStart location
  pure terminated

/-- The end of a field that the scanned window ends in. -/
def endGeneralWindow (recordStart fieldStart : ℕ) (header : Bool) : Parse Bool := do
  let scanEnd := scanEnd cfg input recordStart fieldStart
  checkScanEnd cfg input scanEnd recordStart fieldStart
  pushGeneralUnquotedSpan cfg input fieldStart scanEnd scanEnd header
  setLocation scanEnd
  setTerminated false
  pure true

/-- What a stop byte of an unquoted field means. -/
inductive UnquotedStop where
  /-- the scan goes on -/
  | resume (cursor : ℕ)
  | invalid (kind : ErrorKind)
  /-- the field ends, and the record with it when `terminated` -/
  | ends (fieldEnd location : ℕ) (terminated : Bool)
  deriving DecidableEq, Repr

/-- The stop byte at `pos`. -/
def unquotedStop (fieldStart pos : ℕ) : UnquotedStop :=
  let d := cfg.dialect
  let crlf := d.recordEnding == .crLf
  let byte := byteAt input pos
  let after := input.drop (pos + 1)
  if d.escape.unquotedByte = some byte then .resume (resumeAfterUnquotedEscape input pos)
  else if (cfg.syntax'.quotingEnabled && !cfg.syntax'.permitsUnquotedQuotes) && byte == d.quote then
    .invalid .unexpectedQuote
  else if crlf && byte == 13 then
    if after.head? = some 10 then .ends pos (pos + 2) true else .invalid (.invalidRecordEnding 13)
  else if byte = d.recordEnding.byte then
    if crlf then .invalid (.invalidRecordEnding 10)
    else if d.endingTail.confirms after then
      let fieldEnd :=
        if d.recordEnding == .newline && fieldStart < pos && byteAt input (pos - 1) == 13
        then pos - 1 else pos
      .ends fieldEnd (pos + d.endingTail.width) true
    else .resume (pos + 1)
  else if d.delimiterTail.confirms after then .ends pos (pos + d.delimiterTail.width) false
  else .resume (pos + 1)

/-- The loop of `general_unquoted_field`. -/
def generalUnquotedLoop (extended : Bool) (recordStart fieldStart : ℕ) (header : Bool) :
    (fuel cursor : ℕ) → Parse Bool
  | 0, _ => throw .stuck
  | fuel + 1, cursor =>
    let allowQuoteSearch := cfg.syntax'.quotingEnabled && !cfg.syntax'.permitsUnquotedQuotes
    let crlf := cfg.dialect.recordEnding == .crLf
    let unquotedEscape := cfg.dialect.escape.unquotedByte
    let extra := if crlf then 13 else unquotedEscape.getD 92
    let also := if crlf && unquotedEscape.isSome then some (unquotedEscape.getD 92) else none
    let scanEnd := scanEnd cfg input recordStart fieldStart
    if cursor ≥ scanEnd then endGeneralWindow cfg input recordStart fieldStart header
    else
      match findStopByte cfg extended allowQuoteSearch extra also (slice input cursor scanEnd) with
      | none => generalUnquotedLoop extended recordStart fieldStart header fuel scanEnd
      | some relative =>
        let pos := cursor + relative
        match unquotedStop cfg input fieldStart pos with
        | .resume cursor => generalUnquotedLoop extended recordStart fieldStart header fuel cursor
        | .invalid kind => error input kind pos
        | .ends fieldEnd location terminated =>
          endGeneralField cfg input recordStart fieldStart fieldEnd pos location header terminated

/-- `parse_general_unquoted_field`. -/
def parseGeneralUnquotedField (recordStart : ℕ) (header : Bool) : Parse Bool := do
  let e ← get
  let extended := cfg.dialect.recordEnding == .crLf || cfg.dialect.escape.escapesUnquoted
  generalUnquotedLoop cfg input extended recordStart e.location header (input.length + 2) e.location

/-- `parse_unquoted_field`. -/
def parseUnquotedField (recordStart : ℕ) (header : Bool) : Parse Bool :=
  if cfg.fmtGeneralParsing F then parseGeneralUnquotedField cfg input recordStart header
  else parseUnquotedFieldRuntime cfg F input recordStart

/-! ## Quoted fields -/

/-- `skip_post_quote_whitespace_runtime`. -/
def skipPostQuoteWhitespace (permits : Bool) (location : ℕ) : ℕ :=
  if permits then
    location + ((input.drop location).takeWhile fun b => b == 32 || b == 9).length
  else location

/-- End the record at `location`. -/
def endQuotedRecord (recordStart location : ℕ) (terminated : Bool) : Parse Bool := do
  setLocation location
  setTerminated terminated
  checkRecordLimit cfg input recordStart location
  pure true

/-- `finish_quoted_field_runtime`. -/
def finishQuotedField (recordStart afterQuote : ℕ) : Parse Bool :=
  let o := cfg.fmt F
  let d := o.dialect
  let afterQuote := skipPostQuoteWhitespace input o.syntax'.permitsTrailingWhitespace afterQuote
  let after := input.drop (afterQuote + 1)
  match input[afterQuote]? with
  | none => endQuotedRecord cfg input recordStart afterQuote false
  | some next =>
    if next == d.delimiter && d.delimiterTail.confirms after then do
      setLocation (afterQuote + d.delimiterTail.width)
      pure false
    else if !(d.recordEnding == .crLf) && next == d.recordEnding.byte
        && d.endingTail.confirms after then
      endQuotedRecord cfg input recordStart (afterQuote + d.endingTail.width) true
    else if d.recordEnding.stripsCr && next == 13 && after.head? == some 10 then
      endQuotedRecord cfg input recordStart (afterQuote + 2) true
    else error input (.unexpectedByteAfterQuote next) afterQuote

/-- `copy_segment`. -/
def copySegment (copied : Bool) (contentStart segmentStart pos : ℕ) : Parse Unit :=
  extendScratch ((if copied then [] else slice input contentStart segmentStart)
    ++ slice input segmentStart pos)

/-- The closing quote at `pos`: push the field and look behind it. -/
def closeQuotedField (recordStart contentStart scratchStart segmentStart pos : ℕ) (copied : Bool) :
    Parse Bool := do
  if copied then extendScratch (slice input segmentStart pos) else pure ()
  let e ← get
  if copied then pushSpan cfg input .scratch scratchStart e.spans.scratch.length pos true
  else pushSpan cfg input .input contentStart pos pos true
  finishQuotedField cfg F input recordStart (pos + 1)

/-- The bytes a search inside quotes stops at. -/
def findQuoted (d : Dialect) (remaining : Bytes) : Option ℕ :=
  match d.escape with
  | .doubleQuote => find1 d.quote remaining
  | .backslash escape | .unquoted escape => find2 d.quote escape remaining
  | .mysql => find2 d.quote 92 remaining

/-- What a stop inside quotes means. -/
inductive QuotedStop where
  /-- an escape for this byte -/
  | escaped (byte : UInt8)
  | closing
  | invalid (kind : ErrorKind) (pos : ℕ)
  deriving DecidableEq, Repr

/-- The stop at `pos`. -/
def quotedStop (o : FormatSettings) (scanEnd pos : ℕ) : QuotedStop :=
  let d := o.dialect
  let next := input[pos + 1]?
  match d.escape with
  | .doubleQuote => if next = some d.quote then .escaped d.quote else .closing
  | .backslash escape =>
    if byteAt input pos = escape then
      match next with
      | none => .invalid (.invalidEscape escape) pos
      | some escaped =>
        if escaped ≠ d.quote && escaped ≠ escape && !o.syntax'.permitsAnyBackslashEscape then
          .invalid (.invalidEscape escaped) (pos + 1)
        else .escaped escaped
    else .closing
  | .mysql =>
    if byteAt input pos = 92 then
      match next with
      | none => .invalid .unterminatedQuotedField scanEnd
      | some escaped => .escaped (mysqlUnescapeByte escaped)
    else .closing
  | .unquoted escape =>
    if byteAt input pos = escape then
      match next with
      | none => .invalid .unterminatedQuotedField scanEnd
      | some escaped => .escaped escaped
    else .closing

/-- The loop of `parse_quoted_field_runtime`. -/
def quotedLoop (recordStart contentStart scratchStart : ℕ) :
    (fuel segmentStart cursor : ℕ) → (copied : Bool) → Parse Bool
  | 0, _, _, _ => throw .stuck
  | fuel + 1, segmentStart, cursor, copied =>
    let o := cfg.fmt F
    let scanEnd := scanEnd cfg input recordStart contentStart
    if cursor > scanEnd then do
      checkRecordLimit cfg input recordStart scanEnd
      -- the source expects the limit to be breached
      panic
    else
      match findQuoted o.dialect (slice input cursor scanEnd) with
      | none => do
        checkScanEnd cfg input scanEnd recordStart contentStart
        error input .unterminatedQuotedField scanEnd
      | some relative =>
        let pos := cursor + relative
        match quotedStop input o scanEnd pos with
        | .invalid kind pos => error input kind pos
        | .escaped byte => do
          copySegment input copied contentStart segmentStart pos
          extendScratch [byte]
          checkScratchLimit cfg input scratchStart pos
          quotedLoop recordStart contentStart scratchStart fuel (pos + 2) (pos + 2) true
        | .closing =>
          closeQuotedField cfg F input recordStart contentStart scratchStart segmentStart pos copied

/-- `parse_quoted_field`. -/
def parseQuotedField (recordStart : ℕ) : Parse Bool := do
  let e ← get
  let contentStart := e.location + 1
  quotedLoop cfg F input recordStart contentStart e.spans.scratch.length (input.length + 1)
    contentStart contentStart false

/-! ## The field-by-field parser -/

/-- `mark_null_spans`. -/
def markNullSpans (header : Bool) : Parse Unit :=
  let nulls := (cfg.fmt F).nulls
  if nulls = .none ∨ header then pure ()
  else modify fun e => { e with spans := e.spans.markInputNulls input (rawFieldIsNull nulls) }

/-- One field: `true` when it is the last of its record. -/
def parseField (recordStart : ℕ) (header : Bool) : Parse Bool := do
  skipDelimiterSpaces cfg input F recordStart
  let e ← get
  if input[e.location]? = some (cfg.fmt F).dialect.quote ∧ (cfg.fmt F).syntax'.quotingEnabled then
    parseQuotedField cfg F input recordStart
  else parseUnquotedField cfg F input recordStart header

/-- The loop of `parse_record_fields`. -/
def fieldsLoop (recordStart : ℕ) (header : Bool) : (fuel : ℕ) → Parse Unit
  | 0 => throw .stuck
  | fuel + 1 => do
    let recordEnd ← parseField cfg F input recordStart header
    if recordEnd then do
      markNullSpans cfg F input header
      let e ← get
      validateFieldCount cfg input e.spans.len
    else fieldsLoop recordStart header fuel

/-- `parse_record_fields`. -/
def parseRecordFields (recordStart : ℕ) (header : Bool) : Parse Unit :=
  fieldsLoop cfg F input recordStart header (input.length + 2)

/-! ## The kernels of the default dialect -/

/-- The set bits of a comparison mask over a block, lowest first. -/
abbrev Mask := List ℕ

/-- The positions of `byte` in a block. -/
def maskOf (byte : UInt8) (block : Bytes) : Mask :=
  (List.range block.length).filter fun i => block[i]? == some byte

/-- The bits below the first set bit of `bound`. -/
def Mask.before (m bound : Mask) : Mask := m.filter fun i => bound.head?.all fun b => i < b

/-- An unquoted field of the input. -/
def inputSpan (start stop : ℕ) : Span := ⟨.input, start, stop, false, false⟩

/-- Where the field before a line feed at `pos` ends. -/
def stripCr (fieldStart pos : ℕ) : ℕ :=
  if fieldStart < pos && byteAt input (pos - 1) == 13 then pos - 1 else pos

/-- `MAX_BATCHED_RECORD`, in blocks of 32 bytes. -/
def maxBatchedBlocks : ℕ := 4 * 1024 / 32

/-- The loop of `try_parse_default_borrowed_plain_avx2`. -/
def borrowedPlainBlocks (recordStart : ℕ) :
    (fuel consumed fieldStart : ℕ) → List Span → Option (ℕ × List Span)
  | 0, _, _, _ => none
  | fuel + 1, consumed, fieldStart, spans =>
    let base := recordStart + consumed
    let block := (input.drop base).take 32
    if block.length < 32 then none
    else
      let newlines := maskOf 10 block
      if (maskOf 34 block).before newlines ≠ [] then none
      else
        let separators := (maskOf 44 block).before newlines
        let (fieldStart, spans) := separators.foldl
          (fun (start, spans) separator =>
            (base + separator + 1, spans ++ [inputSpan start (base + separator)]))
          (fieldStart, spans)
        match newlines.head? with
        | some recordEnd =>
          let newline := base + recordEnd
          some (consumed + recordEnd + 1,
            spans ++ [inputSpan fieldStart (stripCr input fieldStart newline)])
        | none => borrowedPlainBlocks recordStart fuel (consumed + 32) fieldStart spans

/-- `try_parse_default_borrowed_plain`. -/
def tryParseDefaultBorrowedPlain (recordStart : ℕ) (spans : List Span) :
    Option (ℕ × List Span) :=
  if cfg.host.avx2 then
    borrowedPlainBlocks input recordStart maxBatchedBlocks 0 recordStart spans
  else none

/-- The search for the closing quote of `try_parse_default_borrowed_record_impl`:
    its position, where the last segment starts and the scratch buffer. -/
def borrowedClosing (scan : Bytes) :
    (fuel cursor segmentStart : ℕ) → (scratch : Bytes) → Option (ℕ × ℕ × Bytes)
  | 0, _, _, _ => none
  | fuel + 1, cursor, segmentStart, scratch =>
    match find1 34 (scan.drop cursor) with
    | none => none
    | some relative =>
      let quote := cursor + relative
      if scan[quote + 1]? ≠ some 34 then some (quote, segmentStart, scratch)
      else
        borrowedClosing scan fuel (quote + 2) (quote + 2)
          (scratch ++ slice scan segmentStart quote ++ [34])

/-- The span of a quoted field whose closing quote is at `closing`: of the
    input, or of the scratch buffer when it has escapes. -/
def borrowedQuotedSpan (scan : Bytes) (recordStart fieldStart closing segmentStart : ℕ)
    (scratch : Bytes) (storage : SpanStorage) : SpanStorage :=
  if scratch.length ≠ storage.scratch.length then
    SpanStorage.push { storage with scratch := scratch ++ slice scan segmentStart closing }
      ⟨.scratch, storage.scratch.length, scratch.length + (closing - segmentStart), true, false⟩
  else storage.push ⟨.input, recordStart + fieldStart + 1, recordStart + closing, true, false⟩

/-- The loop of `try_parse_default_borrowed_record_impl`: the bytes consumed,
    whether a terminator was, and the storage.  Without `limits` none is
    checked. -/
def borrowedRecordLoop (limits : Option Limits) (suffix scan : Bytes) (recordStart : ℕ) :
    (fuel fieldsAdded fieldStart : ℕ) → SpanStorage → Option (ℕ × Bool × SpanStorage)
  | 0, _, _, _ => none
  | fuel + 1, fieldsAdded, fieldStart, storage =>
    let exceeds (width : ℕ) : Bool := limits.any fun l => width > l.maxFieldBytes
    let unquoted (stop : ℕ) : SpanStorage :=
      storage.push (inputSpan (recordStart + fieldStart) (recordStart + stop))
    if limits.any fun l => fieldsAdded = l.maxFields then none
    else if fieldStart = scan.length then
      if scan.length < suffix.length then none else some (fieldStart, false, unquoted fieldStart)
    else if scan[fieldStart]? = some 34 then
      match borrowedClosing scan (scan.length + 1) (fieldStart + 1) (fieldStart + 1)
          storage.scratch with
      | none => none
      | some (closing, segmentStart, scratch) =>
        if exceeds (closing + 1 - fieldStart) then none
        else
          let storage :=
            borrowedQuotedSpan scan recordStart fieldStart closing segmentStart scratch storage
          match scan[closing + 1]? with
          | none => if scan.length = suffix.length then some (closing + 1, false, storage) else none
          | some next =>
            if next = 44 then
              borrowedRecordLoop limits suffix scan recordStart fuel (fieldsAdded + 1)
                (closing + 2) storage
            else if next = 10 then some (closing + 2, true, storage)
            else if next = 13 ∧ scan[closing + 2]? = some 10 then some (closing + 3, true, storage)
            else none
    else
      match find3 44 34 10 (scan.drop fieldStart) with
      | none =>
        if scan.length < suffix.length || exceeds (scan.length - fieldStart) then none
        else some (scan.length, false, unquoted scan.length)
      | some relative =>
        let structural := fieldStart + relative
        let byte := byteAt scan structural
        if byte = 44 then
          if exceeds (structural - fieldStart) then none
          else
            borrowedRecordLoop limits suffix scan recordStart fuel (fieldsAdded + 1)
              (structural + 1) (unquoted structural)
        else if byte = 10 then
          let fieldEnd := stripCr scan fieldStart structural
          if exceeds (fieldEnd - fieldStart) then none
          else some (structural + 1, true, unquoted fieldEnd)
        else none

/-- `try_parse_default_borrowed_record`. -/
def tryParseDefaultBorrowedRecord (recordStart : ℕ) (storage : SpanStorage) :
    Option (ℕ × Bool × SpanStorage) :=
  let suffix := input.drop recordStart
  let l := cfg.limits
  if suffix.length ≤ l.maxRecordBytes && suffix.length ≤ l.maxFieldBytes
      && suffix.length < l.maxFields then
    borrowedRecordLoop none suffix suffix recordStart (suffix.length + 1) 0 0 storage
  else
    borrowedRecordLoop (some l) suffix (suffix.take l.maxRecordBytes) recordStart
      (suffix.length + 1) 0 0 storage

/-- `DEFAULT_BORROWED_PROBE`. -/
def defaultBorrowedProbe : ℕ := 64

/-- `try_parse_default_csv_borrowed`.  The span storage is never narrower than
    the fields it is created for, so its capacity always admits the first
    kernel. -/
def tryParseDefaultCsvBorrowed (recordStart : ℕ) : Parse Bool := do
  let e ← get
  if e.ownedParser.isNone || input.length - recordStart < defaultBorrowedProbe then pure false
  else
    match tryParseDefaultBorrowedPlain cfg input recordStart e.spans.spans with
    | some (consumed, spans) => do
      let location := recordStart + consumed
      set { e with
        location
        spans := { e.spans with spans }
        terminated := e.terminated || location == input.length }
      foldPlainRecordTerminator recordStart true 10
      pure true
    | none =>
      if (find1 34 (slice input recordStart (recordStart + defaultBorrowedProbe))).isNone then
        pure false
      else
        match tryParseDefaultBorrowedRecord cfg input recordStart e.spans with
        | some (consumed, terminated, spans) => do
          set { e with location := recordStart + consumed, spans, terminated }
          pure true
        | none => pure false

/-! ## The plain kernel -/

/-- `StructuralScanner`: the structural bytes of the window with their
    offsets. -/
def structuralMatches (d : Dialect) : (position : ℕ) → Bytes → List (ℕ × UInt8)
  | _, [] => []
  | position, byte :: rest =>
    if byte == d.delimiter || byte == d.quote || byte == d.recordEnding.byte then
      (position, byte) :: structuralMatches d (position + 1) rest
    else structuralMatches d (position + 1) rest

/-- The record up to `cursor` has an unquoted escape, so the kernel declines. -/
def hasEscape (recordStart cursor : ℕ) : Bool :=
  (cfg.fmt F).dialect.escape.unquotedByte.any fun escape =>
    (find1 escape (slice input recordStart cursor)).isSome

/-- The kernel declines: no span is left. -/
def declinePlain : Parse Bool := do
  clearSpans
  pure false

/-- The end of a plain record: its last field, and the cursor behind it. -/
def endPlainRecord (recordStart fieldStart fieldEnd pos location : ℕ) (terminated : Bool) :
    Parse Bool := do
  pushSpan cfg input .input fieldStart fieldEnd pos false
  setLocation location
  setTerminated terminated
  checkRecordLimit cfg input recordStart location
  foldPlainRecord cfg F recordStart terminated
  pure true

/-- The loop of `try_parse_borrowed_plain` over the structural bytes. -/
def plainLoop (recordStart scanEnd : ℕ) : (fieldStart : ℕ) → List (ℕ × UInt8) → Parse Bool
  | fieldStart, [] => do
    if scanEnd < input.length then
      error input (.recordTooLarge cfg.limits.maxRecordBytes) scanEnd
    else if hasEscape cfg F input recordStart scanEnd then declinePlain
    else endPlainRecord cfg F input recordStart fieldStart scanEnd scanEnd scanEnd false
  | fieldStart, (cursor, byte) :: rest =>
    let o := cfg.fmt F
    if byte = o.dialect.delimiter then do
      pushSpan cfg input .input fieldStart cursor cursor false
      plainLoop recordStart scanEnd (cursor + 1) rest
    else if byte = o.dialect.quote ∧ o.syntax'.quotingEnabled
        ∧ (cursor = fieldStart ∨ o.syntax'.permitsUnquotedQuotes = false) then
      declinePlain
    else if byte = o.dialect.recordEnding.byte then
      if hasEscape cfg F input recordStart cursor then declinePlain
      else
        let fieldEnd :=
          if o.dialect.recordEnding.stripsCr then stripCr input fieldStart cursor else cursor
        endPlainRecord cfg F input recordStart fieldStart fieldEnd cursor (cursor + 1) true
    else plainLoop recordStart scanEnd fieldStart rest

/-- The plain kernel proper. -/
def plainKernel (recordStart : ℕ) : Parse Bool :=
  let scanEnd := min input.length (recordStart + (cfg.limits.maxRecordBytes + 1))
  plainLoop cfg F input recordStart scanEnd recordStart
    (structuralMatches (cfg.fmt F).dialect recordStart (slice input recordStart scanEnd))

/-- `try_parse_borrowed_plain`. -/
def tryParseBorrowedPlain (recordStart : ℕ) : Parse Bool := do
  let parsed ←
    if cfg.host.x86_64 && cfg.isCsvFormat F then tryParseDefaultCsvBorrowed cfg input recordStart
    else pure false
  if parsed then pure true else plainKernel cfg F input recordStart

/-! ## One record -/

/-- `validate_crlf`. -/
def validateCrlf (recordStart : ℕ) : Parse Unit := fun e =>
  let stop := e.location
  let terminated := recordStart < stop && input[stop - 1]? == some 10
  let lf := stop - 1
  let searchEnd :=
    if terminated then (if recordStart < lf && byteAt input (lf - 1) == 13 then lf - 1 else lf)
    else stop
  match find1 13 (slice input recordStart searchEnd) with
  | some offset =>
    let pos := recordStart + offset
    let field := (e.spans.spans.findIdx? fun span => span.stop > pos).getD 0
    errorFor input (.invalidRecordEnding 13) pos field e
  | none =>
    if terminated && searchEnd == lf then
      errorFor input (.invalidRecordEnding 10) lf (e.spans.len - 1) e
    else .ok () e

/-- `finish_plain_record`. -/
def finishPlainRecord (recordStart : ℕ) (header : Bool) : Parse Unit := do
  if (cfg.fmt F).dialect.recordEnding = .crLf then validateCrlf input recordStart else pure ()
  markNullSpans cfg F input header

/-- `plain_record_candidate`. -/
def plainRecordCandidate (first : Option UInt8) : Bool :=
  cfg.fmtPlainKernel F
    && (!(cfg.fmt F).syntax'.quotingEnabled || first != some (cfg.fmt F).dialect.quote)

/-- The dispatch of `parse_record` on the recognised format. -/
def parseRecordFieldsFor (recordStart : ℕ) (header : Bool) : Parse Unit :=
  match F with
  | some _ => parseRecordFields cfg F input recordStart header
  | none =>
    match cfg.formatKind with
    | .csv => parseRecordFields cfg (some .csv) input recordStart header
    | .tsv =>
      parseRecordFields cfg (some (.builtIn .tsv { dialect := .tsv } rfl)) input recordStart header
    | .other => parseRecordFields cfg none input recordStart header

/-- `parse_record`. -/
def parseRecord (recordStart : ℕ) (header : Bool) : Parse Unit := do
  let plain ←
    if plainRecordCandidate cfg F input[recordStart]? then
      tryParseBorrowedPlain cfg F input recordStart
    else pure false
  if plain then do
    if ParserSettings.needsRecordPass (cfg.fmt F).dialect (cfg.fmt F).nulls then
      finishPlainRecord cfg F input recordStart header
    else pure ()
    let e ← get
    validateFieldCount cfg input e.spans.len
  else parseRecordFieldsFor cfg F input recordStart header

end Engine

end Coseva
