/-
  Coseva — the owned parse path, which copies fields into a record's storage
  (`coseva/src/engine/owned_parser.rs`).

  * `OwnedOutput`: the record that is being filled;
  * `ownedPlainFrom`: the plain kernel, which copies fields up to a quote;
  * `parseOwnedRecordMode`: one record.  Which kernels it is dispatched to depends on
    the records read before.
-/
import Coseva.OwnedKernels
import Coseva.QuotedBound

namespace Coseva

open Structural (Stop)

/-! ## The record that is being filled -/

namespace Fields

/-- The endpoints of some fields whose bytes begin at an offset. -/
def offsetsFrom : ℕ → Fields → List ℕ
  | _, [] => []
  | start, field :: fields => (start + width field) :: offsetsFrom (start + width field) fields

end Fields

/-- What the owned parsers fill of a `RecordStorage`, as the list of its fields. -/
structure OwnedOutput where
  fields : Fields
  nullAware : Bool
  textValidity : TextValidity
  deriving DecidableEq, Repr

namespace OwnedOutput

/-- `RecordStorage::new`. -/
def new : OwnedOutput := ⟨[], false, .unknown⟩

/-- `clear_fields`. -/
def clearFields (o : OwnedOutput) : OwnedOutput := { o with fields := [], nullAware := false }

def len (o : OwnedOutput) : ℕ := o.fields.length

/-- `append_field`. -/
def appendField (o : OwnedOutput) (field : Bytes) : OwnedOutput :=
  { o with fields := o.fields ++ [some field] }

/-- `append_empty_fields`. -/
def appendEmptyFields (o : OwnedOutput) (count : ℕ) : OwnedOutput :=
  { o with fields := o.fields ++ List.replicate count (some []) }

/-- `append_null_field`. -/
def appendNullField (o : OwnedOutput) : OwnedOutput :=
  { o with fields := o.fields ++ [none], nullAware := true }

/-- `mark_null_fields`. -/
def markNullFields (o : OwnedOutput) (isNull : Bytes → Bool) : OwnedOutput :=
  { o with
    fields := RecordStorage.marked isNull o.fields
    nullAware := o.nullAware || (o.fields.any fun field => field.any isNull) }

/-- `trim_fields_ascii`. -/
def trimFieldsAscii (o : OwnedOutput) : OwnedOutput := { o with fields := o.fields.map (·.map trimmed) }

/-- The bytes and endpoints that a kernel appends to. -/
def storage (o : OwnedOutput) : Structural.Output :=
  ⟨Fields.text o.fields, Fields.offsetsFrom 0 o.fields, o.textValidity⟩

/-- The pieces of some bytes that end at some offsets. -/
def pieces (bytes : Bytes) : ℕ → List ℕ → List Bytes
  | _, [] => []
  | start, stop :: stops => slice bytes start stop :: pieces bytes stop stops

/-- The record of a storage that a kernel has appended to, or has cleared. -/
def filled (o : OwnedOutput) (s : Structural.Output) : OwnedOutput :=
  { o with
    fields := o.fields.take s.ends.length ++
      (pieces s.bytes (Fields.text o.fields).length (s.ends.drop o.len)).map some
    textValidity := s.textValidity }

end OwnedOutput

namespace Engine

variable (cfg : ParserSettings) (F : CsvFormat) (input : Bytes)

/-! ## Plain records -/

/-- `push_owned_field` and `push_owned_short_field`. -/
def pushOwnedField (output : OwnedOutput) (start stop byte : ℕ) : Parse OwnedOutput :=
  if output.len = cfg.limits.maxFields then
    errorFor input (.tooManyFields cfg.limits.maxFields) byte output.len
  else if stop - start > cfg.limits.maxFieldBytes then
    errorFor input (.fieldTooLarge cfg.limits.maxFieldBytes) byte output.len
  else pure (output.appendField (slice input start stop))

/-- The end of a plain record: its last field, and the cursor behind it. -/
def endOwnedPlain (recordStart fieldStart fieldEnd pos location : ℕ) (output : OwnedOutput) :
    Parse (Bool × OwnedOutput) := do
  let output ← pushOwnedField cfg input output fieldStart fieldEnd pos
  setLocation location
  checkRecordLimitFor cfg input recordStart location output.len
  pure (true, output)

/-- The delimiters from a position on. -/
def delimiterRun (delimiter : UInt8) (pos : ℕ) : ℕ :=
  ((input.drop pos).takeWhile (· == delimiter)).length

/-- The loop of `try_parse_owned_plain_from_mode` over the structural bytes. -/
def ownedPlainLoop (recordStart scanEnd : ℕ) :
    (fieldStart : ℕ) → OwnedOutput → List (ℕ × UInt8) → Parse (Bool × OwnedOutput)
  | fieldStart, output, [] =>
    if scanEnd < input.length then
      errorFor input (.recordTooLarge cfg.limits.maxRecordBytes) scanEnd output.len
    else endOwnedPlain cfg input recordStart fieldStart scanEnd scanEnd scanEnd output
  | fieldStart, output, (cursor, byte) :: rest =>
    let o := cfg.fmt F
    if byte = o.dialect.delimiter then
      if cursor = fieldStart then
        let count := delimiterRun input o.dialect.delimiter cursor
        let available := cfg.limits.maxFields - output.len
        if count > available then
          errorFor input (.tooManyFields cfg.limits.maxFields) (cursor + available) cfg.limits.maxFields
        else
          ownedPlainLoop recordStart scanEnd (cursor + count) (output.appendEmptyFields count) rest
      else if cursor < fieldStart then ownedPlainLoop recordStart scanEnd fieldStart output rest
      else do
        let output ← pushOwnedField cfg input output fieldStart cursor cursor
        ownedPlainLoop recordStart scanEnd (cursor + 1) output rest
    else if byte = o.dialect.quote ∧ o.syntax'.quotingEnabled
        ∧ (cursor = fieldStart ∨ o.syntax'.permitsUnquotedQuotes = false) then
      if cursor ≠ fieldStart then errorFor input .unexpectedQuote cursor output.len
      else do
        setLocation cursor
        pure (false, output)
    else if byte = cfg.dialect.recordEnding.byte then
      let fieldEnd := if o.dialect.recordEnding = .newline then stripCr input fieldStart cursor else cursor
      endOwnedPlain cfg input recordStart fieldStart fieldEnd cursor (cursor + 1) output
    else ownedPlainLoop recordStart scanEnd fieldStart output rest

/-- `try_parse_owned_plain_from`: whether the record is read, or else the cursor is at the quote
    that opens its next field. -/
def ownedPlainFrom (recordStart resume : ℕ) (output : OwnedOutput) : Parse (Bool × OwnedOutput) :=
  let scanEnd := min input.length (recordStart + (cfg.limits.maxRecordBytes + 1))
  ownedPlainLoop cfg F input recordStart scanEnd resume output
    (structuralMatches (cfg.fmt F).dialect resume (slice input resume scanEnd))

/-- `try_parse_default_csv_owned_plain`. -/
def defaultCsvOwnedPlain (certifyAscii : Bool) (recordStart : ℕ) (output : OwnedOutput) :
    Parse (Bool × OwnedOutput) := do
  let e ← get
  if e.ownedParser.isSome then
    match Structural.tryParseDefaultPlainPacked cfg.host.packed certifyAscii (input.drop recordStart)
        output.storage with
    | (some consumed, storage) => do
      setLocation (recordStart + consumed)
      pure (true, output.filled storage)
    | (none, storage) => pure (false, output.filled storage)
  else pure (false, output)

/-- `try_parse_owned_plain` and `try_parse_owned_plain_ascii`. -/
def ownedPlain (certifyAscii : Bool) (recordStart : ℕ) (output : OwnedOutput) :
    Parse (Bool × OwnedOutput) := do
  let (parsed, output) ←
    if cfg.host.x86_64 && cfg.isCsvFormat F then
      defaultCsvOwnedPlain cfg input certifyAscii recordStart output
    else pure (false, output)
  if parsed then pure (true, output) else ownedPlainFrom cfg F input recordStart recordStart output

/-- `mark_owned_nulls`. -/
def markOwnedNulls (header : Bool) (output : OwnedOutput) : OwnedOutput :=
  match (cfg.fmt F).nulls with
  | .none => output
  | nulls => if header then output else output.markNullFields (rawFieldIsNull nulls)

/-! ## The field-by-field parser -/

/-- `push_owned_unquoted`. -/
def pushOwnedUnquoted (output : OwnedOutput) (start stop byte : ℕ) (nulls : Nulls) : Parse OwnedOutput :=
  if rawFieldIsNull nulls (slice input start stop) then
    if output.len = cfg.limits.maxFields then
      errorFor input (.tooManyFields cfg.limits.maxFields) byte output.len
    else pure output.appendNullField
  else pushOwnedField cfg input output start stop byte

/-- `parse_owned_unquoted_field`. -/
def parseOwnedUnquotedField (recordStart : ℕ) (header : Bool) (output : OwnedOutput) :
    Parse (Bool × OwnedOutput) := do
  let e ← get
  let nulls := if header then .none else cfg.nulls
  let d := cfg.dialect
  let fieldStart := e.location
  let scanEnd := scanEnd cfg input recordStart fieldStart
  if fieldStart > scanEnd then panic
  else
    let remaining := slice input fieldStart scanEnd
    let special :=
      if cfg.syntax'.quotingEnabled && !cfg.syntax'.permitsUnquotedQuotes then
        find3 d.delimiter d.quote d.recordEnding.byte remaining
      else find2 d.delimiter d.recordEnding.byte remaining
    match special with
    | none => do
      checkScanEndFor cfg input scanEnd recordStart fieldStart output.len
      let output ← pushOwnedUnquoted cfg input output fieldStart scanEnd scanEnd nulls
      setLocation scanEnd
      pure (true, output)
    | some relative =>
      let pos := fieldStart + relative
      let byte := byteAt input pos
      if byte = d.quote then errorFor input .unexpectedQuote pos output.len
      else
        let terminated := byte == d.recordEnding.byte
        let fieldEnd := if terminated && d.recordEnding == .newline then stripCr input fieldStart pos else pos
        do
          let output ← pushOwnedUnquoted cfg input output fieldStart fieldEnd pos nulls
          setLocation (pos + 1)
          checkRecordLimitFor cfg input recordStart (pos + 1) output.len
          pure (terminated, output)

/-- `parse_owned_quoted_field`, behind the fields of a record. -/
def appendOwnedQuotedField (recordStart : ℕ) (output : OwnedOutput) : Parse (Bool × OwnedOutput) := do
  let (recordEnd, parsed) ←
    parseOwnedQuotedField cfg input recordStart ⟨output.fields.map (·.getD []), []⟩
  pure (recordEnd, { output with fields := output.fields ++ (parsed.fields.drop output.len).map some })

/-- The loop of `parse_owned_record_mode` over the fields. -/
def ownedFieldsLoop (recordStart : ℕ) (header : Bool) :
    (fuel : ℕ) → OwnedOutput → Parse OwnedOutput
  | 0, _ => throw .stuck
  | fuel + 1, output => do
    skipDelimiterSpaces cfg input F recordStart
    let e ← get
    let (recordEnd, output) ←
      if input[e.location]? = some (cfg.fmt F).dialect.quote ∧ (cfg.fmt F).syntax'.quotingEnabled then
        appendOwnedQuotedField cfg input recordStart output
      else parseOwnedUnquotedField cfg input recordStart header output
    if recordEnd then do
      validateFieldCount cfg input output.len
      pure output
    else ownedFieldsLoop recordStart header fuel output

/-! ## Records with quotes -/

/-- `INTERIOR_QUOTE_RUN`. -/
def interiorQuoteRun : ℕ := 16

/-- `owned_resume_window`. -/
def ownedResumeWindow (recordStart location : ℕ) : Option Bytes :=
  let windowEnd := min input.length (recordStart + cfg.limits.maxRecordBytes)
  if location < windowEnd then some (slice input location windowEnd) else none

/-- The loop of `resume_owned_after_interior_quote`. -/
def resumeOwnedLoop (parse : PrefixParser) (recordStart : ℕ) :
    (fuel : ℕ) → OwnedOutput → Parse (Bool × OwnedOutput)
  | 0, _ => throw .stuck
  | fuel + 1, output => do
    let e ← get
    match ownedResumeWindow cfg input recordStart e.location with
    | none => pure (false, output)
    | some window =>
      match parse.run cfg.host window output.storage with
      | .ok ((consumed, true), storage) => do
        setLocation (e.location + consumed)
        pure (true, output.filled storage)
      | .ok ((consumed, false), storage) => do
        setLocation (e.location + consumed)
        let (parsed, output) ←
          ownedPlainFrom cfg F input recordStart (e.location + consumed) (output.filled storage)
        if parsed then pure (true, output) else resumeOwnedLoop parse recordStart fuel output
      | .error .declined => pure (false, output)
      | .error .panicked => panic

/-- `resume_owned_after_interior_quote`. -/
def resumeOwnedAfterInteriorQuote (recordStart : ℕ) (output : OwnedOutput) :
    Parse (Bool × OwnedOutput) := do
  let e ← get
  match e.quotedPrefixParser with
  | none => pure (false, output)
  | some parse => resumeOwnedLoop cfg F input parse recordStart (input.length + 1) output

/-- A record that a kernel has read. -/
def finishOwnedRecord (header : Bool) (output : OwnedOutput) : Parse (Bool × OwnedOutput) := do
  let output := markOwnedNulls cfg F header output
  validateFieldCount cfg input output.len
  pure (true, output)

/-- The prediction that the records to come have several quoted fields. -/
def predictQuotes (parser : Engine → Option PrefixParser) : Parse Unit := modify fun e =>
  { e with interiorQuotes := interiorQuoteRun, interiorPrefixParser := parser e }

/-- A whole-record kernel at the start of a record. -/
def runOwnedParser (recordStart : ℕ) (output : OwnedOutput) : Parse (Bool × OwnedOutput) := do
  let e ← get
  match e.ownedParser with
  | none => pure (false, output)
  | some parse =>
    match parse.run (input.drop recordStart) output.storage with
    | some (consumed, storage) => do
      setLocation (recordStart + consumed)
      pure (true, output.filled storage)
    | none => pure (false, output.clearFields)

/-- `parse_owned_interior_prefix`. -/
def parseOwnedInteriorPrefix (recordStart : ℕ) (header : Bool) (output : OwnedOutput) :
    Parse (Bool × OwnedOutput) := do
  let e ← get
  match e.interiorPrefixParser with
  | none => runOwnedParser input recordStart output
  | some parse =>
    match parse.run cfg.host (input.drop recordStart) output.storage with
    | .ok ((consumed, true), storage) => do
      setLocation (recordStart + consumed)
      pure (true, output.filled storage)
    | .ok ((consumed, false), storage) => do
      setLocation (recordStart + consumed)
      let (parsed, output) ←
        ownedPlainFrom cfg F input recordStart (recordStart + consumed) (output.filled storage)
      if parsed then finishOwnedRecord cfg F input header output
      else do
        predictQuotes (·.multiQuoteParser)
        let (parsed, output) ← resumeOwnedAfterInteriorQuote cfg F input recordStart output
        if parsed then finishOwnedRecord cfg F input header output
        else pure (false, markOwnedNulls cfg F header output)
    | .error .declined => pure (false, output.clearFields)
    | .error .panicked => panic

/-- A record that opens with a quote. -/
def parseOwnedQuotedPrefix (recordStart : ℕ) (header : Bool) (output : OwnedOutput) :
    Parse (Bool × OwnedOutput) := do
  let e ← get
  match e.quotedPrefixParser with
  | none => runOwnedParser input recordStart output
  | some parse =>
    match parse.run cfg.host (input.drop recordStart) output.storage with
    | .ok ((consumed, true), storage) => do
      setLocation (recordStart + consumed)
      pure (true, output.filled storage)
    | .ok ((consumed, false), storage) => do
      let (parsed, output) ←
        ownedPlainFrom cfg F input recordStart (recordStart + consumed) (output.filled storage)
      if parsed then finishOwnedRecord cfg F input header output
      else do
        predictQuotes (·.multiQuoteParser)
        resumeOwnedAfterInteriorQuote cfg F input recordStart (markOwnedNulls cfg F header output)
    | .error .declined => pure (false, output.clearFields)
    | .error .panicked => panic

/-- A record that is not predicted to have quotes. -/
def parseOwnedPlainRecord (certifyAscii : Bool) (recordStart : ℕ) (header : Bool)
    (output : OwnedOutput) : Parse (Bool × OwnedOutput) := do
  let (parsed, output) ← ownedPlain cfg F input certifyAscii recordStart output
  if parsed then finishOwnedRecord cfg F input header output
  else do
    predictQuotes (·.interiorHandoffParser)
    resumeOwnedAfterInteriorQuote cfg F input recordStart (markOwnedNulls cfg F header output)

/-- The kernel that certifies the record to be ASCII while it reads it. -/
def certifyInterior (recordStart : ℕ) (output : OwnedOutput) : Parse (Bool × OwnedOutput) := do
  let e ← get
  if e.asciiStructuralBackoff ≠ 0 then do
    set { e with asciiStructuralBackoff := e.asciiStructuralBackoff - 1 }
    pure (false, output)
  else
    match tryParseDefaultInteriorAscii cfg.host (input.drop recordStart) output.storage with
    | (.ok (consumed, true), storage) => do
      set { e with asciiStructuralSucceeded := true, location := recordStart + consumed }
      pure (true, output.filled storage)
    | (.error .panicked, _) => panic
    | (_, storage) => do
      set { e with asciiStructuralBackoff := if e.asciiStructuralSucceeded then 1 else 3 }
      pure (false, output.filled storage)

/-- The kernels of a record, and whether one has read it. -/
def parseOwnedKernels (certifyAscii : Bool) (recordStart : ℕ) (header : Bool) (output : OwnedOutput) :
    Parse (Bool × OwnedOutput) := do
  let opensQuoted := byteAt input recordStart == (cfg.fmt F).dialect.quote
  let e ← get
  if (cfg.fmt F).syntax'.quotingEnabled && (opensQuoted || e.interiorQuotes != 0) then do
    set { e with interiorQuotes := e.interiorQuotes - 1 }
    let (certified, output) ←
      if certifyAscii && !opensQuoted then certifyInterior cfg input recordStart output
      else pure (false, output)
    if certified then pure (true, output)
    else if opensQuoted then parseOwnedQuotedPrefix cfg F input recordStart header output
    else parseOwnedInteriorPrefix cfg F input recordStart header output
  else parseOwnedPlainRecord cfg F input certifyAscii recordStart header output

/-- `parse_owned_record_mode`. -/
def parseOwnedRecordMode (certifyAscii : Bool) (recordStart : ℕ) (header : Bool)
    (output : OwnedOutput) : Parse OwnedOutput := do
  let (parsed, output) ←
    if cfg.fmtPlainKernel F then parseOwnedKernels cfg F input certifyAscii recordStart header output
    else pure (false, output)
  if parsed then pure output
  else ownedFieldsLoop cfg F input recordStart header (input.length + 2) output

end Engine

end Coseva
