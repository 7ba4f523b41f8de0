/-
  Coseva — record framing (`coseva/src/engine/framing.rs`, `limits.rs`): what is
  skipped between records, and the parse of one record from where it starts.

  * `skipIgnoredRecords`: comments and blank lines;
  * `parsePositionedRecord`: the record at the cursor;
  * `nextPhysicalRecord`: the next record, as a borrowed one.
-/
import Coseva.Borrowed

namespace Coseva

/-- `Record`: a borrowed record. -/
structure Record where
  fields : List Field
  start : ℕ
  stop : ℕ
  index : ℕ
  deriving DecidableEq, Repr

namespace Engine

variable (cfg : ParserSettings) (F : CsvFormat) (input : Bytes)

/-! ## Comments and blank lines -/

/-- `record_ending_width_at`. -/
def recordEndingWidthAt (pos : ℕ) : Option ℕ :=
  let d := cfg.dialect
  match d.recordEnding with
  | .newline =>
    if input[pos]? = some 10 then some 1
    else if input[pos]? = some 13 ∧ input[pos + 1]? = some 10 then some 2
    else none
  | .crLf => if input[pos]? = some 13 ∧ input[pos + 1]? = some 10 then some 2 else none
  | .ofByte byte =>
    if input[pos]? = some byte ∧ d.endingTail.confirms (input.drop (pos + 1)) then
      some d.endingTail.width
    else none

/-- The loop of `find_record_ending`. -/
def findRecordEndingLoop (start : ℕ) : (fuel searchStart : ℕ) → Option ℕ
  | 0, _ => none
  | fuel + 1, searchStart =>
    let d := cfg.dialect
    match find1 d.recordEnding.byte (input.drop searchStart) with
    | none => none
    | some relative =>
      let pos := searchStart + relative
      let confirmed :=
        match d.recordEnding with
        | .newline => true
        | .crLf => start < pos && byteAt input (pos - 1) == 13
        | .ofByte _ => d.endingTail.confirms (input.drop (pos + 1))
      if confirmed then some (pos + d.endingTail.width)
      else findRecordEndingLoop start fuel (pos + 1)

/-- `find_record_ending`. -/
def findRecordEnding (start : ℕ) : Option ℕ :=
  findRecordEndingLoop cfg input start (input.length + 1) start

/-- The loop of `skip_comments`. -/
def skipCommentsLoop (comment : UInt8) : (fuel : ℕ) → Engine → Engine
  | 0, e => e
  | fuel + 1, e =>
    let resuming := e.resume.ignored && e.resume.recordStart == some e.location
      && e.resume.scannedTo ≤ input.length
    if !resuming && input[e.location]? ≠ some comment then e
    else
      let scanStart := if resuming then e.resume.scannedTo else e.location
      match findRecordEnding cfg input scanStart with
      | some stop => skipCommentsLoop comment fuel { e with location := stop, resume := .new }
      | none =>
        let overlap := max cfg.dialect.endingTail.width 2
        let scannedTo := max (input.length - overlap) e.location
        { e with location := input.length, resume := .ofIgnored e.location scannedTo }

/-- `skip_comments`. -/
def skipComments (e : Engine) : Engine :=
  match cfg.dialect.comment with
  | none => e
  | some comment => skipCommentsLoop cfg input comment (input.length + 2) e

/-- The loop of `skip_blank_lines`. -/
def skipBlankLinesLoop : (fuel : ℕ) → Engine → Engine
  | 0, e => e
  | fuel + 1, e =>
    match recordEndingWidthAt cfg input e.location with
    | some width => skipBlankLinesLoop fuel { e with location := e.location + width }
    | none => e

/-- `skip_blank_lines`. -/
def skipBlankLines (e : Engine) : Engine :=
  if cfg.blankRecords = .skip then skipBlankLinesLoop cfg input (input.length + 1) e else e

/-- The loop of `skip_ignored_records`, and whether anything was skipped. -/
def skipIgnoredLoop : (fuel : ℕ) → (skipped : Bool) → Engine → Bool × Engine
  | 0, skipped, e => (skipped, e)
  | fuel + 1, skipped, e =>
    let next := skipBlankLines cfg input (skipComments cfg input e)
    if next.location = e.location then (skipped, next) else skipIgnoredLoop fuel true next

/-- `skip_ignored_records`. -/
def skipIgnoredRecords (e : Engine) : Engine :=
  let (skipped, next) := skipIgnoredLoop cfg input (input.length + 2) e.resume.ignored e
  if skipped && !next.resume.ignored then { next with resume := .fresh next.location } else next

/-! ## The record at the cursor -/

/-- `trim_spans`. -/
def trimSpans (header : Bool) : Parse Unit :=
  if cfg.trim.appliesToScope header then
    modify fun e => { e with
      spans := e.spans.trimAsciiWhere input fun quoted => cfg.trim.applies header quoted }
  else pure ()

/-- Poison the parser when `m` reports an error. -/
def failing {α : Type} (m : Parse α) : Parse α := fun e =>
  match m e with
  | .ok a e => .ok a e
  | .error (.error kind location) e => .error (.error kind location) { e with failed := true }
  | .error fault e => .error fault e

/-- `begin_spans`. -/
def beginSpans : Parse Unit := fun e =>
  if input.length > Span.maxOffset then
    error input .locationOverflow e.location { e with failed := true }
  else .ok () { e with spans := .empty }

/-- `parse_positioned_record`: the byte range and the index of the record. -/
def parsePositionedRecord (header : Bool) : Parse (ℕ × ℕ × ℕ) := do
  beginSpans input
  let e ← get
  failing (parseRecord cfg F input e.location header)
  trimSpans cfg input header
  let e' ← get
  set { e' with recordIndex := e'.recordIndex + 1 }
  pure (e.location, e'.location, e'.recordIndex)

/-- The failure that every read of a poisoned parser reports. -/
def checkFailed : Parse Unit := fun e =>
  if e.failed then error input .parserFailed e.location e else .ok () e

/-- `fill_record_spans`. -/
def fillRecordSpans (header : Bool) : Parse (Option (ℕ × ℕ × ℕ)) := do
  checkFailed input
  modify fun e => if cfg.skipsRecords then skipIgnoredRecords cfg input e else e
  let e ← get
  if e.location = input.length then pure none
  else some <$> parsePositionedRecord cfg F input header

/-- The fields of the current record. -/
def currentRecord (range : ℕ × ℕ × ℕ) : Parse Record := do
  let e ← get
  pure ⟨e.spans.resolved input, range.1, range.2.1, range.2.2⟩

/-- `next_physical_record`. -/
def nextPhysicalRecord (header : Bool) : Parse (Option Record) := do
  match ← fillRecordSpans cfg none input header with
  | none => pure none
  | some range => some <$> currentRecord input range

end Engine

end Coseva
