/-
  Coseva — the cursor over an input (`coseva/src/engine/cursor.rs`,
  `engine/access.rs`) and the parser of a whole slice (`slice_parser.rs`).

  * `advance` positions on the next record, which a view then materialises;
  * `SliceParser.records`: every record of a document, read one by one.
-/
import Coseva.Framing

namespace Coseva

namespace Engine

variable (cfg : ParserSettings) (F : CsvFormat) (input : Bytes)

/-! ## Moving to the next record -/

/-- `ensure_headers`. -/
def ensureHeaders : Parse Unit := do
  let e ← get
  if e.headersInitialized then pure ()
  else do
    set { e with headersInitialized := true }
    if cfg.headers = .firstRecord then do
      let _ ← nextPhysicalRecord cfg input true
      pure ()
    else pure ()

/-- `settle`: consume a record that was advanced to but never viewed. -/
def settle : Parse Unit := do
  let e ← get
  if some e.location = e.cursorStart then do
    set { e with recordIndex := e.cursorIndex }
    let _ ← parsePositionedRecord cfg F input false
    pure ()
  else pure ()

/-- The cursor, without the records it passes over. -/
def skipToRecord (e : Engine) : Engine :=
  if cfg.skipsRecords then
    let resumed :=
      match e.resume.recordStart with
      | some start => if !e.resume.ignored && start ≤ input.length then max e.location start
        else e.location
      | none => e.location
    skipIgnoredRecords cfg input { e with location := resumed }
  else e

/-- `position`. -/
def position : Parse Bool := do
  modify (skipToRecord cfg input)
  let e ← get
  if e.location = input.length then do
    set { e with cursorStart := none }
    pure false
  else do
    set { e with cursorStart := some e.location, cursorIndex := e.recordIndex, cursorEnd := none }
    pure true

/-- `advance`. -/
def advance : Parse Bool := do
  checkFailed input
  ensureHeaders cfg input
  settle cfg F input
  position cfg input

/-- `rewind_to_current`. -/
def rewindToCurrent : Parse Unit := fun e =>
  match e.cursorStart with
  | none => .error .panic e
  | some start =>
    if e.location ≠ start then .ok () { e with location := start, recordIndex := e.cursorIndex }
    else .ok () e

/-- `materialize_full`, when no record is staged. -/
def materializeFull : Parse (ℕ × ℕ × ℕ) := do
  let e ← get
  match e.cursorStart, e.cursorEnd with
  | none, _ => throw .panic
  | some start, some stop => pure (start, stop, e.cursorIndex)
  | some _, none => do
    rewindToCurrent
    let range ← parsePositionedRecord cfg F input false
    modify fun e => { e with cursorEnd := some range.2.1 }
    pure range

/-- `record`. -/
def record : Parse Record := do
  let range ← materializeFull cfg F input
  currentRecord input range

end Engine

/-! ## The parser of a slice -/

namespace Engine

/-- `owned_parser_for`. -/
def ownedParserFor (cfg : ParserSettings) (checkFieldLimit : Bool) : Option OwnedParser :=
  let eligible := cfg.limits = .default ∧ cfg.fieldCount = .flexible ∧ cfg.trim = .none
    ∧ cfg.blankRecords = .preserve ∧ cfg.syntax' = .strict ∧ cfg.skipInitialSpace = false
    ∧ cfg.nulls = .none
  if eligible then
    if cfg.dialect = .csv then some (.default checkFieldLimit)
    else if cfg.dialect = .tsv then some (.named 9 false checkFieldLimit)
    else if cfg.dialect = .semicolon then some (.named 59 false checkFieldLimit)
    else if cfg.dialect = .pipe then some (.named 124 false checkFieldLimit)
    else if cfg.dialect = .backslashCsv then some (.named 44 true checkFieldLimit)
    else if cfg.dialect = .backslashTsv then some (.named 9 true checkFieldLimit)
    else none
  else none

/-- `quoted_prefix_parser_for` and its siblings: offered where the whole-record
    parser of the default dialect is. -/
def prefixParserFor (cfg : ParserSettings) (ownedParser : Option OwnedParser)
    (parser : PrefixParser) : Option PrefixParser :=
  if ownedParser.isNone ∨ cfg.dialect ≠ .csv then none else some parser

/-- `from_config_with_owned_parser`. -/
def fromConfigWithOwnedParser (cfg : ParserSettings) (input : Bytes)
    (ownedParser : Option OwnedParser) (checkFieldLimit : Bool) : Engine where
  location := if cfg.readBom = .detect ∧ bom.isPrefixOf input then 3 else 0
  lineBase := 1
  lineOrigin := 0
  foldedUpto := 0
  foldedLines := 0
  recordIndex := 0
  expectedFields :=
    match cfg.fieldCount, cfg.headers with
    | .matchFirst, .provided record => some record.length
    | _, _ => none
  headersInitialized := decide (cfg.headers ≠ .firstRecord)
  spans := .empty
  ownedParser
  quotedPrefixParser := prefixParserFor cfg ownedParser (.quoted checkFieldLimit)
  interiorPrefixParser := prefixParserFor cfg ownedParser (.interior checkFieldLimit)
  interiorHandoffParser := prefixParserFor cfg ownedParser (.structural checkFieldLimit)
  multiQuoteParser := prefixParserFor cfg ownedParser (.structural checkFieldLimit)
  interiorQuotes := 0
  asciiStructuralBackoff := 0
  asciiStructuralSucceeded := false
  cursorStart := none
  cursorIndex := 0
  cursorEnd := none
  resume := .new
  failed := false
  terminated := false

/-- `from_config`. -/
def fromConfig (cfg : ParserSettings) (input : Bytes) : Engine :=
  let checkFieldLimit := decide (input.length > Limits.default.maxFieldBytes)
  fromConfigWithOwnedParser cfg input (ownedParserFor cfg checkFieldLimit) checkFieldLimit

end Engine

namespace SliceParser

variable (cfg : ParserSettings) (F : CsvFormat) (input : Bytes)

/-- `SliceParser::build`, of a valid format. -/
def build : Except Fault Engine :=
  if cfg.readBom = .reject ∧ bom.isPrefixOf input then
    .error (.error .rejectedBom ⟨0, 1, 0, 0⟩)
  else .ok (.fromConfig cfg input)

/-- Move to the next record and borrow it (`next_line`, `Line::record`). -/
def nextRecord : Parse (Option Record) := do
  if ← Engine.advance cfg F input then some <$> Engine.record cfg F input else pure none

/-- The records from the cursor on, at most `fuel` of them. -/
def recordsFrom : (fuel : ℕ) → Engine → Except Fault (List Record)
  | 0, _ => .error .stuck
  | fuel + 1, e =>
    match nextRecord cfg F input e with
    | .error fault _ => .error fault
    | .ok none _ => .ok []
    | .ok (some record) e => (record :: ·) <$> recordsFrom fuel e

/-- Every record of a document, as its fields. -/
def records : Except Fault (List (List Field)) := do
  let e ← build cfg input
  let records ← recordsFrom cfg F input (input.length + 1) e
  pure (records.map (·.fields))

end SliceParser

end Coseva
