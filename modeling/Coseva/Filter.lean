/-
  Coseva — predicates over a column, and how a parser skips towards a record that one may accept
  (`coseva/src/filter.rs`, `engine.rs`, `engine/cursor.rs`, `engine/access.rs`, `io_parser.rs`).

  * `Predicate`: one column against a literal;
  * `skipLiteral`: the literal, where the raw input may be searched for it;
  * `skipTowardLiteral`: the skip over an input that is there as a whole;
  * `skipToCandidate`: the skip over a window, which does not search it twice.
-/
import Coseva.HeaderCache
import Coseva.IoParser
import Coseva.Search

namespace Coseva

/-- `MatchKind`. -/
inductive MatchKind where
  | equals
  | contains
  | startsWith
  | endsWith
  deriving DecidableEq, Repr

/-- `Predicate`, but for its set of bytes. -/
structure Predicate where
  column : Column
  kind : MatchKind
  literal : Bytes

/-- `FILTER_BACKOFF`. -/
def filterBackoff : ℕ := 16

/-- `rfind1`. -/
def rfind1 (needle : UInt8) (input : Bytes) : Option ℕ :=
  (input.reverse.findIdx? (· == needle)).map (input.length - 1 - ·)

section literals

variable (lanes : Search.Lanes)

/-- The search ends, and without a fault. -/
theorem findLiteral_noFault (needle input : Bytes) (fault : SearchFault) :
    Search.findLiteral lanes (Search.enoughFuel needle input) needle input ≠ .error fault := by
  obtain ⟨found, hrun, -⟩ := Search.findLiteral_ok lanes needle input (Nat.le_refl _)
  rw [hrun]
  exact fun h => by cases h

/-- What `find_literal` returns. -/
def firstOf (needle input : Bytes) : Option ℕ :=
  match hrun : Search.findLiteral lanes (Search.enoughFuel needle input) needle input with
  | .ok found => found
  | .error fault => absurd hrun (findLiteral_noFault lanes needle input fault)

namespace Predicate

/-- `matches_field`. -/
def matchesField (p : Predicate) : Option Bytes → Bool
  | none => false
  | some field =>
    match p.kind with
    | .equals => field == p.literal
    | .contains => (firstOf lanes p.literal field).isSome
    | .startsWith => p.literal.isPrefixOf field
    | .endsWith => p.literal.isSuffixOf field

/-- `is_skippable`. -/
def isSkippable (p : Predicate) (structural : List UInt8) : Bool :=
  !p.literal.isEmpty && !(structural ++ [13, 10]).any p.literal.contains

/-- `skip_literal`. -/
def skipLiteral (settings : FormatSettings) (p : Predicate) : Option Bytes :=
  let d := settings.dialect
  if d.comment.isSome || settings.blankRecords == .skip || d.escape != .doubleQuote
      || d.recordEnding == .crLf || d.multibyte then none
  else if p.isSkippable [d.delimiter, d.quote, d.recordEnding.byte] then some p.literal
  else none

end Predicate

end literals

/-- A predicate, as a call is given it: what the headers answer for the name of a column, and how
    many candidates the call may look at behind the first. -/
structure Filter where
  predicate : Predicate
  lookup : Bytes → Option ℕ
  fuel : ℕ

/-- `resolve_filter_column`. -/
def Filter.column (f : Filter) : Option ℕ :=
  match f.predicate.column with
  | .index index => some index
  | .name name => f.lookup name

/-! ## The skips -/

/-- `skip_records`. -/
def Engine.skipRecords (e : Engine) (bytes records : ℕ) : Engine :=
  { e with
    location := e.location + bytes
    recordIndex := e.recordIndex + records
    cursorStart := none
    cursorEnd := none
    resume := .new }

/-- What a filter over an input that is there as a whole keeps of its search: `filter_backoff`, over
    the calls, and `pending`, over one. -/
structure Hint where
  backoff : ℕ
  pending : Option ℕ
  deriving DecidableEq, Repr

variable (lanes : Search.Lanes) (cfg : ParserSettings) (F : CsvFormat)

/-- `seek_candidate`: where the literal is, and whether records were skipped.  Behind a quote the
    record endings could not be counted. -/
def seekCandidate (input literal : Bytes) (e : Engine) : ℕ × Bool × Engine :=
  let rest := input.drop e.location
  let hit :=
    match firstOf lanes literal rest with
    | some found => e.location + found
    | none => input.length
  let skipped := slice input e.location hit
  let terminator := cfg.dialect.recordEnding.byte
  if skipped.contains cfg.dialect.quote then (hit, false, e)
  else
    match rfind1 terminator skipped with
    | none => (hit, false, e)
    | some last =>
      (hit, true, { e with
        location := e.location + last + 1
        recordIndex := e.recordIndex + skipped.count terminator })

/-- `skip_toward_literal`. -/
def skipTowardLiteral (input literal : Bytes) (hint : Hint) (e : Engine) : Hint × Engine :=
  let ahead :=
    match hint.pending with
    | some hit => decide (e.location ≤ hit)
    | none => false
  if !e.headersInitialized || ahead then (hint, e)
  else if hint.backoff > 0 then ({ hint with backoff := hint.backoff - 1 }, e)
  else
    let (hit, skipped, e) := seekCandidate lanes cfg input literal e
    (⟨if skipped then 0 else filterBackoff, some hit⟩, e)

/-- What a filter over a stream keeps of its search: `filter_backoff` and `filter_scanned_to`. -/
structure StreamHint where
  backoff : ℕ
  scannedTo : ℕ
  deriving DecidableEq, Repr

/-- `skip_to_candidate`. -/
def skipToCandidate (literal : Bytes) (hint : StreamHint) (p : IoParser) : StreamHint × IoParser :=
  let d := (cfg.fmt F).dialect
  let start := p.core.location
  let absolute := p.consumed + start
  if p.failed || decide (absolute < hint.scannedTo) || decide (p.window.length ≤ start) then (hint, p)
  else if hint.backoff > 0 then ({ hint with backoff := hint.backoff - 1 }, p)
  else
    let window := p.window.drop start
    let searched :=
      match firstOf lanes literal window with
      | some hit => window.take hit
      | none => window
    let scannedTo := absolute + searched.length
    let target := if searched.contains d.quote then none else rfind1 d.recordEnding.byte searched
    match target with
    | none => (⟨filterBackoff, scannedTo⟩, p)
    | some last =>
      let records := searched.count d.recordEnding.byte
      (⟨hint.backoff, scannedTo⟩, { p with
        core := { p.core with toEngine := p.core.toEngine.skipRecords (last + 1) records } })

end Coseva
