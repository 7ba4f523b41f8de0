/-
  Coseva — the parser of a stream that it reads itself (`coseva/src/io_parser.rs`).

  * `Answer`: what a call of `Read::read` answers;
  * `IoParser`: the window of the stream, and the engine over it;
  * `compact`, `refill`: the window loses what is no longer needed, and gets more of the stream;
  * `advance`, `readByteRecordInto`, `readTextRecordInto`: the calls;
  * `IoParser.Op`, `IoParser.run`: calls one after the other.
-/
import Coseva.Line

namespace Coseva

/-- What `Read::read` answers: bytes of the stream, none at its end; more of them than the buffer
    holds; or an error. -/
inductive Answer where
  | bytes (given : Bytes)
  | overrun
  | interrupted
  | failed
  deriving DecidableEq, Repr

/-- The bytes that get into the window. -/
def Answer.given : Answer → Bytes
  | bytes given => given
  | overrun | interrupted | failed => []

/-- How a call fails: as one on a window does, or with `Error::io`. -/
inductive IoFault where
  | window (fault : WindowFault)
  | io (answer : Answer) (location : Location)
  deriving DecidableEq, Repr

/-- A panic of the source, and no error. -/
def IoFault.panics : IoFault → Bool
  | window fault => fault.panics
  | io _ _ => false

/-- `IoParser`, but for the spare capacity of its window and what a filter has scanned.  `input` is
    what the reader is going to answer, and after that the end of the stream. -/
structure IoParser where
  input : List Answer
  /-- `window[..filled]` -/
  window : Bytes
  core : WindowEngine
  consumed : ℕ
  eof : Bool
  failed : Bool
  done : Bool
  eager : Bool
  bomResolved : Bool
  bomRejected : Bool
  discoversHeaders : Bool
  headersResolved : Bool
  deriving DecidableEq, Repr

/-- A computation on a parser. -/
abbrev Stream := EStateM IoFault IoParser

namespace IoParser

variable (cfg : ParserSettings) (F : CsvFormat)

/-- `from_config_for`. -/
def fromConfig (input : List Answer) : IoParser where
  input
  window := []
  core := .fromConfigWindowed cfg
  consumed := 0
  eof := false
  failed := false
  done := false
  eager := cfg.dialect.comment.isSome || cfg.blankRecords == .skip
  bomResolved := cfg.readBom == .preserve
  bomRejected := false
  discoversHeaders := cfg.headers == .firstRecord
  headersResolved := false

/-- `location`. -/
def location (p : IoParser) : Location :=
  ⟨p.consumed + p.core.location,
    physicalLine p.window p.core.lineBase p.core.lineOrigin p.core.location, p.core.recordIndex, 0⟩

/-- `is_done`. -/
def isDone (p : IoParser) : Bool := p.failed || p.core.failed || p.done

/-- `check_failed`. -/
def checkFailed : Stream Unit := fun p =>
  if p.failed then .error (.window (.fault (.error .parserFailed p.location))) p else .ok () p

/-- `fail`. -/
def fail {α : Type} (fault : IoFault) : Stream α := fun p => .error fault { p with failed := true }

/-- `rejected_bom`. -/
def rejectedBom : WindowFault := .fault (.error .rejectedBom ⟨0, 1, 0, 0⟩)

/-- A call on the engine, whose errors are those of the stream and poison the parser. -/
def calling {α : Type} (m : Window α) : Stream α := fun p =>
  match m p.core with
  | .ok a core => .ok a { p with core }
  | .error fault core => .error (.window (fault.rebase p.consumed)) { p with core, failed := true }

/-! ## The window -/

/-- `compact`. -/
def compact (p : IoParser) : IoParser :=
  let anchor := p.core.ioWindowAnchor
  { p with
    core := p.core.shift p.window anchor
    window := p.window.drop anchor
    consumed := p.consumed + anchor }

/-- The loop of `refill`, which tries an interrupted read again. -/
def readLoop : List Answer → Stream Unit
  | [], p => .ok () { p with input := [], eof := true }
  | .interrupted :: input, p => readLoop input p
  | .bytes given :: input, p =>
    if given.isEmpty then .ok () { p with input, eof := true }
    else .ok () { p with input, window := p.window ++ given }
  | answer :: input, p => .error (.io answer p.location) { p with input, failed := true }

/-- `refill`. -/
def refill : Stream Unit := do
  let p ← get
  if p.eof then pure ()
  else do
    set p.compact
    readLoop p.input

/-- The loop of `resolve_bom`. -/
def refillForBom : (fuel : ℕ) → Stream Unit
  | 0 => throw (.window (.fault .stuck))
  | fuel + 1 => do
    let p ← get
    if p.window.length < bom.length && !p.eof then do
      refill
      refillForBom fuel
    else pure ()

/-- `resolve_bom`. -/
def resolveBom : Stream Unit := do
  let p ← get
  if p.bomResolved then pure ()
  else do
    refillForBom (p.input.length + 2)
    let p ← get
    set { p with bomResolved := true }
    if !bom.isPrefixOf p.window then pure ()
    else if cfg.readBom = .reject then modify fun p => { p with bomRejected := true }
    else modify fun p => { p with core := p.core.skipDetectedBom p.window }

/-- The loop around a call, which is made again behind each refill that it asks for. -/
def refilling {α : Type} (call : Bytes → Bool → Window (Advance α)) : (fuel : ℕ) → Stream (Option α)
  | 0 => throw (.window (.fault .stuck))
  | fuel + 1 => do
    let p ← get
    match ← calling (call p.window p.eof) with
    | .record read => pure (some read)
    | .done => pure none
    | .needMore => do
      refill
      refilling call fuel

/-- `headers_window`, as an outcome. -/
def headersOutcome (window : Bytes) (eof : Bool) : Window (Advance Unit) :=
  (fun settled => if settled then .record () else .needMore) <$> Window.headersWindow cfg window eof

/-- `ensure_headers`. -/
def ensureHeaders : Stream Unit := do
  checkFailed
  resolveBom cfg
  let p ← get
  if p.headersResolved then pure ()
  else if p.bomRejected && p.discoversHeaders then fail (.window rejectedBom)
  else do
    let _ ← refilling (headersOutcome cfg) (p.input.length + 2)
    modify fun p => { p with headersResolved := true }

section calls

variable (hvalid : cfg.dialect.invalidity = none)

/-! ## The calls -/

/-- The headers of `advance` and `read_text_record_into`, which are looked at once. -/
def settleHeaders : Stream Unit := do
  let p ← get
  if !p.headersResolved || !p.bomResolved || p.failed then ensureHeaders cfg else pure ()

/-- The scan of `advance`: behind a rejected mark the record is left to its view. -/
def scan (eager : Bool) (window : Bytes) (eof : Bool) : Window (Advance Unit) :=
  if eager then Window.advanceWindowEagerly cfg F window hvalid eof
  else Window.advanceWindowLazily cfg F window hvalid eof

/-- What the loops return at the end of the stream. -/
def notingEnd {α : Type} : Option α → Stream (Option α)
  | some read => pure (some read)
  | none => do
    modify fun p => { p with done := true }
    pure none

/-- `advance`. -/
def advance : Stream Bool := do
  settleHeaders cfg
  let p ← get
  let found ← refilling (scan cfg F hvalid (p.eager && !p.bomRejected)) (p.input.length + 2)
  let found ← notingEnd found
  pure found.isSome

/-- The loops of `read_byte_record_into` and `read_text_record_into`, behind the headers. -/
def readRecord (text : Bool) : Stream (Option StreamRecord) := do
  let p ← get
  if p.bomRejected then fail (.window rejectedBom)
  else do
    let read ← refilling (fun window eof => Window.readWindow cfg F window hvalid text eof)
      (p.input.length + 2)
    let read ← notingEnd read
    let p ← get
    pure (read.map fun record => .owned (record.rebase p.consumed))

/-- `read_byte_record_into`. -/
def readByteRecordInto : Stream (Option StreamRecord) := do
  ensureHeaders cfg
  readRecord cfg F hvalid false

/-- `read_text_record_into`. -/
def readTextRecordInto : Stream (Option StreamRecord) := do
  settleHeaders cfg
  readRecord cfg F hvalid true

/-- A view of `current_line`. -/
def viewLine (view : Line.View) : Stream StreamRecord := do
  let p ← get
  if p.bomRejected then fail (.window (rejectedBom.rebase p.consumed))
  else do
    let seen ← calling (view.read cfg F p.window)
    pure (seen.rebase p.consumed)

/-- `next_line`, and what `view` makes of the line. -/
def nextLine (view : Option Line.View) : Stream (Option StreamRecord) := do
  if ← advance cfg F hvalid then
    match view with
    | none => pure none
    | some view => some <$> viewLine cfg F view
  else pure none

/-- What is asked of a parser: a line, of which one view is taken at most, or a record. -/
inductive Op where
  | nextLine (view : Option Line.View)
  | readByteRecord
  | readTextRecord
  deriving DecidableEq, Repr

def Op.run : Op → Stream (Option StreamRecord)
  | nextLine view => IoParser.nextLine cfg F hvalid view
  | readByteRecord => readByteRecordInto cfg F hvalid
  | readTextRecord => readTextRecordInto cfg F hvalid

/-- Calls one after the other, also behind calls that fail, with what each returns, unless one panics. -/
def run : List Op → IoParser → Option (List (Except IoFault (Option StreamRecord)) × IoParser)
  | [], p => some ([], p)
  | op :: ops, p =>
    match op.run cfg F hvalid p with
    | .ok seen p => do
      let (rest, p) ← run ops p
      pure (.ok seen :: rest, p)
    | .error fault p =>
      if fault.panics then none
      else do
        let (rest, p) ← run ops p
        pure (.error fault :: rest, p)

end calls

/-- The records that calls have returned. -/
def returned : List (Except IoFault (Option StreamRecord)) → List StreamRecord
  | [] => []
  | .ok seen :: outcomes => seen.toList ++ returned outcomes
  | .error _ :: outcomes => returned outcomes

end IoParser

end Coseva
