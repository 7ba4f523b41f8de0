/-
  Coseva — the parser of a stream that is lent chunk by chunk (`coseva/src/push.rs`).

  * `PushParser`: the window of the stream, the engine over it, and what is left of earlier calls;
  * `Chunk`: the loan of a chunk, which is absorbed into the window or read in place;
  * `Chunk.Op`: what is asked of a chunk;
  * `Loan`, `PushParser.run`: chunks lent one after the other, each drained and settled.
-/
import Coseva.Line

namespace Coseva

/-- `PushParser`, but for the names of its headers. -/
structure PushParser where
  window : Bytes
  core : WindowEngine
  consumed : ℕ
  finished : Bool
  failed : Bool
  deferred : Option WindowFault
  bomResolved : Bool
  headersResolved : Bool
  /-- `need_more_len`, but for `NO_REFUSAL` -/
  needMoreLen : Option ℕ
  deriving DecidableEq, Repr

/-- `Chunk`, with the parser that it borrows. -/
structure Chunk extends PushParser where
  input : Bytes
  absorbed : ℕ
  stride : ℕ
  borrowed : Bool
  directText : Bool
  region : Bytes
  deriving DecidableEq, Repr

/-- A computation on a parser. -/
abbrev Push := EStateM WindowFault PushParser

/-- A computation on a chunk. -/
abbrev Lend := EStateM WindowFault Chunk

/-- `ABSORB_STRIDE`. -/
def absorbStride : ℕ := 64

/-- `Absorbed`. -/
inductive Absorbed where
  | drained
  | boundary
  | interior
  deriving DecidableEq, Repr

namespace PushParser

variable (cfg : ParserSettings) (F : CsvFormat)

/-- `from_settings`. -/
def fromSettings : PushParser where
  window := []
  core := .fromConfigWindowed cfg
  consumed := 0
  finished := false
  failed := false
  deferred := none
  bomResolved := cfg.readBom == .preserve
  headersResolved :=
    match cfg.headers with
    | .provided _ => true
    | _ => false
  needMoreLen := none

/-- `location_in`. -/
def locationIn (p : PushParser) (buffer : Bytes) : Location :=
  ⟨p.consumed + p.core.location,
    physicalLine buffer p.core.lineBase p.core.lineOrigin p.core.location, p.core.recordIndex, 0⟩

/-- `location`. -/
def location (p : PushParser) : Location := p.locationIn p.window

/-- `is_done`. -/
def isDone (p : PushParser) : Bool :=
  p.failed || (p.finished && (p.core.failed || decide (p.core.location ≥ p.window.length)))

/-- `finish`. -/
def finish (p : PushParser) : PushParser := { p with finished := true }

/-- `fail`. -/
def fail {α : Type} (fault : WindowFault) : Push α := fun p =>
  .error fault { p with failed := true }

/-- A computation on the engine, whose errors poison the parser. -/
def failing {α : Type} (rebase : WindowFault → WindowFault) (m : Window α) : Push α := fun p =>
  match m p.core with
  | .ok a core => .ok a { p with core }
  | .error fault core => .error (rebase fault) { p with core, failed := true }

/-- `note_advance`, of what a call on the engine returns. -/
def noteAdvance {α : Type} (m : Window (Advance α)) : Push (Advance α) := do
  let p ← get
  match ← failing (.rebase p.consumed) m with
  | .needMore => pure .needMore
  | outcome => do
    modify fun p => { p with headersResolved := true }
    pure outcome

/-- `check_failed_in`. -/
def checkFailedIn (buffer : Bytes) : Push Unit := fun p =>
  if p.failed then
    match p.deferred with
    | some fault => .error fault { p with deferred := none }
    | none => .error (.fault (.error .parserFailed (p.locationIn buffer))) p
  else .ok () p

/-- `resolve_bom_in`, where the mark is not resolved. -/
def resolveBomIn (buffer : Bytes) (atEof : Bool) : Push Unit := do
  let p ← get
  if p.bomResolved then pure ()
  else if buffer.length < bom.length then
    if !atEof && buffer.isPrefixOf bom then pure ()
    else set { p with bomResolved := true }
  else do
    set { p with bomResolved := true }
    if !bom.isPrefixOf buffer then pure ()
    else if cfg.readBom = .reject then fail (.fault (.error .rejectedBom ⟨0, 1, 0, 0⟩))
    else modify fun p => { p with core := p.core.skipDetectedBom buffer }

/-- `headers_settled`. -/
def headersSettled (p : PushParser) : Bool := p.headersResolved || cfg.headers == .none

/-- `record_limit_error`. -/
def recordLimitError (p : PushParser) (buffer : Bytes) : WindowFault :=
  let start := min p.core.location buffer.length
  let retained := (buffer.drop start).take (cfg.limits.maxRecordBytes + 1)
  let cut := start + retained.length
  let location := p.locationIn buffer
  .fault (.error (.recordTooLarge cfg.limits.maxRecordBytes) { location with
    line := location.line + (slice buffer start cut).count 10
    byte := p.consumed + cut })

section parser

variable (hvalid : cfg.dialect.invalidity = none)

/-- `window_advance`. -/
def windowAdvance (atEof : Bool) : Push (Advance Unit) := do
  let p ← get
  match ← noteAdvance (Window.advanceWindow cfg F p.window hvalid atEof) with
  | .needMore => do
    if atEof then pure () else modify fun p => { p with needMoreLen := some p.window.length }
    pure .needMore
  | outcome => pure outcome

/-- `oversized_record_error`, of the parser's own window. -/
def oversizedRecordError {α : Type} : Push α := do
  let p ← get
  let _ ← failing (.rebase p.consumed) (Window.advanceWindow cfg F p.window hvalid false)
  let p' ← get
  fail (recordLimitError cfg p' p.window)

end parser

end PushParser

namespace Chunk

variable (cfg : ParserSettings) (F : CsvFormat)

/-- What the parser does of itself. -/
def lend {α : Type} (m : Push α) : Lend α := fun c =>
  match m c.toPushParser with
  | .ok a p => .ok a { c with toPushParser := p }
  | .error fault p => .error fault { c with toPushParser := p }

/-- `PushParser::chunk`. -/
def offer (p : PushParser) (input : Bytes) : Chunk :=
  let borrowed := p.window.isEmpty
  { p with
    input
    absorbed := 0
    stride := 0
    borrowed
    directText := borrowed && p.headersResolved && p.bomResolved && !p.failed
    region := input }

/-- The bytes that records are read from. -/
def buffer (c : Chunk) : Bytes := if c.borrowed then c.region else c.window

/-- `pending_window_bytes`. -/
def pendingWindowBytes (c : Chunk) : ℕ := c.window.length - c.core.location

/-- `enter_borrowed`. -/
def enterBorrowed (c : Chunk) : Chunk :=
  let leftover := c.pendingWindowBytes
  let parsed := c.window.length - leftover
  let absorbed := c.absorbed - leftover
  { c with
    core := c.core.release.shift c.window parsed
    consumed := c.consumed + parsed
    window := []
    needMoreLen := none
    absorbed
    region := c.input.drop absorbed
    borrowed := true
    directText := c.headersResolved && c.bomResolved && !c.failed }

/-- Where the next absorption ends, and whether it may bring a record ending: a lead byte that is
    already in the window may get its tail. -/
def absorption (c : Chunk) (room : ℕ) : ℕ × Bool :=
  let rest := c.input.drop c.absorbed
  let terminator := cfg.dialect.recordEnding.byte
  let scanFrom := min c.stride rest.length
  let found := find1 terminator (rest.drop scanFrom)
  let tailFrom := c.window.length - cfg.dialect.endingTail.asSlice.length
  let straddling := (c.window.drop tailFrom).contains terminator
  let boundary :=
    match found with
    | some at' => min (scanFrom + at' + 2) rest.length
    | none => rest.length
  let take := min boundary room
  (take, c.stride == 0 && found.isNone && take == rest.length && !straddling)

section chunk

variable (hvalid : cfg.dialect.invalidity = none)

/-- `absorb`. -/
def absorb : Lend Absorbed := do
  let c ← get
  let room := cfg.limits.maxRecordBytes + 1 - c.pendingWindowBytes
  if (c.input.drop c.absorbed).isEmpty then pure .drained
  else if room = 0 then lend (PushParser.oversizedRecordError cfg F hvalid)
  else do
    let (take, interior) := c.absorption cfg room
    set { c with
      stride := max (c.stride * 2) absorbStride
      window := c.window ++ (c.input.drop c.absorbed).take take
      absorbed := c.absorbed + take }
    pure (if interior then .interior else .boundary)

/-- `advance_borrowed`. -/
def advanceBorrowed : Lend Bool := do
  let c ← get
  lend (PushParser.checkFailedIn c.region)
  lend (PushParser.resolveBomIn cfg c.region c.finished)
  let outcome ← lend (PushParser.noteAdvance
    (Window.advanceWindow cfg F c.region hvalid c.finished))
  pure (outcome == .record ())

/-- Whether the window holds a record: one of a length that was refused before holds none. -/
def windowRound (atEof : Bool) : Lend Bool := do
  let c ← get
  if !atEof && c.needMoreLen == some c.window.length then pure false
  else do
    let outcome ← lend (PushParser.windowAdvance cfg F hvalid atEof)
    pure (outcome == .record ())

/-- The loop of `advance_absorbing`. -/
def advanceAbsorbing : (fuel : ℕ) → Lend Bool
  | 0 => throw (.fault .stuck)
  | fuel + 1 => do
    let c ← get
    let atEof := c.finished && c.absorbed == c.input.length
    lend (PushParser.checkFailedIn c.window)
    lend (PushParser.resolveBomIn cfg c.window atEof)
    if ← windowRound cfg F hvalid atEof then pure true
    else do
      let c ← get
      if c.pendingWindowBytes ≤ c.absorbed then do
        set c.enterBorrowed
        advanceBorrowed cfg F hvalid
      else
        match ← absorb cfg F hvalid with
        | .drained => pure false
        | .boundary => advanceAbsorbing fuel
        | .interior =>
          if c.finished then advanceAbsorbing fuel
          else do
            modify fun c => { c with needMoreLen := some c.window.length }
            pure false

/-- `advance`.  Each turn of the loop absorbs a byte. -/
def advance : Lend Bool := do
  let c ← get
  if c.borrowed then advanceBorrowed cfg F hvalid
  else advanceAbsorbing cfg F hvalid (c.input.length + 1)

/-! ## Reading -/

/-- `next_line`, and what `view` makes of the line. -/
def nextLine (view : Option Line.View) : Lend (Option StreamRecord) := do
  if ← advance cfg F hvalid then do
    let c ← get
    match view with
    | none => pure none
    | some view => do
      let seen ← lend (PushParser.failing (.rebase c.consumed) (view.read cfg F c.buffer))
      pure (some (seen.rebase c.consumed))
  else pure none

/-- The views of `read_byte_record_into` and `read_text_record_into`, behind `advance`. -/
def readAdvanced (text : Bool) : Lend (Option StreamRecord) := do
  if ← advance cfg F hvalid then do
    let c ← get
    let view := if text then Line.View.textRecord else Line.View.byteRecord
    -- the error is not rebased
    let seen ← lend (PushParser.failing id (view.read cfg F c.buffer))
    modify fun c => if text then { c with
      directText := c.borrowed && c.headersResolved && c.bomResolved && !c.failed } else c
    pure (some (seen.rebase c.consumed))
  else pure none

/-- What a read of a window returns. -/
def readOutcome (consumed : ℕ) : Advance OwnedRecord → Option StreamRecord
  | .record record => some (.owned (record.rebase consumed))
  | .done | .needMore => none

/-- The reads of a borrowed chunk whose headers are settled. -/
def readBorrowed (text : Bool) : Lend (Option StreamRecord) := do
  let c ← get
  lend (PushParser.checkFailedIn c.region)
  lend (PushParser.resolveBomIn cfg c.region c.finished)
  let outcome ← lend (PushParser.noteAdvance
    (Window.readWindow cfg F c.region hvalid text c.finished))
  modify fun c => if text && (readOutcome c.consumed outcome).isSome then { c with
    directText := c.headersResolved && c.bomResolved && !c.failed } else c
  pure (readOutcome c.consumed outcome)

/-- `read_byte_record_into`. -/
def readByteRecordInto : Lend (Option StreamRecord) := do
  let c ← get
  if c.borrowed && c.headersSettled cfg then readBorrowed cfg F hvalid false
  else readAdvanced cfg F hvalid false

/-- `read_text_record_into`. -/
def readTextRecordInto : Lend (Option StreamRecord) := do
  let c ← get
  if c.directText then do
    let outcome ← lend (PushParser.failing (.rebase c.consumed)
      (Window.readWindow cfg F c.region hvalid true c.finished))
    pure (readOutcome c.consumed outcome)
  else if c.borrowed && c.headersSettled cfg then readBorrowed cfg F hvalid true
  else readAdvanced cfg F hvalid true

/-! ## The end of a loan -/

/-- The loop of `settle` over an absorbing chunk, which keeps an error for the next call. -/
def drain : (fuel : ℕ) → Chunk → Chunk
  | 0, c => c
  | fuel + 1, c =>
    match absorb cfg F hvalid c with
    | .ok .drained c => c
    | .ok _ c => drain fuel c
    | .error fault c => { c with deferred := some (c.deferred.getD fault) }

/-- `settle`: the tail of a borrowed chunk goes into the window, as much of it as a record may have. -/
def settle (c : Chunk) : Chunk :=
  if c.borrowed then
    let core := c.core.release
    let anchor := core.windowAnchor
    let take := (c.region.drop anchor).take (cfg.limits.maxRecordBytes + 1)
    { c with
      core := core.shift c.region anchor
      consumed := c.consumed + anchor
      window := take
      needMoreLen := none
      absorbed := c.absorbed + anchor + take.length
      region := c.input.drop (c.absorbed + anchor + take.length) }
  else if !c.failed && decide (c.absorbed < c.input.length) then
    drain cfg F hvalid (c.input.length + 1) c
  else c

end chunk

/-- What is asked of a chunk: a line, of which one view is taken at most, or a record. -/
inductive Op where
  | nextLine (view : Option Line.View)
  | readByteRecord
  | readTextRecord
  deriving DecidableEq, Repr

variable (hvalid : cfg.dialect.invalidity = none)

def Op.run : Op → Lend (Option StreamRecord)
  | nextLine view => Chunk.nextLine cfg F hvalid view
  | readByteRecord => readByteRecordInto cfg F hvalid
  | readTextRecord => readTextRecordInto cfg F hvalid

/-- Calls, with the records that they return, up to the first that fails: behind it a text read that
    goes straight to the region would read on. -/
def runOps : List Op → Chunk → Option (List StreamRecord × Chunk)
  | [], c => some ([], c)
  | op :: ops, c =>
    match op.run cfg F hvalid c with
    | .ok seen c => do
      let (rest, c) ← runOps ops c
      pure (seen.toList ++ rest, c)
    | .error fault c => if fault.panics then none else some ([], c)

end Chunk

namespace PushParser

/-- A chunk that is lent, behind `finish` for the last one, and the calls on it. -/
structure Loan where
  finish : Bool
  bytes : Bytes
  ops : List Chunk.Op
  deriving DecidableEq, Repr

/-- A parser, the bytes that it has taken, those with the rest of the last chunk, and the records
    that it has returned. -/
structure Session where
  parser : PushParser
  stream : Bytes
  offered : Bytes
  seen : List StreamRecord
  deriving DecidableEq, Repr

variable (cfg : ParserSettings) (F : CsvFormat) (hvalid : cfg.dialect.invalidity = none)

/-- The loan of one chunk, up to the first call that fails: `done` says how much of it was taken. -/
def lendChunk (s : Session) (loan : Loan) : Option Session := do
  let parser := if loan.finish then s.parser.finish else s.parser
  let (seen, c) ← Chunk.runOps cfg F hvalid loan.ops (Chunk.offer parser loan.bytes)
  let c := Chunk.settle cfg F hvalid c
  pure ⟨c.toPushParser, s.stream ++ c.input.take c.absorbed, s.stream ++ loan.bytes, s.seen ++ seen⟩

/-- Chunks lent one after the other, until the parser has failed, and unless a call panics. -/
def run : List Loan → Session → Option Session
  | [], s => some s
  | loan :: loans, s => do
    let s ← lendChunk cfg F hvalid s loan
    if s.parser.failed then pure s else run loans s

/-- A parser to which nothing was lent. -/
def start : Session := ⟨fromSettings cfg, [], [], []⟩

end PushParser

end Coseva
