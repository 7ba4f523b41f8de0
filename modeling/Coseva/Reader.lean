/-
  Coseva — what a program asks of a parser (`coseva/src/line.rs`, `iter.rs`): lines, through a filter
  or not, any number of views of a line, typed views among them, and records.

  * `LineView`: a view of a line;
  * `SliceReader`: the parser of an input that is there as a whole (`slice_parser.rs`);
  * `IoReader`: the parser of a stream that it reads itself (`io_parser.rs`);
  * `ChunkReader`: the parser of a stream that is lent chunk by chunk (`push.rs`);
  * `apply`: a call of each of them.
-/
import Coseva.Filter
import Coseva.PushParser

namespace Coseva

open Run

/-- Why a type refuses the fields of a record. -/
inductive TypedError where
  | conversion
  | invalidUtf8
  deriving DecidableEq, Repr

/-- How a call fails: as one on a window does, with `Error::io`, or with what a type reports. -/
inductive ReadFault where
  | window (fault : WindowFault)
  | io (answer : Answer) (location : Location)
  | typed (error : TypedError) (location : Location)
  deriving DecidableEq, Repr

namespace ReadFault

/-- The faults of the parser of a stream. -/
def ofIo : IoFault → ReadFault
  | .window fault => window fault
  | .io answer location => io answer location

/-- `rebase`. -/
def rebase (consumed : ℕ) : ReadFault → ReadFault
  | window fault => window (fault.rebase consumed)
  | io answer location => io answer location
  | typed error location => typed error { location with byte := consumed + location.byte }

/-- A panic of the source, and no error. -/
def panics : ReadFault → Bool
  | window fault => fault.panics
  | io _ _ | typed _ _ => false

/-- An error. -/
def reported (fault : ReadFault) : Bool := !fault.panics

/-- A syntax, limit, width, byte-order-mark or UTF-8 error. -/
def malformed : ReadFault → Bool
  | window fault => !fault.panics
  | typed .invalidUtf8 _ => true
  | io _ _ | typed .conversion _ => false

end ReadFault

/-- What a call delivers. -/
inductive ReadOutcome where
  | nothing
  | line
  | record (record : StreamRecord)
  /-- a value of the type that the fields are decoded to -/
  | value (fields : List Field)
  deriving DecidableEq, Repr

/-- The record that a read returns. -/
def ReadOutcome.ofRead : Option StreamRecord → ReadOutcome
  | some read => record read
  | none => nothing

/-- Whether a line was found. -/
def ReadOutcome.ofFound (found : Bool) : ReadOutcome := if found then line else nothing

/-- A record of the window, as one of the stream. -/
def ReadOutcome.rebase (consumed : ℕ) : ReadOutcome → ReadOutcome
  | .record seen => .record (seen.rebase consumed)
  | other => other

/-- A type that records are decoded to: whether the headers lack one of its columns, and what it
    makes of the fields. -/
structure Target where
  unmapped : Bool
  absorb : List Field → Option TypedError

/-- How a line is decoded. -/
inductive Decoding where
  /-- `decoded` and `decode_into`, of a type that is `fused` for these headers or not -/
  | decoded (fused : Bool)
  /-- `decode_with_mapping` -/
  | mapped
  /-- `deserialized`, which finds the headers `ready` or not -/
  | deserialized (ready : Bool)
  deriving DecidableEq, Repr

/-- A view of a line. -/
inductive LineView where
  | stored (view : Line.View)
  | typed (decoding : Decoding) (target : Target)

section views

variable (cfg : ParserSettings) (F : CsvFormat) (buffer : Bytes)

/-- A computation of the engine. -/
def onWindow {α : Type} (m : Window α) : EStateM ReadFault WindowEngine α :=
  zoom id (fun _ w => w) .window m

/-- What a decoding does in front of the fields. -/
def Decoding.prepare (bomRejected : Bool) (target : Target) :
    Decoding → EStateM ReadFault WindowEngine Unit
  | .decoded fused => do
    onWindow (Window.engine (Engine.ensureHeaders cfg buffer))
    let w ← get
    if target.unmapped then throw (.typed .conversion
      ⟨w.location, physicalLine buffer w.lineBase w.lineOrigin w.location, w.recordIndex, 0⟩)
    else if fused then pure ()
    else onWindow (Window.engine (Engine.checkFailed buffer))
  | .mapped => onWindow (Window.engine (Engine.checkFailed buffer))
  | .deserialized ready => do
    onWindow (Window.engine (Engine.checkFailed buffer))
    if ready then pure ()
    else if bomRejected then throw (.window IoParser.rejectedBom)
    else do
      onWindow (Window.engine (Engine.ensureHeaders cfg buffer))
      onWindow (Window.engine (Engine.checkFailed buffer))

/-- The fields of the current record, and where it is. -/
def materializedFields : EStateM ReadFault WindowEngine (List Field × Location) := do
  let range ← onWindow (Window.materializeFull cfg F buffer)
  let w ← get
  pure (w.spans.resolved buffer,
    ⟨range.1, physicalLine buffer w.lineBase w.lineOrigin range.1, range.2.2, 0⟩)

/-- The call of a view on the engine. -/
def LineView.read (bomRejected : Bool) : LineView → EStateM ReadFault WindowEngine ReadOutcome
  | stored view => .record <$> onWindow (view.read cfg F buffer)
  | typed decoding target => do
    decoding.prepare cfg buffer bomRejected target
    let (fields, location) ← materializedFields cfg F buffer
    match target.absorb fields with
    | none => pure (.value fields)
    | some error => throw (.typed error location)

/-- The views that look at a rejected mark first (`check_bom`). -/
def LineView.checksBom : LineView → Bool
  | stored _ | typed (.decoded _) _ => true
  | typed .mapped _ | typed (.deserialized _) _ => false

/-- `field`. -/
def Window.field (column : ℕ) : Window (Option Bytes) := do
  let _ ← materializeFull cfg F buffer
  let w ← get
  pure ((w.spans.resolved buffer)[column]?.map Field.bytes)

end views

variable (lanes : Search.Lanes) (cfg : ParserSettings) (F : CsvFormat)

/-! ## A slice -/

/-- `SliceParser`: its engine, with `filter_backoff`. -/
structure SliceReader extends WindowEngine where
  filterBackoff : ℕ

namespace SliceReader

variable (input : Bytes)

/-- `from_config`. -/
def fromConfig : SliceReader where
  toEngine := .fromConfig cfg input
  staged := none
  stagedFormOwned := false
  filterBackoff := 0

/-- A call on the engine. -/
def core {α : Type} (m : EStateM ReadFault WindowEngine α) : EStateM ReadFault SliceReader α :=
  zoom toWindowEngine (fun s w => { s with toWindowEngine := w }) id m

/-- `filter_candidate_matches`. -/
def candidateMatches (predicate : Predicate) (column : ℕ) : Window Bool := do
  let range ← Window.engine (Engine.parsePositionedRecord cfg F input false)
  let w ← get
  if predicate.matchesField lanes ((w.spans.resolved input)[column]?.map Field.bytes) then do
    set { w with
      cursorStart := some range.1
      cursorIndex := range.2.2
      cursorEnd := some range.2.1
      staged := none }
    pure true
  else pure false

/-- `advance_with_literal_filter_loop`. -/
def literalFilterLoop (predicate : Predicate) (column : ℕ) (literal : Bytes) :
    (fuel : ℕ) → (pending : Option ℕ) → EStateM ReadFault SliceReader Bool
  | 0, _ => throw (.window (.fault .stuck))
  | fuel + 1, pending => do
    let s ← get
    let (hint, engine) := skipTowardLiteral lanes cfg input literal ⟨s.filterBackoff, pending⟩ s.toEngine
    set { s with toEngine := engine, filterBackoff := hint.backoff }
    if engine.location = input.length then pure false
    else if ← core (onWindow (candidateMatches lanes cfg F input predicate column)) then pure true
    else literalFilterLoop predicate column literal fuel hint.pending

/-- `advance_with_scanning_filter_loop`. -/
def scanningFilterLoop (predicate : Predicate) (column : ℕ) :
    (fuel : ℕ) → EStateM ReadFault SliceReader Bool
  | 0 => throw (.window (.fault .stuck))
  | fuel + 1 => do
    modify fun s => { s with toEngine := Engine.skipIgnoredRecords cfg input s.toEngine }
    let s ← get
    if s.location = input.length then pure false
    else if ← core (onWindow (candidateMatches lanes cfg F input predicate column)) then pure true
    else scanningFilterLoop predicate column fuel

/-- `prepare_advance` and `settle`. -/
def prepareAdvance : Parse Unit := do
  Engine.checkFailed input
  Engine.ensureHeaders cfg input
  Engine.settle cfg F input

/-- `advance_with_filter`. -/
def advanceWithFilter (filter : Filter) : EStateM ReadFault SliceReader Bool := do
  core (onWindow (Window.engine (prepareAdvance cfg F input)))
  modify fun s => { s with cursorStart := none }
  match filter.column, filter.predicate.skipLiteral (cfg.fmt F) with
  | none, _ => pure false
  | some column, some literal =>
    literalFilterLoop lanes cfg F input filter.predicate column literal (filter.fuel + 1) none
  | some column, none =>
    scanningFilterLoop lanes cfg F input filter.predicate column (filter.fuel + 1)

/-- `advance_line`. -/
def advanceLine : Option Filter → EStateM ReadFault SliceReader Bool
  | none => core (onWindow (Window.engine (Engine.advance cfg F input)))
  | some filter => advanceWithFilter lanes cfg F input filter

/-- What is asked of the parser. -/
inductive Op where
  /-- `next_line` and `next_matching_line` -/
  | nextLine (filter : Option Filter)
  /-- a view of the current line -/
  | view (view : LineView)
  /-- `resolve_typed_mapping` -/
  | typedMapping (unmapped : Bool)

/-- The calls that read records. -/
def Op.reads : Op → Bool
  | nextLine _ | view _ => true
  | typedMapping _ => false

/-- A call. -/
def apply : Op → EStateM ReadFault SliceReader ReadOutcome
  | .nextLine filter => .ofFound <$> advanceLine lanes cfg F input filter
  | .view view => core (view.read cfg F input false)
  | .typedMapping unmapped => do
    core (Decoding.prepare cfg input false ⟨unmapped, fun _ => none⟩ (.decoded true))
    pure .nothing

end SliceReader

/-! ## A stream -/

/-- `IoParser`, with what its filters keep. -/
structure IoReader extends IoParser where
  hint : StreamHint

namespace IoReader

variable (hvalid : cfg.dialect.invalidity = none)

/-- `from_config`. -/
def fromConfig (input : List Answer) : IoReader where
  toIoParser := .fromConfig cfg input
  hint := ⟨0, 0⟩

/-- A call on the parser. -/
def parser {α : Type} (m : Stream α) : EStateM ReadFault IoReader α :=
  zoom toIoParser (fun s p => { s with toIoParser := p }) .ofIo m

/-- The loop of `advance_with_filter`. -/
def filterLoop (predicate : Predicate) (column : ℕ) (literal : Option Bytes) :
    (fuel : ℕ) → EStateM ReadFault IoReader Bool
  | 0 => throw (.window (.fault .stuck))
  | fuel + 1 => do
    modify fun s =>
      match literal with
      | some literal =>
        let (hint, p) := skipToCandidate lanes cfg F literal s.hint s.toIoParser
        { s with toIoParser := p, hint }
      | none => s
    if ← parser (IoParser.advance cfg F hvalid) then do
      let s ← get
      let field ← parser (IoParser.calling (Window.field cfg F s.window column))
      if predicate.matchesField lanes field then pure true
      else filterLoop predicate column literal fuel
    else pure false

/-- `advance_with_filter`. -/
def advanceWithFilter (filter : Filter) : EStateM ReadFault IoReader Bool := do
  parser IoParser.checkFailed
  parser (IoParser.ensureHeaders cfg)
  match filter.column with
  | none => pure false
  | some column =>
    filterLoop lanes cfg F hvalid filter.predicate column (filter.predicate.skipLiteral (cfg.fmt F))
      (filter.fuel + 1)

/-- `advance_line`. -/
def advanceLine : Option Filter → EStateM ReadFault IoReader Bool
  | none => parser (IoParser.advance cfg F hvalid)
  | some filter => advanceWithFilter lanes cfg F hvalid filter

/-- A computation on the engine, whose faults poison the parser. -/
def failing {α : Type} (m : EStateM ReadFault WindowEngine α) : EStateM ReadFault IoReader α := fun s =>
  match m s.core with
  | .ok a core => .ok a { s with core }
  | .error fault core => .error (fault.rebase s.consumed) { s with core, failed := true }

/-- What is asked of the parser. -/
inductive Op where
  /-- `next_line` and `next_matching_line` -/
  | nextLine (filter : Option Filter)
  /-- a view of the current line -/
  | view (view : LineView)
  | readByteRecord
  | readTextRecord
  /-- `resolve_typed_mapping` -/
  | typedMapping (unmapped : Bool)

/-- The calls that read records. -/
def Op.reads : Op → Bool
  | nextLine _ | view _ | readByteRecord | readTextRecord => true
  | typedMapping _ => false

/-- A call. -/
def apply : Op → EStateM ReadFault IoReader ReadOutcome
  | .nextLine filter => .ofFound <$> advanceLine lanes cfg F hvalid filter
  | .view view => do
    let s ← get
    if view.checksBom && s.bomRejected then failing (throw (.window IoParser.rejectedBom))
    else .rebase s.consumed <$> failing (view.read cfg F s.window s.bomRejected)
  | .readByteRecord => .ofRead <$> parser (IoParser.readByteRecordInto cfg F hvalid)
  | .readTextRecord => .ofRead <$> parser (IoParser.readTextRecordInto cfg F hvalid)
  | .typedMapping unmapped => do
    parser (IoParser.ensureHeaders cfg)
    failing (Decoding.prepare cfg [] false ⟨unmapped, fun _ => none⟩ (.decoded true))
    pure .nothing

end IoReader

/-! ## Chunks -/

/-- `Chunk`, with `filter_backoff` of its engine. -/
structure ChunkReader extends Chunk where
  filterBackoff : ℕ

namespace ChunkReader

variable (hvalid : cfg.dialect.invalidity = none)

/-- The first chunk of a new parser. -/
def fromSettings (bytes : Bytes) : ChunkReader where
  toChunk := .offer (.fromSettings cfg) bytes
  filterBackoff := 0

/-- A call on the chunk. -/
def chunk {α : Type} (m : Lend α) : EStateM ReadFault ChunkReader α :=
  zoom toChunk (fun s c => { s with toChunk := c }) .window m

/-- A computation on the engine, whose errors are dropped. -/
def dropping {α : Type} (m : Window (Option α)) : Lend (Option α) := fun c =>
  match m c.core with
  | .ok a core => .ok a { c with core }
  | .error fault core => if fault.panics then .error fault { c with core } else .ok none { c with core }

/-- The skip of `advance_with_filter`, over the region of a borrowed chunk. -/
def skip (literal : Option Bytes) (pending : Option ℕ) : EStateM ReadFault ChunkReader (Option ℕ) := do
  let s ← get
  match s.borrowed, literal with
  | true, some literal => do
    let (hint, engine) :=
      skipTowardLiteral lanes cfg s.region literal ⟨s.filterBackoff, pending⟩ s.core.toEngine
    set { s with core := { s.core with toEngine := engine }, filterBackoff := hint.backoff }
    pure hint.pending
  | _, _ => pure pending

/-- The loop of `advance_with_filter`. -/
def filterLoop (filter : Filter) (literal : Option Bytes) :
    (fuel : ℕ) → (pending : Option ℕ) → EStateM ReadFault ChunkReader Bool
  | 0, _ => throw (.window (.fault .stuck))
  | fuel + 1, pending => do
    let pending ← skip lanes cfg literal pending
    if ← chunk (Chunk.advance cfg F hvalid) then
      match filter.column with
      | none => pure false
      | some column => do
        let s ← get
        let field ← chunk (dropping (Window.field cfg F s.buffer column))
        if filter.predicate.matchesField lanes field then pure true
        else filterLoop filter literal fuel pending
    else pure false

/-- `advance` and `advance_with_filter`. -/
def advanceLine : Option Filter → EStateM ReadFault ChunkReader Bool
  | none => chunk (Chunk.advance cfg F hvalid)
  | some filter =>
    filterLoop lanes cfg F hvalid filter (filter.predicate.skipLiteral (cfg.fmt F)) (filter.fuel + 1)
      none

/-- A computation on the engine, whose faults poison the parser. -/
def failing {α : Type} (m : EStateM ReadFault WindowEngine α) : EStateM ReadFault ChunkReader α :=
  fun s =>
    match m s.core with
    | .ok a core => .ok a { s with core }
    | .error fault core => .error (fault.rebase s.consumed) { s with core, failed := true }

/-- What is asked of the parser. -/
inductive Op where
  /-- `next_line` and `next_matching_line` -/
  | nextLine (filter : Option Filter)
  /-- a view of the current line -/
  | view (view : LineView)
  | readByteRecord
  | readTextRecord
  /-- `done`, `finish` for the last chunk, and the next `chunk` -/
  | offer (finish : Bool) (bytes : Bytes)

/-- The calls that read records. -/
def Op.reads : Op → Bool
  | nextLine _ | view _ | readByteRecord | readTextRecord => true
  | offer _ _ => false

/-- The next chunk.  A panic of `settle` is one of the call. -/
def offerNext (finish : Bool) (bytes : Bytes) : EStateM ReadFault ChunkReader Unit := do
  let s ← get
  let settled := Chunk.settle cfg F hvalid s.toChunk
  let p := if finish then settled.toPushParser.finish else settled.toPushParser
  match p.deferred with
  | none => set { s with toChunk := .offer p bytes }
  | some fault =>
    -- an error is kept for the next call, but a panic is not
    if fault.panics then do
      set { s with toChunk := .offer { p with deferred := none } bytes }
      throw (.window fault)
    else set { s with toChunk := .offer p bytes }

/-- A call. -/
def apply : Op → EStateM ReadFault ChunkReader ReadOutcome
  | .nextLine filter => .ofFound <$> advanceLine lanes cfg F hvalid filter
  | .view view => do
    let s ← get
    .rebase s.consumed <$> failing (view.read cfg F s.buffer false)
  | .readByteRecord => .ofRead <$> chunk (Chunk.readByteRecordInto cfg F hvalid)
  | .readTextRecord => .ofRead <$> chunk (Chunk.readTextRecordInto cfg F hvalid)
  | .offer finish bytes => do
    offerNext cfg F hvalid finish bytes
    pure .nothing

end ChunkReader

end Coseva
