/-
  Coseva — the engine over a window of a stream (`coseva/src/engine/cursor.rs`,
  `engine/access.rs`, `engine/construct.rs`): what the chunked and the buffered parser ask of it.

  * `WindowEngine`: the engine with the record that a window has parsed into owned form;
  * `tryAdvanceWindow`: the next record of a window that may not end the stream;
  * `advanceWindow`, `advanceWindowLazily`, `advanceWindowEagerly`, `readWindowOwned`,
    `readWindowText`, `headersWindow`: the calls, each of which takes the cursor back when it asks
    for more input;
  * `recordView`, `readByteView`, `readTextView`: the views of the record the cursor is on.
-/
import Coseva.OwnedRead
import Coseva.StructCache
import Coseva.WindowCursor

namespace Coseva

/-- `Engine`, with the fields that only windows use. -/
structure WindowEngine extends Engine where
  /-- `staged_record`, while `staged_valid` -/
  staged : Option OwnedRecord
  stagedFormOwned : Bool
  deriving DecidableEq, Repr

/-- How a call on a window fails: as a parse does, or with a field that is not UTF-8. -/
inductive WindowFault where
  | fault (fault : Fault)
  /-- `incomplete`: the bytes of the field end inside a character -/
  | invalidUtf8 (failure : Utf8Failure) (incomplete : Bool)
  deriving DecidableEq, Repr

/-- A computation on the engine of a window. -/
abbrev Window := EStateM WindowFault WindowEngine

/-- `Advance`, with what the call has read of the record. -/
inductive Advance (α : Type) where
  | record (read : α)
  | done
  | needMore
  deriving DecidableEq, Repr

namespace WindowFault

/-- `truncated_by_window`: more input may settle the error. -/
def truncatedByWindow (windowLen lookahead : ℕ) : WindowFault → Bool
  | .fault (.error kind location) =>
    kind == .unterminatedQuotedField || decide (location.byte + lookahead ≥ windowLen)
  | .fault _ => false
  | .invalidUtf8 failure incomplete =>
    incomplete || decide (failure.location.byte + lookahead ≥ windowLen)

end WindowFault

namespace WindowEngine

variable (cfg : ParserSettings) (F : CsvFormat) (input : Bytes)

/-- `from_config_windowed`, over a window that is still empty. -/
def fromConfigWindowed : WindowEngine :=
  let engine := Engine.fromConfigWithOwnedParser cfg [] (Engine.ownedParserFor cfg true) true
  let engine :=
    if cfg.dialect = .csv ∧ (Engine.ownedParserFor cfg true).isSome then
      { engine with
        ownedParser := some .defaultWindowed
        quotedPrefixParser := some .structuralWindowed
        interiorPrefixParser := some .interiorWindowed
        interiorHandoffParser := some .structuralWindowed
        multiQuoteParser := some .structuralWindowed }
    else engine
  { engine with staged := none, stagedFormOwned := false }

/-! ## Retries -/

/-- `separator_lookahead`. -/
def separatorLookahead : ℕ :=
  1 + max cfg.dialect.delimiterTail.asSlice.length cfg.dialect.endingTail.asSlice.length

/-- `CursorState`. -/
structure CursorState where
  location : ℕ
  foldedUpto : ℕ
  foldedLines : ℕ
  recordIndex : ℕ
  expectedFields : Option ℕ
  headersInitialized : Bool
  cursorStart : Option ℕ
  cursorEnd : Option ℕ
  cursorIndex : ℕ
  failed : Bool
  deriving DecidableEq, Repr

variable (w : WindowEngine)

/-- `cursor_state`. -/
def cursorState : CursorState where
  location := w.location
  foldedUpto := w.foldedUpto
  foldedLines := w.foldedLines
  recordIndex := w.recordIndex
  expectedFields := w.expectedFields
  headersInitialized := w.headersInitialized
  cursorStart := w.cursorStart
  cursorEnd := w.cursorEnd
  cursorIndex := w.cursorIndex
  failed := w.failed

/-- `restore_cursor`. -/
def restoreCursor (saved : CursorState) : WindowEngine :=
  { w with
    location := saved.location
    recordIndex := saved.recordIndex
    foldedUpto := saved.foldedUpto
    foldedLines := saved.foldedLines
    expectedFields := saved.expectedFields
    headersInitialized := saved.headersInitialized
    cursorStart := saved.cursorStart
    cursorEnd := saved.cursorEnd
    cursorIndex := saved.cursorIndex
    failed := saved.failed
    staged := none }

/-- `restore_chunk_cursor`. -/
def restoreChunk (saved : Engine.ChunkCursorState) : WindowEngine :=
  { w with toEngine := w.toEngine.restoreChunkCursor saved, staged := none }

/-- `release_positioned_record`. -/
def release : WindowEngine :=
  { w with toEngine := w.toEngine.releasePositionedRecord, staged := none }

/-- `shift_window`. -/
def shift (window : Bytes) (count : ℕ) : WindowEngine :=
  { w with toEngine := w.toEngine.shiftWindow window count }

/-- `skip_detected_bom`. -/
def skipDetectedBom : WindowEngine :=
  if w.location = 0 ∧ bom.isPrefixOf input then { w with location := 3 } else w

/-- `window_settled`: a record that ends here is whole however the stream goes on. -/
def windowSettled (stop : ℕ) : Bool := decide (stop < input.length) || w.terminated

/-- `ended_on_terminator`. -/
def endedOnTerminator : Bool :=
  let d := (cfg.fmt F).dialect
  if w.location < d.endingTail.width then false
  else
    let leadAt := w.location - d.endingTail.width
    input[leadAt]? == some d.recordEnding.byte
      && d.endingTail.confirms (slice input (leadAt + 1) w.location)

/-- The owned parsers do not note that the window ends on a record ending. -/
def noteEnding : WindowEngine :=
  if w.location = input.length ∧ w.endedOnTerminator cfg F input then { w with terminated := true }
  else w

end WindowEngine

namespace Window

variable (cfg : ParserSettings) (F : CsvFormat) (input : Bytes)

/-- What the engine does of itself. -/
def engine {α : Type} (m : Parse α) : Window α := fun w =>
  match m w.toEngine with
  | .ok a e => .ok a { w with toEngine := e }
  | .error fault e => .error (.fault fault) { w with toEngine := e }

/-- Forget the staged record, and how the last one ended. -/
def beginOwned : Window Unit := modify fun w => { w with staged := none, terminated := false }

/-! ## Owned records -/

/-- `read_owned_positioned`, and `read_physical_text_storage` where it is to certify ASCII. -/
def readPositioned (certifyAscii : Bool) : Parse OwnedRecord := do
  match ← Engine.readPhysicalStorageMode cfg F input certifyAscii false with
  | some record => pure record
  | none => Engine.panic

/-- `read_owned`. -/
def readOwned (certifyAscii : Bool) : Parse OwnedRecord := do
  Engine.rewindToCurrent
  readPositioned cfg F input certifyAscii

/-- The first field that is no string, and whether it ends inside a character. -/
def invalidText : (index : ℕ) → Fields → Option (ℕ × Bool)
  | _, [] => none
  | index, field :: fields =>
    match utf8Error (field.getD []) with
    | some error => some (index, error.errorLen.isNone)
    | none => invalidText (index + 1) fields

/-- The validation of `refill_with_validity`: of a record that its parser has not certified. -/
def validate (lineBase lineOrigin : ℕ) (record : OwnedRecord) : Window OwnedRecord :=
  if record.textValidity = .ascii then pure record
  else
    match invalidText 0 record.fields with
    | none => pure record
    | some (index, incomplete) =>
      throw (.invalidUtf8
        ⟨record.start, physicalLine input lineBase lineOrigin record.start, record.index, index⟩
        incomplete)

/-- `read_text_record_into` over `m`, which reads the storage. -/
def readText (m : Window OwnedRecord) : Window OwnedRecord := do
  let w ← get
  let record ← m
  validate input w.lineBase w.lineOrigin record

/-- `can_stage_owned`. -/
def canStageOwned : Bool :=
  !ParserSettings.needsGeneralParsing cfg.dialect cfg.trim && cfg.syntax' == .strict
    && cfg.dialect.comment.isNone && !cfg.trim.appliesToScope false

/-- `stage_owned`: where the record ends. -/
def stageOwned : Window ℕ := do
  beginOwned
  let record ← engine (readOwned cfg F input false)
  modify (WindowEngine.noteEnding cfg F input)
  modify fun w => { w with cursorEnd := some w.location, staged := some record }
  let w ← get
  pure w.location

/-! ## Views -/

/-- The parse of `materialize_full`. -/
def parseCurrent : Window (ℕ × ℕ × ℕ) := do
  modify fun w => { w with staged := none, stagedFormOwned := false }
  engine Engine.rewindToCurrent
  let range ← engine (Engine.parsePositionedRecord cfg F input false)
  modify fun w => { w with cursorEnd := some range.2.1 }
  pure range

/-- `materialize_full`. -/
def materializeFull : Window (ℕ × ℕ × ℕ) := do
  let w ← get
  match w.cursorStart, w.cursorEnd, w.staged with
  | none, _, _ => throw (.fault .panic)
  | some start, some stop, none => pure (start, stop, w.cursorIndex)
  | some _, _, _ => parseCurrent cfg F input

/-- `record`. -/
def recordView : Window Record := do
  let range ← materializeFull cfg F input
  engine (Engine.currentRecord input range)

/-- The arms of `read_byte_record_into` and `read_text_storage`, over `cursor_start`, `cursor_end` and
    the staged record: a staged record is taken, one that was viewed is copied, any other is parsed. -/
def readStored (certifyAscii : Bool) : Option ℕ → Option ℕ → Option OwnedRecord → Window OwnedRecord
  | none, _, _ => throw (.fault .panic)
  | some _, some _, some record => do
    modify fun w => { w with cursorEnd := none, staged := none }
    pure record
  | some start, some stop, none => do
    modify fun w => { w with stagedFormOwned := true }
    let w ← get
    let record ← engine (Engine.currentRecord input (start, stop, w.cursorIndex))
    pure (Engine.copied record (Engine.distinguishesNulls cfg))
  | some _, none, _ => engine (readOwned cfg F input certifyAscii)

/-- `read_byte_record_into` and `read_text_storage`. -/
def readView (certifyAscii : Bool) : Window OwnedRecord := do
  let w ← get
  readStored cfg F input certifyAscii w.cursorStart w.cursorEnd w.staged

/-- `read_byte_record_into`. -/
def readByteView : Window OwnedRecord := readView cfg F input false

/-- `read_text_record_into`. -/
def readTextView : Window OwnedRecord := readText input (readView cfg F input true)

/-! ## The next record of a window -/

/-- `ensure_headers_window`. -/
def ensureHeadersWindow : Parse Bool := do
  if cfg.headers ≠ .firstRecord then do
    modify fun e => { e with headersInitialized := true }
    pure true
  else
    match ← Engine.fillRecordSpans cfg none input true with
    | none => pure false
    | some range =>
      if range.2.1 = input.length then pure false
      else do
        modify fun e => { e with headersInitialized := true }
        pure true

/-- Whether the header record has been read, also by this call. -/
def headersReady : Window Bool := do
  let w ← get
  if w.headersInitialized then pure true else engine (ensureHeadersWindow cfg input)

section windows

variable (hvalid : cfg.dialect.invalidity = none)

/-- The prescan, of a checkpoint at the record. -/
def lacksRecord (recordStart : ℕ) : Window Bool := fun w =>
  if w.resume.recordStart = some recordStart then
    let (lacks, resume) :=
      (cfg.windowScanConfig F hvalid).windowLacksRecordRuntime input w.resume
    .ok lacks { w with resume }
  else .ok false w

/-- `checkpoint_after_parse`, behind a parse that says where the record ends. -/
def checkpointAfterParse {α : Type} (recordStart : ℕ) (m : Window (ℕ × α)) : Window (ℕ × α) := fun w =>
  match m w with
  | .ok (stop, a) w =>
    .ok (stop, a) (if w.windowSettled input stop then w
      else { w with resume := w.resume.seedResume recordStart })
  | .error fault w =>
    .error fault (if fault.truncatedByWindow input.length (WindowEngine.separatorLookahead cfg) then
        { w with resume := w.resume.seedResume recordStart }
      else w)

/-- Settle the last record, position on the next and parse it. -/
def positionAndParse {α : Type} (m : Window (ℕ × α)) : Window (Option (ℕ × α)) := do
  engine (Engine.settle cfg F input)
  if ← engine (Engine.position cfg input) then do
    let w ← get
    if ← lacksRecord cfg F input hvalid w.location then pure none
    else some <$> checkpointAfterParse cfg input w.location m
  else pure none

/-- The parse of `try_advance_window`. -/
def parseStaging : Window (ℕ × Unit) := do
  let w ← get
  if w.stagedFormOwned && canStageOwned cfg then do
    let stop ← stageOwned cfg F input
    pure (stop, ())
  else do
    let range ← materializeFull cfg F input
    pure (range.2.1, ())

/-- `try_advance_window`. -/
def tryAdvanceWindow : Window (Option (ℕ × Unit)) := do
  engine (Engine.checkFailed input)
  if ← headersReady cfg input then positionAndParse cfg F input hvalid (parseStaging cfg F input)
  else pure none

/-- The record that `try_read_window_owned` or `try_read_window_text` reads. -/
def readInWindow (text : Bool) : Window OwnedRecord :=
  if text then readText input (engine (readOwned cfg F input true))
  else engine (readPositioned cfg F input false)

/-- `m`, and whether the cursor is then at the end of a window that ends on a record ending. -/
def notingEnding (m : Window OwnedRecord) : Window (ℕ × OwnedRecord) := fun w =>
  match m w with
  | .ok record w => .ok (w.location, record) (w.noteEnding cfg F input)
  | .error fault w => .error fault (w.noteEnding cfg F input)

/-- The parse of `try_read_window_owned` and `try_read_window_text`. -/
def parseOwned (text : Bool) : Window (ℕ × OwnedRecord) := do
  beginOwned
  notingEnding cfg F input (readInWindow cfg F input text)

/-- `try_read_window_owned` and `try_read_window_text`. -/
def tryReadWindow (text : Bool) : Window (Option (ℕ × OwnedRecord)) := do
  engine (Engine.checkFailed input)
  positionAndParse cfg F input hvalid (parseOwned cfg F input text)

/-! ## The calls -/

/-- A speculative read of a window: a whole record is kept, as `keep` leaves the engine, and where
    there may be more of it the cursor is taken back. -/
def speculate {α : Type} (keep : WindowEngine → WindowEngine)
    (restore : WindowEngine → WindowEngine → WindowEngine)
    (raise : WindowEngine → WindowFault → Window (Advance α)) (m : Window (Option (ℕ × α))) :
    Window (Advance α) := fun saved =>
  match m saved with
  | .ok (some (stop, a)) w =>
    if w.windowSettled input stop then .ok (.record a) (keep w) else .ok .needMore (restore saved w)
  | .ok none w => .ok .needMore (restore saved w)
  | .error fault w =>
    if fault.truncatedByWindow input.length (WindowEngine.separatorLookahead cfg) then
      .ok .needMore (restore saved w)
    else raise saved fault w

/-- The restores of `rewind_chunk` and `rewind_to`. -/
def rewindChunk (saved w : WindowEngine) : WindowEngine := w.restoreChunk saved.chunkCursorState

def rewindTo (saved w : WindowEngine) : WindowEngine := w.restoreCursor saved.cursorState

/-- `advance`, as an outcome. -/
def positionLazily : Window (Advance Unit) := do
  if ← engine (Engine.advance cfg F input) then pure (.record ()) else pure .done

/-- `advance_window`. -/
def advanceWindow (atEof : Bool) : Window (Advance Unit) :=
  if atEof then positionLazily cfg F input
  else
    speculate cfg input id rewindChunk (fun _ fault => throw fault)
      (tryAdvanceWindow cfg F input hvalid)

/-- `advance_window_lazily`: an error that no more input can settle is left to the view. -/
def advanceWindowLazily (atEof : Bool) : Window (Advance Unit) :=
  if atEof then positionLazily cfg F input
  else
    speculate cfg input id rewindTo
      (fun saved _ w => positionLazily cfg F input (rewindTo saved w))
      (tryAdvanceWindow cfg F input hvalid)

/-- `advance_window_eagerly`. -/
def advanceWindowEagerly (atEof : Bool) : Window (Advance Unit) :=
  if atEof then do
    if ← engine (Engine.advance cfg F input) then do
      let _ ← materializeFull cfg F input
      pure (.record ())
    else pure .done
  else
    speculate cfg input id rewindTo (fun _ fault => throw fault)
      (tryAdvanceWindow cfg F input hvalid)

/-- `read_window_owned` and `read_window_text`. -/
def readWindow (text atEof : Bool) : Window (Advance OwnedRecord) :=
  if atEof then do
    if ← engine (Engine.advance cfg F input) then do
      let record ←
        if text then readTextView cfg F input else engine (readOwned cfg F input false)
      modify WindowEngine.release
      pure (.record record)
    else pure .done
  else
    speculate cfg input WindowEngine.release rewindChunk (fun _ fault => throw fault)
      (tryReadWindow cfg F input hvalid text)

/-- `read_window_owned`. -/
abbrev readWindowOwned := readWindow cfg F input hvalid false

/-- `read_window_text`. -/
abbrev readWindowText := readWindow cfg F input hvalid true

/-- `headers_window`. -/
def headersWindow (atEof : Bool) : Window Bool := fun saved =>
  let ensure : Window Bool := do
    engine (Engine.ensureHeaders cfg input)
    let w ← get
    pure w.headersInitialized
  if saved.headersInitialized then .ok true saved
  else if atEof then ensure saved
  else
    match engine (ensureHeadersWindow cfg input) saved with
    | .ok true w => .ok w.headersInitialized w
    | .ok false w => .ok false (rewindTo saved w)
    | .error fault w =>
      if fault.truncatedByWindow input.length (WindowEngine.separatorLookahead cfg) then
        .ok false (rewindTo saved w)
      else ensure (rewindTo saved w)

end windows

end Window

end Coseva
