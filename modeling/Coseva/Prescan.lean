/-
  Coseva — the prescan for a whole record (`coseva/src/engine/cursor.rs`).

  * `WindowScanConfig`: what the prescan reads of the settings;
  * `scanStep`: one stop of the scan, and the pause it may come to;
  * `windowLacksRecordRuntime`: the scan from a checkpoint;
  * `shiftResume`: the checkpoint of a window that has lost its front.
-/
import Coseva.ReadField

namespace Coseva

/-- `WindowScanConfig`.  A valid dialect has no unusable tail. -/
structure WindowScanConfig where
  quoting : Bool
  delimiter : UInt8
  delimiterTail : Tail
  quote : UInt8
  terminator : UInt8
  endingTail : Tail
  crlf : Bool
  escape : Escape
  permitsUnquotedQuotes : Bool
  permitsAnyBackslash : Bool
  permitsTrailingWs : Bool
  skipInitialSpace : Bool
  maxRecord : ℕ
  maxField : ℕ
  delimiterTail_usable : delimiterTail.unusable = false
  endingTail_usable : endingTail.unusable = false
  deriving DecidableEq, Repr

theorem Dialect.tails_usable {d : Dialect} (h : d.invalidity = none) :
    d.delimiterTail.unusable = false ∧ d.endingTail.unusable = false := by
  have hmultibyte : d.multibyteInvalidity = none := by
    unfold invalidity at h
    grind
  unfold multibyteInvalidity multibyte Tail.isEmpty at hmultibyte
  grind

/-- What `window_lacks_record` reads of the settings of a valid dialect. -/
def ParserSettings.windowScanConfig (cfg : ParserSettings) (F : CsvFormat)
    (hvalid : cfg.dialect.invalidity = none) : WindowScanConfig where
  quoting := (cfg.fmt F).syntax'.quotingEnabled
  delimiter := (cfg.fmt F).dialect.delimiter
  delimiterTail := cfg.dialect.delimiterTail
  quote := (cfg.fmt F).dialect.quote
  terminator := (cfg.fmt F).dialect.recordEnding.byte
  endingTail := cfg.dialect.endingTail
  crlf := (cfg.fmt F).dialect.recordEnding == .crLf
  escape := (cfg.fmt F).dialect.escape
  permitsUnquotedQuotes := (cfg.fmt F).syntax'.permitsUnquotedQuotes
  permitsAnyBackslash := (cfg.fmt F).syntax'.permitsAnyBackslashEscape
  permitsTrailingWs := (cfg.fmt F).syntax'.permitsTrailingWhitespace
  skipInitialSpace := (cfg.fmt F).skipInitialSpace
  maxRecord := cfg.limits.maxRecordBytes
  maxField := cfg.limits.maxFieldBytes
  delimiterTail_usable := (Dialect.tails_usable hvalid).1
  endingTail_usable := (Dialect.tails_usable hvalid).2

/-- Where the scan stands in a record. -/
structure ScanPoint where
  cursor : ℕ
  fieldStart : ℕ
  inQuotes : Bool
  deriving DecidableEq, Repr

/-- What the scan does at one stop. -/
inductive ScanStep
  | next (p : ScanPoint)
  /-- `pause_scan`: more input is needed, and the scan goes on from here -/
  | pause (p : ScanPoint)
  /-- not proven: the full parse decides -/
  | defer
  deriving DecidableEq, Repr

namespace WindowScanConfig

open Engine (earliest)

section step

variable (config : WindowScanConfig) (input : Bytes) (recordStart : ℕ)

/-- The bound of one scan; the sums saturate behind every window. -/
def scanEnd (fieldStart : ℕ) : ℕ :=
  min (min (recordStart + config.maxRecord) (fieldStart + config.maxField) + 1) input.length

/-- `quoted_escape`. -/
def quotedEscape : UInt8 :=
  match config.escape with
  | .doubleQuote => config.quote
  | .backslash byte | .unquoted byte => byte
  | .mysql => 92

def doubled : Bool := config.escape == .doubleQuote

def backslash : Bool :=
  match config.escape with
  | .backslash _ => true
  | _ => false

/-- `pause_scan`. -/
def pauseScan (p : ScanPoint) : ScanStep :=
  if config.scanEnd input recordStart p.fieldStart < input.length then .defer else .pause p

/-- The spaces and tabs behind a closing quote, up to the scan's end. -/
def skipTrailing (scanEnd after : ℕ) : ℕ :=
  after + ((slice input after scanEnd).takeWhile fun b => b == 32 || b == 9).length

/-- Where the byte behind the closing quote at `pos` is looked for. -/
def afterClosing (scanEnd pos : ℕ) : ℕ :=
  if config.permitsTrailingWs then skipTrailing input scanEnd (pos + 1) else pos + 1

/-- The byte behind the closing quote at `pos`. -/
def stepClosed (fieldStart pos : ℕ) : ScanStep :=
  let scanEnd := config.scanEnd input recordStart fieldStart
  let after := config.afterClosing input scanEnd pos
  if config.permitsTrailingWs && decide (after ≥ scanEnd) then .defer
  else if byteAt input after = config.delimiter then
    let tailStart := after + 1
    if scanEnd - tailStart < config.delimiterTail.asSlice.length then
      config.pauseScan input recordStart ⟨pos, fieldStart, true⟩
    else if !config.delimiterTail.confirms (slice input tailStart scanEnd) then .defer
    else
      let next := after + config.delimiterTail.width
      .next ⟨next, next, false⟩
  else .defer

/-- The stop at `pos` inside quotes. -/
def stepQuoted (fieldStart pos : ℕ) : ScanStep :=
  let scanEnd := config.scanEnd input recordStart fieldStart
  if !config.doubled && byteAt input pos == config.quotedEscape then
    if pos + 1 ≥ scanEnd then config.pauseScan input recordStart ⟨pos, fieldStart, true⟩
    else
      let escaped := byteAt input (pos + 1)
      if config.backslash && escaped != config.quote && escaped != config.quotedEscape
          && !config.permitsAnyBackslash then .defer
      else .next ⟨pos + 2, fieldStart, true⟩
  else if pos + 1 ≥ scanEnd then config.pauseScan input recordStart ⟨pos, fieldStart, true⟩
  else if config.doubled && byteAt input (pos + 1) == config.quote then
    .next ⟨pos + 2, fieldStart, true⟩
  else config.stepClosed input recordStart fieldStart pos

/-- The quote at `pos` outside quotes. -/
def stepQuote (fieldStart pos : ℕ) : ScanStep :=
  if pos = fieldStart || (config.skipInitialSpace && fieldStart != recordStart
      && (slice input fieldStart pos).all (· == 32)) then
    .next ⟨pos + 1, pos, true⟩
  else if config.permitsUnquotedQuotes then .next ⟨pos + 1, fieldStart, false⟩
  else .defer

/-- The stop at `pos` outside quotes. -/
def stepUnquoted (fieldStart pos : ℕ) : ScanStep :=
  let scanEnd := config.scanEnd input recordStart fieldStart
  let byte := byteAt input pos
  if config.escape.unquotedByte = some byte then
    if pos + 1 ≥ scanEnd then config.pauseScan input recordStart ⟨pos, fieldStart, false⟩
    else .next ⟨pos + 2, fieldStart, false⟩
  else if byte = config.delimiter then
    let tailStart := pos + 1
    if scanEnd - tailStart < config.delimiterTail.asSlice.length then
      config.pauseScan input recordStart ⟨pos, fieldStart, false⟩
    else if !config.delimiterTail.confirms (slice input tailStart scanEnd) then
      .next ⟨tailStart, fieldStart, false⟩
    else
      let next := pos + config.delimiterTail.width
      .next ⟨next, next, false⟩
  else if config.quoting && byte == config.quote then
    config.stepQuote input recordStart fieldStart pos
  else if byte = config.terminator ∧ config.endingTail.isEmpty = false then
    let tailStart := pos + 1
    if scanEnd - tailStart < config.endingTail.asSlice.length then
      config.pauseScan input recordStart ⟨pos, fieldStart, false⟩
    else if !config.endingTail.confirms (slice input tailStart scanEnd) then
      .next ⟨pos + 1, fieldStart, false⟩
    else .defer
  else .defer

/-- The search inside quotes. -/
def findClosing (remaining : Bytes) : Option ℕ :=
  if config.doubled then find1 config.quote remaining
  else find2 config.quote config.quotedEscape remaining

/-- The search outside quotes. -/
def findStop (remaining : Bytes) : Option ℕ :=
  let found :=
    if config.quoting then find3 config.delimiter config.quote config.terminator remaining
    else find2 config.delimiter config.terminator remaining
  let found := if config.crlf then earliest found (find1 13 remaining) else found
  match config.escape.unquotedByte with
  | some escapeByte => earliest found (find1 escapeByte remaining)
  | none => found

/-- One turn of the loop of `window_lacks_record_runtime`. -/
def scanStep (p : ScanPoint) : ScanStep :=
  let scanEnd := config.scanEnd input recordStart p.fieldStart
  let remaining := slice input p.cursor scanEnd
  match if p.inQuotes then config.findClosing remaining else config.findStop remaining with
  | none => config.pauseScan input recordStart ⟨scanEnd, p.fieldStart, p.inQuotes⟩
  | some relative =>
    if p.inQuotes then config.stepQuoted input recordStart p.fieldStart (p.cursor + relative)
    else config.stepUnquoted input recordStart p.fieldStart (p.cursor + relative)

/-- The loop: the pause it comes to, or `none` where nothing is proven.  A turn
    that goes on has read a byte, so that the fuel is never the reason. -/
def scanLoop : (fuel : ℕ) → ScanPoint → Option ScanPoint
  | 0, _ => none
  | fuel + 1, p =>
    match config.scanStep input recordStart p with
    | .next p => scanLoop fuel p
    | .pause p => some p
    | .defer => none

end step

/-- `window_lacks_record_runtime`: the verdict, and the checkpoint behind it. -/
def windowLacksRecordRuntime (config : WindowScanConfig) (input : Bytes) (resume : ResumeState) :
    Bool × ResumeState :=
  match resume.recordStart with
  | none => (false, resume)
  | some recordStart =>
    match config.scanLoop input recordStart (input.length + 1)
        ⟨resume.scannedTo, resume.fieldStart, resume.inQuotes⟩ with
    | some p => (true, ⟨some recordStart, p.cursor, p.fieldStart, p.inQuotes, false⟩)
    | none => (false, resume)

end WindowScanConfig

/-- `shift_resume`: the window has lost `dropped` bytes of its front. -/
def ResumeState.shiftResume (resume : ResumeState) (dropped : ℕ) : ResumeState :=
  match resume.recordStart with
  | none => resume
  | some recordStart =>
    if resume.ignored && decide (recordStart < dropped) then
      { resume with
        recordStart := some 0
        scannedTo := resume.scannedTo - dropped
        fieldStart := 0 }
    else if recordStart ≥ dropped && resume.scannedTo ≥ dropped && resume.fieldStart ≥ dropped then
      { resume with
        recordStart := some (recordStart - dropped)
        scannedTo := resume.scannedTo - dropped
        fieldStart := resume.fieldStart - dropped }
    else .new

/-- `seed_resume`: a full parse has found the record at `recordStart` incomplete. -/
def ResumeState.seedResume (resume : ResumeState) (recordStart : ℕ) : ResumeState :=
  if resume.recordStart = some recordStart then resume else .fresh recordStart

/-- A checkpoint of the same record that remembers nothing of it. -/
def ResumeState.restart (resume : ResumeState) : ResumeState :=
  match resume.recordStart with
  | none => resume
  | some recordStart => .fresh recordStart

/-! ## A window between the scans -/

/-- A window, and the checkpoint of the record it cuts. -/
structure ScanWindow where
  window : Bytes
  resume : ResumeState
  deriving DecidableEq, Repr

inductive WindowEvent
  | append (chunk : Bytes)
  | shift (dropped : ℕ)
  | seed (recordStart : ℕ)
  | scan
  deriving DecidableEq, Repr

namespace ScanWindow

section run

variable (config : WindowScanConfig) (start : ResumeState → ResumeState)

/-- One event, and what a scan finds: the checkpoint it saves when the window
    lacks a record.  A scan goes on from `start` of the checkpoint. -/
def step (w : ScanWindow) : WindowEvent → ScanWindow × List (Option ResumeState)
  | .append chunk => (⟨w.window ++ chunk, w.resume⟩, [])
  | .shift dropped =>
    if dropped ≤ w.window.length then
      (⟨w.window.drop dropped, w.resume.shiftResume dropped⟩, [])
    else (w, [])
  | .seed recordStart =>
    if recordStart < w.window.length then (⟨w.window, w.resume.seedResume recordStart⟩, [])
    else (w, [])
  | .scan =>
    if w.resume.recordStart.isNone then (w, [])
    else
      let (lacks, resume) := config.windowLacksRecordRuntime w.window (start w.resume)
      (⟨w.window, resume⟩, [if lacks then some resume else none])

/-- What the scans of a run find. -/
def scans : ScanWindow → List WindowEvent → List (Option ResumeState)
  | _, [] => []
  | w, event :: events => (w.step config start event).2 ++ scans (w.step config start event).1 events

end run

end ScanWindow

end Coseva
