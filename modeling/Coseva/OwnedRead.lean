/-
  Coseva — records read into storage of the caller (`coseva/src/engine/framing.rs`,
  `engine/access.rs`).

  * `readPhysicalStorageMode`: the next record, copied;
  * `readByteRecordInto`, `readTextRecordInto`: the record that the cursor is on;
  * `ReadOp`: what is asked of a parser;
  * `readHistory`: the parser behind some reads.
-/
import Coseva.OwnedParse
import Coseva.Seek

namespace Coseva

/-- A record in storage of its own, with where it was read. -/
structure OwnedRecord extends OwnedOutput where
  start : ℕ
  stop : ℕ
  index : ℕ
  deriving DecidableEq, Repr

/-- The entry of a field: nothing for a NULL. -/
def Field.entry (f : Field) : Option Bytes := if f.null then none else some f.bytes

/-- `InvalidUtf8`, of the field at the location. -/
structure Utf8Failure where
  location : Location
  deriving DecidableEq, Repr

namespace Engine

variable (cfg : ParserSettings) (F : CsvFormat) (input : Bytes)

/-! ## The next record -/

/-- The copy of a borrowed record (`replace_from`, and the loops over its entries). -/
def copied (record : Record) (nullAware : Bool) : OwnedRecord :=
  ⟨⟨record.fields.map Field.entry, nullAware, .unknown⟩, record.start, record.stop, record.index⟩

/-- `distinguishes_nulls`. -/
def distinguishesNulls : Bool := cfg.nulls != .none

/-- `read_physical_storage_general`. -/
def readPhysicalStorageGeneral (header : Bool) : Parse (Option OwnedRecord) := do
  let record ← nextPhysicalRecord cfg input header
  pure (record.map fun record => copied record (!header && distinguishesNulls cfg))

/-- `read_physical_storage_mode`. -/
def readPhysicalStorageMode (certifyAscii header : Bool) : Parse (Option OwnedRecord) :=
  if cfg.fmtGeneralParsing F then readPhysicalStorageGeneral cfg input header
  else do
    checkFailed input
    modify fun e => if cfg.skipsRecords then skipIgnoredRecords cfg input e else e
    let e ← get
    if e.location = input.length then pure none
    else do
      let output ← failing (parseOwnedRecordMode cfg F input certifyAscii e.location header .new)
      let output := if cfg.trim.appliesToScope header then output.trimFieldsAscii else output
      let e' ← get
      set { e' with recordIndex := e'.recordIndex + 1 }
      pure (some ⟨output, e.location, e'.location, e'.recordIndex⟩)

/-! ## The current record -/

/-- The body of `read_byte_record_into` and `read_text_storage`, of a parser that stages no record:
    a record that was viewed is copied, and one that was not is parsed. -/
def readCurrent (certifyAscii : Bool) : Parse OwnedRecord := do
  let e ← get
  match e.cursorStart, e.cursorEnd with
  | none, _ => panic
  | some start, some stop => do
    let record ← currentRecord input (start, stop, e.cursorIndex)
    pure (copied record (distinguishesNulls cfg))
  | some _, none => do
    rewindToCurrent
    match ← readPhysicalStorageMode cfg F input certifyAscii false with
    | some record => pure record
    | none => panic

/-- `read_byte_record_into`. -/
def readByteRecordInto : Parse OwnedRecord := readCurrent cfg F input false

/-- The first field that is not a string. -/
def invalidField (fields : Fields) : Option ℕ :=
  fields.findIdx? fun field => !decide (Utf8.Valid (field.getD []))

/-- `read_text_record_into`: a record that its parser has not certified is validated. -/
def readTextRecordInto : Parse (Except Utf8Failure OwnedRecord) := do
  let e ← get
  let record ← readCurrent cfg F input true
  if record.textValidity = .ascii then pure (.ok record)
  else
    match invalidField record.fields with
    | none => pure (.ok record)
    | some index =>
      pure (.error ⟨record.start, physicalLine input e.lineBase e.lineOrigin record.start, record.index, index⟩)

end Engine

/-! ## Histories of reads -/

/-- What is asked of a parser: to move, and for the header or the current record. -/
inductive ReadOp where
  | nextLine
  | headers
  | record
  | byteRecord
  | textRecord
  | seek (b : Boundary)

section history

variable (cfg : ParserSettings) (F : CsvFormat) (input : Bytes)

/-- The call, without what it returns. -/
def ReadOp.run : ReadOp → Parse Unit
  | .nextLine => do
    let _ ← Engine.advance cfg F input
    pure ()
  | .headers => Engine.ensureHeaders cfg input
  | .record => do
    let _ ← Engine.record cfg F input
    pure ()
  | .byteRecord => do
    let _ ← Engine.readByteRecordInto cfg F input
    pure ()
  | .textRecord => do
    let _ ← Engine.readTextRecordInto cfg F input
    pure ()
  | .seek b =>
    if b.byte > input.length then pure ()
    else do
      Engine.ensureHeaders cfg input
      modify (Engine.seekTo b)

/-- The parser behind a call, also where it fails. -/
def ReadOp.after (e : Engine) (op : ReadOp) : Engine :=
  match op.run cfg F input e with
  | .ok _ e => e
  | .error _ e => e

/-- The parser of a slice behind some calls. -/
def readHistory (history : List ReadOp) : Engine :=
  history.foldl (ReadOp.after cfg F input) (.fromConfig cfg input)

end history

end Coseva
