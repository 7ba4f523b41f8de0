/-
  Coseva — quoting, escaping and record framing (`coseva/src/emit.rs`).

  A writer is a computation over the output buffer (`Emit`), which keeps what
  it has written when it fails; undoing a failed record is left to the callers,
  as in the source.

  * `writeQuoted`, `writeUnquoted`, `writeUnquotedEscapedField`, …: the writers
    of one field;
  * `emitRecordRuntime`, `emitNullableRecordRuntime`: the writers of a record;
  * `Visitor`: the push-driven writer of the same fields.
-/
import Coseva.Quoting
import Coseva.Lib.Append

namespace Coseva

open Append Append.M

/-- What an emitter reports; `panic` is an arm the source marks unreachable. -/
inductive EmitError where
  /-- `ErrorKind::Encode` with its text -/
  | encode (detail : String)
  | fieldCountMismatch (expected actual : ℕ)
  /-- `ErrorKind::Serde` with its text -/
  | serde (detail : String)
  | panic (message : String)
  deriving DecidableEq, Repr

/-- A writer of the output buffer. -/
abbrev Emit := Append.M UInt8 EmitError

/-! ## The writers of one field -/

/-- `unreachable_unquoted_escape`. -/
def unreachableUnquotedEscape : Emit Unit :=
  M.throw (.panic "unquoted-escape dialects are written by write_unquoted_escaped_field")

/-- `next_doubled_quote`, as the index of the match. -/
def nextDoubledQuote (d : Dialect) (remaining : Bytes) : Option ℕ :=
  if remaining.head? == some d.quote then some 0 else find1 d.quote remaining

/-- `next_backslash_escape`, as the index of the match. -/
def nextBackslashEscape (d : Dialect) (escape : UInt8) (remaining : Bytes) : Option ℕ :=
  if remaining.head?.any fun byte => byte == d.quote || byte == escape then some 0
  else find2 d.quote escape remaining

/-- `write_quoted`. -/
def writeQuoted (d : Dialect) (field : Bytes) : Emit Unit := do
  push d.quote
  match d.escape with
  | .doubleQuote => substLoop (nextDoubledQuote d) (fun _ => [d.quote, d.quote]) field.length field
  | .backslash escape =>
    substLoop (nextBackslashEscape d escape) (fun byte => [escape, byte]) field.length field
  | .mysql | .unquoted _ => unreachableUnquotedEscape
  push d.quote

/-- `write_necessary`. -/
def writeNecessary (d : Dialect) (field : Bytes) (isFirst : Bool) : Emit Unit :=
  if needsQuotes d field isFirst then writeQuoted d field else extend field

/-- `write_csv_necessary`. -/
def writeCsvNecessary (field : Bytes) (isFirst : Bool) : Emit Unit :=
  if needsCsvQuotes field isFirst then do
    push 34
    substLoop (find1 34) (fun _ => [34, 34]) field.length field
    push 34
  else extend field

/-- `write_non_numeric`. -/
def writeNonNumeric (d : Dialect) (field : Bytes) (isFirst : Bool) : Emit Unit :=
  if needsQuotes d field isFirst || !isNumeric field then writeQuoted d field else extend field

/-- `write_unquoted`. -/
def writeUnquoted (d : Dialect) (field : Bytes) (isFirst : Bool) : Emit Unit :=
  if needsQuotes d field isFirst then M.throw (.encode "field requires quoting")
  else extend field

/-- `write_non_null_empty`. -/
def writeNonNullEmpty (d : Dialect) (quoting : Quoting) : Emit Unit :=
  match quoting with
  | .nonNumeric | .always => writeQuoted d []
  | .necessary | .never | .raw => pure ()

/-- `write_record_field`. -/
def writeRecordField (d : Dialect) (quoting : Quoting) (field : Bytes) (isFirst : Bool) :
    Emit Unit :=
  match quoting with
  | .necessary =>
    -- `necessary_path`
    if d = .csv then writeCsvNecessary field isFirst else writeNecessary d field isFirst
  | .nonNumeric => writeNonNumeric d field isFirst
  | .always => writeQuoted d field
  | .never => writeUnquoted d field isFirst
  | .raw => extend field

/-- The letter or byte that follows the escape for `byte`, if it is escaped. -/
def escapedByte (d : Dialect) (escape byte : UInt8) : Option UInt8 :=
  let mysql := d.escape == .mysql
  if mysql && byte == 0 then some 48
  else if mysql && byte == 8 then some 98
  else if mysql && byte == 10 then some 110
  else if mysql && byte == 13 then some 114
  else if mysql && byte == 9 then some 116
  else if mysql && byte == 26 then some 90
  else if byte == escape then some escape
  else if byte == d.delimiter || byte == d.recordEnding.byte || byte == d.quote then some byte
  else none

/-- The loop of `write_unquoted_escaped_field`: `remaining` is the field from
    `index` on, and the bytes from `start` to `index` are still to be copied. -/
def writeEscapedFrom (d : Dialect) (escape : UInt8) (field : Bytes) :
    (start index : ℕ) → (remaining : Bytes) → Emit Unit
  | start, _, [] => extend (field.drop start)
  | start, index, byte :: remaining =>
    match escapedByte d escape byte with
    | some escaped => do
      extend ((field.take index).drop start)
      extend [escape, escaped]
      writeEscapedFrom d escape field (index + 1) (index + 1) remaining
    | none => writeEscapedFrom d escape field start (index + 1) remaining

/-- `write_unquoted_escaped_field`. -/
def writeUnquotedEscapedField (d : Dialect) (escape : UInt8) (field : Bytes) (isFirst : Bool) :
    Emit Unit :=
  -- a leading mark or comment byte cannot be quoted here, so it is escaped
  if isFirst && d.leads field then do
    extend (escape :: field.take 1)
    writeEscapedFrom d escape field 1 1 (field.drop 1)
  else writeEscapedFrom d escape field 0 0 field

/-- `write_null`. -/
def writeNull (nulls : Nulls) : Emit Unit :=
  if nulls = .mysql then extend [92, 78] else pure ()

/-- An absent field: under `Nulls::None` it is an empty one. -/
def writeAbsent (d : Dialect) (quoting : Quoting) (nulls : Nulls) : Emit Unit :=
  if nulls = .none then writeNonNullEmpty d quoting else writeNull nulls

/-- `write_configured_field`. -/
def writeConfiguredField (d : Dialect) (quoting : Quoting) (nulls : Nulls) (field : Bytes)
    (isFirst : Bool) : Emit Unit :=
  match d.escape.unquotedByte with
  | some escape =>
    if nulls = .mysql ∧ field = [92, 78] then extend [escape, 92, 78]
    else writeUnquotedEscapedField d escape field isFirst
  | none =>
    if nulls = .postgresCsv ∧ field = [] then writeQuoted d field
    else if nulls = .mysql ∧ field = [92, 78] then
      match quoting with
      | .necessary | .nonNumeric | .always => writeQuoted d field
      | .never | .raw =>
        M.throw (.encode "a non-NULL MySQL \\N field requires quoting or unquoted escaping")
    else
      match quoting with
      | .necessary => writeNecessary d field isFirst
      | .nonNumeric => writeNonNumeric d field isFirst
      | .always => writeQuoted d field
      | .never => writeUnquoted d field isFirst
      | .raw => extend field

/-! ## The writers of a record -/

/-- `write_delimiter`. -/
def writeDelimiter (d : Dialect) : Emit Unit := do
  push d.delimiter
  onlyIf (!d.delimiterTail.isEmpty) (extend d.delimiterTail.asSlice)

/-- `finish_record`. -/
def finishRecord (d : Dialect) : Emit Unit := do
  onlyIf (d.recordEnding = .crLf) (push 13)
  push d.recordEnding.byte
  onlyIf (!d.endingTail.isEmpty) (extend d.endingTail.asSlice)

/-- The fields after the first, each behind a delimiter; `count` fields come
    before them. -/
def writeRest (delimit : Emit Unit) (write : Bytes → Bool → Emit Unit) :
    List Bytes → (count : ℕ) → Emit ℕ
  | [], count => pure count
  | field :: fields, count => do
    delimit
    write field false
    writeRest delimit write fields (count + 1)

/-- The fields of a record, the first one told so. -/
def writeFields (delimit : Emit Unit) (write : Bytes → Bool → Emit Unit) (first : Bytes)
    (fields : List Bytes) : Emit ℕ := do
  write first true
  writeRest delimit write fields 1

/-- `emit_record_runtime`. -/
def emitRecordRuntime (d : Dialect) (quoting : Quoting) (fields : List Bytes) : Emit ℕ :=
  match fields with
  | [] => do
    finishRecord d
    pure 0
  | first :: fields =>
    match quoting with
    | .necessary => do
      let (count, empty) ← watch <|
        if d = .csv then writeFields (push 44) writeCsvNecessary first fields
        else writeFields (writeDelimiter d) (writeNecessary d) first fields
      onlyIf empty (extend [d.quote, d.quote])
      finishRecord d
      pure count
    | .nonNumeric => do
      let count ← writeFields (writeDelimiter d) (writeNonNumeric d) first fields
      finishRecord d
      pure count
    | .always => do
      let count ← writeFields (writeDelimiter d) (fun field _ => writeQuoted d field) first fields
      finishRecord d
      pure count
    | .never => do
      let count ← rollback (writeFields (writeDelimiter d) (writeUnquoted d) first fields)
      finishRecord d
      pure count
    | .raw => do
      let count ← writeFields (writeDelimiter d) (fun field _ => extend field) first fields
      finishRecord d
      pure count

/-- The loop of `emit_nullable_record_runtime`: `count` fields are written, and
    `onlyEmpty` tells whether the last was a non-NULL empty one. -/
def writeNullableFields (d : Dialect) (quoting : Quoting) (nulls : Nulls) :
    List (Option Bytes) → (count : ℕ) → (onlyEmpty : Bool) → Emit (ℕ × Bool)
  | [], count, onlyEmpty => pure (count, onlyEmpty)
  | none :: fields, count, onlyEmpty => do
    onlyIf (count ≠ 0) (writeDelimiter d)
    writeAbsent d quoting nulls
    writeNullableFields d quoting nulls fields (count + 1) (nulls == .none || onlyEmpty)
  | some field :: fields, count, _ => do
    onlyIf (count ≠ 0) (writeDelimiter d)
    writeConfiguredField d quoting nulls field (count + 1 == 1)
    writeNullableFields d quoting nulls fields (count + 1) field.isEmpty

/-- `emit_nullable_record_runtime`. -/
def emitNullableRecordRuntime (d : Dialect) (quoting : Quoting) (nulls : Nulls)
    (fields : List (Option Bytes)) : Emit ℕ := do
  let ((count, onlyEmpty), empty) ←
    watch (rollback (writeNullableFields d quoting nulls fields 0 false))
  onlyIf (count = 1 ∧ onlyEmpty ∧ empty ∧ quoting = .necessary) (extend [d.quote, d.quote])
  finishRecord d
  pure count

/-! ## Compile-time formats -/

/-- `F::OPTIONS`: the format a type parameter names, `none` for `Dynamic`. -/
abbrev CsvFormat := Option FormatOptions

def CsvFormat.dialect (F : CsvFormat) (d : Dialect) : Dialect :=
  match F with | some o => o.dialect | none => d

def CsvFormat.quoting (F : CsvFormat) (q : Quoting) : Quoting :=
  match F with | some o => o.quoting | none => q

def CsvFormat.nulls (F : CsvFormat) (n : Nulls) : Nulls :=
  match F with | some o => o.nulls | none => n

/-- `emit_record`. -/
def emitRecord (F : CsvFormat) (d : Dialect) (quoting : Quoting) (fields : List Bytes) : Emit ℕ :=
  emitRecordRuntime (F.dialect d) (F.quoting quoting) fields

/-- `emit_nullable_record`. -/
def emitNullableRecord (F : CsvFormat) (d : Dialect) (quoting : Quoting) (nulls : Nulls)
    (fields : List (Option Bytes)) : Emit ℕ :=
  emitNullableRecordRuntime (F.dialect d) (F.quoting quoting) (F.nulls nulls) fields

/-! ## The push-driven writer -/

/-- `DirectEncodeVisitor`. -/
structure Visitor where
  output : Bytes
  dialect : Dialect
  quoting : Quoting
  nulls : Nulls
  recordStart : ℕ
  fieldCount : ℕ
  onlyFieldWasNonNullEmpty : Bool
  deriving DecidableEq, Repr

namespace Visitor

variable (F : CsvFormat)

/-- `DirectEncodeVisitor::new`. -/
def new (output : Bytes) (d : Dialect) (quoting : Quoting) (nulls : Nulls) : Visitor where
  output
  dialect := F.dialect d
  quoting := F.quoting quoting
  nulls := F.nulls nulls
  recordStart := output.length
  fieldCount := 0
  onlyFieldWasNonNullEmpty := false

/-- Run a writer on the visitor's output. -/
def run (v : Visitor) (m : Emit Unit) : Except EmitError Unit × Visitor :=
  ((m v.output).1, { v with output := (m v.output).2 })

/-- The static format is plain CSV, written by the specialised writer. -/
def isCsv : Bool :=
  F.any fun o => o.dialect = .csv ∧ o.quoting = .necessary ∧ o.nulls = .none

/-- The field count and the flag of a field that is about to be written. -/
def count (v : Visitor) (field : Bytes) : Visitor :=
  { v with
    fieldCount := v.fieldCount + 1
    onlyFieldWasNonNullEmpty :=
      if v.fieldCount + 1 = 1 then field.isEmpty else v.onlyFieldWasNonNullEmpty }

/-- As `count`, for a NULL field. -/
def countNull (v : Visitor) : Visitor :=
  { v with
    fieldCount := v.fieldCount + 1
    onlyFieldWasNonNullEmpty := v.nulls == Nulls.none || v.onlyFieldWasNonNullEmpty }

/-- `DirectEncodeVisitor::write_field`. -/
def writeField (v : Visitor) (field : Bytes) : Except EmitError Unit × Visitor :=
  let isFirst := v.fieldCount + 1 == 1
  if isCsv F then
    (v.count field).run do
      onlyIf (v.fieldCount ≠ 0) (push 44)
      writeCsvNecessary field isFirst
  else
    (v.count field).run do
      onlyIf (v.fieldCount ≠ 0) (writeDelimiter v.dialect)
      -- `configured_path`
      if v.nulls = .none ∧ v.dialect.escape.escapesUnquoted = false then
        writeRecordField v.dialect v.quoting field isFirst
      else writeConfiguredField v.dialect v.quoting v.nulls field isFirst

/-- `DirectEncodeVisitor::write_null_field`. -/
def writeNullField (v : Visitor) : Except EmitError Unit × Visitor :=
  v.countNull.run do
    onlyIf (v.fieldCount ≠ 0) (writeDelimiter v.dialect)
    writeAbsent v.dialect v.quoting v.nulls

/-- `DirectEncodeVisitor::finish`, with the fixup of a lone empty field. -/
def finish (v : Visitor) : Except EmitError ℕ × Bytes :=
  (do
    onlyIf (v.fieldCount = 1 ∧ v.onlyFieldWasNonNullEmpty ∧ v.quoting = .necessary
        ∧ v.output.length = v.recordStart)
      (extend [v.dialect.quote, v.dialect.quote])
    finishRecord v.dialect
    pure v.fieldCount : Emit ℕ) v.output

end Visitor

end Coseva
