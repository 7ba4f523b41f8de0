/-
  Coseva — the push emitter (`coseva/src/push_emitter.rs`): the state of an
  output document and the operations that append one record to it.

  * `ByteRecord`: an owned record; one that is not NULL-aware has no NULL field,
    which its field `present` states;
  * `PushEmitter`: the buffer, the latched field count, the byte-order mark
    flag, the serde header state and the reused scratch;
  * `Op`, `PushEmitter.apply`, `PushEmitter.run`: an emit operation and a run of
    them.  An operation either commits, is refused with an error, or (a pending
    record dropped) does nothing.
-/
import Coseva.Serialize

namespace Coseva

open Append Append.M

/-! ## Records -/

/-- `ByteRecord`: decoded fields, `none` for an explicit NULL. -/
structure ByteRecord where
  fields : List (Option Bytes)
  nullAware : Bool
  present : nullAware = false → none ∉ fields
  deriving DecidableEq

namespace ByteRecord

/-- `ByteRecord::new`, and a record after `ByteRecord::clear`. -/
def empty : ByteRecord := ⟨[], false, by simp⟩

/-- `ByteRecord::push_field`. -/
def pushField (r : ByteRecord) (field : Bytes) : ByteRecord where
  fields := r.fields ++ [some field]
  nullAware := r.nullAware
  present h := by simpa using r.present h

/-- `ByteRecord::push_null`. -/
def pushNull (r : ByteRecord) : ByteRecord := ⟨r.fields ++ [none], true, by simp⟩

/-- `ByteRecord::iter`: a NULL field yields no bytes. -/
def iter (r : ByteRecord) : List Bytes := r.fields.map (·.getD [])

/-- A record built field by field. -/
def ofFields (fields : List (Option Bytes)) : ByteRecord :=
  fields.foldl (fun r field => field.elim r.pushNull r.pushField) empty

end ByteRecord

/-! ## The emitter -/

/-- `SerdeHeaderState`. -/
inductive SerdeHeaderState where
  | pending
  | written
  | disabled
  deriving DecidableEq, Repr

/-- `PushEmitter`. -/
structure PushEmitter where
  /-- encoded bytes the caller has not taken -/
  buffer : Bytes
  dialect : Dialect
  quoting : Quoting
  bom : WriteBom
  nulls : Nulls
  fieldCount : FieldCount
  expectedFields : Option ℕ
  /-- whether the document has been opened -/
  started : Bool
  serdeHeaders : SerdeHeaderState
  serdeHeader : List Bytes
  serdeScratch : Bytes
  builderScratch : ByteRecord
  deriving DecidableEq

/-- `validate_field_count`: the verdict, and the latched count. -/
def validateFieldCount (policy : FieldCount) (expected : Option ℕ) (actual : ℕ) :
    Except EmitError Unit × Option ℕ :=
  match policy with
  | .flexible => (.ok (), expected)
  | .exact required =>
    (if actual = required then .ok () else .error (.fieldCountMismatch required actual), expected)
  | .matchFirst =>
    match expected with
    | none => (.ok (), some actual)
    | some required =>
      (if actual = required then .ok () else .error (.fieldCountMismatch required actual), expected)

/-- The largest `usize`, and the largest allocation. -/
def usizeMax : ℕ := 2 ^ 64 - 1
def isizeMax : ℕ := 2 ^ 63 - 1

/-- `record_too_large`. -/
def recordTooLarge : EmitError := .encode "encoded record size overflows usize"

/-- `checked_add` and `checked_mul`. -/
def checkedAdd (a b : ℕ) : Except EmitError ℕ :=
  if a + b ≤ usizeMax then .ok (a + b) else .error recordTooLarge

def checkedMul (a b : ℕ) : Except EmitError ℕ :=
  if a * b ≤ usizeMax then .ok (a * b) else .error recordTooLarge

/-- The capacity `emit_slices_runtime` reserves. -/
def slicesCapacity (fields : List Bytes) : Except EmitError ℕ := do
  let overhead ← checkedMul fields.length 3
  let bytes ← fields.foldlM (fun bytes field => checkedAdd bytes field.length) 0
  let doubled ← checkedMul bytes 2
  let capacity ← checkedAdd doubled overhead
  checkedAdd capacity 2

/-- `emit_slices_runtime`; `grants` is the allocator: whether the output can
    be grown to a size. -/
def emitSlicesRuntime (grants : ℕ → Bool) (d : Dialect) (quoting : Quoting) (nulls : Nulls)
    (fields : List Bytes) : Emit ℕ := fun output =>
  match slicesCapacity fields with
  | .error e => (.error e, output)
  | .ok capacity =>
    -- `reserve_output_capacity`
    if grants (output.length + capacity) = false then
      (.error (.encode "emitter output allocation failed"), output)
    else if nulls = .none ∧ d.escape.escapesUnquoted = false then
      emitRecordRuntime d quoting fields output
    else emitNullableRecordRuntime d quoting nulls (fields.map some) output

namespace PushEmitter

/-- `PushEmitter::from_config`. -/
def fromConfig (buffer : Bytes) (d : Dialect) (quoting : Quoting) (writeBom : WriteBom)
    (nulls : Nulls) (fieldCount : FieldCount) (hasHeaders : Bool) : PushEmitter where
  buffer
  dialect := d
  quoting
  bom := writeBom
  nulls
  fieldCount
  expectedFields := none
  started := !buffer.isEmpty
  serdeHeaders :=
    if !hasHeaders then .disabled else if !buffer.isEmpty then .written else .pending
  serdeHeader := []
  serdeScratch := []
  builderScratch := .empty

/-- `PushEmitter::new` and `with_options`: an emitter over an empty buffer, of
    a format that construction accepts. -/
def new (o : FormatSettings) (_valid : o.Valid) (fieldCount : FieldCount) (hasHeaders : Bool) :
    PushEmitter :=
  fromConfig [] o.dialect o.quoting o.writeBom o.nulls fieldCount hasHeaders

/-- `PushEmitter::commit`: the byte-order mark is spliced in when the first
    record is accepted. -/
def commit (s : PushEmitter) : PushEmitter :=
  if s.started then s
  else { s with
    started := true
    buffer := if s.bom = .emit then Coseva.bom ++ s.buffer else s.buffer }

/-- `PushEmitter::rollback`. -/
def rollback (s : PushEmitter) (start : ℕ) : PushEmitter :=
  { s with buffer := s.buffer.take start }

/-- `PushEmitter::finish_record`. -/
def finishRecord (s : PushEmitter) (start : ℕ) (encoded : Except EmitError ℕ) :
    Except EmitError Unit × PushEmitter :=
  match encoded with
  | .error e => (.error e, s.rollback start)
  | .ok count =>
    match validateFieldCount s.fieldCount s.expectedFields count with
    | (.error e, expected) => (.error e, { s with expectedFields := expected }.rollback start)
    | (.ok (), expected) => (.ok (), { s with expectedFields := expected }.commit)

/-- Encode with `m`, then validate and commit, or roll back. -/
def encodeWith (s : PushEmitter) (m : Emit ℕ) : Except EmitError Unit × PushEmitter :=
  { s with buffer := (m s.buffer).2 }.finishRecord s.buffer.length (m s.buffer).1

variable (F : CsvFormat)

/-- `PushEmitter::emit_record`. -/
def emitRecord (s : PushEmitter) (fields : List Bytes) : Except EmitError Unit × PushEmitter :=
  s.encodeWith <|
    if F.nulls s.nulls = .none ∧ (F.dialect s.dialect).escape.escapesUnquoted = false then
      Coseva.emitRecord F s.dialect s.quoting fields
    else emitNullableRecord F s.dialect s.quoting s.nulls (fields.map some)

/-- `PushEmitter::emit_slices`. -/
def emitSlices (s : PushEmitter) (grants : ℕ → Bool) (fields : List Bytes) :
    Except EmitError Unit × PushEmitter :=
  s.encodeWith (emitSlicesRuntime grants s.dialect s.quoting s.nulls fields)

/-- `PushEmitter::emit_nullable_record`. -/
def emitNullable (s : PushEmitter) (fields : List (Option Bytes)) :
    Except EmitError Unit × PushEmitter :=
  s.encodeWith (emitNullableRecord F s.dialect s.quoting s.nulls fields)

/-- `PushEmitter::emit_byte_record`. -/
def emitByteRecord (s : PushEmitter) (r : ByteRecord) : Except EmitError Unit × PushEmitter :=
  if r.nullAware then s.emitNullable F r.fields else s.emitRecord F r.iter

/-- The record a visitor frames when an encoding drives it. -/
def visited (s : PushEmitter) (value : Encoding) : Emit ℕ := fun output =>
  match value.run F (.new F output s.dialect s.quoting s.nulls) with
  | (.error e, v) => (.error e, v.output)
  | (.ok (), v) => v.finish

/-- `PushEmitter::encode`. -/
def encode (s : PushEmitter) (value : Encoding) : Except EmitError Unit × PushEmitter :=
  s.encodeWith (visited F s value)

/-- `PushEmitter::serialize_direct_record`. -/
def serializeDirectRecord (s : PushEmitter) (value : Value) (allowNested : Bool) :
    Except EmitError Unit × PushEmitter :=
  let r := serializeDirect F value s.buffer s.dialect s.quoting s.nulls allowNested
  { s with buffer := r.2.1, serdeScratch := r.2.2 }.finishRecord s.buffer.length r.1

/-- `PushEmitter::commit_first_with_headers`. -/
def commitFirstWithHeaders (s : PushEmitter) (start : ℕ) (headers : List Bytes)
    (outcome : Except EmitError (Bool × ℕ)) : Except EmitError Unit × PushEmitter :=
  match outcome with
  | .error e => (.error e, s.rollback start)
  | .ok (true, _) =>
    match emitNullableRecordRuntime (F.dialect s.dialect) (F.quoting s.quoting) (F.nulls s.nulls)
        (headers.map some) [] with
    | (.error e, _) => (.error e, s.rollback start)
    | (.ok count, header) =>
      match validateFieldCount s.fieldCount s.expectedFields count with
      | (.error e, _) => (.error e, s.rollback start)
      | (.ok (), expected) =>
        (.ok (), { s with
          buffer := s.buffer.take start ++ header ++ s.buffer.drop start
          expectedFields := expected }.commit)
  | .ok (false, count) =>
    match validateFieldCount s.fieldCount s.expectedFields count with
    | (.error e, _) => (.error e, s.rollback start)
    | (.ok (), expected) => (.ok (), { s with expectedFields := expected }.commit)

/-- A committed first record settles the header state. -/
def headersWritten (r : Except EmitError Unit × PushEmitter) : Except EmitError Unit × PushEmitter :=
  match r with
  | (.ok (), s) => (.ok (), { s with serdeHeaders := .written })
  | (.error e, s) => (.error e, s)

/-- `PushEmitter::serialize_first_with_headers`. -/
def serializeFirstWithHeaders (s : PushEmitter) (value : Value) :
    Except EmitError Unit × PushEmitter :=
  let r := serializeDirectWithHeaders F value s.buffer s.dialect s.quoting s.nulls
  let s' := { s with buffer := r.2.1, serdeScratch := r.2.2.1, serdeHeader := r.2.2.2 }
  headersWritten (s'.commitFirstWithHeaders F s.buffer.length r.2.2.2 r.1)

/-- `PushEmitter::serialize`. -/
def serialize (s : PushEmitter) (value : Value) : Except EmitError Unit × PushEmitter :=
  match s.serdeHeaders with
  | .pending => s.serializeFirstWithHeaders F value
  | .written => s.serializeDirectRecord F value false
  | .disabled => s.serializeDirectRecord F value true

/-- `begin_record`, the fields written to the guard, and `finish`.  The guard's
    staging record starts cleared and is given back. -/
def buildRecord (s : PushEmitter) (fields : List (Option Bytes)) :
    Except EmitError Unit × PushEmitter :=
  let record := ByteRecord.ofFields fields
  let r := { s with builderScratch := ByteRecord.empty }.emitByteRecord F record
  (r.1, { r.2 with builderScratch := record })

/-- `begin_record`, fields, and the guard dropped. -/
def dropRecord (s : PushEmitter) (fields : List (Option Bytes)) : PushEmitter :=
  { s with builderScratch := .ofFields fields }

end PushEmitter

/-! ## Runs -/

/-- An emit operation. -/
inductive Op where
  | emitRecord (fields : List Bytes)
  | emitSlices (grants : ℕ → Bool) (fields : List Bytes)
  | emitNullableRecord (fields : List (Option Bytes))
  | emitByteRecord (record : ByteRecord)
  | encode (value : Encoding)
  | serialize (value : Value)
  /-- begin a record, write fields, and finish it -/
  | buildRecord (fields : List (Option Bytes))
  /-- begin a record, write fields, and drop it -/
  | dropRecord (fields : List (Option Bytes))

namespace PushEmitter

variable (F : CsvFormat)

/-- One operation: whether a record was committed, or the error. -/
def apply (s : PushEmitter) : Op → Except EmitError Bool × PushEmitter
  | .emitRecord fields => committed (s.emitRecord F fields)
  | .emitSlices grants fields => committed (s.emitSlices grants fields)
  | .emitNullableRecord fields => committed (s.emitNullable F fields)
  | .emitByteRecord record => committed (s.emitByteRecord F record)
  | .encode value => committed (s.encode F value)
  | .serialize value => committed (s.serialize F value)
  | .buildRecord fields => committed (s.buildRecord F fields)
  | .dropRecord fields => (.ok false, s.dropRecord fields)
where
  committed (r : Except EmitError Unit × PushEmitter) : Except EmitError Bool × PushEmitter :=
    (r.1.map fun _ => true, r.2)

/-- The operation commits a record. -/
def commits (s : PushEmitter) (op : Op) : Bool := (s.apply F op).1 matches .ok true

/-- A run of operations. -/
def run (s : PushEmitter) (ops : List Op) : PushEmitter :=
  ops.foldl (fun s op => (s.apply F op).2) s

/-- The operations of a run that commit a record. -/
def committing : PushEmitter → List Op → List Op
  | _, [] => []
  | s, op :: ops =>
    if s.commits F op then op :: committing (s.apply F op).2 ops
    else committing (s.apply F op).2 ops

end PushEmitter

end Coseva
