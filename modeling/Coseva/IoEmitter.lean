/-
  Coseva — the emitter of an output stream (`coseva/src/io_emitter.rs`).

  * `Sink`: a destination that takes any part of what it is offered, asks for a
    retry, or fails;
  * `Output`: a sink, with the bytes it has confirmed;
  * `writeConfirmed`, `IoEmitter.drain`, `IoEmitter.commit`: how buffered bytes
    reach it;
  * `IoOp`, `Session.step`, `Session.run`: the calls of an emitter, up to the
    one that takes its sink.
-/
import Coseva.EmitRun

namespace Coseva

/-! ## The sink -/

/-- What a sink answers to an offered write. -/
inductive WriteAnswer (E : Type) where
  | ok (count : ℕ)
  | interrupted
  | error (e : E)
  deriving DecidableEq, Repr

/-- `io::Write`: a write that returns a count has consumed that many of the
    first bytes it was offered. -/
structure Sink (σ E : Type) where
  write : σ → Bytes → WriteAnswer E × σ
  flush : σ → Except E Unit × σ
  write_le : ∀ s buffer count, (write s buffer).1 = .ok count → count ≤ buffer.length

/-- Why output failed. -/
inductive IoFailure (E : Type) where
  /-- `ErrorKind::WriteZero` -/
  | writeZero
  | sink (e : E)
  deriving DecidableEq, Repr

/-- A sink in use: the bytes it has confirmed, and how often it was called. -/
structure Output (σ : Type) where
  sink : σ
  confirmed : Bytes
  calls : ℕ
  deriving DecidableEq, Repr

section sink

variable {σ E : Type} (sink : Sink σ E)

/-- `write_confirmed`; `none` when the sink has not come to an end in `fuel`
    turns. -/
def writeConfirmed (buffer : Bytes) :
    (fuel : ℕ) → (written : ℕ) → Output σ → Option (Except (ℕ × IoFailure E) Unit × Output σ)
  | 0, _, _ => none
  | fuel + 1, written, output =>
    if written < buffer.length then
      let offered := buffer.drop written
      match sink.write output.sink offered with
      | (.ok 0, state) =>
        some (.error (written, .writeZero), { output with sink := state, calls := output.calls + 1 })
      | (.ok count, state) =>
        writeConfirmed buffer fuel (written + count)
          ⟨state, output.confirmed ++ offered.take count, output.calls + 1⟩
      | (.interrupted, state) =>
        writeConfirmed buffer fuel written { output with sink := state, calls := output.calls + 1 }
      | (.error e, state) =>
        some (.error (written, .sink e), { output with sink := state, calls := output.calls + 1 })
    else some (.ok (), output)

end sink

/-! ## The emitter -/

/-- The error of an emitter's call. -/
inductive IoError (E : Type) where
  /-- `ErrorKind::EmitterFailed`: stopped after an earlier I/O error -/
  | emitterFailed
  | emit (e : EmitError)
  | io (failure : IoFailure E)
  /-- the sink is taken only by value -/
  | panic
  deriving DecidableEq, Repr

/-- `IoEmitter`. -/
structure IoEmitter (σ : Type) where
  /-- its buffer holds the records that await a write -/
  core : PushEmitter
  output : Option (Output σ)
  threshold : ℕ
  previousDrain : ℕ
  /-- latched once a write fails -/
  failed : Bool

namespace IoEmitter

variable {σ E : Type}

/-- `from_config`, over a format that construction accepts. -/
def new (state : σ) (o : FormatSettings) (valid : o.Valid) (fieldCount : FieldCount)
    (hasHeaders : Bool) (bufferCapacity : ℕ) : IoEmitter σ where
  core := .new o valid fieldCount hasHeaders
  output := some ⟨state, [], 0⟩
  threshold := bufferCapacity
  previousDrain := 0
  failed := false

/-- `pending`. -/
def pending (s : IoEmitter σ) : Bytes := s.core.buffer

/-- What a call comes to; `none` when the sink keeps it. -/
abbrev Call (σ E : Type) := Option (Except (IoError E) Unit × IoEmitter σ)

section calls

variable (sink : Sink σ E) (fuel : ℕ) (F : CsvFormat)

/-- `drain`; capacities are not kept. -/
def drain (s : IoEmitter σ) : Call σ E :=
  match s.output with
  | none => some (.ok (), s)
  | some output =>
    if s.core.buffer.isEmpty then some (.ok (), s)
    else
      (writeConfirmed sink s.core.buffer fuel 0 output).map fun
        | (.ok (), output) =>
          (.ok (), { s with
            core := { s.core with buffer := [] }
            output := some output
            previousDrain := s.core.buffer.length })
        | (.error (written, failure), output) =>
          (.error (.io failure), { s with
            core := { s.core with buffer := s.core.buffer.drop written }
            output := some output
            previousDrain := s.core.buffer.length
            failed := true })

/-- `commit`. -/
def commit (s : IoEmitter σ) : Call σ E :=
  if s.core.buffer.length ≥ s.threshold then s.drain sink fuel else some (.ok (), s)

/-- `check_failed`, an operation of the core, and `commit`. -/
def accept (s : IoEmitter σ) (op : PushEmitter → Except EmitError Unit × PushEmitter) : Call σ E :=
  if s.failed then some (.error .emitterFailed, s)
  else
    match op s.core with
    | (.error e, core) => some (.error (.emit e), { s with core })
    | (.ok (), core) => { s with core }.commit sink fuel

def emitRecord (s : IoEmitter σ) (fields : List Bytes) : Call σ E :=
  s.accept sink fuel fun core => core.emitRecord F fields

/-- `emit_byte_record`, and `emit_text_record` of a record with those fields. -/
def emitByteRecord (s : IoEmitter σ) (record : ByteRecord) : Call σ E :=
  s.accept sink fuel fun core => core.emitByteRecord F record

def emitNullableRecord (s : IoEmitter σ) (fields : List (Option Bytes)) : Call σ E :=
  s.accept sink fuel fun core => core.emitNullable F fields

/-- `encode_header`, of a type with those field names. -/
def encodeHeader (s : IoEmitter σ) (fieldNames : List Bytes) : Call σ E :=
  s.accept sink fuel fun core => core.emitRecord F fieldNames

def encode (s : IoEmitter σ) (value : Encoding) : Call σ E :=
  s.accept sink fuel fun core => core.encode F value

def serialize (s : IoEmitter σ) (value : Value) : Call σ E :=
  s.accept sink fuel fun core => core.serialize F value

/-- `begin_record`, the fields written to the guard, and `finish`.  The guard
    has the core's staging record until it is dropped. -/
def buildRecord (s : IoEmitter σ) (fields : List (Option Bytes)) : Call σ E :=
  let record := ByteRecord.ofFields fields
  let s := { s with core := { s.core with builderScratch := .empty } }
  (s.emitByteRecord sink fuel F record).map fun (result, s) =>
    (result, { s with core := { s.core with builderScratch := record } })

/-- `begin_record`, fields, and the guard dropped. -/
def dropRecord (s : IoEmitter σ) (fields : List (Option Bytes)) : IoEmitter σ :=
  { s with core := s.core.dropRecord fields }

/-- `flush`. -/
def flush (s : IoEmitter σ) : Call σ E :=
  if s.failed then some (.error .emitterFailed, s)
  else
    (s.drain sink fuel).map fun
      | (.error e, s) => (.error e, s)
      | (.ok (), s) =>
        match s.output with
        | none => (.error .panic, s)
        | some output =>
          match sink.flush output.sink with
          | (.ok (), state) =>
            (.ok (), { s with output := some { output with sink := state, calls := output.calls + 1 } })
          | (.error e, state) =>
            (.error (.io (.sink e)), { s with
              output := some { output with sink := state, calls := output.calls + 1 }
              failed := true })

end calls

end IoEmitter

/-! ## Runs -/

/-- A call of an emitter. -/
inductive IoOp where
  | emitRecord (fields : List Bytes)
  | emitByteRecord (record : ByteRecord)
  | emitNullableRecord (fields : List (Option Bytes))
  | encodeHeader (fieldNames : List Bytes)
  | encode (value : Encoding)
  | serialize (value : Value)
  /-- begin a record, write fields, and finish it -/
  | buildRecord (fields : List (Option Bytes))
  /-- begin a record, write fields, and drop it -/
  | dropRecord (fields : List (Option Bytes))
  | flush
  | intoInner

/-- The operation that a push emitter is asked for in place of the call. -/
def IoOp.op : IoOp → Option Op
  | .emitRecord fields => some (.emitRecord fields)
  | .emitByteRecord record => some (.emitByteRecord record)
  | .emitNullableRecord fields => some (.emitNullableRecord fields)
  | .encodeHeader fieldNames => some (.emitRecord fieldNames)
  | .encode value => some (.encode value)
  | .serialize value => some (.serialize value)
  | .buildRecord fields => some (.buildRecord fields)
  | .dropRecord _ | .flush | .intoInner => none

/-- An emitter in use, or the sink that `into_inner` has handed back. -/
inductive Session (σ : Type) where
  | live (s : IoEmitter σ)
  | taken (output : Output σ)

namespace Session

variable {σ E : Type}

def output : Session σ → Option (Output σ)
  | .live s => s.output
  | .taken output => some output

/-- The bytes that the sink has confirmed. -/
def confirmed (session : Session σ) : Bytes := (session.output.map (·.confirmed)).getD []

/-- `pending`; with its sink, an emitter gives up its buffer. -/
def pending : Session σ → Bytes
  | .live s => s.pending
  | .taken _ => []

section run

variable (sink : Sink σ E) (fuel : ℕ) (F : CsvFormat)

/-- `into_inner`: the sink, or the emitter with the error. -/
def intoInner (s : IoEmitter σ) : Option (Except (IoError E) Unit × Session σ) :=
  (s.flush sink fuel).map fun
    | (.error e, s) => (.error e, .live s)
    | (.ok (), s) =>
      match s.output with
      | none => (.error .panic, .live s)
      | some output => (.ok (), .taken output)

/-- One call.  None can be made once the sink is taken. -/
def step : Session σ → IoOp → Option (Except (IoError E) Unit × Session σ)
  | .taken output, _ => some (.ok (), .taken output)
  | .live s, op =>
    match op with
    | .emitRecord fields => live' (s.emitRecord sink fuel F fields)
    | .emitByteRecord record => live' (s.emitByteRecord sink fuel F record)
    | .emitNullableRecord fields => live' (s.emitNullableRecord sink fuel F fields)
    | .encodeHeader fieldNames => live' (s.encodeHeader sink fuel F fieldNames)
    | .encode value => live' (s.encode sink fuel F value)
    | .serialize value => live' (s.serialize sink fuel F value)
    | .buildRecord fields => live' (s.buildRecord sink fuel F fields)
    | .dropRecord fields => some (.ok (), .live (s.dropRecord fields))
    | .flush => live' (s.flush sink fuel)
    | .intoInner => intoInner sink fuel s
where
  live' (call : IoEmitter.Call σ E) : Option (Except (IoError E) Unit × Session σ) :=
    call.map fun (result, s) => (result, .live s)

/-- The record that a call adds to the output, if the core accepts it. -/
def accepts (session : Session σ) (op : IoOp) : List Op :=
  match session, op.op with
  | .live s, some record => if s.failed = false ∧ s.core.commits F record then [record] else []
  | _, _ => []

/-- The session after a run of calls, what each call returned, and the records
    that were accepted; `none` when one of the calls has not returned. -/
def run (session : Session σ) :
    List IoOp → Option (Session σ × List (Except (IoError E) Unit) × List Op)
  | [] => some (session, [], [])
  | op :: ops => do
    let (result, next) ← session.step sink fuel F op
    let (last, results, records) ← next.run ops
    some (last, result :: results, session.accepts F op ++ records)

end run

end Session

end Coseva
