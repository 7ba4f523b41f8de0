/-
  Coseva — typed values written through the visitor (`encoding/csv_encode.rs`,
  `encoding/encode_visitor.rs`, `serde/serializer.rs`, `serde/record.rs`).

  A user's implementation is a tree of the calls it makes, branching on what
  each call returns, so that it may swallow an error or raise one of its own.

  * `Encoding`: a `CsvEncode` value, by the visitor calls it makes;
  * `Value`: a `Serialize` value, by the serializer calls it makes; the text of
    a scalar is what `itoa`, `ryu` or the value itself supplies;
  * `serializeDirect`, `serializeDirectWithHeaders`: a value framed straight
    into the output, without and with its field names.
-/
import Coseva.Emit

namespace Coseva

open Append Append.M

variable (F : CsvFormat)

/-! ## Native values -/

/-- The visitor calls of `CsvEncode::csv_encode`. -/
inductive Encoding where
  | done (result : Except EmitError Unit)
  | visitField (bytes : Bytes) (next : Except EmitError Unit → Encoding)
  | visitNull (next : Except EmitError Unit → Encoding)

namespace Encoding

/-- `value.csv_encode(&mut visitor)`. -/
def run : Encoding → Visitor → Except EmitError Unit × Visitor
  | .done result, v => (result, v)
  | .visitField bytes next, v => (next (v.writeField F bytes).1).run (v.writeField F bytes).2
  | .visitNull next, v => (next v.writeNullField.1).run v.writeNullField.2

/-- The encoding that visits fields in order and stops at the first error, as
    the derived implementations do. -/
def ofFields : List (Option Bytes) → Encoding
  | [] => .done (.ok ())
  | some field :: fields => .visitField field fun
    | .ok () => ofFields fields
    | .error e => .done (.error e)
  | none :: fields => .visitNull fun
    | .ok () => ofFields fields
    | .error e => .done (.error e)

end Encoding

/-! ## Serde values -/

/-- The enum variants that carry data. -/
inductive Variant where
  | newtype
  | tuple
  | struct
  deriving DecidableEq, Repr

/-- The shapes with elements. -/
inductive Compound where
  | seq
  | tuple
  | tupleStruct
  | struct
  deriving DecidableEq, Repr

mutual

/-- The serializer calls of `Serialize::serialize`. -/
inductive Value where
  /-- a boolean, number, character, string, byte string or unit variant -/
  | scalar (text : Bytes)
  | none
  | some (value : Value)
  /-- a unit or a unit struct -/
  | unit
  | newtypeStruct (value : Value)
  | variant (shape : Variant)
  | map
  | compound (shape : Compound) (elements : Elements)
  /-- `collect_str`: the pieces a `Display` writes, and whether it ends well -/
  | display (pieces : List Bytes) (ok : Bool)
  /-- an implementation that fails by itself -/
  | fails (error : EmitError)
  /-- one that fails after a call -/
  | failsAfter (value : Value) (error : EmitError)

/-- The calls on the elements of a compound value; only a struct reads the
    key. -/
inductive Elements where
  | done
  | fails (error : EmitError)
  | element (key : Bytes) (value : Value) (next : Except EmitError Unit → Elements)

end

/-- `DirectSink`: fields framed into the output, and those built in pieces. -/
structure DirectSink where
  visitor : Visitor
  scratch : Bytes

namespace DirectSink

/-- `DirectSink::new`. -/
def new (output : Bytes) (d : Dialect) (quoting : Quoting) (nulls : Nulls) : DirectSink where
  visitor := .new F output d quoting nulls
  scratch := []

def appendField (s : DirectSink) (field : Bytes) : Except EmitError Unit × DirectSink :=
  ((s.visitor.writeField F field).1, { s with visitor := (s.visitor.writeField F field).2 })

def extendBytes (s : DirectSink) (bytes : Bytes) : DirectSink :=
  { s with scratch := s.scratch ++ bytes }

def finishField (s : DirectSink) : Except EmitError Unit × DirectSink :=
  ((s.visitor.writeField F s.scratch).1,
    ⟨(s.visitor.writeField F s.scratch).2, []⟩)

def finishNullField (s : DirectSink) : Except EmitError Unit × DirectSink :=
  (s.visitor.writeNullField.1, { s with visitor := s.visitor.writeNullField.2 })

/-- `format_into_record`. -/
def format (s : DirectSink) (pieces : List Bytes) (ok : Bool) :
    Except EmitError Unit × DirectSink :=
  (if ok then .ok () else .error (.serde "display value could not be formatted"),
    pieces.foldl extendBytes s)

end DirectSink

/-- `FieldSerializer`. -/
structure FieldSerializer where
  sink : DirectSink
  null : Bool
  complete : Bool

/-- The refusals of `FieldSerializer`. -/
def Variant.fieldError : Variant → EmitError
  | .newtype => .serde "newtype enum variants are not supported as CSV field values"
  | .tuple => .serde
    "tuple enum variants are not supported as CSV field values; only unit variants are allowed"
  | .struct => .serde
    "struct enum variants are not supported as CSV field values; only unit variants are allowed"

def Compound.fieldError : Compound → EmitError
  | .seq => .serde
    "sequences are not supported as CSV field values; use a top-level sequence for multiple fields"
  | .tuple => .serde "tuples are not supported as CSV field values"
  | .tupleStruct => .serde "tuple structs are not supported as CSV field values"
  | .struct => .serde
    "structs are not supported as CSV field values; use a top-level struct for named fields"

/-- `value.serialize(&mut field)` for a `FieldSerializer`. -/
def Value.serializeField : Value → FieldSerializer → Except EmitError Unit × FieldSerializer
  | .scalar text, f =>
    match f.sink.appendField F text with
    | (.ok (), sink) => (.ok (), { f with sink, complete := true })
    | (.error e, sink) => (.error e, { f with sink })
  | .none, f => (.ok (), { f with null := true })
  | .some value, f | .newtypeStruct value, f => value.serializeField f
  | .unit, f => (.ok (), f)
  | .variant shape, f => (.error shape.fieldError, f)
  | .map, f => (.error (.serde "maps are not supported as CSV field values"), f)
  | .compound shape _, f => (.error shape.fieldError, f)
  | .display pieces ok, f => ((f.sink.format pieces ok).1, { f with sink := (f.sink.format pieces ok).2 })
  | .fails error, f => (.error error, f)
  | .failsAfter value error, f =>
    match value.serializeField f with
    | (.ok (), f) => (.error error, f)
    | (.error e, f) => (.error e, f)

/-- `Nesting`. -/
inductive Nesting where
  | reject
  | flatten
  deriving DecidableEq, Repr

/-- `Nesting::from`. -/
def Nesting.ofBool (allowNested : Bool) : Nesting := if allowNested then .flatten else .reject

/-- `HeaderState`. -/
structure HeaderState where
  record : List Bytes
  named : Bool
  deriving DecidableEq, Repr

/-- `RecordSerializer`. -/
structure RecordSerializer where
  sink : DirectSink
  headers : Option HeaderState
  nesting : Nesting

namespace RecordSerializer

/-- Run a sink operation. -/
def onSink (ser : RecordSerializer) (r : Except EmitError Unit × DirectSink) :
    Except EmitError Unit × RecordSerializer := (r.1, { ser with sink := r.2 })

/-- The serializer `push_value` hands the sink to when nesting is flattened. -/
def nested (ser : RecordSerializer) : RecordSerializer := { ser with headers := Option.none }

/-- `push_value` when nesting is rejected: the value is one field. -/
def pushField (ser : RecordSerializer) (value : Value) : Except EmitError Unit × RecordSerializer :=
  match value.serializeField F ⟨ser.sink, false, false⟩ with
  | (.error e, f) => ser.onSink (.error e, f.sink)
  | (.ok (), f) =>
    if f.null then ser.onSink f.sink.finishNullField
    else if f.complete then ser.onSink (.ok (), f.sink)
    else ser.onSink (f.sink.finishField F)

/-- The key of a struct field. -/
def noteKey (ser : RecordSerializer) (shape : Compound) (key : Bytes) : RecordSerializer :=
  if shape = .struct then
    { ser with headers := ser.headers.map fun h => { h with record := h.record ++ [key] } }
  else ser

end RecordSerializer

/-- The refusals of `RecordSerializer`. -/
def Variant.recordError : Variant → EmitError
  | .newtype => .serde
    "newtype enum variants are not supported in CSV serialization; only unit variants are allowed"
  | .tuple => .serde
    "tuple enum variants are not supported in CSV serialization; only unit variants are allowed"
  | .struct => .serde
    "struct enum variants are not supported in CSV serialization; only unit variants are allowed"

mutual

/-- `value.serialize(&mut ser)` for a `RecordSerializer`. -/
def Value.serializeRecord : Value → RecordSerializer → Except EmitError Unit × RecordSerializer
  | .scalar text, ser => ser.onSink (ser.sink.appendField F text)
  | .none, ser => ser.onSink ser.sink.finishNullField
  | .some value, ser | .newtypeStruct value, ser => value.serializeRecord ser
  | .unit, ser => ser.onSink (ser.sink.finishField F)
  | .variant shape, ser => (.error shape.recordError, ser)
  | .map, ser => (.error (.serde
      "maps cannot be serialized as a CSV record; use a struct or tuple for typed CSV output"), ser)
  | .compound shape elements, ser =>
    elements.serialize shape
      (if shape = .struct then
        { ser with headers := ser.headers.map fun h => { h with named := true } }
      else ser)
  | .display pieces ok, ser =>
    match ser.sink.format pieces ok with
    | (.ok (), sink) => ser.onSink (sink.finishField F)
    | (.error e, sink) => ser.onSink (.error e, sink)
  | .fails error, ser => (.error error, ser)
  | .failsAfter value error, ser =>
    match value.serializeRecord ser with
    | (.ok (), ser) => (.error error, ser)
    | (.error e, ser) => (.error e, ser)

/-- The elements of a compound value, each by `push_value`. -/
def Elements.serialize : Elements → Compound → RecordSerializer →
    Except EmitError Unit × RecordSerializer
  | .done, _, ser => (.ok (), ser)
  | .fails error, _, ser => (.error error, ser)
  | .element key value next, shape, ser =>
    let ser := ser.noteKey shape key
    if ser.nesting = .flatten then
      let r := value.serializeRecord ser.nested
      (next r.1).serialize shape { ser with sink := r.2.sink }
    else
      (next (ser.pushField F value).1).serialize shape (ser.pushField F value).2

end

/-- `serialize_direct`, with the output and the scratch it leaves. -/
def serializeDirect (value : Value) (output : Bytes) (d : Dialect) (quoting : Quoting)
    (nulls : Nulls) (allowNested : Bool) : Except EmitError ℕ × Bytes × Bytes :=
  let sink := DirectSink.new F output d quoting nulls
  match value.serializeRecord F ⟨sink, Option.none, .ofBool allowNested⟩ with
  | (.error e, ser) => (.error e, ser.sink.visitor.output, ser.sink.scratch)
  | (.ok (), ser) => (ser.sink.visitor.finish.1, ser.sink.visitor.finish.2, ser.sink.scratch)

/-- `serialize_direct_with_headers`, with the output, the scratch and the
    header record it leaves. -/
def serializeDirectWithHeaders (value : Value) (output : Bytes) (d : Dialect) (quoting : Quoting)
    (nulls : Nulls) : Except EmitError (Bool × ℕ) × Bytes × Bytes × List Bytes :=
  let sink := DirectSink.new F output d quoting nulls
  match value.serializeRecord F ⟨sink, Option.some ⟨[], false⟩, .reject⟩ with
  | (.error e, ser) =>
    (.error e, ser.sink.visitor.output, ser.sink.scratch, ser.headers.elim [] (·.record))
  | (.ok (), ser) =>
    (ser.sink.visitor.finish.1.map fun count => (ser.headers.any (·.named), count),
      ser.sink.visitor.finish.2, ser.sink.scratch, ser.headers.elim [] (·.record))

end Coseva
