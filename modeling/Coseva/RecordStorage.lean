/-
  Coseva — owned records (`coseva_unsafe/src/storage/record_storage.rs`).

  All fields of a record share one byte buffer and one list of endpoints; the top
  bit of an endpoint marks a NULL.

  * `RecordStorage`: the buffer and the endpoints, and every operation on them;
  * `RecordOp`: what a caller or a parser does to a record;
  * `Fields`: the record as a list of optional byte strings;
  * `RecordStorage.Stores`: the buffer and the endpoints are those of the list;
  * `RecordStorage.run_refines`: **every run on the buffer is the run on the
    list**, and no read leaves the buffer.
-/
import Coseva.Buffer

namespace Coseva

/-! ## Endpoints -/

namespace Endpoint

variable {n : ℕ}

/-- `NULL_END_FLAG`, in words of `n + 1` bits. -/
def nullEndFlag (n : ℕ) : BitVec (n + 1) := 1#(n + 1) <<< n

/-- `MAX_FIELD_OFFSET`, which is also the most bytes that a `Vec` holds. -/
def maxFieldOffset (n : ℕ) : ℕ := 2 ^ n - 1

/-- `end_offset`. -/
def endOffset (raw : BitVec (n + 1)) : ℕ := (raw &&& ~~~nullEndFlag n).toNat

/-- `end_is_null`. -/
def endIsNull (raw : BitVec (n + 1)) : Bool := raw &&& nullEndFlag n != 0

/-- `encode_end`. -/
def encodeEnd (n offset : ℕ) (isNull : Bool) : BitVec (n + 1) :=
  if isNull then .ofNat (n + 1) offset ||| nullEndFlag n else .ofNat (n + 1) offset

theorem getLsbD_nullEndFlag (i : ℕ) : (nullEndFlag n).getLsbD i = decide (i = n) := by
  rw [nullEndFlag, BitVec.getLsbD_shiftLeft, BitVec.getLsbD_one]
  by_cases h : i = n
  · simp [h]
  · simp only [h, decide_false, Bool.and_eq_false_iff, decide_eq_false_iff_not, Bool.not_eq_false',
      decide_eq_true_eq]
    omega

theorem lt_of_le_maxFieldOffset {offset : ℕ} (h : offset ≤ maxFieldOffset n) : offset < 2 ^ n := by
  have := Nat.two_pow_pos n
  unfold maxFieldOffset at h
  omega

theorem toNat_offset {offset : ℕ} (h : offset ≤ maxFieldOffset n) :
    (BitVec.ofNat (n + 1) offset).toNat = offset := by
  rw [BitVec.toNat_ofNat, Nat.mod_eq_of_lt]
  exact Nat.lt_of_lt_of_le (lt_of_le_maxFieldOffset h) (Nat.pow_le_pow_right (by decide) (by omega))

theorem getLsbD_encodeEnd {offset : ℕ} (h : offset ≤ maxFieldOffset n) (isNull : Bool) {i : ℕ}
    (hi : i < n + 1) :
    (encodeEnd n offset isNull).getLsbD i = if i < n then offset.testBit i else isNull := by
  have hoffset : (BitVec.ofNat (n + 1) offset).getLsbD i = if i < n then offset.testBit i else false := by
    rw [BitVec.getLsbD_ofNat, decide_eq_true hi, Bool.true_and]
    split_ifs with hlow
    · rfl
    · exact Nat.testBit_lt_two_pow (Nat.lt_of_lt_of_le (lt_of_le_maxFieldOffset h)
        (Nat.pow_le_pow_right (by decide) (Nat.le_of_not_lt hlow)))
  cases isNull
  · exact hoffset
  · rw [encodeEnd, if_pos rfl, BitVec.getLsbD_or, hoffset, getLsbD_nullEndFlag]
    by_cases hlow : i < n
    · rw [if_pos hlow, if_pos hlow, decide_eq_false (Nat.ne_of_lt hlow), Bool.or_false]
    · rw [if_neg hlow, if_neg hlow, decide_eq_true (show i = n by omega), Bool.or_true]

/-- The flag does not reach the offset. -/
theorem endOffset_encodeEnd {offset : ℕ} (h : offset ≤ maxFieldOffset n) (isNull : Bool) :
    endOffset (encodeEnd n offset isNull) = offset := by
  have hmask : encodeEnd n offset isNull &&& ~~~nullEndFlag n = .ofNat (n + 1) offset := by
    refine BitVec.eq_of_getLsbD_eq fun i hi => ?_
    rw [BitVec.getLsbD_and, getLsbD_encodeEnd h isNull hi, BitVec.getLsbD_not, getLsbD_nullEndFlag,
      decide_eq_true hi, BitVec.getLsbD_ofNat, decide_eq_true hi]
    by_cases hlow : i < n
    · rw [if_pos hlow, decide_eq_false (Nat.ne_of_lt hlow)]
      simp
    · rw [if_neg hlow, decide_eq_true (show i = n by omega),
        Nat.testBit_lt_two_pow (Nat.lt_of_lt_of_le (lt_of_le_maxFieldOffset h)
          (Nat.pow_le_pow_right (by decide) (Nat.le_of_not_lt hlow)))]
      simp
  rw [endOffset, hmask, toNat_offset h]

theorem endIsNull_encodeEnd {offset : ℕ} (h : offset ≤ maxFieldOffset n) (isNull : Bool) :
    endIsNull (encodeEnd n offset isNull) = isNull := by
  have hmask : encodeEnd n offset isNull &&& nullEndFlag n = if isNull then nullEndFlag n else 0#(n + 1) := by
    refine BitVec.eq_of_getLsbD_eq fun i hi => ?_
    rw [BitVec.getLsbD_and, getLsbD_encodeEnd h isNull hi, getLsbD_nullEndFlag]
    by_cases hlow : i = n
    · subst hlow
      cases isNull <;> simp [getLsbD_nullEndFlag]
    · cases isNull <;> simp [getLsbD_nullEndFlag, hlow]
  have hflag : nullEndFlag n ≠ 0#(n + 1) := by
    intro hzero
    have := getLsbD_nullEndFlag (n := n) n
    simp [hzero] at this
  rw [endIsNull, hmask]
  cases isNull
  · simp
  · simp [hflag]

theorem toNat_encodeEnd {offset : ℕ} (h : offset ≤ maxFieldOffset n) :
    (encodeEnd n offset false).toNat = offset := toNat_offset h

end Endpoint

open Endpoint

/-! ## The storage -/

/-- `RecordStorage`. -/
structure RecordStorage (n : ℕ) where
  bytes : Bytes
  ends : List (BitVec (n + 1))
  nullAware : Bool
  deriving DecidableEq, Repr

/-- `copy_within`. -/
def copyWithin (bytes : Bytes) (start stop destination : ℕ) : Except BufferFault Bytes :=
  if start ≤ stop ∧ stop ≤ bytes.length ∧ destination + (stop - start) ≤ bytes.length then
    .ok (bytes.take destination ++ slice bytes start stop ++ bytes.drop (destination + (stop - start)))
  else .error .range

namespace RecordStorage

variable {n : ℕ}

/-- `RecordStorage::new`. -/
def new (n : ℕ) : RecordStorage n := ⟨[], [], false⟩

/-- Where the field at an index begins: the end of the field before it. -/
def startOf (s : RecordStorage n) : ℕ → Except BufferFault ℕ
  | 0 => .ok 0
  | previous + 1 =>
    match s.ends[previous]? with
    | some raw => .ok (endOffset raw)
    | none => .error .range

/-- `RecordStorage::get`. -/
def get (s : RecordStorage n) (index : ℕ) : Except BufferFault (Option Bytes) :=
  match s.ends[index]? with
  | none => .ok none
  | some raw => do
    let start ← s.startOf index
    some <$> getUnchecked s.bytes start (endOffset raw)

/-- `RecordStorage::is_null`. -/
def isNull (s : RecordStorage n) (index : ℕ) : Option Bool := s.ends[index]?.map endIsNull

/-- `RecordStorage::clear`. -/
def clear (_ : RecordStorage n) : RecordStorage n := new n

/-- `extend_bytes`, `push_byte`. -/
def extendBytes (s : RecordStorage n) (bytes : Bytes) : Except BufferFault (RecordStorage n) :=
  if s.bytes.length + bytes.length ≤ maxFieldOffset n then .ok { s with bytes := s.bytes ++ bytes }
  else .error .assertion

/-- `finish_field`. -/
def finishField (s : RecordStorage n) : RecordStorage n :=
  { s with ends := s.ends ++ [encodeEnd n s.bytes.length false] }

/-- `push_field`, `append_field`, `append_short_field`. -/
def pushField (s : RecordStorage n) (field : Bytes) : Except BufferFault (RecordStorage n) :=
  finishField <$> s.extendBytes field

/-- `push_null`, `append_null_field`. -/
def pushNull (s : RecordStorage n) : Except BufferFault (RecordStorage n) :=
  if s.bytes.length ≤ maxFieldOffset n then
    .ok { s with ends := s.ends ++ [encodeEnd n s.bytes.length true], nullAware := true }
  else .error .assertion

/-- `append_empty_fields`. -/
def appendEmptyFields (s : RecordStorage n) (count : ℕ) : RecordStorage n :=
  { s with ends := s.ends ++ List.replicate count (encodeEnd n s.bytes.length false) }

/-- A field that a parser appends in pieces. -/
def appendPieces (s : RecordStorage n) (pieces : List Bytes) : Except BufferFault (RecordStorage n) :=
  finishField <$> pieces.foldlM extendBytes s

/-- `truncate_storage`. -/
def truncateStorage (s : RecordStorage n) (fields bytes : ℕ) : Except BufferFault (RecordStorage n) := do
  if fields ≤ s.ends.length ∧ bytes ≤ s.bytes.length then
    let retainedEnd ← s.startOf fields
    if retainedEnd ≤ bytes then
      .ok { s with bytes := s.bytes.take bytes, ends := s.ends.take fields }
    else .error .assertion
  else .error .assertion

/-- An endpoint behind a field that was replaced by one of another length. -/
def shiftEnd (delta : ℤ) (raw : BitVec (n + 1)) : Except BufferFault (BitVec (n + 1)) :=
  let offset := (endOffset raw : ℤ) + delta
  if 0 ≤ offset ∧ offset < 2 ^ (n + 1) then .ok (encodeEnd n offset.toNat (endIsNull raw))
  else .error .range

/-- `RecordStorage::set_field`, and whether the field is there. -/
def setField (s : RecordStorage n) (index : ℕ) (field : Bytes) :
    Except BufferFault (Bool × RecordStorage n) :=
  match s.ends[index]? with
  | none => .ok (false, s)
  | some raw => do
    let stop := endOffset raw
    let start ← s.startOf index
    if start ≤ stop ∧ stop ≤ s.bytes.length then
      let oldLen := stop - start
      if s.bytes.length - oldLen + field.length ≤ maxFieldOffset n then
        let delta : ℤ := field.length - oldLen
        let shifted ← (s.ends.drop index).mapM (shiftEnd delta)
        match shifted with
        | [] => .error .range
        | raw :: rest =>
          .ok (true, { s with
            bytes := s.bytes.take start ++ field ++ s.bytes.drop stop
            ends := s.ends.take index ++ encodeEnd n (endOffset raw) false :: rest })
      else .error .assertion
    else .error .range

/-- `try_set_field_equal`. -/
def trySetFieldEqual (s : RecordStorage n) (index : ℕ) (field : Bytes) :
    Except BufferFault (Option Bool × RecordStorage n) :=
  match s.ends[index]? with
  | none => .ok (none, s)
  | some raw => do
    let stop := endOffset raw
    let start ← s.startOf index
    if start ≤ stop ∧ stop ≤ s.bytes.length then
      if field.length ≠ stop - start then .ok (some false, s)
      else
        .ok (some true, { s with
          bytes := s.bytes.take start ++ field ++ s.bytes.drop stop
          ends := s.ends.set index (.ofNat (n + 1) stop) })
    else .error .range

/-- `RecordStorage::set_null`. -/
def setNull (s : RecordStorage n) (index : ℕ) : Except BufferFault (Bool × RecordStorage n) := do
  let (updated, s) ← s.setField index []
  if updated then
    match s.ends[index]? with
    | none => .error .range
    | some raw =>
      .ok (true, { s with ends := s.ends.set index (encodeEnd n (endOffset raw) true), nullAware := true })
  else .ok (false, s)

/-- `RecordStorage::truncate`. -/
def truncate (s : RecordStorage n) (len : ℕ) : RecordStorage n :=
  if len ≤ s.ends.length then
    let bytes := ((s.ends.take len).getLast?.map endOffset).getD 0
    { s with bytes := s.bytes.take bytes, ends := s.ends.take len }
  else s

/-- The loop of `trim_fields_ascii`: the buffer, the new endpoints and where the kept bytes end. -/
def trimLoop : List (BitVec (n + 1)) → Bytes → ℕ → ℕ →
    Except BufferFault (Bytes × List (BitVec (n + 1)) × ℕ)
  | [], bytes, _, destination => .ok (bytes, [], destination)
  | raw :: ends, bytes, sourceStart, destination =>
    if endIsNull raw then do
      let (bytes, ends, final) ← trimLoop ends bytes sourceStart destination
      .ok (bytes, encodeEnd n destination true :: ends, final)
    else do
      let sourceEnd := endOffset raw
      let trimmedStart ← trimFront bytes sourceStart (sourceEnd - sourceStart)
      let trimmedEnd ← trimBack bytes trimmedStart (sourceEnd - trimmedStart)
      let bytes ← copyWithin bytes trimmedStart trimmedEnd destination
      let destination := destination + (trimmedEnd - trimmedStart)
      let (bytes, ends, final) ← trimLoop ends bytes sourceEnd destination
      .ok (bytes, encodeEnd n destination false :: ends, final)

/-- `trim_fields_ascii`. -/
def trimFieldsAscii (s : RecordStorage n) : Except BufferFault (RecordStorage n) := do
  let (bytes, ends, destination) ← trimLoop s.ends s.bytes 0 0
  .ok { s with bytes := bytes.take destination, ends }

/-- The loop of `mark_null_fields`.  No endpoint has its flag yet. -/
def markLoop (isNull : Bytes → Bool) : List (BitVec (n + 1)) → Bytes → ℕ → ℕ → Bool →
    Except BufferFault (Bytes × List (BitVec (n + 1)) × ℕ × Bool)
  | [], bytes, _, destination, nullAware => .ok (bytes, [], destination, nullAware)
  | raw :: ends, bytes, sourceStart, destination, nullAware => do
    let sourceEnd := raw.toNat
    let field ← getUnchecked bytes sourceStart sourceEnd
    if isNull field then
      let (bytes, ends, final) ← markLoop isNull ends bytes sourceEnd destination true
      .ok (bytes, encodeEnd n destination true :: ends, final)
    else
      let bytes ← copyWithin bytes sourceStart sourceEnd destination
      let destination := destination + (sourceEnd - sourceStart)
      let (bytes, ends, final) ← markLoop isNull ends bytes sourceEnd destination nullAware
      .ok (bytes, encodeEnd n destination false :: ends, final)

/-- `mark_null_fields`. -/
def markNullFields (s : RecordStorage n) (isNull : Bytes → Bool) :
    Except BufferFault (RecordStorage n) := do
  let (bytes, ends, destination, nullAware) ← markLoop isNull s.ends s.bytes 0 0 s.nullAware
  .ok { bytes := bytes.take destination, ends, nullAware }

end RecordStorage

namespace ByteRecord

variable {n : ℕ}

/-- `ByteRecord::set_field`. -/
def setField (s : RecordStorage n) (index : ℕ) (field : Bytes) :
    Except BufferFault (Bool × RecordStorage n) := do
  match ← s.trySetFieldEqual index field with
  | (none, s) => .ok (false, s)
  | (some true, s) => .ok (true, s)
  | (some false, s) => do
    let (_, s) ← s.setField index field
    .ok (true, s)

/-- `ByteRecord::truncate`. -/
def truncate (s : RecordStorage n) (len : ℕ) : RecordStorage n :=
  if len ≥ s.ends.length then s else s.truncate len

end ByteRecord

/-! ## What is done to a record -/

/-- An operation on a record, with fields of any kind. -/
inductive RecordOp (α : Type)
  | pushField (field : α)
  | pushNull
  | setField (index : ℕ) (field : α)
  | setNull (index : ℕ)
  | truncate (len : ℕ)
  | clear
  | trimFieldsAscii
  | appendField (field : α)
  | appendEmptyFields (count : ℕ)
  | appendNullField
  /-- a field that a parser appends in pieces -/
  | appendPieces (pieces : List α)
  /-- fields and pieces that a parser appends and takes back -/
  | takeBack (fields : List (List α)) (pieces : List α)
  | markNullFields (isNull : Bytes → Bool)

/-- The operation on the bytes of the fields. -/
def RecordOp.map {α β : Type} (f : α → β) : RecordOp α → RecordOp β
  | .pushField field => .pushField (f field)
  | .pushNull => .pushNull
  | .setField index field => .setField index (f field)
  | .setNull index => .setNull index
  | .truncate len => .truncate len
  | .clear => .clear
  | .trimFieldsAscii => .trimFieldsAscii
  | .appendField field => .appendField (f field)
  | .appendEmptyFields count => .appendEmptyFields count
  | .appendNullField => .appendNullField
  | .appendPieces pieces => .appendPieces (pieces.map f)
  | .takeBack fields pieces => .takeBack (fields.map (·.map f)) (pieces.map f)
  | .markNullFields isNull => .markNullFields isNull

namespace RecordStorage

variable {n : ℕ}

/-- Fields and pieces are appended, and `truncate_storage` goes back to where they began. -/
def takeBack (s : RecordStorage n) (fields : List (List Bytes)) (pieces : List Bytes) :
    Except BufferFault (RecordStorage n) := do
  let appended ← fields.foldlM appendPieces s
  let appended ← pieces.foldlM extendBytes appended
  appended.truncateStorage s.ends.length s.bytes.length

/-- One operation. -/
def step (s : RecordStorage n) : RecordOp Bytes → Except BufferFault (RecordStorage n)
  | .pushField field => s.pushField field
  | .pushNull => s.pushNull
  | .setField index field => Prod.snd <$> ByteRecord.setField s index field
  | .setNull index => Prod.snd <$> s.setNull index
  | .truncate len => .ok (ByteRecord.truncate s len)
  | .clear => .ok s.clear
  | .trimFieldsAscii => s.trimFieldsAscii
  | .appendField field => s.pushField field
  | .appendEmptyFields count => .ok (s.appendEmptyFields count)
  | .appendNullField => s.pushNull
  | .appendPieces pieces => s.appendPieces pieces
  | .takeBack fields pieces => s.takeBack fields pieces
  | .markNullFields isNull => s.markNullFields isNull

/-- A new record after some operations. -/
def run (n : ℕ) (ops : List (RecordOp Bytes)) : Except BufferFault (RecordStorage n) :=
  ops.foldlM step (new n)

end RecordStorage

/-! ## The list the record stands for -/

/-- A record: its fields, `none` for NULL. -/
abbrev Fields : Type := List (Option Bytes)

namespace Fields

/-- The bytes of a field. -/
def width (field : Option Bytes) : ℕ := (field.getD []).length

/-- The bytes of all fields. -/
def text (fields : Fields) : Bytes := (fields.map (·.getD [])).flatten

/-- One operation.  Fields are marked while none is NULL. -/
def step (fields : Fields) : RecordOp Bytes → Option Fields
  | .pushField field | .appendField field => some (fields ++ [some field])
  | .pushNull | .appendNullField => some (fields ++ [none])
  | .setField index field => some (fields.set index (some field))
  | .setNull index => some (fields.set index none)
  | .truncate len => some (fields.take len)
  | .clear => some []
  | .trimFieldsAscii => some (fields.map (·.map trimmed))
  | .appendEmptyFields count => some (fields ++ List.replicate count (some []))
  | .appendPieces pieces => some (fields ++ [some pieces.flatten])
  | .takeBack _ _ => some fields
  | .markNullFields isNull =>
    if fields.all Option.isSome then some (fields.map (·.filter fun field => !isNull field)) else none

/-- The fields after some operations on an empty record. -/
def run (ops : List (RecordOp Bytes)) : Option Fields := ops.foldlM step []

/-- The endpoints of fields whose bytes begin at an offset. -/
def endsFrom (n : ℕ) : ℕ → Fields → List (BitVec (n + 1))
  | _, [] => []
  | start, field :: fields =>
    encodeEnd n (start + width field) field.isNone :: endsFrom n (start + width field) fields

@[simp] theorem text_nil : text [] = [] := rfl

@[simp] theorem text_cons (field : Option Bytes) (fields : Fields) :
    text (field :: fields) = field.getD [] ++ text fields := rfl

theorem text_append (fields fields' : Fields) : text (fields ++ fields') = text fields ++ text fields' := by
  simp [text]

@[simp] theorem length_text_cons (field : Option Bytes) (fields : Fields) :
    (text (field :: fields)).length = width field + (text fields).length := List.length_append

@[simp] theorem endsFrom_nil (n start : ℕ) : endsFrom n start [] = [] := rfl

theorem endsFrom_append (n : ℕ) (fields fields' : Fields) : ∀ start,
    endsFrom n start (fields ++ fields') =
      endsFrom n start fields ++ endsFrom n (start + (text fields).length) fields' := by
  induction fields with
  | nil => intro start; simp
  | cons field fields ih =>
    intro start
    rw [List.cons_append, endsFrom, endsFrom, ih, length_text_cons, List.cons_append, Nat.add_assoc]

@[simp] theorem length_endsFrom (n : ℕ) (fields : Fields) : ∀ start,
    (endsFrom n start fields).length = fields.length := by
  induction fields with
  | nil => intro start; rfl
  | cons field fields ih => intro start; rw [endsFrom, List.length_cons, ih, List.length_cons]

/-- The endpoint at an index. -/
theorem getElem?_endsFrom (n : ℕ) (fields : Fields) : ∀ start index,
    (endsFrom n start fields)[index]? = fields[index]?.map fun field =>
      encodeEnd n (start + (text (fields.take (index + 1))).length) field.isNone := by
  induction fields with
  | nil => intro start index; simp
  | cons field fields ih =>
    intro start index
    cases index with
    | zero => simp [endsFrom, width]
    | succ index =>
      rw [endsFrom, List.getElem?_cons_succ, List.getElem?_cons_succ, ih, List.take_succ_cons,
        length_text_cons, Nat.add_assoc]

theorem length_text_take_le (fields : Fields) (index : ℕ) :
    (text (fields.take index)).length ≤ (text fields).length := by
  conv_rhs => rw [← List.take_append_drop index fields, text_append, List.length_append]
  exact Nat.le_add_right _ _

/-- The fields around one. -/
theorem exists_split {fields : Fields} {index : ℕ} (h : index < fields.length) :
    ∃ pre field post, fields = pre ++ field :: post ∧ index = pre.length := by
  refine ⟨fields.take index, fields[index], fields.drop (index + 1), ?_, ?_⟩
  · rw [List.getElem_cons_drop, List.take_append_drop]
  · rw [List.length_take, Nat.min_eq_left (Nat.le_of_lt h)]

theorem length_text_take_succ (pre post : Fields) (field : Option Bytes) :
    (text ((pre ++ field :: post).take (pre.length + 1))).length = (text pre).length + width field := by
  rw [List.take_append, List.take_of_length_le (Nat.le_succ _), Nat.add_sub_cancel_left,
    List.take_succ_cons, List.take_zero, text_append, List.length_append, length_text_cons]
  rfl

/-- A field lies between the bytes in front of it and the bytes behind it. -/
theorem slice_text (pre post : Fields) (field : Option Bytes) (rest : Bytes) :
    slice (text (pre ++ field :: post) ++ rest) (text pre).length ((text pre).length + width field) =
      field.getD [] := by
  rw [text_append, text_cons, List.append_assoc, List.append_assoc, slice, List.take_length_add_append,
    List.drop_left, width, List.take_left]

end Fields

open Fields

/-! ## The storage of a list -/

namespace RecordStorage

variable {n : ℕ} {s : RecordStorage n} {fields : Fields} {unfinished : Bytes}

/-- The storage holds the fields and then the bytes of a field that is not finished. -/
structure Holds (s : RecordStorage n) (fields : Fields) (unfinished : Bytes) : Prop where
  bytes : s.bytes = text fields ++ unfinished
  ends : s.ends = endsFrom n 0 fields
  bound : s.bytes.length ≤ maxFieldOffset n

/-- The storage holds the fields and nothing else. -/
def Stores (s : RecordStorage n) (fields : Fields) : Prop := s.Holds fields []

theorem stores_new : (new n).Stores [] := ⟨rfl, rfl, Nat.zero_le _⟩

theorem Stores.bytes (h : s.Stores fields) : s.bytes = text fields :=
  (Holds.bytes h).trans (List.append_nil _)

theorem Holds.length (h : s.Holds fields unfinished) : s.ends.length = fields.length := by
  rw [h.ends, length_endsFrom]

theorem Holds.text_le (h : s.Holds fields unfinished) :
    (text fields).length + unfinished.length ≤ maxFieldOffset n := by
  have := h.bound
  rwa [h.bytes, List.length_append] at this

/-- An endpoint without its flag. -/
theorem Holds.endOffset_eq (h : s.Holds fields unfinished) {index : ℕ} (hindex : index < fields.length) :
    ∃ raw, s.ends[index]? = some raw ∧ endOffset raw = (text (fields.take (index + 1))).length ∧
      endIsNull raw = fields[index].isNone := by
  have hle := (length_text_take_le fields (index + 1)).trans (Nat.le_of_add_right_le h.text_le)
  refine ⟨_, ?_, endOffset_encodeEnd hle _, endIsNull_encodeEnd hle _⟩
  rw [h.ends, getElem?_endsFrom, List.getElem?_eq_getElem hindex, Option.map_some, Nat.zero_add]

theorem Holds.startOf_eq (h : s.Holds fields unfinished) {index : ℕ} (hindex : index ≤ fields.length) :
    s.startOf index = .ok (text (fields.take index)).length := by
  cases index with
  | zero => rfl
  | succ index =>
    obtain ⟨raw, hraw, hoffset, -⟩ := h.endOffset_eq hindex
    rw [startOf, hraw]
    exact congrArg _ hoffset

/-- A field is read in range. -/
theorem Holds.get_eq (h : s.Holds fields unfinished) (index : ℕ) :
    s.get index = .ok (fields[index]?.map (·.getD [])) := by
  rcases Nat.lt_or_ge index fields.length with hlt | hge
  · obtain ⟨raw, hraw, hoffset, -⟩ := h.endOffset_eq hlt
    obtain ⟨pre, field, post, rfl, rfl⟩ := exists_split hlt
    rw [length_text_take_succ] at hoffset
    have hlen : (text pre).length + width field ≤ s.bytes.length := by
      rw [h.bytes, text_append, text_cons, List.length_append, List.length_append, List.length_append,
        width]
      omega
    rw [get, hraw]
    simp only
    rw [h.startOf_eq (Nat.le_of_lt hlt), List.take_left, hoffset]
    change (some <$> getUnchecked s.bytes (text pre).length ((text pre).length + width field)) = _
    rw [getUnchecked_ok (Nat.le_add_right _ _) hlen, h.bytes, slice_text]
    simp
  · have hnone : s.ends[index]? = none := by
      rw [List.getElem?_eq_none_iff, h.length]
      exact hge
    rw [get, hnone, List.getElem?_eq_none_iff.mpr hge]
    rfl

/-- What an operation makes of the storage: the fields it says, or a panic where it needs more
    `room` than there is. -/
def Outcome (r : Except BufferFault (RecordStorage n)) (fields : Fields) (unfinished : Bytes)
    (room : ℕ) : Prop :=
  (room ≤ maxFieldOffset n ∧ ∃ s', r = .ok s' ∧ s'.Holds fields unfinished) ∨
    (maxFieldOffset n < room ∧ r = .error .assertion)

theorem Outcome.ok (h : s.Holds fields unfinished) {room : ℕ} (hroom : room ≤ maxFieldOffset n) :
    Outcome (.ok s) fields unfinished room := Or.inl ⟨hroom, s, rfl, h⟩

theorem Holds.extendBytes (h : s.Holds fields unfinished) (bytes : Bytes) :
    Outcome (s.extendBytes bytes) fields (unfinished ++ bytes)
      ((text fields).length + unfinished.length + bytes.length) := by
  have hlen : s.bytes.length = (text fields).length + unfinished.length := by
    rw [h.bytes, List.length_append]
  unfold RecordStorage.extendBytes
  rw [hlen]
  by_cases hroom : (text fields).length + unfinished.length + bytes.length ≤ maxFieldOffset n
  · refine Or.inl ⟨hroom, _, if_pos hroom, ?_, h.ends, ?_⟩
    · simp only [h.bytes, List.append_assoc]
    · simpa [hlen] using hroom
  · exact Or.inr ⟨Nat.lt_of_not_le hroom, if_neg hroom⟩

/-- Pieces of a field. -/
theorem Holds.extendPieces (h : s.Holds fields unfinished) (pieces : List Bytes) :
    Outcome (pieces.foldlM RecordStorage.extendBytes s) fields (unfinished ++ pieces.flatten)
      ((text fields).length + unfinished.length + pieces.flatten.length) := by
  induction pieces generalizing s unfinished with
  | nil =>
    rw [List.flatten_nil, List.append_nil]
    exact Outcome.ok h h.text_le
  | cons piece pieces ih =>
    rw [List.foldlM_cons, List.flatten_cons, List.length_append, ← Nat.add_assoc]
    rcases h.extendBytes piece with ⟨-, s', hs', h'⟩ | ⟨hroom, herror⟩
    · rw [hs']
      have := ih h'
      rw [List.length_append, List.append_assoc, ← Nat.add_assoc] at this
      exact this
    · rw [herror]
      exact Or.inr ⟨Nat.lt_of_lt_of_le hroom (Nat.le_add_right _ _), rfl⟩

theorem Holds.finishField (h : s.Holds fields unfinished) :
    s.finishField.Stores (fields ++ [some unfinished]) := by
  refine ⟨?_, ?_, h.bound⟩
  · simp [RecordStorage.finishField, h.bytes, text_append]
  · simp [RecordStorage.finishField, h.ends, h.bytes, endsFrom_append, endsFrom, width]

theorem Stores.appendPieces (h : s.Stores fields) (pieces : List Bytes) :
    Outcome (s.appendPieces pieces) (fields ++ [some pieces.flatten]) []
      ((text fields).length + pieces.flatten.length) := by
  unfold RecordStorage.appendPieces
  rcases Holds.extendPieces h pieces with ⟨hroom, s', hs', h'⟩ | ⟨hroom, herror⟩
  · rw [hs']
    exact Or.inl ⟨hroom, _, rfl, h'.finishField⟩
  · rw [herror]
    exact Or.inr ⟨hroom, rfl⟩

theorem Stores.pushField (h : s.Stores fields) (field : Bytes) :
    Outcome (s.pushField field) (fields ++ [some field]) [] ((text fields).length + field.length) := by
  have hpieces := h.appendPieces [field]
  simpa [RecordStorage.appendPieces, RecordStorage.pushField] using hpieces

theorem Stores.pushNull (h : s.Stores fields) :
    Outcome s.pushNull (fields ++ [none]) [] (text fields).length := by
  have hbound : s.bytes.length ≤ maxFieldOffset n := h.bound
  unfold RecordStorage.pushNull
  rw [if_pos hbound]
  refine Or.inl ⟨h.bytes ▸ hbound, _, rfl, ?_, ?_, hbound⟩
  · simp [h.bytes, text_append]
  · simp [h.ends, h.bytes, endsFrom_append, endsFrom, width]

theorem text_replicate_empty (count : ℕ) : text (List.replicate count (some [])) = [] := by
  induction count with
  | zero => rfl
  | succ count ih => rw [List.replicate_succ, text_cons, ih]; rfl

theorem endsFrom_replicate_empty (n start count : ℕ) :
    endsFrom n start (List.replicate count (some [])) = List.replicate count (encodeEnd n start false) := by
  induction count with
  | zero => rfl
  | succ count ih =>
    rw [List.replicate_succ, List.replicate_succ, endsFrom]
    simp [width, ih]

theorem Stores.appendEmptyFields (h : s.Stores fields) (count : ℕ) :
    (s.appendEmptyFields count).Stores (fields ++ List.replicate count (some [])) := by
  refine ⟨?_, ?_, h.bound⟩
  · simp [RecordStorage.appendEmptyFields, h.bytes, text_append, text_replicate_empty]
  · simp [RecordStorage.appendEmptyFields, h.ends, h.bytes, endsFrom_append, endsFrom_replicate_empty]

/-- Fields in pieces. -/
theorem Stores.appendAll (more : List (List Bytes)) : ∀ {s : RecordStorage n} {fields : Fields},
    s.Stores fields →
      Outcome (more.foldlM RecordStorage.appendPieces s)
        (fields ++ more.map fun pieces => some pieces.flatten) []
        ((text fields).length + more.flatten.flatten.length) := by
  induction more with
  | nil =>
    intro s fields h
    rw [List.map_nil, List.append_nil]
    exact Outcome.ok h h.text_le
  | cons pieces more ih =>
    intro s fields h
    rw [List.foldlM_cons, List.flatten_cons, List.flatten_append, List.length_append, ← Nat.add_assoc]
    rcases h.appendPieces pieces with ⟨-, s', hs', h'⟩ | ⟨hroom, herror⟩
    · rw [hs']
      have := ih h'
      rw [text_append, List.length_append, List.append_assoc, text_cons, text_nil, List.append_nil,
        Option.getD_some] at this
      exact this
    · rw [herror]
      exact Or.inr ⟨Nat.lt_of_lt_of_le hroom (Nat.le_add_right _ _), rfl⟩

theorem text_pieces (more : List (List Bytes)) :
    text (more.map fun pieces => some pieces.flatten) = more.flatten.flatten := by
  induction more with
  | nil => rfl
  | cons pieces more ih =>
    rw [List.map_cons, text_cons, ih, List.flatten_cons, List.flatten_append, Option.getD_some]

/-- The storage is cut back to the first fields. -/
theorem Holds.truncateStorage {more : Fields} (h : s.Holds (fields ++ more) unfinished) :
    ∃ s', s.truncateStorage fields.length (text fields).length = .ok s' ∧ s'.Stores fields := by
  have hfields : fields.length ≤ s.ends.length := by
    rw [h.length, List.length_append]
    exact Nat.le_add_right _ _
  have hbytes : s.bytes = text fields ++ (text more ++ unfinished) := by
    rw [h.bytes, text_append, List.append_assoc]
  have hlen : (text fields).length ≤ s.bytes.length := by
    rw [hbytes, List.length_append]
    exact Nat.le_add_right _ _
  have hstart : s.startOf fields.length = .ok (text fields).length := by
    rw [h.startOf_eq (by rw [List.length_append]; exact Nat.le_add_right _ _), List.take_left]
  unfold RecordStorage.truncateStorage
  rw [if_pos ⟨hfields, hlen⟩, hstart]
  refine ⟨_, if_pos (Nat.le_refl _), ?_, ?_, ?_⟩
  · simp only [hbytes, List.take_left, List.append_nil]
  · simp only [h.ends, endsFrom_append]
    exact List.take_left' (length_endsFrom n fields 0)
  · rw [List.length_take]
    exact (Nat.min_le_right _ _).trans h.bound

/-- Bytes that were taken back leave nothing behind. -/
theorem Stores.takeBack (h : s.Stores fields) (more : List (List Bytes)) (pieces : List Bytes) :
    Outcome (s.takeBack more pieces) fields []
      ((text fields).length + more.flatten.flatten.length + pieces.flatten.length) := by
  unfold RecordStorage.takeBack
  rcases Stores.appendAll more h with ⟨-, s₁, hs₁, h₁⟩ | ⟨hroom, herror⟩
  · have hpieces := h₁.extendPieces pieces
    rw [text_append, text_pieces, List.length_append, List.nil_append, List.length_nil,
      Nat.add_zero] at hpieces
    rw [hs₁, h.bytes, Holds.length h]
    change Outcome (do
      let appended ← pieces.foldlM RecordStorage.extendBytes s₁
      appended.truncateStorage fields.length (text fields).length) fields [] _
    rcases hpieces with ⟨hroom, s₂, hs₂, h₂⟩ | ⟨hroom, herror⟩
    · obtain ⟨s', hs', h'⟩ := h₂.truncateStorage
      rw [hs₂]
      exact Or.inl ⟨hroom, s', hs', h'⟩
    · rw [herror]
      exact Or.inr ⟨hroom, rfl⟩
  · rw [herror]
    exact Or.inr ⟨Nat.lt_of_lt_of_le hroom (Nat.le_add_right _ _), rfl⟩

/-! ### Replacing -/

theorem shiftEnd_encodeEnd {start : ℕ} (start' : ℕ) {delta : ℤ} (hdelta : (start' : ℤ) = start + delta)
    (hbound : start ≤ maxFieldOffset n) (hbound' : start' ≤ maxFieldOffset n) (isNull : Bool) :
    shiftEnd delta (encodeEnd n start isNull) = .ok (encodeEnd n start' isNull) := by
  have hlt : (start' : ℤ) < 2 ^ (n + 1) := by
    have hpow : start' < 2 ^ (n + 1) := (lt_of_le_maxFieldOffset hbound').trans_le
      (Nat.pow_le_pow_right (by decide) (Nat.le_succ n))
    exact_mod_cast hpow
  unfold shiftEnd
  simp only
  rw [endOffset_encodeEnd hbound, endIsNull_encodeEnd hbound, ← hdelta,
    if_pos ⟨Int.natCast_nonneg start', hlt⟩, Int.toNat_natCast]

/-- The endpoints behind a replaced field. -/
theorem mapM_shiftEnd (fields : Fields) : ∀ {start : ℕ} (start' : ℕ) {delta : ℤ},
    (start' : ℤ) = start + delta → start + (text fields).length ≤ maxFieldOffset n →
      start' + (text fields).length ≤ maxFieldOffset n →
      (endsFrom n start fields).mapM (shiftEnd delta) = .ok (endsFrom n start' fields) := by
  induction fields with
  | nil => intros; rfl
  | cons field fields ih =>
    intro start start' delta hdelta hbound hbound'
    rw [length_text_cons, ← Nat.add_assoc] at hbound hbound'
    rw [endsFrom, List.mapM_cons, shiftEnd_encodeEnd (start' + width field) (by omega)
      (by omega) (by omega), ih (start' + width field) (by omega) hbound hbound']
    rfl

section split

variable {pre post : Fields} {field : Option Bytes} (h : s.Stores (pre ++ field :: post))

include h

/-- The field that is replaced, and where it lies. -/
theorem Stores.at_split : ∃ raw, s.ends[pre.length]? = some raw ∧
    endOffset raw = (text pre).length + width field ∧
    s.startOf pre.length = .ok (text pre).length ∧
    (text pre).length + width field ≤ s.bytes.length := by
  have hlt : pre.length < (pre ++ field :: post).length := by
    rw [List.length_append, List.length_cons]
    omega
  obtain ⟨raw, hraw, hoffset, -⟩ := h.endOffset_eq hlt
  refine ⟨raw, hraw, hoffset.trans (length_text_take_succ pre post field), ?_, ?_⟩
  · rw [h.startOf_eq (Nat.le_of_lt hlt), List.take_left]
  · rw [h.bytes, text_append, List.length_append, length_text_cons]
    omega

theorem Stores.splice (new : Bytes) :
    s.bytes.take (text pre).length ++ new ++ s.bytes.drop ((text pre).length + width field) =
      text (pre ++ some new :: post) := by
  rw [h.bytes, text_append, List.take_left, ← List.drop_drop, List.drop_left, text_cons, width,
    List.drop_left, text_append, text_cons, Option.getD_some, List.append_assoc]

theorem Stores.ends_split : s.ends = endsFrom n 0 pre ++
    encodeEnd n ((text pre).length + width field) field.isNone ::
      endsFrom n ((text pre).length + width field) post := by
  rw [h.ends, endsFrom_append, Nat.zero_add, endsFrom]

/-- **Replacing one field shifts every field behind it.** -/
theorem Stores.setField_split (new : Bytes) :
    ((text (pre ++ some new :: post)).length ≤ maxFieldOffset n ∧
        ∃ s', s.setField pre.length new = .ok (true, s') ∧ s'.Stores (pre ++ some new :: post)) ∨
      (maxFieldOffset n < (text (pre ++ some new :: post)).length ∧
        s.setField pre.length new = .error .assertion) := by
  obtain ⟨raw, hraw, hoffset, hstart, hstop⟩ := h.at_split
  have hbound := h.bound
  have hbytes := congrArg List.length h.bytes
  rw [text_append, List.length_append, length_text_cons] at hbytes
  have hroom : s.bytes.length - width field + new.length = (text (pre ++ some new :: post)).length := by
    rw [hbytes, text_append, List.length_append, length_text_cons]
    simp only [width, Option.getD_some]
    omega
  have hset : s.setField pre.length new =
      if s.bytes.length - width field + new.length ≤ maxFieldOffset n then do
        let shifted ← (s.ends.drop pre.length).mapM (shiftEnd ((new.length : ℤ) - width field))
        match shifted with
        | [] => .error .range
        | raw :: rest =>
          .ok (true, { s with
            bytes := s.bytes.take (text pre).length ++ new ++
              s.bytes.drop ((text pre).length + width field)
            ends := s.ends.take pre.length ++ encodeEnd n (endOffset raw) false :: rest })
      else .error .assertion := by
    unfold RecordStorage.setField
    rw [hraw]
    simp only
    rw [hstart, hoffset]
    refine (if_pos ⟨Nat.le_add_right _ _, hstop⟩).trans ?_
    rw [Nat.add_sub_cancel_left]
  rw [hset, hroom]
  by_cases hfits : (text (pre ++ some new :: post)).length ≤ maxFieldOffset n
  · refine Or.inl ⟨hfits, ?_⟩
    have htext : (text (pre ++ some new :: post)).length =
        (text pre).length + (new.length + (text post).length) := by
      rw [text_append, List.length_append, length_text_cons]
      rfl
    have hdrop : s.ends.drop pre.length = encodeEnd n ((text pre).length + width field) field.isNone ::
        endsFrom n ((text pre).length + width field) post := by
      rw [h.ends_split]
      exact List.drop_left' (length_endsFrom n pre 0)
    have hshift : (s.ends.drop pre.length).mapM (shiftEnd ((new.length : ℤ) - width field)) =
        .ok (encodeEnd n ((text pre).length + new.length) field.isNone ::
          endsFrom n ((text pre).length + new.length) post) := by
      rw [hdrop, List.mapM_cons,
        shiftEnd_encodeEnd ((text pre).length + new.length) (by push_cast; omega) (by omega)
          (by omega),
        mapM_shiftEnd post ((text pre).length + new.length) (by push_cast; omega) (by omega)
          (by omega)]
      rfl
    rw [if_pos hfits, hshift]
    refine ⟨_, rfl, ?_, ?_, ?_⟩
    · rw [List.append_nil]
      exact h.splice new
    · simp only
      rw [endOffset_encodeEnd (by omega), endsFrom_append, Nat.zero_add, endsFrom, h.ends_split]
      congr 1
      exact List.take_left' (length_endsFrom n pre 0)
    · simp only
      rw [h.splice new]
      exact hfits
  · rw [if_neg hfits]
    exact Or.inr ⟨Nat.lt_of_not_le hfits, rfl⟩

/-- A field of the same length is written in place. -/
theorem Stores.trySetFieldEqual_split (new : Bytes) :
    (new.length ≠ width field ∧ s.trySetFieldEqual pre.length new = .ok (some false, s)) ∨
      (new.length = width field ∧ ∃ s', s.trySetFieldEqual pre.length new = .ok (some true, s') ∧
        s'.Stores (pre ++ some new :: post)) := by
  obtain ⟨raw, hraw, hoffset, hstart, hstop⟩ := h.at_split
  have hset : s.trySetFieldEqual pre.length new =
      if new.length ≠ width field then .ok (some false, s)
      else .ok (some true, { s with
        bytes := s.bytes.take (text pre).length ++ new ++ s.bytes.drop ((text pre).length + width field)
        ends := s.ends.set pre.length (.ofNat (n + 1) ((text pre).length + width field)) }) := by
    unfold RecordStorage.trySetFieldEqual
    rw [hraw]
    simp only
    rw [hstart, hoffset]
    refine (if_pos ⟨Nat.le_add_right _ _, hstop⟩).trans ?_
    rw [Nat.add_sub_cancel_left]
  by_cases hlen : new.length = width field
  · refine Or.inr ⟨hlen, _, hset.trans (if_neg (not_not.mpr hlen)), ?_, ?_, ?_⟩
    · rw [List.append_nil]
      exact h.splice new
    · simp only
      rw [h.ends_split, endsFrom_append, Nat.zero_add, endsFrom]
      simp only [width, Option.getD_some] at hlen ⊢
      rw [hlen, List.set_append_right _ _ (by rw [length_endsFrom]), length_endsFrom, Nat.sub_self,
        List.set_cons_zero]
      rfl
    · have hbound := h.bound
      rw [h.bytes, text_append, List.length_append, length_text_cons] at hbound
      simp only
      rw [h.splice new, text_append, List.length_append, length_text_cons]
      simp only [width, Option.getD_some] at hlen hbound ⊢
      omega
  · exact Or.inl ⟨hlen, hset.trans (if_pos hlen)⟩

theorem Stores.byteRecordSetField_split (new : Bytes) :
    ((text (pre ++ some new :: post)).length ≤ maxFieldOffset n ∧
        ∃ s', ByteRecord.setField s pre.length new = .ok (true, s') ∧
          s'.Stores (pre ++ some new :: post)) ∨
      (maxFieldOffset n < (text (pre ++ some new :: post)).length ∧
        ByteRecord.setField s pre.length new = .error .assertion) := by
  unfold ByteRecord.setField
  rcases h.trySetFieldEqual_split new with ⟨-, htry⟩ | ⟨-, s', htry, h'⟩
  · rw [htry]
    rcases h.setField_split new with ⟨hroom, s', hset, h'⟩ | ⟨hroom, hset⟩
    · refine Or.inl ⟨hroom, s', ?_, h'⟩
      change (do
        let (_, s') ← s.setField pre.length new
        Except.ok (true, s')) = _
      rw [hset]
      rfl
    · refine Or.inr ⟨hroom, ?_⟩
      change (do
        let (_, s') ← s.setField pre.length new
        Except.ok (true, s')) = _
      rw [hset]
      rfl
  · rw [htry]
    exact Or.inl ⟨h'.bytes ▸ h'.bound, s', rfl, h'⟩

theorem Stores.setNull_split :
    ∃ s', s.setNull pre.length = .ok (true, s') ∧ s'.Stores (pre ++ none :: post) := by
  have hbound := h.bound
  rw [h.bytes, text_append, List.length_append, length_text_cons] at hbound
  have hfits : (text (pre ++ some [] :: post)).length ≤ maxFieldOffset n := by
    rw [text_append, List.length_append, length_text_cons]
    simp only [width, Option.getD_some, List.length_nil]
    omega
  rcases h.setField_split [] with ⟨-, s', hset, h'⟩ | ⟨hroom, -⟩
  · obtain ⟨raw, hraw, hoffset, -, -⟩ := h'.at_split
    have hnull : s.setNull pre.length = .ok (true, { s' with
        ends := s'.ends.set pre.length (encodeEnd n (endOffset raw) true), nullAware := true }) := by
      unfold RecordStorage.setNull
      rw [hset]
      change (match s'.ends[pre.length]? with
        | none => Except.error BufferFault.range
        | some raw => Except.ok (true, { s' with
          ends := s'.ends.set pre.length (encodeEnd n (endOffset raw) true), nullAware := true })) = _
      rw [hraw]
    refine ⟨_, hnull, ?_, ?_, h'.bound⟩
    · simp only
      rw [h'.bytes, text_append, text_append]
      simp
    · simp only
      rw [hoffset, h'.ends_split, endsFrom_append, Nat.zero_add, endsFrom,
        List.set_append_right _ _ (by rw [length_endsFrom]), length_endsFrom, Nat.sub_self,
        List.set_cons_zero]
      rfl
  · omega

end split

theorem setField_none {index : ℕ} {new : Bytes} (h : s.ends.length ≤ index) :
    s.setField index new = .ok (false, s) ∧ ByteRecord.setField s index new = .ok (false, s) := by
  have hnone : s.ends[index]? = none := List.getElem?_eq_none_iff.mpr h
  refine ⟨?_, ?_⟩
  · rw [RecordStorage.setField, hnone]
  · rw [ByteRecord.setField, trySetFieldEqual, hnone]
    rfl

/-- Replacing a field, or none where there is none. -/
theorem Stores.setField (h : s.Stores fields) (index : ℕ) (new : Bytes) :
    Outcome (Prod.snd <$> ByteRecord.setField s index new) (fields.set index (some new)) []
      (text (fields.set index (some new))).length := by
  rcases Nat.lt_or_ge index fields.length with hlt | hge
  · obtain ⟨pre, field, post, rfl, rfl⟩ := exists_split hlt
    rw [List.set_append_right _ _ (Nat.le_refl _), Nat.sub_self, List.set_cons_zero]
    rcases h.byteRecordSetField_split new with ⟨hroom, s', hset, h'⟩ | ⟨hroom, hset⟩
    · exact Or.inl ⟨hroom, s', by rw [hset]; rfl, h'⟩
    · exact Or.inr ⟨hroom, by rw [hset]; rfl⟩
  · rw [List.set_eq_of_length_le hge, (setField_none (by rw [Holds.length h]; exact hge)).2]
    exact Outcome.ok h (Nat.le_of_add_right_le h.text_le)

theorem Stores.setNull (h : s.Stores fields) (index : ℕ) :
    Outcome (Prod.snd <$> s.setNull index) (fields.set index none) [] 0 := by
  rcases Nat.lt_or_ge index fields.length with hlt | hge
  · obtain ⟨pre, field, post, rfl, rfl⟩ := exists_split hlt
    obtain ⟨s', hset, h'⟩ := h.setNull_split
    rw [List.set_append_right _ _ (Nat.le_refl _), Nat.sub_self, List.set_cons_zero, hset]
    exact Or.inl ⟨Nat.zero_le _, s', rfl, h'⟩
  · have hset : s.setNull index = .ok (false, s) := by
      rw [RecordStorage.setNull, (setField_none (by rw [Holds.length h]; exact hge)).1]
      rfl
    rw [List.set_eq_of_length_le hge, hset]
    exact Outcome.ok h (Nat.zero_le _)

/-- The first fields are kept. -/
theorem Stores.truncate (h : s.Stores fields) (len : ℕ) :
    (ByteRecord.truncate s len).Stores (fields.take len) := by
  unfold ByteRecord.truncate
  by_cases hge : len ≥ s.ends.length
  · rw [if_pos hge, List.take_of_length_le (by rw [← Holds.length h]; exact hge)]
    exact h
  · have hlt : len < fields.length := by
      rw [← Holds.length h]
      exact Nat.lt_of_not_le hge
    have hends : s.ends.take len = endsFrom n 0 (fields.take len) := by
      rw [h.ends]
      conv_lhs => rw [← List.take_append_drop len fields, endsFrom_append]
      refine List.take_left' ?_
      rw [length_endsFrom, List.length_take, Nat.min_eq_left (Nat.le_of_lt hlt)]
    have hlast : ((s.ends.take len).getLast?.map endOffset).getD 0 = (text (fields.take len)).length := by
      rcases Nat.eq_zero_or_pos len with rfl | hpos
      · rfl
      · obtain ⟨raw, hraw, hoffset, -⟩ := h.endOffset_eq (show len - 1 < fields.length by omega)
        have hget : (s.ends.take len).getLast? = some raw := by
          rw [List.getLast?_eq_getElem?, List.length_take, Holds.length h,
            Nat.min_eq_left (Nat.le_of_lt hlt), List.getElem?_take_of_lt (by omega), hraw]
        rw [hget, Option.map_some, Option.getD_some, hoffset, Nat.sub_add_cancel hpos]
    rw [if_neg hge, RecordStorage.truncate, if_pos (Nat.le_of_not_le hge), hlast]
    refine ⟨?_, hends, ?_⟩
    · have hsplit : text fields = text (fields.take len) ++ text (fields.drop len) := by
        rw [← text_append, List.take_append_drop]
      simp only [List.append_nil, h.bytes, hsplit, List.take_left]
    · exact (List.length_take_le' _ _).trans h.bound

/-! ### Compacting -/

/-- Bytes are moved down behind what is kept. -/
theorem copyWithin_down {front mid rest : Bytes} {start stop : ℕ} (hstart : front.length ≤ start)
    (hordered : start ≤ stop) (hstop : stop ≤ front.length + mid.length) :
    copyWithin (front ++ (mid ++ rest)) start stop front.length =
      .ok (front ++ slice (front ++ (mid ++ rest)) start stop ++ (mid.drop (stop - start) ++ rest)) := by
  have hlen : (front ++ (mid ++ rest)).length = front.length + (mid.length + rest.length) := by
    simp
  unfold copyWithin
  rw [if_pos ⟨hordered, by omega, by omega⟩, List.take_left, ← List.drop_drop, List.drop_left,
    List.drop_append_of_le_length (by omega)]

/-- What a field's bytes are in the buffer of a loop. -/
theorem slice_mid {front gap bytes rest : Bytes} {start : ℕ} (hstart : front.length + gap.length = start) :
    slice (front ++ (gap ++ (bytes ++ rest))) start (start + bytes.length) = bytes := by
  have hsplit : front ++ (gap ++ (bytes ++ rest)) = (front ++ gap) ++ (bytes ++ rest) := by simp
  rw [hsplit, slice, ← hstart, ← List.length_append, List.take_length_add_append, List.drop_left,
    List.take_left]

theorem length_slice {buffer : Bytes} {start stop : ℕ} (hstop : stop ≤ buffer.length) :
    (slice buffer start stop).length = stop - start := by
  rw [slice, List.length_drop, List.length_take, Nat.min_eq_left hstop]

/-- **The loop of a trim** keeps what it has kept, and reads the fields where they were. -/
theorem trimLoop_spec (fields : Fields) : ∀ (front gap : Bytes) (start : ℕ),
    front.length + gap.length = start → start + (text fields).length ≤ maxFieldOffset n →
      ∃ rest, trimLoop (endsFrom n start fields) (front ++ (gap ++ text fields)) start front.length =
        .ok (front ++ text (fields.map (·.map trimmed)) ++ rest,
          endsFrom n front.length (fields.map (·.map trimmed)),
          front.length + (text (fields.map (·.map trimmed))).length) ∧
        front.length + (text (fields.map (·.map trimmed))).length ≤ start + (text fields).length := by
  induction fields with
  | nil =>
    intro front gap start hstart _
    refine ⟨gap, ?_, ?_⟩
    · simp [trimLoop]
    · simp only [List.map_nil, text_nil, List.length_nil]
      omega
  | cons field fields ih =>
    intro front gap start hstart hbound
    rw [length_text_cons] at hbound
    have hend : start + width field ≤ maxFieldOffset n := by omega
    rw [endsFrom, trimLoop, endIsNull_encodeEnd hend]
    cases field with
    | none =>
      obtain ⟨rest, hloop, hle⟩ := ih front gap start hstart (by omega)
      refine ⟨rest, ?_, ?_⟩
      · rw [if_pos (show (none : Option Bytes).isNone = true from rfl)]
        simp only [width, Option.getD_none, List.length_nil, Nat.add_zero, text_cons, List.nil_append]
        rw [hloop]
        simp [bind, Except.bind, endsFrom, width]
      · simpa [width] using hle
    | some bytes =>
      simp only [width, Option.getD_some] at hend hbound
      have hbuffer : front ++ (gap ++ text (some bytes :: fields)) =
          front ++ (gap ++ (bytes ++ text fields)) := rfl
      have hlen : (front ++ (gap ++ (bytes ++ text fields))).length =
          start + bytes.length + (text fields).length := by
        simp only [List.length_append]
        omega
      obtain ⟨start', stop', hfront, hback, hle, hordered, hstop', hslice, -, -⟩ :=
        trim_ok (Nat.le_add_right start bytes.length)
          (show start + bytes.length ≤ (front ++ (gap ++ (bytes ++ text fields))).length by omega)
      rw [slice_mid hstart] at hslice
      have hwidth : (trimmed bytes).length = stop' - start' := by
        rw [← hslice, length_slice (by omega)]
      have hmove : copyWithin (front ++ (gap ++ (bytes ++ text fields))) start' stop' front.length =
          .ok (front ++ trimmed bytes ++ ((gap ++ bytes).drop (stop' - start') ++ text fields)) := by
        rw [show front ++ (gap ++ (bytes ++ text fields)) = front ++ ((gap ++ bytes) ++ text fields) by simp]
          at hslice ⊢
        rw [copyWithin_down (by omega) hordered (by rw [List.length_append]; omega), hslice]
      obtain ⟨rest, hloop, hle'⟩ := ih (front ++ trimmed bytes) ((gap ++ bytes).drop (stop' - start'))
        (start + bytes.length)
        (by rw [List.length_append, List.length_drop, List.length_append]; omega) (by omega)
      rw [List.length_append] at hloop hle'
      refine ⟨rest, ?_, ?_⟩
      · rw [if_neg (show ¬ (some bytes).isNone = true from Bool.false_ne_true), hbuffer]
        simp only [width, Option.getD_some]
        rw [endOffset_encodeEnd hend, hfront]
        change (do
          let trimmedEnd ← trimBack (front ++ (gap ++ (bytes ++ text fields))) start'
            (start + bytes.length - start')
          let moved ← copyWithin (front ++ (gap ++ (bytes ++ text fields))) start' trimmedEnd front.length
          let (moved, ends, final) ← trimLoop (endsFrom n (start + bytes.length) fields) moved
            (start + bytes.length) (front.length + (trimmedEnd - start'))
          Except.ok (moved, encodeEnd n (front.length + (trimmedEnd - start')) false :: ends, final)) = _
        rw [hback]
        change (do
          let moved ← copyWithin (front ++ (gap ++ (bytes ++ text fields))) start' stop' front.length
          let (moved, ends, final) ← trimLoop (endsFrom n (start + bytes.length) fields) moved
            (start + bytes.length) (front.length + (stop' - start'))
          Except.ok (moved, encodeEnd n (front.length + (stop' - start')) false :: ends, final)) = _
        rw [hmove, ← hwidth]
        rw [← hwidth] at hloop
        change (do
          let (moved, ends, final) ← trimLoop (endsFrom n (start + bytes.length) fields)
            (front ++ trimmed bytes ++ ((gap ++ bytes).drop (trimmed bytes).length ++ text fields))
            (start + bytes.length) (front.length + (trimmed bytes).length)
          Except.ok (moved, encodeEnd n (front.length + (trimmed bytes).length) false :: ends, final)) = _
        rw [hloop]
        simp [bind, Except.bind, endsFrom, width, Nat.add_assoc]
      · simp only [List.map_cons, length_text_cons, Option.map_some, width, Option.getD_some]
        omega

/-- Every field is trimmed. -/
theorem Stores.trimFieldsAscii (h : s.Stores fields) :
    ∃ s', s.trimFieldsAscii = .ok s' ∧ s'.Stores (fields.map (·.map trimmed)) := by
  have hbound := h.bound
  rw [h.bytes] at hbound
  obtain ⟨rest, hloop, hle⟩ := trimLoop_spec (n := n) fields [] [] 0 rfl (by omega)
  simp only [List.nil_append, List.length_nil, Nat.zero_add] at hloop hle
  refine ⟨⟨text (fields.map (·.map trimmed)), endsFrom n 0 (fields.map (·.map trimmed)), s.nullAware⟩,
    ?_, ?_⟩
  · unfold RecordStorage.trimFieldsAscii
    rw [h.ends, h.bytes, hloop]
    simp [bind, Except.bind]
  · exact ⟨(List.append_nil _).symm, rfl, hle.trans hbound⟩

/-- The fields that a predicate takes for NULL. -/
def marked (isNull : Bytes → Bool) (fields : Fields) : Fields :=
  fields.map (·.filter fun field => !isNull field)

/-- **The loop of a marking pass**, over fields of which none is NULL. -/
theorem markLoop_spec (isNull : Bytes → Bool) (fields : Fields) :
    ∀ (front gap : Bytes) (start : ℕ) (nullAware : Bool), fields.all Option.isSome = true →
      front.length + gap.length = start → start + (text fields).length ≤ maxFieldOffset n →
      ∃ rest nullAware', markLoop isNull (endsFrom n start fields) (front ++ (gap ++ text fields)) start
          front.length nullAware =
        .ok (front ++ text (marked isNull fields) ++ rest, endsFrom n front.length (marked isNull fields),
          front.length + (text (marked isNull fields)).length, nullAware') ∧
        front.length + (text (marked isNull fields)).length ≤ start + (text fields).length := by
  induction fields with
  | nil =>
    intro front gap start nullAware _ hstart _
    refine ⟨gap, nullAware, ?_, ?_⟩
    · simp [markLoop, marked]
    · simp only [marked, List.map_nil, text_nil, List.length_nil]
      omega
  | cons field fields ih =>
    intro front gap start nullAware hsome hstart hbound
    rw [List.all_cons, Bool.and_eq_true] at hsome
    obtain ⟨bytes, rfl⟩ := Option.isSome_iff_exists.mp hsome.1
    rw [length_text_cons] at hbound
    simp only [width, Option.getD_some] at hbound
    have hend : start + bytes.length ≤ maxFieldOffset n := by omega
    have hbuffer : front ++ (gap ++ text (some bytes :: fields)) =
        front ++ (gap ++ (bytes ++ text fields)) := rfl
    have hlen : (front ++ (gap ++ (bytes ++ text fields))).length =
        start + bytes.length + (text fields).length := by
      simp only [List.length_append]
      omega
    have hread : getUnchecked (front ++ (gap ++ (bytes ++ text fields))) start (start + bytes.length) =
        .ok bytes := by
      rw [getUnchecked_ok (Nat.le_add_right _ _) (by omega), slice_mid hstart]
    rw [endsFrom, markLoop, hbuffer]
    simp only [width, Option.getD_some, Option.isNone_some]
    rw [toNat_encodeEnd hend, hread]
    change ∃ rest nullAware', (if isNull bytes = true then do
        let (moved, ends, final) ← markLoop isNull (endsFrom n (start + bytes.length) fields)
          (front ++ (gap ++ (bytes ++ text fields))) (start + bytes.length) front.length true
        Except.ok (moved, encodeEnd n front.length true :: ends, final)
      else do
        let moved ← copyWithin (front ++ (gap ++ (bytes ++ text fields))) start (start + bytes.length)
          front.length
        let (moved, ends, final) ← markLoop isNull (endsFrom n (start + bytes.length) fields) moved
          (start + bytes.length) (front.length + (start + bytes.length - start)) nullAware
        Except.ok (moved, encodeEnd n (front.length + (start + bytes.length - start)) false :: ends,
          final)) = _ ∧ _
    by_cases hnull : isNull bytes = true
    · -- the bytes of a NULL are left out
      have hmarked : marked isNull (some bytes :: fields) = none :: marked isNull fields := by
        simp [marked, Option.filter, hnull]
      obtain ⟨rest, nullAware', hloop, hle⟩ := ih front (gap ++ bytes) (start + bytes.length) true hsome.2
        (by rw [List.length_append]; omega) (by omega)
      rw [List.append_assoc] at hloop
      refine ⟨rest, nullAware', ?_, ?_⟩
      · rw [if_pos hnull, hmarked, hloop]
        simp [bind, Except.bind, endsFrom, width]
      · rw [hmarked, length_text_cons, length_text_cons]
        simp only [width, Option.getD_none, Option.getD_some, List.length_nil]
        omega
    · have hmarked : marked isNull (some bytes :: fields) = some bytes :: marked isNull fields := by
        simp [marked, Option.filter, hnull]
      have hmove : copyWithin (front ++ (gap ++ (bytes ++ text fields))) start (start + bytes.length)
          front.length =
            .ok (front ++ bytes ++ ((gap ++ bytes).drop bytes.length ++ text fields)) := by
        have hslice : slice (front ++ (gap ++ (bytes ++ text fields))) start (start + bytes.length) =
            bytes := slice_mid hstart
        rw [show front ++ (gap ++ (bytes ++ text fields)) = front ++ ((gap ++ bytes) ++ text fields) by simp]
          at hslice ⊢
        rw [copyWithin_down (by omega) (Nat.le_add_right _ _) (by rw [List.length_append]; omega), hslice,
          Nat.add_sub_cancel_left]
      obtain ⟨rest, nullAware', hloop, hle⟩ := ih (front ++ bytes) ((gap ++ bytes).drop bytes.length)
        (start + bytes.length) nullAware hsome.2
        (by rw [List.length_append, List.length_drop, List.length_append]; omega) (by omega)
      rw [List.length_append] at hloop hle
      refine ⟨rest, nullAware', ?_, ?_⟩
      · rw [if_neg hnull, hmove, Nat.add_sub_cancel_left, hmarked]
        change (do
          let (moved, ends, final) ← markLoop isNull (endsFrom n (start + bytes.length) fields)
            (front ++ bytes ++ ((gap ++ bytes).drop bytes.length ++ text fields)) (start + bytes.length)
            (front.length + bytes.length) nullAware
          Except.ok (moved, encodeEnd n (front.length + bytes.length) false :: ends, final)) = _
        rw [hloop]
        simp [bind, Except.bind, endsFrom, width, Nat.add_assoc]
      · rw [hmarked, length_text_cons, length_text_cons]
        simp only [width, Option.getD_some]
        omega

/-- The marked fields are NULL, where none was before. -/
theorem Stores.markNullFields (h : s.Stores fields) (hsome : fields.all Option.isSome = true)
    (isNull : Bytes → Bool) :
    ∃ s', s.markNullFields isNull = .ok s' ∧ s'.Stores (marked isNull fields) := by
  have hbound := h.bound
  rw [h.bytes] at hbound
  obtain ⟨rest, nullAware, hloop, hle⟩ := markLoop_spec (n := n) isNull fields [] [] 0 s.nullAware hsome rfl
    (by omega)
  simp only [List.nil_append, List.length_nil, Nat.zero_add] at hloop hle
  refine ⟨⟨text (marked isNull fields), endsFrom n 0 (marked isNull fields), nullAware⟩, ?_, ?_⟩
  · unfold RecordStorage.markNullFields
    rw [h.ends, h.bytes, hloop]
    simp [bind, Except.bind]
  · exact ⟨(List.append_nil _).symm, rfl, hle.trans hbound⟩

/-! ## Every run -/

/-- The most bytes that an operation needs. -/
def room (fields : Fields) : RecordOp Bytes → ℕ
  | .pushField field | .appendField field => (text fields).length + field.length
  | .setField index field => (text (fields.set index (some field))).length
  | .appendPieces pieces => (text fields).length + pieces.flatten.length
  | .takeBack more pieces =>
    (text fields).length + more.flatten.flatten.length + pieces.flatten.length
  | _ => 0

/-- **One operation on the storage is the operation on the list**, and panics where there is no
    room for it. -/
theorem Stores.step (h : s.Stores fields) {op : RecordOp Bytes} {fields' : Fields}
    (hstep : Fields.step fields op = some fields') : Outcome (s.step op) fields' [] (room fields op) := by
  have hfits : (text fields).length ≤ maxFieldOffset n := Nat.le_of_add_right_le h.text_le
  have hzero : ∀ {r : Except BufferFault (RecordStorage n)} {fields'' : Fields},
      (∃ s', r = .ok s' ∧ s'.Stores fields'') → Outcome r fields'' [] 0 :=
    fun hr => Or.inl ⟨Nat.zero_le _, hr⟩
  cases op with
  | pushField field =>
    obtain rfl := Option.some.inj hstep
    exact h.pushField field
  | pushNull =>
    obtain rfl := Option.some.inj hstep
    rcases h.pushNull with ⟨-, hok⟩ | ⟨hroom, -⟩
    · exact hzero hok
    · omega
  | setField index field =>
    obtain rfl := Option.some.inj hstep
    exact h.setField index field
  | setNull index =>
    obtain rfl := Option.some.inj hstep
    exact h.setNull index
  | truncate len =>
    obtain rfl := Option.some.inj hstep
    exact hzero ⟨_, rfl, h.truncate len⟩
  | clear =>
    obtain rfl := Option.some.inj hstep
    exact hzero ⟨_, rfl, stores_new⟩
  | trimFieldsAscii =>
    obtain rfl := Option.some.inj hstep
    exact hzero h.trimFieldsAscii
  | appendField field =>
    obtain rfl := Option.some.inj hstep
    exact h.pushField field
  | appendEmptyFields count =>
    obtain rfl := Option.some.inj hstep
    exact hzero ⟨_, rfl, h.appendEmptyFields count⟩
  | appendNullField =>
    obtain rfl := Option.some.inj hstep
    rcases h.pushNull with ⟨-, hok⟩ | ⟨hroom, -⟩
    · exact hzero hok
    · omega
  | appendPieces pieces =>
    obtain rfl := Option.some.inj hstep
    exact h.appendPieces pieces
  | takeBack more pieces =>
    obtain rfl := Option.some.inj hstep
    exact h.takeBack more pieces
  | markNullFields isNull =>
    rw [Fields.step] at hstep
    split_ifs at hstep with hsome
    obtain rfl := Option.some.inj hstep
    exact hzero (h.markNullFields hsome isNull)

/-- A run goes on, or ends at a panic. -/
theorem Stores.foldlM (ops : List (RecordOp Bytes)) : ∀ {s : RecordStorage n} {fields fields' : Fields},
    s.Stores fields → ops.foldlM Fields.step fields = some fields' →
      (∃ s', ops.foldlM RecordStorage.step s = .ok s' ∧ s'.Stores fields') ∨
        ops.foldlM RecordStorage.step s = .error .assertion := by
  induction ops with
  | nil =>
    intro s fields fields' h hrun
    obtain rfl := Option.some.inj hrun
    exact Or.inl ⟨s, rfl, h⟩
  | cons op ops ih =>
    intro s fields fields' h hrun
    rw [List.foldlM_cons] at hrun ⊢
    obtain ⟨fields₁, hstep, hrest⟩ := Option.bind_eq_some_iff.mp hrun
    rcases h.step hstep with ⟨-, s₁, hs₁, h₁⟩ | ⟨-, herror⟩
    · rw [hs₁]
      exact ih h₁ hrest
    · rw [herror]
      exact Or.inr rfl

/-- The endpoints are in order and inside the buffer. -/
structure Ordered (s : RecordStorage n) : Prop where
  sorted : (s.ends.map endOffset).Pairwise (· ≤ ·)
  inside : ∀ raw ∈ s.ends, endOffset raw ≤ s.bytes.length

theorem endsFrom_ordered (fields : Fields) : ∀ start, start + (text fields).length ≤ maxFieldOffset n →
    ((endsFrom n start fields).map endOffset).Pairwise (· ≤ ·) ∧
      ∀ raw ∈ endsFrom n start fields, start ≤ endOffset raw ∧
        endOffset raw ≤ start + (text fields).length := by
  induction fields with
  | nil =>
    intro start _
    exact ⟨List.Pairwise.nil, fun raw hraw => by cases hraw⟩
  | cons field fields ih =>
    intro start hbound
    rw [length_text_cons] at hbound ⊢
    obtain ⟨hsorted, hinside⟩ := ih (start + width field) (by omega)
    have hfirst : endOffset (encodeEnd n (start + width field) field.isNone) = start + width field :=
      endOffset_encodeEnd (by omega) _
    refine ⟨?_, ?_⟩
    · rw [endsFrom, List.map_cons, List.pairwise_cons]
      refine ⟨?_, hsorted⟩
      intro offset hoffset
      obtain ⟨raw, hraw, rfl⟩ := List.mem_map.mp hoffset
      rw [hfirst]
      exact (hinside raw hraw).1
    · rw [endsFrom, List.forall_mem_cons, hfirst]
      refine ⟨by omega, fun raw hraw => ?_⟩
      have := hinside raw hraw
      omega

theorem Stores.ordered (h : s.Stores fields) : s.Ordered := by
  have hbound := h.text_le
  obtain ⟨hsorted, hinside⟩ := endsFrom_ordered (n := n) fields 0 (by omega)
  refine ⟨?_, ?_⟩
  · rw [h.ends]
    exact hsorted
  · intro raw hraw
    rw [h.ends] at hraw
    rw [h.bytes]
    have := (hinside raw hraw).2
    omega

end RecordStorage

end Coseva
