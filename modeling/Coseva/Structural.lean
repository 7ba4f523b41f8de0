/-
  Coseva — the record kernels of the default dialect over owned buffers
  (`coseva_unsafe/src/record.rs`).

  * `tryParseDefaultQuotedRecordStructural`: the AVX2 kernel, which finds the fields of
    a record in the bit masks of a block of 64 bytes;
  * `tryParseDefaultRecord`: the kernel that searches byte by byte.
-/
import Coseva.Lib.Bits
import Coseva.Quoting
import Coseva.TextRecord

namespace Coseva

namespace Structural

/-- What a kernel fills of a `RecordStorage`. -/
structure Output where
  bytes : Bytes
  ends : List ℕ
  textValidity : TextValidity
  deriving DecidableEq, Repr

/-- Why a kernel gives no record. -/
inductive Stop
  /-- the caller falls back to another parser -/
  | declined
  /-- an index out of range, or a shift behind a word -/
  | panicked
  deriving DecidableEq, Repr

/-- `&input[start..stop]`. -/
def range (input : Bytes) (start stop : ℕ) : Except Stop Bytes :=
  if start ≤ stop ∧ stop ≤ input.length then .ok (slice input start stop) else .error .panicked

/-- `1_u64 << bit`. -/
def bitAt (bit : ℕ) : Except Stop (BitVec 64) :=
  if bit < 64 then .ok (1#64 <<< bit) else .error .panicked

/-- `quote_parity`. -/
def quoteParity (quotes : BitVec 64) : BitVec 64 :=
  let quotes := quotes ^^^ quotes <<< 1
  let quotes := quotes ^^^ quotes <<< 2
  let quotes := quotes ^^^ quotes <<< 4
  let quotes := quotes ^^^ quotes <<< 8
  let quotes := quotes ^^^ quotes <<< 16
  quotes ^^^ quotes <<< 32

/-- A mask of `csv_masks_avx2`. -/
def csvMask (byte : UInt8) (block : Bytes) : BitVec 32 := Bits.ofMask 32 (· == byte) block

/-- Whether `csv_masks_ascii_avx2` finds no high bit. -/
def asciiBlock (block : Bytes) : Bool := Bits.ofMask 32 (· ≥ 128) block == 0

/-- The masks of two blocks in one word. -/
def joined (byte : UInt8) (first second : Bytes) : BitVec 64 :=
  (csvMask byte first).setWidth 64 ||| (csvMask byte second).setWidth 64 <<< 32

/-! ## Fields -/

section field

variable (checkFieldLimit : Bool) (input : Bytes)

/-- The field limit, as the masked copies check it. -/
def tooLong (maxFieldBytes : ℕ) (field : Bytes) : Bool :=
  checkFieldLimit && decide (field.length > maxFieldBytes)

/-- The loop of `append_masked_quoted_field`. -/
def appendEscaped (closing : ℕ) : ℕ → Bytes → ℕ → BitVec 64 → Except Stop Bytes
  | 0, _, _, _ => .error .panicked
  | fuel + 1, bytes, segmentStart, escaped => do
    if escaped = 0 then
      let segment ← range input segmentStart closing
      return bytes ++ segment
    let first := escaped.ctz.toNat
    let second := first + 1
    let pair := (← bitAt first) ||| (← bitAt second)
    if escaped &&& pair ≠ pair then throw .declined
    let segment ← range input segmentStart first
    appendEscaped closing fuel (bytes ++ segment ++ [34]) (second + 1) (escaped &&& ~~~pair)

/-- `append_masked_quoted_field`. -/
def appendMaskedQuotedField (bytes : Bytes) (fieldStart fieldEnd : ℕ) (fieldQuotes : BitVec 64)
    (maxFieldBytes : ℕ) : Except Stop Bytes := do
  if fieldEnd = 0 then throw .declined
  let closing := fieldEnd - 1
  let outerQuotes := (← bitAt fieldStart) ||| (← bitAt closing)
  if fieldQuotes = outerQuotes then
    let field ← range input (fieldStart + 1) closing
    if tooLong checkFieldLimit maxFieldBytes field then throw .declined
    return bytes ++ field
  if fieldQuotes &&& outerQuotes ≠ outerQuotes then throw .declined
  let field ← range input (fieldStart + 1) closing
  if tooLong checkFieldLimit maxFieldBytes field then throw .declined
  appendEscaped input closing 65 bytes (fieldStart + 1) (fieldQuotes &&& ~~~outerQuotes)

/-- `append_structural_field`. -/
def appendStructuralField (bytes : Bytes) (fieldStart fieldEnd : ℕ) (fieldQuotes : BitVec 64)
    (maxFieldBytes : ℕ) : Except Stop Bytes := do
  if fieldQuotes ≠ 0 then
    appendMaskedQuotedField checkFieldLimit input bytes fieldStart fieldEnd fieldQuotes maxFieldBytes
  else
    let field ← range input fieldStart fieldEnd
    if tooLong checkFieldLimit maxFieldBytes field then throw .declined
    return bytes ++ field

/-- The quotes of the field that starts behind `marker` and ends at `endBit`. -/
def fieldQuotes (quotes marker endBit : BitVec 64) : BitVec 64 :=
  quotes &&& (endBit - 1#64) &&& ~~~(marker - 1#64)

/-- The loop over the separators: the bytes and ends so far, where the last field starts, and the
    bit behind which it does. -/
def appendFields (quotes : BitVec 64) (maxFieldBytes : ℕ) :
    ℕ → BitVec 64 → ℕ → BitVec 64 → Bytes → List ℕ →
      Except Stop (ℕ × BitVec 64 × Bytes × List ℕ)
  | 0, _, _, _, _, _ => .error .panicked
  | fuel + 1, separators, fieldStart, marker, bytes, ends => do
    if separators = 0 then return (fieldStart, marker, bytes, ends)
    let separatorBit := separators &&& -separators
    let separator := separators.ctz.toNat
    let bytes ← appendStructuralField checkFieldLimit input bytes fieldStart separator
      (fieldQuotes quotes marker separatorBit) maxFieldBytes
    appendFields quotes maxFieldBytes fuel (separators &&& (separators - 1#64)) (separator + 1)
      separatorBit bytes (ends ++ [bytes.length])

/-- The fields of the record that ends at the lowest bit of `recordEnds`. -/
def appendRecord (commas quotes outside recordEnds : BitVec 64) (maxFieldBytes : ℕ) (bytes : Bytes)
    (ends : List ℕ) : Except Stop (Bytes × List ℕ) := do
  let recordEndBit := recordEnds &&& -recordEnds
  let recordEnd := recordEnds.ctz.toNat
  let separators := commas &&& outside &&& (recordEndBit - 1#64)
  let (fieldStart, marker, bytes, ends) ←
    appendFields checkFieldLimit input quotes maxFieldBytes 65 separators 0 1 bytes ends
  let fieldEnd :=
    if recordEnd > fieldStart ∧ byteAt input (recordEnd - 1) = 13 then recordEnd - 1 else recordEnd
  let bytes ← appendStructuralField checkFieldLimit input bytes fieldStart fieldEnd
    (fieldQuotes quotes marker recordEndBit) maxFieldBytes
  return (bytes, ends ++ [bytes.length])

end field

/-- `rollback_structural`. -/
def rollback (preservePrefix : Bool) (output : Output) : Output :=
  if preservePrefix then output else { output with bytes := [], ends := [] }

/-- `try_parse_default_quoted_record_structural_mode`, on a machine that has AVX2 or not. -/
def tryParseDefaultQuotedRecordStructural (avx2 checkFieldLimit preservePrefix certifyAscii : Bool)
    (input : Bytes) (output : Output) (maxFieldBytes : ℕ) : Except Stop (ℕ × Bool) × Output :=
  if !avx2 then (.error .declined, output)
  else if input.length < 64 then (.error .declined, output)
  else
    let first := input.take 32
    let second := slice input 32 64
    let commas := joined 44 first second
    let quotes := joined 34 first second
    let newlines := joined 10 first second
    if certifyAscii && quotes == 0 then (.error .declined, output)
    else
      let outside := ~~~(quoteParity quotes)
      let recordEnds := newlines &&& outside
      if recordEnds = 0 then (.error .declined, output)
      else
        match appendRecord checkFieldLimit input commas quotes outside recordEnds maxFieldBytes
            output.bytes output.ends with
        | .error stop => (.error stop, rollback preservePrefix output)
        | .ok (bytes, ends) =>
          (.ok (recordEnds.ctz.toNat + 1, true),
            { bytes
              ends
              textValidity :=
                if certifyAscii && asciiBlock first && asciiBlock second then .ascii
                else output.textValidity })

/-! ## The scalar kernel -/

section scalar

variable (checkFieldLimit : Bool) (input : Bytes)

/-- `consume_field_raw_bytes`. -/
def consumeFieldRawBytes (fieldBytesLeft added : ℕ) : Option ℕ :=
  if !checkFieldLimit then some fieldBytesLeft
  else if added ≤ fieldBytesLeft then some (fieldBytesLeft - added)
  else none

/-- `finish_field`. -/
def finishField (bytes : Bytes) (ends : List ℕ) (maxFields : ℕ) : Option (List ℕ) :=
  if ends.length ≥ maxFields then none else some (ends ++ [bytes.length])

/-- The loop over the quotes of a field: the bytes behind it, and where its closing quote is. -/
def quotedLoop : ℕ → Bytes → ℕ → ℕ → Option (Bytes × ℕ)
  | 0, _, _, _ => none
  | fuel + 1, bytes, fieldBytesLeft, cursor => do
    let offset ← find1 34 (input.drop cursor)
    let at' := cursor + offset
    let segment := slice input cursor at'
    let left ← consumeFieldRawBytes checkFieldLimit fieldBytesLeft segment.length
    if input[at' + 1]? = some 34 then
      let left ← consumeFieldRawBytes checkFieldLimit left 2
      quotedLoop fuel (bytes ++ segment ++ [34]) left (at' + 2)
    else return (bytes ++ segment, at')

/-- The loop of `try_parse_default_record`, over the bytes that `max_record_bytes` leaves. -/
def recordLoop (maxFieldBytes maxFields : ℕ) : ℕ → ℕ → Bytes → List ℕ → Option (ℕ × Bytes × List ℕ)
  | 0, _, _, _ => none
  | fuel + 1, location, bytes, ends => do
    let first ← input[location]?
    if first = 34 then
      let (bytes, at') ← quotedLoop checkFieldLimit input input.length bytes maxFieldBytes (location + 1)
      let ends ← finishField bytes ends maxFields
      let afterQuote := at' + 1
      match input[afterQuote]? with
      | some 44 => recordLoop maxFieldBytes maxFields fuel (afterQuote + 1) bytes ends
      | some 10 => some (afterQuote + 1, bytes, ends)
      | some 13 => if input[afterQuote + 1]? = some 10 then some (afterQuote + 2, bytes, ends) else none
      | _ => none
    else
      let offset ← find3 44 34 10 (input.drop location)
      let at' := location + offset
      let byte := byteAt input at'
      if byte = 34 then none
      else
        let fieldEnd := if byte = 10 ∧ at' > location ∧ byteAt input (at' - 1) = 13 then at' - 1 else at'
        let segment := slice input location fieldEnd
        if tooLong checkFieldLimit maxFieldBytes segment then none
        else
          let bytes := bytes ++ segment
          let ends ← finishField bytes ends maxFields
          if byte = 10 then some (at' + 1, bytes, ends)
          else recordLoop maxFieldBytes maxFields fuel (at' + 1) bytes ends

/-- `try_parse_default_record`: where the next record begins, and the storage behind the record. -/
def tryParseDefaultRecord (output : Output) (maxRecordBytes maxFieldBytes maxFields : ℕ) :
    Option (ℕ × Output) := do
  let input := input.take (min input.length maxRecordBytes)
  let (location, bytes, ends) ← recordLoop checkFieldLimit input maxFieldBytes maxFields
    (input.length + 1) 0 output.bytes output.ends
  return (location, { output with bytes, ends })

end scalar

end Structural

end Coseva
