/-
  Coseva — the encoding of an index (`coseva/src/index/format.rs`).

  * `encodeFormat`, `decodeFormat`: the settings of a format, one byte or two
    for each, and the tails of its separators behind them;
  * `encodeHeader`, `decodeHeader`: the fixed header of an index;
  * `checkEntry`: what the position of a record must satisfy.
-/
import Coseva.Config
import Coseva.Lib.Decode

namespace Coseva

open Decode

/-- `Error`, of what an index reports: its kind and its text. -/
inductive IndexError where
  | invalidIndex (detail : String)
  | configuration (reason : String)
  | recordOutOfRange (record : ℕ)
  deriving DecidableEq, Repr

namespace IndexFormat

/-- A read of an index: `Cursor`, or `read_index_exact` of a file. -/
abbrev Read := EStateM IndexError Bytes

/-! ## Widths -/

/-- `MAGIC`. -/
def magic : Bytes := [66, 67, 83, 86, 73, 68, 88, 50]

/-- `VERSION`. -/
def version : ℕ := 9

/-- `MIN_VERSION`. -/
def minVersion : ℕ := 8

/-- `HASH_BYTES`, and the width of a checksum. -/
def hashBytes : ℕ := 16

/-- `FORMAT_BYTES`. -/
def formatBytes : ℕ := 17 + 2 * (1 + Tail.max)

/-- `FIXED_HEADER_BYTES`. -/
def fixedHeaderBytes : ℕ := 8 + 4 + 8 + hashBytes + formatBytes + 24 + 8

/-- `trailer_bytes`: one checksum for version 8, two for version 9. -/
def trailerBytes (version : ℕ) : ℕ := if version < 9 then hashBytes else 2 * hashBytes

/-- `[u8; HASH_BYTES]`: a hash. -/
abbrev Hash := Vector UInt8 16

/-! ## Reads -/

/-- `Cursor::take`, and `read_index_exact`. -/
def take (n : ℕ) : Read Bytes := Decode.take (.invalidIndex "index is truncated") n

/-- The array of some bytes. -/
def arrayOf (n : ℕ) (bytes : Bytes) : Vector UInt8 n := Vector.ofFn fun i => bytes.getD i 0

/-- `Cursor::byte`. -/
def byte : Read UInt8 := (·.headD 0) <$> take 1

/-- `Cursor::u32`. -/
def u32 : Read ℕ := ofLe <$> take 4

/-- `Cursor::u64`. -/
def u64 : Read UInt64 := (UInt64.ofNat ∘ ofLe) <$> take 8

/-- `Cursor::array_16`. -/
def array16 : Read Hash := arrayOf 16 <$> take 16

/-- `u64::to_le_bytes`. -/
def u64Bytes (n : UInt64) : Bytes := toLe 8 n.toNat

/-! ## Settings -/

/-- A `Tail` as it is stored: the bytes behind its length count when two formats
    are compared. -/
structure StoredTail where
  len : UInt8
  bytes : Vector UInt8 3
  deriving DecidableEq, Repr

/-- `Tail::from_parts`. -/
def StoredTail.toTail (t : StoredTail) : Tail :=
  if h : t.len.toNat ≤ Tail.max then
    ⟨t.bytes.toList.take t.len.toNat, false, by rw [List.length_take]; omega⟩
  else { Tail.empty with unusable := true }

/-- `Tail::parts`: `Tail::UNUSABLE` is the length of an unusable tail. -/
def tailParts (t : Tail) : StoredTail where
  len := if t.unusable then 255 else UInt8.ofNat t.bytes.length
  bytes := arrayOf 3 t.bytes

theorem tailParts_toTail {t : Tail} (h : t.unusable = false) : (tailParts t).toTail = t := by
  obtain ⟨bytes, unusable, hle⟩ := t
  obtain rfl : unusable = false := h
  have hlen : (UInt8.ofNat bytes.length).toNat = bytes.length := by
    rw [UInt8.toNat_ofNat']
    exact Nat.mod_eq_of_lt (by unfold Tail.max at hle; omega)
  have htake : ((arrayOf 3 bytes).toList).take bytes.length = bytes := by
    unfold Tail.max at hle
    refine List.ext_getElem? fun i => ?_
    rw [List.getElem?_take]
    split_ifs with hi
    · simp [arrayOf, hi, List.getD_eq_getElem?_getD]
      omega
    · exact (List.getElem?_eq_none_iff.mpr (Nat.le_of_not_lt hi)).symm
  unfold tailParts StoredTail.toTail
  simp only [Bool.false_eq_true, if_false, hlen, hle, dite_true, htake]

/-- `FormatOptions`, with the tails of its separators as they are stored.  Its
    equality is that of the source, which leaves out the tag. -/
structure StoredFormat where
  settings : FormatSettings
  delimiterTail : StoredTail
  endingTail : StoredTail
  delimiter_stored : settings.dialect.delimiterTail = delimiterTail.toTail
  ending_stored : settings.dialect.endingTail = endingTail.toTail
  deriving DecidableEq

/-- A `bool` as a `u8`. -/
def bit (b : Bool) : UInt8 := if b then 1 else 0

/-- `Whitespace::bits`. -/
def whitespaceBits (w : Whitespace) : UInt8 :=
  bit w.fields ||| (bit w.headers <<< 1) ||| (bit w.quoted <<< 2)

/-- `Whitespace::from_bits`. -/
def whitespaceFromBits (bits : UInt8) : Option Whitespace :=
  if bits &&& ~~~7 ≠ 0 then none
  else some ⟨bits &&& 1 ≠ 0, bits &&& 2 ≠ 0, bits &&& 4 ≠ 0⟩

/-- `Recovery::bits`. -/
def recoveryBits (r : Recovery) : UInt8 :=
  bit r.quoting ||| (bit r.unquotedQuotes <<< 1) ||| (bit r.anyBackslashEscape <<< 2)
    ||| (bit r.trailingWhitespaceAfterQuote <<< 3)

/-- `Recovery::from_bits`. -/
def recoveryFromBits (flags : UInt8) : Option Recovery :=
  if flags &&& ~~~15 = 0 then
    some ⟨flags &&& 1 ≠ 0, flags &&& 2 ≠ 0, flags &&& 4 ≠ 0, flags &&& 8 ≠ 0⟩
  else none

def encodeRecordEnding : RecordEnding → Bytes
  | .newline => [0, 0]
  | .ofByte byte => [1, byte]
  | .crLf => [2, 0]

def encodeEscape : Escape → Bytes
  | .doubleQuote => [0, 0]
  | .backslash byte => [1, byte]
  | .mysql => [2, 0]
  | .unquoted byte => [3, byte]

def encodeComment : Option UInt8 → Bytes
  | none => [0, 0]
  | some byte => [1, byte]

def encodeBlankRecords : BlankRecords → UInt8
  | .preserve => 0
  | .skip => 1

def encodeReadBom : ReadBom → UInt8
  | .detect => 0
  | .preserve => 1
  | .reject => 2

def encodeWriteBom : WriteBom → UInt8
  | .omit => 0
  | .emit => 1

def encodeSyntax : Syntax → Bytes
  | .strict => [0, 0]
  | .compatible rules => [1, recoveryBits rules]

def encodeNulls : Nulls → UInt8
  | .none => 0
  | .postgresCsv => 1
  | .mysql => 2

def encodeQuoting : Quoting → UInt8
  | .necessary => 0
  | .always => 1
  | .never => 2
  | .nonNumeric => 3
  | .raw => 4

def encodeTail (t : StoredTail) : Bytes := t.len :: t.bytes.toList

/-- The dialect without its tails, as `encode_format` begins. -/
def encodeDialect (d : Dialect) : Bytes :=
  [d.delimiter] ++ ([d.quote] ++ (encodeRecordEnding d.recordEnding ++ (encodeEscape d.escape ++
    encodeComment d.comment)))

/-- `encode_format`. -/
def encodeFormat (f : StoredFormat) : Bytes :=
  let o := f.settings
  encodeDialect o.dialect ++ ([whitespaceBits o.trim] ++ ([encodeBlankRecords o.blankRecords] ++
    ([encodeReadBom o.readBom] ++ ([encodeWriteBom o.writeBom] ++ (encodeSyntax o.syntax' ++
    ([encodeNulls o.nulls] ++ ([encodeQuoting o.quoting] ++
    ([bit o.skipInitialSpace] ++ (encodeTail f.delimiterTail ++
    encodeTail f.endingTail)))))))))

/-- Two bytes of which the second may be read for nothing. -/
def pair : Read (UInt8 × UInt8) := do
  let first ← byte
  let second ← byte
  pure (first, second)

/-- What a byte stands for, if it is one that an encoding uses. -/
def known {α : Type} (unknown : String) : Option α → Read α
  | some a => pure a
  | none => throw (.invalidIndex unknown)

def recordEndingOf : UInt8 × UInt8 → Option RecordEnding
  | (0, _) => some .newline
  | (1, byte) => some (.ofByte byte)
  | (2, _) => some .crLf
  | _ => none

def escapeOf : UInt8 × UInt8 → Option Escape
  | (0, _) => some .doubleQuote
  | (1, byte) => some (.backslash byte)
  | (2, _) => some .mysql
  | (3, byte) => some (.unquoted byte)
  | _ => none

def commentOf : UInt8 × UInt8 → Option (Option UInt8)
  | (0, _) => some none
  | (1, byte) => some (some byte)
  | _ => none

def blankRecordsOf : UInt8 → Option BlankRecords
  | 0 => some .preserve
  | 1 => some .skip
  | _ => none

def readBomOf : UInt8 → Option ReadBom
  | 0 => some .detect
  | 1 => some .preserve
  | 2 => some .reject
  | _ => none

def writeBomOf : UInt8 → Option WriteBom
  | 0 => some .omit
  | 1 => some .emit
  | _ => none

def nullsOf : UInt8 → Option Nulls
  | 0 => some .none
  | 1 => some .postgresCsv
  | 2 => some .mysql
  | _ => none

def quotingOf : UInt8 → Option Quoting
  | 0 => some .necessary
  | 1 => some .always
  | 2 => some .never
  | 3 => some .nonNumeric
  | 4 => some .raw
  | _ => none

def skipInitialSpaceOf : UInt8 → Option Bool
  | 0 => some false
  | 1 => some true
  | _ => none

/-- `Dialect::validate`. -/
def validate (d : Dialect) : Read Unit :=
  match d.invalidity with
  | some reason => throw (.configuration reason)
  | none => pure ()

/-- The mode of `Syntax` and its flags. -/
def decodeSyntax : Read Syntax := do
  let (mode, flags) ← pair
  if mode = 0 then pure .strict
  else if mode = 1 then
    .compatible <$> known "unknown recovery rule encoding" (recoveryFromBits flags)
  else throw (.invalidIndex "unknown syntax mode encoding")

/-- The length of a tail and its bytes. -/
def decodeTail : Read StoredTail := do
  let len ← byte
  let bytes ← take Tail.max
  pure ⟨len, arrayOf 3 bytes⟩

/-- `decode_dialect`, with `Dialect::new` and `Dialect::with_comment`. -/
def decodeDialect : Read Dialect := do
  let delimiter ← byte
  let quote ← byte
  let recordEnding ← pair >>= known "unknown record_ending encoding" ∘ recordEndingOf
  let escape ← pair >>= known "unknown escape encoding" ∘ escapeOf
  let comment ← pair >>= known "unknown comment encoding" ∘ commentOf
  let d : Dialect := ⟨delimiter, quote, recordEnding, escape, none, .empty, .empty⟩
  validate d
  match comment with
  | none => pure d
  | some comment => do
    validate { d with comment := some comment }
    pure { d with comment := some comment }

/-- `decode_format`, with `Dialect::with_tails`. -/
def decodeFormat : Read StoredFormat := do
  let d ← decodeDialect
  let trim ← byte >>= known "unknown trim encoding" ∘ whitespaceFromBits
  let blankRecords ← byte >>= known "unknown blank-record encoding" ∘ blankRecordsOf
  let readBom ← byte >>= known "unknown read BOM encoding" ∘ readBomOf
  let writeBom ← byte >>= known "unknown write BOM encoding" ∘ writeBomOf
  let rules ← decodeSyntax
  let nulls ← byte >>= known "unknown NULL policy encoding" ∘ nullsOf
  let quoting ← byte >>= known "unknown quote policy encoding" ∘ quotingOf
  let skipInitialSpace ← byte >>= known "unknown initial-space encoding" ∘ skipInitialSpaceOf
  let delimiterTail ← decodeTail
  let endingTail ← decodeTail
  let d : Dialect := { d with
    delimiterTail := delimiterTail.toTail
    endingTail := endingTail.toTail }
  validate d
  pure ⟨⟨d, trim, blankRecords, readBom, writeBom, rules, nulls, quoting, skipInitialSpace⟩,
    delimiterTail, endingTail, rfl, rfl⟩

/-! ## The header -/

/-- `IndexHeader`. -/
structure IndexHeader where
  version : ℕ
  sourceLen : UInt64
  sourceHash : Hash
  format : StoredFormat
  limits : Limits
  count : UInt64

/-- A limit, as a `u64`. -/
def limitBytes (limit : ℕ) : Bytes := toLe 8 limit

/-- `encode_header`. -/
def encodeHeader (sourceLen : UInt64) (sourceHash : Hash) (format : StoredFormat) (limits : Limits)
    (count : UInt64) : Bytes :=
  magic ++ (toLe 4 version ++ (u64Bytes sourceLen ++ (sourceHash.toList ++ (encodeFormat format ++
    (limitBytes limits.maxRecordBytes ++ (limitBytes limits.maxFieldBytes ++
    (limitBytes limits.maxFields ++ u64Bytes count)))))))

/-- `decode_limits`, of a 64-bit target. -/
def decodeLimits : Read Limits := do
  let maxRecordBytes ← u64
  let maxFieldBytes ← u64
  let maxFields ← u64
  pure ⟨maxRecordBytes.toNat, maxFieldBytes.toNat, maxFields.toNat⟩

/-- `decode_header`. -/
def decodeHeader : Read IndexHeader := do
  let found ← take 8
  if found ≠ magic then throw (.invalidIndex "index magic does not match")
  let number ← u32
  if ¬ (minVersion ≤ number ∧ number ≤ version) then
    throw (.invalidIndex "unsupported index version")
  let sourceLen ← u64
  let sourceHash ← array16
  let format ← decodeFormat
  let limits ← decodeLimits
  let count ← u64
  pure ⟨number, sourceLen, sourceHash, format, limits, count⟩

/-! ## Positions -/

/-- The offset and the line of a record. -/
abbrev StoredEntry := UInt64 × UInt64

/-- `check_entry_bounds`, and `check_first_entry`. -/
def checkEntryBounds (entry : StoredEntry) (sourceLen : UInt64) : Read Unit :=
  if entry.1 ≥ sourceLen then throw (.invalidIndex "record offset exceeds source")
  else if entry.2 = 0 then throw (.invalidIndex "record lines are not valid and nondecreasing")
  else pure ()

/-- `check_entry`. -/
def checkEntry (entry : StoredEntry) (sourceLen : UInt64) (previous : Option StoredEntry) : Read Unit := do
  checkEntryBounds entry sourceLen
  if previous.any fun p => entry.1 ≤ p.1 then
    throw (.invalidIndex "record offsets are not strictly increasing")
  else if previous.any fun p => entry.2 < p.2 then
    throw (.invalidIndex "record lines are not valid and nondecreasing")
  else pure ()

/-- `payload_len`. -/
def payloadLen (count : UInt64) : Read ℕ :=
  if count.toNat * 16 + fixedHeaderBytes < 2 ^ 64 then pure (count.toNat * 16 + fixedHeaderBytes)
  else throw (.invalidIndex "index length overflows u64")

/-- The length of an index with this header, which both readers compare with the
    length of the file. -/
def expectedLen (header : IndexHeader) : Read ℕ := do
  let payload ← payloadLen header.count
  if payload + trailerBytes header.version < 2 ^ 64 then pure (payload + trailerBytes header.version)
  else throw (.invalidIndex "index length overflows u64")

end IndexFormat

end Coseva
