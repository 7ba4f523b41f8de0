/-
  Coseva — an index and its file (`coseva/src/index/csv_index.rs`,
  `index/csv_index_reader.rs`), as the bytes of the file.

  * `CsvIndex.save`, `CsvIndex.load`: the whole index;
  * `CsvIndexReader`: an index of which the positions are read one by one.
-/
import Coseva.Grammar
import Coseva.IndexBuild
import Coseva.IndexFormat

namespace Coseva

open IndexFormat

/-- `CsvIndex`. -/
structure CsvIndex where
  sourceLen : UInt64
  sourceHash : Hash
  format : StoredFormat
  limits : Limits
  offsets : List UInt64
  lines : List UInt64
  deriving DecidableEq

/-- A hash function (`hash_bytes`; `Xxh3` over the same bytes, in pieces). -/
abbrev HashFunction := Bytes → Hash

/-- A position as a location (`entry_location`). -/
def entryLocation (entry : StoredEntry) (sourceLen : UInt64) (record : ℕ) :
    Except IndexError Boundary :=
  if entry.1 ≥ sourceLen then .error (.invalidIndex "record offset exceeds source")
  else .ok ⟨entry.1.toNat, entry.2.toNat, record⟩

namespace CsvIndex

/-! ## Positions -/

/-- `len`. -/
def len (ix : CsvIndex) : ℕ := ix.offsets.length

/-- The position of a record (`record_offset`, `record_line`). -/
def entry (ix : CsvIndex) (record : ℕ) : Option StoredEntry :=
  match ix.offsets[record]?, ix.lines[record]? with
  | some offset, some line => some (offset, line)
  | _, _ => none

/-- `location_at`. -/
def locationAt (ix : CsvIndex) (record : ℕ) : Except IndexError Boundary :=
  match ix.entry record with
  | none => .error (.recordOutOfRange record)
  | some entry => entryLocation entry ix.sourceLen record

/-! ## The file -/

/-- The bytes of the positions. -/
def entryBytes (entries : List StoredEntry) : Bytes :=
  entries.flatMap fun entry => u64Bytes entry.1 ++ u64Bytes entry.2

/-- `CsvIndex::encode_header`. -/
def header (ix : CsvIndex) : Bytes :=
  encodeHeader ix.sourceLen ix.sourceHash ix.format ix.limits (UInt64.ofNat ix.offsets.length)

/-- `save`: the bytes of the file. -/
def save (hash : HashFunction) (ix : CsvIndex) : Bytes :=
  let entries := entryBytes (ix.offsets.zip ix.lines)
  ix.header ++ (entries ++ ((hash entries).toList ++ (hash ix.header).toList))

/-- The loop of `decode_reader`: the positions, and the bytes that were hashed. -/
def readEntries (sourceLen : UInt64) :
    (count : ℕ) → (previous : Option StoredEntry) → Read (List StoredEntry × Bytes)
  | 0, _ => pure ([], [])
  | count + 1, previous => do
    let offset ← take 8
    let line ← take 8
    let entry : StoredEntry := (UInt64.ofNat (Decode.ofLe offset), UInt64.ofNat (Decode.ofLe line))
    checkEntry entry sourceLen previous
    let (entries, bytes) ← readEntries sourceLen count (some entry)
    pure (entry :: entries, offset ++ line ++ bytes)

/-- A checksum of the trailer, compared with that of the bytes read. -/
def verifyChecksum (mismatch : String) (expected : Hash) : Read Unit := do
  let stored ← array16
  if expected ≠ stored then throw (.invalidIndex mismatch)

/-- `decode_reader`. -/
def decodeReader (hash : HashFunction) (fileLen : ℕ) : Read CsvIndex := do
  let headerBytes ← take fixedHeaderBytes
  let header ← match decodeHeader headerBytes with
    | .ok header _ => pure header
    | .error e _ => throw e
  let expected ← expectedLen header
  if expected ≠ fileLen then throw (.invalidIndex "location table length does not match")
  let (entries, bytes) ← readEntries header.sourceLen header.count.toNat none
  if header.version < 9 then
    verifyChecksum "index checksum does not match" (hash (headerBytes ++ bytes))
  else do
    verifyChecksum "index entries checksum does not match" (hash bytes)
    verifyChecksum "index header checksum does not match" (hash headerBytes)
  pure ⟨header.sourceLen, header.sourceHash, header.format, header.limits,
    entries.map (·.1), entries.map (·.2)⟩

/-- `load`. -/
def load (hash : HashFunction) (file : Bytes) : Except IndexError CsvIndex :=
  match decodeReader hash file.length file with
  | .ok ix _ => .ok ix
  | .error e _ => .error e

end CsvIndex

/-! ## The lazy reader -/

/-- `CsvIndexReader`, over the bytes of a file. -/
structure CsvIndexReader where
  index : Bytes
  version : ℕ
  sourceLen : UInt64
  sourceHash : Hash
  format : StoredFormat
  limits : Limits
  count : UInt64

namespace CsvIndexReader

/-- `CsvIndexReader::new`. -/
def new (index : Bytes) : Except IndexError CsvIndexReader :=
  match (do
    let headerBytes ← take fixedHeaderBytes
    let header ← match decodeHeader headerBytes with
      | .ok header _ => pure header
      | .error e _ => throw e
    let expected ← expectedLen header
    if expected ≠ index.length then throw (.invalidIndex "location table length does not match")
    pure ⟨index, header.version, header.sourceLen, header.sourceHash, header.format,
      header.limits, header.count⟩ : Read CsvIndexReader) index with
  | .ok reader _ => .ok reader
  | .error e _ => .error e

/-- `CsvIndexReader::len`. -/
def len (r : CsvIndexReader) : ℕ := r.count.toNat

/-- `entry`: a position that is read and checked on its own. -/
def entry (r : CsvIndexReader) (record : ℕ) : Except IndexError (Option StoredEntry) :=
  if record ≥ r.len then .ok none
  else
    match (do
      let encoded ← take 16
      let entry : StoredEntry := (UInt64.ofNat (Decode.ofLe (encoded.take 8)),
        UInt64.ofNat (Decode.ofLe (encoded.drop 8)))
      checkEntryBounds entry r.sourceLen
      pure entry : Read StoredEntry) (r.index.drop (fixedHeaderBytes + record * 16)) with
    | .ok entry _ => .ok (some entry)
    | .error e _ => .error e

/-- `location`. -/
def location (r : CsvIndexReader) (record : ℕ) : Except IndexError Boundary :=
  match r.entry record with
  | .error e => .error e
  | .ok none => .error (.recordOutOfRange record)
  | .ok (some entry) => entryLocation entry r.sourceLen record

end CsvIndexReader

/-! ## What is built -/

/-- A format with the tails that `Tail::of` stores. -/
def FormatSettings.stored (o : FormatSettings) (h : o.Valid) : StoredFormat where
  settings := o
  delimiterTail := tailParts o.dialect.delimiterTail
  endingTail := tailParts o.dialect.endingTail
  delimiter_stored := (tailParts_toTail h.sound.usable.1).symm
  ending_stored := (tailParts_toTail h.sound.usable.2).symm

/-- `from_positions`: the index of a source, from its positions. -/
def CsvIndex.ofPositions (hash : HashFunction) (o : IndexOptions) (source : Bytes)
    (ps : List CsvIndex.Position) : CsvIndex where
  sourceLen := UInt64.ofNat source.length
  sourceHash := hash source
  format := o.format.toFormatSettings.stored o.valid
  limits := o.limits
  offsets := ps.map fun p => UInt64.ofNat p.offset
  lines := ps.map fun p => UInt64.ofNat p.line

end Coseva
