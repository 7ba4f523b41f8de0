/-
  Coseva — the configuration data (`coseva/src/config`): what a CSV format is
  made of, and which formats construction refuses.

  * `Dialect`: the structural bytes of a format, with `Dialect.invalidity`, the
    reason a dialect is ambiguous;
  * `FormatOptions`: a complete format.  Its `tag` names the built-in it was
    built from and carries the proof that it is never optimistic (`tag_sound`),
    so that a retargeted built-in cannot keep its name;
  * `FormatOptions.invalidity`: the reason a format is unusable.

  Every text is the one the source reports.
-/
import Mathlib.Data.List.Basic
import Mathlib.Tactic.Common

namespace Coseva

/-- The bytes of a buffer, a field or a document. -/
abbrev Bytes := List UInt8

/-! ## Separators -/

/-- How records are terminated. -/
inductive RecordEnding where
  /-- a line feed, optionally preceded by a carriage return -/
  | newline
  /-- a carriage return followed by a line feed -/
  | crLf
  /-- a specific byte -/
  | ofByte (byte : UInt8)
  deriving DecidableEq, Repr

/-- `RecordEnding::byte`: the byte the scanners look for. -/
def RecordEnding.byte : RecordEnding → UInt8
  | .newline | .crLf => 10
  | .ofByte byte => byte

/-- `Tail::MAX`: the longest tail. -/
def Tail.max : ℕ := 3

/-- The bytes following a separator's lead byte.  `unusable` marks a separator
    that was empty or longer than `Tail.max + 1`. -/
structure Tail where
  bytes : Bytes
  unusable : Bool
  bytes_le : bytes.length ≤ Tail.max
  deriving DecidableEq, Repr

namespace Tail

/-- `Tail::EMPTY`: the tail of a single-byte separator. -/
def empty : Tail := ⟨[], false, by decide⟩

/-- `Tail::of`: the tail of a separator's bytes. -/
def of (separator : Bytes) : Tail :=
  if h : separator = [] ∨ separator.length > max + 1 then ⟨[], true, by decide⟩
  else ⟨separator.tail, false, by
    rw [not_or] at h; rw [List.length_tail]; unfold max at *; omega⟩

/-- `Tail::is_empty`: the stored length is zero. -/
def isEmpty (t : Tail) : Bool := !t.unusable && t.bytes.isEmpty

/-- `Tail::width`: the separator's width with its lead byte (the sentinel
    length is 255). -/
def width (t : Tail) : ℕ := if t.unusable then 256 else t.bytes.length + 1

/-- `Tail::as_slice`. -/
def asSlice (t : Tail) : Bytes := if t.unusable then [] else t.bytes

/-- `Tail::confirms`: whether `afterLead` begins with this tail. -/
def confirms (t : Tail) (afterLead : Bytes) : Bool := t.asSlice.isPrefixOf afterLead

end Tail

/-- How quotes inside quoted fields are escaped. -/
inductive Escape where
  /-- write a quote twice -/
  | doubleQuote
  /-- prefix quotes and the escape byte with this byte -/
  | backslash (byte : UInt8)
  /-- `MySQL` text-export backslash escapes in unquoted fields -/
  | mysql
  /-- prefix this byte before a structural byte in an unquoted field -/
  | unquoted (byte : UInt8)
  deriving DecidableEq, Repr

namespace Escape

/-- `Escape::unquoted_byte`: the byte that escapes inside an unquoted field. -/
def unquotedByte : Escape → Option UInt8
  | .doubleQuote | .backslash _ => none
  | .mysql => some 92
  | .unquoted escape => some escape

/-- `Escape::escapes_unquoted`. -/
def escapesUnquoted (e : Escape) : Bool := e.unquotedByte.isSome

end Escape

/-! ## Dialects -/

/-- CSV syntax shared by parsers and emitters. -/
structure Dialect where
  delimiter : UInt8
  quote : UInt8
  recordEnding : RecordEnding
  escape : Escape
  comment : Option UInt8
  /-- what must follow `delimiter` for it to delimit -/
  delimiterTail : Tail
  /-- what must follow the record ending's byte -/
  endingTail : Tail
  deriving DecidableEq, Repr

namespace Dialect

/-- `Dialect::multibyte`: whether either separator is longer than one byte. -/
def multibyte (d : Dialect) : Bool := !d.delimiterTail.isEmpty || !d.endingTail.isEmpty

/-- `Dialect::CSV`. -/
def csv : Dialect where
  delimiter := 44
  quote := 34
  recordEnding := .newline
  escape := .doubleQuote
  comment := none
  delimiterTail := .empty
  endingTail := .empty

def tsv : Dialect := { csv with delimiter := 9 }
def semicolon : Dialect := { csv with delimiter := 59 }
def pipe : Dialect := { csv with delimiter := 124 }
def backslashCsv : Dialect := { csv with escape := .backslash 92 }
def backslashTsv : Dialect := { csv with delimiter := 9, escape := .backslash 92 }
def commentedCsv : Dialect := { csv with comment := some 35 }
def rfc4180 : Dialect := { csv with recordEnding := .crLf }
def excel : Dialect := rfc4180
def postgresCopyCsv : Dialect := csv
def mysql : Dialect := { csv with delimiter := 9, escape := .mysql }
def pythonEscaped : Dialect := { csv with escape := .unquoted 92 }

/-- The byte a separator's tail must not contain besides the quote. -/
def escapeByte (d : Dialect) : UInt8 :=
  match d.escape with
  | .doubleQuote => d.quote
  | .backslash byte | .unquoted byte => byte
  | .mysql => 92

/-- `Dialect::multibyte_invalidity`: the reason the multi-byte part is
    unusable. -/
def multibyteInvalidity (d : Dialect) : Option String :=
  if !d.multibyte then none
  else if d.delimiterTail.unusable || d.endingTail.unusable then
    some "a delimiter or record ending sequence must be 1 to 4 bytes"
  else if !d.endingTail.isEmpty && (d.recordEnding == .newline || d.recordEnding == .crLf) then
    some "a multi-byte record ending must be spelled as a byte sequence"
  else if (d.delimiterTail.asSlice ++ d.endingTail.asSlice).any
      fun b => b == d.quote || b == d.escapeByte then
    some "a delimiter or record ending sequence must not contain the quote or escape byte"
  else none

/-- `Dialect::invalidity`: the reason this dialect is unusable. -/
def invalidity (d : Dialect) : Option String :=
  let ending := d.recordEnding.byte
  let strictCrlf := d.recordEnding == .crLf
  if d.delimiter == d.quote then some "delimiter and quote must be distinct"
  else if ending == d.delimiter || ending == d.quote
      || (strictCrlf && (d.delimiter == 13 || d.quote == 13)) then
    some "record_ending must differ from delimiter and quote"
  else
    let structural (b : UInt8) := b == d.delimiter || b == d.quote || b == ending
    let escapeClash : Option String :=
      match d.escape with
      | .backslash escape =>
        if structural escape then some "escape must differ from structural bytes" else none
      | .mysql =>
        if structural 92 then some "MySQL escape byte must differ from structural bytes" else none
      | .unquoted escape =>
        if structural escape then some "escape must differ from structural bytes" else none
      | .doubleQuote => none
    match escapeClash with
    | some reason => some reason
    | none =>
      match d.comment with
      | some comment =>
        if structural comment || d.escape.unquotedByte == some comment
            || (strictCrlf && comment == 13) then
          some "comment must differ from structural bytes"
        else d.multibyteInvalidity
      | none => d.multibyteInvalidity

end Dialect

/-! ## Formats -/

/-- `Recovery`: the recovery switches for non-strict input. -/
structure Recovery where
  quoting : Bool
  unquotedQuotes : Bool
  anyBackslashEscape : Bool
  trailingWhitespaceAfterQuote : Bool
  deriving DecidableEq, Repr

/-- `Recovery::NONE`. -/
def Recovery.none : Recovery := ⟨false, false, false, false⟩

/-- Strict parsing, or explicitly selected relaxations. -/
inductive Syntax where
  | strict
  | compatible (rules : Recovery)
  deriving DecidableEq, Repr

namespace Syntax

def quotingEnabled : Syntax → Bool
  | .strict => true
  | .compatible rules => rules.quoting

def permitsUnquotedQuotes : Syntax → Bool
  | .strict => false
  | .compatible rules => rules.unquotedQuotes

def permitsAnyBackslashEscape : Syntax → Bool
  | .strict => false
  | .compatible rules => rules.anyBackslashEscape

def permitsTrailingWhitespace : Syntax → Bool
  | .strict => false
  | .compatible rules => rules.trailingWhitespaceAfterQuote

end Syntax

/-- ASCII-whitespace trimming policy. -/
structure Whitespace where
  fields : Bool
  headers : Bool
  quoted : Bool
  deriving DecidableEq, Repr

namespace Whitespace

def none : Whitespace := ⟨false, false, true⟩
def all : Whitespace := ⟨true, true, true⟩

/-- `Whitespace::applies`: whether a field of this scope is trimmed. -/
def applies (w : Whitespace) (header quoted : Bool) : Bool :=
  (if header then w.headers else w.fields) && (w.quoted || !quoted)

/-- `Whitespace::exempts_quoted`. -/
def exemptsQuoted (w : Whitespace) : Bool := !w.quoted && (w.fields || w.headers)

/-- `Whitespace::applies_to_scope`. -/
def appliesToScope (w : Whitespace) (header : Bool) : Bool :=
  if header then w.headers else w.fields

end Whitespace

/-- How an explicit database NULL is represented. -/
inductive Nulls where
  | none
  /-- an unquoted empty field -/
  | postgresCsv
  /-- an unescaped `\N` field -/
  | mysql
  deriving DecidableEq, Repr

/-- When the emitter quotes a field. -/
inductive Quoting where
  | necessary
  | always
  | never
  | nonNumeric
  | raw
  deriving DecidableEq, Repr

/-- How a leading byte-order mark is handled on reading. -/
inductive ReadBom where
  | detect
  | preserve
  | reject
  deriving DecidableEq, Repr

/-- Whether an emitter emits a byte-order mark. -/
inductive WriteBom where
  | omit
  | emit
  deriving DecidableEq, Repr

/-- How physical blank lines are handled. -/
inductive BlankRecords where
  | preserve
  | skip
  deriving DecidableEq, Repr

/-- Which built-in format a value was built from. -/
inductive FormatTag where
  | csv | tsv | semicolon | pipe | backslashCsv | backslashTsv | commentedCsv | trimmedCsv
  | pythonCsv | pythonEscaped | rfc4180 | excel | postgresCopyCsv | mysql
  /-- assembled by a caller, or a built-in modified since -/
  | custom
  deriving DecidableEq, Repr

/-- The settings that identify a format. -/
structure FormatSettings where
  dialect : Dialect
  trim : Whitespace := .none
  blankRecords : BlankRecords := .preserve
  readBom : ReadBom := .detect
  writeBom : WriteBom := .omit
  syntax' : Syntax := .strict
  nulls : Nulls := .none
  quoting : Quoting := .necessary
  skipInitialSpace : Bool := false
  deriving DecidableEq, Repr

/-- The settings of the built-in formats. -/
def FormatTag.settings : FormatTag → Option FormatSettings
  | .csv => some { dialect := .csv }
  | .tsv => some { dialect := .tsv }
  | .semicolon => some { dialect := .semicolon }
  | .pipe => some { dialect := .pipe }
  | .backslashCsv => some { dialect := .backslashCsv }
  | .backslashTsv => some { dialect := .backslashTsv }
  | .commentedCsv => some { dialect := .commentedCsv, blankRecords := .skip }
  | .trimmedCsv => some { dialect := .csv, trim := .all }
  | .pythonCsv => some { dialect := .csv, skipInitialSpace := true }
  | .pythonEscaped => some { dialect := .pythonEscaped, quoting := .never }
  | .rfc4180 => some { dialect := .rfc4180, readBom := .reject }
  | .excel => some { dialect := .excel, writeBom := .emit }
  | .postgresCopyCsv => some { dialect := .postgresCopyCsv, nulls := .postgresCsv }
  | .mysql => some { dialect := .mysql, syntax' := .compatible .none, nulls := .mysql,
                     quoting := .never }
  | .custom => Option.none

/-- `FormatOptions`: a complete description of one format.  Every setter of
    the source drops the tag to `custom`, so a tag other than that names the
    settings. -/
structure FormatOptions extends FormatSettings where
  tag : FormatTag := .custom
  tag_sound : ∀ s, tag.settings = some s → toFormatSettings = s := by simp [FormatTag.settings]

namespace FormatOptions

/-- A format assembled by a caller. -/
def custom (s : FormatSettings) : FormatOptions := { s with }

/-- A built-in format. -/
def builtIn (tag : FormatTag) (s : FormatSettings) (h : tag.settings = some s) : FormatOptions :=
  { s with tag, tag_sound := fun t ht => by rw [h] at ht; exact Option.some.inj ht }

/-- `FormatOptions::CSV`. -/
def csv : FormatOptions := builtIn .csv { dialect := .csv } rfl

end FormatOptions

namespace FormatSettings

/-- `FormatOptions::invalidity`: the reason this format is unusable. -/
def invalidity (o : FormatSettings) : Option String :=
  match o.dialect.invalidity with
  | some reason => some reason
  | none =>
    if o.dialect.escape.escapesUnquoted && !(o.quoting == .never) then
      some "unquoted escaping requires Quoting::Never"
    else if !o.syntax'.quotingEnabled
        && (o.quoting == .necessary || o.quoting == .always || o.quoting == .nonNumeric) then
      some "quote-producing output requires parser quote syntax"
    else
      match o.nulls with
      | .postgresCsv =>
        if o.dialect.escape.escapesUnquoted || !o.syntax'.quotingEnabled
            || o.quoting == .never || o.quoting == .raw then
          some "PostgreSQL CSV NULLs require protective quoting"
        else none
      | .mysql =>
        if o.quoting == .raw
            || (o.quoting == .never && !o.dialect.escape.escapesUnquoted) then
          some "MySQL NULLs require quoting or unquoted escaping"
        else none
      | .none => none

/-- The formats construction accepts. -/
def Valid (o : FormatSettings) : Prop := o.invalidity = none

instance (o : FormatSettings) : Decidable o.Valid := inferInstanceAs (Decidable (_ = _))

end FormatSettings

/-! ## Limits and field counts -/

/-- How the field count of a record is validated. -/
inductive FieldCount where
  | flexible
  /-- every record must match the first -/
  | matchFirst
  | exact (required : ℕ)
  deriving DecidableEq, Repr

/-- Resource limits enforced while scanning a record. -/
structure Limits where
  maxRecordBytes : ℕ
  maxFieldBytes : ℕ
  maxFields : ℕ
  deriving DecidableEq, Repr

/-- `Limits::DEFAULT`. -/
def Limits.default : Limits := ⟨16 * 1024 * 1024, 4 * 1024 * 1024, 16 * 1024⟩

/-- The UTF-8 byte-order mark. -/
def bom : Bytes := [0xEF, 0xBB, 0xBF]

end Coseva
