/-
  Coseva — when a field needs quotes (`needs_quotes`, `needs_csv_quotes` and
  `is_numeric` of `coseva/src/emit.rs`).

  Short fields are read eight bytes at a time, wide ones by blocks; the default
  CSV dialect has a scan of its own.

  * `needsQuotes_eq`: all of them decide whether the field leads a record as a
    byte-order mark or a comment, or has a structural byte;
  * `needsCsvQuotes_eq`: the scan of the default dialect is the general one;
  * `isNumeric`: the spellings that `Quoting::NonNumeric` leaves bare.
-/
import Coseva.Config
import Coseva.Lib.Words

namespace Coseva

/-! ## Searches -/

/-- `find1`, …, `find4`: the index of the first byte among the needles. -/
def find1 (a : UInt8) (haystack : Bytes) : Option ℕ := haystack.findIdx? (· == a)

def find2 (a b : UInt8) (haystack : Bytes) : Option ℕ := haystack.findIdx? fun x => x == a || x == b

def find3 (a b c : UInt8) (haystack : Bytes) : Option ℕ :=
  haystack.findIdx? fun x => x == a || x == b || x == c

def find4 (a b c d : UInt8) (haystack : Bytes) : Option ℕ :=
  haystack.findIdx? fun x => x == a || x == b || x == c || x == d

/-! ## When a field needs quotes -/

/-- `BYTE_ONES`. -/
def byteOnes : ℕ := Words.ones 8

/-- `repeated_byte`. -/
def repeatedByte (byte : UInt8) : ℕ := byteOnes * byte.toNat

/-- `zero_byte_mask`. -/
def zeroByteMask (word : ℕ) : ℕ := Words.zeroMask 8 word

/-- `SIMD_QUOTING_SCAN_BYTES`. -/
def simdQuotingScanBytes : ℕ := 32

/-- The word of `chunk` has a byte of `structural`. -/
def wordMatches (structural : List UInt8) (chunk : Bytes) : Bool :=
  structural.foldl (fun found b =>
    found ||| zeroByteMask (Words.ofBytes chunk ^^^ repeatedByte b)) 0 != 0

/-- The words of the whole chunks have a byte of `structural`, or the
    remainder has. -/
def wordsContain (structural : List UInt8) (field : Bytes) : Bool :=
  (Words.chunks 8 field).1.any (wordMatches structural)
    || (Words.chunks 8 field).2.any structural.contains

/-- `needs_quotes_blocks`. -/
def needsQuotesBlocks (delimiter quote recordEnding : UInt8) (newline : Bool) (field : Bytes) :
    Bool :=
  (if newline then find4 delimiter quote recordEnding 13 field
   else find3 delimiter quote recordEnding field).isSome

/-- `needs_quotes_words`. -/
def needsQuotesWords (delimiter quote recordEnding : UInt8) (newline : Bool) (field : Bytes) :
    Bool :=
  wordsContain (if newline then [delimiter, quote, recordEnding, 13]
    else [delimiter, quote, recordEnding]) field

/-- The record ending is a line break, so that a carriage return before it is
    part of it. -/
def Dialect.newline (d : Dialect) : Bool :=
  d.recordEnding == .newline || d.recordEnding == .crLf

/-- A first field that would read as a byte-order mark or a comment. -/
def Dialect.leads (d : Dialect) (field : Bytes) : Bool :=
  bom.isPrefixOf field || d.comment.any fun comment => field.head? == some comment

/-- `needs_quotes`. -/
def needsQuotes (d : Dialect) (field : Bytes) (isFirst : Bool) : Bool :=
  if isFirst && d.leads field then true
  else if field.length ≥ simdQuotingScanBytes then
    needsQuotesBlocks d.delimiter d.quote d.recordEnding.byte d.newline field
  else needsQuotesWords d.delimiter d.quote d.recordEnding.byte d.newline field

/-- `needs_csv_quotes`. -/
def needsCsvQuotes (field : Bytes) (isFirst : Bool) : Bool :=
  if isFirst && bom.isPrefixOf field then true
  else if field.length ≥ simdQuotingScanBytes then wordsContain [44, 34, 10, 13] field
  else field.any fun byte => [44, 34, 10, 13].contains byte

/-! ### What the scans decide -/

theorem wordMatches_eq (structural : List UInt8) {chunk : Bytes} (hc : chunk.length = 8) :
    wordMatches structural chunk = chunk.any structural.contains := by
  have hfold : ∀ (bs : List UInt8) (acc : ℕ),
      (bs.foldl (fun found b =>
        found ||| zeroByteMask (Words.ofBytes chunk ^^^ repeatedByte b)) acc ≠ 0 ↔
      acc ≠ 0 ∨ chunk.any bs.contains) := by
    intro bs
    induction bs with
    | nil => simp
    | cons b bs ih =>
      intro acc
      have hmask := Words.zeroMask_xor_ne_zero chunk b
      rw [hc] at hmask
      rw [List.foldl_cons, ih]
      simp only [ne_eq, Nat.or_eq_zero_iff, not_and_or, zeroByteMask, repeatedByte, byteOnes]
      rw [← ne_eq (Words.zeroMask _ _), hmask, or_assoc]
      refine or_congr Iff.rfl ?_
      simp only [List.any_eq_true, List.contains_eq_mem, decide_eq_true_eq, List.mem_cons]
      constructor
      · rintro (hb | ⟨x, hx, hxb⟩)
        · exact ⟨b, hb, Or.inl rfl⟩
        · exact ⟨x, hx, Or.inr hxb⟩
      · rintro ⟨x, hx, rfl | hxb⟩
        · exact Or.inl hx
        · exact Or.inr ⟨x, hx, hxb⟩
  have h := hfold structural 0
  simp only [ne_eq, not_true_eq_false, false_or] at h
  rw [Bool.eq_iff_iff, wordMatches, bne_iff_ne]; exact h

theorem wordsContain_eq (structural : List UInt8) (field : Bytes) :
    wordsContain structural field = field.any structural.contains := by
  rw [← Words.any_chunks (n := 8), wordsContain]
  congr 1
  rw [Bool.eq_iff_iff, List.any_eq_true, List.any_eq_true]
  refine exists_congr fun chunk => and_congr_right fun hc => ?_
  rw [wordMatches_eq structural (Words.length_of_mem_chunks hc)]

/-- The bytes that force quoting wherever they occur in a field. -/
def Dialect.structural (d : Dialect) : List UInt8 :=
  if d.newline then [d.delimiter, d.quote, d.recordEnding.byte, 13]
  else [d.delimiter, d.quote, d.recordEnding.byte]

theorem Dialect.mem_structural (d : Dialect) {b : UInt8} :
    b ∈ d.structural ↔ b = d.delimiter ∨ b = d.quote ∨ b = d.recordEnding.byte ∨
      (d.recordEnding = .newline ∨ d.recordEnding = .crLf) ∧ b = 13 := by
  have hnewline : d.newline = true ↔ d.recordEnding = .newline ∨ d.recordEnding = .crLf := by
    simp [newline]
  rw [← hnewline, structural]
  cases d.newline <;> simp

theorem needsQuotesBlocks_eq (d : Dialect) (field : Bytes) :
    needsQuotesBlocks d.delimiter d.quote d.recordEnding.byte d.newline field =
      field.any d.structural.contains := by
  rw [needsQuotesBlocks, Dialect.structural]
  cases d.newline <;>
    simp only [Bool.false_eq_true, if_false, if_true, find3, find4, List.findIdx?_isSome] <;>
    congr 1 <;> funext x <;> simp only [List.contains_cons, List.contains_nil, Bool.or_false,
      Bool.or_assoc]

theorem needsQuotesWords_eq (d : Dialect) (field : Bytes) :
    needsQuotesWords d.delimiter d.quote d.recordEnding.byte d.newline field =
      field.any d.structural.contains := by
  rw [needsQuotesWords, Dialect.structural, wordsContain_eq]

/-- **The scans agree**: a field needs quotes iff it leads a record as a mark
    or comment, or contains a structural byte. -/
theorem needsQuotes_eq (d : Dialect) (field : Bytes) (isFirst : Bool) :
    needsQuotes d field isFirst =
      ((isFirst && d.leads field) || field.any d.structural.contains) := by
  rw [needsQuotes, needsQuotesBlocks_eq, needsQuotesWords_eq, ite_self]
  cases isFirst && d.leads field <;> rfl

theorem needsCsvQuotes_eq (field : Bytes) (isFirst : Bool) :
    needsCsvQuotes field isFirst = needsQuotes .csv field isFirst := by
  rw [needsQuotes_eq, needsCsvQuotes, wordsContain_eq, ite_self]
  have hs : Dialect.csv.structural = [44, 34, 10, 13] := by decide
  have hl : Dialect.csv.leads field = bom.isPrefixOf field := by
    simp [Dialect.leads, Dialect.csv]
  rw [hs, hl]
  cases isFirst && bom.isPrefixOf field <;> simp

/-- **The quoting decision**: whichever scan the length of the field selects, a
    field needs quotes iff one of its bytes is structural or it leads a record as
    a mark or comment; the two scans agree on every field, and so does the scan of
    the default dialect. -/
theorem quoting_decision (d : Dialect) (field : Bytes) (isFirst : Bool) :
    (needsQuotes d field isFirst = true ↔
      (∃ b ∈ field, b = d.delimiter ∨ b = d.quote ∨ b = d.recordEnding.byte ∨
        (d.recordEnding = .newline ∨ d.recordEnding = .crLf) ∧ b = 13) ∨
      isFirst = true ∧ (bom <+: field ∨ ∃ c, d.comment = some c ∧ field.head? = some c)) ∧
    needsQuotesWords d.delimiter d.quote d.recordEnding.byte d.newline field =
      needsQuotesBlocks d.delimiter d.quote d.recordEnding.byte d.newline field ∧
    needsCsvQuotes field isFirst = needsQuotes .csv field isFirst := by
  refine ⟨?_, ?_, needsCsvQuotes_eq field isFirst⟩
  · rw [needsQuotes_eq, Bool.or_eq_true, Or.comm, Bool.and_eq_true]
    refine or_congr ?_ (and_congr_right fun _ => ?_)
    · simp only [List.any_eq_true, List.contains_eq_mem, decide_eq_true_eq, d.mem_structural]
    · rw [Dialect.leads, Bool.or_eq_true, List.isPrefixOf_iff_prefix]
      refine or_congr Iff.rfl ?_
      simp only [Option.any_eq_true, beq_iff_eq]
  · rw [needsQuotesWords_eq, needsQuotesBlocks_eq]

/-! ## Numeric spellings -/

/-- `NumericScan`. -/
inductive NumericScan where
  | numeric
  | notNumeric
  | fallback
  deriving DecidableEq

def isDigit (b : UInt8) : Bool := 48 ≤ b && b ≤ 57

/-- The loop of `scan_numeric` over the body of the field. -/
def scanNumericBody : Bytes → (seenDigit seenDot : Bool) → NumericScan
  | [], seenDigit, _ => if seenDigit then .numeric else .notNumeric
  | b :: bs, seenDigit, seenDot =>
    if isDigit b then scanNumericBody bs true seenDot
    else if b == 46 && !seenDot then scanNumericBody bs seenDigit true
    else if [46, 101, 69, 105, 73, 110, 78, 102, 70, 97, 65, 121, 89].contains b then .fallback
    else .notNumeric

/-- `scan_numeric`. -/
def scanNumeric (field : Bytes) : NumericScan :=
  match field with
  | b :: rest => if b == 43 || b == 45 then scanNumericBody rest false false
    else scanNumericBody field false false
  | [] => scanNumericBody [] false false

/-- The text without a leading sign. -/
def dropSign : Bytes → Bytes
  | b :: rest => if b == 43 || b == 45 then rest else b :: rest
  | [] => []

def toLower (b : UInt8) : UInt8 := if 65 ≤ b && b ≤ 90 then b + 32 else b

/-- An exponent, or nothing: `[eE] sign? digit+`. -/
def isExponent : Bytes → Bool
  | [] => true
  | b :: rest =>
    let digits := dropSign rest
    toLower b == 101 && !digits.isEmpty && digits.all isDigit

/-- `f64::from_str` accepts the text: `inf`, `infinity` and `nan` in either
    case, or digits around at most one point with an optional exponent. -/
def parsesF64 (field : Bytes) : Bool :=
  let body := dropSign field
  let lower := body.map toLower
  if lower == [105, 110, 102] || lower == [105, 110, 102, 105, 110, 105, 116, 121]
      || lower == [110, 97, 110] then true
  else
    let whole := body.takeWhile isDigit
    let rest := body.dropWhile isDigit
    match rest with
    | 46 :: rest =>
      let fraction := rest.takeWhile isDigit
      !(whole.isEmpty && fraction.isEmpty) && isExponent (rest.dropWhile isDigit)
    | rest => !whole.isEmpty && isExponent rest

/-- `is_numeric`. -/
def isNumeric (field : Bytes) : Bool :=
  match scanNumeric field with
  | .numeric => true
  | .notNumeric => false
  | .fallback => parsesF64 field

end Coseva
