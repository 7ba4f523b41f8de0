/-
  Coseva — spans as they are stored (`coseva_unsafe/src/span.rs`).

  A span is two words.  Their high bits hold the buffer it points into, whether
  the field was quoted and whether it is NULL; a word has two bits more than the
  largest offset needs.

  * `PackedSpan`: the two words, and `PackedSpan.unpack`, what they stand for;
  * `PackedStorage`: `SpanStorage` with packed spans and unchecked reads;
  * `PackedStorage.Wf`: every span is ordered and inside its buffer;
  * `NamedFields`: the fields by the bytes their pushes named;
  * `PackedStorage.run_sound`: **no operation leaves the invariant**, so that no
    read is out of range, and every read returns the bytes that were named.
-/
import Coseva.Buffer
import Coseva.Grammar

namespace Coseva

/-! ## One span -/

/-- `Span`, in words of `n + 2` bits. -/
structure PackedSpan (n : ℕ) where
  start : BitVec (n + 2)
  stop : BitVec (n + 2)
  deriving DecidableEq, Repr

namespace PackedSpan

variable {n : ℕ}

/-- `Span::FLAG`. -/
def flag (n : ℕ) : BitVec (n + 2) := 1#(n + 2) <<< (n + 1)

/-- `Span::NULL_FLAG`. -/
def nullFlag (n : ℕ) : BitVec (n + 2) := 1#(n + 2) <<< n

/-- `Span::MAX_OFFSET`. -/
def maxOffset (n : ℕ) : ℕ := 2 ^ n - 1

/-- `Span::bounded_offset`. -/
def boundedOffset (n offset : ℕ) : ℕ := if offset ≤ maxOffset n then offset else maxOffset n

/-- `Span::from_range_unchecked`. -/
def fromRangeUnchecked (source : Source) (start stop : ℕ) (quoted : Bool) : PackedSpan n where
  start :=
    match source with
    | .input => .ofNat (n + 2) start
    | .scratch => .ofNat (n + 2) start ||| flag n
  stop := if quoted then .ofNat (n + 2) stop ||| flag n else .ofNat (n + 2) stop

/-- `Span::from_valid_null` of an offset that can be packed. -/
def fromValidNull (source : Source) (offset : ℕ) : PackedSpan n where
  start :=
    (match source with
    | .input => .ofNat (n + 2) offset
    | .scratch => .ofNat (n + 2) offset ||| flag n) ||| nullFlag n
  stop := .ofNat (n + 2) offset

/-- `Span::source`. -/
def source (s : PackedSpan n) : Source := if s.start &&& flag n = 0 then .input else .scratch

/-- `Span::start`. -/
def startOffset (s : PackedSpan n) : ℕ := (s.start &&& ~~~(flag n ||| nullFlag n)).toNat

/-- `Span::end`. -/
def stopOffset (s : PackedSpan n) : ℕ := (s.stop &&& ~~~(flag n)).toNat

/-- `Span::is_quoted`. -/
def isQuoted (s : PackedSpan n) : Bool := s.stop &&& flag n != 0

/-- `Span::is_null`. -/
def isNull (s : PackedSpan n) : Bool := s.start &&& nullFlag n != 0

/-- What the words stand for. -/
def unpack (s : PackedSpan n) : Span := ⟨s.source, s.startOffset, s.stopOffset, s.isQuoted, s.isNull⟩

/-! ### The flags and the offsets do not collide -/

theorem getLsbD_flag (i : ℕ) : (flag n).getLsbD i = decide (i = n + 1) := by
  rw [flag, BitVec.getLsbD_shiftLeft, BitVec.getLsbD_one]
  by_cases h : i = n + 1
  · simp [h]
  · simp only [h, decide_false, Bool.and_eq_false_iff, decide_eq_false_iff_not, Bool.not_eq_false',
      decide_eq_true_eq]
    omega

theorem getLsbD_nullFlag (i : ℕ) : (nullFlag n).getLsbD i = decide (i = n) := by
  rw [nullFlag, BitVec.getLsbD_shiftLeft, BitVec.getLsbD_one]
  by_cases h : i = n
  · simp [h]
  · simp only [h, decide_false, Bool.and_eq_false_iff, decide_eq_false_iff_not, Bool.not_eq_false',
      decide_eq_true_eq]
    omega

theorem lt_of_le_maxOffset {offset : ℕ} (h : offset ≤ maxOffset n) : offset < 2 ^ n := by
  have := Nat.two_pow_pos n
  unfold maxOffset at h
  omega

theorem getLsbD_offset {offset : ℕ} (h : offset ≤ maxOffset n) {i : ℕ} (hi : n ≤ i) :
    (BitVec.ofNat (n + 2) offset).getLsbD i = false := by
  rw [BitVec.getLsbD_ofNat, Nat.testBit_lt_two_pow, Bool.and_false]
  exact Nat.lt_of_lt_of_le (lt_of_le_maxOffset h) (Nat.pow_le_pow_right (by decide) hi)

theorem toNat_offset {offset : ℕ} (h : offset ≤ maxOffset n) :
    (BitVec.ofNat (n + 2) offset).toNat = offset := by
  rw [BitVec.toNat_ofNat, Nat.mod_eq_of_lt]
  exact Nat.lt_of_lt_of_le (lt_of_le_maxOffset h) (Nat.pow_le_pow_right (by decide) (by omega))

/-- An offset with some of the two flags. -/
def tagged (offset : ℕ) (high null : Bool) : BitVec (n + 2) :=
  .ofNat (n + 2) offset ||| (if high then flag n else 0) ||| (if null then nullFlag n else 0)

theorem getLsbD_tagged {offset : ℕ} (h : offset ≤ maxOffset n) (high null : Bool) {i : ℕ}
    (hi : i < n + 2) : (tagged (n := n) offset high null).getLsbD i =
      if i < n then offset.testBit i else if i = n then null else high := by
  have hoffset : (BitVec.ofNat (n + 2) offset).getLsbD i = if i < n then offset.testBit i else false := by
    split_ifs with hlow
    · rw [BitVec.getLsbD_ofNat, decide_eq_true hi, Bool.true_and]
    · exact getLsbD_offset h (Nat.le_of_not_lt hlow)
  unfold tagged
  rw [BitVec.getLsbD_or, BitVec.getLsbD_or, hoffset]
  have hhigh : (if high then flag n else 0).getLsbD i = (high && decide (i = n + 1)) := by
    cases high
    · exact BitVec.getLsbD_zero
    · exact getLsbD_flag i
  have hnull : (if null then nullFlag n else 0).getLsbD i = (null && decide (i = n)) := by
    cases null
    · exact BitVec.getLsbD_zero
    · exact getLsbD_nullFlag i
  rw [hhigh, hnull]
  rcases Nat.lt_trichotomy i n with hlt | rfl | hgt
  · rw [if_pos hlt, if_pos hlt, decide_eq_false (show ¬ i = n + 1 by omega),
      decide_eq_false (Nat.ne_of_lt hlt)]
    simp
  · simp
  · obtain rfl : i = n + 1 := by omega
    simp

section tagged

variable {offset : ℕ} (h : offset ≤ maxOffset n) (high null : Bool)

include h

theorem tagged_flag : tagged (n := n) offset high null &&& flag n = if high then flag n else 0 := by
  refine BitVec.eq_of_getLsbD_eq fun i hi => ?_
  rw [BitVec.getLsbD_and, getLsbD_tagged h high null hi, getLsbD_flag]
  by_cases hlast : i = n + 1
  · subst hlast
    cases high <;> simp [getLsbD_flag]
  · cases high <;> simp [getLsbD_flag, hlast]

theorem tagged_nullFlag :
    tagged (n := n) offset high null &&& nullFlag n = if null then nullFlag n else 0 := by
  refine BitVec.eq_of_getLsbD_eq fun i hi => ?_
  rw [BitVec.getLsbD_and, getLsbD_tagged h high null hi, getLsbD_nullFlag]
  by_cases hlast : i = n
  · subst hlast
    cases null <;> simp [getLsbD_nullFlag]
  · cases null <;> simp [getLsbD_nullFlag, hlast]

theorem tagged_start : tagged (n := n) offset high null &&& ~~~(flag n ||| nullFlag n) =
    .ofNat (n + 2) offset := by
  refine BitVec.eq_of_getLsbD_eq fun i hi => ?_
  rw [BitVec.getLsbD_and, getLsbD_tagged h high null hi, BitVec.getLsbD_not, BitVec.getLsbD_or,
    getLsbD_flag, getLsbD_nullFlag, decide_eq_true hi]
  rcases Nat.lt_trichotomy i n with hlt | rfl | hgt
  · rw [if_pos hlt, decide_eq_false (show ¬ i = n + 1 by omega), decide_eq_false (Nat.ne_of_lt hlt),
      BitVec.getLsbD_ofNat, decide_eq_true hi]
    simp
  · rw [getLsbD_offset h (Nat.le_refl _)]
    simp
  · obtain rfl : i = n + 1 := by omega
    rw [getLsbD_offset h (Nat.le_succ n)]
    simp

theorem tagged_stop : tagged (n := n) offset high false &&& ~~~flag n = .ofNat (n + 2) offset := by
  refine BitVec.eq_of_getLsbD_eq fun i hi => ?_
  rw [BitVec.getLsbD_and, getLsbD_tagged h high false hi, BitVec.getLsbD_not, getLsbD_flag,
    decide_eq_true hi]
  rcases Nat.lt_trichotomy i n with hlt | rfl | hgt
  · rw [if_pos hlt, decide_eq_false (show ¬ i = n + 1 by omega), BitVec.getLsbD_ofNat,
      decide_eq_true hi]
    simp
  · rw [getLsbD_offset h (Nat.le_refl _)]
    simp
  · obtain rfl : i = n + 1 := by omega
    rw [getLsbD_offset h (Nat.le_succ n)]
    simp

end tagged

theorem flag_ne_zero : flag n ≠ 0#(n + 2) := by
  intro h
  have := getLsbD_flag (n := n) (n + 1)
  simp [h] at this

theorem nullFlag_ne_zero : nullFlag n ≠ 0#(n + 2) := by
  intro h
  have := getLsbD_nullFlag (n := n) n
  simp [h] at this

/-- Two words with their flags stand for the span they were made from. -/
theorem unpack_tagged {start stop : ℕ} (hstart : start ≤ maxOffset n) (hstop : stop ≤ maxOffset n)
    (high quoted null : Bool) :
    unpack (n := n) ⟨tagged start high null, tagged stop quoted false⟩ =
      ⟨if high then .scratch else .input, start, stop, quoted, null⟩ := by
  unfold unpack source startOffset stopOffset isQuoted isNull
  rw [tagged_flag hstart, tagged_flag hstop, tagged_nullFlag hstart, tagged_start hstart,
    tagged_stop hstop, toNat_offset hstart, toNat_offset hstop]
  cases high <;> cases quoted <;> cases null <;> simp [flag_ne_zero, nullFlag_ne_zero]

theorem fromRangeUnchecked_eq (source : Source) (start stop : ℕ) (quoted : Bool) :
    fromRangeUnchecked (n := n) source start stop quoted =
      ⟨tagged start (source == .scratch) false, tagged stop quoted false⟩ := by
  cases source <;> cases quoted <;> simp [fromRangeUnchecked, tagged]

theorem fromValidNull_eq (source : Source) (offset : ℕ) :
    fromValidNull (n := n) source offset =
      ⟨tagged offset (source == .scratch) true, tagged offset false false⟩ := by
  cases source <;> simp [fromValidNull, tagged]

end PackedSpan

namespace PackedSpan

variable {n : ℕ}

/-- `Span::trim_ascii`. -/
def trimAscii (s : PackedSpan n) (input scratch : Bytes) : Except BufferFault (PackedSpan n) :=
  if s.isNull then .ok s
  else do
    let bytes :=
      match s.source with
      | .input => input
      | .scratch => scratch
    let start ← trimFront bytes s.startOffset (s.stopOffset - s.startOffset)
    let stop ← trimBack bytes start (s.stopOffset - start)
    .ok ⟨.ofNat (n + 2) start ||| (s.start &&& flag n), .ofNat (n + 2) stop ||| (s.stop &&& flag n)⟩

/-- `SpanStorage::mark_input_nulls` of one span. -/
def markInputNull (s : PackedSpan n) (input : Bytes) (isNull : Bytes → Bool) :
    Except BufferFault (PackedSpan n) :=
  if !s.isQuoted && s.source == .input then
    if s.startOffset ≤ s.stopOffset ∧ s.stopOffset ≤ input.length then
      if isNull (slice input s.startOffset s.stopOffset) then
        if s.startOffset ≤ maxOffset n then .ok (fromValidNull .input s.startOffset)
        else .error .assertion
      else .ok s
    else .error .range
  else .ok s

/-- `resolve_span`. -/
def resolve (s : PackedSpan n) (input scratch : Bytes) : Except BufferFault Bytes :=
  getUnchecked
    (match s.source with
    | .input => input
    | .scratch => scratch)
    s.startOffset s.stopOffset

end PackedSpan

/-! ## The storage -/

/-- `SpanStorage`. -/
structure PackedStorage (n : ℕ) where
  spans : List (PackedSpan n)
  scratch : Bytes
  /-- `input_len`, one more than the length it stands for -/
  encodedLen : ℕ
  encodedLen_pos : 0 < encodedLen
  deriving DecidableEq

/-- A use of the storage by a parser. -/
inductive SpanOp
  | begin (input : Bytes) (maxOffset : ℕ)
  | clear
  | clearSpans
  | truncate (len : ℕ)
  | scratchExtend (bytes : Bytes)
  | tryPushInputBounded (start stop : ℕ) (quoted : Bool) (maxFields maxFieldBytes : ℕ)
  | tryPushScratchBounded (start stop : ℕ) (quoted : Bool) (maxFields maxFieldBytes : ℕ)
  | pushNull (offset : ℕ)
  | trimAsciiWhere (input : Bytes) (shouldTrim : Bool → Bool)
  | markInputNulls (input : Bytes) (isNull : Bytes → Bool)

namespace PackedStorage

variable {n : ℕ}

/-- `SpanStorage::with_capacity`. -/
def withCapacity (n : ℕ) : PackedStorage n := ⟨[], [], 1, by decide⟩

/-- `SpanStorage::input_len`. -/
def inputLen (s : PackedStorage n) : ℕ := s.encodedLen - 1

/-- `SpanStorage::begin`, and whether the input was accepted. -/
def begin (s : PackedStorage n) (input : Bytes) (maxOffset : ℕ) : Bool × PackedStorage n :=
  if input.length > PackedSpan.boundedOffset n maxOffset then (false, s)
  else (true, ⟨[], [], input.length + 1, Nat.succ_pos _⟩)

/-- `SpanStorage::clear`. -/
def clear (_ : PackedStorage n) : PackedStorage n := withCapacity n

/-- `SpanStorage::try_push_input_bounded`. -/
def tryPushInputBounded (s : PackedStorage n) (start stop : ℕ) (quoted : Bool)
    (maxFields maxFieldBytes : ℕ) : Bool × PackedStorage n :=
  if stop < start then (false, s)
  else if s.spans.length ≥ maxFields ∨ stop - start > maxFieldBytes ∨ stop > s.inputLen then (false, s)
  else (true, { s with spans := s.spans ++ [.fromRangeUnchecked .input start stop quoted] })

/-- `SpanStorage::try_push_scratch_bounded`. -/
def tryPushScratchBounded (s : PackedStorage n) (start stop : ℕ) (quoted : Bool)
    (maxFields maxFieldBytes : ℕ) : Bool × PackedStorage n :=
  if stop < start then (false, s)
  else if s.spans.length ≥ maxFields ∨ stop - start > maxFieldBytes ∨ stop > s.scratch.length ∨
      stop > s.inputLen then (false, s)
  else (true, { s with spans := s.spans ++ [.fromRangeUnchecked .scratch start stop quoted] })

/-- `SpanStorage::push_null`. -/
def pushNull (s : PackedStorage n) (offset : ℕ) : Except BufferFault (PackedStorage n) :=
  if offset ≤ s.inputLen ∧ offset ≤ PackedSpan.maxOffset n then
    .ok { s with spans := s.spans ++ [.fromValidNull .input offset] }
  else .error .assertion

/-- `SpanStorage::trim_ascii_where`. -/
def trimAsciiWhere (s : PackedStorage n) (input : Bytes) (shouldTrim : Bool → Bool) :
    Except BufferFault (PackedStorage n) :=
  if s.inputLen ≤ input.length then do
    let spans ← s.spans.mapM fun span =>
      if shouldTrim span.isQuoted then span.trimAscii input s.scratch else .ok span
    .ok { s with spans }
  else .error .assertion

/-- `SpanStorage::mark_input_nulls`. -/
def markInputNulls (s : PackedStorage n) (input : Bytes) (isNull : Bytes → Bool) :
    Except BufferFault (PackedStorage n) :=
  if s.inputLen ≤ input.length then do
    let spans ← s.spans.mapM fun span => span.markInputNull input isNull
    .ok { s with spans }
  else .error .assertion

/-- One operation.  A push that is refused leaves the storage as it is. -/
def step (s : PackedStorage n) : SpanOp → Except BufferFault (PackedStorage n)
  | .begin input maxOffset => .ok (s.begin input maxOffset).2
  | .clear => .ok s.clear
  | .clearSpans => .ok { s with spans := [] }
  | .truncate len => .ok { s with spans := s.spans.take len }
  | .scratchExtend bytes => .ok { s with scratch := s.scratch ++ bytes }
  | .tryPushInputBounded start stop quoted maxFields maxFieldBytes =>
    .ok (s.tryPushInputBounded start stop quoted maxFields maxFieldBytes).2
  | .tryPushScratchBounded start stop quoted maxFields maxFieldBytes =>
    .ok (s.tryPushScratchBounded start stop quoted maxFields maxFieldBytes).2
  | .pushNull offset => s.pushNull offset
  | .trimAsciiWhere input shouldTrim => s.trimAsciiWhere input shouldTrim
  | .markInputNulls input isNull => s.markInputNulls input isNull

/-- `SpanStorage::get`. -/
def get (s : PackedStorage n) (input : Bytes) (index : ℕ) : Except BufferFault (Option Bytes) :=
  match s.spans[index]? with
  | none => .ok none
  | some span =>
    if span.source = .scratch then some <$> span.resolve input s.scratch
    else if span.stopOffset > input.length then .ok none
    else some <$> getUnchecked input span.startOffset span.stopOffset

/-- `SpanStorage::resolved` and `ResolvedSpans::fields`: every field, with its null flag. -/
def resolved (s : PackedStorage n) (input : Bytes) : Except BufferFault (List Field) :=
  if s.inputLen ≤ input.length then
    s.spans.mapM fun span => (Field.mk · span.isNull) <$> span.resolve input s.scratch
  else .error .assertion

/-- A new storage after some operations. -/
def run (n : ℕ) (ops : List SpanOp) : Except BufferFault (PackedStorage n) :=
  ops.foldlM step (withCapacity n)

/-- The `assert!` of an operation. -/
def Asserted (s : PackedStorage n) : SpanOp → Prop
  | .pushNull offset => offset ≤ s.inputLen
  | .trimAsciiWhere input _ | .markInputNulls input _ => s.inputLen ≤ input.length
  | _ => True

end PackedStorage

/-! ## What the words stand for -/

/-- The storage by its spans. -/
structure Begun where
  /-- the length of the text it was begun with -/
  inputLen : ℕ
  storage : SpanStorage
  deriving DecidableEq, Repr

namespace Begun

variable (n : ℕ)

/-- An operation on the spans. -/
def step (s : Begun) : SpanOp → Begun
  | .begin input maxOffset =>
    if input.length > PackedSpan.boundedOffset n maxOffset then s else ⟨input.length, .empty⟩
  | .clear => ⟨0, .empty⟩
  | .clearSpans => { s with storage := s.storage.clearSpans }
  | .truncate len => { s with storage := { s.storage with spans := s.storage.spans.take len } }
  | .scratchExtend bytes => { s with storage := s.storage.extendScratch bytes }
  | .tryPushInputBounded start stop quoted maxFields maxFieldBytes =>
    if start ≤ stop ∧ stop ≤ s.inputLen then
      { s with storage :=
          (s.storage.tryPushBounded ⟨.input, start, stop, quoted, false⟩ maxFields
            maxFieldBytes).getD s.storage }
    else s
  | .tryPushScratchBounded start stop quoted maxFields maxFieldBytes =>
    if start ≤ stop ∧ stop ≤ s.inputLen ∧ stop ≤ s.storage.scratch.length then
      { s with storage :=
          (s.storage.tryPushBounded ⟨.scratch, start, stop, quoted, false⟩ maxFields
            maxFieldBytes).getD s.storage }
    else s
  | .pushNull offset => { s with storage := s.storage.pushNull offset }
  | .trimAsciiWhere input shouldTrim =>
    { s with storage := s.storage.trimAsciiWhere input shouldTrim }
  | .markInputNulls input isNull => { s with storage := s.storage.markInputNulls input isNull }

/-- A new storage after some operations. -/
def run (ops : List SpanOp) : Begun := ops.foldl (step n) ⟨0, .empty⟩

end Begun

/-! ## What the pushes named -/

/-- A stored field without the whitespace around it. -/
def Entry.trim (x : Entry) : Entry := if x.null then x else { x with bytes := trimmed x.bytes }

/-- `mark_input_nulls` of a stored field. -/
def Entry.markWhere (isNull : Bytes → Bool) (x : Entry) : Entry :=
  if !x.quoted && x.source == .input && isNull x.bytes then ⟨[], false, .input, true⟩ else x

/-- The fields by the bytes their pushes named, and what a push can name them from. -/
structure NamedFields where
  text : Bytes
  scratch : Bytes
  entries : List Entry
  deriving DecidableEq, Repr

namespace NamedFields

/-- One more field. -/
def push (f : NamedFields) (x : Entry) : NamedFields := { f with entries := f.entries ++ [x] }

/-- An operation on the bytes.  A later pass is over a text that continues the one the
    storage was begun with. -/
def step (n : ℕ) (f : NamedFields) : SpanOp → Option NamedFields
  | .begin input maxOffset =>
    some (if input.length > PackedSpan.boundedOffset n maxOffset then f else ⟨input, [], []⟩)
  | .clear => some ⟨[], [], []⟩
  | .clearSpans => some { f with entries := [] }
  | .truncate len => some { f with entries := f.entries.take len }
  | .scratchExtend bytes => some { f with scratch := f.scratch ++ bytes }
  | .tryPushInputBounded start stop quoted maxFields maxFieldBytes =>
    some (if start ≤ stop ∧ stop ≤ f.text.length ∧ f.entries.length < maxFields ∧
        stop - start ≤ maxFieldBytes then
      f.push ⟨slice f.text start stop, quoted, .input, false⟩ else f)
  | .tryPushScratchBounded start stop quoted maxFields maxFieldBytes =>
    some (if start ≤ stop ∧ stop ≤ f.text.length ∧ stop ≤ f.scratch.length ∧
        f.entries.length < maxFields ∧ stop - start ≤ maxFieldBytes then
      f.push ⟨slice f.scratch start stop, quoted, .scratch, false⟩ else f)
  | .pushNull _ => some (f.push ⟨[], false, .input, true⟩)
  | .trimAsciiWhere input shouldTrim =>
    if f.text <+: input then
      some { f with entries := f.entries.map fun x => if shouldTrim x.quoted then x.trim else x }
    else none
  | .markInputNulls input isNull =>
    if f.text <+: input then some { f with entries := f.entries.map (Entry.markWhere isNull) }
    else none

/-- The fields after some operations on a new storage. -/
def run (n : ℕ) (ops : List SpanOp) : Option NamedFields := ops.foldlM (step n) ⟨[], [], []⟩

end NamedFields

/-! ## The invariant -/

/-- The span is ordered, inside its buffer, and its words are its offsets and its flags. -/
structure PackedSpan.Fits {n : ℕ} (s : PackedSpan n) (inputLen scratchLen : ℕ) : Prop where
  startWord : s.start = tagged s.startOffset (s.source == .scratch) s.isNull
  stopWord : s.stop = tagged s.stopOffset s.isQuoted false
  ordered : s.startOffset ≤ s.stopOffset
  input : s.stopOffset ≤ inputLen
  scratch : s.source = .scratch → s.stopOffset ≤ scratchLen
  /-- a NULL field has no bytes -/
  null : s.isNull = true → s.startOffset = s.stopOffset

/-- Every span of the storage fits. -/
structure PackedStorage.Wf {n : ℕ} (s : PackedStorage n) : Prop where
  inputLen : s.inputLen ≤ PackedSpan.maxOffset n
  spans : ∀ span ∈ s.spans, span.Fits s.inputLen s.scratch.length

/-- What the storage stands for. -/
def PackedStorage.unpack {n : ℕ} (s : PackedStorage n) : SpanStorage :=
  ⟨s.spans.map PackedSpan.unpack, s.scratch⟩

namespace PackedSpan

variable {n : ℕ} {s : PackedSpan n} {inputLen scratchLen : ℕ}

theorem Fits.mono {inputLen' scratchLen' : ℕ} (h : s.Fits inputLen scratchLen)
    (hinput : inputLen ≤ inputLen') (hscratch : scratchLen ≤ scratchLen') :
    s.Fits inputLen' scratchLen' where
  startWord := h.startWord
  stopWord := h.stopWord
  ordered := h.ordered
  input := h.input.trans hinput
  scratch hsource := (h.scratch hsource).trans hscratch
  null := h.null

/-- The words of a span that fits, from what the span is. -/
theorem fits_tagged (v : Span) (inputLen scratchLen : ℕ) (hmax : inputLen ≤ maxOffset n) (hordered : v.start ≤ v.stop)
    (hinput : v.stop ≤ inputLen) (hscratch : v.source = .scratch → v.stop ≤ scratchLen)
    (hnull : v.null = true → v.start = v.stop) :
    unpack (n := n) ⟨tagged v.start (v.source == .scratch) v.null, tagged v.stop v.quoted false⟩ = v ∧
      Fits (n := n) ⟨tagged v.start (v.source == .scratch) v.null, tagged v.stop v.quoted false⟩
        inputLen scratchLen := by
  obtain ⟨source, start, stop, quoted, null⟩ := v
  have hunpack := unpack_tagged (hordered.trans (hinput.trans hmax)) (hinput.trans hmax)
    (source == .scratch) quoted null
  have hsource : (if source == .scratch then Source.scratch else .input) = source := by
    cases source <;> rfl
  rw [hsource] at hunpack
  refine ⟨hunpack, ?_⟩
  have h := Span.mk.inj hunpack
  constructor
  · simp only [h.1, h.2.1, h.2.2.2.2]
  · simp only [h.2.2.1, h.2.2.2.1]
  · simp only [h.2.1, h.2.2.1, hordered]
  · simp only [h.2.2.1, hinput]
  · simp only [h.1, h.2.2.1]
    exact hscratch
  · simp only [h.2.1, h.2.2.1, h.2.2.2.2]
    exact hnull

theorem Fits.offsets (h : s.Fits inputLen scratchLen) (hmax : inputLen ≤ maxOffset n) :
    s.startOffset ≤ maxOffset n ∧ s.stopOffset ≤ maxOffset n :=
  ⟨h.ordered.trans (h.input.trans hmax), h.input.trans hmax⟩

/-- The buffer of a span that fits goes at least to its end. -/
theorem Fits.stop_le {input scratch : Bytes} (h : s.Fits inputLen scratch.length)
    (hinput : inputLen ≤ input.length) : s.stopOffset ≤ (s.unpack.buffer input scratch).length := by
  rcases hsource : s.source with _ | _
  · simp only [Span.buffer, unpack, hsource]
    exact h.input.trans hinput
  · simp only [Span.buffer, unpack, hsource]
    exact h.scratch hsource

theorem resolve_eq {input scratch : Bytes} (h : s.Fits inputLen scratch.length)
    (hinput : inputLen ≤ input.length) : s.resolve input scratch = .ok (s.unpack.bytes input scratch) :=
  getUnchecked_ok h.ordered (h.stop_le hinput)

/-- Trimming reads inside the buffer and keeps the span inside it. -/
theorem Fits.trimAscii {input scratch : Bytes} (h : s.Fits inputLen scratch.length)
    (hmax : inputLen ≤ maxOffset n) (hinput : inputLen ≤ input.length) :
    ∃ s', s.trimAscii input scratch = .ok s' ∧ s'.Fits inputLen scratch.length ∧
      s'.unpack = s.unpack.trimAscii input scratch := by
  by_cases hnull : s.isNull = true
  · exact ⟨s, if_pos hnull, h, (if_pos hnull).symm⟩
  rw [Bool.not_eq_true] at hnull
  obtain ⟨hstartMax, hstopMax⟩ := h.offsets hmax
  obtain ⟨start', stop', hfront, hback, hle, hordered, hstop', -, hstartEq, hstopEq⟩ :=
    trim_ok h.ordered (h.stop_le hinput)
  have hwords : s.trimAscii input scratch =
      .ok ⟨tagged start' (s.source == .scratch) false, tagged stop' s.isQuoted false⟩ := by
    have hflag : s.start &&& flag n = if s.source == .scratch then flag n else 0 := by
      rw [h.startWord, tagged_flag hstartMax]
    have hquoted : s.stop &&& flag n = if s.isQuoted then flag n else 0 := by
      rw [h.stopWord, tagged_flag hstopMax]
    unfold PackedSpan.trimAscii
    rw [if_neg (by rw [hnull]; decide)]
    change (do
      let start ← trimFront (s.unpack.buffer input scratch) s.startOffset (s.stopOffset - s.startOffset)
      let stop ← trimBack (s.unpack.buffer input scratch) start (s.stopOffset - start)
      Except.ok (PackedSpan.mk (BitVec.ofNat (n + 2) start ||| (s.start &&& flag n))
        (BitVec.ofNat (n + 2) stop ||| (s.stop &&& flag n)))) = _
    rw [hfront]
    change (do
      let stop ← trimBack (s.unpack.buffer input scratch) start' (s.stopOffset - start')
      Except.ok (PackedSpan.mk (BitVec.ofNat (n + 2) start' ||| (s.start &&& flag n))
        (BitVec.ofNat (n + 2) stop ||| (s.stop &&& flag n)))) = _
    rw [hback, hflag, hquoted]
    simp [tagged, bind, Except.bind]
  obtain ⟨hunpack, hfits⟩ := fits_tagged (n := n) ⟨s.source, start', stop', s.isQuoted, false⟩ inputLen scratch.length hmax
    hordered (hstop'.trans h.input) (fun hsource => hstop'.trans (h.scratch hsource))
    (fun h => by cases h)
  refine ⟨_, hwords, hfits, hunpack.trans ?_⟩
  rw [Span.trimAscii, if_neg (by change ¬ s.isNull = true; rw [hnull]; decide), hstartEq, hstopEq,
    ← hnull]
  rfl

/-- The null pass reads inside the input and keeps the span inside it. -/
theorem Fits.markInputNull {input : Bytes} (h : s.Fits inputLen scratchLen)
    (hmax : inputLen ≤ maxOffset n) (hinput : inputLen ≤ input.length) (isNull : Bytes → Bool) :
    ∃ s', s.markInputNull input isNull = .ok s' ∧ s'.Fits inputLen scratchLen ∧
      s'.unpack = SpanStorage.markInputNull input isNull s.unpack := by
  obtain ⟨hstartMax, hstopMax⟩ := h.offsets hmax
  unfold PackedSpan.markInputNull SpanStorage.markInputNull
  by_cases hmarks : (!s.isQuoted && s.source == .input) = true
  · rw [if_pos hmarks, if_pos ⟨h.ordered, h.input.trans hinput⟩]
    by_cases hbytes : isNull (slice input s.startOffset s.stopOffset) = true
    · rw [if_pos hbytes, if_pos hstartMax]
      obtain ⟨hunpack, hfits⟩ := fits_tagged (n := n) ⟨.input, s.startOffset, s.startOffset, false, true⟩ inputLen scratchLen hmax (Nat.le_refl _)
        (h.ordered.trans h.input) (fun h => by cases h) (fun _ => rfl)
      refine ⟨_, rfl, ?_, ?_⟩
      · rw [fromValidNull_eq]
        exact hfits
      · rw [fromValidNull_eq]
        exact hunpack.trans (if_pos (by
          change (!s.isQuoted && s.source == .input &&
            isNull (slice input s.startOffset s.stopOffset)) = true
          rw [hmarks, hbytes]
          rfl)).symm
    · rw [if_neg hbytes]
      refine ⟨s, rfl, h, (if_neg ?_).symm⟩
      change ¬ (!s.isQuoted && s.source == .input &&
        isNull (slice input s.startOffset s.stopOffset)) = true
      rw [hmarks, Bool.true_and]
      exact hbytes
  · rw [if_neg hmarks]
    refine ⟨s, rfl, h, (if_neg ?_).symm⟩
    intro hall
    rw [Bool.and_eq_true] at hall
    exact hmarks hall.1

end PackedSpan

namespace PackedStorage

variable {n : ℕ} {s : PackedStorage n}

/-- The spans of the storage, and the length it was begun with. -/
def begun (s : PackedStorage n) : Begun := ⟨s.inputLen, s.unpack⟩

theorem wf_withCapacity : (withCapacity n).Wf where
  inputLen := Nat.zero_le _
  spans span h := by cases h

/-- A pass over the spans that succeeds on each. -/
theorem mapM_fits (spans : List (PackedSpan n)) (inputLen scratchLen : ℕ)
    {f : PackedSpan n → Except BufferFault (PackedSpan n)} {g : Span → Span}
    (h : ∀ span ∈ spans, ∃ span', f span = .ok span' ∧ span'.Fits inputLen scratchLen ∧
      span'.unpack = g span.unpack) :
    ∃ spans', spans.mapM f = .ok spans' ∧ (∀ span ∈ spans', span.Fits inputLen scratchLen) ∧
      spans'.map PackedSpan.unpack = (spans.map PackedSpan.unpack).map g := by
  induction spans with
  | nil => exact ⟨[], rfl, fun _ h => by (cases h), rfl⟩
  | cons span spans ih =>
    obtain ⟨span', hspan, hfits, hunpack⟩ := h span List.mem_cons_self
    obtain ⟨spans', hspans, hall, hmap⟩ := ih fun x hx => h x (List.mem_cons_of_mem _ hx)
    refine ⟨span' :: spans', ?_, ?_, ?_⟩
    · rw [List.mapM_cons, hspan, hspans]
      rfl
    · exact List.forall_mem_cons.mpr ⟨hfits, hall⟩
    · rw [List.map_cons, List.map_cons, List.map_cons, hunpack, hmap]

theorem Wf.push (h : s.Wf) {span : PackedSpan n} (hspan : span.Fits s.inputLen s.scratch.length) :
    Wf { s with spans := s.spans ++ [span] } where
  inputLen := h.inputLen
  spans x hx := by
    rcases List.mem_append.mp hx with hx | hx
    · exact h.spans x hx
    · rw [List.mem_singleton.mp hx]
      exact hspan

theorem begun_push (s : PackedStorage n) (span : PackedSpan n) :
    begun { s with spans := s.spans ++ [span] } =
      ⟨s.inputLen, s.unpack.push span.unpack⟩ := by
  simp [begun, unpack, SpanStorage.push, inputLen]

theorem boundedOffset_le (n offset : ℕ) : PackedSpan.boundedOffset n offset ≤ PackedSpan.maxOffset n := by
  unfold PackedSpan.boundedOffset
  split_ifs with h
  · exact h
  · exact Nat.le_refl _

/-- A bounded push of a range of a buffer. -/
theorem Wf.tryPush (h : s.Wf) (source : Source) {start stop : ℕ} (quoted : Bool)
    (hordered : start ≤ stop) (hinput : stop ≤ s.inputLen)
    (hscratch : source = .scratch → stop ≤ s.scratch.length) :
    Wf { s with spans := s.spans ++ [.fromRangeUnchecked source start stop quoted] } ∧
      begun { s with spans := s.spans ++ [.fromRangeUnchecked source start stop quoted] } =
        ⟨s.inputLen, s.unpack.push ⟨source, start, stop, quoted, false⟩⟩ := by
  obtain ⟨hunpack, hfits⟩ := PackedSpan.fits_tagged (n := n) ⟨source, start, stop, quoted, false⟩ s.inputLen s.scratch.length h.inputLen hordered
    hinput hscratch (fun h => by cases h)
  rw [PackedSpan.fromRangeUnchecked_eq]
  exact ⟨h.push hfits, (begun_push s _).trans (by rw [hunpack])⟩

section limit

variable {span : Span} {maxFields maxFieldBytes : ℕ}

theorem getD_tryPushBounded
    (h : ¬ (s.spans.length ≥ maxFields ∨ span.stop - span.start > maxFieldBytes)) :
    (s.begun.storage.tryPushBounded span maxFields maxFieldBytes).getD s.begun.storage =
      s.unpack.push span := by
  rw [SpanStorage.tryPushBounded, if_neg]
  · rfl
  · simpa [begun, unpack, SpanStorage.len] using h

theorem getD_tryPushBounded_refused
    (h : s.spans.length ≥ maxFields ∨ span.stop - span.start > maxFieldBytes) :
    (s.begun.storage.tryPushBounded span maxFields maxFieldBytes).getD s.begun.storage = s.unpack := by
  rw [SpanStorage.tryPushBounded, if_pos]
  · rfl
  · simpa [begun, unpack, SpanStorage.len] using h

end limit

/-- **One operation keeps every span inside its buffer**; it stops at its `assert!`, and
    at nothing else. -/
theorem step_sound (h : s.Wf) (op : SpanOp) :
    (s.Asserted op → ∃ s', s.step op = .ok s' ∧ s'.Wf ∧ s'.begun = s.begun.step n op) ∧
      (¬ s.Asserted op → s.step op = .error .assertion) := by
  cases op with
  | begin input maxOffset =>
    refine ⟨fun _ => ⟨_, rfl, ?_⟩, fun hnot => absurd trivial hnot⟩
    simp only [begin, Begun.step]
    by_cases hlen : input.length > PackedSpan.boundedOffset n maxOffset
    · rw [if_pos hlen, if_pos hlen]
      exact ⟨h, rfl⟩
    · rw [if_neg hlen, if_neg hlen]
      refine ⟨⟨?_, fun span hspan => by cases hspan⟩, rfl⟩
      exact (Nat.le_of_not_gt hlen).trans (boundedOffset_le n maxOffset)
  | clear => exact ⟨fun _ => ⟨_, rfl, wf_withCapacity, rfl⟩, fun hnot => absurd trivial hnot⟩
  | clearSpans =>
    exact ⟨fun _ => ⟨_, rfl, ⟨h.inputLen, fun span hspan => by cases hspan⟩, rfl⟩,
      fun hnot => absurd trivial hnot⟩
  | truncate len =>
    refine ⟨fun _ => ⟨_, rfl, ⟨h.inputLen, fun span hspan => ?_⟩, ?_⟩, fun hnot => absurd trivial hnot⟩
    · exact h.spans span (List.mem_of_mem_take hspan)
    · simp [begun, unpack, Begun.step, inputLen, List.map_take]
  | scratchExtend bytes =>
    refine ⟨fun _ => ⟨_, rfl, ⟨h.inputLen, fun span hspan => ?_⟩, rfl⟩, fun hnot => absurd trivial hnot⟩
    refine (h.spans span hspan).mono (Nat.le_refl _) ?_
    rw [List.length_append]
    exact Nat.le_add_right _ _
  | tryPushInputBounded start stop quoted maxFields maxFieldBytes =>
    refine ⟨fun _ => ⟨_, rfl, ?_⟩, fun hnot => absurd trivial hnot⟩
    simp only [Begun.step, tryPushInputBounded]
    by_cases hrange : start ≤ stop ∧ stop ≤ s.inputLen
    · rw [if_neg (Nat.not_lt.mpr hrange.1), if_pos (show start ≤ stop ∧ stop ≤ s.begun.inputLen from hrange)]
      by_cases hlimit : s.spans.length ≥ maxFields ∨ stop - start > maxFieldBytes
      · rw [if_pos (hlimit.imp_right Or.inl), getD_tryPushBounded_refused hlimit]
        exact ⟨h, rfl⟩
      · rw [if_neg (by have := hrange.2; omega), getD_tryPushBounded hlimit]
        exact h.tryPush .input quoted hrange.1 hrange.2 (fun h => by cases h)
    · rw [if_neg (show ¬ (start ≤ stop ∧ stop ≤ s.begun.inputLen) from hrange)]
      have hrefused : ∀ accepted : Bool × PackedStorage n, (if stop < start then (false, s)
          else if s.spans.length ≥ maxFields ∨ stop - start > maxFieldBytes ∨ stop > s.inputLen then
            (false, s) else accepted) = (false, s) := by
        intro accepted
        split_ifs
        · rfl
        · rfl
        · omega
      rw [hrefused]
      exact ⟨h, rfl⟩
  | tryPushScratchBounded start stop quoted maxFields maxFieldBytes =>
    refine ⟨fun _ => ⟨_, rfl, ?_⟩, fun hnot => absurd trivial hnot⟩
    simp only [Begun.step, tryPushScratchBounded]
    by_cases hrange : start ≤ stop ∧ stop ≤ s.inputLen ∧ stop ≤ s.scratch.length
    · rw [if_neg (Nat.not_lt.mpr hrange.1), if_pos (show start ≤ stop ∧ stop ≤ s.begun.inputLen ∧
        stop ≤ s.begun.storage.scratch.length from hrange)]
      by_cases hlimit : s.spans.length ≥ maxFields ∨ stop - start > maxFieldBytes
      · rw [if_pos (hlimit.imp_right Or.inl), getD_tryPushBounded_refused hlimit]
        exact ⟨h, rfl⟩
      · rw [if_neg (by have := hrange.2; omega), getD_tryPushBounded hlimit]
        exact h.tryPush .scratch quoted hrange.1 hrange.2.1 (fun _ => hrange.2.2)
    · rw [if_neg (show ¬ (start ≤ stop ∧ stop ≤ s.begun.inputLen ∧
        stop ≤ s.begun.storage.scratch.length) from hrange)]
      have hrefused : ∀ accepted : Bool × PackedStorage n, (if stop < start then (false, s)
          else if s.spans.length ≥ maxFields ∨ stop - start > maxFieldBytes ∨
            stop > s.scratch.length ∨ stop > s.inputLen then (false, s) else accepted) = (false, s) := by
        intro accepted
        split_ifs
        · rfl
        · rfl
        · omega
      rw [hrefused]
      exact ⟨h, rfl⟩
  | pushNull offset =>
    refine ⟨fun hle => ?_, fun hnot => if_neg fun hboth => hnot hboth.1⟩
    have hmax : offset ≤ PackedSpan.maxOffset n := hle.trans h.inputLen
    obtain ⟨hunpack, hfits⟩ := PackedSpan.fits_tagged (n := n) ⟨.input, offset, offset, false, true⟩ s.inputLen s.scratch.length h.inputLen
      (Nat.le_refl _) hle (fun h => by cases h) (fun _ => rfl)
    refine ⟨_, if_pos ⟨hle, hmax⟩, ?_⟩
    rw [PackedSpan.fromValidNull_eq]
    exact ⟨h.push hfits, (begun_push s _).trans (by rw [hunpack]; rfl)⟩
  | trimAsciiWhere input shouldTrim =>
    refine ⟨fun hle => ?_, fun hnot => if_neg hnot⟩
    obtain ⟨spans', hspans, hall, hmap⟩ := mapM_fits s.spans s.inputLen s.scratch.length
      (f := fun span => if shouldTrim span.isQuoted then span.trimAscii input s.scratch else .ok span)
      (g := fun span => if shouldTrim span.quoted then span.trimAscii input s.scratch else span)
      (fun span hspan => by
        have hfits := h.spans span hspan
        by_cases htrim : shouldTrim span.isQuoted = true
        · obtain ⟨span', hok, hfits', hunpack⟩ := hfits.trimAscii h.inputLen hle
          exact ⟨span', (if_pos htrim).trans hok, hfits', hunpack.trans (if_pos htrim).symm⟩
        · exact ⟨span, if_neg htrim, hfits, (if_neg htrim).symm⟩)
    refine ⟨{ s with spans := spans' }, ?_, ⟨h.inputLen, hall⟩, ?_⟩
    · refine (if_pos hle).trans ?_
      rw [hspans]
      rfl
    · simp [begun, unpack, Begun.step, SpanStorage.trimAsciiWhere, hmap, inputLen]
  | markInputNulls input isNull =>
    refine ⟨fun hle => ?_, fun hnot => if_neg hnot⟩
    obtain ⟨spans', hspans, hall, hmap⟩ := mapM_fits s.spans s.inputLen s.scratch.length (f := fun span => span.markInputNull input isNull)
      (g := SpanStorage.markInputNull input isNull)
      (fun span hspan => (h.spans span hspan).markInputNull h.inputLen hle isNull)
    refine ⟨{ s with spans := spans' }, ?_, ⟨h.inputLen, hall⟩, ?_⟩
    · refine (if_pos hle).trans ?_
      rw [hspans]
      rfl
    · simp [begun, unpack, Begun.step, SpanStorage.markInputNulls, hmap, inputLen]

/-- A view of the fields is in range, and reads what the spans stand for. -/
theorem Wf.resolved_eq (h : s.Wf) {input : Bytes} (hinput : s.inputLen ≤ input.length) :
    s.resolved input = .ok (s.unpack.resolved input) := by
  have hmap : ∀ spans : List (PackedSpan n), (∀ span ∈ spans, span.Fits s.inputLen s.scratch.length) →
      spans.mapM (fun span => (Field.mk · span.isNull) <$> span.resolve input s.scratch) =
        .ok (spans.map fun span => ⟨span.unpack.bytes input s.scratch, span.isNull⟩) := by
    intro spans hspans
    induction spans with
    | nil => rfl
    | cons span spans ih =>
      rw [List.mapM_cons, ih fun x hx => hspans x (List.mem_cons_of_mem _ hx),
        PackedSpan.resolve_eq (hspans span List.mem_cons_self) hinput]
      rfl
  rw [resolved, if_pos hinput, hmap s.spans h.spans]
  simp only [SpanStorage.resolved, unpack, List.map_map]
  rfl

/-- One field is read in range from any input, and is missing where the input is too short for it. -/
theorem Wf.get_eq (h : s.Wf) (input : Bytes) (index : ℕ) :
    s.get input index = .ok (s.spans[index]?.bind fun span =>
      if span.source = .input ∧ input.length < span.stopOffset then none
      else some (span.unpack.bytes input s.scratch)) := by
  rw [get]
  rcases hget : s.spans[index]? with _ | span
  · rfl
  have hfits := h.spans span (List.mem_of_getElem? hget)
  simp only [Option.bind_some]
  rcases hsource : span.source with _ | _
  · rw [if_neg (by decide)]
    by_cases hlen : input.length < span.stopOffset
    · rw [if_pos hlen, if_pos ⟨rfl, hlen⟩]
    · rw [if_neg hlen, if_neg (fun hboth => hlen hboth.2),
        getUnchecked_ok hfits.ordered (Nat.le_of_not_lt hlen)]
      simp only [Span.bytes, Span.buffer, PackedSpan.unpack, hsource]
      rfl
  · rw [if_pos rfl, if_neg (fun hboth => by cases hboth.1)]
    have hread : span.resolve input s.scratch =
        .ok (slice s.scratch span.startOffset span.stopOffset) := by
      rw [PackedSpan.resolve, hsource]
      exact getUnchecked_ok hfits.ordered (hfits.scratch hsource)
    rw [hread]
    simp only [Span.bytes, Span.buffer, PackedSpan.unpack, hsource]
    rfl

/-- An accepted input holds every field. -/
theorem Wf.get_accepted (h : s.Wf) {input : Bytes} (hinput : s.inputLen ≤ input.length) (index : ℕ) :
    s.get input index = .ok ((s.unpack.resolved input)[index]?.map Field.bytes) := by
  rw [h.get_eq, SpanStorage.resolved, unpack]
  rcases hget : s.spans[index]? with _ | span
  · simp [hget]
  · have hfits := h.spans span (List.mem_of_getElem? hget)
    have hlen := hfits.input.trans hinput
    simp [hget]
    intro _
    omega

end PackedStorage

/-! ## The bytes that were named -/

section named

variable {n : ℕ} {text input : Bytes}

theorem slice_prefixed (h : text <+: input) {start stop : ℕ} (hstop : stop ≤ text.length) :
    slice input start stop = slice text start stop := by
  obtain ⟨more, rfl⟩ := h
  rw [slice, slice, List.take_append_of_le_length hstop]

/-- What a span stands for over a text that goes on. -/
theorem Span.bytes_prefixed {v : Span} {scratch : Bytes} (h : text <+: input)
    (hstop : v.stop ≤ text.length) : v.bytes input scratch = v.bytes text scratch := by
  rcases hsource : v.source with _ | _
  · simp only [Span.bytes, Span.buffer, hsource]
    exact slice_prefixed h hstop
  · simp only [Span.bytes, Span.buffer, hsource]

/-- Every span lies inside its buffer. -/
def Begun.Inside (b : Begun) : Prop :=
  ∀ v ∈ b.storage.spans, v.stop ≤ b.inputLen ∧
    (v.source = .scratch → v.stop ≤ b.storage.scratch.length)

theorem PackedStorage.Wf.inside {s : PackedStorage n} (h : s.Wf) : s.begun.Inside := by
  intro v hv
  obtain ⟨span, hspan, rfl⟩ := List.mem_map.mp hv
  exact ⟨(h.spans span hspan).input, (h.spans span hspan).scratch⟩

theorem Begun.Inside.within {b : Begun} (h : b.Inside) : b.storage.Within :=
  fun v hv => (h v hv).2

/-- The trimmed span stands for the trimmed bytes. -/
theorem Span.bytes_trimAscii {v : Span} {input' scratch : Bytes} (h : text <+: input)
    (h' : text <+: input') (hstop : v.stop ≤ text.length)
    (hscratch : v.source = .scratch → v.stop ≤ scratch.length) (hnull : v.null = false) :
    (v.trimAscii input scratch).bytes input' scratch = trimmed (v.bytes text scratch) := by
  rw [Span.trimAscii, if_neg (by rw [hnull]; decide), Span.bytes_prefixed h hstop]
  simp only
  rcases hsource : v.source with _ | _
  · simp only [Span.bytes, Span.buffer, hsource]
    rw [← slice_trimmed _ hstop]
    exact slice_prefixed h' ((Nat.sub_le _ _).trans hstop)
  · simp only [Span.bytes, Span.buffer, hsource]
    exact slice_trimmed _ (hscratch hsource)

theorem Span.entry_trimAscii {v : Span} {input' scratch : Bytes} (h : text <+: input)
    (h' : text <+: input') (hstop : v.stop ≤ text.length)
    (hscratch : v.source = .scratch → v.stop ≤ scratch.length) :
    Entry.mk ((v.trimAscii input scratch).bytes input' scratch) (v.trimAscii input scratch).quoted
        (v.trimAscii input scratch).source (v.trimAscii input scratch).null =
      (Entry.mk (v.bytes text scratch) v.quoted v.source v.null).trim := by
  by_cases hnull : v.null = true
  · have hsame : v.trimAscii input scratch = v := if_pos hnull
    rw [hsame, Entry.trim, if_pos hnull, Span.bytes_prefixed h' hstop]
  · rw [Span.bytes_trimAscii h h' hstop hscratch (by simpa using hnull), Entry.trim, if_neg hnull,
      Span.trimAscii, if_neg hnull]

theorem Span.entry_markInputNull {v : Span} {input' scratch : Bytes} (h : text <+: input)
    (h' : text <+: input') (hstop : v.stop ≤ text.length) (isNull : Bytes → Bool) :
    Entry.mk ((SpanStorage.markInputNull input isNull v).bytes input' scratch)
        (SpanStorage.markInputNull input isNull v).quoted
        (SpanStorage.markInputNull input isNull v).source
        (SpanStorage.markInputNull input isNull v).null =
      (Entry.mk (v.bytes text scratch) v.quoted v.source v.null).markWhere isNull := by
  have hbytes : v.source = .input → v.bytes text scratch = slice input v.start v.stop := by
    intro hsource
    rw [slice_prefixed h hstop]
    simp only [Span.bytes, Span.buffer, hsource]
  have hcond : (!v.quoted && v.source == .input && isNull (slice input v.start v.stop)) =
      (!v.quoted && v.source == .input && isNull (v.bytes text scratch)) := by
    rcases hsource : v.source with _ | _
    · rw [hbytes hsource]
    · rw [show (Source.scratch == Source.input) = false from rfl, Bool.and_false, Bool.false_and,
        Bool.false_and]
  rw [SpanStorage.markInputNull, Entry.markWhere, hcond]
  split_ifs
  · rw [Span.bytes, slice, List.drop_of_length_le (List.length_take_le _ _)]
  · rw [Span.bytes_prefixed h' hstop]

namespace NamedFields

/-- The spans stand for the fields over every text that goes on. -/
structure Names (f : NamedFields) (b : Begun) : Prop where
  text : f.text.length = b.inputLen
  scratch : f.scratch = b.storage.scratch
  entries : ∀ input, f.text <+: input → b.storage.entries input = f.entries

variable {f : NamedFields} {b : Begun}

theorem Names.length (h : f.Names b) : b.storage.len = f.entries.length := by
  rw [← h.entries f.text (List.prefix_refl _), SpanStorage.entries_length]

/-- A bounded push of bytes that are there. -/
theorem Names.tryPush (h : f.Names b) (v : Span) (x : Entry) (maxFields maxFieldBytes : ℕ)
    (hx : ∀ input, f.text <+: input →
      (b.storage.push v).entries input = b.storage.entries input ++ [x]) :
    Names (if f.entries.length < maxFields ∧ v.stop - v.start ≤ maxFieldBytes then f.push x else f)
      { b with storage := (b.storage.tryPushBounded v maxFields maxFieldBytes).getD b.storage } := by
  by_cases hlimit : f.entries.length < maxFields ∧ v.stop - v.start ≤ maxFieldBytes
  · have hnone : ¬ ((decide (b.storage.len ≥ maxFields) ||
        decide (v.stop - v.start > maxFieldBytes)) = true) := by
      rw [h.length]
      simpa using hlimit
    rw [if_pos hlimit, SpanStorage.tryPushBounded, if_neg hnone]
    refine ⟨h.text, h.scratch, fun input hinput => ?_⟩
    rw [Option.getD_some, hx input hinput, h.entries input hinput]
    rfl
  · have hsome : (decide (b.storage.len ≥ maxFields) ||
        decide (v.stop - v.start > maxFieldBytes)) = true := by
      rw [h.length]
      by_contra hnot
      exact hlimit (by simpa using hnot)
    rw [if_neg hlimit, SpanStorage.tryPushBounded, if_pos hsome]
    exact h

/-- **One operation on the spans is one on the bytes they stand for.** -/
theorem Names.step (h : f.Names b) (hb : b.Inside) {op : SpanOp} {f' : NamedFields}
    (hstep : f.step n op = some f') : f'.Names (b.step n op) := by
  cases op with
  | begin input maxOffset =>
    obtain rfl := Option.some.inj hstep
    simp only [Begun.step]
    by_cases hlen : input.length > PackedSpan.boundedOffset n maxOffset
    · rw [if_pos hlen, if_pos hlen]
      exact h
    · rw [if_neg hlen, if_neg hlen]
      exact ⟨rfl, rfl, fun _ _ => rfl⟩
  | clear =>
    obtain rfl := Option.some.inj hstep
    exact ⟨rfl, rfl, fun _ _ => rfl⟩
  | clearSpans =>
    obtain rfl := Option.some.inj hstep
    exact ⟨h.text, h.scratch, fun _ _ => rfl⟩
  | truncate len =>
    obtain rfl := Option.some.inj hstep
    refine ⟨h.text, h.scratch, fun input hinput => ?_⟩
    simp only [← h.entries input hinput, Begun.step, SpanStorage.entries, List.map_take]
  | scratchExtend bytes =>
    obtain rfl := Option.some.inj hstep
    refine ⟨h.text, congrArg (· ++ bytes) h.scratch, fun input hinput => ?_⟩
    exact (SpanStorage.entries_scratch hb.within bytes).trans (h.entries input hinput)
  | tryPushInputBounded start stop quoted maxFields maxFieldBytes =>
    obtain rfl := Option.some.inj hstep
    simp only [Begun.step]
    by_cases hrange : start ≤ stop ∧ stop ≤ b.inputLen
    · rw [if_pos hrange]
      have hpush := h.tryPush ⟨.input, start, stop, quoted, false⟩
        ⟨slice f.text start stop, quoted, .input, false⟩ maxFields maxFieldBytes
        (fun input hinput => by
          rw [SpanStorage.entries_push_input, slice_prefixed hinput (h.text ▸ hrange.2)])
      simpa only [hrange.1, h.text ▸ hrange.2, true_and] using hpush
    · rw [if_neg hrange, if_neg fun hall => hrange ⟨hall.1, h.text ▸ hall.2.1⟩]
      exact h
  | tryPushScratchBounded start stop quoted maxFields maxFieldBytes =>
    obtain rfl := Option.some.inj hstep
    simp only [Begun.step]
    by_cases hrange : start ≤ stop ∧ stop ≤ b.inputLen ∧ stop ≤ b.storage.scratch.length
    · rw [if_pos hrange]
      have hpush := h.tryPush ⟨.scratch, start, stop, quoted, false⟩
        ⟨slice f.scratch start stop, quoted, .scratch, false⟩ maxFields maxFieldBytes
        (fun input _ => by
          rw [h.scratch]
          simp [SpanStorage.entries, SpanStorage.push, Span.bytes, Span.buffer])
      simpa only [hrange.1, h.text ▸ hrange.2.1, h.scratch ▸ hrange.2.2, true_and] using hpush
    · rw [if_neg hrange, if_neg fun hall => hrange ⟨hall.1, h.text ▸ hall.2.1, h.scratch ▸ hall.2.2.1⟩]
      exact h
  | pushNull offset =>
    obtain rfl := Option.some.inj hstep
    refine ⟨h.text, h.scratch, fun input hinput => ?_⟩
    have hempty : slice input offset offset = [] := by
      rw [slice, List.drop_of_length_le]
      exact (List.length_take_le _ _)
    simp only [Begun.step, SpanStorage.pushNull]
    rw [SpanStorage.entries_push_input, hempty, h.entries input hinput]
    rfl
  | trimAsciiWhere op shouldTrim =>
    rw [NamedFields.step] at hstep
    split_ifs at hstep with hop
    obtain rfl := Option.some.inj hstep
    refine ⟨h.text, h.scratch, fun input hinput => ?_⟩
    simp only [Begun.step, SpanStorage.trimAsciiWhere, SpanStorage.entries, List.map_map,
      ← h.entries f.text (List.prefix_refl _)]
    refine List.map_congr_left fun v hv => ?_
    have hstop := h.text ▸ (hb v hv).1
    simp only [Function.comp_apply]
    by_cases htrim : shouldTrim v.quoted = true
    · rw [if_pos htrim, if_pos htrim]
      exact Span.entry_trimAscii hop hinput hstop (hb v hv).2
    · rw [if_neg htrim, if_neg htrim, Span.bytes_prefixed hinput hstop]
  | markInputNulls op isNull =>
    rw [NamedFields.step] at hstep
    split_ifs at hstep with hop
    obtain rfl := Option.some.inj hstep
    refine ⟨h.text, h.scratch, fun input hinput => ?_⟩
    simp only [Begun.step, SpanStorage.markInputNulls, SpanStorage.entries, List.map_map,
      ← h.entries f.text (List.prefix_refl _)]
    refine List.map_congr_left fun v hv => ?_
    exact Span.entry_markInputNull hop hinput (h.text ▸ (hb v hv).1) isNull

end NamedFields

end named

/-! ## Every run -/

namespace PackedStorage

variable {n : ℕ}

/-- What a storage is after some operations: in order, and what the operations say. -/
structure Sound (s : PackedStorage n) (b : Begun) (f : Option NamedFields) : Prop where
  wf : s.Wf
  begun : s.begun = b
  names : ∀ named, f = some named → named.Names b

/-- **No run leaves the invariant**: it goes on until an `assert!` fails, and never reads out of
    range. -/
theorem foldlM_sound (ops : List SpanOp) : ∀ (s : PackedStorage n) (b : Begun)
    (f : Option NamedFields), s.Sound b f →
      (∃ s', ops.foldlM step s = .ok s' ∧ s'.Sound (ops.foldl (Begun.step n) b)
        (f >>= fun named => ops.foldlM (NamedFields.step n) named)) ∨
      ops.foldlM step s = .error .assertion := by
  induction ops with
  | nil =>
    intro s b f h
    refine Or.inl ⟨s, rfl, h.wf, h.begun, fun named hnamed => h.names named ?_⟩
    simpa using hnamed
  | cons op ops ih =>
    intro s b f h
    rw [List.foldlM_cons]
    by_cases hop : s.Asserted op
    · obtain ⟨s', hstep, hwf, hbegun⟩ := (step_sound h.wf op).1 hop
      rw [hstep]
      have hsound : s'.Sound (b.step n op) (f >>= (NamedFields.step n · op)) := by
        refine ⟨hwf, hbegun.trans (by rw [h.begun]), fun named hnamed => ?_⟩
        obtain ⟨old, hold, hnew⟩ := Option.bind_eq_some_iff.mp hnamed
        have hinside := h.wf.inside
        rw [h.begun] at hinside
        exact (h.names old hold).step hinside hnew
      have hrest := ih s' (b.step n op) _ hsound
      rw [Option.bind_eq_bind, Option.bind_assoc] at hrest
      exact hrest
    · exact Or.inr (by rw [(step_sound h.wf op).2 hop]; rfl)

/-- **Borrowed spans never leave their buffers.**  For every word size and every sequence of
    operations on a new storage, no operation reads out of range; and in the storage reached
    every span is ordered, inside its buffer and made of its offsets and its flags, only a
    failing `assert!` stops an operation, and every read, of one field or of all, is in range
    and returns what the spans stand for, which are the bytes that the pushes named. -/
theorem run_sound (n : ℕ) (ops : List SpanOp) :
    run n ops ≠ .error .range ∧
      ∀ s, run n ops = .ok s →
        s.Wf ∧ s.begun = Begun.run n ops ∧
          (∀ op, s.Asserted op → ∃ s', s.step op = .ok s') ∧
          (∀ input index, s.get input index ≠ .error .range) ∧
          (∀ input, s.inputLen ≤ input.length →
            s.resolved input = .ok (s.unpack.resolved input) ∧
              ∀ index, s.get input index = .ok ((s.unpack.resolved input)[index]?.map Field.bytes)) ∧
          ∀ f, NamedFields.run n ops = some f → ∀ input, f.text <+: input →
            s.inputLen ≤ input.length ∧ s.resolved input = .ok (f.entries.map Entry.field) := by
  have hstart : (withCapacity n).Sound ⟨0, .empty⟩ (some ⟨[], [], []⟩) := by
    refine ⟨wf_withCapacity, rfl, fun named hnamed => ?_⟩
    obtain rfl := Option.some.inj hnamed
    exact ⟨rfl, rfl, fun _ _ => rfl⟩
  rcases foldlM_sound ops _ _ _ hstart with ⟨s, hrun, hs⟩ | hrun
  · rw [run, hrun]
    refine ⟨fun h => (by cases h), fun s' hs' => ?_⟩
    obtain rfl := Except.ok.inj hs'
    refine ⟨hs.wf, hs.begun, fun op hop => ?_, fun input index h => ?_, fun input hinput => ?_,
      fun f hf input hinput => ?_⟩
    · obtain ⟨s', hstep, -⟩ := (step_sound hs.wf op).1 hop
      exact ⟨s', hstep⟩
    · rw [hs.wf.get_eq] at h
      cases h
    · exact ⟨hs.wf.resolved_eq hinput, hs.wf.get_accepted hinput⟩
    · have hnames := hs.names f hf
      rw [← hs.begun] at hnames
      have hlen : s.inputLen ≤ input.length := hnames.text.symm.le.trans hinput.length_le
      refine ⟨hlen, ?_⟩
      rw [hs.wf.resolved_eq hlen, SpanStorage.resolved_eq]
      exact congrArg _ (congrArg _ (hnames.entries input hinput))
  · rw [run, hrun]
    exact ⟨fun h => (by cases h), fun s hs => (by cases hs)⟩

/-- The text `a , b`: `a` with its blank, a quoted field in scratch and a NULL; then the fields
    outside quotes are trimmed. -/
theorem run_sound_trimmed : ∃ s, run 62
      [.begin [97, 32, 44, 32, 98] 100, .tryPushInputBounded 0 2 false 9 9, .scratchExtend [34],
        .tryPushScratchBounded 0 1 true 9 9, .pushNull 5,
        .trimAsciiWhere [97, 32, 44, 32, 98, 10] fun quoted => !quoted] = .ok s ∧
    s.resolved [97, 32, 44, 32, 98] = .ok [⟨[97], false⟩, ⟨[34], false⟩, ⟨[], true⟩] := by
  have hnamed : NamedFields.run 62
      [.begin [97, 32, 44, 32, 98] 100, .tryPushInputBounded 0 2 false 9 9, .scratchExtend [34],
        .tryPushScratchBounded 0 1 true 9 9, .pushNull 5,
        .trimAsciiWhere [97, 32, 44, 32, 98, 10] fun quoted => !quoted] =
      some ⟨[97, 32, 44, 32, 98], [34],
        [⟨[97], false, .input, false⟩, ⟨[34], true, .scratch, false⟩, ⟨[], false, .input, true⟩]⟩ := by
    rfl
  exact ⟨_, rfl, (((run_sound 62 _).2 _ rfl).2.2.2.2.2 _ hnamed _ (List.prefix_refl _)).2⟩

end PackedStorage

end Coseva
