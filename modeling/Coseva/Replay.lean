/-
  Coseva — what the parse of a record reads of the engine: the cursor, the spans,
  the field count and the record index.  From two engines that share these it
  ends alike, wherever each began to count lines.

  * `frame`: the part of the engine that a parse leaves as it is;
  * `Same`: two engines at one record;
  * `parsePositionedRecord_replays`: a record is read alike from both.
-/
import Coseva.ReadKernel

namespace Coseva

namespace Engine

open Run

/-- What the parse of a record leaves as it is. -/
def frame (e : Engine) : Engine :=
  { e with
    location := 0
    spans := .empty
    expectedFields := none
    foldedUpto := 0
    foldedLines := 0
    terminated := false }

/-- Two engines at one record, of the frames of `c` and `c'`.  The field count
    that the first record sets is read only where it is set. -/
structure Same (cfg : ParserSettings) (c c' s t : Engine) : Prop where
  location : s.location = t.location
  spans : s.spans = t.spans
  expectedFields : cfg.fieldCount = .matchFirst → s.expectedFields = t.expectedFields
  left : s.frame = c.frame
  right : t.frame = c'.frame

/-- Two faults that differ in the line they report. -/
inductive Likewise (line line' : ℕ → ℕ) : Fault → Fault → Prop where
  | error (kind : ErrorKind) (byte record field : ℕ) :
    Likewise line line' (.error kind ⟨byte, line byte, record, field⟩)
      (.error kind ⟨byte, line' byte, record, field⟩)
  | panic : Likewise line line' .panic .panic
  | stuck : Likewise line line' .stuck .stuck

variable (cfg : ParserSettings) (F : CsvFormat) (input input' : Bytes) (c c' : Engine)

/-- `m` and `m'` end alike from two engines at one record, of two documents. -/
abbrev Mirrors {α : Type} (m m' : Parse α) : Prop :=
  Alike (Same cfg c c') (Likewise (physicalLine input c.lineBase c.lineOrigin)
    (physicalLine input' c'.lineBase c'.lineOrigin)) m m'

/-- `m` ends alike from two engines at one record. -/
abbrev Replays {α : Type} (m : Parse α) : Prop :=
  Alike (Same cfg c c') (Likewise (physicalLine input c.lineBase c.lineOrigin)
    (physicalLine input c'.lineBase c'.lineOrigin)) m m

/-- Two frames count records alike and may use the same kernels. -/
structure Twins : Prop where
  recordIndex : c.recordIndex = c'.recordIndex
  ownedParser : c.ownedParser = c'.ownedParser

variable {cfg F input input' c c'} {s t : Engine}

namespace Same

theorem recordIndex (hi : c.recordIndex = c'.recordIndex) (h : Same cfg c c' s t) :
    s.recordIndex = t.recordIndex :=
  (congrArg Engine.recordIndex h.left).trans (hi.trans (congrArg Engine.recordIndex h.right).symm)

theorem ownedParser (hc : Twins c c') (h : Same cfg c c' s t) : s.ownedParser = t.ownedParser :=
  (congrArg Engine.ownedParser h.left).trans
    (hc.ownedParser.trans (congrArg Engine.ownedParser h.right).symm)

theorem lines (h : Same cfg c c' s t) : (s.lineBase = c.lineBase ∧ s.lineOrigin = c.lineOrigin) ∧
    t.lineBase = c'.lineBase ∧ t.lineOrigin = c'.lineOrigin := by
  have hframe : ∀ {e d : Engine}, e.frame = d.frame →
      e.lineBase = d.lineBase ∧ e.lineOrigin = d.lineOrigin := by
    intro e d hed
    have hbase := congrArg Engine.lineBase hed
    have horigin := congrArg Engine.lineOrigin hed
    exact ⟨hbase, horigin⟩
  exact ⟨hframe h.left, hframe h.right⟩

end Same

/-! ## Checks and pushes -/

section checks

variable (hi : c.recordIndex = c'.recordIndex)

include hi

theorem errorFor_replays {α : Type} (kind : ErrorKind) (byte field : ℕ) :
    Mirrors cfg input input' c c' (errorFor input kind byte field : Parse α)
      (errorFor input' kind byte field : Parse α) := by
  intro s t h
  obtain ⟨⟨h1, h2⟩, h3, h4⟩ := h.lines
  unfold errorFor
  rw [h1, h2, h3, h4, h.recordIndex hi]
  exact .error kind byte t.recordIndex field

theorem error_replays {α : Type} (kind : ErrorKind) (byte : ℕ) :
    Mirrors cfg input input' c c' (error input kind byte : Parse α)
      (error input' kind byte : Parse α) := by
  intro s t h
  unfold error
  rw [h.spans]
  exact errorFor_replays hi kind byte _ s t h

theorem validateFieldCount_replays (actual : ℕ) :
    Mirrors cfg input input' c c' (validateFieldCount cfg input actual)
      (validateFieldCount cfg input' actual) := by
  have hcheck : ∀ (expected : ℕ) (s t : Engine), Same cfg c c' s t →
      Related (Same cfg c c') (Likewise (physicalLine input c.lineBase c.lineOrigin)
        (physicalLine input' c'.lineBase c'.lineOrigin))
        ((if actual = expected then pure ()
          else error input (.fieldCountMismatch expected actual) s.location : Parse Unit) s)
        ((if actual = expected then pure ()
          else error input' (.fieldCountMismatch expected actual) t.location : Parse Unit) t) := by
    intro expected s t h
    split_ifs
    · exact ⟨rfl, h⟩
    · rw [h.location]
      exact error_replays hi _ _ s t h
  unfold validateFieldCount
  refine Alike.get_bind fun s t h => ?_
  rcases hcount : cfg.fieldCount with _ | _ | expected
  · exact ⟨rfl, h⟩
  · rw [h.expectedFields hcount]
    rcases t.expectedFields with _ | expected
    · exact ⟨rfl, h.location, h.spans, fun _ => rfl, h.left, h.right⟩
    · exact hcheck expected s t h
  · exact hcheck expected s t h

theorem checkRecordLimitFor_replays (recordStart byte field : ℕ) :
    Mirrors cfg input input' c c' (checkRecordLimitFor cfg input recordStart byte field)
      (checkRecordLimitFor cfg input' recordStart byte field) := by
  unfold checkRecordLimitFor
  split_ifs
  · exact errorFor_replays hi _ _ _
  · exact Alike.pure' ()

theorem checkRecordLimit_replays (recordStart byte : ℕ) :
    Mirrors cfg input input' c c' (checkRecordLimit cfg input recordStart byte)
      (checkRecordLimit cfg input' recordStart byte) := by
  intro s t h
  unfold checkRecordLimit
  rw [h.spans]
  exact checkRecordLimitFor_replays hi _ _ _ s t h

theorem checkScanEnd_replays (byte recordStart fieldStart : ℕ) :
    Mirrors cfg input input' c c' (checkScanEnd cfg input byte recordStart fieldStart)
      (checkScanEnd cfg input' byte recordStart fieldStart) := by
  intro s t h
  unfold checkScanEnd checkScanEndFor
  rw [h.spans]
  split_ifs
  · exact errorFor_replays hi _ _ _ s t h
  · exact checkRecordLimitFor_replays hi _ _ _ s t h

theorem checkScratchLimit_replays (scratchStart byte : ℕ) :
    Mirrors cfg input input' c c' (checkScratchLimit cfg input scratchStart byte)
      (checkScratchLimit cfg input' scratchStart byte) := by
  intro s t h
  unfold checkScratchLimit
  rw [h.spans]
  split_ifs
  · exact error_replays hi _ _ s t h
  · exact ⟨rfl, h⟩

theorem pushSpan_replays (source : Source) (start stop byte : ℕ) (quoted : Bool) :
    Mirrors cfg input input' c c' (pushSpan cfg input source start stop byte quoted)
      (pushSpan cfg input' source start stop byte quoted) := by
  intro s t h
  unfold pushSpan
  rw [h.spans]
  split
  · exact ⟨rfl, h.location, rfl, h.expectedFields, h.left, h.right⟩
  · exact error_replays hi _ _ s t h

theorem pushNullSpan_replays (byte : ℕ) : Mirrors cfg input input' c c' (pushNullSpan cfg input byte)
      (pushNullSpan cfg input' byte) := by
  intro s t h
  unfold pushNullSpan
  rw [h.spans]
  split_ifs
  · exact error_replays hi _ _ s t h
  · exact ⟨rfl, h.location, rfl, h.expectedFields, h.left, h.right⟩

end checks

theorem setTerminated_replays (terminated : Bool) :
    Mirrors cfg input input' c c' (setTerminated terminated) (setTerminated terminated) :=
  Alike.modify' fun _ _ h => ⟨h.location, h.spans, h.expectedFields, h.left, h.right⟩

theorem noteTerminatedIf_replays (terminated : Bool) :
    Mirrors cfg input input' c c' (noteTerminatedIf terminated) (noteTerminatedIf terminated) := by
  unfold noteTerminatedIf
  split_ifs
  · exact setTerminated_replays true
  · exact Alike.pure' ()

theorem setLocation_replays (location : ℕ) :
    Mirrors cfg input input' c c' (setLocation location) (setLocation location) :=
  Alike.modify' fun _ _ h => ⟨rfl, h.spans, h.expectedFields, h.left, h.right⟩

theorem extendScratch_replays (bytes : Bytes) :
    Mirrors cfg input input' c c' (extendScratch bytes) (extendScratch bytes) :=
  Alike.modify' fun _ _ h =>
    ⟨h.location, congrArg (·.extendScratch bytes) h.spans, h.expectedFields, h.left, h.right⟩

theorem clearSpans_replays : Mirrors cfg input input' c c' clearSpans clearSpans :=
  Alike.modify' fun _ _ h =>
    ⟨h.location, congrArg SpanStorage.clearSpans h.spans, h.expectedFields, h.left, h.right⟩

/-- The fold counts the lines of one engine and may leave those of the other. -/
theorem foldPlainRecordTerminator_replays (recordStart : ℕ) (terminated : Bool)
    (terminator : UInt8) :
    Mirrors cfg input input' c c' (foldPlainRecordTerminator recordStart terminated terminator)
      (foldPlainRecordTerminator recordStart terminated terminator) := by
  refine Alike.modify' fun s t h => ?_
  split_ifs <;> exact ⟨h.location, h.spans, h.expectedFields, h.left, h.right⟩

/-! ## Ends of records -/

section ends

variable (hi : c.recordIndex = c'.recordIndex)

include hi

theorem endQuotedRecord_replays (recordStart location : ℕ) (terminated : Bool) :
    Mirrors cfg input input' c c' (endQuotedRecord cfg input recordStart location terminated)
      (endQuotedRecord cfg input' recordStart location terminated) :=
  (setLocation_replays _).bind fun _ => (setTerminated_replays _).bind
    fun _ => (checkRecordLimit_replays hi _ _).bind fun _ => Alike.pure' true

theorem endPlainRecord_replays (recordStart fieldStart fieldEnd pos location : ℕ)
    (terminated : Bool) : Mirrors cfg input input' c c'
      (endPlainRecord cfg F input recordStart fieldStart fieldEnd pos location terminated)
      (endPlainRecord cfg F input' recordStart fieldStart fieldEnd pos location terminated) :=
  (pushSpan_replays hi _ _ _ _ _).bind fun _ => (setLocation_replays _).bind
    fun _ => (setTerminated_replays _).bind fun _ => (checkRecordLimit_replays hi _ _).bind
    fun _ => (foldPlainRecordTerminator_replays _ _ _).bind fun _ => Alike.pure' true

end ends

/-! ## Fields -/

section fields

variable (hc : Twins c c')

include hc

theorem skipSpaces_replays (recordStart field : ℕ) :
    ∀ fuel, Replays cfg input c c' (skipSpaces cfg input recordStart field fuel)
  | 0 => Alike.throw' .stuck
  | fuel + 1 => by
    rw [skipSpaces]
    refine Alike.get_bind fun s t h => ?_
    rw [h.location]
    split_ifs
    · have hnext : Same cfg c c' { s with location := t.location + 1 }
          { t with location := t.location + 1 } :=
        ⟨rfl, h.spans, h.expectedFields, h.left, h.right⟩
      exact (Alike.bind (checkRecordLimitFor_replays hc.recordIndex recordStart (t.location + 1) field)
        fun _ => skipSpaces_replays recordStart field fuel) _ _ hnext
    · exact ⟨rfl, h⟩

theorem skipDelimiterSpaces_replays (recordStart : ℕ) :
    Replays cfg input c c' (skipDelimiterSpaces cfg input F recordStart) := by
  unfold skipDelimiterSpaces
  refine Alike.get_bind fun s t h => ?_
  rw [h.location, h.spans]
  split_ifs
  · exact ⟨rfl, h⟩
  · exact skipSpaces_replays hc _ _ _ s t h

theorem parseUnquotedFieldRuntime_replays (recordStart : ℕ) :
    Replays cfg input c c' (parseUnquotedFieldRuntime cfg F input recordStart) := by
  unfold parseUnquotedFieldRuntime
  refine Alike.get_bind fun s t h => ?_
  rw [h.location]
  by_cases hpanic : t.location > scanEnd cfg input recordStart t.location
  · simp only [if_pos hpanic]
    exact .panic
  simp only [if_neg hpanic]
  generalize (if ((cfg.fmt F).syntax'.quotingEnabled && !(cfg.fmt F).syntax'.permitsUnquotedQuotes) =
    true then _ else _) = special
  rcases special with _ | relative
  · exact (checkScanEnd_replays hc.recordIndex _ _ _).bind (fun _ => (pushSpan_replays hc.recordIndex _ _ _ _ _).bind
      fun _ => (setLocation_replays _).bind fun _ => (setTerminated_replays _).bind
      fun _ => Alike.pure' true) s t h
  · simp only
    split_ifs
    · exact error_replays hc.recordIndex _ _ s t h
    · exact (pushSpan_replays hc.recordIndex _ _ _ _ _).bind (fun _ => (setLocation_replays _).bind
        fun _ => (noteTerminatedIf_replays _).bind fun _ => (checkRecordLimit_replays hc.recordIndex _ _).bind
        fun _ => Alike.pure' _) s t h
    · exact (pushSpan_replays hc.recordIndex _ _ _ _ _).bind (fun _ => (setLocation_replays _).bind
        fun _ => (noteTerminatedIf_replays _).bind fun _ => (checkRecordLimit_replays hc.recordIndex _ _).bind
        fun _ => Alike.pure' _) s t h

theorem pushUnescapedSpan_replays (escape : UInt8) (fieldStart fieldEnd pos : ℕ) :
    Replays cfg input c c' (pushUnescapedSpan cfg input escape fieldStart fieldEnd pos) := by
  unfold pushUnescapedSpan
  refine Alike.get_bind fun s t h => ?_
  rw [h.spans]
  exact (extendScratch_replays _).bind (fun _ => (checkScratchLimit_replays hc.recordIndex _ _).bind
    fun _ => pushSpan_replays hc.recordIndex _ _ _ _ _) s t h

theorem pushGeneralUnquotedSpan_replays (fieldStart fieldEnd pos : ℕ) (header : Bool) :
    Replays cfg input c c' (pushGeneralUnquotedSpan cfg input fieldStart fieldEnd pos header) := by
  unfold pushGeneralUnquotedSpan
  simp only
  split_ifs
  · exact pushNullSpan_replays hc.recordIndex _
  · rcases cfg.dialect.escape.unquotedByte with _ | escape
    · exact pushSpan_replays hc.recordIndex _ _ _ _ _
    · simp only
      split_ifs
      · exact pushUnescapedSpan_replays hc _ _ _ _
      · exact pushSpan_replays hc.recordIndex _ _ _ _ _

theorem endGeneralField_replays (recordStart fieldStart fieldEnd pos location : ℕ)
    (header terminated : Bool) : Replays cfg input c c' (endGeneralField cfg input recordStart
      fieldStart fieldEnd pos location header terminated) :=
  (pushGeneralUnquotedSpan_replays hc _ _ _ _).bind fun _ => (setLocation_replays _).bind
    fun _ => (noteTerminatedIf_replays _).bind fun _ => (checkRecordLimit_replays hc.recordIndex _ _).bind
    fun _ => Alike.pure' _

theorem endGeneralWindow_replays (recordStart fieldStart : ℕ) (header : Bool) :
    Replays cfg input c c' (endGeneralWindow cfg input recordStart fieldStart header) :=
  (checkScanEnd_replays hc.recordIndex _ _ _).bind fun _ => (pushGeneralUnquotedSpan_replays hc _ _ _ _).bind
    fun _ => (setLocation_replays _).bind fun _ => (setTerminated_replays _).bind
    fun _ => Alike.pure' true

theorem generalUnquotedLoop_replays (extended : Bool) (recordStart fieldStart : ℕ)
    (header : Bool) : ∀ fuel cursor, Replays cfg input c c'
      (generalUnquotedLoop cfg input extended recordStart fieldStart header fuel cursor)
  | 0, _ => Alike.throw' .stuck
  | fuel + 1, cursor => by
    rw [generalUnquotedLoop]
    simp only
    split_ifs
    · exact endGeneralWindow_replays hc _ _ _
    all_goals
      split
      · exact generalUnquotedLoop_replays extended recordStart fieldStart header fuel _
      · split
        · exact generalUnquotedLoop_replays extended recordStart fieldStart header fuel _
        · exact error_replays hc.recordIndex _ _
        · exact endGeneralField_replays hc _ _ _ _ _ _ _

theorem parseUnquotedField_replays (recordStart : ℕ) (header : Bool) :
    Replays cfg input c c' (parseUnquotedField cfg F input recordStart header) := by
  unfold parseUnquotedField
  split_ifs
  · unfold parseGeneralUnquotedField
    refine Alike.get_bind fun s t h => ?_
    rw [h.location]
    exact generalUnquotedLoop_replays hc _ _ _ _ _ _ s t h
  · exact parseUnquotedFieldRuntime_replays hc recordStart

theorem finishQuotedField_replays (recordStart afterQuote : ℕ) :
    Replays cfg input c c' (finishQuotedField cfg F input recordStart afterQuote) := by
  unfold finishQuotedField
  simp only
  split
  · exact endQuotedRecord_replays hc.recordIndex _ _ _
  · split_ifs
    · exact (setLocation_replays _).bind fun _ => Alike.pure' false
    · exact endQuotedRecord_replays hc.recordIndex _ _ _
    · exact endQuotedRecord_replays hc.recordIndex _ _ _
    · exact error_replays hc.recordIndex _ _

theorem closeQuotedField_replays (recordStart contentStart scratchStart segmentStart pos : ℕ)
    (copied : Bool) : Replays cfg input c c' (closeQuotedField cfg F input recordStart contentStart
      scratchStart segmentStart pos copied) := by
  have hrest : Replays cfg input c c' (do
      let e ← get
      if copied then pushSpan cfg input .scratch scratchStart e.spans.scratch.length pos true
      else pushSpan cfg input .input contentStart pos pos true
      finishQuotedField cfg F input recordStart (pos + 1)) := by
    refine Alike.get_bind fun s t h => ?_
    rw [h.spans]
    cases copied
    · exact (pushSpan_replays hc.recordIndex _ _ _ _ _).bind
        (fun _ => finishQuotedField_replays hc recordStart (pos + 1)) s t h
    · exact (pushSpan_replays hc.recordIndex _ _ _ _ _).bind
        (fun _ => finishQuotedField_replays hc recordStart (pos + 1)) s t h
  unfold closeQuotedField
  cases copied
  · exact hrest
  · exact (extendScratch_replays _).bind fun _ => hrest

theorem quotedLoop_replays (recordStart contentStart scratchStart : ℕ) :
    ∀ fuel segmentStart cursor copied, Replays cfg input c c' (quotedLoop cfg F input recordStart
      contentStart scratchStart fuel segmentStart cursor copied)
  | 0, _, _, _ => Alike.throw' .stuck
  | fuel + 1, segmentStart, cursor, copied => by
    rw [quotedLoop]
    simp only
    split_ifs
    · exact (checkRecordLimit_replays hc.recordIndex _ _).bind fun _ => Alike.throw' .panic
    · split
      · exact (checkScanEnd_replays hc.recordIndex _ _ _).bind fun _ => error_replays hc.recordIndex _ _
      · split
        · exact error_replays hc.recordIndex _ _
        · exact (extendScratch_replays _).bind fun _ => (extendScratch_replays _).bind
            fun _ => (checkScratchLimit_replays hc.recordIndex _ _).bind
            fun _ => quotedLoop_replays recordStart contentStart scratchStart fuel _ _ _
        · exact closeQuotedField_replays hc _ _ _ _ _ _

theorem parseQuotedField_replays (recordStart : ℕ) :
    Replays cfg input c c' (parseQuotedField cfg F input recordStart) := by
  unfold parseQuotedField
  refine Alike.get_bind fun s t h => ?_
  rw [h.location, h.spans]
  exact quotedLoop_replays hc _ _ _ _ _ _ _ s t h

omit hc in
theorem markNullSpans_replays (header : Bool) :
    Replays cfg input c c' (markNullSpans cfg F input header) := by
  unfold markNullSpans
  simp only
  split_ifs
  · exact Alike.pure' ()
  · exact Alike.modify' fun _ _ h => ⟨h.location, congrArg
      (·.markInputNulls input (rawFieldIsNull (cfg.fmt F).nulls)) h.spans, h.expectedFields,
      h.left, h.right⟩

theorem parseField_replays (recordStart : ℕ) (header : Bool) :
    Replays cfg input c c' (parseField cfg F input recordStart header) := by
  unfold parseField
  refine (skipDelimiterSpaces_replays hc recordStart).bind fun _ => Alike.get_bind fun s t h => ?_
  rw [h.location]
  split_ifs
  · exact parseQuotedField_replays hc recordStart s t h
  · exact parseUnquotedField_replays hc recordStart header s t h

/-- The field count that a record ends with. -/
theorem countFields_replays : Replays cfg input c c' (do
    let e ← get
    validateFieldCount cfg input e.spans.len) := by
  refine Alike.get_bind fun s t h => ?_
  rw [h.spans]
  exact validateFieldCount_replays hc.recordIndex _ s t h

theorem fieldsLoop_replays (recordStart : ℕ) (header : Bool) :
    ∀ fuel, Replays cfg input c c' (fieldsLoop cfg F input recordStart header fuel)
  | 0 => Alike.throw' .stuck
  | fuel + 1 => by
    rw [fieldsLoop]
    refine (parseField_replays hc recordStart header).bind fun recordEnd => ?_
    cases recordEnd
    · exact fieldsLoop_replays recordStart header fuel
    · exact (markNullSpans_replays header).bind fun _ => countFields_replays hc

theorem parseRecordFieldsFor_replays (recordStart : ℕ) (header : Bool) :
    Replays cfg input c c' (parseRecordFieldsFor cfg F input recordStart header) := by
  have hrun : ∀ F', Replays cfg input c c' (parseRecordFields cfg F' input recordStart header) :=
    fun F' => fieldsLoop_replays hc recordStart header _
  unfold parseRecordFieldsFor
  cases F with
  | some o => exact hrun _
  | none =>
    rcases cfg.formatKind with _ | _ | _
    · exact hrun _
    · exact hrun _
    · exact hrun _

end fields

/-! ## Kernels -/

section kernels

variable (hc : Twins c c')

include hc

theorem tryParseDefaultCsvBorrowed_replays (recordStart : ℕ) :
    Replays cfg input c c' (tryParseDefaultCsvBorrowed cfg input recordStart) := by
  unfold tryParseDefaultCsvBorrowed
  refine Alike.get_bind fun s t h => ?_
  rw [h.spans]
  have hsame : (s.ownedParser.isNone || decide (input.length - recordStart < defaultBorrowedProbe))
      = (t.ownedParser.isNone ||
        decide (input.length - recordStart < defaultBorrowedProbe)) := by rw [h.ownedParser hc]
  by_cases hprobe : (t.ownedParser.isNone ||
      decide (input.length - recordStart < defaultBorrowedProbe)) = true
  · rw [if_pos (hsame.trans hprobe), if_pos hprobe]
    exact ⟨rfl, h⟩
  rw [if_neg (hsame ▸ hprobe), if_neg hprobe]
  rcases tryParseDefaultBorrowedPlain cfg input recordStart t.spans.spans with
    _ | ⟨consumed, spans⟩
  · by_cases hquote :
        (find1 34 (slice input recordStart (recordStart + defaultBorrowedProbe))).isNone = true
    · simp only [if_pos hquote]
      exact ⟨rfl, h⟩
    simp only [if_neg hquote]
    rcases tryParseDefaultBorrowedRecord cfg input recordStart t.spans with
      _ | ⟨consumed, terminated, spans⟩
    · exact ⟨rfl, h⟩
    · exact ⟨rfl, rfl, rfl, h.expectedFields, h.left, h.right⟩
  · exact (Alike.bind (foldPlainRecordTerminator_replays recordStart true 10)
      fun _ => Alike.pure' true) _ _ ⟨rfl, rfl, h.expectedFields, h.left, h.right⟩

omit hc in
theorem declinePlain_replays : Mirrors cfg input input' c c' declinePlain declinePlain :=
  clearSpans_replays.bind fun _ => Alike.pure' false

theorem plainLoop_replays (recordStart scanEnd : ℕ) :
    ∀ ms fieldStart, Replays cfg input c c' (plainLoop cfg F input recordStart scanEnd fieldStart ms)
  | [], fieldStart => by
    rw [plainLoop]
    split_ifs
    · exact error_replays hc.recordIndex _ _
    · exact declinePlain_replays
    · exact endPlainRecord_replays hc.recordIndex _ _ _ _ _ _
  | (cursor, byte) :: ms, fieldStart => by
    rw [plainLoop]
    simp only
    split_ifs
    · exact (pushSpan_replays hc.recordIndex _ _ _ _ _).bind
        fun _ => plainLoop_replays recordStart scanEnd ms _
    · exact declinePlain_replays
    · exact declinePlain_replays
    · exact endPlainRecord_replays hc.recordIndex _ _ _ _ _ _
    · exact endPlainRecord_replays hc.recordIndex _ _ _ _ _ _
    · exact plainLoop_replays recordStart scanEnd ms _

theorem tryParseBorrowedPlain_replays (recordStart : ℕ) :
    Replays cfg input c c' (tryParseBorrowedPlain cfg F input recordStart) := by
  have hkernel : Replays cfg input c c' (plainKernel cfg F input recordStart) :=
    plainLoop_replays hc _ _ _ _
  unfold tryParseBorrowedPlain
  split_ifs
  · refine (tryParseDefaultCsvBorrowed_replays hc recordStart).bind fun parsed => ?_
    cases parsed
    · exact hkernel
    · exact Alike.pure' true
  · exact hkernel

theorem validateCrlf_replays (recordStart : ℕ) :
    Replays cfg input c c' (validateCrlf input recordStart) := by
  intro s t h
  unfold validateCrlf
  rw [h.location, h.spans]
  simp only
  split
  · exact errorFor_replays hc.recordIndex _ _ _ s t h
  · split_ifs
    all_goals first
      | exact errorFor_replays hc.recordIndex _ _ _ s t h
      | exact ⟨rfl, h⟩

theorem finishPlainRecord_replays (recordStart : ℕ) (header : Bool) :
    Replays cfg input c c' (finishPlainRecord cfg F input recordStart header) := by
  unfold finishPlainRecord
  split_ifs
  · exact (validateCrlf_replays hc recordStart).bind fun _ => markNullSpans_replays header
  · exact markNullSpans_replays header

/-- `parse_record`. -/
theorem parseRecord_replays (recordStart : ℕ) (header : Bool) :
    Replays cfg input c c' (parseRecord cfg F input recordStart header) := by
  unfold parseRecord
  by_cases hcandidate : plainRecordCandidate cfg F input[recordStart]? = true
  · rw [if_pos hcandidate]
    refine (tryParseBorrowedPlain_replays hc recordStart).bind fun plain => ?_
    cases plain
    · exact parseRecordFieldsFor_replays hc recordStart header
    · simp only [if_true]
      split_ifs
      · exact (finishPlainRecord_replays hc recordStart header).bind
          fun _ => countFields_replays hc
      · exact countFields_replays hc
  · rw [if_neg hcandidate]
    exact parseRecordFieldsFor_replays hc recordStart header

omit hc in
theorem trimSpans_replays (header : Bool) : Replays cfg input c c' (trimSpans cfg input header) := by
  unfold trimSpans
  split_ifs
  · exact Alike.modify' fun _ _ h => ⟨h.location, congrArg
      (·.trimAsciiWhere input fun quoted => cfg.trim.applies header quoted) h.spans,
      h.expectedFields, h.left, h.right⟩
  · exact Alike.pure' ()

end kernels

/-! ## The record at the cursor -/

/-- Two engines behind one record. -/
structure Moved (cfg : ParserSettings) (c c' s t : Engine) : Prop where
  location : s.location = t.location
  spans : s.spans = t.spans
  expectedFields : cfg.fieldCount = .matchFirst → s.expectedFields = t.expectedFields
  left : s.frame = { c.frame with recordIndex := c.recordIndex + 1 }
  right : t.frame = { c'.frame with recordIndex := c'.recordIndex + 1 }

/-- What the parse of a record leaves of the first engine. -/
theorem Moved.kept {d d' : Engine} (h : Moved cfg d d' s t) :
    (s.failed = d.failed ∧ s.headersInitialized = d.headersInitialized ∧ s.resume = d.resume ∧
      s.cursorStart = d.cursorStart) ∧
    s.recordIndex = d.recordIndex + 1 ∧ s.lineBase = d.lineBase ∧ s.lineOrigin = d.lineOrigin ∧
      s.ownedParser = d.ownedParser := by
  have hfailed := congrArg Engine.failed h.left
  have hheaders := congrArg Engine.headersInitialized h.left
  have hresume := congrArg Engine.resume h.left
  have hcursor := congrArg Engine.cursorStart h.left
  have hrecord := congrArg Engine.recordIndex h.left
  have hbase := congrArg Engine.lineBase h.left
  have horigin := congrArg Engine.lineOrigin h.left
  have howned := congrArg Engine.ownedParser h.left
  exact ⟨⟨hfailed, hheaders, hresume, hcursor⟩, hrecord, hbase, horigin, howned⟩

/-- A parse that fails poisons both engines. -/
theorem failing_related {α : Type} {R : Engine → Engine → Prop} {line line' : ℕ → ℕ}
    {m m' : Parse α} (h : Related R (Likewise line line') (m s) (m' t)) :
    Related R (Likewise line line') (failing m s) (failing m' t) := by
  unfold failing
  rcases hs : m s with ⟨a, s'⟩ | ⟨fault, s'⟩ <;> rcases ht : m' t with ⟨b, t'⟩ | ⟨fault', t'⟩ <;>
    rw [hs, ht] at h
  · exact h
  · exact h.elim
  · exact h.elim
  · cases h with
    | error kind byte record field => exact .error kind byte record field
    | panic => exact .panic
    | stuck => exact .stuck

/-- **A record is read alike** from two engines at its first byte, but for the
    lines of its errors. -/
theorem parsePositionedRecord_replays (hc : Twins c c') (header : Bool)
    (hlocation : c.location = c'.location)
    (hfields : cfg.fieldCount = .matchFirst → c.expectedFields = c'.expectedFields)
    (hspans : input.length ≤ Span.maxOffset ∨ c.spans.len = c'.spans.len) :
    Related (Moved cfg c c') (Likewise (physicalLine input c.lineBase c.lineOrigin)
        (physicalLine input c'.lineBase c'.lineOrigin))
      (parsePositionedRecord cfg F input header c) (parsePositionedRecord cfg F input header c') := by
  unfold parsePositionedRecord
  by_cases hlong : input.length > Span.maxOffset
  · have hbegin : ∀ e : Engine, beginSpans input e =
        .error (.error .locationOverflow ⟨e.location,
          physicalLine input e.lineBase e.lineOrigin e.location, e.recordIndex, e.spans.len⟩)
          { e with failed := true } := fun e => by
      unfold beginSpans
      rw [if_pos hlong]
      rfl
    rw [bind_error (hbegin c), bind_error (hbegin c'), hlocation, hc.recordIndex,
      hspans.resolve_left (by omega)]
    exact .error .locationOverflow c'.location c'.recordIndex c'.spans.len
  have hbegin : ∀ e : Engine, beginSpans input e = .ok () { e with spans := .empty } := fun e => by
    unfold beginSpans
    rw [if_neg hlong]
  have hsame : Same cfg c c' { c with spans := .empty } { c' with spans := .empty } :=
    ⟨hlocation, rfl, hfields, rfl, rfl⟩
  have hparse : Replays cfg input c c' (parseRecord cfg F input c'.location header) :=
    parseRecord_replays hc c'.location header
  have hr := failing_related (hparse _ _ hsame)
  rw [bind_ok (hbegin c), bind_ok (hbegin c'), get_bind, get_bind]
  simp only [hlocation] at hr ⊢
  rcases hs : failing (parseRecord cfg F input c'.location header)
      { c with location := c'.location, spans := .empty } with ⟨_, s⟩ | ⟨fault, s⟩ <;>
    rcases ht : failing (parseRecord cfg F input c'.location header) { c' with spans := .empty }
      with ⟨_, t⟩ | ⟨fault', t⟩ <;>
    rw [hs, ht] at hr
  · have htrim : Replays cfg input c c' (trimSpans cfg input header) := trimSpans_replays header
    have hr' := htrim s t hr.2
    rw [bind_ok hs, bind_ok ht]
    rcases hs' : trimSpans cfg input header s with ⟨_, s'⟩ | ⟨fault, s'⟩ <;>
      rcases ht' : trimSpans cfg input header t with ⟨_, t'⟩ | ⟨fault', t'⟩ <;>
      rw [hs', ht'] at hr'
    · obtain ⟨-, hsame'⟩ := hr'
      rw [bind_ok hs', bind_ok ht', get_bind, get_bind, set_bind, set_bind]
      refine ⟨?_, hsame'.location, hsame'.spans, hsame'.expectedFields, ?_, ?_⟩
      · rw [hsame'.location, hsame'.recordIndex hc.recordIndex]
      · exact congrArg (fun e : Engine => { e with recordIndex := e.recordIndex + 1 }) hsame'.left
      · exact congrArg (fun e : Engine => { e with recordIndex := e.recordIndex + 1 }) hsame'.right
    · exact hr'.elim
    · exact hr'.elim
    · rw [bind_error hs', bind_error ht']
      exact hr'
  · exact hr.elim
  · exact hr.elim
  · rw [bind_error hs, bind_error ht]
    exact hr

end Engine

end Coseva
