/-
  Coseva — a quoted field at the bounds of its scan
  (`coseva/src/engine/borrowed_parser.rs`, `engine/owned_parser.rs`).

  * `parseOwnedQuotedField`: the quoted field of an owned record;
  * `escapeWalk`: the escape pairs that a scan reads, and where it then stands.
    Behind the scan's end it has read a pair that straddles it;
  * `parseQuotedField_outcome`, `parseOwnedQuotedField_overruns`: what either
    parser makes of the walk;
  * `parseQuotedField_returns`: when the borrowed parser returns, and reports
    what the owned one does.
-/
import Coseva.RecordEnd

namespace Coseva

/-! ## The owned parser -/

/-- The fields of an owned record, and the bytes of the one being appended. -/
structure OwnedFields where
  fields : List Bytes
  pending : Bytes
  deriving DecidableEq, Repr

namespace OwnedFields

def empty : OwnedFields := ⟨[], []⟩

def len (o : OwnedFields) : ℕ := o.fields.length

/-- `append_owned_segment` and `push_byte`. -/
def append (o : OwnedFields) (bytes : Bytes) : OwnedFields := { o with pending := o.pending ++ bytes }

/-- `finish_field`. -/
def finishField (o : OwnedFields) : OwnedFields := ⟨o.fields ++ [o.pending], []⟩

end OwnedFields

/-- The owned parser reads this escape: the others bypass it. -/
def Escape.isOwned (e : Escape) : Bool := !e.escapesUnquoted

namespace Engine

section model

variable (cfg : ParserSettings) (input : Bytes)

/-- The end of an owned record at `location`. -/
def endOwnedRecord (recordStart location field : ℕ) : Parse Bool := do
  setLocation location
  checkRecordLimitFor cfg input recordStart location field
  pure true

/-- `finish_owned_quoted_field`. -/
def finishOwnedQuotedField (fieldCount recordStart afterQuote : ℕ) : Parse Bool :=
  let d := cfg.dialect
  let afterQuote := skipPostQuoteWhitespace input cfg.syntax'.permitsTrailingWhitespace afterQuote
  match input[afterQuote]? with
  | none => endOwnedRecord cfg input recordStart afterQuote fieldCount
  | some next =>
    if next = d.delimiter then do
      setLocation (afterQuote + 1)
      pure false
    else if next = d.recordEnding.byte then
      endOwnedRecord cfg input recordStart (afterQuote + 1) fieldCount
    else if d.recordEnding = .newline ∧ next = 13 ∧ input[afterQuote + 1]? = some 10 then
      endOwnedRecord cfg input recordStart (afterQuote + 2) fieldCount
    else errorFor input (.unexpectedByteAfterQuote next) afterQuote fieldCount

/-- The scan of an owned quoted field finds nothing before its end. -/
def endOwnedScan (recordStart contentStart field : ℕ) : Parse (Bool × OwnedFields) := do
  let scanEnd := scanEnd cfg input recordStart contentStart
  checkScanEndFor cfg input scanEnd recordStart contentStart field
  errorFor input .unterminatedQuotedField scanEnd field

/-- The loop of `parse_owned_quoted_field`. -/
def ownedQuotedLoop (recordStart contentStart : ℕ) :
    (fuel segmentStart cursor : ℕ) → OwnedFields → Parse (Bool × OwnedFields)
  | 0, _, _, _ => throw .stuck
  | fuel + 1, segmentStart, cursor, output =>
    let scanEnd := scanEnd cfg input recordStart contentStart
    if cursor ≥ scanEnd then endOwnedScan cfg input recordStart contentStart output.len
    else if !cfg.dialect.escape.isOwned then panic
    else
      match findQuoted cfg.dialect (slice input cursor scanEnd) with
      | none => endOwnedScan cfg input recordStart contentStart output.len
      | some relative =>
        let pos := cursor + relative
        let output' := output.append (slice input segmentStart pos)
        match quotedStop input cfg.toFormatSettings scanEnd pos with
        | .invalid kind pos => errorFor input kind pos output.len
        | .escaped byte =>
          ownedQuotedLoop recordStart contentStart fuel (pos + 2) (pos + 2) (output'.append [byte])
        | .closing => do
          let output' := output'.finishField
          let recordEnd ← finishOwnedQuotedField cfg input output'.len recordStart (pos + 1)
          pure (recordEnd, output')

/-- `parse_owned_quoted_field`. -/
def parseOwnedQuotedField (recordStart : ℕ) (output : OwnedFields) :
    Parse (Bool × OwnedFields) := do
  let e ← get
  if output.len = cfg.limits.maxFields then
    errorFor input (.tooManyFields cfg.limits.maxFields) e.location output.len
  else
    let contentStart := e.location + 1
    ownedQuotedLoop cfg input recordStart contentStart (input.length + 1) contentStart contentStart
      output

end model

/-! ## The escape pairs of a field -/

/-- The escape pairs that a scan up to `scanEnd` reads from `cursor` on, with
    those read before, and where it then stands. -/
def escapeWalk (o : FormatSettings) (input : Bytes) (scanEnd : ℕ) :
    (fuel pairs cursor : ℕ) → ℕ × ℕ
  | 0, pairs, cursor => (pairs, cursor)
  | fuel + 1, pairs, cursor =>
    if cursor > scanEnd then (pairs, cursor)
    else
      match findQuoted o.dialect (slice input cursor scanEnd) with
      | none => (pairs, cursor)
      | some relative =>
        match quotedStop input o scanEnd (cursor + relative) with
        | .escaped _ => escapeWalk o input scanEnd fuel (pairs + 1) (cursor + relative + 2)
        | _ => (pairs, cursor)

open Run

/-- A fault that is a located error. -/
def Located (fault : Fault) (_ : Engine) : Prop := ∃ kind location, fault = .error kind location

/-- The run returns: with a value, or with a located error. -/
def Returns {α : Type} (r : EStateM.Result Fault Engine α) : Prop :=
  Ends Located (fun _ _ => True) r

/-- The run reports an error of this kind. -/
def Reports {α : Type} (kind : ErrorKind) (r : EStateM.Result Fault Engine α) : Prop :=
  ∃ location s, r = .error (.error kind location) s

theorem Reports.bind {α β : Type} {kind : ErrorKind} {x : Parse α} {f : α → Parse β} {e : Engine}
    (h : Reports kind (x e)) : Reports kind ((x >>= f) e) := by
  obtain ⟨location, s, h⟩ := h
  exact ⟨location, s, bind_error h⟩

theorem Reports.kind_eq {α : Type} {kind kind' : ErrorKind} {r : EStateM.Result Fault Engine α}
    (h : Reports kind r) (h' : Reports kind' r) : kind = kind' := by
  obtain ⟨location, s, rfl⟩ := h
  obtain ⟨location', s', h'⟩ := h'
  cases h'
  rfl

variable {cfg : ParserSettings} {F : CsvFormat} {input : Bytes} {e : Engine}

/-! ## What a scan leaves -/

section returns

theorem errorFor_returns {α : Type} (kind : ErrorKind) (byte field : ℕ) :
    Returns (errorFor (α := α) input kind byte field e) := ⟨_, _, rfl⟩

theorem checkRecordLimitFor_breach {recordStart byte : ℕ}
    (h : byte - recordStart > cfg.limits.maxRecordBytes) (field : ℕ) :
    Reports (.recordTooLarge cfg.limits.maxRecordBytes)
      (checkRecordLimitFor cfg input recordStart byte field e) := by
  unfold checkRecordLimitFor
  rw [if_pos h]
  exact ⟨_, _, rfl⟩

theorem checkRecordLimitFor_within {recordStart byte : ℕ}
    (h : ¬ byte - recordStart > cfg.limits.maxRecordBytes) (field : ℕ) :
    checkRecordLimitFor cfg input recordStart byte field e = .ok () e := by
  unfold checkRecordLimitFor
  rw [if_neg h]
  rfl

theorem checkRecordLimit_returns (recordStart byte : ℕ) :
    Returns (checkRecordLimit cfg input recordStart byte e) := by
  unfold checkRecordLimit checkRecordLimitFor
  split_ifs
  · exact errorFor_returns ..
  · trivial

theorem checkScanEnd_returns (byte recordStart fieldStart : ℕ) :
    Returns (checkScanEnd cfg input byte recordStart fieldStart e) := by
  unfold checkScanEnd checkScanEndFor
  split_ifs
  · exact errorFor_returns ..
  · exact checkRecordLimit_returns recordStart byte

theorem pushSpan_returns (source : Source) (start stop byte : ℕ) (quoted : Bool) :
    Returns (pushSpan cfg input source start stop byte quoted e) := by
  unfold pushSpan
  split
  · trivial
  · exact errorFor_returns ..

theorem Returns.bind {α β : Type} {x : Parse α} {f : α → Parse β} (hx : Returns (x e))
    (hf : ∀ a e', Returns (f a e')) : Returns ((x >>= f) e) :=
  Ends.bind hx fun a e' _ => hf a e'

theorem endQuotedRecord_returns (recordStart location : ℕ) (terminated : Bool) :
    Returns (endQuotedRecord cfg input recordStart location terminated e) :=
  Returns.bind (x := setLocation location) trivial fun _ _ =>
    Returns.bind (x := setTerminated terminated) trivial fun _ _ =>
      Returns.bind (checkRecordLimit_returns ..) fun _ _ => trivial

theorem finishQuotedField_returns (recordStart afterQuote : ℕ) :
    Returns (finishQuotedField cfg F input recordStart afterQuote e) := by
  unfold finishQuotedField
  generalize skipPostQuoteWhitespace input _ afterQuote = pos
  rcases input[pos]? with _ | next
  · exact endQuotedRecord_returns ..
  simp only
  split_ifs
  · exact Returns.bind (x := setLocation _) trivial fun _ _ => trivial
  · exact endQuotedRecord_returns ..
  · exact endQuotedRecord_returns ..
  · exact errorFor_returns ..

theorem closeQuotedField_returns
    (recordStart contentStart scratchStart segmentStart pos : ℕ) (copied : Bool) :
    Returns (closeQuotedField cfg F input recordStart contentStart scratchStart segmentStart pos
      copied e) := by
  unfold closeQuotedField
  cases copied with
  | true =>
    simp only [if_true]
    rw [bind_ok (extendScratch_apply _ _), get_bind]
    exact Returns.bind (pushSpan_returns ..) fun _ _ => finishQuotedField_returns ..
  | false =>
    simp only [Bool.false_eq_true, if_false]
    rw [get_bind]
    exact Returns.bind (pushSpan_returns ..) fun _ _ => finishQuotedField_returns ..

end returns

/-! ## The walk and the scan -/

section walk

variable {recordStart contentStart scratchStart : ℕ}

/-- A walk goes on behind the pairs it was given. -/
theorem le_escapeWalk (o : FormatSettings) (input : Bytes) (scanEnd : ℕ) :
    ∀ fuel pairs cursor, pairs ≤ (escapeWalk o input scanEnd fuel pairs cursor).1
  | 0, _, _ => Nat.le_refl _
  | fuel + 1, pairs, cursor => by
    unfold escapeWalk
    split_ifs
    · exact Nat.le_refl _
    split
    · exact Nat.le_refl _
    split
    · exact Nat.le_of_succ_le (le_escapeWalk o input scanEnd fuel _ _)
    · exact Nat.le_refl _

theorem escapeWalk_behind {o : FormatSettings} {scanEnd cursor : ℕ} (h : scanEnd < cursor)
    (fuel pairs : ℕ) : escapeWalk o input scanEnd fuel pairs cursor = (pairs, cursor) := by
  cases fuel with
  | zero => rfl
  | succ fuel => rw [escapeWalk, if_pos h]

/-- Where a stop inside quotes stands, and what an escape needs behind it. -/
theorem findQuoted_lt {d : Dialect} {cursor scanEnd relative : ℕ}
    (h : findQuoted d (slice input cursor scanEnd) = some relative) :
    cursor + relative < scanEnd := by
  have hlt : relative < (slice input cursor scanEnd).length := by
    unfold findQuoted find1 find2 at h
    split at h <;> exact (List.findIdx?_eq_some_iff_getElem.mp h).1
  unfold slice at hlt
  rw [List.length_drop, List.length_take] at hlt
  omega

theorem quotedStop_escaped_lt {o : FormatSettings} {scanEnd pos : ℕ} {byte : UInt8}
    (h : quotedStop input o scanEnd pos = .escaped byte) : pos + 1 < input.length := by
  rcases hnext : input[pos + 1]? with _ | next
  · unfold quotedStop at h
    rw [hnext] at h
    rcases hescape : o.dialect.escape with _ | escape | _ | escape <;> simp only [hescape] at h
    · simp at h
    · split_ifs at h
    · split_ifs at h
    · split_ifs at h
  · exact (List.getElem?_eq_some_iff.mp hnext).1

/-- A walk that reads no pair stands where it began. -/
theorem escapeWalk_none {o : FormatSettings} {scanEnd fuel pairs cursor : ℕ}
    (h : (escapeWalk o input scanEnd fuel pairs cursor).1 = pairs) :
    (escapeWalk o input scanEnd fuel pairs cursor).2 = cursor := by
  cases fuel with
  | zero => rfl
  | succ fuel =>
    unfold escapeWalk at h ⊢
    split_ifs at h ⊢
    · rfl
    split at h
    · rfl
    split at h
    · have := le_escapeWalk o input scanEnd fuel (pairs + 1) (cursor + ‹ℕ› + 2)
      omega
    · rfl

theorem escapeWalk_le {o : FormatSettings} {scanEnd : ℕ} :
    ∀ {fuel pairs cursor : ℕ}, cursor ≤ input.length →
      (escapeWalk o input scanEnd fuel pairs cursor).2 ≤ input.length
  | 0, _, _, h => h
  | fuel + 1, pairs, cursor, h => by
    unfold escapeWalk
    split_ifs
    · exact h
    split
    · exact h
    split
    · rename_i hstop
      exact escapeWalk_le (quotedStop_escaped_lt hstop)
    · exact h

/-- What the borrowed parser makes of a walk. -/
def Outcome (cfg : ParserSettings) (input : Bytes) (recordStart contentStart : ℕ)
    (walk : ℕ × ℕ) (r : EStateM.Result Fault Engine Bool) : Prop :=
  let scanEnd := scanEnd cfg input recordStart contentStart
  if walk.2 ≤ scanEnd then Returns r
  else if scanEnd = contentStart + (cfg.limits.maxFieldBytes + 1) ∧ walk.1 = 1 then
    Reports (.fieldTooLarge cfg.limits.maxFieldBytes) r
  else if scanEnd - recordStart > cfg.limits.maxRecordBytes then
    Reports (.recordTooLarge cfg.limits.maxRecordBytes) r
  else ∃ s, r = .error .panic s

/-- The scan at `cursor`, behind `pairs` escape pairs. -/
structure Scans (cfg : ParserSettings) (input : Bytes) (recordStart contentStart scratchStart : ℕ)
    (pairs cursor : ℕ) (copied : Bool) (e : Engine) : Prop where
  le : contentStart + 2 * pairs ≤ cursor
  le_length : cursor ≤ input.length
  copied_iff : copied = decide (0 < pairs)
  /-- what was decoded is a byte shorter for each pair -/
  scratch : e.spans.scratch.length + pairs =
    scratchStart + if 0 < pairs then cursor - contentStart else 0
  /-- the first pair of a field cannot straddle the field bound -/
  behind : scanEnd cfg input recordStart contentStart < cursor →
    scanEnd cfg input recordStart contentStart = contentStart + (cfg.limits.maxFieldBytes + 1) →
    2 ≤ pairs

theorem quotedLoop_outcome (fuel : ℕ) : ∀ (pairs cursor : ℕ) (copied : Bool) (e : Engine),
    Scans cfg input recordStart contentStart scratchStart pairs cursor copied e →
    input.length < fuel + cursor →
    Outcome cfg input recordStart contentStart
      (escapeWalk (cfg.fmt F) input (scanEnd cfg input recordStart contentStart) fuel pairs cursor)
      (quotedLoop cfg F input recordStart contentStart scratchStart fuel cursor cursor copied e) := by
  induction fuel with
  | zero => intro pairs cursor copied e h hfuel; have := h.le_length; omega
  | succ fuel ih =>
    intro pairs cursor copied e h hfuel
    have hbound : scanEnd cfg input recordStart contentStart ≤
        contentStart + (cfg.limits.maxFieldBytes + 1) := by unfold scanEnd; omega
    rw [escapeWalk, quotedLoop]
    simp only
    generalize hscan : scanEnd cfg input recordStart contentStart = stop at hbound
    have hle := h.le
    have hlength := h.le_length
    by_cases hcursor : cursor > stop
    · -- the scan has passed its end: only the record bound is looked at
      have hpairs := h.behind
      rw [hscan] at hpairs
      rw [if_pos hcursor, if_pos hcursor, Outcome]
      simp only [hscan]
      rw [if_neg (by omega), if_neg (by rintro ⟨hfield, hone⟩; have := hpairs hcursor hfield; omega)]
      split_ifs with hrecord
      · exact Reports.bind (checkRecordLimitFor_breach hrecord e.spans.len)
      · exact ⟨e, bind_ok (checkRecordLimitFor_within hrecord e.spans.len)⟩
    rw [if_neg hcursor, if_neg hcursor]
    have hreturns : ∀ {r}, Returns r → Outcome cfg input recordStart contentStart (pairs, cursor) r := by
      intro r hr
      rw [Outcome]
      simp only [hscan]
      rw [if_pos (by omega)]
      exact hr
    rcases hfound : findQuoted (cfg.fmt F).dialect (slice input cursor stop) with _ | relative
    · exact hreturns (Returns.bind (checkScanEnd_returns ..) fun _ _ => errorFor_returns ..)
    have hpos := findQuoted_lt hfound
    simp only
    rcases hstop : quotedStop input (cfg.fmt F) stop (cursor + relative) with byte | _ | ⟨kind, pos⟩
    swap
    · exact hreturns (closeQuotedField_returns ..)
    swap
    · exact hreturns (errorFor_returns ..)
    -- an escape pair: what is decoded so far decides
    have hnext := quotedStop_escaped_lt hstop
    simp only
    obtain ⟨e', hcopy, hscratch⟩ : ∃ e', (copySegment input copied contentStart cursor
        (cursor + relative) e = .ok () e') ∧ (e'.spans.extendScratch [byte]).scratch.length
          + (pairs + 1) = scratchStart + (cursor + relative + 2 - contentStart) := by
      refine ⟨_, extendScratch_apply _ _, ?_⟩
      have hold := h.scratch
      have hcopied := h.copied_iff
      simp only [parsed_spans, SpanStorage.extendScratch, List.length_append, slice,
        List.length_drop, List.length_take, List.length_singleton]
      rcases Nat.eq_zero_or_pos pairs with rfl | hpairs
      · rw [if_neg (Nat.lt_irrefl 0)] at hold
        rw [hcopied, decide_eq_false (Nat.lt_irrefl 0), if_neg Bool.false_ne_true, List.length_drop,
          List.length_take]
        omega
      · rw [if_pos hpairs] at hold
        rw [hcopied, decide_eq_true hpairs, if_pos rfl, List.length_nil]
        omega
    rw [bind_ok hcopy, bind_ok (extendScratch_apply _ _)]
    by_cases hlimit : (e'.spans.extendScratch [byte]).scratch.length - scratchStart >
        cfg.limits.maxFieldBytes
    · -- only the first pair, at the last byte that the field bound admits, decodes too much
      have hzero : pairs = 0 := by omega
      have hfield : stop = contentStart + (cfg.limits.maxFieldBytes + 1) := by omega
      rw [escapeWalk_behind (by omega), Outcome]
      simp only [hscan]
      rw [if_neg (by omega), if_pos ⟨hfield, by omega⟩]
      refine Reports.bind ?_
      unfold checkScratchLimit
      rw [parsed_spans, if_pos hlimit]
      exact ⟨_, _, rfl⟩
    · have hok : checkScratchLimit cfg input scratchStart (cursor + relative)
          (e'.parsed e'.location (e'.spans.extendScratch [byte]) e'.terminated) =
          .ok () (e'.parsed e'.location (e'.spans.extendScratch [byte]) e'.terminated) := by
        unfold checkScratchLimit
        rw [parsed_spans, if_neg hlimit]
      rw [bind_ok hok, ← hscan]
      refine ih (pairs + 1) (cursor + relative + 2) true _ ⟨?_, ?_, ?_, ?_, ?_⟩ ?_
      · omega
      · omega
      · exact (decide_eq_true (Nat.succ_pos pairs)).symm
      · rw [parsed_spans, if_pos (Nat.succ_pos pairs), hscratch]
      · intro _ hfield
        omega
      · omega

/-- The walk reads the dialect and the syntax only. -/
theorem escapeWalk_congr {o o' : FormatSettings} (hdialect : o.dialect = o'.dialect)
    (hrules : o.syntax' = o'.syntax') (scanEnd : ℕ) : ∀ fuel pairs cursor,
      escapeWalk o input scanEnd fuel pairs cursor = escapeWalk o' input scanEnd fuel pairs cursor
  | 0, _, _ => rfl
  | fuel + 1, pairs, cursor => by
    have hstop : ∀ pos, quotedStop input o scanEnd pos = quotedStop input o' scanEnd pos := by
      intro pos
      unfold quotedStop
      rw [hdialect, hrules]
    unfold escapeWalk
    simp only [hdialect, hstop, escapeWalk_congr hdialect hrules scanEnd fuel]

/-- The limit that ends a scan before the input does. -/
def overrunKind (cfg : ParserSettings) (input : Bytes) (recordStart contentStart : ℕ) : ErrorKind :=
  if scanEnd cfg input recordStart contentStart = contentStart + (cfg.limits.maxFieldBytes + 1) then
    .fieldTooLarge cfg.limits.maxFieldBytes
  else .recordTooLarge cfg.limits.maxRecordBytes

theorem endOwnedScan_overruns (field : ℕ) (hle : recordStart ≤ contentStart)
    (hscan : scanEnd cfg input recordStart contentStart < input.length) :
    Reports (overrunKind cfg input recordStart contentStart)
      (endOwnedScan cfg input recordStart contentStart field e) := by
  refine Reports.bind ?_
  unfold checkScanEndFor overrunKind
  have hmin : scanEnd cfg input recordStart contentStart = min (recordStart +
      (cfg.limits.maxRecordBytes + 1)) (contentStart + (cfg.limits.maxFieldBytes + 1)) := by
    unfold scanEnd at hscan ⊢
    omega
  by_cases hfield : scanEnd cfg input recordStart contentStart =
      contentStart + (cfg.limits.maxFieldBytes + 1)
  · rw [if_pos hfield, if_pos (by omega)]
    exact ⟨_, _, rfl⟩
  · rw [if_neg hfield, if_neg (by omega)]
    exact checkRecordLimitFor_breach (by omega) field

theorem ownedQuotedLoop_overruns (howned : cfg.dialect.escape.isOwned = true)
    (hle : recordStart ≤ contentStart) (fuel : ℕ) :
    ∀ (pairs segmentStart cursor : ℕ) (output : OwnedFields) (e : Engine),
      cursor ≤ input.length → input.length < fuel + cursor →
      scanEnd cfg input recordStart contentStart <
        (escapeWalk cfg.toFormatSettings input (scanEnd cfg input recordStart contentStart) fuel
          pairs cursor).2 →
      Reports (overrunKind cfg input recordStart contentStart)
        (ownedQuotedLoop cfg input recordStart contentStart fuel segmentStart cursor output e) := by
  induction fuel with
  | zero => intro _ _ cursor _ _ h h'; omega
  | succ fuel ih =>
    intro pairs segmentStart cursor output e hlength hfuel hwalk
    rw [escapeWalk] at hwalk
    rw [ownedQuotedLoop]
    simp only at hwalk ⊢
    by_cases hcursor : cursor > scanEnd cfg input recordStart contentStart
    · rw [if_pos (Nat.le_of_lt hcursor)]
      exact endOwnedScan_overruns output.len hle (by omega)
    rw [if_neg hcursor] at hwalk
    rcases hfound : findQuoted cfg.dialect (slice input cursor (scanEnd cfg input recordStart
        contentStart)) with _ | relative
    · rw [hfound] at hwalk
      exact absurd hwalk hcursor
    have hpos := findQuoted_lt hfound
    rw [hfound] at hwalk
    rw [if_neg (by omega), howned]
    simp only [Bool.not_true, Bool.false_eq_true, if_false] at hwalk ⊢
    rcases hstop : quotedStop input cfg.toFormatSettings (scanEnd cfg input recordStart contentStart)
        (cursor + relative) with byte | _ | ⟨kind, pos⟩
    swap
    · rw [hstop] at hwalk
      exact absurd hwalk hcursor
    swap
    · rw [hstop] at hwalk
      exact absurd hwalk hcursor
    rw [hstop] at hwalk
    have hnext := quotedStop_escaped_lt hstop
    exact ih (pairs + 1) _ (cursor + relative + 2) _ e (by omega) (by omega) hwalk

end walk

/-! ## The quoted field -/

section field

variable (cfg : ParserSettings) (F : CsvFormat) (input : Bytes) (recordStart : ℕ)

/-- The escape pairs that the scan of the field at `location` reads, and where
    it then stands. -/
def fieldWalk (location : ℕ) : ℕ × ℕ :=
  escapeWalk (cfg.fmt F) input (scanEnd cfg input recordStart (location + 1)) (input.length + 1) 0
    (location + 1)

/-- The cursor of the scan passes its end. -/
def overruns (location : ℕ) : Prop :=
  scanEnd cfg input recordStart (location + 1) < (fieldWalk cfg F input recordStart location).2

instance (location : ℕ) : Decidable (overruns cfg F input recordStart location) :=
  inferInstanceAs (Decidable (_ < _))

/-- The parser returns, and where its cursor passes the end of the scan it
    reports a limit: the one the owned parser reports, in the dialects that one
    reads. -/
structure QuotedReturns (e : Engine) : Prop where
  returns : Returns (parseQuotedField cfg F input recordStart e)
  overrun : overruns cfg F input recordStart e.location →
    ∃ kind, (kind = .fieldTooLarge cfg.limits.maxFieldBytes ∨
        kind = .recordTooLarge cfg.limits.maxRecordBytes) ∧
      Reports kind (parseQuotedField cfg F input recordStart e) ∧
      (cfg.dialect.escape.isOwned = true → ∀ output : OwnedFields, output.len = e.spans.len →
        Reports kind (parseOwnedQuotedField cfg input recordStart output e))

/-- An escape pair that is not the first of its field straddles the field bound,
    or any pair the scan's end in a field behind the last that is allowed. -/
def Straddles (e : Engine) : Prop :=
  let stop := scanEnd cfg input recordStart (e.location + 1)
  overruns cfg F input recordStart e.location ∧
    (2 ≤ (fieldWalk cfg F input recordStart e.location).1 ∧
        stop = e.location + 1 + (cfg.limits.maxFieldBytes + 1) ∧
        (stop < recordStart + (cfg.limits.maxRecordBytes + 1) ∨
          cfg.dialect.escape.isOwned = true) ∨
      cfg.dialect.escape.isOwned = true ∧ e.spans.len = cfg.limits.maxFields)

instance (e : Engine) : Decidable (Straddles cfg F input recordStart e) :=
  inferInstanceAs (Decidable (_ ∧ _))

end field

variable {recordStart : ℕ}

theorem parseQuotedField_outcome (hlt : e.location < input.length) :
    Outcome cfg input recordStart (e.location + 1) (fieldWalk cfg F input recordStart e.location)
      (parseQuotedField cfg F input recordStart e) := by
  refine quotedLoop_outcome (input.length + 1) 0 (e.location + 1) false e ⟨?_, hlt, rfl, rfl, ?_⟩
    (by omega)
  · exact Nat.le_refl _
  · intro h hfield
    omega

theorem parseOwnedQuotedField_overruns (hF : cfg.Follows F) (hlt : e.location < input.length)
    (hle : recordStart ≤ e.location) (howned : cfg.dialect.escape.isOwned = true)
    (hover : overruns cfg F input recordStart e.location) (output : OwnedFields)
    (hfields : output.len ≠ cfg.limits.maxFields) :
    Reports (overrunKind cfg input recordStart (e.location + 1))
      (parseOwnedQuotedField cfg input recordStart output e) := by
  unfold parseOwnedQuotedField
  rw [get_bind, if_neg hfields]
  unfold overruns fieldWalk at hover
  rw [escapeWalk_congr hF.dialect hF.syntax'] at hover
  exact ownedQuotedLoop_overruns howned (Nat.le_succ_of_le hle) _ 0 _ _ output e hlt (by omega) hover

theorem parseOwnedQuotedField_full (output : OwnedFields)
    (hfields : output.len = cfg.limits.maxFields) :
    Reports (.tooManyFields cfg.limits.maxFields)
      (parseOwnedQuotedField cfg input recordStart output e) := by
  unfold parseOwnedQuotedField
  rw [get_bind, if_pos hfields]
  exact ⟨_, _, rfl⟩

/-- **The scan of a quoted field returns**, and reports the limit that ends it,
    as the owned parser does, unless an escape pair straddles the field bound
    behind another one, or the scan's end in a field too many. -/
theorem parseQuotedField_returns (hF : cfg.Follows F) (hle : recordStart ≤ e.location)
    (hquote : input[e.location]? = some cfg.dialect.quote) :
    QuotedReturns cfg F input recordStart e ↔ ¬ Straddles cfg F input recordStart e := by
  have hlt : e.location < input.length := (List.getElem?_eq_some_iff.mp hquote).1
  have houtcome := @parseQuotedField_outcome cfg F input e recordStart hlt
  have hlength : (fieldWalk cfg F input recordStart e.location).2 ≤ input.length :=
    escapeWalk_le hlt
  have hnone : (fieldWalk cfg F input recordStart e.location).1 = 0 →
      (fieldWalk cfg F input recordStart e.location).2 = e.location + 1 := escapeWalk_none
  unfold Outcome at houtcome
  simp only at houtcome
  constructor
  · rintro ⟨hreturns, hoverrun⟩ ⟨hover, hstraddle⟩
    obtain ⟨kind, hkind, hreports, howned⟩ := hoverrun hover
    obtain ⟨output, houtput⟩ : ∃ output : OwnedFields, output.len = e.spans.len :=
      ⟨⟨.replicate e.spans.len [], []⟩, List.length_replicate⟩
    have hfull : cfg.dialect.escape.isOwned = true → e.spans.len ≠ cfg.limits.maxFields := by
      intro hisOwned hfull
      have := (howned hisOwned output houtput).kind_eq
        (parseOwnedQuotedField_full output (houtput.trans hfull))
      rcases hkind with rfl | rfl <;> cases this
    rcases hstraddle with ⟨hpairs, hfield, hbound⟩ | ⟨hisOwned, hlen⟩
    · rw [if_neg (Nat.not_le_of_lt hover), if_neg (by omega)] at houtcome
      split_ifs at houtcome with hrecord
      · -- both bounds at once: the borrowed parser reports the record's, the owned one the field's
        have hisOwned : cfg.dialect.escape.isOwned = true := hbound.resolve_left (by omega)
        obtain rfl := hreports.kind_eq houtcome
        have := (howned hisOwned output houtput).kind_eq (parseOwnedQuotedField_overruns hF hlt hle
          hisOwned hover output (houtput.symm ▸ hfull hisOwned))
        rw [overrunKind, if_pos hfield] at this
        cases this
      · obtain ⟨s, hpanic⟩ := houtcome
        rw [hpanic] at hreturns
        obtain ⟨kind, location, hfault⟩ := hreturns
        cases hfault
    · exact hfull hisOwned hlen
  · intro hstraddle
    by_cases hover : overruns cfg F input recordStart e.location
    swap
    · rw [if_pos (Nat.le_of_not_lt hover)] at houtcome
      exact ⟨houtcome, fun h => absurd h hover⟩
    have hstop : scanEnd cfg input recordStart (e.location + 1) <
        (fieldWalk cfg F input recordStart e.location).2 := hover
    have hmin : scanEnd cfg input recordStart (e.location + 1) = min (recordStart +
        (cfg.limits.maxRecordBytes + 1)) (e.location + 1 + (cfg.limits.maxFieldBytes + 1)) := by
      unfold scanEnd at hstop ⊢
      omega
    have hone : scanEnd cfg input recordStart (e.location + 1) =
        e.location + 1 + (cfg.limits.maxFieldBytes + 1) →
        (fieldWalk cfg F input recordStart e.location).1 ≠ 1 →
        2 ≤ (fieldWalk cfg F input recordStart e.location).1 := by
      intro hfield hpairs
      by_contra hless
      have := hnone (by omega)
      omega
    rw [if_neg (Nat.not_le_of_lt hstop)] at houtcome
    -- the kind both parsers report
    have hreport : Reports (overrunKind cfg input recordStart (e.location + 1))
        (parseQuotedField cfg F input recordStart e) ∨
        cfg.dialect.escape.isOwned = false ∧ Reports (.recordTooLarge cfg.limits.maxRecordBytes)
          (parseQuotedField cfg F input recordStart e) := by
      unfold overrunKind
      split_ifs at houtcome with hfirst hrecord
      · rw [if_pos hfirst.1]
        exact Or.inl houtcome
      · split_ifs with hfield
        · refine Or.inr ⟨?_, houtcome⟩
          by_contra hisOwned
          exact hstraddle ⟨hover, Or.inl ⟨hone hfield fun h => hfirst ⟨hfield, h⟩, hfield,
            Or.inr (by simpa using hisOwned)⟩⟩
        · exact Or.inl houtcome
      · have hfield : scanEnd cfg input recordStart (e.location + 1) =
          e.location + 1 + (cfg.limits.maxFieldBytes + 1) := by omega
        exact absurd ⟨hover, Or.inl ⟨hone hfield fun h => hfirst ⟨hfield, h⟩, hfield,
          Or.inl (by omega)⟩⟩ hstraddle
    rcases hreport with hreport | ⟨hisOwned, hreport⟩
    · refine ⟨?_, fun _ => ⟨_, ?_, hreport, fun hisOwned output houtput => ?_⟩⟩
      · obtain ⟨location, s, hrun⟩ := hreport
        rw [hrun]
        exact ⟨_, location, rfl⟩
      · unfold overrunKind
        split_ifs
        · exact Or.inl rfl
        · exact Or.inr rfl
      · exact parseOwnedQuotedField_overruns hF hlt hle hisOwned hover output fun hfull =>
          hstraddle ⟨hover, Or.inr ⟨hisOwned, houtput.symm.trans hfull⟩⟩
    · refine ⟨?_, fun _ => ⟨_, Or.inr rfl, hreport, fun h => ?_⟩⟩
      · obtain ⟨location, s, hrun⟩ := hreport
        rw [hrun]
        exact ⟨_, location, rfl⟩
      · rw [hisOwned] at h
        cases h

/-- CSV fields of at most four bytes. -/
def fourBytes : ParserSettings where
  dialect := .csv
  limits := ⟨100, 4, 100⟩
  fieldCount := .flexible
  headers := .none
  host := ⟨true, true, true⟩

/-- The first escape pair of `"aaaa""b"` straddles the field bound, and both
    parsers report the field. -/
theorem parseQuotedField_returns_first :
    QuotedReturns fourBytes none [34, 97, 97, 97, 97, 34, 34, 98, 34] 0
      (.fromConfig fourBytes [34, 97, 97, 97, 97, 34, 34, 98, 34]) :=
  (parseQuotedField_returns fourBytes.follows_none (by decide) (by decide)).mpr (by decide)

/-- The field `"aa"`, written `"""aa"""`, has four bytes, and its second escape
    pair straddles the field bound: the parser panics. -/
theorem parseQuotedField_straddles :
    ¬ QuotedReturns fourBytes none [34, 34, 34, 97, 97, 34, 34, 34] 0
      (.fromConfig fourBytes [34, 34, 34, 97, 97, 34, 34, 34]) := by
  rintro ⟨hreturns, -⟩
  have hpanic : ∃ s, parseQuotedField fourBytes none [34, 34, 34, 97, 97, 34, 34, 34] 0
      (.fromConfig fourBytes [34, 34, 34, 97, 97, 34, 34, 34]) = .error .panic s := ⟨_, rfl⟩
  obtain ⟨s, hrun⟩ := hpanic
  rw [hrun] at hreturns
  obtain ⟨kind, location, hfault⟩ := hreturns
  cases hfault

end Engine

end Coseva
