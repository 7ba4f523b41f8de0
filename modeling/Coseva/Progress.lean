/-
  Coseva — every read moves forward: whatever the dialect and the limits, a
  record that is read lies behind the cursor, holds a byte and ends within the
  document.

  * `Forward`: the cursor behind a position;
  * `parsePositionedRecord_moves`: the record at the cursor;
  * `skipIgnoredRecords_skipped`: comments and blank lines;
  * `nextRecord_moves`: the next record of a parser that has not failed.
-/
import Coseva.KernelAgree
import Coseva.QuotedBound
import Coseva.Seek

namespace Coseva

/-- A tail that is confirmed lies within the document. -/
theorem Tail.width_le {t : Tail} {input : Bytes} {pos : ℕ} (hu : t.unusable = false)
    (hpos : pos < input.length) (h : t.confirms (input.drop (pos + 1)) = true) :
    0 < t.width ∧ pos + t.width ≤ input.length := by
  have hlength := (List.isPrefixOf_iff_prefix.mp h).length_le
  rw [List.length_drop] at hlength
  rw [Engine.Tail.width_eq hu]
  omega

namespace Engine

open Run

/-- The cursor has moved from `pos` within the document, past a byte if there is
    one. -/
structure Forward (input : Bytes) (pos : ℕ) (e : Engine) : Prop where
  le : pos ≤ e.location
  inside : e.location ≤ input.length
  lt : pos < input.length → pos < e.location

variable {cfg : ParserSettings} {F : CsvFormat} {input : Bytes} {e : Engine} {α : Type}

/-- A run that succeeds moves the cursor from `pos`. -/
abbrev Moves (input : Bytes) (pos : ℕ) (r : EStateM.Result Fault Engine α) : Prop :=
  Ends (fun _ _ => True) (fun _ e' => Forward input pos e') r

/-- A run that succeeds leaves the cursor at `pos`. -/
abbrev Stays (pos : ℕ) (r : EStateM.Result Fault Engine α) : Prop :=
  Ends (fun _ _ => True) (fun _ e' => e'.location = pos) r

theorem Forward.of_le {p q : ℕ} (hpq : p ≤ q) (h : Forward input q e) : Forward input p e := by
  have h1 := h.le
  have h2 := h.lt
  have h3 := h.inside
  exact ⟨by omega, h3, fun hp => by omega⟩

/-! ## What leaves the cursor where it is -/

theorem checkRecordLimitFor_stays (recordStart byte field : ℕ) :
    Stays e.location (checkRecordLimitFor cfg input recordStart byte field e) := by
  unfold checkRecordLimitFor
  split_ifs
  · trivial
  · exact rfl

theorem checkRecordLimit_stays (recordStart byte : ℕ) :
    Stays e.location (checkRecordLimit cfg input recordStart byte e) :=
  checkRecordLimitFor_stays recordStart byte _

theorem checkScratchLimit_stays (scratchStart byte : ℕ) :
    Stays e.location (checkScratchLimit cfg input scratchStart byte e) := by
  unfold checkScratchLimit
  split_ifs
  · trivial
  · exact rfl

/-- A scan that passes its check has reached the end of the document. -/
theorem checkScanEnd_stays (recordStart fieldStart : ℕ) :
    Ends (fun _ _ => True)
      (fun _ e' => e'.location = e.location ∧ scanEnd cfg input recordStart fieldStart = input.length)
      (checkScanEnd cfg input (scanEnd cfg input recordStart fieldStart) recordStart fieldStart
        e) := by
  unfold checkScanEnd checkScanEndFor
  split_ifs with h
  · trivial
  unfold checkRecordLimitFor
  split_ifs with h'
  · trivial
  · refine ⟨rfl, ?_⟩
    unfold scanEnd at h h' ⊢
    omega

theorem pushSpan_stays (source : Source) (i j byte : ℕ) (quoted : Bool) :
    Stays e.location (pushSpan cfg input source i j byte quoted e) := by
  unfold pushSpan
  split
  · exact rfl
  · trivial

theorem pushNullSpan_stays (byte : ℕ) : Stays e.location (pushNullSpan cfg input byte e) := by
  unfold pushNullSpan
  split_ifs
  · trivial
  · exact rfl

theorem Stays.bind {β : Type} {pos : ℕ} {P : β → Engine → Prop} {x : Parse α} {f : α → Parse β}
    (hx : Stays pos (x e)) (hf : ∀ a e', e'.location = pos → Ends (fun _ _ => True) P (f a e')) :
    Ends (fun _ _ => True) P ((x >>= f) e) := Ends.bind hx hf

theorem pushUnescapedSpan_stays (escape : UInt8) (fieldStart fieldEnd pos : ℕ) :
    Stays e.location (pushUnescapedSpan cfg input escape fieldStart fieldEnd pos e) := by
  unfold pushUnescapedSpan extendScratch
  rw [get_bind, modify_bind]
  refine Stays.bind (checkScratchLimit_stays _ pos) fun _ e' he' => ?_
  rw [← show e'.location = e.location from he']
  exact pushSpan_stays _ _ _ pos false

theorem pushGeneralUnquotedSpan_stays (fieldStart fieldEnd pos : ℕ) (header : Bool) :
    Stays e.location (pushGeneralUnquotedSpan cfg input fieldStart fieldEnd pos header e) := by
  unfold pushGeneralUnquotedSpan
  rcases cfg.dialect.escape.unquotedByte with _ | escape <;> simp only <;> split_ifs
  · exact pushNullSpan_stays fieldStart
  · exact pushSpan_stays _ _ _ pos false
  · exact pushNullSpan_stays fieldStart
  · exact pushUnescapedSpan_stays escape fieldStart fieldEnd pos
  · exact pushSpan_stays _ _ _ pos false

theorem noteTerminatedIf_stays (terminated : Bool) :
    Stays e.location (noteTerminatedIf terminated e) := by
  unfold noteTerminatedIf
  split_ifs <;> exact rfl

theorem foldPlainRecord_stays (recordStart : ℕ) (terminated : Bool) :
    Stays e.location (foldPlainRecord cfg F recordStart terminated e) := by
  show (if _ then e else _ : Engine).location = e.location
  split_ifs <;> rfl

theorem validateFieldCount_stays (actual : ℕ) :
    Stays e.location (validateFieldCount cfg input actual e) := by
  have hcheck : ∀ expected : ℕ, Stays e.location ((if actual = expected then pure () else
      error input (.fieldCountMismatch expected actual) e.location : Parse Unit) e) := by
    intro expected
    split_ifs
    · exact rfl
    · trivial
  unfold validateFieldCount
  rw [get_bind]
  rcases cfg.fieldCount with _ | _ | expected
  · exact rfl
  · rcases e.expectedFields with _ | expected
    · exact rfl
    · exact hcheck expected
  · exact hcheck expected

theorem validateCrlf_stays (recordStart : ℕ) : Stays e.location (validateCrlf input recordStart e) := by
  unfold validateCrlf
  simp only
  split
  · trivial
  · exact Ends.ite trivial rfl

theorem markNullSpans_stays (header : Bool) :
    Stays e.location (markNullSpans cfg F input header e) := by
  obtain ⟨s, hmark⟩ := markNullSpans_location cfg F input header e
  rw [hmark]
  exact rfl

theorem finishPlainRecord_stays (recordStart : ℕ) (header : Bool) :
    Stays e.location (finishPlainRecord cfg F input recordStart header e) := by
  unfold finishPlainRecord
  split_ifs
  · refine Stays.bind (validateCrlf_stays recordStart) fun _ e' he' => ?_
    rw [← show e'.location = e.location from he']
    exact markNullSpans_stays header
  · exact markNullSpans_stays header

/-! ## Fields -/

section fields

variable (hs : cfg.dialect.Sound) (hF : cfg.Follows F)

theorem setLocation_moves {pos location : ℕ} {x : Parse α}
    (hx : ∀ e : Engine, e.location = location → Stays location (x e)) (hle : pos ≤ location)
    (hinside : location ≤ input.length) (hlt : pos < input.length → pos < location) :
    Moves input pos ((do setLocation location; x : Parse α) e) := by
  unfold setLocation
  rw [modify_bind]
  exact (hx { e with location } rfl).mono (fun _ _ h => h)
    fun _ e' he' => ⟨he' ▸ hle, he' ▸ hinside, fun h => he' ▸ hlt h⟩

theorem skipSpaces_moves (recordStart field : ℕ) :
    ∀ (fuel : ℕ) (e : Engine), e.location ≤ input.length →
      Ends (fun _ _ => True) (fun _ e' => e.location ≤ e'.location ∧ e'.location ≤ input.length)
        (skipSpaces cfg input recordStart field fuel e)
  | 0, _, _ => trivial
  | fuel + 1, e, hin => by
    rw [skipSpaces, get_bind]
    split_ifs with hb
    · have hlt := (List.getElem?_eq_some_iff.mp hb).1
      rw [set_bind]
      refine Stays.bind (checkRecordLimitFor_stays recordStart (e.location + 1) field) ?_
      intro _ e' he'
      have hat : e'.location = e.location + 1 := he'
      refine (skipSpaces_moves recordStart field fuel e' (by omega)).mono (fun _ _ h => h) ?_
      rintro _ e'' ⟨hle, hin'⟩
      exact ⟨by omega, hin'⟩
    · exact ⟨Nat.le_refl _, hin⟩

theorem skipDelimiterSpaces_moves (recordStart : ℕ) (hin : e.location ≤ input.length) :
    Ends (fun _ _ => True) (fun _ e' => e.location ≤ e'.location ∧ e'.location ≤ input.length)
      (skipDelimiterSpaces cfg input F recordStart e) := by
  unfold skipDelimiterSpaces
  rw [get_bind]
  split_ifs
  · exact ⟨Nat.le_refl _, hin⟩
  · exact skipSpaces_moves recordStart _ _ e hin

/-- The end of the scanned window ends the field. -/
theorem endWindow_moves {push : Parse Unit} (recordStart fieldStart pos : ℕ)
    (hpos : pos ≤ input.length) (hpush : ∀ e : Engine, Stays e.location (push e)) (e : Engine) :
    Moves input pos ((do
      checkScanEnd cfg input (scanEnd cfg input recordStart fieldStart) recordStart fieldStart
      push
      setLocation (scanEnd cfg input recordStart fieldStart)
      setTerminated false
      pure true : Parse Bool) e) := by
  refine Ends.bind (checkScanEnd_stays recordStart fieldStart) ?_
  rintro _ e' ⟨-, hlength⟩
  refine Ends.bind (hpush e') fun _ e'' _ => ?_
  rw [hlength]
  exact ⟨hpos, Nat.le_refl _, fun h => h⟩

theorem parseUnquotedFieldRuntime_moves (recordStart : ℕ) (hin : e.location ≤ input.length) :
    Moves input e.location (parseUnquotedFieldRuntime cfg F input recordStart e) := by
  unfold parseUnquotedFieldRuntime
  rw [get_bind]
  simp only
  by_cases hpanic : e.location > scanEnd cfg input recordStart e.location
  · rw [if_pos hpanic]
    trivial
  rw [if_neg hpanic]
  have hle := scanEnd_le cfg input recordStart e.location
  generalize hspecial : (if ((cfg.fmt F).syntax'.quotingEnabled &&
    !(cfg.fmt F).syntax'.permitsUnquotedQuotes) = true then _ else _ : Option ℕ) = special
  have hwithin : ∀ relative, special = some relative →
      e.location + relative < scanEnd cfg input recordStart e.location := by
    intro relative hrelative
    rw [hrelative] at hspecial
    split_ifs at hspecial <;>
      obtain ⟨-, -, -, -, -, -, -, hlt⟩ := Window.of_window_some hspecial <;> exact hlt
  rcases special with _ | relative
  · exact endWindow_moves recordStart e.location e.location hin
      (fun e' => pushSpan_stays _ _ _ _ _) e
  have hlt := hwithin relative rfl
  simp only
  by_cases hquote : byteAt input (e.location + relative) = (cfg.fmt F).dialect.quote
  · rw [if_pos hquote]
    trivial
  rw [if_neg hquote]
  refine Stays.bind (pushSpan_stays _ _ _ _ _) fun _ e' _ => ?_
  refine setLocation_moves (fun e'' he'' => ?_) (by omega) (by omega) (fun _ => by omega)
  refine Stays.bind (noteTerminatedIf_stays _) fun _ e₁ he₁ => ?_
  refine Stays.bind (checkRecordLimit_stays _ _) fun _ e₂ he₂ => ?_
  exact he₂.trans (he₁.trans he'')

/-- Where a stop byte of an unquoted field leads: behind it. -/
def StopAhead (input : Bytes) (pos : ℕ) : UnquotedStop → Prop
  | .resume cursor => pos < cursor
  | .invalid _ => True
  | .ends _ location _ => pos < location ∧ location ≤ input.length

include hs in
theorem unquotedStop_ahead (fieldStart : ℕ) {pos : ℕ} (hpos : pos < input.length) :
    StopAhead input pos (unquotedStop cfg input fieldStart pos) := by
  have hresume : pos < resumeAfterUnquotedEscape input pos := by
    unfold resumeAfterUnquotedEscape
    split_ifs <;> omega
  have hlf : (input.drop (pos + 1)).head? = some 10 → pos + 2 ≤ input.length := by
    intro h
    rw [List.head?_drop] at h
    have := (List.getElem?_eq_some_iff.mp h).1
    omega
  have hwidth : ∀ {t : Tail}, t.unusable = false → t.confirms (input.drop (pos + 1)) = true →
      pos < pos + t.width ∧ pos + t.width ≤ input.length := by
    intro t hu ht
    have := Tail.width_le hu hpos ht
    omega
  unfold unquotedStop
  simp only
  split_ifs with h1 h2 h3 h4 h5 h6 h7 h8 h9
  · exact hresume
  · trivial
  · exact ⟨by omega, hlf h4⟩
  · trivial
  · trivial
  · exact hwidth hs.usable.2 h7
  · exact hwidth hs.usable.2 h7
  · exact Nat.lt_succ_self pos
  · exact hwidth hs.usable.1 ‹_›
  · exact Nat.lt_succ_self pos

include hs in
theorem generalUnquotedLoop_moves (recordStart : ℕ) {fieldStart : ℕ} (header : Bool)
    (hin : fieldStart ≤ input.length) :
    ∀ (fuel cursor : ℕ) (e : Engine), fieldStart ≤ cursor →
      Moves input fieldStart (generalUnquotedLoop cfg input (cfg.dialect.recordEnding == .crLf
        || cfg.dialect.escape.escapesUnquoted) recordStart fieldStart header fuel cursor e)
  | 0, _, _, _ => trivial
  | fuel + 1, cursor, e, hcursor => by
    have hle := scanEnd_le cfg input recordStart fieldStart
    rw [generalUnquotedLoop]
    simp only [findStopByte_eq]
    by_cases hend : cursor ≥ scanEnd cfg input recordStart fieldStart
    · rw [if_pos hend]
      exact endWindow_moves recordStart fieldStart fieldStart hin
        (fun e => pushGeneralUnquotedSpan_stays _ _ _ header) e
    rw [if_neg hend]
    rcases hfind : (slice input cursor (scanEnd cfg input recordStart fieldStart)).findIdx?
      (searchByte cfg.toFormatSettings) with _ | relative
    · exact generalUnquotedLoop_moves recordStart header hin fuel _ e (by omega)
    obtain ⟨-, -, -, -, -, -, -, hlt⟩ := Window.of_window_some hfind
    have hahead : StopAhead input (cursor + relative)
        (unquotedStop cfg input fieldStart (cursor + relative)) :=
      unquotedStop_ahead hs fieldStart (by omega)
    simp only
    generalize unquotedStop cfg input fieldStart (cursor + relative) = stop at hahead
    rcases stop with next | kind | ⟨fieldEnd, location, terminated⟩
    · have hnext : cursor + relative < next := hahead
      exact generalUnquotedLoop_moves recordStart header hin fuel next e (by omega)
    · trivial
    · obtain ⟨h1, h2⟩ : cursor + relative < location ∧ location ≤ input.length := hahead
      unfold endGeneralField
      refine Stays.bind (pushGeneralUnquotedSpan_stays _ _ _ header) fun _ e' _ => ?_
      refine setLocation_moves (fun e'' he'' => ?_) (by omega) h2 (fun _ => by omega)
      refine Stays.bind (noteTerminatedIf_stays terminated) fun _ e₁ he₁ => ?_
      refine Stays.bind (checkRecordLimit_stays recordStart location) fun _ e₂ he₂ => ?_
      exact he₂.trans (he₁.trans he'')

include hs in
/-- `parse_unquoted_field`. -/
theorem parseUnquotedField_moves (recordStart : ℕ) (header : Bool)
    (hin : e.location ≤ input.length) :
    Moves input e.location (parseUnquotedField cfg F input recordStart header e) := by
  unfold parseUnquotedField
  split_ifs
  · unfold parseGeneralUnquotedField
    rw [get_bind]
    exact generalUnquotedLoop_moves hs recordStart header hin _ _ e (Nat.le_refl _)
  · exact parseUnquotedFieldRuntime_moves recordStart hin

/-! ### Quoted fields -/

theorem skipPostQuoteWhitespace_le (permits : Bool) {location : ℕ}
    (hin : location ≤ input.length) :
    location ≤ skipPostQuoteWhitespace input permits location ∧
      skipPostQuoteWhitespace input permits location ≤ input.length := by
  unfold skipPostQuoteWhitespace
  split_ifs
  · have := (List.takeWhile_prefix (l := input.drop location)
      fun b : UInt8 => b == 32 || b == 9).length_le
    rw [List.length_drop] at this
    omega
  · exact ⟨Nat.le_refl _, hin⟩

theorem endQuotedRecord_moves (recordStart : ℕ) {pos location : ℕ} (terminated : Bool)
    (hlt : pos < location) (hin : location ≤ input.length) :
    Moves input pos (endQuotedRecord cfg input recordStart location terminated e) := by
  unfold endQuotedRecord
  refine setLocation_moves (fun e' he' => ?_) (Nat.le_of_lt hlt) hin (fun _ => hlt)
  unfold setTerminated
  rw [modify_bind]
  refine Stays.bind (checkRecordLimit_stays recordStart location) fun _ e₁ he₁ => ?_
  exact he₁.trans he'

include hs hF in
/-- The text behind a closing quote. -/
theorem finishQuotedField_moves (recordStart : ℕ) {pos afterQuote : ℕ} (hlt : pos < afterQuote)
    (hin : afterQuote ≤ input.length) :
    Moves input pos (finishQuotedField cfg F input recordStart afterQuote e) := by
  unfold finishQuotedField
  simp only [hF.dialect]
  obtain ⟨h1, h2⟩ := skipPostQuoteWhitespace_le (cfg.fmt F).syntax'.permitsTrailingWhitespace hin
  generalize skipPostQuoteWhitespace input (cfg.fmt F).syntax'.permitsTrailingWhitespace afterQuote =
    after at h1 h2
  rcases hnext : input[after]? with _ | next
  · exact endQuotedRecord_moves recordStart false (by omega) h2
  have hafter := (List.getElem?_eq_some_iff.mp hnext).1
  simp only
  by_cases hdelimiter : (next == cfg.dialect.delimiter &&
      cfg.dialect.delimiterTail.confirms (input.drop (after + 1))) = true
  · rw [if_pos hdelimiter]
    rw [Bool.and_eq_true] at hdelimiter
    have hwidth := Tail.width_le hs.usable.1 hafter hdelimiter.2
    exact setLocation_moves (fun _ he => he) (by omega) hwidth.2 (fun _ => by omega)
  rw [if_neg hdelimiter]
  by_cases hending : (!(cfg.dialect.recordEnding == .crLf) &&
      next == cfg.dialect.recordEnding.byte &&
      cfg.dialect.endingTail.confirms (input.drop (after + 1))) = true
  · rw [if_pos hending]
    rw [Bool.and_eq_true] at hending
    have hwidth := Tail.width_le hs.usable.2 hafter hending.2
    exact endQuotedRecord_moves recordStart true (by omega) hwidth.2
  rw [if_neg hending]
  by_cases hcr : (cfg.dialect.recordEnding.stripsCr && next == 13 &&
      (input.drop (after + 1)).head? == some 10) = true
  · rw [if_pos hcr]
    rw [Bool.and_eq_true, beq_iff_eq, List.head?_drop] at hcr
    have := (List.getElem?_eq_some_iff.mp hcr.2).1
    exact endQuotedRecord_moves recordStart true (by omega) (by omega)
  · rw [if_neg hcr]
    trivial

include hs hF in
theorem closeQuotedField_moves (recordStart contentStart scratchStart segmentStart : ℕ)
    {start pos : ℕ} (copied : Bool) (hlt : start ≤ pos) (hin : pos < input.length) :
    Moves input start
      (closeQuotedField cfg F input recordStart contentStart scratchStart segmentStart pos copied
        e) := by
  have hpush : ∀ (source : Source) (i j : ℕ) (e : Engine), Moves input start ((do
      pushSpan cfg input source i j pos true
      finishQuotedField cfg F input recordStart (pos + 1) : Parse Bool) e) := by
    intro source i j e
    exact Stays.bind (pushSpan_stays source i j pos true) fun _ e' _ =>
      finishQuotedField_moves hs hF recordStart (by omega) (by omega)
  unfold closeQuotedField
  cases copied with
  | true =>
    simp only [if_true]
    rw [bind_ok (extendScratch_apply _ _), get_bind]
    exact hpush _ _ _ _
  | false =>
    simp only [Bool.false_eq_true, if_false]
    rw [get_bind]
    exact hpush _ _ _ _

include hs hF in
theorem quotedLoop_moves (recordStart scratchStart : ℕ) {start contentStart : ℕ}
    (hstart : start < contentStart) :
    ∀ (fuel segmentStart cursor : ℕ) (copied : Bool) (e : Engine), contentStart ≤ cursor →
      Moves input start
        (quotedLoop cfg F input recordStart contentStart scratchStart fuel segmentStart cursor
          copied e)
  | 0, _, _, _, _, _ => trivial
  | fuel + 1, segmentStart, cursor, copied, e, hcursor => by
    have hle := scanEnd_le cfg input recordStart contentStart
    rw [quotedLoop]
    simp only
    by_cases hend : cursor > scanEnd cfg input recordStart contentStart
    · rw [if_pos hend]
      exact Stays.bind (checkRecordLimit_stays recordStart _) fun _ _ _ => trivial
    rw [if_neg hend]
    rcases hfind : findQuoted (cfg.fmt F).dialect
      (slice input cursor (scanEnd cfg input recordStart contentStart)) with _ | relative
    · exact Ends.bind (checkScanEnd_stays recordStart contentStart) fun _ _ _ => trivial
    have hlt := findQuoted_lt hfind
    simp only
    rcases quotedStop input (cfg.fmt F) (scanEnd cfg input recordStart contentStart)
      (cursor + relative) with byte | _ | ⟨kind, pos⟩
    · simp only
      unfold copySegment
      rw [bind_ok (extendScratch_apply _ _), bind_ok (extendScratch_apply _ _)]
      exact Stays.bind (checkScratchLimit_stays scratchStart _) fun _ e' _ =>
        quotedLoop_moves recordStart scratchStart hstart fuel _ _ true e' (by omega)
    · exact closeQuotedField_moves hs hF recordStart contentStart scratchStart segmentStart copied
        (by omega) (by omega)
    · trivial

include hs hF in
theorem parseQuotedField_moves (recordStart : ℕ) :
    Moves input e.location (parseQuotedField cfg F input recordStart e) := by
  unfold parseQuotedField
  rw [get_bind]
  exact quotedLoop_moves hs hF recordStart _ (Nat.lt_succ_self _) _ _ _ _ e (Nat.le_refl _)

/-! ### All fields of a record -/

include hs hF in
theorem parseField_moves (recordStart : ℕ) (header : Bool) (hin : e.location ≤ input.length) :
    Moves input e.location (parseField cfg F input recordStart header e) := by
  unfold parseField
  refine Ends.bind (skipDelimiterSpaces_moves recordStart hin) ?_
  rintro _ e' ⟨hle, hin'⟩
  rw [get_bind]
  refine Ends.mono (P := fun _ e'' => Forward input e'.location e'') ?_ (fun _ _ h => h)
    fun _ e'' h => h.of_le hle
  split_ifs
  · exact parseQuotedField_moves hs hF recordStart
  · exact parseUnquotedField_moves hs recordStart header hin'

include hs hF in
theorem fieldsLoop_moves (recordStart : ℕ) (header : Bool) :
    ∀ (fuel : ℕ) (e : Engine), e.location ≤ input.length →
      Moves input e.location (fieldsLoop cfg F input recordStart header fuel e)
  | 0, _, _ => trivial
  | fuel + 1, e, hin => by
    rw [fieldsLoop]
    refine Ends.bind (parseField_moves hs hF recordStart header hin) ?_
    rintro (_ | _) e' hforward
    · rw [if_neg (by simp)]
      exact (fieldsLoop_moves recordStart header fuel e' hforward.inside).mono (fun _ _ h => h)
        fun _ _ h => h.of_le hforward.le
    · rw [if_pos rfl]
      refine Stays.bind (markNullSpans_stays header) fun _ e₁ he₁ => ?_
      rw [get_bind]
      refine (validateFieldCount_stays e₁.spans.len).mono (fun _ _ h => h) fun _ e₂ he₂ => ?_
      have hat : e₂.location = e'.location := he₂.trans he₁
      exact ⟨hat ▸ hforward.le, hat ▸ hforward.inside, fun h => hat ▸ hforward.lt h⟩

end fields

/-! ## The kernels -/

/-- A kernel moves the cursor from `pos`, or leaves it there when it declines. -/
def Took (input : Bytes) (pos : ℕ) (taken : Bool) (e : Engine) : Prop :=
  if taken then Forward input pos e else e.location = pos

theorem structuralMatches_within (d : Dialect) :
    ∀ (position : ℕ) (text : Bytes), ∀ p ∈ structuralMatches d position text,
      position ≤ p.1 ∧ p.1 < position + text.length
  | _, [], _, hp => by cases hp
  | position, byte :: rest, p, hp => by
    have ih := structuralMatches_within d (position + 1) rest p
    rw [structuralMatches] at hp
    rw [List.length_cons]
    split_ifs at hp
    · rcases List.mem_cons.mp hp with rfl | hp
      · exact ⟨Nat.le_refl _, by simp⟩
      · have := ih hp
        omega
    · have := ih hp
      omega

theorem endPlainRecord_took (recordStart fieldStart fieldEnd pos : ℕ) {start location : ℕ}
    (terminated : Bool) (hle : start ≤ location) (hin : location ≤ input.length)
    (hlt : start < input.length → start < location) :
    Ends (fun _ _ => True) (Took input start)
      (endPlainRecord cfg F input recordStart fieldStart fieldEnd pos location terminated e) := by
  unfold endPlainRecord
  refine Stays.bind (pushSpan_stays _ _ _ pos false) fun _ e' _ => ?_
  rw [bind_ok (setLocation_apply ..), bind_ok (setTerminated_apply ..)]
  refine Stays.bind (checkRecordLimit_stays recordStart location) fun _ e₁ he₁ => ?_
  refine Stays.bind (foldPlainRecord_stays recordStart terminated) fun _ e₂ he₂ => ?_
  have hat : e₂.location = location := he₂.trans he₁
  exact ⟨hat ▸ hle, hat ▸ hin, fun h => hat ▸ hlt h⟩

theorem plainLoop_took {recordStart scanEnd : ℕ} (hscan : scanEnd ≤ input.length)
    (hstart : recordStart ≤ input.length) :
    ∀ (fieldStart : ℕ) (ms : List (ℕ × UInt8)) (e : Engine),
      (∀ p ∈ ms, recordStart ≤ p.1 ∧ p.1 < input.length) → e.location = recordStart →
      Ends (fun _ _ => True) (Took input recordStart)
        (plainLoop cfg F input recordStart scanEnd fieldStart ms e)
  | fieldStart, [], e, _, hat => by
    rw [plainLoop]
    split_ifs with hmore hescape
    · trivial
    · exact hat
    · exact endPlainRecord_took recordStart fieldStart scanEnd scanEnd false (by omega) hscan
        (fun h => by omega)
  | fieldStart, (cursor, byte) :: rest, e, hms, hat => by
    have hrest : ∀ p ∈ rest, recordStart ≤ p.1 ∧ p.1 < input.length :=
      fun p hp => hms p (List.mem_cons_of_mem _ hp)
    obtain ⟨h1, h2⟩ := hms _ List.mem_cons_self
    rw [plainLoop]
    simp only
    split_ifs with hdelimiter hquote hending hescape
    · refine Stays.bind (pushSpan_stays _ _ _ cursor false) fun _ e' he' => ?_
      exact plainLoop_took hscan hstart (cursor + 1) rest e' hrest (he'.trans hat)
    · exact hat
    · exact hat
    · exact endPlainRecord_took recordStart fieldStart _ cursor true (by simp only at h1; omega)
        (by simp only at h2; omega) (fun _ => by simp only at h1; omega)
    · exact endPlainRecord_took recordStart fieldStart _ cursor true (by simp only at h1; omega)
        (by simp only at h2; omega) (fun _ => by simp only at h1; omega)
    · exact plainLoop_took hscan hstart fieldStart rest e hrest hat

theorem plainKernel_took (hin : e.location ≤ input.length) :
    Ends (fun _ _ => True) (Took input e.location) (plainKernel cfg F input e.location e) := by
  unfold plainKernel
  refine plainLoop_took (Nat.min_le_left _ _) hin _ _ e (fun p hp => ?_) rfl
  obtain ⟨h1, h2⟩ := structuralMatches_within _ _ _ p hp
  unfold slice at h2
  rw [List.length_drop, List.length_take] at h2
  omega

/-- The kernel of plain records takes a line feed at least. -/
theorem borrowedPlainBlocks_within (recordStart : ℕ) :
    ∀ (fuel consumed fieldStart : ℕ) (spans : List Span) {consumed' : ℕ} {spans' : List Span},
      borrowedPlainBlocks input recordStart fuel consumed fieldStart spans =
        some (consumed', spans') → consumed < consumed' ∧ recordStart + consumed' ≤ input.length
  | 0, _, _, _, _, _, hrun => by cases hrun
  | fuel + 1, consumed, fieldStart, spans, consumed', spans', hrun => by
    rw [borrowedPlainBlocks] at hrun
    simp only at hrun
    split_ifs at hrun with hshort hquote
    rcases hhead : (maskOf 10 ((input.drop (recordStart + consumed)).take 32)).head? with
      _ | recordEnd
    · rw [hhead] at hrun
      have ih := borrowedPlainBlocks_within recordStart fuel _ _ _ hrun
      omega
    · rw [hhead] at hrun
      simp only [Option.some.injEq, Prod.mk.injEq] at hrun
      have hmem := List.mem_of_head? hhead
      obtain ⟨hget, -⟩ := List.mem_filter.mp hmem
      have hlt := List.mem_range.mp hget
      rw [List.length_take, List.length_drop] at hlt
      omega

/-- The kernel of quoted records takes a byte at least, if there is one. -/
theorem borrowedRecordLoop_within (limits : Option Limits) {suffix scan : Bytes}
    (recordStart : ℕ) :
    ∀ (fuel fieldsAdded fieldStart : ℕ) (storage : SpanStorage) {consumed : ℕ} {terminated : Bool}
      {storage' : SpanStorage}, fieldStart ≤ scan.length →
      borrowedRecordLoop limits suffix scan recordStart fuel fieldsAdded fieldStart storage =
        some (consumed, terminated, storage') →
      fieldStart ≤ consumed ∧ consumed ≤ scan.length ∧
        (fieldStart < suffix.length → fieldStart < consumed)
  | 0, _, _, _, _, _, _, _, hrun => by cases hrun
  | fuel + 1, fieldsAdded, fieldStart, storage, consumed, terminated, storage', hle, hrun => by
    rw [borrowedRecordLoop] at hrun
    simp only at hrun
    by_cases hfields : limits.any (fun l => fieldsAdded = l.maxFields) = true
    · rw [if_pos hfields] at hrun; cases hrun
    rw [if_neg hfields] at hrun
    by_cases hend : fieldStart = scan.length
    · rw [if_pos hend] at hrun
      split_ifs at hrun
      simp only [Option.some.injEq, Prod.mk.injEq] at hrun
      omega
    rw [if_neg hend] at hrun
    by_cases hquote : scan[fieldStart]? = some 34
    · rw [if_pos hquote] at hrun
      rcases hclosing : borrowedClosing scan (scan.length + 1) (fieldStart + 1) (fieldStart + 1)
        storage.scratch with _ | ⟨closing, segment, scratch⟩
      · rw [hclosing] at hrun; cases hrun
      obtain ⟨h1, h2⟩ := borrowedClosing_le (scan.length + 1) (fieldStart + 1)
        (fieldStart + 1) storage.scratch (show _ = some closing by rw [hclosing]; rfl)
      rw [hclosing] at hrun
      simp only at hrun
      by_cases hexceeds : limits.any (fun l => closing + 1 - fieldStart > l.maxFieldBytes) = true
      · rw [if_pos hexceeds] at hrun; cases hrun
      rw [if_neg hexceeds] at hrun
      rcases hnext : scan[closing + 1]? with _ | next
      · rw [hnext] at hrun
        simp only at hrun
        split_ifs at hrun
        simp only [Option.some.injEq, Prod.mk.injEq] at hrun
        omega
      have hlt := (List.getElem?_eq_some_iff.mp hnext).1
      rw [hnext] at hrun
      simp only at hrun
      split_ifs at hrun with hcomma hlf hcr
      · have ih := borrowedRecordLoop_within limits recordStart fuel _ (closing + 2) _ (by omega)
          hrun
        omega
      · simp only [Option.some.injEq, Prod.mk.injEq] at hrun
        omega
      · have := (List.getElem?_eq_some_iff.mp hcr.2).1
        simp only [Option.some.injEq, Prod.mk.injEq] at hrun
        omega
    · rw [if_neg hquote] at hrun
      rcases hfind : find3 44 34 10 (scan.drop fieldStart) with _ | relative
      · rw [hfind] at hrun
        simp only at hrun
        split_ifs at hrun
        simp only [Option.some.injEq, Prod.mk.injEq] at hrun
        omega
      have hlt : relative < (scan.drop fieldStart).length :=
        (List.findIdx?_eq_some_iff_getElem.mp hfind).1
      rw [List.length_drop] at hlt
      rw [hfind] at hrun
      simp only at hrun
      split_ifs at hrun
      · have ih := borrowedRecordLoop_within limits recordStart fuel _ (fieldStart + relative + 1) _
          (by omega) hrun
        omega
      · simp only [Option.some.injEq, Prod.mk.injEq] at hrun
        omega

theorem tryParseDefaultCsvBorrowed_took (hin : e.location ≤ input.length) :
    Ends (fun _ _ => True) (Took input e.location)
      (tryParseDefaultCsvBorrowed cfg input e.location e) := by
  unfold tryParseDefaultCsvBorrowed
  rw [get_bind]
  by_cases hprobe : (e.ownedParser.isNone ||
      decide (input.length - e.location < defaultBorrowedProbe)) = true
  · rw [if_pos hprobe]
    exact rfl
  rw [if_neg hprobe]
  simp only [Bool.or_eq_true, decide_eq_true_eq, not_or, Nat.not_lt] at hprobe
  have hwide : defaultBorrowedProbe = 64 := rfl
  rcases hplain : tryParseDefaultBorrowedPlain cfg input e.location e.spans.spans with
    _ | ⟨consumed, spans⟩
  · simp only
    split_ifs
    · exact rfl
    rcases hrecord : tryParseDefaultBorrowedRecord cfg input e.location e.spans with
      _ | ⟨consumed, terminated, spans⟩
    · exact rfl
    have hwithin : ∀ {limits : Option Limits} {scan : Bytes} {fuel : ℕ},
        scan.length ≤ (input.drop e.location).length →
        borrowedRecordLoop limits (input.drop e.location) scan e.location fuel 0 0 e.spans =
          some (consumed, terminated, spans) →
        0 < consumed ∧ e.location + consumed ≤ input.length := by
      intro limits scan fuel hscan hrun
      have := borrowedRecordLoop_within limits e.location fuel 0 0 e.spans (Nat.zero_le _) hrun
      rw [List.length_drop] at hscan this
      omega
    have htaken : 0 < consumed ∧ e.location + consumed ≤ input.length := by
      unfold tryParseDefaultBorrowedRecord at hrecord
      simp only at hrecord
      split_ifs at hrecord
      · exact hwithin (Nat.le_refl _) hrecord
      · exact hwithin (by rw [List.length_take]; exact Nat.min_le_right _ _) hrecord
    exact ⟨Nat.le_add_right _ _, htaken.2, fun _ => Nat.lt_add_of_pos_right htaken.1⟩
  · unfold tryParseDefaultBorrowedPlain at hplain
    split_ifs at hplain
    obtain ⟨hpos, hwithin⟩ := borrowedPlainBlocks_within e.location _ _ _ _ hplain
    simp only
    rw [set_bind]
    refine Stays.bind (show Stays (e.location + consumed) _ from ?_) fun _ e' he' => ?_
    · show (if _ then _ else _ : Engine).location = _
      split_ifs <;> rfl
    · exact ⟨he' ▸ Nat.le_add_right _ _, he' ▸ hwithin,
        fun _ => he' ▸ Nat.lt_add_of_pos_right hpos⟩

theorem tryParseBorrowedPlain_took (hin : e.location ≤ input.length) :
    Ends (fun _ _ => True) (Took input e.location)
      (tryParseBorrowedPlain cfg F input e.location e) := by
  unfold tryParseBorrowedPlain
  have hnext : ∀ (parsed : Bool) (e' : Engine), Took input e.location parsed e' →
      Ends (fun _ _ => True) (Took input e.location)
        ((if parsed = true then pure true else plainKernel cfg F input e.location : Parse Bool)
          e') := by
    rintro (_ | _) e' htook
    · have hat : e'.location = e.location := htook
      rw [if_neg (by simp), ← hat]
      exact plainKernel_took (hat ▸ hin)
    · rw [if_pos rfl]
      exact htook
  split_ifs
  · exact Ends.bind (tryParseDefaultCsvBorrowed_took hin) hnext
  · rw [pure_bind_apply]
    exact hnext false e rfl

/-! ## The record at the cursor -/

section record

variable (hs : cfg.dialect.Sound) (hF : cfg.Follows F)

include hs hF

theorem parseRecordFieldsFor_moves (recordStart : ℕ) (header : Bool)
    (hin : e.location ≤ input.length) :
    Moves input e.location (parseRecordFieldsFor cfg F input recordStart header e) := by
  have hfields : ∀ {G : CsvFormat}, cfg.Follows G →
      Moves input e.location (parseRecordFields cfg G input recordStart header e) :=
    fun hG => fieldsLoop_moves hs hG recordStart header _ e hin
  unfold parseRecordFieldsFor
  cases F with
  | some o => exact hfields hF
  | none =>
    simp only
    rcases hkind : cfg.formatKind
    · exact hfields (follows_of_formatKind.1 hkind)
    · exact hfields (follows_of_formatKind.2 hkind)
    · exact hfields hF

/-- **A record is read forward**, by whichever parser takes it. -/
theorem parseRecord_moves (header : Bool) (hin : e.location ≤ input.length) :
    Moves input e.location (parseRecord cfg F input e.location header e) := by
  have hnext : ∀ (plain : Bool) (e' : Engine), Took input e.location plain e' →
      Moves input e.location ((if plain = true then do
        if ParserSettings.needsRecordPass (cfg.fmt F).dialect (cfg.fmt F).nulls then
          finishPlainRecord cfg F input e.location header
        else pure ()
        let e ← get
        validateFieldCount cfg input e.spans.len
      else parseRecordFieldsFor cfg F input e.location header : Parse Unit) e') := by
    rintro (_ | _) e' htook
    · have hat : e'.location = e.location := htook
      rw [if_neg (by simp), ← hat]
      exact parseRecordFieldsFor_moves hs hF _ header (hat ▸ hin)
    · rw [if_pos rfl]
      have hforward : Forward input e.location e' := htook
      have hcheck : ∀ e₁ : Engine, e₁.location = e'.location → Moves input e.location
          ((do let e ← get; validateFieldCount cfg input e.spans.len : Parse Unit) e₁) := by
        intro e₁ he₁
        rw [get_bind]
        refine (validateFieldCount_stays e₁.spans.len).mono (fun _ _ h => h) fun _ e₂ he₂ => ?_
        have hat : e₂.location = e'.location := he₂.trans he₁
        exact ⟨hat ▸ hforward.le, hat ▸ hforward.inside, fun h => hat ▸ hforward.lt h⟩
      split_ifs
      · exact Stays.bind (finishPlainRecord_stays e.location header) fun _ e₁ he₁ => hcheck e₁ he₁
      · exact hcheck e' rfl
  unfold parseRecord
  by_cases hcandidate : plainRecordCandidate cfg F input[e.location]? = true
  · rw [if_pos hcandidate]
    exact Ends.bind (tryParseBorrowedPlain_took hin) hnext
  · rw [if_neg hcandidate]
    exact hnext false e rfl

/-- What a read of the record at the cursor of `e` leaves behind. -/
structure Passed (input : Bytes) (e e' : Engine) : Prop extends Forward input e.location e' where
  failed : e'.failed = e.failed
  headers : e'.headersInitialized = e.headersInitialized
  resume : e'.resume = e.resume
  cursorStart : e'.cursorStart = e.cursorStart
  recordIndex : e'.recordIndex = e.recordIndex + 1
  lineBase : e'.lineBase = e.lineBase
  lineOrigin : e'.lineOrigin = e.lineOrigin

omit hs hF in
theorem ok_of_failing {m : Parse Unit} {e' : Engine} (h : failing m e = .ok () e') :
    m e = .ok () e' := by
  unfold failing at h
  split at h
  · rename_i hrun
    rw [hrun, h]
  · cases h
  · cases h

/-- **The record at the cursor** begins there and holds a byte. -/
theorem parsePositionedRecord_moves (header : Bool) (hin : e.location ≤ input.length) :
    Ends (fun _ _ => True) (fun range e' => range.1 = e.location ∧ range.2.1 = e'.location ∧
        Passed input e e' ∧ input.length ≤ Span.maxOffset)
      (parsePositionedRecord cfg F input header e) := by
  rcases hrun : parsePositionedRecord cfg F input header e with ⟨range, e'⟩ | ⟨fault, e'⟩
  swap
  · trivial
  obtain ⟨hshort, hstart, hstop⟩ := parsePositionedRecord_range hrun
  have hkept : Related (Moved cfg e e) (Likewise (physicalLine input e.lineBase e.lineOrigin)
      (physicalLine input e.lineBase e.lineOrigin))
      (parsePositionedRecord cfg F input header e) (parsePositionedRecord cfg F input header e) :=
    parsePositionedRecord_replays (⟨rfl, rfl⟩ : Twins e e) header rfl (fun _ => rfl) (Or.inr rfl)
  rw [hrun] at hkept
  obtain ⟨⟨hfailed, hheaders, hresume, hcursor⟩, hindex, hbase, horigin, -⟩ := hkept.2.kept
  refine ⟨hstart, hstop, ⟨?_, hfailed, hheaders, hresume, hcursor, hindex, hbase, horigin⟩, hshort⟩
  unfold parsePositionedRecord at hrun
  obtain ⟨_, e₁, hbegin, hrun⟩ := ok_of_bind hrun
  unfold beginSpans at hbegin
  rw [if_neg (Nat.not_lt_of_le hshort)] at hbegin
  cases hbegin
  rw [get_bind] at hrun
  obtain ⟨_, e₂, hparse, hrun⟩ := ok_of_bind hrun
  obtain ⟨_, e₃, htrim, hrun⟩ := ok_of_bind hrun
  rw [get_bind, set_bind] at hrun
  cases hrun
  have hmoves := parseRecord_moves hs hF (e := { e with spans := .empty }) header hin
  rw [ok_of_failing hparse] at hmoves
  have hat : e₃.location = e₂.location := by
    unfold trimSpans at htrim
    split_ifs at htrim <;> cases htrim <;> rfl
  exact ⟨hat ▸ hmoves.le, hat ▸ hmoves.inside, fun h => hat ▸ hmoves.lt h⟩

end record

/-! ## Comments and blank lines -/

section skipping

variable (hs : cfg.dialect.Sound)

/-- A comment that the document ends in is noted at its first byte. -/
def Quiet (input : Bytes) (e : Engine) : Prop :=
  e.resume.ignored = false ∨
    e.location = input.length ∧ e.resume.recordStart ≠ some input.length

/-- What skipping leaves of `e`: all but the cursor and its mark. -/
structure Skipped (input : Bytes) (e e' : Engine) : Prop where
  le : e.location ≤ e'.location
  inside : e'.location ≤ input.length
  quiet : Quiet input e'
  kept : e' = { e with location := e'.location, resume := e'.resume }

theorem Skipped.refl (hin : e.location ≤ input.length) (hquiet : Quiet input e) :
    Skipped input e e := ⟨Nat.le_refl _, hin, hquiet, rfl⟩

theorem Skipped.trans {e' e'' : Engine} (h : Skipped input e e') (h' : Skipped input e' e'') :
    Skipped input e e'' := by
  refine ⟨Nat.le_trans h.le h'.le, h'.inside, h'.quiet, ?_⟩
  rw [h'.kept, h.kept]

include hs in
theorem findRecordEndingLoop_within (start : ℕ) :
    ∀ (fuel searchStart : ℕ) {stop : ℕ},
      findRecordEndingLoop cfg input start fuel searchStart = some stop →
      searchStart < stop ∧ stop ≤ input.length
  | 0, _, _, hrun => by cases hrun
  | fuel + 1, searchStart, stop, hrun => by
    rw [findRecordEndingLoop] at hrun
    rcases hfind : find1 cfg.dialect.recordEnding.byte (input.drop searchStart) with _ | relative
    · simp only [hfind] at hrun
      cases hrun
    have hlt : relative < (input.drop searchStart).length :=
      (List.findIdx?_eq_some_iff_getElem.mp hfind).1
    rw [List.length_drop] at hlt
    have hline : cfg.dialect.endingTail.asSlice = [] → cfg.dialect.endingTail.width = 1 := by
      intro hnil
      rw [Tail.width_eq hs.usable.2, hnil]
      rfl
    have hwidth : ∀ {confirmed : Bool}, (confirmed = true →
        0 < cfg.dialect.endingTail.width ∧
          searchStart + relative + cfg.dialect.endingTail.width ≤ input.length) →
        (if confirmed = true then some (searchStart + relative + cfg.dialect.endingTail.width)
          else findRecordEndingLoop cfg input start fuel (searchStart + relative + 1)) = some stop →
        searchStart < stop ∧ stop ≤ input.length := by
      intro confirmed hconfirmed hrun
      split_ifs at hrun with hc
      · have := hconfirmed hc
        have := Option.some.inj hrun
        omega
      · have := findRecordEndingLoop_within start fuel _ hrun
        omega
    simp only [hfind] at hrun
    refine hwidth ?_ hrun
    rcases hending : cfg.dialect.recordEnding with _ | _ | byte
    · intro _
      rw [hline (hs.ending_tail (Or.inl hending))]
      omega
    · intro _
      rw [hline (hs.ending_tail (Or.inr hending))]
      omega
    · intro hconfirmed
      exact Tail.width_le hs.usable.2 (by omega) hconfirmed

include hs in
theorem skipCommentsLoop_skipped (comment : UInt8) :
    ∀ (fuel : ℕ) (e : Engine), e.location ≤ input.length → Quiet input e →
      Skipped input e (skipCommentsLoop cfg input comment fuel e)
  | 0, e, hin, hquiet => .refl hin hquiet
  | fuel + 1, e, hin, hquiet => by
    have hresuming : (e.resume.ignored && e.resume.recordStart == some e.location
        && decide (e.resume.scannedTo ≤ input.length)) = false := by
      rcases hquiet with hquiet | ⟨hat, hstart⟩
      · rw [hquiet]
        rfl
      · rw [hat, beq_eq_false_iff_ne.mpr hstart, Bool.and_false]
        rfl
    rw [skipCommentsLoop]
    simp only [hresuming, Bool.not_false, Bool.true_and, Bool.false_eq_true, if_false]
    by_cases hcomment : input[e.location]? = some comment
    swap
    · rw [if_pos (by simpa using hcomment)]
      exact .refl hin hquiet
    rw [if_neg (by simpa using hcomment)]
    have hlt := (List.getElem?_eq_some_iff.mp hcomment).1
    rcases hfind : findRecordEnding cfg input e.location with _ | stop
    · exact ⟨hin, Nat.le_refl _, Or.inr ⟨rfl, fun h => by
        have := Option.some.inj h
        omega⟩, rfl⟩
    · obtain ⟨h1, h2⟩ := findRecordEndingLoop_within hs _ _ _ hfind
      have hstep : Skipped input e { e with location := stop, resume := .new } :=
        ⟨Nat.le_of_lt h1, h2, Or.inl rfl, rfl⟩
      exact hstep.trans (skipCommentsLoop_skipped comment fuel _ h2 (Or.inl rfl))

include hs in
theorem recordEndingWidthAt_within {pos width : ℕ}
    (h : recordEndingWidthAt cfg input pos = some width) :
    pos < input.length ∧ pos + width ≤ input.length := by
  unfold recordEndingWidthAt at h
  have hone : ∀ {b : UInt8}, input[pos]? = some b → pos < input.length ∧ pos + 1 ≤ input.length :=
    fun h => ⟨(List.getElem?_eq_some_iff.mp h).1, (List.getElem?_eq_some_iff.mp h).1⟩
  have htwo : input[pos]? = some 13 ∧ input[pos + 1]? = some 10 →
      pos < input.length ∧ pos + 2 ≤ input.length :=
    fun h => ⟨(hone h.1).1, (List.getElem?_eq_some_iff.mp h.2).1⟩
  rcases hending : cfg.dialect.recordEnding with _ | _ | byte <;> simp only [hending] at h <;>
    split_ifs at h <;> obtain rfl := Option.some.inj h
  · exact hone ‹_›
  · exact htwo ‹_›
  · exact htwo ‹_›
  · rename_i hbyte
    exact ⟨(hone hbyte.1).1, (Tail.width_le hs.usable.2 (hone hbyte.1).1 hbyte.2).2⟩

include hs in
theorem skipBlankLinesLoop_skipped :
    ∀ (fuel : ℕ) (e : Engine), e.location ≤ input.length → Quiet input e →
      Skipped input e (skipBlankLinesLoop cfg input fuel e)
  | 0, e, hin, hquiet => .refl hin hquiet
  | fuel + 1, e, hin, hquiet => by
    rw [skipBlankLinesLoop]
    rcases hwidth : recordEndingWidthAt cfg input e.location with _ | width
    · exact .refl hin hquiet
    · obtain ⟨hlt, hle⟩ := recordEndingWidthAt_within hs hwidth
      have hfree : e.resume.ignored = false := by
        rcases hquiet with h | ⟨hat, -⟩
        · exact h
        · omega
      have hstep : Skipped input e { e with location := e.location + width } :=
        ⟨Nat.le_add_right _ _, hle, Or.inl hfree, rfl⟩
      exact hstep.trans (skipBlankLinesLoop_skipped fuel _ hle (Or.inl hfree))

include hs in
theorem skipIgnoredLoop_skipped :
    ∀ (fuel : ℕ) (skipped : Bool) (e : Engine), e.location ≤ input.length → Quiet input e →
      Skipped input e (skipIgnoredLoop cfg input fuel skipped e).2
  | 0, _, e, hin, hquiet => .refl hin hquiet
  | fuel + 1, skipped, e, hin, hquiet => by
    have hcomments : Skipped input e (skipComments cfg input e) := by
      unfold skipComments
      split
      · exact .refl hin hquiet
      · exact skipCommentsLoop_skipped hs _ _ e hin hquiet
    have hnext : Skipped input e (skipBlankLines cfg input (skipComments cfg input e)) := by
      refine hcomments.trans ?_
      unfold skipBlankLines
      split_ifs
      · exact skipBlankLinesLoop_skipped hs _ _ hcomments.inside hcomments.quiet
      · exact .refl hcomments.inside hcomments.quiet
    rw [skipIgnoredLoop]
    split_ifs
    · exact hnext
    · exact hnext.trans (skipIgnoredLoop_skipped fuel true _ hnext.inside hnext.quiet)

include hs in
/-- **Comments and blank lines** are skipped forward. -/
theorem skipIgnoredRecords_skipped (hin : e.location ≤ input.length) (hquiet : Quiet input e) :
    Skipped input e (skipIgnoredRecords cfg input e) := by
  have hloop := skipIgnoredLoop_skipped hs (input.length + 2) e.resume.ignored e hin hquiet
  unfold skipIgnoredRecords
  generalize skipIgnoredLoop cfg input (input.length + 2) e.resume.ignored e = result at hloop ⊢
  obtain ⟨skipped, next⟩ := result
  simp only at hloop ⊢
  split_ifs
  · exact hloop.trans ⟨Nat.le_refl _, hloop.inside, Or.inl rfl, rfl⟩
  · exact hloop

include hs in
theorem skipToRecord_skipped (hin : e.location ≤ input.length) (hfree : e.resume.ignored = false) :
    Skipped input e (skipToRecord cfg input e) := by
  unfold skipToRecord
  split_ifs
  swap
  · exact .refl hin (Or.inl hfree)
  have hresumed : ∀ {location : ℕ}, e.location ≤ location → location ≤ input.length →
      Skipped input e (skipIgnoredRecords cfg input { e with location }) := by
    intro location hle hin'
    have hstep : Skipped input e { e with location } := ⟨hle, hin', Or.inl hfree, rfl⟩
    exact hstep.trans (skipIgnoredRecords_skipped hs hin' (Or.inl hfree))
  refine hresumed ?_ ?_
  · split
    · split_ifs
      · exact Nat.le_max_left _ _
      · exact Nat.le_refl _
    · exact Nat.le_refl _
  · split
    · split_ifs with h
      · simp only [Bool.and_eq_true, decide_eq_true_eq] at h
        exact Nat.max_le.mpr ⟨hin, h.2⟩
      · exact hin
    · exact hin

end skipping

/-! ## The next record -/

/-- A parser that may read the next record. -/
structure Poised (input : Bytes) (e : Engine) : Prop where
  failed : e.failed = false
  headers : e.headersInitialized = true
  ignored : e.resume.ignored = false
  inside : e.location ≤ input.length
  /-- no record has been advanced to without being read -/
  settled : e.cursorStart ≠ some e.location

/-- What a parser at `e` reads next: a record that holds a byte, behind which it
    may read on. -/
structure ReadsAhead (input : Bytes) (e : Engine) (record : Record) (e' : Engine) : Prop where
  le : e.location ≤ record.start
  lt : record.start < record.stop
  stop : record.stop = e'.location
  short : input.length ≤ Span.maxOffset
  recordIndex : e'.recordIndex = e.recordIndex + 1
  lineBase : e'.lineBase = e.lineBase
  lineOrigin : e'.lineOrigin = e.lineOrigin
  poised : Poised input e'

section next

variable (hs : cfg.dialect.Sound) (hF : cfg.Follows F)

include hs hF

/-- **The next record** lies ahead of the cursor and within the document. -/
theorem nextRecord_moves (h : Poised input e) :
    Ends (fun _ _ => True) (fun r e' => ∀ record, r = some record → ReadsAhead input e record e')
      (SliceParser.nextRecord cfg F input e) := by
  have hfailed : checkFailed input e = .ok () e := by
    unfold checkFailed
    rw [if_neg (by simp [h.failed])]
  have hheaders : ensureHeaders cfg input e = .ok () e := by
    unfold ensureHeaders
    rw [get_bind, if_pos h.headers]; rfl
  have hsettle : settle cfg F input e = .ok () e := by
    unfold settle
    rw [get_bind, if_neg (Ne.symm h.settled)]; rfl
  have hskipped : Skipped input e (skipToRecord cfg input e) :=
    skipToRecord_skipped hs h.inside h.ignored
  have hadvance : advance cfg F input e = position cfg input e := by
    unfold advance
    rw [bind_ok hfailed, bind_ok hheaders, bind_ok hsettle]
  generalize hnext : skipToRecord cfg input e = next at hskipped
  obtain ⟨hfailed', hheaders', hbase, horigin, hindex⟩ :
      next.failed = e.failed ∧ next.headersInitialized = e.headersInitialized ∧
        next.lineBase = e.lineBase ∧ next.lineOrigin = e.lineOrigin ∧
        next.recordIndex = e.recordIndex := by
    rw [hskipped.kept]
    exact ⟨rfl, rfl, rfl, rfl, rfl⟩
  have hposition : position cfg input e =
      if next.location = input.length then .ok false { next with cursorStart := none }
      else .ok true next.positioned := by
    unfold position
    rw [modify_bind, get_bind, hnext]
    split_ifs <;> rfl
  unfold SliceParser.nextRecord
  by_cases hend : next.location = input.length
  · rw [if_pos hend] at hposition
    rw [bind_ok (hadvance.trans hposition)]
    intro record hrecord
    cases hrecord
  rw [if_neg hend] at hposition
  rw [bind_ok (hadvance.trans hposition), if_pos rfl]
  have hlt := Nat.lt_of_le_of_ne hskipped.inside hend
  have hparse := parsePositionedRecord_moves hs hF (e := next.positioned) false hskipped.inside
  have hrecord := @record_positioned cfg F input next
  rcases hrun : parsePositionedRecord cfg F input false next.positioned with
    ⟨range, e'⟩ | ⟨fault, e'⟩
  swap
  · rw [hrun] at hrecord
    rw [map_error hrecord]
    trivial
  rw [hrun] at hrecord hparse
  obtain ⟨hstart, hstop, hpassed, hshort⟩ := hparse
  rw [map_ok hrecord]
  rintro record hsome
  obtain rfl := Option.some.inj hsome
  have hahead : next.location < e'.location := hpassed.lt hlt
  have hfree : next.resume.ignored = false := by
    rcases hskipped.quiet with hfree | ⟨hat, -⟩
    · exact hfree
    · exact absurd hat hend
  have hstart' : range.1 = next.location := hstart
  refine ⟨hstart' ▸ hskipped.le, ?_, hstop, hshort, ?_, ?_, ?_, ?_⟩
  · show range.1 < range.2.1
    rw [hstart', hstop]
    exact hahead
  · exact hpassed.recordIndex.trans (congrArg (· + 1) hindex)
  · exact hpassed.lineBase.trans hbase
  · exact hpassed.lineOrigin.trans horigin
  · refine ⟨hpassed.failed.trans (hfailed'.trans h.failed),
      hpassed.headers.trans (hheaders'.trans h.headers), ?_, hpassed.inside, ?_⟩
    · show e'.resume.ignored = false
      rw [hpassed.resume]
      exact hfree
    · have hcursor : e'.cursorStart = some next.location := hpassed.cursorStart
      show e'.cursorStart ≠ some e'.location
      rw [hcursor]
      exact fun hsame => Nat.ne_of_lt hahead (Option.some.inj hsame)

end next

end Engine

end Coseva
