/-
  Coseva — a record ends where counting quotes says that it does, for the
  formats a document can be split in.

  * `Splits`: those formats;
  * `Open`: the scan is at an offset of a record, inside quotes or outside;
  * `fieldsLoop_lands`, `plainLoop_lands`, `borrowedRecordLoop_lands`: each way to
    parse a record;
  * `parseRecord_lands`: the record as the engine dispatches it.
-/
import Coseva.ReadKernel
import Coseva.Split

namespace Coseva

/-- What the splitter relies on: a quote byte is always a quote, and no quote or
    record ending is skipped as white space. -/
structure Splits (cfg : ParserSettings) (F : CsvFormat) : Prop where
  sound : cfg.dialect.Sound
  follows : cfg.Follows F
  escape : cfg.dialect.escape = .doubleQuote
  single : cfg.dialect.multibyte = false
  quoting : cfg.syntax'.quotingEnabled = true
  unquotedQuotes : cfg.syntax'.permitsUnquotedQuotes = false
  initialSpace : cfg.skipInitialSpace = true →
    cfg.dialect.quote ≠ 32 ∧ cfg.dialect.recordEnding.byte ≠ 32
  trailingSpace : cfg.syntax'.permitsTrailingWhitespace = true →
    (∀ b, isTrailingSpace b = true → b ≠ cfg.dialect.quote ∧ b ≠ cfg.dialect.recordEnding.byte) ∧
      (cfg.dialect.recordEnding = .newline → cfg.dialect.quote ≠ 13)

namespace Splits

variable {cfg : ParserSettings} {F : CsvFormat} (h : Splits cfg F)

include h

theorem tails : cfg.dialect.delimiterTail.asSlice = [] ∧ cfg.dialect.endingTail.asSlice = [] :=
  Dialect.tails_of_single h.single

theorem widths : cfg.dialect.delimiterTail.width = 1 ∧ cfg.dialect.endingTail.width = 1 := by
  rw [Engine.Tail.width_eq h.sound.usable.1, Engine.Tail.width_eq h.sound.usable.2, h.tails.1, h.tails.2]
  exact ⟨rfl, rfl⟩

theorem confirms (after : Bytes) : cfg.dialect.delimiterTail.confirms after = true ∧
    cfg.dialect.endingTail.confirms after = true := by
  unfold Tail.confirms
  rw [h.tails.1, h.tails.2]
  exact ⟨rfl, rfl⟩

/-- An unquoted field is scanned for quotes. -/
theorem seeks : (cfg.syntax'.quotingEnabled && !cfg.syntax'.permitsUnquotedQuotes) = true := by
  rw [h.quoting, h.unquotedQuotes]; rfl

theorem unquotedByte : cfg.dialect.escape.unquotedByte = none := by
  rw [h.escape]; rfl

end Splits

/-- A fault of a record of which the first byte is at `start`, and which ends at
    `stop`: an error within it, or a panic. -/
def Fault.Within (start stop : ℕ) : Fault → Prop
  | .error _ location => start ≤ location.byte ∧ location.byte ≤ stop
  | .panic => True
  | .stuck => False

/-! ## The scan of a record -/

/-- A record that ends at `stop` goes on at `pos`. -/
structure Open (d : Dialect) (input : Bytes) (stop : ℕ) (inQuotes : Bool) (pos : ℕ) : Prop where
  le : pos ≤ input.length
  stop : stop = pos + Split.recordWidth d inQuotes (input.drop pos)

namespace Open

variable {d : Dialect} {input : Bytes} {stop pos : ℕ} {inQuotes : Bool}

theorem start (d : Dialect) {start : ℕ} (h : start ≤ input.length) :
    Open d input (Split.recordStop d input start) false start := ⟨h, rfl⟩

theorem le_stop (h : Open d input stop inQuotes pos) : pos ≤ stop := by
  have := h.stop
  omega

/-- At the end of the document the record ends. -/
theorem stop_of_length (h : Open d input stop inQuotes input.length) : stop = input.length := by
  have := h.stop
  rwa [List.drop_length, Split.recordWidth, Nat.add_zero] at this

/-- The scan takes one byte that does not end the record. -/
theorem step (h : Open d input stop inQuotes pos) {b : UInt8} {rest : Bytes}
    (hdrop : input.drop pos = b :: rest)
    (hb : ¬ (b = d.recordEnding.byte ∧ (if b = d.quote then !inQuotes else inQuotes) = false)) :
    Open d input stop (if b = d.quote then !inQuotes else inQuotes) (pos + 1) := by
  have hrest : input.drop (pos + 1) = rest := Window.drop_of_drop (u := [b]) hdrop (by simp)
  have hstop := h.stop
  rw [hdrop, Split.recordWidth, if_neg hb] at hstop
  refine ⟨Window.lt_length_of_drop hdrop, ?_⟩
  rw [hrest, hstop, Nat.add_assoc]

/-- The scan passes a text without a quote or, outside quotes, a record
    ending. -/
theorem skip : ∀ {u v : Bytes} {pos : ℕ}, Open d input stop inQuotes pos →
    input.drop pos = u ++ v →
    (∀ b ∈ u, b ≠ d.quote ∧ (inQuotes = false → b ≠ d.recordEnding.byte)) →
    Open d input stop inQuotes (pos + u.length)
  | [], _, _, h, _, _ => h
  | b :: u, v, pos, h, hdrop, hu => by
    obtain ⟨hq, he⟩ := hu b List.mem_cons_self
    have hcons : input.drop pos = b :: (u ++ v) := hdrop
    have hstep := h.step hcons
      (by rw [if_neg hq]; rintro ⟨h1, h2⟩; exact he h2 h1)
    rw [if_neg hq] at hstep
    have hrest : input.drop (pos + 1) = u ++ v :=
      Window.drop_of_drop (u := [b]) hdrop (by simp)
    have := hstep.skip hrest fun b hb => hu b (List.mem_cons_of_mem _ hb)
    rw [List.length_cons]
    rwa [Nat.add_assoc, Nat.add_comm 1] at this

/-- A quote opens or closes. -/
theorem quote (h : Open d input stop inQuotes pos) {rest : Bytes}
    (hdrop : input.drop pos = d.quote :: rest) (hne : d.recordEnding.byte ≠ d.quote) :
    Open d input stop (!inQuotes) (pos + 1) := by
  have := h.step hdrop (fun hb => hne hb.1.symm)
  rwa [if_pos rfl] at this

/-- Outside quotes the record ending ends the record. -/
theorem ending (h : Open d input stop false pos) {rest : Bytes}
    (hdrop : input.drop pos = d.recordEnding.byte :: rest) (hne : d.recordEnding.byte ≠ d.quote) :
    stop = pos + 1 := by
  have hstop := h.stop
  rwa [hdrop, Split.recordWidth, if_neg hne, if_pos ⟨rfl, rfl⟩] at hstop

/-- A byte that is neither a quote nor a record ending is passed. -/
theorem other (h : Open d input stop false pos) {b : UInt8} {rest : Bytes}
    (hdrop : input.drop pos = b :: rest) (hq : b ≠ d.quote) (he : b ≠ d.recordEnding.byte) :
    Open d input stop false (pos + 1) := by
  have := h.skip (u := [b]) (v := rest) hdrop (by simpa using ⟨hq, he⟩)
  simpa using this

end Open

namespace Engine

open Run

variable {cfg : ParserSettings} {F : CsvFormat} {input : Bytes} {e : Engine}
  {start stop : ℕ}

/-- Where a run of a record ends that begins at `start` and ends at `stop`. -/
abbrev Lands (start stop : ℕ) {α : Type} (Q : α → Engine → Prop)
    (r : EStateM.Result Fault Engine α) : Prop :=
  Ends (fun fault _ => fault.Within start stop) Q r

/-! ## Checks and pushes leave the cursor where it is -/

section checks

variable {byte : ℕ}

theorem error_lands {α : Type} {Q : α → Engine → Prop} (kind : ErrorKind) (h1 : start ≤ byte)
    (h2 : byte ≤ stop) (field : ℕ) : Lands start stop Q (errorFor input kind byte field e) :=
  ⟨h1, h2⟩

theorem checkRecordLimitFor_lands (recordStart field : ℕ) (h1 : start ≤ byte) (h2 : byte ≤ stop) :
    Lands start stop (fun _ e' => e' = e ∧ byte - recordStart ≤ cfg.limits.maxRecordBytes)
      (checkRecordLimitFor cfg input recordStart byte field e) := by
  unfold checkRecordLimitFor
  split_ifs with h
  · exact error_lands _ h1 h2 field
  · exact ⟨rfl, Nat.le_of_not_lt h⟩

theorem checkRecordLimit_lands (recordStart : ℕ) (h1 : start ≤ byte) (h2 : byte ≤ stop) :
    Lands start stop (fun _ e' => e' = e ∧ byte - recordStart ≤ cfg.limits.maxRecordBytes)
      (checkRecordLimit cfg input recordStart byte e) :=
  checkRecordLimitFor_lands recordStart _ h1 h2

/-- A scan that passes its check has reached the end of the document. -/
theorem checkScanEnd_lands (recordStart fieldStart : ℕ)
    (h1 : start ≤ scanEnd cfg input recordStart fieldStart)
    (h2 : scanEnd cfg input recordStart fieldStart ≤ stop) :
    Lands start stop
      (fun _ e' => e' = e ∧ scanEnd cfg input recordStart fieldStart = input.length)
      (checkScanEnd cfg input (scanEnd cfg input recordStart fieldStart) recordStart fieldStart
        e) := by
  unfold checkScanEnd checkScanEndFor
  split_ifs with h
  · exact error_lands _ h1 h2 _
  · refine (checkRecordLimitFor_lands recordStart _ h1 h2).mono (fun _ _ h => h) ?_
    rintro _ e' ⟨rfl, hlimit⟩
    refine ⟨rfl, ?_⟩
    unfold scanEnd at h hlimit ⊢
    omega

theorem checkScratchLimit_lands (scratchStart : ℕ) (h1 : start ≤ byte) (h2 : byte ≤ stop) :
    Lands start stop (fun _ e' => e' = e) (checkScratchLimit cfg input scratchStart byte e) := by
  unfold checkScratchLimit
  split_ifs
  · exact error_lands _ h1 h2 _
  · exact rfl

theorem pushSpan_lands (source : Source) (i j : ℕ) (quoted : Bool) (h1 : start ≤ byte)
    (h2 : byte ≤ stop) :
    Lands start stop (fun _ e' => e'.location = e.location)
      (pushSpan cfg input source i j byte quoted e) := by
  unfold pushSpan
  split
  · exact rfl
  · exact error_lands _ h1 h2 _

theorem pushNullSpan_lands (h1 : start ≤ byte) (h2 : byte ≤ stop) :
    Lands start stop (fun _ e' => e'.location = e.location) (pushNullSpan cfg input byte e) := by
  unfold pushNullSpan
  split_ifs
  · exact error_lands _ h1 h2 _
  · exact rfl

end checks

/-! ## Fields -/

theorem scanEnd_le (cfg : ParserSettings) (input : Bytes) (recordStart fieldStart : ℕ) :
    scanEnd cfg input recordStart fieldStart ≤ input.length := Nat.min_le_left _ _

theorem le_scanEnd {recordStart : ℕ} (h1 : recordStart ≤ start) (h2 : start ≤ input.length)
    {fieldStart : ℕ} (h3 : start ≤ fieldStart) :
    recordStart ≤ scanEnd cfg input recordStart fieldStart := by
  unfold scanEnd; omega

/-- Where the parse of a field leaves the cursor that was at `location`: behind
    the record if the field is the last one, and on the next field if not. -/
def FieldEnd (d : Dialect) (input : Bytes) (stop location : ℕ) : Bool → Engine → Prop
  | true, e => e.location = stop
  | false, e => Open d input stop false e.location ∧ location < e.location

section fields

variable (h : Splits cfg F)

include h

omit h in
/-- The engine is within a record at its cursor. -/
theorem skipSpaces_lands (hspace : cfg.dialect.quote ≠ 32 ∧ cfg.dialect.recordEnding.byte ≠ 32)
    (recordStart field : ℕ) :
    ∀ (fuel : ℕ) (e : Engine), start ≤ e.location → Open cfg.dialect input stop false e.location →
      input.length < e.location + fuel →
      Lands start stop (fun _ e' => e.location ≤ e'.location ∧
        Open cfg.dialect input stop false e'.location) (skipSpaces cfg input recordStart field fuel e)
  | 0, e, _, hopen, hfuel => absurd hopen.le (by omega)
  | fuel + 1, e, hstart, hopen, hfuel => by
    rw [skipSpaces, get_bind]
    split_ifs with hb
    · have hlt := (List.getElem?_eq_some_iff.mp hb).1
      have hdrop : input.drop e.location = 32 :: input.drop (e.location + 1) := by
        rw [List.drop_eq_getElem_cons hlt, (List.getElem?_eq_some_iff.mp hb).2]
      have hnext := hopen.other hdrop hspace.1.symm hspace.2.symm
      rw [set_bind]
      refine (checkRecordLimitFor_lands recordStart field (by omega) hnext.le_stop).bind ?_
      rintro _ e' ⟨rfl, -⟩
      refine (skipSpaces_lands hspace recordStart field fuel _ (by simp; omega) hnext
        (by simp; omega)).mono (fun _ _ h => h) ?_
      rintro _ e' ⟨hle, hopen'⟩
      simp only at hle
      exact ⟨by omega, hopen'⟩
    · exact ⟨Nat.le_refl _, hopen⟩

theorem skipDelimiterSpaces_lands (recordStart : ℕ) (hstart : start ≤ e.location)
    (hopen : Open cfg.dialect input stop false e.location) :
    Lands start stop (fun _ e' => e.location ≤ e'.location ∧
      Open cfg.dialect input stop false e'.location)
      (skipDelimiterSpaces cfg input F recordStart e) := by
  unfold skipDelimiterSpaces
  rw [get_bind, h.follows.skipInitialSpace]
  split_ifs with hskip
  · exact ⟨Nat.le_refl _, hopen⟩
  · simp only [Bool.or_eq_true, Bool.not_eq_true', not_or, Bool.not_eq_false] at hskip
    exact skipSpaces_lands (h.initialSpace hskip.1) recordStart _ _ e hstart hopen (by omega)

/-! ### Unquoted fields -/

omit h in
/-- The end of the document ends the field. -/
theorem endWindow_lands {push : Parse Unit} (recordStart fieldStart : ℕ)
    (h1 : start ≤ scanEnd cfg input recordStart fieldStart)
    (hopen : Open cfg.dialect input stop false (scanEnd cfg input recordStart fieldStart))
    (hpush : ∀ e : Engine, Lands start stop (fun _ e' => e'.location = e.location) (push e))
    (e : Engine) :
    Lands start stop (fun last e' => FieldEnd cfg.dialect input stop e.location last e')
      ((do
        checkScanEnd cfg input (scanEnd cfg input recordStart fieldStart) recordStart fieldStart
        push
        setLocation (scanEnd cfg input recordStart fieldStart)
        setTerminated false
        pure true : Parse Bool) e) := by
  refine (checkScanEnd_lands recordStart fieldStart h1 hopen.le_stop).bind ?_
  rintro _ e' ⟨rfl, hlength⟩
  refine (hpush _).bind ?_
  rintro _ e' -
  show scanEnd cfg input recordStart fieldStart = stop
  rw [hlength] at hopen
  rw [hlength, hopen.stop_of_length]

/-- `parse_unquoted_field_runtime`. -/
theorem parseUnquotedFieldRuntime_lands (hstart : start ≤ e.location)
    (hopen : Open cfg.dialect input stop false e.location) :
    Lands start stop (FieldEnd cfg.dialect input stop e.location)
      (parseUnquotedFieldRuntime cfg F input start e) := by
  unfold parseUnquotedFieldRuntime
  rw [get_bind]
  simp only [h.follows.dialect, h.follows.syntax', h.seeks, if_true]
  split_ifs with hpanic
  · trivial
  have hle := scanEnd_le cfg input start e.location
  rcases hspecial : find3 cfg.dialect.delimiter cfg.dialect.quote cfg.dialect.recordEnding.byte
    (slice input e.location (scanEnd cfg input start e.location)) with _ | relative
  · obtain ⟨u, hdrop, hlen, hu⟩ := Window.of_window_none (Nat.le_of_not_lt hpanic) hle hspecial
    have hscan := hopen.skip hdrop fun b hb => by
      have := hu b hb
      simp only [Bool.or_eq_false_iff, beq_eq_false_iff_ne] at this
      exact ⟨this.1.2, fun _ => this.2⟩
    rw [← hlen] at hscan
    exact endWindow_lands start e.location (by omega) hscan
      (fun e => pushSpan_lands _ _ _ _ (by omega) hscan.le_stop) e
  · obtain ⟨u, x, v, hdrop, hlen, hx, hu, -⟩ := Window.of_window_some hspecial
    have hpos := hopen.skip hdrop fun b hb => by
      have := hu b hb
      simp only [Bool.or_eq_false_iff, beq_eq_false_iff_ne] at this
      exact ⟨this.1.2, fun _ => this.2⟩
    have hrest : input.drop (e.location + relative) = x :: v :=
      Window.drop_of_drop hdrop (by rw [hlen])
    have hbyte : byteAt input (e.location + relative) = x := byteAt_of_drop hdrop (by rw [hlen])
    rw [hlen] at hpos
    simp only [hbyte]
    by_cases hquote : x = cfg.dialect.quote
    · rw [if_pos hquote]
      exact error_lands _ (by omega) hpos.le_stop _
    rw [if_neg hquote]
    have hnext : if x = cfg.dialect.recordEnding.byte then stop = e.location + relative + 1
        else Open cfg.dialect input stop false (e.location + relative + 1) := by
      split_ifs with hending
      · exact hpos.ending (hending ▸ hrest) h.sound.ending_ne_quote
      · exact hpos.other hrest hquote hending
    have hbound : e.location + relative + 1 ≤ stop := by
      split_ifs at hnext with hending
      · exact Nat.le_of_eq hnext.symm
      · exact hnext.le_stop
    refine (pushSpan_lands .input _ _ false (by omega) hpos.le_stop).bind ?_
    rintro _ e₁ -
    rw [bind_ok (setLocation_apply ..), bind_ok (noteTerminatedIf_apply ..)]
    refine (checkRecordLimit_lands start (by omega) hbound).bind ?_
    rintro _ e' ⟨rfl, -⟩
    rcases hending : x == cfg.dialect.recordEnding.byte with _ | _
    · rw [if_neg (by simpa using hending)] at hnext
      exact ⟨hnext, Nat.lt_succ_of_le (Nat.le_add_right e.location relative)⟩
    · rw [if_pos (by simpa using hending)] at hnext
      exact hnext.symm

/-! ### The general scan -/

theorem pushGeneralUnquotedSpan_lands {fieldStart fieldEnd pos : ℕ} (header : Bool)
    (h1 : start ≤ fieldStart) (h2 : fieldStart ≤ pos) (h3 : pos ≤ stop) (e : Engine) :
    Lands start stop (fun _ e' => e'.location = e.location)
      (pushGeneralUnquotedSpan cfg input fieldStart fieldEnd pos header e) := by
  unfold pushGeneralUnquotedSpan
  rw [h.unquotedByte]
  simp only
  split_ifs
  · exact pushNullSpan_lands h1 (by omega)
  · exact pushSpan_lands _ _ _ _ (by omega) h3

/-- Where an unquoted field ends leaves the cursor behind the record, or on the
    next field. -/
def StopEnd (d : Dialect) (input : Bytes) (stop pos : ℕ) : UnquotedStop → Prop
  | .resume _ => False
  | .invalid _ => True
  | .ends _ location true => location = stop
  | .ends _ location false => Open d input stop false location ∧ pos < location

theorem unquotedStop_lands (fieldStart : ℕ) {pos : ℕ} {x : UInt8} {v : Bytes}
    (hpos : Open cfg.dialect input stop false pos) (hdrop : input.drop pos = x :: v) :
    StopEnd cfg.dialect input stop pos (unquotedStop cfg input fieldStart pos) := by
  have hbyte : byteAt input pos = x := byteAt_of_drop (u := []) hdrop rfl
  have hafter : input.drop (pos + 1) = v := Window.drop_of_drop (u := [x]) hdrop (by simp)
  unfold unquotedStop
  simp only [hbyte, hafter, h.unquotedByte, reduceCtorEq, if_false, h.seeks, Bool.true_and,
    h.confirms, h.widths, if_true]
  by_cases hquote : (x == cfg.dialect.quote) = true
  · rw [if_pos hquote]; trivial
  rw [if_neg hquote]
  rw [beq_iff_eq] at hquote
  by_cases hcr : (cfg.dialect.recordEnding == .crLf && x == 13) = true
  · rw [if_pos hcr]
    simp only [Bool.and_eq_true, beq_iff_eq] at hcr
    have hending : cfg.dialect.recordEnding.byte = 10 := by rw [hcr.1]; rfl
    split_ifs with hlf
    · -- a carriage return goes with its line feed
      obtain ⟨w, rfl⟩ : ∃ w, v = 10 :: w := by
        cases v with
        | nil => cases hlf
        | cons b w => exact ⟨w, by rw [Option.some.inj hlf]⟩
      have hnext := hpos.other hdrop hquote (by rw [hending, hcr.2]; decide)
      exact (hnext.ending (hending ▸ hafter) h.sound.ending_ne_quote).symm
    · trivial
  rw [if_neg hcr]
  by_cases hending : x = cfg.dialect.recordEnding.byte
  · rw [if_pos hending]
    have hstop := hpos.ending (hending ▸ hdrop) h.sound.ending_ne_quote
    split_ifs
    · trivial
    · exact hstop.symm
    · exact hstop.symm
  · rw [if_neg hending]
    exact ⟨hpos.other hdrop hquote hending, Nat.lt_succ_self pos⟩

omit h in
/-- A byte that the scan passes over goes on. -/
theorem Open.pass {o : FormatSettings} (hseek : o.syntax'.seeksQuotes = true) {u v : Bytes}
    {pos : ℕ} (hopen : Open o.dialect input stop false pos) (hdrop : input.drop pos = u ++ v)
    (hu : ∀ b ∈ u, searchByte o b = false) : Open o.dialect input stop false (pos + u.length) :=
  hopen.skip hdrop fun b hb => by
    have := hu b hb
    simp only [searchByte, hseek, Bool.true_and, Bool.or_eq_false_iff, beq_eq_false_iff_ne] at this
    exact ⟨this.1.1.2, fun _ => this.1.1.1.2⟩

theorem generalUnquotedLoop_lands {fieldStart : ℕ} (header : Bool) (hstart : start ≤ fieldStart)
    (hlocation : e.location = fieldStart) :
    ∀ (fuel cursor : ℕ), fieldStart ≤ cursor → Open cfg.dialect input stop false cursor →
      (if cursor ≥ scanEnd cfg input start fieldStart then 1 else 2) ≤ fuel →
      (cursor ≤ scanEnd cfg input start fieldStart) →
      Lands start stop (FieldEnd cfg.dialect input stop fieldStart)
        (generalUnquotedLoop cfg input (cfg.dialect.recordEnding == .crLf
          || cfg.dialect.escape.escapesUnquoted) start fieldStart header fuel cursor e)
  | 0, cursor, _, _, hfuel, _ => by split_ifs at hfuel <;> omega
  | fuel + 1, cursor, hcursor, hopen, hfuel, hscan => by
    have hle := scanEnd_le cfg input start fieldStart
    rw [generalUnquotedLoop]
    simp only [findStopByte_eq]
    by_cases hend : cursor ≥ scanEnd cfg input start fieldStart
    · rw [if_pos hend]
      obtain rfl : cursor = scanEnd cfg input start fieldStart := Nat.le_antisymm hscan hend
      rw [← hlocation]
      rw [← hlocation] at hopen hcursor
      exact endWindow_lands start e.location (by omega) hopen
        (fun e => pushGeneralUnquotedSpan_lands h header (by omega) (by omega) hopen.le_stop e) e
    rw [if_neg hend]
    rw [if_neg hend] at hfuel
    rcases hfind : (slice input cursor (scanEnd cfg input start fieldStart)).findIdx?
      (searchByte cfg.toFormatSettings) with _ | relative
    · obtain ⟨u, hdrop, hlen, hu⟩ := Window.of_window_none hscan hle hfind
      have hnext := Open.pass (o := cfg.toFormatSettings) h.seeks hopen hdrop hu
      rw [← hlen] at hnext
      exact generalUnquotedLoop_lands header hstart hlocation fuel _ (by omega) hnext
        (by rw [if_pos (Nat.le_refl _)]; omega) (Nat.le_refl _)
    · obtain ⟨u, x, v, hdrop, hlen, hx, hu, -⟩ := Window.of_window_some hfind
      have hpos := Open.pass (o := cfg.toFormatSettings) h.seeks hopen hdrop hu
      have hrest : input.drop (cursor + relative) = x :: v :=
        Window.drop_of_drop hdrop (by rw [hlen])
      rw [hlen] at hpos
      have hstop := unquotedStop_lands h fieldStart hpos hrest
      simp only
      rcases hs : unquotedStop cfg input fieldStart (cursor + relative) with
        _ | kind | ⟨fieldEnd, location, terminated⟩
      · rw [hs] at hstop; exact hstop.elim
      · exact error_lands _ (by omega) hpos.le_stop _
      · rw [hs] at hstop
        have hbound : location ≤ stop ∧ start ≤ location := by
          cases terminated with
          | true => exact ⟨Nat.le_of_eq hstop, by have := hpos.le_stop; have : location = stop := hstop; omega⟩
          | false => exact ⟨hstop.1.le_stop, by have := hstop.2; omega⟩
        simp only
        unfold endGeneralField
        refine (pushGeneralUnquotedSpan_lands h header hstart (by omega) hpos.le_stop e).bind ?_
        rintro _ e₁ -
        rw [bind_ok (setLocation_apply ..), bind_ok (noteTerminatedIf_apply ..)]
        refine (checkRecordLimit_lands start hbound.2 hbound.1).bind ?_
        rintro _ e' ⟨rfl, -⟩
        cases terminated with
        | true => exact hstop
        | false => exact ⟨hstop.1, by have := hstop.2; simp [Engine.parsed]; omega⟩

/-- `parse_unquoted_field`. -/
theorem parseUnquotedField_lands (header : Bool) (hstart : start ≤ e.location)
    (hopen : Open cfg.dialect input stop false e.location) :
    Lands start stop (FieldEnd cfg.dialect input stop e.location)
      (parseUnquotedField cfg F input start header e) := by
  unfold parseUnquotedField
  split_ifs
  · unfold parseGeneralUnquotedField
    rw [get_bind]
    by_cases hscan : e.location ≤ scanEnd cfg input start e.location
    · refine generalUnquotedLoop_lands h header hstart rfl _ _ (Nat.le_refl _) hopen ?_ hscan
      split_ifs <;> omega
    · -- the field starts behind the limit of the record
      have hle := hopen.le
      have hstop := hopen.le_stop
      rw [generalUnquotedLoop, if_pos (by omega)]
      unfold endGeneralWindow
      refine (checkScanEnd_lands start e.location (le_scanEnd (Nat.le_refl _) (by omega) hstart)
        (by omega)).bind ?_
      rintro _ e' ⟨-, hlength⟩
      exact absurd hlength (by omega)
  · exact parseUnquotedFieldRuntime_lands h hstart hopen

/-! ### Quoted fields -/

omit h in
theorem endQuotedRecord_lands (terminated : Bool) {location fieldStart : ℕ}
    (h1 : start ≤ location) (h2 : location = stop) :
    Lands start stop (FieldEnd cfg.dialect input stop fieldStart)
      (endQuotedRecord cfg input start location terminated e) := by
  unfold endQuotedRecord
  rw [bind_ok (setLocation_apply ..), bind_ok (setTerminated_apply ..)]
  refine (checkRecordLimit_lands start h1 (Nat.le_of_eq h2)).bind ?_
  rintro _ e' ⟨rfl, -⟩
  exact h2

/-- White space behind a closing quote is no part of what the splitter looks
    for. -/
theorem skipPostQuoteWhitespace_lands {afterQuote : ℕ}
    (hopen : Open cfg.dialect input stop false afterQuote) :
    Open cfg.dialect input stop false (skipPostQuoteWhitespace input
      cfg.syntax'.permitsTrailingWhitespace afterQuote) ∧
    afterQuote ≤ skipPostQuoteWhitespace input cfg.syntax'.permitsTrailingWhitespace afterQuote := by
  unfold skipPostQuoteWhitespace
  split_ifs with hpermits
  · refine ⟨hopen.skip (List.takeWhile_append_dropWhile ..).symm fun b hb => ?_, Nat.le_add_right _ _⟩
    have := (h.trailingSpace hpermits).1 b (List.mem_takeWhile_imp hb)
    exact ⟨this.1, fun _ => this.2⟩
  · exact ⟨hopen, Nat.le_refl _⟩

/-- The carriage return of a record ending is no quote. -/
theorem return_ne_quote {afterQuote : ℕ} (hquote : input[afterQuote]? ≠ some cfg.dialect.quote) :
    input[skipPostQuoteWhitespace input cfg.syntax'.permitsTrailingWhitespace afterQuote]? =
      some 13 → cfg.dialect.recordEnding.stripsCr = true → cfg.dialect.quote ≠ 13 := by
  intro hget hstrip hq
  rcases hp : cfg.syntax'.permitsTrailingWhitespace with _ | _
  · rw [hp] at hget
    exact hquote (by rw [hq]; exact hget)
  · rcases hr : cfg.dialect.recordEnding with _ | _ | b
    · exact (h.trailingSpace hp).2 hr hq
    · exact h.sound.crLf_quote hr hq
    · rw [hr] at hstrip; cases hstrip

/-- `finish_quoted_field_runtime`. -/
theorem finishQuotedField_lands {afterQuote location : ℕ} (hstart : start ≤ location)
    (hlocation : location < afterQuote) (hopen : Open cfg.dialect input stop false afterQuote)
    (hquote : input[afterQuote]? ≠ some cfg.dialect.quote) :
    Lands start stop (FieldEnd cfg.dialect input stop location)
      (finishQuotedField cfg F input start afterQuote e) := by
  unfold finishQuotedField
  obtain ⟨hafter, hle⟩ := skipPostQuoteWhitespace_lands h hopen
  simp only [h.follows.dialect, h.follows.syntax', h.confirms, h.widths, Bool.and_true]
  have hreturn := return_ne_quote h hquote
  generalize skipPostQuoteWhitespace input cfg.syntax'.permitsTrailingWhitespace afterQuote = pos
    at hafter hle hreturn ⊢
  rcases hnext : input[pos]? with _ | next
  · have hlen : pos = input.length :=
      Nat.le_antisymm hafter.le (List.getElem?_eq_none_iff.mp hnext)
    rw [hlen] at hafter
    exact endQuotedRecord_lands false (by omega) (hlen.trans hafter.stop_of_length.symm)
  have hlt := (List.getElem?_eq_some_iff.mp hnext).1
  have hdrop : input.drop pos = next :: input.drop (pos + 1) := by
    rw [List.drop_eq_getElem_cons hlt, (List.getElem?_eq_some_iff.mp hnext).2]
  simp only
  by_cases hdelimiter : (next == cfg.dialect.delimiter) = true
  · rw [if_pos hdelimiter]
    rw [beq_iff_eq] at hdelimiter
    exact ⟨hafter.other hdrop (hdelimiter ▸ h.sound.delimiter_ne_quote)
      (hdelimiter ▸ h.sound.ending_ne_delimiter.symm), by simp; omega⟩
  rw [if_neg hdelimiter]
  by_cases hending : (!(cfg.dialect.recordEnding == .crLf) &&
      next == cfg.dialect.recordEnding.byte) = true
  · rw [if_pos hending]
    simp only [Bool.and_eq_true, beq_iff_eq] at hending
    exact endQuotedRecord_lands true (by omega)
      (hafter.ending (hending.2 ▸ hdrop) h.sound.ending_ne_quote).symm
  rw [if_neg hending]
  by_cases hcr : (cfg.dialect.recordEnding.stripsCr && next == 13 &&
      (input.drop (pos + 1)).head? == some 10) = true
  · rw [if_pos hcr]
    simp only [Bool.and_eq_true, beq_iff_eq] at hcr
    have hlf : cfg.dialect.recordEnding.byte = 10 := by
      have := hcr.1.1
      rcases hr : cfg.dialect.recordEnding with _ | _ | b
      · rfl
      · rfl
      · rw [hr] at this; cases this
    obtain ⟨w, hw⟩ : ∃ w, input.drop (pos + 1) = 10 :: w := by
      rcases hd : input.drop (pos + 1) with _ | ⟨b, w⟩
      · rw [hd] at hcr; exact absurd hcr.2 (by simp)
      · rw [hd] at hcr; exact ⟨w, by rw [Option.some.inj hcr.2]⟩
    have hne : next ≠ cfg.dialect.quote := by
      rw [hcr.1.2]
      exact (hreturn (by rw [hnext, hcr.1.2]) hcr.1.1).symm
    have hopen' := hafter.other hdrop hne (by rw [hlf, hcr.1.2]; decide)
    exact endQuotedRecord_lands true (by omega)
      (hopen'.ending (hlf ▸ hw) h.sound.ending_ne_quote).symm
  · rw [if_neg hcr]
    exact error_lands _ (by omega) hafter.le_stop _

theorem closeQuotedField_lands {contentStart scratchStart segmentStart pos location : ℕ}
    (copied : Bool) (hstart : start ≤ location) (hlocation : location < pos + 1)
    (hopen : Open cfg.dialect input stop false (pos + 1))
    (hquote : input[pos + 1]? ≠ some cfg.dialect.quote) :
    Lands start stop (FieldEnd cfg.dialect input stop location)
      (closeQuotedField cfg F input start contentStart scratchStart segmentStart pos copied e) := by
  have hstop := hopen.le_stop
  have hpush : ∀ (source : Source) (i j : ℕ) (e : Engine),
      Lands start stop (FieldEnd cfg.dialect input stop location)
        ((do
          pushSpan cfg input source i j pos true
          finishQuotedField cfg F input start (pos + 1) : Parse Bool) e) := by
    intro source i j e
    refine (pushSpan_lands source i j true (by omega) (by omega)).bind ?_
    intro _ e' _
    exact finishQuotedField_lands h hstart hlocation hopen hquote
  unfold closeQuotedField
  cases copied with
  | true =>
    simp only [if_true]
    rw [bind_ok (extendScratch_apply _ _), get_bind]
    exact hpush _ _ _ _
  | false =>
    simp only [Bool.false_eq_true, if_false]
    rw [get_bind]
    exact hpush _ _ _ _

/-- The loop of `parse_quoted_field_runtime`: between quotes two quotes go on. -/
theorem quotedLoop_lands {contentStart scratchStart location : ℕ} (hstart : start ≤ location)
    (hlocation : location < contentStart) :
    ∀ (fuel segmentStart cursor : ℕ) (copied : Bool) (e : Engine), contentStart ≤ cursor →
      Open cfg.dialect input stop true cursor → input.length + 2 ≤ fuel + cursor →
      Lands start stop (FieldEnd cfg.dialect input stop location)
        (quotedLoop cfg F input start contentStart scratchStart fuel segmentStart cursor copied e) := by
  intro fuel
  induction fuel with
  | zero =>
    intro _ cursor _ _ _ hopen hfuel
    exact absurd hopen.le (by omega)
  | succ fuel ih =>
    intro segmentStart cursor copied e hcursor hopen hfuel
    have hle := scanEnd_le cfg input start contentStart
    have hin := hopen.le
    have hstop := hopen.le_stop
    rw [quotedLoop]
    simp only [h.follows.dialect]
    by_cases hend : cursor > scanEnd cfg input start contentStart
    · rw [if_pos hend]
      refine (checkRecordLimit_lands start (le_scanEnd (Nat.le_refl _) (by omega) (by omega))
        (by omega)).bind ?_
      intro _ e' _
      trivial
    rw [if_neg hend]
    have hsearch : findQuoted cfg.dialect (slice input cursor (scanEnd cfg input start contentStart)) =
        (slice input cursor (scanEnd cfg input start contentStart)).findIdx?
          (· == cfg.dialect.quote) := by
      unfold findQuoted
      rw [h.escape]; rfl
    rw [hsearch]
    rcases hfind : (slice input cursor (scanEnd cfg input start contentStart)).findIdx?
      (· == cfg.dialect.quote) with _ | relative
    · obtain ⟨u, hdrop, hlen, hu⟩ := Window.of_window_none (Nat.le_of_not_lt hend) hle hfind
      have hscan := hopen.skip hdrop fun b hb => ⟨by simpa using hu b hb, fun h => (by cases h)⟩
      rw [← hlen] at hscan
      refine (checkScanEnd_lands start contentStart (by omega) hscan.le_stop).bind ?_
      rintro _ e' -
      exact error_lands _ (by omega) hscan.le_stop _
    · obtain ⟨u, x, v, hdrop, hlen, hx, hu, -⟩ := Window.of_window_some hfind
      obtain rfl : x = cfg.dialect.quote := by simpa using hx
      have hpos := hopen.skip hdrop fun b hb => ⟨by simpa using hu b hb, fun h => (by cases h)⟩
      have hrest : input.drop (cursor + relative) = cfg.dialect.quote :: v :=
        Window.drop_of_drop hdrop (by rw [hlen])
      have hafter : input.drop (cursor + relative + 1) = v :=
        Window.drop_of_drop (u := [cfg.dialect.quote]) hrest (by simp)
      rw [hlen] at hpos
      have hclosed := hpos.quote hrest h.sound.ending_ne_quote
      have hbound := hclosed.le_stop
      have hstopEq : quotedStop input (cfg.fmt F) (scanEnd cfg input start contentStart)
          (cursor + relative) = if input[cursor + relative + 1]? = some cfg.dialect.quote then
            .escaped cfg.dialect.quote else .closing := by
        simp only [quotedStop, h.follows.dialect, h.escape]
      simp only [hstopEq]
      by_cases hnext : input[cursor + relative + 1]? = some cfg.dialect.quote
      · rw [if_pos hnext]
        simp only
        have hagain : input.drop (cursor + relative + 1) =
            cfg.dialect.quote :: input.drop (cursor + relative + 2) := by
          rw [List.drop_eq_getElem_cons (List.getElem?_eq_some_iff.mp hnext).1,
            (List.getElem?_eq_some_iff.mp hnext).2]
        have hopened := hclosed.quote hagain h.sound.ending_ne_quote
        unfold copySegment
        rw [bind_ok (extendScratch_apply _ _), bind_ok (extendScratch_apply _ _)]
        refine (checkScratchLimit_lands scratchStart (by omega) (by omega)).bind ?_
        intro _ e' _
        exact ih _ _ _ _ (by omega) hopened (by omega)
      · rw [if_neg hnext]
        exact closeQuotedField_lands h copied hstart (by omega) hclosed hnext

theorem parseQuotedField_lands (hstart : start ≤ e.location)
    (hopen : Open cfg.dialect input stop false e.location)
    (hquote : input[e.location]? = some cfg.dialect.quote) :
    Lands start stop (FieldEnd cfg.dialect input stop e.location)
      (parseQuotedField cfg F input start e) := by
  unfold parseQuotedField
  rw [get_bind]
  have hdrop : input.drop e.location = cfg.dialect.quote :: input.drop (e.location + 1) := by
    rw [List.drop_eq_getElem_cons (List.getElem?_eq_some_iff.mp hquote).1,
      (List.getElem?_eq_some_iff.mp hquote).2]
  exact quotedLoop_lands h hstart (Nat.lt_succ_self _) _ _ _ _ e (Nat.le_refl _)
    (hopen.quote hdrop h.sound.ending_ne_quote) (by omega)

/-! ## The field-by-field parser -/

/-- One field. -/
theorem parseField_lands (header : Bool) (hstart : start ≤ e.location)
    (hopen : Open cfg.dialect input stop false e.location) :
    Lands start stop (FieldEnd cfg.dialect input stop e.location)
      (parseField cfg F input start header e) := by
  unfold parseField
  refine (skipDelimiterSpaces_lands h start hstart hopen).bind ?_
  rintro _ e' ⟨hle, hopen'⟩
  rw [get_bind]
  have hmono : ∀ (last : Bool) (e'' : Engine), FieldEnd cfg.dialect input stop e'.location last e'' →
      FieldEnd cfg.dialect input stop e.location last e'' := by
    rintro (_ | _) e'' hend
    · exact ⟨hend.1, Nat.lt_of_le_of_lt hle hend.2⟩
    · exact hend
  rw [h.follows.dialect, h.follows.syntax', h.quoting]
  split_ifs with hquote
  · exact (parseQuotedField_lands h (by omega) hopen' hquote.1).mono (fun _ _ h => h) hmono
  · exact (parseUnquotedField_lands h header (by omega) hopen').mono (fun _ _ h => h) hmono

omit h in
theorem validateFieldCount_lands {actual : ℕ} (h1 : start ≤ e.location) (h2 : e.location ≤ stop) :
    Lands start stop (fun _ e' => e'.location = e.location)
      (validateFieldCount cfg input actual e) := by
  have hcheck : ∀ expected, Lands start stop (fun _ e' => e'.location = e.location)
      ((if actual = expected then pure ()
        else error input (.fieldCountMismatch expected actual) e.location : Parse Unit) e) := by
    intro expected
    split_ifs
    · exact rfl
    · exact error_lands _ h1 h2 _
  unfold validateFieldCount
  rw [get_bind]
  rcases cfg.fieldCount with _ | _ | expected
  · exact rfl
  · rcases e.expectedFields with _ | expected
    · exact rfl
    · exact hcheck expected
  · exact hcheck expected

omit h in
theorem markNullSpans_location (cfg : ParserSettings) (F : CsvFormat) (input : Bytes)
    (header : Bool) (e : Engine) :
    ∃ s, markNullSpans cfg F input header e = .ok () (e.parsed e.location s e.terminated) := by
  unfold markNullSpans
  split_ifs
  · exact ⟨e.spans, rfl⟩
  · exact ⟨_, rfl⟩

/-- The loop over the fields ends where the record does. -/
theorem fieldsLoop_lands (header : Bool) :
    ∀ (fuel : ℕ) (e : Engine), start ≤ e.location →
      Open cfg.dialect input stop false e.location → input.length + 1 ≤ fuel + e.location →
      Lands start stop (fun _ e' => e'.location = stop)
        (fieldsLoop cfg F input start header fuel e)
  | 0, e, _, hopen, hfuel => absurd hopen.le (by omega)
  | fuel + 1, e, hstart, hopen, hfuel => by
    rw [fieldsLoop]
    have hbound := hopen.le_stop
    refine (parseField_lands h header hstart hopen).bind ?_
    rintro (_ | _) e' hend
    · rw [if_neg (by simp)]
      have := hend.2
      exact fieldsLoop_lands header fuel e' (by omega) hend.1 (by omega)
    · rw [if_pos rfl]
      obtain ⟨s, hmark⟩ := markNullSpans_location cfg F input header e'
      have hlocation : e'.location = stop := hend
      rw [bind_ok hmark, get_bind]
      refine (validateFieldCount_lands (by rw [parsed_location]; omega)
        (by rw [parsed_location]; omega)).mono (fun _ _ h => h) ?_
      intro _ e'' hsame
      rw [hsame, parsed_location, hlocation]

theorem parseRecordFields_lands (header : Bool) (hstart : start ≤ e.location)
    (hopen : Open cfg.dialect input stop false e.location) :
    Lands start stop (fun _ e' => e'.location = stop)
      (parseRecordFields cfg F input start header e) :=
  fieldsLoop_lands h header _ e hstart hopen (by omega)

/-! ## The plain kernel -/

/-- A kernel leaves the cursor behind the record, or where it was when it
    declines. -/
def Taken (stop location : ℕ) (taken : Bool) (e : Engine) : Prop :=
  e.location = if taken then stop else location

omit h in
theorem endPlainRecord_lands {fieldStart fieldEnd pos location : ℕ} (terminated : Bool)
    (h1 : start ≤ pos) (h2 : pos ≤ location) (h3 : location = stop) (e : Engine) {first : ℕ} :
    Lands start stop (Taken stop first)
      (endPlainRecord cfg F input start fieldStart fieldEnd pos location terminated e) := by
  unfold endPlainRecord
  refine (pushSpan_lands .input _ _ false h1 (by omega)).bind ?_
  intro _ e' _
  rw [bind_ok (setLocation_apply ..), bind_ok (setTerminated_apply ..)]
  refine (checkRecordLimit_lands start (by omega) (by omega)).bind ?_
  rintro _ e'' ⟨rfl, -⟩
  obtain ⟨l, u, hfold⟩ := foldPlainRecord_apply
    (e := (e'.parsed location e'.spans e'.terminated).parsed location e'.spans terminated)
    cfg F start terminated
  exact (bind_ok hfold).symm ▸ h3

theorem hasEscape_false (recordStart cursor : ℕ) :
    hasEscape cfg F input recordStart cursor = false := by
  unfold hasEscape
  rw [h.follows.dialect, h.unquotedByte]; rfl

/-- The plain kernel ends a record at its first record ending, when it has no
    quote. -/
theorem plainLoop_lands {scanEnd : ℕ} (hscan : scanEnd ≤ input.length) :
    ∀ (text : Bytes) (pos fieldStart : ℕ) (e : Engine), start ≤ pos →
      pos + text.length = scanEnd → input.drop pos = text ++ input.drop scanEnd →
      Open cfg.dialect input stop false pos →
      Lands start stop (Taken stop e.location) (plainLoop cfg F input start scanEnd fieldStart
        (structuralMatches cfg.dialect pos text) e)
  | [], pos, fieldStart, e, hstart, hlen, hdrop, hopen => by
    obtain rfl : pos = scanEnd := by simpa using hlen
    rw [structuralMatches, plainLoop, hasEscape_false h]
    simp only [Bool.false_eq_true, if_false]
    split_ifs with hlimit
    · exact error_lands _ hstart hopen.le_stop _
    · obtain rfl : pos = input.length := by omega
      exact endPlainRecord_lands false hstart (Nat.le_refl _) hopen.stop_of_length.symm e
  | b :: text, pos, fieldStart, e, hstart, hlen, hdrop, hopen => by
    have hrest : input.drop (pos + 1) = text ++ input.drop scanEnd :=
      Window.drop_of_drop (u := [b]) hdrop (by simp)
    rw [List.length_cons] at hlen
    have hnext : b ≠ cfg.dialect.quote → b ≠ cfg.dialect.recordEnding.byte →
        ∀ (fieldStart : ℕ) (e' : Engine), e'.location = e.location →
        Lands start stop (Taken stop e.location) (plainLoop cfg F input start scanEnd fieldStart
          (structuralMatches cfg.dialect (pos + 1) text) e') := by
      intro hq he fieldStart e' hsame
      rw [← hsame]
      exact plainLoop_lands hscan text (pos + 1) fieldStart e' (by omega) (by omega) hrest
        (hopen.other hdrop hq he)
    rw [structuralMatches]
    split_ifs with hmatch
    · rw [plainLoop]
      simp only [h.follows.dialect, h.follows.syntax', hasEscape_false h, h.quoting,
        h.unquotedQuotes, or_true, and_true, Bool.false_eq_true, if_false]
      by_cases hdelimiter : b = cfg.dialect.delimiter
      · rw [if_pos hdelimiter]
        refine (pushSpan_lands .input _ _ false hstart hopen.le_stop).bind ?_
        intro _ e' hsame
        exact hnext (hdelimiter ▸ h.sound.delimiter_ne_quote)
          (hdelimiter ▸ h.sound.ending_ne_delimiter.symm) _ e' hsame
      rw [if_neg hdelimiter]
      by_cases hquote : b = cfg.dialect.quote
      · rw [if_pos hquote]
        exact rfl
      rw [if_neg hquote]
      by_cases hending : b = cfg.dialect.recordEnding.byte
      · rw [if_pos hending]
        exact endPlainRecord_lands true hstart (Nat.le_succ _)
          (hopen.ending (hending ▸ hdrop) h.sound.ending_ne_quote).symm e
      · rw [if_neg hending]
        exact hnext hquote hending _ e rfl
    · simp only [Bool.or_eq_true, beq_iff_eq, not_or] at hmatch
      exact hnext hmatch.1.2 hmatch.2 _ e rfl

theorem plainKernel_lands (hopen : Open cfg.dialect input stop false start) :
    Lands start stop (Taken stop e.location) (plainKernel cfg F input start e) := by
  have hle := hopen.le
  unfold plainKernel
  simp only [h.follows.dialect]
  have hend : start + (slice input start (min input.length
      (start + (cfg.limits.maxRecordBytes + 1)))).length =
        min input.length (start + (cfg.limits.maxRecordBytes + 1)) := by
    simp only [slice, List.length_drop, List.length_take]
    omega
  refine plainLoop_lands h (Nat.min_le_left _ _) _ _ _ e (Nat.le_refl _) hend ?_ hopen
  unfold slice
  rw [← List.drop_append_of_le_length (by simp; omega), List.take_append_drop]

/-! ## The kernels of the default dialect -/

section kernels

variable (hcsv : cfg.dialect = .csv)

include hcsv

omit h in
/-- The text of a line is passed, and its line feed ends the record. -/
theorem Open.line {w v : Bytes} {pos : ℕ} (hopen : Open cfg.dialect input stop false pos)
    (hdrop : input.drop pos = w ++ 10 :: v) (hw : ∀ b ∈ w, b ≠ 34 ∧ b ≠ 10) :
    stop = pos + w.length + 1 := by
  have hend := hopen.skip hdrop fun b hb => by
    rw [hcsv]
    exact ⟨(hw b hb).1, fun _ => (hw b hb).2⟩
  have hrest : input.drop (pos + w.length) = cfg.dialect.recordEnding.byte :: v := by
    rw [hcsv]
    exact Window.drop_of_drop hdrop rfl
  exact hend.ending hrest (by rw [hcsv]; decide)

omit h hcsv in
/-- Without a line feed the block kernel declines. -/
theorem borrowedPlainBlocks_none {recordStart : ℕ} :
    ∀ (fuel consumed fieldStart : ℕ) (spans : List Span),
      10 ∉ input.drop (recordStart + consumed) →
      borrowedPlainBlocks input recordStart fuel consumed fieldStart spans = none
  | 0, _, _, _, _ => rfl
  | fuel + 1, consumed, fieldStart, spans, hnone => by
    have hblock : maskOf 10 ((input.drop (recordStart + consumed)).take 32) = [] :=
      maskOf_eq_nil.mpr fun hm => hnone (List.mem_of_mem_take hm)
    rw [borrowedPlainBlocks]
    simp only [hblock, List.head?_nil]
    split_ifs
    · rfl
    · rfl
    · refine borrowedPlainBlocks_none fuel (consumed + 32) _ _ fun hm => hnone ?_
      rw [← Nat.add_assoc, ← List.drop_drop] at hm
      exact List.mem_of_mem_drop hm

omit h in
theorem tryParseDefaultBorrowedPlain_lands (hopen : Open cfg.dialect input stop false start)
    {spans spans' : List Span} {consumed : ℕ}
    (hrun : tryParseDefaultBorrowedPlain cfg input start spans = some (consumed, spans')) :
    start + consumed = stop := by
  unfold tryParseDefaultBorrowedPlain at hrun
  split_ifs at hrun
  by_cases hlf : 10 ∈ input.drop start
  · obtain ⟨w, v, hdrop, hw⟩ := List.eq_append_cons_of_mem hlf
    rcases borrowedPlainBlocks_reads start maxBatchedBlocks 0 start spans w v hw hdrop with
      hnone | ⟨hq, hsome⟩
    · rw [hnone] at hrun; cases hrun
    · rw [hsome] at hrun
      have hconsumed : 0 + w.length + 1 = consumed :=
        congrArg Prod.fst (Option.some.inj hrun)
      rw [Open.line hcsv hopen hdrop fun b hb => ⟨fun h => hq (h ▸ hb), fun h => hw (h ▸ hb)⟩]
      omega
  · rw [borrowedPlainBlocks_none maxBatchedBlocks 0 start spans hlf] at hrun
    cases hrun

/-! ### The kernel that knows quotes -/

variable {scan rest : Bytes} (hsuffix : input.drop start = scan ++ rest)

include hsuffix

omit h hcsv in
theorem drop_of_scan {i : ℕ} (hi : i ≤ scan.length) : input.drop (start + i) = scan.drop i ++ rest := by
  rw [← List.drop_drop, hsuffix, List.drop_append_of_le_length hi]

omit h in
/-- The closing quote that the kernel finds closes. -/
theorem borrowedClosing_lands :
    ∀ (fuel cursor segmentStart : ℕ) (scratch : Bytes) {closing segment : ℕ} {scratch' : Bytes},
      cursor ≤ scan.length → Open cfg.dialect input stop true (start + cursor) →
      borrowedClosing scan fuel cursor segmentStart scratch = some (closing, segment, scratch') →
      closing < scan.length ∧ cursor ≤ closing ∧
        Open cfg.dialect input stop false (start + (closing + 1)) ∧ scan[closing + 1]? ≠ some 34 := by
  intro fuel
  induction fuel with
  | zero =>
    intro _ _ _ _ _ _ _ _ hrun
    cases hrun
  | succ fuel ih =>
    intro cursor segmentStart scratch closing segment scratch' hcursor hopen hrun
    have hq : cfg.dialect.quote = 34 := by rw [hcsv]; rfl
    have hne : cfg.dialect.recordEnding.byte ≠ cfg.dialect.quote := by rw [hcsv]; decide
    rw [borrowedClosing] at hrun
    rcases hfind : find1 34 (scan.drop cursor) with _ | relative
    · rw [hfind] at hrun; cases hrun
    obtain ⟨u, x, v, hl, hlen, hx, hu⟩ := Window.of_findIdx?_some hfind
    obtain rfl : x = 34 := by simpa using hx
    have hlt : cursor + relative < scan.length := by
      have := congrArg List.length hl
      simp only [List.length_drop, List.length_append, List.length_cons] at this
      omega
    have hdrop : input.drop (start + cursor) = u ++ (34 :: v ++ rest) := by
      rw [drop_of_scan hsuffix hcursor, hl]; simp
    have hpos := hopen.skip hdrop fun b hb => by
      rw [hq]
      exact ⟨by simpa using hu b hb, fun h => (by cases h)⟩
    have hopening : input.drop (start + cursor + u.length) = cfg.dialect.quote :: (v ++ rest) := by
      rw [hq]; exact Window.drop_of_drop hdrop rfl
    have hclosed := hpos.quote hopening hne
    have hat : start + cursor + u.length + 1 = start + (cursor + relative + 1) := by omega
    rw [hat] at hclosed
    rw [hfind] at hrun
    simp only at hrun
    by_cases hnext : scan[cursor + relative + 1]? = some 34
    · rw [if_neg (by simpa using hnext)] at hrun
      have hlt' := (List.getElem?_eq_some_iff.mp hnext).1
      have hsecond : input.drop (start + (cursor + relative + 1)) =
          cfg.dialect.quote :: (scan.drop (cursor + relative + 2) ++ rest) := by
        rw [drop_of_scan hsuffix (by omega), hq, List.drop_eq_getElem_cons hlt',
          (List.getElem?_eq_some_iff.mp hnext).2]
        rfl
      have hopened := hclosed.quote hsecond hne
      obtain ⟨h1, h2, h3⟩ := ih (cursor + relative + 2) _ _ (by omega)
        hopened hrun
      exact ⟨h1, by omega, h3⟩
    · rw [if_pos hnext] at hrun
      simp only [Option.some.injEq, Prod.mk.injEq] at hrun
      obtain ⟨rfl, -, -⟩ := hrun
      exact ⟨hlt, Nat.le_add_right _ _, hclosed, hnext⟩

omit h in
/-- The kernel takes a record to its end. -/
theorem borrowedRecordLoop_lands (limits : Option Limits) {suffix : Bytes}
    (hstart : start ≤ input.length) (hwhole : suffix.length ≤ scan.length → rest = []) :
    ∀ (fuel fieldsAdded fieldStart : ℕ) (storage : SpanStorage) {consumed : ℕ} {terminated : Bool}
      {storage' : SpanStorage}, fieldStart ≤ scan.length →
      Open cfg.dialect input stop false (start + fieldStart) →
      borrowedRecordLoop limits suffix scan start fuel fieldsAdded fieldStart storage =
        some (consumed, terminated, storage') →
      start + consumed = stop
  | 0, _, _, _, _, _, _, _, _, hrun => by cases hrun
  | fuel + 1, fieldsAdded, fieldStart, storage, consumed, terminated, storage', hfield, hopen,
      hrun => by
    have hq : cfg.dialect.quote = 34 := by rw [hcsv]; rfl
    have he : cfg.dialect.recordEnding.byte = 10 := by rw [hcsv]; rfl
    have hne : cfg.dialect.recordEnding.byte ≠ cfg.dialect.quote := by rw [hcsv]; decide
    -- the document ends with the scan
    have hlast : rest = [] → Open cfg.dialect input stop false (start + scan.length) →
        start + scan.length = stop := by
      rintro rfl hend
      have hlen : start + scan.length = input.length := by
        have := congrArg List.length hsuffix
        simp only [List.length_drop, List.append_nil] at this
        omega
      rw [hlen] at hend ⊢
      exact hend.stop_of_length.symm
    have hbyte : ∀ {i : ℕ} {b : UInt8}, scan[i]? = some b →
        input.drop (start + i) = b :: input.drop (start + i + 1) := by
      intro i b hb
      have hget : input[start + i]? = some b := by
        have hlt := (List.getElem?_eq_some_iff.mp hb).1
        rw [← List.getElem?_drop, hsuffix, List.getElem?_append_left hlt, hb]
      rw [List.drop_eq_getElem_cons (List.getElem?_eq_some_iff.mp hget).1,
        (List.getElem?_eq_some_iff.mp hget).2]
    rw [borrowedRecordLoop] at hrun
    simp only at hrun
    by_cases hfields : limits.any (fun l => fieldsAdded = l.maxFields) = true
    · rw [if_pos hfields] at hrun; cases hrun
    rw [if_neg hfields] at hrun
    by_cases hend : fieldStart = scan.length
    · -- an empty last field
      rw [if_pos hend] at hrun
      split_ifs at hrun with hdeclines
      simp only [Option.some.injEq, Prod.mk.injEq] at hrun
      obtain ⟨rfl, -, -⟩ := hrun
      rw [hend] at hopen ⊢
      exact hlast (hwhole (by omega)) hopen
    rw [if_neg hend] at hrun
    by_cases hquote : scan[fieldStart]? = some 34
    · -- a quoted field
      rw [if_pos hquote] at hrun
      have hlt := (List.getElem?_eq_some_iff.mp hquote).1
      have hopened := hopen.quote (hq ▸ hbyte hquote) hne
      rcases hclosing : borrowedClosing scan (scan.length + 1) (fieldStart + 1) (fieldStart + 1)
        storage.scratch with _ | ⟨closing, segment, scratch⟩
      · rw [hclosing] at hrun; cases hrun
      obtain ⟨h1, -, h3, h4⟩ := borrowedClosing_lands hcsv hsuffix (scan.length + 1)
        (fieldStart + 1) (fieldStart + 1) storage.scratch (by omega) hopened hclosing
      rw [hclosing] at hrun
      simp only at hrun
      by_cases hexceeds : limits.any (fun l => closing + 1 - fieldStart > l.maxFieldBytes) = true
      · rw [if_pos hexceeds] at hrun; cases hrun
      rw [if_neg hexceeds] at hrun
      rcases hnext : scan[closing + 1]? with _ | next
      · rw [hnext] at hrun
        simp only at hrun
        split_ifs at hrun with hall
        simp only [Option.some.injEq, Prod.mk.injEq] at hrun
        obtain ⟨rfl, -, -⟩ := hrun
        have hlen := List.getElem?_eq_none_iff.mp hnext
        obtain heq : closing + 1 = scan.length := by omega
        rw [heq] at h3 ⊢
        exact hlast (hwhole (by omega)) h3
      rw [hnext] at hrun h4
      simp only at hrun
      have hnext' := hbyte hnext
      have hlt' := (List.getElem?_eq_some_iff.mp hnext).1
      split_ifs at hrun with hcomma hlf hcr
      · have hopen' := h3.other hnext' (by rw [hq, hcomma]; decide) (by rw [he, hcomma]; decide)
        exact borrowedRecordLoop_lands limits hstart hwhole fuel _ (closing + 2) _ (by omega)
          hopen' hrun
      · simp only [Option.some.injEq, Prod.mk.injEq] at hrun
        obtain ⟨rfl, -, -⟩ := hrun
        have hending : input.drop (start + (closing + 1)) =
            cfg.dialect.recordEnding.byte :: input.drop (start + (closing + 1) + 1) := by
          rw [hnext', hlf, he]
        rw [h3.ending hending hne]
        omega
      · simp only [Option.some.injEq, Prod.mk.injEq] at hrun
        obtain ⟨rfl, -, -⟩ := hrun
        have hopen' := h3.other hnext' (by rw [hq, hcr.1]; decide) (by rw [he, hcr.1]; decide)
        have hending : input.drop (start + (closing + 2)) =
            cfg.dialect.recordEnding.byte :: input.drop (start + (closing + 2) + 1) := by
          rw [he]
          exact hbyte hcr.2
        rw [hopen'.ending hending hne]
        omega
    · -- an unquoted field
      rw [if_neg hquote] at hrun
      rcases hfind : find3 44 34 10 (scan.drop fieldStart) with _ | relative
      · rw [hfind] at hrun
        simp only at hrun
        split_ifs at hrun with hdeclines
        simp only [Option.some.injEq, Prod.mk.injEq] at hrun
        obtain ⟨rfl, -, -⟩ := hrun
        simp only [Bool.or_eq_true, decide_eq_true_eq, not_or, Nat.not_lt] at hdeclines
        have hclean := List.findIdx?_eq_none_iff.mp hfind
        have hend' := hopen.skip (drop_of_scan hsuffix hfield) fun b hb => by
          have := hclean b hb
          simp only [Bool.or_eq_false_iff, beq_eq_false_iff_ne] at this
          rw [hq, he]
          exact ⟨this.1.2, fun _ => this.2⟩
        have hat : start + fieldStart + (scan.drop fieldStart).length = start + scan.length := by
          rw [List.length_drop]; omega
        rw [hat] at hend'
        exact hlast (hwhole hdeclines.1) hend'
      obtain ⟨u, x, v, hl, hlen, -, hu⟩ := Window.of_findIdx?_some hfind
      have hdrop : input.drop (start + fieldStart) = u ++ (x :: v ++ rest) := by
        rw [drop_of_scan hsuffix hfield, hl]; simp
      have hlt : fieldStart + relative < scan.length := by
        have := congrArg List.length hl
        simp only [List.length_drop, List.length_append, List.length_cons] at this
        omega
      have hget : scan[fieldStart + relative]? = some x :=
        Window.getElem?_of_drop hl (by rw [hlen])
      have hx : byteAt scan (fieldStart + relative) = x := by
        rw [byteAt, List.getD_eq_getElem?_getD, hget]; rfl
      have hpos := hopen.skip hdrop fun b hb => by
        have := hu b hb
        simp only [Bool.or_eq_false_iff, beq_eq_false_iff_ne] at this
        rw [hq, he]
        exact ⟨this.1.2, fun _ => this.2⟩
      have hat : start + fieldStart + u.length = start + (fieldStart + relative) := by omega
      rw [hat] at hpos
      rw [hfind] at hrun
      simp only [hx] at hrun
      split_ifs at hrun with hcomma hexceeds hlf hexceeds
      · have hopen' := hpos.other (hbyte hget) (by rw [hq, hcomma]; decide)
          (by rw [he, hcomma]; decide)
        exact borrowedRecordLoop_lands limits hstart hwhole fuel _ (fieldStart + relative + 1) _
          (by omega) hopen' hrun
      · simp only [Option.some.injEq, Prod.mk.injEq] at hrun
        obtain ⟨rfl, -, -⟩ := hrun
        have hending : input.drop (start + (fieldStart + relative)) =
            cfg.dialect.recordEnding.byte :: input.drop (start + (fieldStart + relative) + 1) := by
          rw [hbyte hget, hlf, he]
        rw [hpos.ending hending hne]
        omega

omit h hsuffix in
theorem tryParseDefaultBorrowedRecord_lands (hopen : Open cfg.dialect input stop false start)
    {storage storage' : SpanStorage} {consumed : ℕ} {terminated : Bool}
    (hrun : tryParseDefaultBorrowedRecord cfg input start storage =
      some (consumed, terminated, storage')) : start + consumed = stop := by
  unfold tryParseDefaultBorrowedRecord at hrun
  simp only at hrun
  split_ifs at hrun
  · exact borrowedRecordLoop_lands hcsv (List.append_nil (input.drop start)).symm none hopen.le
      (fun _ => rfl) _ 0 0 storage (Nat.zero_le _) hopen hrun
  · refine borrowedRecordLoop_lands hcsv (List.take_append_drop _ _).symm (some cfg.limits)
      hopen.le (fun hwhole => ?_) _ 0 0 storage (Nat.zero_le _) hopen hrun
    rw [List.length_take] at hwhole
    exact List.drop_eq_nil_of_le (by omega)

omit h hsuffix in
/-- The kernels of the default dialect. -/
theorem tryParseDefaultCsvBorrowed_lands (hopen : Open cfg.dialect input stop false start) :
    Lands start stop (Taken stop e.location) (tryParseDefaultCsvBorrowed cfg input start e) := by
  unfold tryParseDefaultCsvBorrowed
  rw [get_bind]
  by_cases hprobe : (e.ownedParser.isNone || decide (input.length - start < defaultBorrowedProbe)) =
      true
  · rw [if_pos hprobe]
    exact rfl
  rw [if_neg hprobe]
  rcases hplain : tryParseDefaultBorrowedPlain cfg input start e.spans.spans with _ | ⟨consumed, spans⟩
  · simp only
    split_ifs
    · exact rfl
    rcases hrecord : tryParseDefaultBorrowedRecord cfg input start e.spans with
      _ | ⟨consumed, terminated, spans⟩
    · exact rfl
    · exact tryParseDefaultBorrowedRecord_lands hcsv hopen hrecord
  · simp only
    rw [set_bind]
    obtain ⟨l, u, hfold⟩ := foldPlainRecordTerminator_apply
      (e := e.parsed (start + consumed) { e.spans with spans }
        (e.terminated || start + consumed == input.length)) start true 10
    exact (bind_ok hfold).symm ▸ tryParseDefaultBorrowedPlain_lands hcsv hopen hplain

end kernels

/-- `try_parse_borrowed_plain`. -/
theorem tryParseBorrowedPlain_lands (hlocation : e.location = start)
    (hopen : Open cfg.dialect input stop false start) :
    Lands start stop (Taken stop start) (tryParseBorrowedPlain cfg F input start e) := by
  have hkernel : ∀ e' : Engine, e'.location = start →
      Lands start stop (Taken stop start) (plainKernel cfg F input start e') := by
    intro e' hsame
    have := plainKernel_lands h (e := e') hopen
    rwa [hsame] at this
  unfold tryParseBorrowedPlain
  split_ifs with hc
  · simp only [Bool.and_eq_true] at hc
    have hcsv := (csv_of_isCsvFormat h.follows hc.2).dialect
    refine (tryParseDefaultCsvBorrowed_lands hcsv hopen).bind ?_
    rintro (_ | _) e' htaken
    · simp only [Bool.false_eq_true, if_false]
      exact hkernel e' (htaken.trans hlocation)
    · exact htaken
  · exact hkernel e hlocation

omit h in
/-- The check of carriage returns. -/
theorem validateCrlf_lands (h2 : e.location = stop) :
    Lands start stop (fun _ e' => e' = e) (validateCrlf input start e) := by
  unfold validateCrlf
  simp only
  have hsearch : ∀ {n searchEnd : ℕ}, searchEnd ≤ e.location →
      find1 13 (slice input start searchEnd) = some n → start + n ≤ stop := by
    intro n searchEnd hle hfind
    obtain ⟨-, -, -, -, -, -, -, hlt⟩ := Window.of_window_some hfind
    omega
  have hend : (if (decide (start < e.location) && input[e.location - 1]? == some 10) = true then
      if (decide (start < e.location - 1) && byteAt input (e.location - 1 - 1) == 13) = true then
        e.location - 1 - 1 else e.location - 1
      else e.location) ≤ e.location := by
    split_ifs <;> omega
  generalize (if (decide (start < e.location) && input[e.location - 1]? == some 10) = true then
      if (decide (start < e.location - 1) && byteAt input (e.location - 1 - 1) == 13) = true then
        e.location - 1 - 1 else e.location - 1
      else e.location) = searchEnd at hend ⊢
  rcases hfind : find1 13 (slice input start searchEnd) with _ | offset
  · simp only
    split_ifs with hlone
    · simp only [Bool.and_eq_true, decide_eq_true_eq] at hlone
      exact error_lands _ (by omega) (by omega) _
    · exact rfl
  · exact error_lands _ (Nat.le_add_right _ _) (hsearch hend hfind) _

theorem finishPlainRecord_lands (header : Bool) (h2 : e.location = stop) :
    Lands start stop (fun _ e' => e'.location = stop)
      (finishPlainRecord cfg F input start header e) := by
  have hmark : ∀ e' : Engine, e'.location = stop →
      Lands start stop (fun _ e'' => e''.location = stop) (markNullSpans cfg F input header e') := by
    intro e' hsame
    obtain ⟨s, hmark⟩ := markNullSpans_location cfg F input header e'
    exact hmark.symm ▸ hsame
  unfold finishPlainRecord
  rw [h.follows.dialect]
  split_ifs
  · refine (validateCrlf_lands h2).bind ?_
    rintro _ e' rfl
    exact hmark e' h2
  · exact hmark e h2

/-- **A record ends where counting quotes says**: the parse of a record, when it
    succeeds, leaves the cursor behind it, and when it fails, reports a byte of
    it. -/
theorem parseRecord_lands (header : Bool) (hlocation : e.location = start)
    (hstart : start ≤ input.length) :
    Lands start (Split.recordStop cfg.dialect input start)
      (fun _ e' => e'.location = Split.recordStop cfg.dialect input start)
      (parseRecord cfg F input start header e) := by
  have hopen := Open.start cfg.dialect hstart
  have hfields : ∀ e' : Engine, e'.location = start →
      Lands start (Split.recordStop cfg.dialect input start)
        (fun _ e'' => e''.location = Split.recordStop cfg.dialect input start)
        (parseRecordFieldsFor cfg F input start header e') := by
    intro e' hsame
    have hrun : ∀ {F'}, cfg.Follows F' → Lands start (Split.recordStop cfg.dialect input start)
        (fun _ e'' => e''.location = Split.recordStop cfg.dialect input start)
        (parseRecordFields cfg F' input start header e') := fun hF' =>
      parseRecordFields_lands { h with follows := hF' } header (Nat.le_of_eq hsame.symm)
        (by rw [hsame]; exact hopen)
    unfold parseRecordFieldsFor
    cases F with
    | some o => exact hrun h.follows
    | none =>
      rcases hk : cfg.formatKind with _ | _ | _
      · exact hrun (follows_of_formatKind.1 hk)
      · exact hrun (follows_of_formatKind.2 hk)
      · exact hrun h.follows
  unfold parseRecord
  by_cases hcandidate : plainRecordCandidate cfg F input[start]? = true
  · rw [if_pos hcandidate]
    refine (tryParseBorrowedPlain_lands h hlocation hopen).bind ?_
    rintro (_ | _) e' htaken
    · simp only [Bool.false_eq_true, if_false]
      exact hfields e' htaken
    · have hstop : e'.location = Split.recordStop cfg.dialect input start := htaken
      have hvalid : ∀ e₁ : Engine, e₁.location = Split.recordStop cfg.dialect input start →
          Lands start (Split.recordStop cfg.dialect input start)
            (fun _ e₂ => e₂.location = Split.recordStop cfg.dialect input start)
            (validateFieldCount cfg input e₁.spans.len e₁) := by
        intro e₁ hsame
        refine (validateFieldCount_lands (by rw [hsame]; exact hopen.le_stop)
          (Nat.le_of_eq hsame)).mono (fun _ _ h => h) ?_
        intro _ _ hkeep
        rw [hkeep, hsame]
      simp only [if_true]
      by_cases hpass : ParserSettings.needsRecordPass (cfg.fmt F).dialect (cfg.fmt F).nulls = true
      · rw [if_pos hpass]
        refine (finishPlainRecord_lands h header hstop).bind ?_
        intro _ e'' hsame
        exact hvalid e'' hsame
      · rw [if_neg hpass]
        exact hvalid e' hstop
  · rw [if_neg hcandidate]
    exact hfields e hlocation

/-- The record at the cursor. -/
theorem parsePositionedRecord_lands (header : Bool) (hlocation : e.location = start)
    (hstart : start ≤ input.length) :
    Lands start (Split.recordStop cfg.dialect input start)
      (fun range _ => range.2.1 = Split.recordStop cfg.dialect input start)
      (parsePositionedRecord cfg F input header e) := by
  have hle := (Open.start cfg.dialect hstart).le_stop
  have hbegin : Lands start (Split.recordStop cfg.dialect input start)
      (fun _ e' => e'.location = start) (beginSpans input e) := by
    unfold beginSpans
    split_ifs
    · exact error_lands _ (Nat.le_of_eq hlocation.symm) (hlocation ▸ hle) _
    · exact hlocation
  have htrim : ∀ e' : Engine, ∃ s, trimSpans cfg input header e' =
      .ok () (e'.parsed e'.location s e'.terminated) := by
    intro e'
    unfold trimSpans
    split_ifs
    · exact ⟨_, rfl⟩
    · exact ⟨e'.spans, rfl⟩
  unfold parsePositionedRecord
  refine hbegin.bind ?_
  intro _ e₁ hsame
  have hfailing : Lands start (Split.recordStop cfg.dialect input start)
      (fun _ e' => e'.location = Split.recordStop cfg.dialect input start)
      (failing (parseRecord cfg F input start header) e₁) := by
    have hrun := parseRecord_lands h header hsame hstart
    unfold failing
    rcases hr : parseRecord cfg F input start header e₁ with ⟨_, e'⟩ | ⟨fault, e'⟩ <;>
      rw [hr] at hrun
    · exact hrun
    · cases fault with
      | error kind location => exact hrun
      | panic => exact hrun
      | stuck => exact hrun
  rw [get_bind, hsame]
  refine hfailing.bind ?_
  intro _ e₂ hstop
  obtain ⟨s, hs⟩ := htrim e₂
  rw [bind_ok hs, get_bind, set_bind]
  exact hstop

end fields

end Engine

end Coseva
