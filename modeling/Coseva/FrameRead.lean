/-
  Coseva — a record that is read ends where its frame does.

  * `FieldFrame`: where a field leaves the frame;
  * `parseField_frames`, `parseRecordFieldsFor_frames`: the field-by-field parser;
  * `plainKernel_frames`, `generalRecord_frames`: the plain kernel, and the
    record it takes or leaves to the field-by-field parser.
-/
import Coseva.CutRecord
import Coseva.Frame
import Coseva.Progress

namespace Coseva

/-- The spaces that are skipped in front of a field are not structural. -/
def ParserSettings.SpacesPlain (cfg : ParserSettings) : Prop :=
  cfg.skipInitialSpace = true → searchByte cfg.toFormatSettings 32 = false ∧ cfg.dialect.quote ≠ 32

instance (cfg : ParserSettings) : Decidable cfg.SpacesPlain :=
  inferInstanceAs (Decidable (_ → _))

namespace Engine

open Run
open Coseva.Frame

variable {cfg : ParserSettings} {F : CsvFormat} {input : Bytes} {recordStart : ℕ} {e : Engine}

/-- Where a field that goes on at `p` leaves the frame: at the next field, at the
    end of the record, or at the end of the text. -/
def FieldFrame (cfg : ParserSettings) (input : Bytes) (recordStart : ℕ) (p : ScanPoint)
    (last : Bool) (e : Engine) : Prop :=
  if last then
    e.terminated = true ∧ Stops cfg input recordStart p e.location ∨
      e.terminated = false ∧ e.location = input.length
  else Leads cfg input recordStart p ⟨e.location, e.location, false⟩

theorem FieldFrame.of_leads {p q : ScanPoint} {last : Bool} (hpq : Leads cfg input recordStart p q)
    (h : FieldFrame cfg input recordStart q last e) : FieldFrame cfg input recordStart p last e := by
  unfold FieldFrame at h ⊢
  cases last with
  | false => exact hpq.trans h
  | true =>
    rcases h with ⟨hterminated, hstops⟩ | hopen
    · exact Or.inl ⟨hterminated, hpq _ hstops⟩
    · exact Or.inr hopen

/-- A run that succeeds leaves the frame of a field at `p`. -/
abbrev Frames (cfg : ParserSettings) (input : Bytes) (recordStart : ℕ) (p : ScanPoint)
    (r : EStateM.Result Fault Engine Bool) : Prop :=
  Ends (fun _ _ => True) (FieldFrame cfg input recordStart p) r

theorem Frames.of_leads {p q : ScanPoint} {r : EStateM.Result Fault Engine Bool}
    (hpq : Leads cfg input recordStart p q) (h : Frames cfg input recordStart q r) :
    Frames cfg input recordStart p r :=
  h.mono (fun _ _ h => h) fun _ _ h => h.of_leads hpq

/-! ## The end of a field -/

theorem checkRecordLimit_same (byte : ℕ) :
    Ends (fun _ _ => True) (fun _ e' => e' = e) (checkRecordLimit cfg input recordStart byte e) := by
  unfold checkRecordLimit checkRecordLimitFor
  split_ifs
  · trivial
  · exact rfl

/-- The end of the text ends the field. -/
theorem endWindow_frames {push : Parse Unit} {p : ScanPoint} (fieldStart : ℕ)
    (hpush : ∀ e : Engine, Stays e.location (push e)) (e : Engine) :
    Frames cfg input recordStart p ((do
      checkScanEnd cfg input (scanEnd cfg input recordStart fieldStart) recordStart fieldStart
      push
      setLocation (scanEnd cfg input recordStart fieldStart)
      setTerminated false
      pure true : Parse Bool) e) := by
  refine Ends.bind (checkScanEnd_stays recordStart fieldStart) ?_
  rintro _ e' ⟨-, hlength⟩
  refine Ends.bind (hpush e') fun _ e'' _ => ?_
  rw [hlength]
  exact Or.inr ⟨rfl, rfl⟩

/-- A separator ends the field. -/
theorem endField_frames {push : Parse Unit} {p : ScanPoint} {location : ℕ} {terminated : Bool}
    (hpush : ∀ e : Engine, Stays e.location (push e))
    (hends : terminated = true → Stops cfg input recordStart p location)
    (hnext : terminated = false → Leads cfg input recordStart p ⟨location, location, false⟩)
    (e : Engine) :
    Frames cfg input recordStart p ((do
      push
      setLocation location
      noteTerminatedIf terminated
      checkRecordLimit cfg input recordStart location
      pure terminated : Parse Bool) e) := by
  refine Ends.bind (hpush e) fun _ e' _ => ?_
  unfold setLocation noteTerminatedIf setTerminated
  rw [modify_bind]
  cases terminated with
  | false =>
    rw [if_neg Bool.false_ne_true, pure_bind_apply]
    refine Ends.bind (checkRecordLimit_same location) ?_
    rintro _ _ rfl
    exact hnext rfl
  | true =>
    rw [if_pos rfl, modify_bind]
    refine Ends.bind (checkRecordLimit_same location) ?_
    rintro _ _ rfl
    exact Or.inl ⟨rfl, hends rfl⟩

/-! ## Unquoted fields -/

section unquoted

variable (hs : cfg.dialect.Sound) (hF : cfg.Follows F) {m : ℕ}

/-- A stop outside quotes that opens no field. -/
theorem step_unquoted {pos : ℕ} {b : UInt8} (hb : input[pos]? = some b)
    (hshut : Shut cfg input recordStart m pos (pos + 1))
    (hsearch : searchByte cfg.toFormatSettings b = true) :
    step cfg input recordStart ⟨pos, m, false⟩ =
      match unquotedStop cfg input m pos with
      | .resume cursor => .next ⟨cursor, m, false⟩
      | .invalid _ => .halt
      | .ends _ location terminated =>
        if terminated then .ends location else .next ⟨location, location, false⟩ := by
  unfold step unquoted
  simp only [hb, Bool.false_eq_true, if_false]
  have hopens : ¬ (cfg.syntax'.quotingEnabled && b == cfg.dialect.quote &&
      opens cfg input recordStart m pos) = true := by
    simp only [Bool.and_eq_true, beq_iff_eq, not_and, Bool.not_eq_true]
    rintro ⟨hquoting, rfl⟩
    exact hshut pos (Nat.le_refl _) (Nat.lt_succ_self _) hquoting hb
  exact (if_neg hopens).trans (if_pos hsearch)

variable (cfg input) in
/-- Where a stop leads does not depend on the start of its field. -/
theorem unquotedStop_fieldStart (f f' pos : ℕ) :
    (∀ cursor, unquotedStop cfg input f pos = .resume cursor →
        unquotedStop cfg input f' pos = .resume cursor) ∧
      ∀ fieldEnd location terminated, unquotedStop cfg input f pos =
        .ends fieldEnd location terminated →
        ∃ fieldEnd', unquotedStop cfg input f' pos = .ends fieldEnd' location terminated := by
  refine ⟨fun cursor h => ?_, fun fieldEnd location terminated h => ?_⟩ <;>
    unfold unquotedStop at h ⊢ <;> simp only at h ⊢
  · split_ifs at h ⊢ <;> exact h
  · split_ifs at h ⊢ <;> cases h <;> exact ⟨_, rfl⟩

include hs in
theorem generalUnquotedLoop_frames {fieldStart : ℕ} (header : Bool) :
    ∀ (fuel cursor : ℕ) (e : Engine), Shut cfg input recordStart m cursor input.length →
      Frames cfg input recordStart ⟨cursor, m, false⟩
        (generalUnquotedLoop cfg input (cfg.dialect.recordEnding == .crLf
          || cfg.dialect.escape.escapesUnquoted) recordStart fieldStart header fuel cursor e)
  | 0, _, _, _ => trivial
  | fuel + 1, cursor, e, hshut => by
    have hle := scanEnd_le cfg input recordStart fieldStart
    rw [generalUnquotedLoop]
    simp only [findStopByte_eq]
    by_cases hend : cursor ≥ scanEnd cfg input recordStart fieldStart
    · rw [if_pos hend]
      exact endWindow_frames fieldStart (fun e => pushGeneralUnquotedSpan_stays _ _ _ header) e
    rw [if_neg hend]
    rcases hfind : (slice input cursor (scanEnd cfg input recordStart fieldStart)).findIdx?
      (searchByte cfg.toFormatSettings) with _ | relative
    · -- nothing stops the scan in front of its end
      obtain ⟨u, hdrop, hlength, hu⟩ := Window.of_window_none (by omega) hle hfind
      have hpass : Leads cfg input recordStart ⟨cursor, m, false⟩ ⟨cursor + u.length, m, false⟩ :=
        leads_unquoted (fun i h1 h2 => hshut i h1 (by omega)) hdrop hu
      rw [← hlength] at hpass
      exact .of_leads hpass (generalUnquotedLoop_frames header fuel _ e
        fun i h1 h2 => hshut i (by omega) h2)
    obtain ⟨u, b, v, hdrop, hlength, hb, hu, hlt⟩ := Window.of_window_some hfind
    have hpass : Leads cfg input recordStart ⟨cursor, m, false⟩ ⟨cursor + u.length, m, false⟩ :=
      leads_unquoted (fun i h1 h2 => hshut i h1 (by omega)) hdrop hu
    rw [hlength] at hpass
    have hbyte : input[cursor + relative]? = some b := Window.getElem?_of_drop hdrop (by omega)
    have hstep := step_unquoted hbyte (fun i h1 h2 => hshut i (by omega) (by omega)) hb
    have hstart := unquotedStop_fieldStart cfg input fieldStart m
      (cursor + relative)
    refine .of_leads hpass ?_
    simp only
    rcases hstop : unquotedStop cfg input fieldStart (cursor + relative) with
      next | kind | ⟨fieldEnd, location, terminated⟩
    · rw [hstart.1 next hstop] at hstep
      have hahead : StopAhead input (cursor + relative) (.resume next) :=
        hstop ▸ unquotedStop_ahead hs fieldStart (by omega)
      have hnext : cursor + relative < next := hahead
      exact .of_leads (Leads.of_step hstep) (generalUnquotedLoop_frames header fuel next e
        fun i h1 h2 => hshut i (by omega) h2)
    · trivial
    · obtain ⟨fieldEnd', hstop'⟩ := hstart.2 _ _ _ hstop
      rw [hstop'] at hstep
      simp only at hstep
      unfold endGeneralField
      refine endField_frames (fun e => pushGeneralUnquotedSpan_stays _ _ _ header) ?_ ?_ e
      · rintro rfl
        exact .ends hstep
      · rintro rfl
        exact .of_step hstep

include hs hF in
theorem parseUnquotedFieldRuntime_frames (hgen : cfg.fmtGeneralParsing F = false)
    (hshut : Shut cfg input recordStart m e.location input.length) :
    Frames cfg input recordStart ⟨e.location, m, false⟩
      (parseUnquotedFieldRuntime cfg F input recordStart e) := by
  simp only [ParserSettings.fmtGeneralParsing, hF.dialect, hF.trim,
    ParserSettings.needsGeneralParsing, Bool.or_eq_false_iff] at hgen
  obtain ⟨⟨⟨hcrlf, hesc⟩, hmb⟩, -⟩ := hgen
  have hesc : cfg.dialect.escape.unquotedByte = none := by
    simpa [Escape.escapesUnquoted] using hesc
  obtain ⟨hdt, het⟩ := Dialect.tails_of_single hmb
  have hle := scanEnd_le cfg input recordStart e.location
  unfold parseUnquotedFieldRuntime
  rw [get_bind]
  simp only [hF.dialect, hF.syntax']
  by_cases hpanic : e.location > scanEnd cfg input recordStart e.location
  · rw [if_pos hpanic]
    trivial
  rw [if_neg hpanic]
  have hspecial : ∀ remaining : Bytes, (if (cfg.syntax'.quotingEnabled &&
      !cfg.syntax'.permitsUnquotedQuotes) = true then
        find3 cfg.dialect.delimiter cfg.dialect.quote cfg.dialect.recordEnding.byte remaining
      else find2 cfg.dialect.delimiter cfg.dialect.recordEnding.byte remaining) =
      remaining.findIdx? (searchByte cfg.toFormatSettings) := by
    intro remaining
    have hseek : cfg.syntax'.seeksQuotes =
      (cfg.syntax'.quotingEnabled && !cfg.syntax'.permitsUnquotedQuotes) := rfl
    have hp : ∀ p q : UInt8 → Bool, (∀ b, p b = q b) →
        remaining.findIdx? p = remaining.findIdx? q := fun p q h => by rw [funext h]
    unfold find2 find3
    split_ifs with hquotes <;> refine hp _ _ fun b => ?_ <;>
      simp only [searchByte, hseek, hquotes, hcrlf, hesc, Bool.false_and, Bool.true_and,
        Bool.or_false, Option.none_beq_some]
    grind
  rw [hspecial]
  rcases hfind : (slice input e.location (scanEnd cfg input recordStart e.location)).findIdx?
    (searchByte cfg.toFormatSettings) with _ | relative
  · exact endWindow_frames e.location (fun e => pushSpan_stays _ _ _ _ _) e
  obtain ⟨u, b, v, hdrop, hlength, hb, hu, hlt⟩ := Window.of_window_some hfind
  have hpass : Leads cfg input recordStart ⟨e.location, m, false⟩
      ⟨e.location + u.length, m, false⟩ :=
    leads_unquoted (fun i h1 h2 => hshut i h1 (by omega)) hdrop hu
  rw [hlength] at hpass
  have hbyte : input[e.location + relative]? = some b := Window.getElem?_of_drop hdrop (by omega)
  have hstep := step_unquoted hbyte (fun i h1 h2 => hshut i (by omega) (by omega)) hb
  have hat : byteAt input (e.location + relative) = b := by
    rw [byteAt, List.getD_eq_getElem?_getD, hbyte]; rfl
  have hconfirms : ∀ t : Tail, t.asSlice = [] → ∀ after, t.confirms after = true := by
    intro t ht after
    rw [Tail.confirms, ht]
    rfl
  have hwidth : ∀ t : Tail, t.unusable = false → t.asSlice = [] → t.width = 1 := by
    intro t hu ht
    rw [Tail.width_eq hu, ht]
    rfl
  have hstop : b ≠ cfg.dialect.quote → ∃ fieldEnd,
      unquotedStop cfg input m (e.location + relative) =
        .ends fieldEnd (e.location + relative + 1) (b == cfg.dialect.recordEnding.byte) := by
    intro hquote
    unfold unquotedStop
    simp only [hat, hesc, hcrlf, hconfirms _ hdt, hconfirms _ het, hwidth _ hs.usable.1 hdt,
      hwidth _ hs.usable.2 het]
    rw [if_neg (by simp), if_neg (by simp [hquote]), if_neg (by simp)]
    by_cases hending : b = cfg.dialect.recordEnding.byte
    · rw [if_pos hending, if_neg (by simp), if_pos trivial, beq_iff_eq.mpr hending]
      exact ⟨_, rfl⟩
    · rw [if_neg hending, if_pos trivial, beq_eq_false_iff_ne.mpr hending]
      exact ⟨_, rfl⟩
  simp only [hat]
  by_cases hquote : b = cfg.dialect.quote
  · rw [if_pos hquote]
    trivial
  rw [if_neg hquote]
  obtain ⟨fieldEnd, hstop⟩ := hstop hquote
  rw [hstop] at hstep
  simp only at hstep
  refine .of_leads hpass (endField_frames (fun e => pushSpan_stays _ _ _ _ _) ?_ ?_ e)
  · intro hterminated
    rw [hterminated] at hstep
    exact .ends hstep
  · intro hterminated
    rw [hterminated] at hstep
    exact .of_step hstep

include hs hF in
theorem parseUnquotedField_frames (header : Bool)
    (hshut : Shut cfg input recordStart m e.location input.length) :
    Frames cfg input recordStart ⟨e.location, m, false⟩
      (parseUnquotedField cfg F input recordStart header e) := by
  unfold parseUnquotedField
  by_cases hgen : cfg.fmtGeneralParsing F = true
  · rw [if_pos hgen]
    unfold parseGeneralUnquotedField
    rw [get_bind]
    exact generalUnquotedLoop_frames hs header _ _ e hshut
  · rw [if_neg hgen]
    exact parseUnquotedFieldRuntime_frames hs hF (Bool.eq_false_of_not_eq_true hgen) hshut

end unquoted

/-! ## Quoted fields -/

section quoted

variable (hF : cfg.Follows F) {fieldStart : ℕ}

include hF

theorem quotedStop_follows (bound pos : ℕ) :
    quotedStop input (cfg.fmt F) bound pos = quotedStop input cfg.toFormatSettings bound pos := by
  unfold quotedStop
  rw [hF.dialect, hF.syntax']

theorem finishQuotedField_frames {p : ScanPoint} {afterQuote : ℕ} (hin : afterQuote ≤ input.length)
    (hstep : step cfg input recordStart p = closed cfg input afterQuote) :
    Frames cfg input recordStart p (finishQuotedField cfg F input recordStart afterQuote e) := by
  have hend : ∀ (location : ℕ) (terminated : Bool),
      (terminated = true ∧ Stops cfg input recordStart p location ∨
        terminated = false ∧ location = input.length) →
      Frames cfg input recordStart p (endQuotedRecord cfg input recordStart location terminated e) := by
    intro location terminated h
    unfold endQuotedRecord setLocation setTerminated
    rw [modify_bind, modify_bind]
    refine Ends.bind (checkRecordLimit_same location) ?_
    rintro _ _ rfl
    exact h
  have hskip := skipPostQuoteWhitespace_le cfg.syntax'.permitsTrailingWhitespace hin
  unfold closed at hstep
  unfold finishQuotedField
  simp only [hF.dialect, hF.syntax'] at hstep ⊢
  generalize skipPostQuoteWhitespace input cfg.syntax'.permitsTrailingWhitespace afterQuote = after
    at hstep hskip ⊢
  rcases hnext : input[after]? with _ | next
  · have := List.getElem?_eq_none_iff.mp hnext
    exact hend after false (Or.inr ⟨rfl, by omega⟩)
  rw [hnext] at hstep
  simp only at hstep ⊢
  by_cases hdelimiter : (next == cfg.dialect.delimiter &&
      cfg.dialect.delimiterTail.confirms (input.drop (after + 1))) = true
  · rw [if_pos hdelimiter] at hstep ⊢
    exact Leads.of_step hstep
  rw [if_neg hdelimiter] at hstep ⊢
  by_cases hending : (!(cfg.dialect.recordEnding == .crLf) &&
      next == cfg.dialect.recordEnding.byte &&
      cfg.dialect.endingTail.confirms (input.drop (after + 1))) = true
  · rw [if_pos hending] at hstep ⊢
    exact hend _ true (Or.inl ⟨rfl, .ends hstep⟩)
  rw [if_neg hending] at hstep ⊢
  by_cases hcr : (cfg.dialect.recordEnding.stripsCr && next == 13 &&
      (input.drop (after + 1)).head? == some 10) = true
  · rw [if_pos hcr] at hstep ⊢
    exact hend _ true (Or.inl ⟨rfl, .ends hstep⟩)
  · rw [if_neg hcr]
    trivial

theorem closeQuotedField_frames {p : ScanPoint} (contentStart scratchStart segmentStart : ℕ)
    {pos : ℕ} (copied : Bool) (hin : pos < input.length)
    (hstep : step cfg input recordStart p = closed cfg input (pos + 1)) :
    Frames cfg input recordStart p
      (closeQuotedField cfg F input recordStart contentStart scratchStart segmentStart pos copied
        e) := by
  have hpush : ∀ (source : Source) (i j : ℕ) (e : Engine), Frames cfg input recordStart p ((do
      pushSpan cfg input source i j pos true
      finishQuotedField cfg F input recordStart (pos + 1) : Parse Bool) e) := by
    intro source i j e
    exact Ends.bind (pushSpan_stays source i j pos true) fun _ e' _ =>
      finishQuotedField_frames hF hin hstep
  unfold closeQuotedField
  cases copied with
  | true =>
    simp only [if_true]
    rw [bind_ok (extendScratch_apply _ _), get_bind]
    exact hpush _ _ _ _
  | false =>
    simp only [Bool.false_eq_true, if_false]
    rw [get_bind]
    exact hpush _ _ _ _

theorem quotedLoop_frames (contentStart scratchStart : ℕ) :
    ∀ (fuel segmentStart cursor : ℕ) (copied : Bool) (e : Engine),
      Frames cfg input recordStart ⟨cursor, fieldStart, true⟩
        (quotedLoop cfg F input recordStart contentStart scratchStart fuel segmentStart cursor
          copied e) := by
  intro fuel
  induction fuel with
  | zero =>
    intro _ _ _ _
    trivial
  | succ fuel ih =>
    intro segmentStart cursor copied e
    have hle := scanEnd_le cfg input recordStart contentStart
    rw [quotedLoop]
    simp only [hF.dialect, findQuoted_quotedByte]
    by_cases hend : cursor > scanEnd cfg input recordStart contentStart
    · rw [if_pos hend]
      exact Ends.bind (checkRecordLimit_same _) fun _ _ _ => trivial
    rw [if_neg hend]
    rcases hfind : (slice input cursor (scanEnd cfg input recordStart contentStart)).findIdx?
      (quotedByte cfg.dialect) with _ | relative
    · exact Ends.bind (checkScanEnd_stays recordStart contentStart) fun _ _ _ => trivial
    obtain ⟨u, b, v, hdrop, hlength, hb, hu, hlt⟩ := Window.of_window_some hfind
    have hpass : Leads cfg input recordStart ⟨cursor, fieldStart, true⟩
        ⟨cursor + u.length, fieldStart, true⟩ := leads_quoted hdrop hu
    rw [hlength] at hpass
    have hbyte : input[cursor + relative]? = some b := Window.getElem?_of_drop hdrop (by omega)
    have hstep : step cfg input recordStart ⟨cursor + relative, fieldStart, true⟩ =
        quoted cfg input fieldStart (cursor + relative) b := by
      unfold step
      simp only [hbyte, if_true]
    unfold quoted at hstep
    rw [if_pos hb] at hstep
    have hbound := quotedStop_bound input cfg.toFormatSettings
      (scanEnd cfg input recordStart contentStart) input.length (cursor + relative)
    refine .of_leads hpass ?_
    simp only [quotedStop_follows hF]
    rcases hstop : quotedStop input cfg.toFormatSettings (scanEnd cfg input recordStart contentStart)
      (cursor + relative) with byte | _ | ⟨kind, pos⟩
    · rw [hbound.1 byte hstop] at hstep
      simp only
      unfold copySegment
      rw [bind_ok (extendScratch_apply _ _), bind_ok (extendScratch_apply _ _)]
      exact Ends.bind (checkScratchLimit_stays scratchStart _) fun _ e' _ =>
        Frames.of_leads (Leads.of_step hstep)
          (ih _ _ true e')
    · rw [hbound.2 hstop] at hstep
      exact closeQuotedField_frames hF contentStart scratchStart segmentStart copied (by omega) hstep
    · trivial

end quoted

/-! ## All fields of a record -/

section fields

variable (hs : cfg.dialect.Sound) (hF : cfg.Follows F) (hspace : cfg.SpacesPlain)

/-- The spaces in front of a field, behind which no space is left to skip. -/
theorem skipSpaces_frames (m field : ℕ) (hplain : searchByte cfg.toFormatSettings 32 = false)
    (hquote : cfg.dialect.quote ≠ 32) :
    ∀ (fuel : ℕ) (e : Engine),
      Ends (fun _ _ => True) (fun _ e' => e.location ≤ e'.location ∧
          (∀ i, e.location ≤ i → i < e'.location → input[i]? = some 32) ∧
          input[e'.location]? ≠ some 32 ∧
          Leads cfg input recordStart ⟨e.location, m, false⟩ ⟨e'.location, m, false⟩)
        (skipSpaces cfg input recordStart field fuel e)
  | 0, _ => trivial
  | fuel + 1, e => by
    rw [skipSpaces, get_bind]
    by_cases hb : input[e.location]? = some 32
    · rw [if_pos hb, set_bind]
      have hstep : step cfg input recordStart ⟨e.location, m, false⟩ =
          .next ⟨e.location + 1, m, false⟩ := by
        unfold step unquoted
        simp only [hb, Bool.false_eq_true, if_false, hplain]
        rw [if_neg (by simp [hquote.symm])]
      refine Ends.bind (P := fun _ e' => e'.location = e.location + 1)
        (checkRecordLimitFor_stays recordStart (e.location + 1) field) fun _ e' he' => ?_
      refine (skipSpaces_frames m field hplain hquote fuel e').mono (fun _ _ h => h) ?_
      rintro _ e'' ⟨hle, hspaces, hnot, hleads⟩
      rw [he'] at hle hspaces hleads
      refine ⟨by omega, fun i h1 h2 => ?_, hnot, (Leads.of_step hstep).trans hleads⟩
      rcases Nat.eq_or_lt_of_le h1 with rfl | hlt
      · exact hb
      · exact hspaces i hlt h2
    · rw [if_neg hb]
      exact ⟨Nat.le_refl _, fun i h1 h2 => absurd h2 (by omega), hb, Leads.refl⟩

/-- Only spaces lie between `pos` and the cursor, and none is left to skip. -/
structure Spaced (cfg : ParserSettings) (input : Bytes) (recordStart pos : ℕ) (e : Engine) : Prop where
  le : pos ≤ e.location
  spaces : ∀ i, pos ≤ i → i < e.location → input[i]? = some 32
  skips : pos < e.location → cfg.skipInitialSpace = true ∧ pos ≠ recordStart
  rest : cfg.skipInitialSpace = true → pos ≠ recordStart → input[e.location]? ≠ some 32

include hF hspace in
theorem skipDelimiterSpaces_frames :
    Ends (fun _ _ => True) (fun _ e' => Spaced cfg input recordStart e.location e' ∧
        Leads cfg input recordStart ⟨e.location, e.location, false⟩ ⟨e'.location, e.location, false⟩)
      (skipDelimiterSpaces cfg input F recordStart e) := by
  unfold skipDelimiterSpaces
  rw [get_bind, hF.skipInitialSpace]
  by_cases hskip : (!cfg.skipInitialSpace || e.location == recordStart) = true
  · rw [if_pos hskip]
    refine ⟨⟨Nat.le_refl _, fun i h1 h2 => absurd h2 (by omega),
      fun h => absurd h (Nat.lt_irrefl _), fun h1 h2 => ?_⟩, Leads.refl⟩
    simp [h1, h2] at hskip
  · rw [if_neg hskip]
    simp only [Bool.or_eq_true, Bool.not_eq_true', beq_iff_eq, not_or, Bool.not_eq_false] at hskip
    obtain ⟨hplain, hquote⟩ := hspace hskip.1
    refine (skipSpaces_frames e.location _ hplain hquote _ e).mono (fun _ _ h => h) ?_
    rintro _ e' ⟨hle, hspaces, hnot, hleads⟩
    exact ⟨⟨hle, hspaces, fun _ => hskip, fun _ _ => hnot⟩, hleads⟩

section spaced

variable {pos : ℕ} {e' : Engine} (h : Spaced cfg input recordStart pos e')

include h

/-- A quote behind the spaces opens the field. -/
theorem Spaced.opens : opens cfg input recordStart pos e'.location = true := by
  unfold Frame.opens
  rcases Nat.eq_or_lt_of_le h.le with hat | hlt
  · rw [hat, beq_self_eq_true]
    rfl
  · obtain ⟨hskip, hstart⟩ := h.skips hlt
    rw [hskip, Bool.true_and, bne_iff_ne.mpr hstart, Bool.true_and, Bool.or_eq_true]
    refine Or.inr (List.all_eq_true.mpr fun b hb => ?_)
    obtain ⟨j, hj⟩ := List.mem_iff_getElem?.mp hb
    unfold slice at hj
    rw [List.getElem?_drop] at hj
    have hlt := (List.getElem?_eq_some_iff.mp hj).1
    rw [List.length_take] at hlt
    rw [List.getElem?_take_of_lt (by omega), h.spaces _ (Nat.le_add_right _ _) (by omega)] at hj
    rw [← Option.some.inj hj]
    rfl

/-- A quote further on does not. -/
theorem Spaced.shut (hfirst : ¬ (input[e'.location]? = some cfg.dialect.quote ∧
      cfg.syntax'.quotingEnabled = true)) :
    Shut cfg input recordStart pos e'.location input.length := by
  intro i h1 hin hquoting hi
  have hle := h.le
  have hlt : e'.location < i := by
    refine Nat.lt_of_le_of_ne h1 fun hat => hfirst ⟨?_, hquoting⟩
    rw [hat, hi]
  unfold Frame.opens
  rw [beq_eq_false_iff_ne.mpr (by omega), Bool.false_or]
  by_cases hskip : cfg.skipInitialSpace = true ∧ pos ≠ recordStart
  swap
  · simp only [not_and, Decidable.not_not] at hskip
    rcases hinit : cfg.skipInitialSpace with _ | _
    · rfl
    · rw [hskip hinit, bne_self_eq_false]
      rfl
  -- the first byte of the field is no space
  rw [Bool.and_eq_false_iff]
  refine Or.inr (List.all_eq_false.mpr ⟨input[e'.location], ?_, fun hb => ?_⟩)
  · refine List.mem_iff_getElem?.mpr ⟨e'.location - pos, ?_⟩
    unfold slice
    rw [List.getElem?_drop, Nat.add_sub_cancel' hle, List.getElem?_take_of_lt hlt]
    exact List.getElem?_eq_getElem _
  · refine h.rest hskip.1 hskip.2 ?_
    rw [List.getElem?_eq_getElem (by omega), beq_iff_eq.mp hb]

end spaced

include hs hF hspace

theorem parseField_frames (header : Bool) :
    Frames cfg input recordStart ⟨e.location, e.location, false⟩
      (parseField cfg F input recordStart header e) := by
  unfold parseField
  refine Ends.bind (skipDelimiterSpaces_frames hF hspace) ?_
  rintro _ e' ⟨hspaced, hleads⟩
  refine Frames.of_leads hleads ?_
  rw [get_bind, hF.dialect, hF.syntax']
  by_cases hquote : input[e'.location]? = some cfg.dialect.quote ∧ cfg.syntax'.quotingEnabled = true
  · rw [if_pos hquote]
    have hstep : step cfg input recordStart ⟨e'.location, e.location, false⟩ =
        .next ⟨e'.location + 1, e'.location, true⟩ := by
      unfold step unquoted
      simp only [hquote.1, Bool.false_eq_true, if_false]
      rw [if_pos (by simp [hquote.2, hspaced.opens])]
    unfold parseQuotedField
    rw [get_bind]
    exact .of_leads (Leads.of_step hstep) (quotedLoop_frames hF _ _ _ _ _ _ e')
  · rw [if_neg hquote]
    exact parseUnquotedField_frames hs hF header (hspaced.shut hquote)

/-- Where a record that begins at `p` ends: where its frame does, or with the
    text. -/
def RecordFrame (cfg : ParserSettings) (input : Bytes) (recordStart : ℕ) (p : ScanPoint)
    (e : Engine) : Prop :=
  e.terminated = true ∧ Stops cfg input recordStart p e.location ∨
    e.terminated = false ∧ e.location = input.length

omit hs hF hspace in
theorem validateFieldCount_terminated (actual : ℕ) :
    Ends (fun _ _ => True) (fun _ e' => e'.terminated = e.terminated)
      (validateFieldCount cfg input actual e) := by
  have hcheck : ∀ expected : ℕ, Ends (fun _ _ => True) (fun _ e' => e'.terminated = e.terminated)
      ((if actual = expected then pure () else
        error input (.fieldCountMismatch expected actual) e.location : Parse Unit) e) := by
    intro expected
    split_ifs
    · exact rfl
    · trivial
  unfold validateFieldCount
  rw [get_bind]
  rcases cfg.fieldCount with _ | _ | expected
  · exact rfl
  · rcases e.expectedFields with _ | expected
    · exact rfl
    · exact hcheck expected
  · exact hcheck expected

omit hs hF hspace in
/-- What counts the fields of a record leaves its frame. -/
theorem countFields_frames {p : ScanPoint} (actual : ℕ)
    (h : RecordFrame cfg input recordStart p e) :
    Ends (fun _ _ => True) (fun _ e' => RecordFrame cfg input recordStart p e')
      (validateFieldCount cfg input actual e) := by
  refine ((validateFieldCount_stays actual).and (validateFieldCount_terminated actual)).mono
    (fun _ _ _ => trivial) ?_
  rintro _ e' ⟨hlocation, hterminated⟩
  unfold RecordFrame
  rw [hlocation, hterminated]
  exact h

theorem fieldsLoop_frames (header : Bool) :
    ∀ (fuel : ℕ) (e : Engine),
      Ends (fun _ _ => True)
        (fun _ e' => RecordFrame cfg input recordStart ⟨e.location, e.location, false⟩ e')
        (fieldsLoop cfg F input recordStart header fuel e)
  | 0, _ => trivial
  | fuel + 1, e => by
    rw [fieldsLoop]
    refine Ends.bind (parseField_frames hs hF hspace header) ?_
    rintro (_ | _) e' hfield
    · have hleads : Leads cfg input recordStart ⟨e.location, e.location, false⟩
          ⟨e'.location, e'.location, false⟩ := hfield
      rw [if_neg Bool.false_ne_true]
      refine (fieldsLoop_frames header fuel e').mono (fun _ _ h => h) ?_
      rintro _ e'' (⟨hterminated, hstops⟩ | hopen)
      · exact Or.inl ⟨hterminated, hleads _ hstops⟩
      · exact Or.inr hopen
    · rw [if_pos rfl]
      obtain ⟨s, hmark⟩ := markNullSpans_location cfg F input header e'
      rw [bind_ok hmark, get_bind]
      exact countFields_frames _ hfield

/-- **The field-by-field parser** ends a record where its frame ends. -/
theorem parseRecordFieldsFor_frames (header : Bool) :
    Ends (fun _ _ => True)
      (fun _ e' => RecordFrame cfg input recordStart ⟨e.location, e.location, false⟩ e')
      (parseRecordFieldsFor cfg F input recordStart header e) := by
  have hrun : ∀ {F'}, cfg.Follows F' → Ends (fun _ _ => True)
      (fun _ e' => RecordFrame cfg input recordStart ⟨e.location, e.location, false⟩ e')
      (parseRecordFields cfg F' input recordStart header e) :=
    fun hF' => fieldsLoop_frames hs hF' hspace header _ e
  unfold parseRecordFieldsFor
  cases F with
  | some o => exact hrun hF
  | none =>
    rcases hk : cfg.formatKind with _ | _ | _
    · exact hrun (follows_of_formatKind.1 hk)
    · exact hrun (follows_of_formatKind.2 hk)
    · exact hrun hF

end fields

/-! ## The plain kernel -/

section plain

variable (hs : cfg.dialect.Sound) (hF : cfg.Follows F) (hmb : cfg.dialect.multibyte = false)
  (hskip : cfg.skipInitialSpace = false)

include hs hmb

omit hmb in
/-- The first byte of a delimiter outside quotes. -/
theorem step_separator {pos m : ℕ} (hb : input[pos]? = some cfg.dialect.delimiter) :
    step cfg input recordStart ⟨pos, m, false⟩ =
      if cfg.dialect.delimiterTail.confirms (input.drop (pos + 1)) then
        .next ⟨pos + cfg.dialect.delimiterTail.width, pos + cfg.dialect.delimiterTail.width, false⟩
      else .next ⟨pos + 1, m, false⟩ := by
  have hat : byteAt input pos = cfg.dialect.delimiter := by
    rw [byteAt, List.getD_eq_getElem?_getD, hb]; rfl
  have hesc : cfg.dialect.escape.unquotedByte ≠ some cfg.dialect.delimiter :=
    fun h => (hs.escape _ (Or.inr h)).1 rfl
  have hcr : ¬ (cfg.dialect.recordEnding == .crLf && cfg.dialect.delimiter == 13) = true := by
    simpa using hs.crLf_delimiter
  have hstop : unquotedStop cfg input m pos =
      if cfg.dialect.delimiterTail.confirms (input.drop (pos + 1)) then
        .ends pos (pos + cfg.dialect.delimiterTail.width) false
      else .resume (pos + 1) := by
    unfold unquotedStop
    simp only [hat]
    rw [if_neg hesc, if_neg (by simp [hs.delimiter_ne_quote]), if_neg hcr,
      if_neg (Ne.symm hs.ending_ne_delimiter)]
  rw [step_unquoted hb (fun i h1 h2 _ hi => ?_) (by simp [searchByte]), hstop]
  · split_ifs <;> rfl
  · obtain rfl : i = pos := by omega
    rw [hb] at hi
    exact absurd (Option.some.inj hi) hs.delimiter_ne_quote

omit hmb in
/-- The first byte of a record ending outside quotes, of a dialect that does not
    ask for both a carriage return and a line feed. -/
theorem step_terminator {pos m : ℕ} (hb : input[pos]? = some cfg.dialect.recordEnding.byte)
    (hcrlf : cfg.dialect.recordEnding ≠ .crLf) :
    step cfg input recordStart ⟨pos, m, false⟩ =
      if cfg.dialect.endingTail.confirms (input.drop (pos + 1)) then
        .ends (pos + cfg.dialect.endingTail.width)
      else .next ⟨pos + 1, m, false⟩ := by
  have hat : byteAt input pos = cfg.dialect.recordEnding.byte := by
    rw [byteAt, List.getD_eq_getElem?_getD, hb]; rfl
  have hesc : cfg.dialect.escape.unquotedByte ≠ some cfg.dialect.recordEnding.byte :=
    fun h => (hs.escape _ (Or.inr h)).2.2 rfl
  have hstop : ∃ fieldEnd, unquotedStop cfg input m pos =
      if cfg.dialect.endingTail.confirms (input.drop (pos + 1)) then
        .ends fieldEnd (pos + cfg.dialect.endingTail.width) true
      else .resume (pos + 1) := by
    unfold unquotedStop
    simp only [hat]
    rw [if_neg hesc, if_neg (by simp [hs.ending_ne_quote]), if_neg (by simp [hcrlf]), if_pos trivial,
      if_neg (by simp [hcrlf])]
    exact ⟨_, rfl⟩
  obtain ⟨fieldEnd, hstop⟩ := hstop
  rw [step_unquoted hb (fun i h1 h2 _ hi => ?_) (by simp [searchByte]), hstop]
  · split_ifs <;> rfl
  · obtain rfl : i = pos := by omega
    rw [hb] at hi
    exact absurd (Option.some.inj hi) hs.ending_ne_quote

/-- A delimiter of one byte. -/
theorem step_delimiter {pos m : ℕ} (hb : input[pos]? = some cfg.dialect.delimiter) :
    step cfg input recordStart ⟨pos, m, false⟩ = .next ⟨pos + 1, pos + 1, false⟩ := by
  obtain ⟨hdt, -⟩ := Dialect.tails_of_single hmb
  rw [step_separator hs hb, Tail.width_eq hs.usable.1, Tail.confirms, hdt,
    List.isPrefixOf_nil_left, if_pos rfl]
  rfl

/-- A record ending of one byte. -/
theorem step_ending {pos m : ℕ} (hb : input[pos]? = some cfg.dialect.recordEnding.byte)
    (hcrlf : cfg.dialect.recordEnding ≠ .crLf) :
    step cfg input recordStart ⟨pos, m, false⟩ = .ends (pos + 1) := by
  obtain ⟨-, het⟩ := Dialect.tails_of_single hmb
  rw [step_terminator hs hb hcrlf, Tail.width_eq hs.usable.2, Tail.confirms, het,
    List.isPrefixOf_nil_left, if_pos rfl]
  rfl

omit hmb in
/-- A carriage return and a line feed, of a dialect that asks for both. -/
theorem step_crlf {pos m : ℕ} (hb : input[pos]? = some 13) (hnext : input[pos + 1]? = some 10)
    (hcrlf : cfg.dialect.recordEnding = .crLf)
    (hesc : cfg.dialect.escape.unquotedByte ≠ some 13) :
    step cfg input recordStart ⟨pos, m, false⟩ = .ends (pos + 2) := by
  have hat : byteAt input pos = 13 := by
    rw [byteAt, List.getD_eq_getElem?_getD, hb]; rfl
  have hquote : (13 : UInt8) ≠ cfg.dialect.quote := (hs.crLf_quote hcrlf).symm
  have hstop : unquotedStop cfg input m pos = .ends pos (pos + 2) true := by
    unfold unquotedStop
    simp only [hat]
    rw [if_neg hesc, if_neg (by simp [hquote]), if_pos (by simp [hcrlf]),
      if_pos (by rw [List.head?_drop, hnext])]
  rw [step_unquoted hb (fun i h1 h2 _ hi => ?_) (by simp [searchByte, hcrlf]), hstop]
  · rfl
  · obtain rfl : i = pos := by omega
    rw [hb] at hi
    exact absurd (Option.some.inj hi) hquote

omit hs hmb in
/-- A byte that the plain kernel passes. -/
theorem step_passed {pos m : ℕ} {b : UInt8} (hb : input[pos]? = some b)
    (hdelimiter : b ≠ cfg.dialect.delimiter) (hending : b ≠ cfg.dialect.recordEnding.byte)
    (hquote : b = cfg.dialect.quote → cfg.syntax'.quotingEnabled = true →
      opens cfg input recordStart m pos = false ∧ cfg.syntax'.permitsUnquotedQuotes = true)
    (hcr : cfg.dialect.recordEnding = .crLf → b ≠ 13)
    (hesc : cfg.dialect.escape.unquotedByte ≠ some b) :
    step cfg input recordStart ⟨pos, m, false⟩ = .next ⟨pos + 1, m, false⟩ := by
  have hopens : ¬ (cfg.syntax'.quotingEnabled && b == cfg.dialect.quote &&
      opens cfg input recordStart m pos) = true := by
    simp only [Bool.and_eq_true, beq_iff_eq, not_and, Bool.not_eq_true]
    exact fun h => (hquote h.2 h.1).1
  have hsearch : searchByte cfg.toFormatSettings b = false := by
    have hseeks : (cfg.syntax'.seeksQuotes && b == cfg.dialect.quote) = false := by
      unfold Syntax.seeksQuotes
      rcases hq : cfg.syntax'.quotingEnabled with _ | _
      · rfl
      · by_cases hb : b = cfg.dialect.quote
        · rw [(hquote hb hq).2]
          rfl
        · rw [beq_eq_false_iff_ne.mpr hb, Bool.and_false]
    have hescape : (cfg.dialect.escape.unquotedByte == some b) = false :=
      beq_eq_false_iff_ne.mpr hesc
    have hreturn : (cfg.dialect.recordEnding == .crLf && b == 13) = false := by
      simpa using hcr
    unfold searchByte
    rw [hseeks, hescape, hreturn, beq_eq_false_iff_ne.mpr hdelimiter,
      beq_eq_false_iff_ne.mpr hending]
    rfl
  unfold step unquoted
  simp only [hb, Bool.false_eq_true, if_false, hsearch]
  rw [if_neg hopens]

/-- Where the plain kernel comes to: the record ending at `t`, with a frame that
    reaches every offset in front of it, or the end of the text. -/
structure PlainEnd (cfg : ParserSettings) (input : Bytes) (recordStart c f : ℕ) (e : Engine)
    (t : ℕ) : Prop where
  location : e.location = t + 1
  terminated : e.terminated = true
  le : c ≤ t
  ending : input[t]? = some cfg.dialect.recordEnding.byte
  noEscape : ∀ i, recordStart ≤ i → i < t → ∀ b, input[i]? = some b →
    cfg.dialect.escape.unquotedByte ≠ some b
  leads : ∀ t', c ≤ t' → t' ≤ t →
    (∀ i, c ≤ i → i < t' → cfg.dialect.recordEnding = .crLf → input[i]? ≠ some 13) →
    ∃ f', Leads cfg input recordStart ⟨c, f, false⟩ ⟨t', f', false⟩

omit hs hmb in
theorem endPlainRecord_same (fieldStart fieldEnd pos location : ℕ) (terminated : Bool) :
    Ends (fun _ _ => True) (fun taken e' => taken = true ∧ e'.location = location ∧
        e'.terminated = terminated)
      (endPlainRecord cfg F input recordStart fieldStart fieldEnd pos location terminated e) := by
  unfold endPlainRecord setLocation setTerminated
  refine Ends.bind (pushSpan_stays _ _ _ _ _) fun _ e' _ => ?_
  rw [modify_bind, modify_bind]
  refine Ends.bind (checkRecordLimit_same location) ?_
  rintro _ _ rfl
  unfold foldPlainRecord foldPlainRecordTerminator
  rw [modify_bind]
  refine ⟨rfl, ?_, ?_⟩ <;> split_ifs <;> rfl

include hF hskip

theorem plainLoop_frames {scanEnd : ℕ} :
    ∀ (text : Bytes) (c f : ℕ) (e : Engine), recordStart ≤ c → slice input c scanEnd = text →
      c + text.length = scanEnd → scanEnd ≤ input.length →
      Ends (fun _ _ => True) (fun taken e' => taken = true →
          (∃ t, PlainEnd cfg input recordStart c f e' t) ∨
            e'.terminated = false ∧ e'.location = input.length)
        (plainLoop cfg F input recordStart scanEnd f (structuralMatches cfg.dialect c text) e) := by
  intro text
  induction text with
  | nil =>
    intro c f e _ _ hlength hin
    rw [structuralMatches, plainLoop]
    by_cases hlimit : scanEnd < input.length
    · rw [if_pos hlimit]
      trivial
    rw [if_neg hlimit]
    by_cases hescape : hasEscape cfg F input recordStart scanEnd = true
    · rw [if_pos hescape]
      intro htaken
      cases htaken
    rw [if_neg hescape]
    refine (endPlainRecord_same f scanEnd scanEnd scanEnd false).mono (fun _ _ h => h) ?_
    rintro _ e' ⟨-, hlocation, hterminated⟩ _
    exact Or.inr ⟨hterminated, by omega⟩
  | cons b rest ih =>
    intro c f e hstart htext hlength hin
    have hlt : c < scanEnd := by
      rw [List.length_cons] at hlength
      omega
    have hc : c < input.length := by omega
    have hcons := slice_cons hlt hc
    rw [htext] at hcons
    obtain ⟨hhead, htail⟩ := List.cons.inj hcons
    have hrest : slice input (c + 1) scanEnd = rest := htail.symm
    have hb : input[c]? = some b := by
      rw [hhead, byteAt, List.getD_eq_getElem?_getD, List.getElem?_eq_getElem hc]
      rfl
    have hlength' : c + 1 + rest.length = scanEnd := by
      rw [List.length_cons] at hlength
      omega
    -- a byte in front of where the kernel comes to
    have hahead : ∀ {f' : ℕ} {e' : Engine},
        (cfg.dialect.escape.unquotedByte ≠ some b →
          (cfg.dialect.recordEnding = .crLf → b ≠ 13) →
          step cfg input recordStart ⟨c, f, false⟩ = .next ⟨c + 1, f', false⟩) →
        ((∃ t, PlainEnd cfg input recordStart (c + 1) f' e' t) ∨
          e'.terminated = false ∧ e'.location = input.length) →
        (∃ t, PlainEnd cfg input recordStart c f e' t) ∨
          e'.terminated = false ∧ e'.location = input.length := by
      intro f' e' hstep h
      rcases h with ⟨t, ht⟩ | h
      swap
      · exact Or.inr h
      have hle := ht.le
      refine Or.inl ⟨t, ht.location, ht.terminated, by omega, ht.ending, ht.noEscape, ?_⟩
      intro t' h1 h2 hcr
      rcases Nat.eq_or_lt_of_le h1 with rfl | hlt'
      · exact ⟨f, Leads.refl⟩
      · obtain ⟨f'', hleads⟩ := ht.leads t' hlt' h2 fun i h3 h4 => hcr i (by omega) h4
        refine ⟨f'', (Leads.of_step (hstep (ht.noEscape c hstart (by omega) b hb) ?_)).trans hleads⟩
        rintro hcrlf rfl
        exact hcr c (Nat.le_refl _) hlt' hcrlf hb
    have hnext := fun (f' : ℕ) (e' : Engine) =>
      ih (c + 1) f' e' (Nat.le_succ_of_le hstart) hrest hlength' hin
    have hpassed : (b = cfg.dialect.quote → cfg.syntax'.quotingEnabled = true →
          opens cfg input recordStart f c = false ∧ cfg.syntax'.permitsUnquotedQuotes = true) →
        b ≠ cfg.dialect.delimiter → b ≠ cfg.dialect.recordEnding.byte →
        cfg.dialect.escape.unquotedByte ≠ some b → (cfg.dialect.recordEnding = .crLf → b ≠ 13) →
        step cfg input recordStart ⟨c, f, false⟩ = .next ⟨c + 1, f, false⟩ :=
      fun hquote h1 h2 hesc hcr => step_passed hb h1 h2 hquote hcr hesc
    rw [structuralMatches]
    by_cases hstructural : (b == cfg.dialect.delimiter || b == cfg.dialect.quote
        || b == cfg.dialect.recordEnding.byte) = true
    swap
    · rw [if_neg hstructural]
      simp only [Bool.or_eq_true, beq_iff_eq, not_or] at hstructural
      exact (hnext f e).mono (fun _ _ h => h) fun _ _ h htaken => hahead
        (hpassed (fun h => absurd h hstructural.1.2) hstructural.1.1 hstructural.2) (h htaken)
    rw [if_pos hstructural, plainLoop]
    simp only [hF.dialect, hF.syntax']
    by_cases hdelimiter : b = cfg.dialect.delimiter
    · rw [if_pos hdelimiter]
      refine Ends.bind (pushSpan_stays _ _ _ _ _) fun _ e' _ => ?_
      exact (hnext (c + 1) e').mono (fun _ _ h => h) fun _ _ h htaken => hahead
        (fun _ _ => step_delimiter hs hmb (hdelimiter ▸ hb)) (h htaken)
    rw [if_neg hdelimiter]
    by_cases hquote : b = cfg.dialect.quote ∧ cfg.syntax'.quotingEnabled = true ∧
        (c = f ∨ cfg.syntax'.permitsUnquotedQuotes = false)
    · rw [if_pos hquote]
      intro htaken
      cases htaken
    rw [if_neg hquote]
    by_cases hending : b = cfg.dialect.recordEnding.byte
    · rw [if_pos hending]
      by_cases hescape : hasEscape cfg F input recordStart c = true
      · rw [if_pos hescape]
        intro htaken
        cases htaken
      rw [if_neg hescape]
      refine (endPlainRecord_same _ _ c (c + 1) true).mono (fun _ _ h => h) ?_
      rintro _ e' ⟨-, hlocation, hterminated⟩ _
      refine Or.inl ⟨c, hlocation, hterminated, Nat.le_refl _, hending ▸ hb, ?_, ?_⟩
      · intro i h1 h2 x hx hesc
        refine hescape ?_
        unfold hasEscape
        rw [hF.dialect, hesc]
        have hmem : x ∈ slice input recordStart c := by
          refine List.mem_iff_getElem?.mpr ⟨i - recordStart, ?_⟩
          unfold slice
          rw [List.getElem?_drop, Nat.add_sub_cancel' h1, List.getElem?_take_of_lt h2, hx]
        simp only [Option.any_some, find1]
        rw [List.findIdx?_isSome]
        exact List.any_eq_true.mpr ⟨x, hmem, by simp⟩
      · intro t' h1 h2 _
        obtain rfl : t' = c := Nat.le_antisymm h2 h1
        exact ⟨f, Leads.refl⟩
    · rw [if_neg hending]
      refine (hnext f e).mono (fun _ _ h => h) fun _ _ h htaken => hahead
        (hpassed (fun h1 h2 => ?_) hdelimiter hending) (h htaken)
      have hinner : ¬ c = f ∧ cfg.syntax'.permitsUnquotedQuotes = true := by
        refine ⟨fun h3 => hquote ⟨h1, h2, Or.inl h3⟩, ?_⟩
        by_contra h3
        exact hquote ⟨h1, h2, Or.inr (Bool.eq_false_of_not_eq_true h3)⟩
      refine ⟨?_, hinner.2⟩
      unfold opens
      rw [beq_eq_false_iff_ne.mpr hinner.1, hskip]
      rfl

/-- **The plain kernel**: what it takes ends where its frame does, once the
    carriage returns are checked. -/
theorem plainKernel_frames (he : recordStart ≤ input.length) :
    Ends (fun _ _ => True) (fun taken e' => taken = true →
        (∃ t, PlainEnd cfg input recordStart recordStart recordStart e' t) ∨
          e'.terminated = false ∧ e'.location = input.length)
      (plainKernel cfg F input recordStart e) := by
  unfold plainKernel
  simp only [hF.dialect]
  refine plainLoop_frames hs hF hmb hskip _ recordStart recordStart e (Nat.le_refl _) rfl ?_ ?_
  · unfold slice
    rw [List.length_drop, List.length_take]
    omega
  · omega

omit hs hF hmb hskip in
/-- The check of carriage returns finds one, in front of the line feed. -/
theorem validateCrlf_frames {t : ℕ} (hlocation : e.location = t + 1) (hle : recordStart ≤ t)
    (hlf : input[t]? = some 10) :
    Ends (fun _ _ => True) (fun _ e' => e' = e ∧ recordStart < t ∧ input[t - 1]? = some 13 ∧
        ∀ i, recordStart ≤ i → i < t - 1 → input[i]? ≠ some 13)
      (validateCrlf input recordStart e) := by
  have hin := (List.getElem?_eq_some_iff.mp hlf).1
  have hends : (decide (recordStart < t + 1) && input[t]? == some 10) = true := by
    rw [hlf, decide_eq_true (by omega)]
    rfl
  unfold validateCrlf
  simp only [hlocation, Nat.add_sub_cancel, hends, if_true, Bool.true_and]
  by_cases hcr : (decide (recordStart < t) && byteAt input (t - 1) == 13) = true
  · rw [if_pos hcr]
    rw [Bool.and_eq_true, decide_eq_true_eq, beq_iff_eq] at hcr
    have hne : ¬ (t - 1 == t) = true := by
      rw [beq_iff_eq]
      omega
    rcases hfind : find1 13 (slice input recordStart (t - 1)) with _ | offset
    · simp only [if_neg hne]
      refine ⟨rfl, hcr.1, ?_, fun i h1 h2 hi => ?_⟩
      · rw [← hcr.2, byteAt, List.getD_eq_getElem?_getD, List.getElem?_eq_getElem (by omega)]
        rfl
      · have hmem : (13 : UInt8) ∈ slice input recordStart (t - 1) := by
          refine List.mem_iff_getElem?.mpr ⟨i - recordStart, ?_⟩
          unfold slice
          rw [List.getElem?_drop, Nat.add_sub_cancel' h1, List.getElem?_take_of_lt h2, hi]
        have hnone := List.findIdx?_eq_none_iff.mp hfind 13 hmem
        simp at hnone
    · trivial
  · rw [if_neg hcr]
    rcases find1 13 (slice input recordStart t) with _ | offset
    · simp only [beq_self_eq_true, if_true]
      trivial
    · trivial

omit hs hF hmb hskip in
theorem validateCrlf_same : Ends (fun _ _ => True) (fun _ e' => e' = e)
    (validateCrlf input recordStart e) := by
  unfold validateCrlf
  simp only
  split
  · trivial
  · exact Ends.ite trivial rfl

omit hskip in
/-- What a kernel has taken ends where its frame does. -/
theorem endTaken_frames (header : Bool) (h : (∃ t, PlainEnd cfg input recordStart recordStart
      recordStart e t) ∨ e.terminated = false ∧ e.location = input.length) :
    Ends (fun _ _ => True)
      (fun _ e' => RecordFrame cfg input recordStart ⟨recordStart, recordStart, false⟩ e')
      (endTaken cfg F input recordStart header e) := by
  have hcount : ∀ e' : Engine,
      RecordFrame cfg input recordStart ⟨recordStart, recordStart, false⟩ e' →
      Ends (fun _ _ => True)
        (fun _ e' => RecordFrame cfg input recordStart ⟨recordStart, recordStart, false⟩ e')
        ((do let e ← get; validateFieldCount cfg input e.spans.len : Parse Unit) e') :=
    fun e' h => countFields_frames _ h
  have hmark : ∀ e' : Engine,
      RecordFrame cfg input recordStart ⟨recordStart, recordStart, false⟩ e' →
      Ends (fun _ _ => True)
        (fun _ e' => RecordFrame cfg input recordStart ⟨recordStart, recordStart, false⟩ e')
        (markNullSpans cfg F input header e') := by
    intro e' h
    obtain ⟨s, hmark⟩ := markNullSpans_location cfg F input header e'
    rw [hmark]
    exact h
  have hcheck : ∀ {P : Unit → Engine → Prop},
      Ends (fun _ _ => True) P (validateCrlf input recordStart e) →
      (∀ u e', P u e' → Ends (fun _ _ => True)
        (fun _ e' => RecordFrame cfg input recordStart ⟨recordStart, recordStart, false⟩ e')
        (markNullSpans cfg F input header e')) →
      Ends (fun _ _ => True)
        (fun _ e' => RecordFrame cfg input recordStart ⟨recordStart, recordStart, false⟩ e')
        ((do
          (do
            validateCrlf input recordStart
            markNullSpans cfg F input header)
          let e ← get
          validateFieldCount cfg input e.spans.len : Parse Unit) e) :=
    fun h1 h2 => Ends.bind (Ends.bind h1 h2) fun _ e' h => hcount e' h
  unfold endTaken finishPlainRecord
  simp only [hF.dialect]
  by_cases hcrlf : cfg.dialect.recordEnding = .crLf
  · have hpass : ParserSettings.needsRecordPass cfg.dialect (cfg.fmt F).nulls = true := by
      simp [ParserSettings.needsRecordPass, hcrlf]
    rw [if_pos hpass, if_pos hcrlf]
    rcases h with ⟨t, ht⟩ | hopen
    · have hlf : input[t]? = some 10 := by
        rw [ht.ending, hcrlf]
        rfl
      refine hcheck (validateCrlf_frames ht.location ht.le hlf) ?_
      rintro _ e' ⟨rfl, hlt, hcr, hfree⟩
      refine hmark e' (Or.inl ⟨ht.terminated, ?_⟩)
      obtain ⟨f, hleads⟩ := ht.leads (t - 1) (by omega) (by omega) fun i h1 h2 _ => hfree i h1 h2
      refine hleads _ (.ends ?_)
      rw [step_crlf hs hcr (by rw [Nat.sub_add_cancel (by omega)]; exact hlf) hcrlf
        (ht.noEscape (t - 1) (by omega) (by omega) 13 hcr), ht.location]
      congr 1
      omega
    · refine hcheck validateCrlf_same ?_
      rintro _ e' rfl
      exact hmark e' (Or.inr hopen)
  · have hframe : RecordFrame cfg input recordStart ⟨recordStart, recordStart, false⟩ e := by
      rcases h with ⟨t, ht⟩ | hopen
      · obtain ⟨f, hleads⟩ := ht.leads t ht.le (Nat.le_refl _) fun _ _ _ h => absurd h hcrlf
        refine Or.inl ⟨ht.terminated, hleads _ (.ends ?_)⟩
        rw [step_ending hs hmb ht.ending hcrlf, ht.location]
      · exact Or.inr hopen
    by_cases hpass : ParserSettings.needsRecordPass cfg.dialect (cfg.fmt F).nulls = true
    · rw [if_pos hpass, if_neg hcrlf]
      exact Ends.bind (hmark e hframe) fun _ e' h => hcount e' h
    · rw [if_neg hpass]
      exact hcount e hframe

end plain

/-! ## One record -/

/-- The plain kernel runs for single-byte separators only, as a static format
    does not ask. -/
def KernelSound (cfg : ParserSettings) (F : CsvFormat) : Prop :=
  cfg.fmtPlainKernel F = true → cfg.dialect.multibyte = false

instance (cfg : ParserSettings) (F : CsvFormat) : Decidable (KernelSound cfg F) :=
  inferInstanceAs (Decidable (_ → _))

theorem kernelSound_none (cfg : ParserSettings) : KernelSound cfg none := by
  intro h
  simp only [ParserSettings.fmtPlainKernel, Bool.and_eq_true, Bool.not_eq_true'] at h
  exact h.2

section record

variable (hs : cfg.dialect.Sound) (hF : cfg.Follows F) (hspace : cfg.SpacesPlain)
  (hkernel : KernelSound cfg F)

include hs hF hspace hkernel

/-- **A record** that the plain kernel takes or leaves ends where its frame
    does. -/
theorem generalRecord_frames (header : Bool) (hin : e.location ≤ input.length) :
    Ends (fun _ _ => True)
      (fun _ e' => RecordFrame cfg input e.location ⟨e.location, e.location, false⟩ e')
      (generalRecord cfg F input e.location header e) := by
  unfold generalRecord
  by_cases hcandidate : plainRecordCandidate cfg F input[e.location]? = true
  · rw [if_pos hcandidate]
    unfold plainRecordCandidate at hcandidate
    rw [Bool.and_eq_true] at hcandidate
    have hskip : cfg.skipInitialSpace = false := by
      rw [← hF.skipInitialSpace]
      have h := hcandidate.1
      unfold ParserSettings.fmtPlainKernel at h
      cases F with
      | some o =>
        show o.skipInitialSpace = false
        simpa using h
      | none =>
        show cfg.skipInitialSpace = false
        simp only [Bool.and_eq_true, Bool.not_eq_true'] at h
        exact h.1
    refine Ends.bind (((plainKernel_took hin).and
      (plainKernel_frames hs hF (hkernel hcandidate.1) hskip hin)).mono (fun _ _ _ => trivial)
      fun _ _ h => h) ?_
    rintro (_ | _) e' ⟨htook, htaken⟩
    · have hat : e'.location = e.location := htook
      simp only [Bool.false_eq_true, if_false, ← hat]
      exact parseRecordFieldsFor_frames hs hF hspace header
    · simp only [if_true]
      exact endTaken_frames hs hF (hkernel hcandidate.1) header (htaken rfl)
  · rw [if_neg hcandidate, pure_bind_apply]
    simp only [Bool.false_eq_true, if_false]
    exact parseRecordFieldsFor_frames hs hF hspace header

end record

end Engine

end Coseva
