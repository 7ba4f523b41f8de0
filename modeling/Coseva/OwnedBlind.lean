/-
  Coseva — the owned parse path does not look at how the certifying kernel has fared
  (`coseva/src/engine/owned_parser.rs`): that only decides whether the kernel is tried.

  * `certifying`: the engine with other results of that kernel;
  * `parseOwnedInteriorPrefix_blind`, `ownedFieldsLoop_blind`: a record where the kernel
    has declined.
-/
import Coseva.Lib.Blind
import Coseva.OwnedParse

namespace Coseva

namespace Engine

open Run

/-- The engine, with what it has learned of the certifying kernel replaced. -/
def certifying (backoff : ℕ) (succeeded : Bool) (e : Engine) : Engine :=
  { e with asciiStructuralBackoff := backoff, asciiStructuralSucceeded := succeeded }

variable {cfg : ParserSettings} {F : CsvFormat} {input : Bytes} {backoff : ℕ} {succeeded : Bool}

/-! ## Limits and the cursor -/

theorem errorFor_blind {α : Type} (kind : ErrorKind) (byte field : ℕ) :
    Blind (certifying backoff succeeded) (errorFor (α := α) input kind byte field) := fun _ => rfl

theorem error_blind {α : Type} (kind : ErrorKind) (byte : ℕ) :
    Blind (certifying backoff succeeded) (error (α := α) input kind byte) := fun _ => rfl

theorem setLocation_blind (location : ℕ) :
    Blind (certifying backoff succeeded) (setLocation location) := Blind.modify' fun _ => rfl

theorem checkRecordLimitFor_blind (recordStart byte field : ℕ) :
    Blind (certifying backoff succeeded) (checkRecordLimitFor cfg input recordStart byte field) :=
  Blind.ite (errorFor_blind _ _ _) (Blind.pure' ())

theorem checkScanEndFor_blind (byte recordStart fieldStart field : ℕ) :
    Blind (certifying backoff succeeded) (checkScanEndFor cfg input byte recordStart fieldStart field) :=
  Blind.ite (errorFor_blind _ _ _) (checkRecordLimitFor_blind _ _ _)

theorem validateFieldCount_blind (actual : ℕ) :
    Blind (certifying backoff succeeded) (validateFieldCount cfg input actual) := by
  intro s
  unfold validateFieldCount
  rw [Run.get_bind, Run.get_bind]
  have hexpected : (certifying backoff succeeded s).expectedFields = s.expectedFields := rfl
  rw [hexpected]
  rcases cfg.fieldCount with _ | _ | expected
  · rfl
  · rcases hfields : s.expectedFields with _ | expected
    · rfl
    · exact Blind.ite (Blind.pure' ()) (error_blind _ _) s
  · exact Blind.ite (Blind.pure' ()) (error_blind _ _) s

theorem skipSpaces_blind (recordStart field fuel : ℕ) :
    Blind (certifying backoff succeeded) (skipSpaces cfg input recordStart field fuel) := by
  induction fuel with
  | zero => exact Blind.throw' _
  | succ fuel ih =>
    intro s
    rw [skipSpaces, Run.get_bind, Run.get_bind]
    show (if input[s.location]? = some 32 then _ else _ : Parse Unit) _ = _
    split_ifs
    · exact (checkRecordLimitFor_blind recordStart (s.location + 1) field).bind (fun _ => ih)
        { s with location := s.location + 1 }
    · rfl

theorem skipDelimiterSpaces_blind (recordStart : ℕ) :
    Blind (certifying backoff succeeded) (skipDelimiterSpaces cfg input F recordStart) :=
  Blind.get_bind (fun _ => rfl) fun s =>
    Blind.ite (Blind.pure' ()) (skipSpaces_blind recordStart s.spans.len (input.length + 1))

/-! ## Plain records -/

theorem pushOwnedField_blind (output : OwnedOutput) (start stop byte : ℕ) :
    Blind (certifying backoff succeeded) (pushOwnedField cfg input output start stop byte) :=
  Blind.ite (errorFor_blind _ _ _) (Blind.ite (errorFor_blind _ _ _) (Blind.pure' _))

theorem endOwnedPlain_blind (recordStart fieldStart fieldEnd pos location : ℕ) (output : OwnedOutput) :
    Blind (certifying backoff succeeded)
      (endOwnedPlain cfg input recordStart fieldStart fieldEnd pos location output) :=
  (pushOwnedField_blind output fieldStart fieldEnd pos).bind fun _ =>
    (setLocation_blind location).bind fun _ =>
      (checkRecordLimitFor_blind _ _ _).bind fun _ => Blind.pure' _

theorem ownedPlainLoop_blind (recordStart scanEnd : ℕ) (found : List (ℕ × UInt8)) :
    ∀ (fieldStart : ℕ) (output : OwnedOutput), Blind (certifying backoff succeeded)
      (ownedPlainLoop cfg F input recordStart scanEnd fieldStart output found) := by
  induction found with
  | nil =>
    intro fieldStart output
    exact Blind.ite (errorFor_blind _ _ _) (endOwnedPlain_blind _ _ _ _ _ _)
  | cons first rest ih =>
    intro fieldStart output
    obtain ⟨cursor, byte⟩ := first
    rw [ownedPlainLoop]
    refine Blind.ite (Blind.ite (Blind.ite (errorFor_blind _ _ _) (ih _ _)) ?_) ?_
    · exact Blind.ite (ih _ _) ((pushOwnedField_blind _ _ _ _).bind fun _ => ih _ _)
    · refine Blind.ite (Blind.ite (errorFor_blind _ _ _) ?_) ?_
      · exact (setLocation_blind cursor).bind fun _ => Blind.pure' _
      · exact Blind.ite (endOwnedPlain_blind _ _ _ _ _ _) (ih _ _)

theorem ownedPlainFrom_blind (recordStart resume : ℕ) (output : OwnedOutput) :
    Blind (certifying backoff succeeded) (ownedPlainFrom cfg F input recordStart resume output) :=
  ownedPlainLoop_blind _ _ _ _ _

/-! ## The field-by-field parser -/

theorem pushOwnedUnquoted_blind (output : OwnedOutput) (start stop byte : ℕ) (nulls : Nulls) :
    Blind (certifying backoff succeeded) (pushOwnedUnquoted cfg input output start stop byte nulls) :=
  Blind.ite (Blind.ite (errorFor_blind _ _ _) (Blind.pure' _)) (pushOwnedField_blind _ _ _ _)

theorem parseOwnedUnquotedField_blind (recordStart : ℕ) (header : Bool) (output : OwnedOutput) :
    Blind (certifying backoff succeeded)
      (parseOwnedUnquotedField cfg input recordStart header output) := by
  refine Blind.get_bind (fun _ => rfl) fun s => Blind.ite (Blind.throw' _) ?_
  dsimp only
  split
  · exact (checkScanEndFor_blind _ _ _ _).bind fun _ => (pushOwnedUnquoted_blind _ _ _ _ _).bind
      fun _ => (setLocation_blind _).bind fun _ => Blind.pure' _
  · exact Blind.ite (errorFor_blind _ _ _) ((pushOwnedUnquoted_blind _ _ _ _ _).bind fun _ =>
      (setLocation_blind _).bind fun _ => (checkRecordLimitFor_blind _ _ _).bind fun _ =>
        Blind.pure' _)

theorem endOwnedRecord_blind (recordStart location field : ℕ) :
    Blind (certifying backoff succeeded) (endOwnedRecord cfg input recordStart location field) :=
  (setLocation_blind location).bind fun _ =>
    (checkRecordLimitFor_blind _ _ _).bind fun _ => Blind.pure' _

theorem finishOwnedQuotedField_blind (fieldCount recordStart afterQuote : ℕ) :
    Blind (certifying backoff succeeded)
      (finishOwnedQuotedField cfg input fieldCount recordStart afterQuote) := by
  unfold finishOwnedQuotedField
  dsimp only
  split
  · exact endOwnedRecord_blind _ _ _
  · refine Blind.ite ((setLocation_blind _).bind fun _ => Blind.pure' _) ?_
    exact Blind.ite (endOwnedRecord_blind _ _ _)
      (Blind.ite (endOwnedRecord_blind _ _ _) (errorFor_blind _ _ _))

theorem endOwnedScan_blind (recordStart contentStart field : ℕ) :
    Blind (certifying backoff succeeded) (endOwnedScan cfg input recordStart contentStart field) :=
  (checkScanEndFor_blind _ _ _ _).bind fun _ => errorFor_blind _ _ _

theorem ownedQuotedLoop_blind (recordStart contentStart fuel : ℕ) :
    ∀ (segmentStart cursor : ℕ) (output : OwnedFields), Blind (certifying backoff succeeded)
      (ownedQuotedLoop cfg input recordStart contentStart fuel segmentStart cursor output) := by
  induction fuel with
  | zero =>
    intro segmentStart cursor output
    exact Blind.throw' _
  | succ fuel ih =>
    intro segmentStart cursor output
    rw [ownedQuotedLoop]
    refine Blind.ite (endOwnedScan_blind _ _ _) (Blind.ite (Blind.throw' _) ?_)
    split
    · exact endOwnedScan_blind _ _ _
    · simp only
      split
      · exact errorFor_blind _ _ _
      · exact ih _ _ _
      · exact (finishOwnedQuotedField_blind _ _ _).bind fun _ => Blind.pure' _

theorem appendOwnedQuotedField_blind (recordStart : ℕ) (output : OwnedOutput) :
    Blind (certifying backoff succeeded) (appendOwnedQuotedField cfg input recordStart output) := by
  have hfield : ∀ output' : OwnedFields, Blind (certifying backoff succeeded)
      (parseOwnedQuotedField cfg input recordStart output') := fun output' =>
    Blind.get_bind (fun _ => rfl) fun s =>
      Blind.ite (errorFor_blind _ _ _) (ownedQuotedLoop_blind _ _ _ _ _ _)
  exact (hfield _).bind fun _ => Blind.pure' _

theorem ownedFieldsLoop_blind (recordStart : ℕ) (header : Bool) (fuel : ℕ) : ∀ output : OwnedOutput,
    Blind (certifying backoff succeeded)
      (ownedFieldsLoop cfg F input recordStart header fuel output) := by
  induction fuel with
  | zero =>
    intro output
    exact Blind.throw' _
  | succ fuel ih =>
    intro output
    refine (skipDelimiterSpaces_blind recordStart).bind fun _ => Blind.get_bind (fun _ => rfl) fun s => ?_
    have hnext : ∀ recordEnd output, Blind (certifying backoff succeeded) (if recordEnd = true then do
          validateFieldCount cfg input (OwnedOutput.len output)
          pure output
        else ownedFieldsLoop cfg F input recordStart header fuel output) := fun recordEnd output =>
      Blind.ite ((validateFieldCount_blind _).bind fun _ => Blind.pure' _) (ih _)
    exact Blind.ite ((appendOwnedQuotedField_blind _ _).bind fun result => hnext _ _)
      ((parseOwnedUnquotedField_blind _ _ _).bind fun result => hnext _ _)

/-! ## Records with quotes -/

theorem finishOwnedRecord_blind (header : Bool) (output : OwnedOutput) :
    Blind (certifying backoff succeeded) (finishOwnedRecord cfg F input header output) :=
  (validateFieldCount_blind _).bind fun _ => Blind.pure' _

theorem predictQuotes_blind {parser : Engine → Option PrefixParser}
    (h : ∀ e, parser (certifying backoff succeeded e) = parser e) :
    Blind (certifying backoff succeeded) (predictQuotes parser) :=
  Blind.modify' fun e => by rw [h]; rfl

theorem resumeOwnedLoop_blind (parse : PrefixParser) (recordStart fuel : ℕ) : ∀ output : OwnedOutput,
    Blind (certifying backoff succeeded)
      (resumeOwnedLoop cfg F input parse recordStart fuel output) := by
  induction fuel with
  | zero =>
    intro output
    exact Blind.throw' _
  | succ fuel ih =>
    intro output
    refine Blind.get_bind (fun _ => rfl) fun s => ?_
    split
    · exact Blind.pure' _
    · split
      · exact (setLocation_blind _).bind fun _ => Blind.pure' _
      · refine (setLocation_blind _).bind fun _ => (ownedPlainFrom_blind _ _ _).bind fun result => ?_
        exact Blind.ite (Blind.pure' _) (ih _)
      · exact Blind.pure' _
      · exact Blind.throw' _

theorem resumeOwnedAfterInteriorQuote_blind (recordStart : ℕ) (output : OwnedOutput) :
    Blind (certifying backoff succeeded)
      (resumeOwnedAfterInteriorQuote cfg F input recordStart output) := by
  refine Blind.get_bind (fun _ => rfl) fun s => ?_
  split
  · exact Blind.pure' _
  · exact resumeOwnedLoop_blind _ _ _ _

theorem runOwnedParser_blind (recordStart : ℕ) (output : OwnedOutput) :
    Blind (certifying backoff succeeded) (runOwnedParser input recordStart output) := by
  refine Blind.get_bind (fun _ => rfl) fun s => ?_
  split
  · exact Blind.pure' _
  · split
    · exact (setLocation_blind _).bind fun _ => Blind.pure' _
    · exact Blind.pure' _

/-- A record that is predicted to have quotes. -/
theorem parseOwnedInteriorPrefix_blind (recordStart : ℕ) (header : Bool) (output : OwnedOutput) :
    Blind (certifying backoff succeeded)
      (parseOwnedInteriorPrefix cfg F input recordStart header output) := by
  refine Blind.get_bind (fun _ => rfl) fun s => ?_
  split
  · exact runOwnedParser_blind _ _
  split
  · exact (setLocation_blind _).bind fun _ => Blind.pure' _
  · refine (setLocation_blind _).bind fun _ => (ownedPlainFrom_blind _ _ _).bind fun result => ?_
    refine Blind.ite (finishOwnedRecord_blind _ _) ((predictQuotes_blind fun _ => rfl).bind fun _ => ?_)
    refine (resumeOwnedAfterInteriorQuote_blind _ _).bind fun result' => ?_
    exact Blind.ite (finishOwnedRecord_blind _ _) (Blind.pure' _)
  · exact Blind.pure' _
  · exact Blind.throw' _

end Engine

end Coseva
