/-
  Coseva — what the borrowed parse of a record leaves of the engine
  (`coseva/src/engine/borrowed_parser.rs`), also where it fails.

  * `Apart`: a property of the engine that does not look at what a parse writes: the cursor, the
    spans, how the record ended and the field count;
  * `parseRecordFieldsFor_leaves`, `finishPlainRecord_leaves`: the field-by-field parser and the
    passes behind the kernels leave it;
  * `parseRecord_leaves`: so does the parse of a record, of a property that does not look at the
    line tally either.
-/
import Coseva.Borrowed
import Coseva.Lib.Blind

namespace Coseva

open Run

namespace Engine

/-- A property that does not look at what a parse writes. -/
structure Apart (I : Engine → Prop) : Prop where
  location : ∀ (e : Engine) (location : ℕ), I e → I { e with location }
  spans : ∀ (e : Engine) (spans : SpanStorage), I e → I { e with spans }
  terminated : ∀ (e : Engine) (terminated : Bool), I e → I { e with terminated }
  expectedFields : ∀ (e : Engine) (expectedFields : Option ℕ), I e → I { e with expectedFields }

/-- Nor at the line tally. -/
structure ApartFolds (I : Engine → Prop) : Prop extends Apart I where
  folds : ∀ (e : Engine) (foldedLines foldedUpto : ℕ), I e → I { e with foldedLines, foldedUpto }

/-- The property is left as it is, wherever the computation ends. -/
abbrev Leaves (I : Engine → Prop) {α : Type} (m : Parse α) : Prop := Maintains I (fun _ => True) m

variable {cfg : ParserSettings} {F : CsvFormat} {input : Bytes} {I : Engine → Prop} {α β : Type}

theorem leaves_pure (a : α) : Leaves I (pure a : Parse α) := Maintains.pure' trivial

theorem leaves_bind {m : Parse α} {f : α → Parse β} (hm : Leaves I m) (hf : ∀ a, Leaves I (f a)) :
    Leaves I (m >>= f) := Maintains.bind hm fun a _ => hf a

theorem leaves_modify {g : Engine → Engine} (h : ∀ e, I e → I (g e)) :
    Leaves I (modify g : Parse PUnit) := Maintains.modify' h trivial

theorem errorFor_leaves (kind : ErrorKind) (byte field : ℕ) :
    Leaves I (errorFor input kind byte field : Parse α) := fun _ hs => hs

theorem error_leaves (kind : ErrorKind) (byte : ℕ) : Leaves I (error input kind byte : Parse α) :=
  fun _ hs => hs

theorem checkRecordLimitFor_leaves (recordStart byte field : ℕ) :
    Leaves I (checkRecordLimitFor cfg input recordStart byte field) :=
  Maintains.ite (errorFor_leaves _ _ _) (leaves_pure ())

theorem checkRecordLimit_leaves (recordStart byte : ℕ) :
    Leaves I (checkRecordLimit cfg input recordStart byte) :=
  fun s hs => checkRecordLimitFor_leaves recordStart byte s.spans.len s hs

theorem checkScanEnd_leaves (byte recordStart fieldStart : ℕ) :
    Leaves I (checkScanEnd cfg input byte recordStart fieldStart) := fun s hs =>
  Maintains.ite (errorFor_leaves _ _ s.spans.len) (checkRecordLimitFor_leaves _ _ _) s hs

theorem checkScratchLimit_leaves (scratchStart byte : ℕ) :
    Leaves I (checkScratchLimit cfg input scratchStart byte) := by
  intro s hs
  unfold checkScratchLimit
  split_ifs
  · exact hs
  · exact ⟨hs, trivial⟩

theorem validateCrlf_leaves (recordStart : ℕ) : Leaves I (validateCrlf input recordStart) := by
  intro s hs
  have hor : ∀ (c : Prop) [Decidable c] (kind : ErrorKind) (byte field : ℕ),
      Ends (fun _ => I) (fun _ s' => I s' ∧ True)
        (if c then errorFor input kind byte field s else EStateM.Result.ok () s) := by
    intro c _ kind byte field
    split_ifs
    · exact hs
    · exact ⟨hs, trivial⟩
  unfold validateCrlf
  dsimp only
  split
  · exact hs
  · exact hor _ _ _ _

section apart

variable (hI : Apart I)

include hI

/-! ## Moves and pushes -/

theorem setLocation_leaves (location : ℕ) : Leaves I (setLocation location) :=
  leaves_modify fun e h => hI.location e location h

theorem setTerminated_leaves (terminated : Bool) : Leaves I (setTerminated terminated) :=
  leaves_modify fun e h => hI.terminated e terminated h

theorem noteTerminatedIf_leaves (terminated : Bool) : Leaves I (noteTerminatedIf terminated) :=
  Maintains.ite (setTerminated_leaves hI true) (leaves_pure ())

theorem extendScratch_leaves (bytes : Bytes) : Leaves I (extendScratch bytes) :=
  leaves_modify fun e h => hI.spans e _ h

theorem clearSpans_leaves : Leaves I clearSpans := leaves_modify fun e h => hI.spans e _ h

theorem pushSpan_leaves (source : Source) (start stop byte : ℕ) (quoted : Bool) :
    Leaves I (pushSpan cfg input source start stop byte quoted) := by
  intro s hs
  unfold pushSpan
  split
  · exact ⟨hI.spans s _ hs, trivial⟩
  · exact hs

theorem pushNullSpan_leaves (byte : ℕ) : Leaves I (pushNullSpan cfg input byte) := by
  intro s hs
  unfold pushNullSpan
  split
  · exact hs
  · exact ⟨hI.spans s _ hs, trivial⟩

theorem validateFieldCount_leaves (actual : ℕ) : Leaves I (validateFieldCount cfg input actual) := by
  refine Maintains.get_bind fun s hs => ?_
  have hcheck : ∀ expected, Leaves I (if actual = expected then pure ()
      else error input (.fieldCountMismatch expected actual) s.location : Parse Unit) := fun expected =>
    Maintains.ite (leaves_pure ()) (error_leaves _ _)
  split
  · exact leaves_pure ()
  · exact hcheck _
  · exact hcheck _
  · exact Maintains.set' (hI.expectedFields s _ hs) trivial

/-- The field count that a record ends with. -/
theorem countFields_leaves : Leaves I (do
    let e ← get
    validateFieldCount cfg input e.spans.len) :=
  Maintains.get_bind fun _ _ => validateFieldCount_leaves hI _

theorem skipDelimiterSpaces_leaves (recordStart : ℕ) :
    Leaves I (skipDelimiterSpaces cfg input F recordStart) := by
  have hspaces : ∀ field fuel, Leaves I (skipSpaces cfg input recordStart field fuel) := by
    intro field fuel
    induction fuel with
    | zero => exact Maintains.throw' _
    | succ fuel ih =>
      refine Maintains.get_bind fun s hs => Maintains.ite ?_ (leaves_pure ())
      refine Maintains.bind (Maintains.set' (P := fun _ => True) (hI.location s _ hs) trivial) fun _ _ => ?_
      exact leaves_bind (checkRecordLimitFor_leaves _ _ _) fun _ => ih
  exact Maintains.get_bind fun _ _ => Maintains.ite (leaves_pure ()) (hspaces _ _)

/-! ## Unquoted fields -/

theorem parseUnquotedFieldRuntime_leaves (recordStart : ℕ) :
    Leaves I (parseUnquotedFieldRuntime cfg F input recordStart) := by
  refine Maintains.get_bind fun s _ => Maintains.ite (Maintains.throw' _) ?_
  dsimp only
  split
  · exact leaves_bind (checkScanEnd_leaves _ _ _) fun _ => leaves_bind (pushSpan_leaves hI _ _ _ _ _) fun _ =>
      leaves_bind (setLocation_leaves hI _) fun _ => leaves_bind (setTerminated_leaves hI _) fun _ =>
        leaves_pure _
  · refine Maintains.ite (error_leaves _ _) ?_
    exact leaves_bind (pushSpan_leaves hI _ _ _ _ _) fun _ => leaves_bind (setLocation_leaves hI _) fun _ =>
      leaves_bind (noteTerminatedIf_leaves hI _) fun _ => leaves_bind (checkRecordLimit_leaves _ _) fun _ =>
        leaves_pure _

theorem pushGeneralUnquotedSpan_leaves (fieldStart fieldEnd pos : ℕ) (header : Bool) :
    Leaves I (pushGeneralUnquotedSpan cfg input fieldStart fieldEnd pos header) := by
  refine Maintains.ite (pushNullSpan_leaves hI _) ?_
  split
  · refine Maintains.ite (Maintains.get_bind fun s _ => ?_) (pushSpan_leaves hI _ _ _ _ _)
    exact leaves_bind (extendScratch_leaves hI _) fun _ =>
      leaves_bind (checkScratchLimit_leaves _ _) fun _ => pushSpan_leaves hI _ _ _ _ _
  · exact pushSpan_leaves hI _ _ _ _ _

theorem endGeneralField_leaves (recordStart fieldStart fieldEnd pos location : ℕ)
    (header terminated : Bool) : Leaves I
      (endGeneralField cfg input recordStart fieldStart fieldEnd pos location header terminated) :=
  leaves_bind (pushGeneralUnquotedSpan_leaves hI _ _ _ _) fun _ =>
    leaves_bind (setLocation_leaves hI _) fun _ => leaves_bind (noteTerminatedIf_leaves hI _) fun _ =>
      leaves_bind (checkRecordLimit_leaves _ _) fun _ => leaves_pure _

theorem endGeneralWindow_leaves (recordStart fieldStart : ℕ) (header : Bool) :
    Leaves I (endGeneralWindow cfg input recordStart fieldStart header) :=
  leaves_bind (checkScanEnd_leaves _ _ _) fun _ =>
    leaves_bind (pushGeneralUnquotedSpan_leaves hI _ _ _ _) fun _ =>
      leaves_bind (setLocation_leaves hI _) fun _ => leaves_bind (setTerminated_leaves hI _) fun _ =>
        leaves_pure _

theorem generalUnquotedLoop_leaves (extended : Bool) (recordStart fieldStart : ℕ) (header : Bool)
    (fuel : ℕ) : ∀ cursor, Leaves I
      (generalUnquotedLoop cfg input extended recordStart fieldStart header fuel cursor) := by
  induction fuel with
  | zero =>
    intro cursor
    exact Maintains.throw' _
  | succ fuel ih =>
    intro cursor
    rw [generalUnquotedLoop]
    refine Maintains.ite (endGeneralWindow_leaves hI _ _ _) ?_
    split
    · exact ih _
    · dsimp only
      split
      · exact ih _
      · exact error_leaves _ _
      · exact endGeneralField_leaves hI _ _ _ _ _ _ _

theorem parseUnquotedField_leaves (recordStart : ℕ) (header : Bool) :
    Leaves I (parseUnquotedField cfg F input recordStart header) :=
  Maintains.ite (Maintains.get_bind fun _ _ => generalUnquotedLoop_leaves hI _ _ _ _ _ _)
    (parseUnquotedFieldRuntime_leaves hI recordStart)

/-! ## Quoted fields -/

theorem endQuotedRecord_leaves (recordStart location : ℕ) (terminated : Bool) :
    Leaves I (endQuotedRecord cfg input recordStart location terminated) :=
  leaves_bind (setLocation_leaves hI _) fun _ => leaves_bind (setTerminated_leaves hI _) fun _ =>
    leaves_bind (checkRecordLimit_leaves _ _) fun _ => leaves_pure _

theorem finishQuotedField_leaves (recordStart afterQuote : ℕ) :
    Leaves I (finishQuotedField cfg F input recordStart afterQuote) := by
  unfold finishQuotedField
  dsimp only
  split
  · exact endQuotedRecord_leaves hI _ _ _
  · refine Maintains.ite (leaves_bind (setLocation_leaves hI _) fun _ => leaves_pure _) ?_
    exact Maintains.ite (endQuotedRecord_leaves hI _ _ _)
      (Maintains.ite (endQuotedRecord_leaves hI _ _ _) (error_leaves _ _))

theorem closeQuotedField_leaves (recordStart contentStart scratchStart segmentStart pos : ℕ)
    (copied : Bool) : Leaves I
      (closeQuotedField cfg F input recordStart contentStart scratchStart segmentStart pos copied) := by
  have hpushed : ∀ m : Parse Unit, Leaves I m → Leaves I (do
      m
      finishQuotedField cfg F input recordStart (pos + 1)) := fun m hm =>
    leaves_bind hm fun _ => finishQuotedField_leaves hI _ _
  unfold closeQuotedField
  cases copied with
  | false => exact Maintains.get_bind fun s _ => hpushed _ (pushSpan_leaves hI _ _ _ _ _)
  | true =>
    refine leaves_bind (extendScratch_leaves hI _) fun _ => Maintains.get_bind fun s _ => ?_
    exact hpushed _ (pushSpan_leaves hI _ _ _ _ _)

theorem quotedLoop_leaves (recordStart contentStart scratchStart fuel : ℕ) :
    ∀ (segmentStart cursor : ℕ) (copied : Bool), Leaves I
      (quotedLoop cfg F input recordStart contentStart scratchStart fuel segmentStart cursor copied) := by
  induction fuel with
  | zero =>
    intro segmentStart cursor copied
    exact Maintains.throw' _
  | succ fuel ih =>
    intro segmentStart cursor copied
    rw [quotedLoop]
    refine Maintains.ite (leaves_bind (checkRecordLimit_leaves _ _) fun _ => Maintains.throw' _) ?_
    split
    · exact leaves_bind (checkScanEnd_leaves _ _ _) fun _ => error_leaves _ _
    · dsimp only
      split
      · exact error_leaves _ _
      · exact leaves_bind (extendScratch_leaves hI _) fun _ =>
          leaves_bind (extendScratch_leaves hI _) fun _ =>
            leaves_bind (checkScratchLimit_leaves _ _) fun _ => ih _ _ _
      · exact closeQuotedField_leaves hI _ _ _ _ _ _

/-! ## The field-by-field parser -/

theorem markNullSpans_leaves (header : Bool) : Leaves I (markNullSpans cfg F input header) :=
  Maintains.ite (leaves_pure ()) (leaves_modify fun e h => hI.spans e _ h)

theorem parseField_leaves (recordStart : ℕ) (header : Bool) :
    Leaves I (parseField cfg F input recordStart header) :=
  leaves_bind (skipDelimiterSpaces_leaves hI recordStart) fun _ => Maintains.get_bind fun _ _ =>
    Maintains.ite (Maintains.get_bind fun _ _ => quotedLoop_leaves hI _ _ _ _ _ _ _)
      (parseUnquotedField_leaves hI recordStart header)

theorem fieldsLoop_leaves (recordStart : ℕ) (header : Bool) (fuel : ℕ) :
    Leaves I (fieldsLoop cfg F input recordStart header fuel) := by
  induction fuel with
  | zero => exact Maintains.throw' _
  | succ fuel ih =>
    refine leaves_bind (parseField_leaves hI recordStart header) fun recordEnd => Maintains.ite ?_ ih
    exact leaves_bind (markNullSpans_leaves hI header) fun _ => countFields_leaves hI

theorem parseRecordFieldsFor_leaves (recordStart : ℕ) (header : Bool) :
    Leaves I (parseRecordFieldsFor cfg F input recordStart header) := by
  unfold parseRecordFieldsFor
  cases F with
  | some o => exact fieldsLoop_leaves hI _ _ _
  | none =>
    rcases cfg.formatKind with _ | _ | _
    · exact fieldsLoop_leaves hI _ _ _
    · exact fieldsLoop_leaves hI _ _ _
    · exact fieldsLoop_leaves hI _ _ _

/-! ## Behind the kernels -/

theorem declinePlain_leaves : Leaves I declinePlain :=
  leaves_bind (clearSpans_leaves hI) fun _ => leaves_pure _

theorem finishPlainRecord_leaves (recordStart : ℕ) (header : Bool) :
    Leaves I (finishPlainRecord cfg F input recordStart header) := by
  refine Maintains.ite ?_ (markNullSpans_leaves hI header)
  exact leaves_bind (validateCrlf_leaves recordStart) fun _ => markNullSpans_leaves hI header

/-- The passes over a record that a kernel has taken. -/
theorem finishRecord_leaves (recordStart : ℕ) (header : Bool) : Leaves I (do
    if ParserSettings.needsRecordPass (cfg.fmt F).dialect (cfg.fmt F).nulls then
      finishPlainRecord cfg F input recordStart header
    else pure ()
    let e ← get
    validateFieldCount cfg input e.spans.len) := by
  refine Maintains.ite ?_ (countFields_leaves hI)
  exact leaves_bind (finishPlainRecord_leaves hI recordStart header) fun _ => countFields_leaves hI

end apart

/-! ## The kernels -/

section folds

variable (hI : ApartFolds I)

include hI

theorem foldPlainRecordTerminator_leaves (recordStart : ℕ) (terminated : Bool) (terminator : UInt8) :
    Leaves I (foldPlainRecordTerminator recordStart terminated terminator) := by
  refine leaves_modify fun e h => ?_
  split
  · exact h
  · exact hI.folds e _ _ h

theorem tryParseDefaultCsvBorrowed_leaves (recordStart : ℕ) :
    Leaves I (tryParseDefaultCsvBorrowed cfg input recordStart) := by
  have hset : ∀ (e : Engine) (location : ℕ) (spans : SpanStorage) (terminated : Bool), I e →
      I { e with location, spans, terminated } := fun e location spans terminated h =>
    hI.terminated _ terminated (hI.spans _ spans (hI.location e location h))
  refine Maintains.get_bind fun s hs => Maintains.ite (leaves_pure false) ?_
  split
  · refine Maintains.bind (Maintains.set' (P := fun _ => True) (hset s _ _ _ hs) trivial) fun _ _ => ?_
    exact leaves_bind (foldPlainRecordTerminator_leaves hI _ _ _) fun _ => leaves_pure true
  · refine Maintains.ite (leaves_pure false) ?_
    split
    · exact Maintains.bind (Maintains.set' (P := fun _ => True) (hset s _ _ _ hs) trivial) fun _ _ =>
        leaves_pure true
    · exact leaves_pure false

theorem endPlainRecord_leaves (recordStart fieldStart fieldEnd pos location : ℕ) (terminated : Bool) :
    Leaves I
      (endPlainRecord cfg F input recordStart fieldStart fieldEnd pos location terminated) :=
  leaves_bind (pushSpan_leaves hI.toApart _ _ _ _ _) fun _ => leaves_bind (setLocation_leaves hI.toApart _)
    fun _ => leaves_bind (setTerminated_leaves hI.toApart _) fun _ =>
      leaves_bind (checkRecordLimit_leaves _ _) fun _ =>
        leaves_bind (foldPlainRecordTerminator_leaves hI _ _ _) fun _ => leaves_pure _

theorem plainLoop_leaves (recordStart scanEnd : ℕ) (found : List (ℕ × UInt8)) :
    ∀ fieldStart, Leaves I (plainLoop cfg F input recordStart scanEnd fieldStart found) := by
  induction found with
  | nil =>
    intro fieldStart
    exact Maintains.ite (error_leaves _ _)
      (Maintains.ite (declinePlain_leaves hI.toApart) (endPlainRecord_leaves hI _ _ _ _ _ _))
  | cons first rest ih =>
    intro fieldStart
    obtain ⟨cursor, byte⟩ := first
    rw [plainLoop]
    refine Maintains.ite (leaves_bind (pushSpan_leaves hI.toApart _ _ _ _ _) fun _ => ih _) ?_
    refine Maintains.ite (declinePlain_leaves hI.toApart) (Maintains.ite ?_ (ih _))
    exact Maintains.ite (declinePlain_leaves hI.toApart) (endPlainRecord_leaves hI _ _ _ _ _ _)

theorem tryParseBorrowedPlain_leaves (recordStart : ℕ) :
    Leaves I (tryParseBorrowedPlain cfg F input recordStart) := by
  have hkernel : ∀ parsed : Bool, Leaves I
      (if parsed = true then pure true else plainKernel cfg F input recordStart) := fun parsed =>
    Maintains.ite (leaves_pure true) (plainLoop_leaves hI _ _ _ _)
  exact Maintains.ite (leaves_bind (tryParseDefaultCsvBorrowed_leaves hI recordStart) hkernel)
    (hkernel false)

/-- **The parse of a record** leaves everything else as it is, also where it fails. -/
theorem parseRecord_leaves (recordStart : ℕ) (header : Bool) :
    Leaves I (parseRecord cfg F input recordStart header) := by
  have hthen : ∀ plain : Bool, Leaves I (if plain = true then do
        if ParserSettings.needsRecordPass (cfg.fmt F).dialect (cfg.fmt F).nulls then
          finishPlainRecord cfg F input recordStart header
        else pure ()
        let e ← get
        validateFieldCount cfg input e.spans.len
      else parseRecordFieldsFor cfg F input recordStart header) := fun plain =>
    Maintains.ite (finishRecord_leaves hI.toApart recordStart header)
      (parseRecordFieldsFor_leaves hI.toApart recordStart header)
  exact Maintains.ite (leaves_bind (tryParseBorrowedPlain_leaves hI recordStart) hthen) (hthen false)

end folds

end Engine

end Coseva
