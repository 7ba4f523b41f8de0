/-
  Coseva — text reads are byte reads whose fields are validated, where the kernel that
  certifies ASCII text reads no record that it was not made for
  (`coseva/src/engine/access.rs`, `engine/owned_parser.rs`).

  * `certifies`: that kernel reads the record at the cursor;
  * `parseOwnedRecordMode_agrees`: a record is read alike with certification and
    without it.
-/
import Coseva.OwnedRead
import Coseva.OwnedKeeps

namespace Coseva

open Run Rfc Structural

namespace OwnedOutput

/-- Two records that differ in what is known of their text only. -/
def Recertified (t b : OwnedOutput) : Prop := ∃ v, t = { b with textValidity := v }

theorem Recertified.refl (o : OwnedOutput) : o.Recertified o := ⟨o.textValidity, rfl⟩

end OwnedOutput

namespace Engine

variable (cfg : ParserSettings) (F : CsvFormat) (input : Bytes)

/-- The kernel that certifies text accepts the record at the cursor. -/
def certifies (e : Engine) : Bool :=
  cfg.fmtPlainKernel F && (cfg.fmt F).syntax'.quotingEnabled
    && byteAt input e.location != (cfg.fmt F).dialect.quote && e.interiorQuotes != 0
    && e.asciiStructuralBackoff == 0
    && (tryParseDefaultInteriorAscii cfg.host (input.drop e.location) OwnedOutput.new.storage).1.isOk

/-- Two engines that differ in their predictions only. -/
def SameUnpredicted (s t : Engine) : Prop := s.unpredicted = t.unpredicted

variable {cfg F input} {e : Engine}

theorem alike_certifying (backoff : ℕ) (succeeded : Bool) (e : Engine) :
    SameUnpredicted (certifying backoff succeeded e) e := rfl

/-! ## Plain records -/

/-- Two steps of the owned path that differ in what is known of the text they have read. -/
def SameStep (t b : Bool × OwnedOutput) : Prop :=
  t.1 = b.1 ∧ if t.1 then t.2.Recertified b.2 else t.2 = b.2

theorem SameStep.refl (r : Bool × OwnedOutput) : SameStep r r := by
  obtain ⟨parsed, output⟩ := r
  cases parsed with
  | true => exact ⟨rfl, .refl output⟩
  | false => exact ⟨rfl, rfl⟩

theorem sameStep_self (r : EStateM.Result Fault Engine (Bool × OwnedOutput)) : Matched SameStep Eq r r :=
  Matched.refl' (fun _ => rfl) fun a _ _ => .refl a

/-- The plain kernels with certification and without it. -/
theorem ownedPlain_agrees (recordStart : ℕ) (e : Engine) :
    Matched SameStep Eq
      (ownedPlain cfg F input true recordStart OwnedOutput.new e)
      (ownedPlain cfg F input false recordStart OwnedOutput.new e) := by
  unfold ownedPlain
  by_cases hcsv : (cfg.host.x86_64 && cfg.isCsvFormat F) = true
  swap
  · simp only [if_neg hcsv]
    exact sameStep_self _
  simp only [if_pos hcsv]
  by_cases howned : e.ownedParser.isSome = true
  swap
  · have hnone : ∀ certifyAscii,
        defaultCsvOwnedPlain cfg input certifyAscii recordStart OwnedOutput.new e =
          .ok (false, OwnedOutput.new) e := by
      intro certifyAscii
      unfold defaultCsvOwnedPlain
      rw [get_bind, if_neg howned]
      rfl
    rw [bind_ok (hnone true), bind_ok (hnone false)]
    exact sameStep_self _
  rcases tryParseDefaultPlainPacked_agrees cfg.host.packed (input.drop recordStart) with
    ⟨htrue, hfalse⟩ | ⟨consumed, bytes, ends, validity, htrue, hfalse, -⟩
  · have hrun : ∀ certifyAscii,
        defaultCsvOwnedPlain cfg input certifyAscii recordStart OwnedOutput.new e =
          .ok (false, OwnedOutput.new) e := by
      intro certifyAscii
      unfold defaultCsvOwnedPlain
      rw [get_bind, if_pos howned]
      cases certifyAscii with
      | true =>
        rw [htrue]
        rfl
      | false =>
        rw [hfalse]
        rfl
    rw [bind_ok (hrun true), bind_ok (hrun false)]
    exact sameStep_self _
  · have hrun : defaultCsvOwnedPlain cfg input true recordStart OwnedOutput.new e =
        .ok (true, OwnedOutput.new.filled ⟨bytes, ends, validity⟩)
          { e with location := recordStart + consumed } := by
      unfold defaultCsvOwnedPlain
      rw [get_bind, if_pos howned, htrue]
      rfl
    have hrun' : defaultCsvOwnedPlain cfg input false recordStart OwnedOutput.new e =
        .ok (true, OwnedOutput.new.filled ⟨bytes, ends, .unknown⟩)
          { e with location := recordStart + consumed } := by
      unfold defaultCsvOwnedPlain
      rw [get_bind, if_pos howned, hfalse]
      rfl
    rw [bind_ok hrun, bind_ok hrun']
    exact ⟨⟨rfl, validity, rfl⟩, rfl⟩

/-- A record that is read marks its NULLs, whatever is known of its text. -/
theorem finishOwnedRecord_agrees (header : Bool) (output : OwnedOutput) (v : TextValidity) (e : Engine) :
    Matched SameStep Eq
      (finishOwnedRecord cfg F input header { output with textValidity := v } e)
      (finishOwnedRecord cfg F input header output e) := by
  have hmark : markOwnedNulls cfg F header { output with textValidity := v } =
      { markOwnedNulls cfg F header output with textValidity := v } := by
    unfold markOwnedNulls
    split
    · rfl
    · split_ifs
      · rfl
      · rfl
  unfold finishOwnedRecord
  simp only [hmark]
  refine Matched.bind (P := Eq) (Matched.refl' (fun _ => rfl) fun _ _ _ => rfl) ?_
  rintro _ _ s t - - rfl
  exact ⟨⟨rfl, v, rfl⟩, rfl⟩

theorem parseOwnedPlainRecord_agrees (recordStart : ℕ) (header : Bool) (e : Engine) :
    Matched SameStep Eq
      (parseOwnedPlainRecord cfg F input true recordStart header OwnedOutput.new e)
      (parseOwnedPlainRecord cfg F input false recordStart header OwnedOutput.new e) := by
  unfold parseOwnedPlainRecord
  refine (ownedPlain_agrees recordStart e).bind ?_
  rintro ⟨parsed, t⟩ ⟨parsed', b⟩ s s' - ⟨hparsed, houtput⟩ rfl
  obtain rfl : parsed = parsed' := hparsed
  cases parsed with
  | true =>
    obtain ⟨v, rfl⟩ := houtput
    exact finishOwnedRecord_agrees header b v s
  | false =>
    obtain rfl : t = b := houtput
    exact sameStep_self _

/-! ## Records -/

variable (cfg F input) in
/-- A record that is predicted to have quotes, where the kernel that certifies it has declined. -/
def interiorRecord (recordStart : ℕ) (header : Bool) (output : OwnedOutput) : Parse OwnedOutput := do
  let (parsed, output) ← parseOwnedInteriorPrefix cfg F input recordStart header output
  if parsed then pure output
  else ownedFieldsLoop cfg F input recordStart header (input.length + 2) output

theorem interiorRecord_blind {backoff : ℕ} {succeeded : Bool} (recordStart : ℕ) (header : Bool)
    (output : OwnedOutput) : Blind (certifying backoff succeeded)
      (interiorRecord cfg F input recordStart header output) :=
  (parseOwnedInteriorPrefix_blind _ _ _).bind fun _ =>
    Blind.ite (Blind.pure' _) (ownedFieldsLoop_blind _ _ _ _)

/-- The record is predicted to have quotes, but does not begin with one. -/
structure Interior (cfg : ParserSettings) (F : CsvFormat) (input : Bytes) (e : Engine) : Prop where
  plainKernel : cfg.fmtPlainKernel F = true
  quoting : (cfg.fmt F).syntax'.quotingEnabled = true
  opens : (byteAt input e.location == (cfg.fmt F).dialect.quote) = false
  predicted : (e.interiorQuotes != 0) = true

/-- One predicted record is read. -/
def spent (e : Engine) : Engine := { e with interiorQuotes := e.interiorQuotes - 1 }

/-- Such a record, with certification and without it. -/
theorem parseOwnedRecordMode_interior (h : Interior cfg F input e) (header : Bool) :
    parseOwnedRecordMode cfg F input false e.location header OwnedOutput.new e =
        interiorRecord cfg F input e.location header OwnedOutput.new e.spent ∧
      parseOwnedRecordMode cfg F input true e.location header OwnedOutput.new e =
        (do
          let (certified, output) ← certifyInterior cfg input e.location OwnedOutput.new
          if certified then pure output else interiorRecord cfg F input e.location header output)
          e.spent := by
  have hkernels : ∀ certifyAscii, parseOwnedKernels cfg F input certifyAscii e.location header
      OwnedOutput.new e = (if certifyAscii = true then (do
          let (certified, output) ← certifyInterior cfg input e.location OwnedOutput.new
          if certified then pure (true, output)
          else parseOwnedInteriorPrefix cfg F input e.location header output : Parse (Bool × OwnedOutput))
        else parseOwnedInteriorPrefix cfg F input e.location header OwnedOutput.new) e.spent := by
    intro certifyAscii
    unfold parseOwnedKernels
    rw [get_bind, if_pos (by rw [h.quoting, h.opens, h.predicted]; rfl), set_bind]
    cases certifyAscii with
    | false =>
      simp only [Bool.false_and, Bool.false_eq_true, if_false, h.opens]
      rfl
    | true =>
      simp only [Bool.true_and, Bool.not_false, Bool.false_eq_true, if_false, if_true, h.opens]
      rfl
  have hrun : ∀ {x y : Parse (Bool × OwnedOutput)} {f : Bool × OwnedOutput → Parse OwnedOutput}
      {s t : Engine}, x s = y t → (x >>= f) s = (y >>= f) t := by
    intro x y f s t hxy
    simp only [bind, EStateM.bind, hxy]
  unfold parseOwnedRecordMode
  rw [if_pos h.plainKernel, if_pos h.plainKernel]
  refine ⟨hrun (hkernels false), (hrun (hkernels true)).trans ?_⟩
  rw [if_pos rfl, bind_assoc]
  refine congrFun (congrArg (certifyInterior cfg input e.location OwnedOutput.new >>= ·) ?_) _
  funext r
  cases hr : r.1 with
  | true => simp only [hr, if_true, pure_bind]
  | false => simp only [hr, Bool.false_eq_true, if_false, interiorRecord]

/-- Any other record. -/
theorem parseOwnedRecordMode_other (h : ¬ Interior cfg F input e) (header : Bool) :
    Matched OwnedOutput.Recertified Eq
      (parseOwnedRecordMode cfg F input true e.location header OwnedOutput.new e)
      (parseOwnedRecordMode cfg F input false e.location header OwnedOutput.new e) := by
  have hself : ∀ r : EStateM.Result Fault Engine OwnedOutput, Matched OwnedOutput.Recertified Eq r r :=
    fun r => Matched.refl' (fun _ => rfl) fun o _ _ => .refl o
  unfold parseOwnedRecordMode
  by_cases hplain : cfg.fmtPlainKernel F = true
  swap
  · rw [if_neg hplain, if_neg hplain]
    exact hself _
  rw [if_pos hplain, if_pos hplain]
  have hkernels : Matched SameStep Eq
      (parseOwnedKernels cfg F input true e.location header OwnedOutput.new e)
      (parseOwnedKernels cfg F input false e.location header OwnedOutput.new e) := by
    unfold parseOwnedKernels
    rw [get_bind, get_bind]
    by_cases hquoted : ((cfg.fmt F).syntax'.quotingEnabled &&
        (byteAt input e.location == (cfg.fmt F).dialect.quote || e.interiorQuotes != 0)) = true
    · -- it opens with a quote
      rw [if_pos hquoted, if_pos hquoted]
      have hopens : (byteAt input e.location == (cfg.fmt F).dialect.quote) = true := by
        rw [← Bool.not_eq_false]
        intro hopens
        rw [hopens, Bool.false_or, Bool.and_eq_true] at hquoted
        exact h ⟨hplain, hquoted.1, hopens, hquoted.2⟩
      simp only [hopens, Bool.not_true, Bool.and_false, Bool.false_eq_true, if_false]
      exact sameStep_self _
    · rw [if_neg hquoted, if_neg hquoted]
      exact parseOwnedPlainRecord_agrees e.location header e
  refine hkernels.bind ?_
  rintro ⟨parsed, t⟩ ⟨parsed', b⟩ s s' - ⟨hparsed, houtput⟩ rfl
  obtain rfl : parsed = parsed' := hparsed
  cases parsed with
  | true => exact ⟨houtput, rfl⟩
  | false =>
    obtain rfl : t = b := houtput
    exact hself _

/-- **A record is read alike** with certification and without it, where the kernel that certifies
    does not accept it, or was made for it. -/
theorem parseOwnedRecordMode_agrees (header : Bool)
    (h : certifies cfg F input e = false ∨ DefaultCsv cfg F ∧ Selected e) :
    Matched OwnedOutput.Recertified SameUnpredicted
      (parseOwnedRecordMode cfg F input true e.location header OwnedOutput.new e)
      (parseOwnedRecordMode cfg F input false e.location header OwnedOutput.new e) := by
  by_cases hinterior : Interior cfg F input e
  swap
  · exact (parseOwnedRecordMode_other hinterior header).mono (fun _ _ _ _ h => h)
      fun _ _ heq => congrArg unpredicted heq
  obtain ⟨hfalse, htrue⟩ := parseOwnedRecordMode_interior hinterior header
  rw [hfalse, htrue]
  have hdeclined : ∀ backoff succeeded, Matched OwnedOutput.Recertified SameUnpredicted
      (interiorRecord cfg F input e.location header OwnedOutput.new
        (certifying backoff succeeded e.spent))
      (interiorRecord cfg F input e.location header OwnedOutput.new e.spent) := by
    intro backoff succeeded
    refine ((interiorRecord_blind e.location header OwnedOutput.new).matched
      (alike_certifying backoff succeeded) _).mono ?_ fun _ _ h => h
    rintro t b s - rfl
    exact .refl t
  have hcertify : ∀ {r s}, certifyInterior cfg input e.location OwnedOutput.new e.spent = .ok r s →
      (do
        let (certified, output) ← certifyInterior cfg input e.location OwnedOutput.new
        if certified then pure output
        else interiorRecord cfg F input e.location header output : Parse OwnedOutput) e.spent =
      (if r.1 = true then pure r.2
        else interiorRecord cfg F input e.location header r.2 : Parse OwnedOutput) s :=
    fun hrun => bind_ok hrun
  by_cases hbackoff : e.asciiStructuralBackoff ≠ 0
  · -- the kernel is not tried
    have hrun : certifyInterior cfg input e.location OwnedOutput.new e.spent = .ok (false, OwnedOutput.new)
        (certifying (e.asciiStructuralBackoff - 1) e.asciiStructuralSucceeded e.spent) := by
      unfold certifyInterior
      rw [get_bind, if_pos (show e.spent.asciiStructuralBackoff ≠ 0 from hbackoff)]
      rfl
    rw [hcertify hrun]
    exact hdeclined _ _
  have htried : ¬ e.spent.asciiStructuralBackoff ≠ 0 := hbackoff
  rcases tryParseDefaultInteriorAscii_cases cfg.host (input.drop e.location) with
    ⟨fields, next, storage, hrun, hnext, hrecord, hfilled, -⟩ | ⟨storage, hrun, hfilled⟩
  · -- it accepts the record
    obtain ⟨hd, hselected⟩ := h.resolve_left fun hnot => by
      rw [certifies, hinterior.plainKernel, hinterior.quoting, hinterior.predicted, hrun, bne,
        hinterior.opens, not_not.1 hbackoff] at hnot
      cases hnot
    have hrest : Rest input e.location fields (e.location + next) := by
      have := Rest.drop_iff.1 (Rest.record_iff.1 hrecord)
      rwa [Nat.add_zero] at this
    have hlimits : 64 ≤ Limits.default.maxFieldBytes ∧ 64 ≤ Limits.default.maxFields := by decide
    have hfields := length_le_of_run _ hrecord
    rw [List.length_nil, Nat.zero_add, Nat.sub_zero] at hfields
    have hroom : OwnedOutput.new.len + fields.length ≤ Limits.default.maxFields := by
      show 0 + fields.length ≤ Limits.default.maxFields
      omega
    obtain ⟨e', hread, halike⟩ := parseOwnedInteriorPrefix_reads (e := e.spent) hd hrest
      (show e.location + next ≤ e.location + Limits.default.maxFieldBytes by omega) hroom
      hselected.interior hselected.quoted header
    have hcertified : certifyInterior cfg input e.location OwnedOutput.new e.spent =
        .ok (true, OwnedOutput.new.filled storage)
          { e.spent with asciiStructuralSucceeded := true, location := e.location + next } := by
      unfold certifyInterior
      rw [get_bind, if_neg htried, hrun]
      rfl
    have hinteriorRecord : interiorRecord cfg F input e.location header OwnedOutput.new e.spent =
        .ok (OwnedOutput.new.behind fields) e' := by
      unfold interiorRecord
      have hread' : parseOwnedInteriorPrefix cfg F input e.location header OwnedOutput.new e.spent =
          .ok (true, OwnedOutput.new.behind fields) e' := hread
      rw [bind_ok hread']
      rfl
    rw [hcertify hcertified, hinteriorRecord]
    exact ⟨⟨storage.textValidity, hfilled⟩, halike.symm⟩
  · have hrun' : certifyInterior cfg input e.location OwnedOutput.new e.spent = .ok (false, OwnedOutput.new)
        (certifying (if e.asciiStructuralSucceeded then 1 else 3) e.asciiStructuralSucceeded e.spent) := by
      unfold certifyInterior
      rw [get_bind, if_neg htried, hrun]
      show EStateM.Result.ok (false, OwnedOutput.new.filled storage) _ = _
      rw [hfilled]
      rfl
    rw [hcertify hrun']
    exact hdeclined _ _

/-! ## The current record -/

variable (cfg F input)

/-- The engine at the first byte of the current record. -/
def atCurrent (e : Engine) : Engine :=
  let e := match e.cursorStart with
    | some start =>
      if e.location ≠ start then { e with location := start, recordIndex := e.cursorIndex } else e
    | none => e
  if cfg.skipsRecords then skipIgnoredRecords cfg input e else e

/-- The kernel that certifies text accepts the current record. -/
def certifiesCurrent (e : Engine) : Bool :=
  e.cursorEnd.isNone && !cfg.fmtGeneralParsing F && certifies cfg F input (atCurrent cfg input e)

/-- Two records that differ in what is known of their text only. -/
structure SameRecord (t b : OwnedRecord) : Prop where
  output : t.toOwnedOutput.Recertified b.toOwnedOutput
  start : t.start = b.start
  stop : t.stop = b.stop
  index : t.index = b.index

variable {cfg F input}

theorem SameRecord.refl (r : OwnedRecord) : SameRecord r r := ⟨.refl _, rfl, rfl, rfl⟩

theorem SameUnpredicted.refl (s : Engine) : SameUnpredicted s s := Eq.refl s.unpredicted

theorem SameUnpredicted.location {s t : Engine} (h : SameUnpredicted s t) : s.location = t.location := by
  have hsame : s.unpredicted = t.unpredicted := h
  calc s.location = s.unpredicted.location := rfl
    _ = t.unpredicted.location := by rw [hsame]

theorem SameUnpredicted.recordIndex {s t : Engine} (h : SameUnpredicted s t) :
    s.recordIndex = t.recordIndex := by
  have hsame : s.unpredicted = t.unpredicted := h
  calc s.recordIndex = s.unpredicted.recordIndex := rfl
    _ = t.unpredicted.recordIndex := by rw [hsame]

/-- A change of what is not predicted. -/
theorem SameUnpredicted.map {g : Engine → Engine} (hg : ∀ e, (g e).unpredicted = g e.unpredicted)
    {s t : Engine} (h : SameUnpredicted s t) : SameUnpredicted (g s) (g t) := by
  have hsame : s.unpredicted = t.unpredicted := h
  show (g s).unpredicted = (g t).unpredicted
  rw [hg, hg, hsame]

/-- A parse that fails poisons both engines. -/
theorem failing_matched {α : Type} {P : α → α → Prop} {x y : Parse α} {s t : Engine}
    (h : Matched P SameUnpredicted (x s) (y t)) : Matched P SameUnpredicted (failing x s) (failing y t) := by
  unfold failing
  rcases hs : x s with ⟨a, s'⟩ | ⟨fault, s'⟩ <;> rcases ht : y t with ⟨b, t'⟩ | ⟨fault', t'⟩ <;>
    rw [hs, ht] at h
  · exact h
  · exact h.elim
  · exact h.elim
  · obtain ⟨rfl, halike⟩ := h
    cases fault with
    | error kind location =>
      exact ⟨rfl, halike.map (g := fun e => { e with failed := true }) fun _ => rfl⟩
    | panic => exact ⟨rfl, halike⟩
    | stuck => exact ⟨rfl, halike⟩

theorem checkFailed_ok (input : Bytes) (h : e.failed = false) : checkFailed input e = .ok () e := by
  unfold checkFailed
  rw [h]
  rfl

theorem checkFailed_failed (h : e.failed = true) :
    checkFailed input e =
      .error (.error .parserFailed
        ⟨e.location, physicalLine input e.lineBase e.lineOrigin e.location, e.recordIndex, e.spans.len⟩) e := by
  unfold checkFailed
  rw [h]
  rfl

theorem readPhysicalStorageMode_agrees (header : Bool)
    (h : cfg.fmtGeneralParsing F = false →
      let e := if cfg.skipsRecords then skipIgnoredRecords cfg input e else e
      certifies cfg F input e = false ∨ DefaultCsv cfg F ∧ Selected e) :
    Matched (Option.Rel SameRecord) SameUnpredicted (readPhysicalStorageMode cfg F input true header e)
      (readPhysicalStorageMode cfg F input false header e) := by
  have hself : ∀ r : EStateM.Result Fault Engine (Option OwnedRecord),
      Matched (Option.Rel SameRecord) SameUnpredicted r r := by
    intro r
    refine Matched.refl' SameUnpredicted.refl fun a _ _ => ?_
    cases a with
    | none => exact .none
    | some record => exact .some (.refl record)
  unfold readPhysicalStorageMode
  by_cases hgeneral : cfg.fmtGeneralParsing F = true
  · rw [if_pos hgeneral, if_pos hgeneral]
    exact hself _
  rw [if_neg hgeneral, if_neg hgeneral]
  have h := h (Bool.eq_false_iff.2 hgeneral)
  dsimp only at h
  by_cases hfailed : e.failed = true
  · rw [bind_error (checkFailed_failed hfailed), bind_error (checkFailed_failed hfailed)]
    exact ⟨rfl, .refl e⟩
  have hcheck := checkFailed_ok input (Bool.eq_false_iff.2 hfailed)
  rw [bind_ok hcheck, bind_ok hcheck, modify_bind, modify_bind, get_bind, get_bind]
  generalize (if cfg.skipsRecords = true then skipIgnoredRecords cfg input e else e) = e' at h ⊢
  by_cases hend : e'.location = input.length
  · rw [if_pos hend, if_pos hend]
    exact hself _
  rw [if_neg hend, if_neg hend]
  refine Matched.bind (failing_matched (parseOwnedRecordMode_agrees header h)) ?_
  rintro t b s s' - ⟨v, rfl⟩ halike
  rw [get_bind, set_bind, get_bind, set_bind]
  refine ⟨.some ⟨⟨v, ?_⟩, rfl, halike.location, halike.recordIndex⟩, ?_⟩
  · split_ifs
    · rfl
    · rfl
  · exact halike.map (g := fun e => { e with recordIndex := e.recordIndex + 1 }) fun _ => rfl

theorem readCurrent_agrees (h : certifiesCurrent cfg F input e = false ∨
      DefaultCsv cfg F ∧ Selected (atCurrent cfg input e)) :
    Matched SameRecord SameUnpredicted (readCurrent cfg F input true e) (readCurrent cfg F input false e) := by
  unfold readCurrent
  rw [get_bind, get_bind]
  rcases hstart : e.cursorStart with _ | start
  · exact ⟨rfl, .refl e⟩
  rcases hstop : e.cursorEnd with _ | stop
  swap
  · exact Matched.refl' SameUnpredicted.refl fun r _ _ => .refl r
  dsimp only
  obtain ⟨e', hrewind, hat⟩ : ∃ e', rewindToCurrent e = .ok () e' ∧
      atCurrent cfg input e = if cfg.skipsRecords then skipIgnoredRecords cfg input e' else e' := by
    unfold rewindToCurrent atCurrent
    rw [hstart]
    dsimp only
    by_cases hmoved : e.location ≠ start
    · rw [if_pos hmoved, if_pos hmoved]
      exact ⟨_, rfl, rfl⟩
    · rw [if_neg hmoved, if_neg hmoved]
      exact ⟨_, rfl, rfl⟩
  rw [bind_ok hrewind, bind_ok hrewind]
  refine Matched.bind (readPhysicalStorageMode_agrees false ?_) ?_
  · intro hgeneral
    dsimp only
    rw [← hat]
    refine h.imp_left fun h => ?_
    rwa [certifiesCurrent, hstop, hgeneral, Option.isNone_none, Bool.true_and, Bool.not_false,
      Bool.true_and] at h
  · rintro t b s s' - hsame halike
    cases hsame with
    | none => exact ⟨rfl, halike⟩
    | some hsame => exact ⟨hsame, halike⟩

end Engine

end Coseva
