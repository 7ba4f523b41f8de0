/-
  Coseva — what the owned parse path keeps (`coseva/src/engine/owned_parser.rs`): the kernels
  stay selected, and only the kernels that certify call a record ASCII.

  * `Selected`: every kernel that a prediction may pick is there;
  * `Certified`: a record called ASCII is;
  * `parseOwnedRecordMode_keeps`: both hold behind a record.
-/
import Coseva.OwnedBlind
import Coseva.OwnedDefault

namespace Coseva

open Structural

namespace OwnedOutput

/-- A record called ASCII has only such bytes. -/
def Certified (o : OwnedOutput) : Prop :=
  o.textValidity = .ascii → ∀ field ∈ o.fields, ∀ byte ∈ field.getD [], byte < 128

theorem certified_of_unknown {o : OwnedOutput} (h : o.textValidity = .unknown) : o.Certified := by
  intro hascii
  rw [h] at hascii
  cases hascii

end OwnedOutput

namespace Engine

open Run

/-- Every kernel that a prediction may pick is there. -/
structure Selected (e : Engine) : Prop where
  quoted : e.quotedPrefixParser.isSome
  interior : e.interiorPrefixParser.isSome
  handoff : e.interiorHandoffParser.isSome
  multi : e.multiQuoteParser.isSome

/-- The same, of the configurations that have kernels. -/
def Selects (want : Prop) (e : Engine) : Prop := want → Selected e

theorem Selects.imp {want : Prop} {e e' : Engine} (h : Selects want e) (hsame : Selected e → Selected e') :
    Selects want e' := fun hwant => hsame (h hwant)

variable {cfg : ParserSettings} {F : CsvFormat} {input : Bytes} {v : TextValidity} {want : Prop}

/-! ## Limits and the cursor -/

theorem errorFor_keeps {α : Type} {P : α → Prop} (kind : ErrorKind) (byte field : ℕ) :
    Maintains (Selects want) P (errorFor input kind byte field) := fun _ hs => hs

theorem setLocation_keeps (location : ℕ) : Maintains (Selects want) (fun _ => True) (setLocation location) :=
  Maintains.modify' (fun _ h => h.imp fun h => ⟨h.quoted, h.interior, h.handoff, h.multi⟩) trivial

theorem checkRecordLimitFor_keeps (recordStart byte field : ℕ) :
    Maintains (Selects want) (fun _ => True) (checkRecordLimitFor cfg input recordStart byte field) :=
  Maintains.ite (errorFor_keeps _ _ _) (Maintains.pure' trivial)

theorem checkScanEndFor_keeps (byte recordStart fieldStart field : ℕ) :
    Maintains (Selects want) (fun _ => True)
      (checkScanEndFor cfg input byte recordStart fieldStart field) :=
  Maintains.ite (errorFor_keeps _ _ _) (checkRecordLimitFor_keeps _ _ _)

theorem validateFieldCount_keeps (actual : ℕ) :
    Maintains (Selects want) (fun _ => True) (validateFieldCount cfg input actual) := by
  refine Maintains.get_bind fun s hs => ?_
  have hcheck : ∀ expected, Maintains (Selects want) (fun _ => True) (if actual = expected then pure ()
      else error input (.fieldCountMismatch expected actual) s.location : Parse Unit) := by
    intro expected
    refine Maintains.ite (Maintains.pure' trivial) ?_
    exact fun t ht => ht
  split
  · exact Maintains.pure' trivial
  · exact hcheck _
  · exact hcheck _
  · exact Maintains.set' (hs.imp fun h => ⟨h.quoted, h.interior, h.handoff, h.multi⟩) trivial

theorem skipSpaces_keeps (recordStart field fuel : ℕ) :
    Maintains (Selects want) (fun _ => True) (skipSpaces cfg input recordStart field fuel) := by
  induction fuel with
  | zero => exact Maintains.throw' _
  | succ fuel ih =>
    refine Maintains.get_bind fun s hs => Maintains.ite ?_ (Maintains.pure' trivial)
    refine Maintains.bind (Maintains.set' (P := fun _ => True) ?_ trivial) fun _ _ => ?_
    · exact hs.imp fun h => ⟨h.quoted, h.interior, h.handoff, h.multi⟩
    · exact (checkRecordLimitFor_keeps _ _ _).bind fun _ _ => ih

theorem skipDelimiterSpaces_keeps (recordStart : ℕ) :
    Maintains (Selects want) (fun _ => True) (skipDelimiterSpaces cfg input F recordStart) :=
  Maintains.get_bind fun _ _ => Maintains.ite (Maintains.pure' trivial) (skipSpaces_keeps _ _ _)

/-! ## Plain records -/

variable {output : OwnedOutput} (hv : output.textValidity = v)

/-- The record of a step of the owned path, as valid as it was. -/
abbrev As (v : TextValidity) (r : Bool × OwnedOutput) : Prop := r.2.textValidity = v

include hv

theorem pushOwnedField_keeps (start stop byte : ℕ) :
    Maintains (Selects want) (fun o => o.textValidity = v) (pushOwnedField cfg input output start stop byte) :=
  Maintains.ite (errorFor_keeps _ _ _) (Maintains.ite (errorFor_keeps _ _ _) (Maintains.pure' hv))

theorem endOwnedPlain_keeps (recordStart fieldStart fieldEnd pos location : ℕ) :
    Maintains (Selects want) (As v)
      (endOwnedPlain cfg input recordStart fieldStart fieldEnd pos location output) :=
  (pushOwnedField_keeps hv _ _ _).bind fun _ ho => (setLocation_keeps _).bind fun _ _ =>
    (checkRecordLimitFor_keeps _ _ _).bind fun _ _ => Maintains.pure' ho

omit hv in
theorem ownedPlainLoop_keeps (recordStart scanEnd : ℕ) (found : List (ℕ × UInt8)) :
    ∀ (fieldStart : ℕ) (output : OwnedOutput), output.textValidity = v → Maintains (Selects want) (As v)
      (ownedPlainLoop cfg F input recordStart scanEnd fieldStart output found) := by
  induction found with
  | nil =>
    intro fieldStart output hv
    exact Maintains.ite (errorFor_keeps _ _ _) (endOwnedPlain_keeps hv _ _ _ _ _)
  | cons first rest ih =>
    intro fieldStart output hv
    obtain ⟨cursor, byte⟩ := first
    rw [ownedPlainLoop]
    refine Maintains.ite (Maintains.ite (Maintains.ite (errorFor_keeps _ _ _) (ih _ _ hv)) ?_) ?_
    · exact Maintains.ite (ih _ _ hv) ((pushOwnedField_keeps hv _ _ _).bind fun _ ho => ih _ _ ho)
    · refine Maintains.ite (Maintains.ite (errorFor_keeps _ _ _) ?_) ?_
      · exact (setLocation_keeps _).bind fun _ _ => Maintains.pure' hv
      · exact Maintains.ite (endOwnedPlain_keeps hv _ _ _ _ _) (ih _ _ hv)

theorem ownedPlainFrom_keeps (recordStart resume : ℕ) :
    Maintains (Selects want) (As v) (ownedPlainFrom cfg F input recordStart resume output) :=
  ownedPlainLoop_keeps _ _ _ _ _ hv

theorem markOwnedNulls_textValidity (header : Bool) :
    (markOwnedNulls cfg F header output).textValidity = v := by
  unfold markOwnedNulls
  split
  · exact hv
  · split_ifs
    · exact hv
    · exact hv

theorem finishOwnedRecord_keeps (header : Bool) :
    Maintains (Selects want) (As v) (finishOwnedRecord cfg F input header output) :=
  (validateFieldCount_keeps _).bind fun _ _ => Maintains.pure' (markOwnedNulls_textValidity hv header)

/-! ## The field-by-field parser -/

theorem pushOwnedUnquoted_keeps (start stop byte : ℕ) (nulls : Nulls) :
    Maintains (Selects want) (fun o => o.textValidity = v)
      (pushOwnedUnquoted cfg input output start stop byte nulls) :=
  Maintains.ite (Maintains.ite (errorFor_keeps _ _ _) (Maintains.pure' hv))
    (pushOwnedField_keeps hv _ _ _)

theorem parseOwnedUnquotedField_keeps (recordStart : ℕ) (header : Bool) :
    Maintains (Selects want) (As v) (parseOwnedUnquotedField cfg input recordStart header output) := by
  refine Maintains.get_bind fun s _ => Maintains.ite (Maintains.throw' _) ?_
  dsimp only
  split
  · exact (checkScanEndFor_keeps _ _ _ _).bind fun _ _ => (pushOwnedUnquoted_keeps hv _ _ _ _).bind
      fun _ ho => (setLocation_keeps _).bind fun _ _ => Maintains.pure' ho
  · exact Maintains.ite (errorFor_keeps _ _ _) ((pushOwnedUnquoted_keeps hv _ _ _ _).bind fun _ ho =>
      (setLocation_keeps _).bind fun _ _ => (checkRecordLimitFor_keeps _ _ _).bind fun _ _ =>
        Maintains.pure' ho)

omit hv in
theorem endOwnedRecord_keeps (recordStart location field : ℕ) :
    Maintains (Selects want) (fun _ => True) (endOwnedRecord cfg input recordStart location field) :=
  (setLocation_keeps location).bind fun _ _ =>
    (checkRecordLimitFor_keeps _ _ _).bind fun _ _ => Maintains.pure' trivial

omit hv in
theorem finishOwnedQuotedField_keeps (fieldCount recordStart afterQuote : ℕ) :
    Maintains (Selects want) (fun _ => True)
      (finishOwnedQuotedField cfg input fieldCount recordStart afterQuote) := by
  unfold finishOwnedQuotedField
  dsimp only
  split
  · exact endOwnedRecord_keeps _ _ _
  · refine Maintains.ite ((setLocation_keeps _).bind fun _ _ => Maintains.pure' trivial) ?_
    exact Maintains.ite (endOwnedRecord_keeps _ _ _)
      (Maintains.ite (endOwnedRecord_keeps _ _ _) (errorFor_keeps _ _ _))

omit hv in
theorem endOwnedScan_keeps (recordStart contentStart field : ℕ) :
    Maintains (Selects want) (fun _ => True) (endOwnedScan cfg input recordStart contentStart field) :=
  (checkScanEndFor_keeps _ _ _ _).bind fun _ _ => errorFor_keeps _ _ _

omit hv in
theorem ownedQuotedLoop_keeps (recordStart contentStart fuel : ℕ) :
    ∀ (segmentStart cursor : ℕ) (output : OwnedFields), Maintains (Selects want) (fun _ => True)
      (ownedQuotedLoop cfg input recordStart contentStart fuel segmentStart cursor output) := by
  induction fuel with
  | zero =>
    intro segmentStart cursor output
    exact Maintains.throw' _
  | succ fuel ih =>
    intro segmentStart cursor output
    rw [ownedQuotedLoop]
    refine Maintains.ite (endOwnedScan_keeps _ _ _) (Maintains.ite (Maintains.throw' _) ?_)
    split
    · exact endOwnedScan_keeps _ _ _
    · simp only
      split
      · exact errorFor_keeps _ _ _
      · exact ih _ _ _
      · exact (finishOwnedQuotedField_keeps _ _ _).bind fun _ _ => Maintains.pure' trivial

theorem appendOwnedQuotedField_keeps (recordStart : ℕ) :
    Maintains (Selects want) (As v) (appendOwnedQuotedField cfg input recordStart output) := by
  have hfield : ∀ output' : OwnedFields, Maintains (Selects want) (fun _ => True)
      (parseOwnedQuotedField cfg input recordStart output') := fun output' =>
    Maintains.get_bind fun s _ =>
      Maintains.ite (errorFor_keeps _ _ _) (ownedQuotedLoop_keeps _ _ _ _ _ _)
  exact (hfield _).bind fun _ _ => Maintains.pure' hv

omit hv in
theorem ownedFieldsLoop_keeps (recordStart : ℕ) (header : Bool) (fuel : ℕ) : ∀ output : OwnedOutput,
    output.textValidity = v → Maintains (Selects want) (fun o => o.textValidity = v)
      (ownedFieldsLoop cfg F input recordStart header fuel output) := by
  induction fuel with
  | zero =>
    intro output hv
    exact Maintains.throw' _
  | succ fuel ih =>
    intro output hv
    refine (skipDelimiterSpaces_keeps recordStart).bind fun _ _ => Maintains.get_bind fun s _ => ?_
    have hnext : ∀ recordEnd output, output.textValidity = v →
        Maintains (Selects want) (fun o => o.textValidity = v) (if recordEnd = true then do
          validateFieldCount cfg input (OwnedOutput.len output)
          pure output
        else ownedFieldsLoop cfg F input recordStart header fuel output) := fun recordEnd output hv =>
      Maintains.ite ((validateFieldCount_keeps _).bind fun _ _ => Maintains.pure' hv) (ih _ hv)
    exact Maintains.ite ((appendOwnedQuotedField_keeps hv _).bind fun result ho => hnext _ _ ho)
      ((parseOwnedUnquotedField_keeps hv _ _).bind fun result ho => hnext _ _ ho)

/-! ## The kernels -/

omit hv in
theorem tryParseDefaultRecord_textValidity {storage storage' : Structural.Output} {consumed : ℕ}
    (checkFieldLimit : Bool)
    (h : Coseva.tryParseDefaultRecord checkFieldLimit input storage = some (consumed, storage')) :
    storage'.textValidity = storage.textValidity := by
  simp only [Coseva.tryParseDefaultRecord, Structural.tryParseDefaultRecord, bind, Option.bind] at h
  split at h
  · cases h
  · cases h
    rfl

omit hv in
theorem OwnedParser.run_textValidity {storage storage' : Structural.Output} {parser : OwnedParser} {consumed : ℕ}
    (h : parser.run input storage = some (consumed, storage')) :
    storage'.textValidity = storage.textValidity := by
  cases parser with
  | default checkFieldLimit => exact tryParseDefaultRecord_textValidity _ h
  | defaultWindowed => exact tryParseDefaultRecord_textValidity _ h
  | named delimiter backslash checkFieldLimit =>
    simp only [OwnedParser.run, tryParseNamedDialectRecord, bind, Option.bind] at h
    split at h
    · cases h
    · cases h
      rfl

omit hv in
theorem PrefixParser.run_textValidity {host : Host} {storage storage' : Structural.Output} {parser : PrefixParser}
    {r : ℕ × Bool} (h : parser.run host input storage = .ok (r, storage')) :
    storage'.textValidity = storage.textValidity := by
  have hstorage : ∀ {loop n r}, onStorage input loop n storage = some (r, storage') →
      storage'.textValidity = storage.textValidity := by
    intro loop n r h
    simp only [onStorage, bind, Option.bind] at h
    split at h
    · cases h
    · cases h
      rfl
  have helim : ∀ {o : Option ((ℕ × Bool) × Structural.Output)},
      o.elim (Except.error Stop.declined) Except.ok = .ok (r, storage') → o = some (r, storage') := by
    intro o ho
    cases o with
    | none => cases ho
    | some p =>
      cases ho
      rfl
  have hstructural : ∀ checkFieldLimit, tryParseDefaultStructuralAppending host checkFieldLimit input
      storage = .ok (r, storage') → storage'.textValidity = storage.textValidity := by
    intro checkFieldLimit h
    unfold tryParseDefaultStructuralAppending at h
    rcases hrun : tryParseDefaultQuotedRecordStructural host.structural checkFieldLimit true false input
      storage input.length with ⟨(_ | _) | ⟨next, flag⟩, output'⟩ <;> rw [hrun] at h
    · simp only at h
      split at h
      · rename_i hscalar
        cases h
        exact tryParseDefaultRecord_textValidity _ hscalar
      · cases h
    · cases h
    · cases h
      exact (structural_ok hrun).2 rfl
  cases parser with
  | quoted checkFieldLimit => exact hstorage (helim h)
  | interior checkFieldLimit => exact hstorage (helim h)
  | interiorWindowed => exact hstorage (helim h)
  | structural checkFieldLimit => exact hstructural _ h
  | structuralWindowed => exact hstructural _ h

theorem runOwnedParser_keeps (recordStart : ℕ) :
    Maintains (Selects want) (As v) (runOwnedParser input recordStart output) := by
  refine Maintains.get_bind fun s _ => ?_
  split
  · exact Maintains.pure' hv
  · split
    · rename_i hrun
      exact (setLocation_keeps _).bind fun _ _ =>
        Maintains.pure' ((OwnedParser.run_textValidity hrun).trans hv)
    · exact Maintains.pure' hv

omit hv in
theorem predictQuotes_keeps {P : Unit → Prop} {parser : Engine → Option PrefixParser}
    (h : ∀ e, Selected e → (parser e).isSome) (hP : P ()) :
    Maintains (Selects want) P (predictQuotes parser) :=
  Maintains.modify' (fun e hs => hs.imp fun hs => ⟨hs.quoted, h e hs, hs.handoff, hs.multi⟩) hP

omit hv in
theorem resumeOwnedLoop_keeps (parse : PrefixParser) (recordStart fuel : ℕ) :
    ∀ output : OwnedOutput, output.textValidity = v → Maintains (Selects want) (As v)
      (resumeOwnedLoop cfg F input parse recordStart fuel output) := by
  induction fuel with
  | zero =>
    intro output hv
    exact Maintains.throw' _
  | succ fuel ih =>
    intro output hv
    refine Maintains.get_bind fun s _ => ?_
    split
    · exact Maintains.pure' hv
    · split
      · rename_i hrun
        exact (setLocation_keeps _).bind fun _ _ =>
          Maintains.pure' ((PrefixParser.run_textValidity hrun).trans hv)
      · rename_i hrun
        refine (setLocation_keeps _).bind fun _ _ => (ownedPlainFrom_keeps
          ((PrefixParser.run_textValidity hrun).trans hv) _ _).bind fun result ho => ?_
        exact Maintains.ite (Maintains.pure' ho) (ih _ ho)
      · exact Maintains.pure' hv
      · exact Maintains.throw' _

theorem resumeOwnedAfterInteriorQuote_keeps (recordStart : ℕ) :
    Maintains (Selects want) (As v) (resumeOwnedAfterInteriorQuote cfg F input recordStart output) := by
  refine Maintains.get_bind fun s _ => ?_
  split
  · exact Maintains.pure' hv
  · exact resumeOwnedLoop_keeps _ _ _ _ hv

/-! ## Records -/

theorem parseOwnedInteriorPrefix_keeps (recordStart : ℕ) (header : Bool) :
    Maintains (Selects want) (As v) (parseOwnedInteriorPrefix cfg F input recordStart header output) := by
  refine Maintains.get_bind fun s _ => ?_
  split
  · exact runOwnedParser_keeps hv _
  split
  · rename_i hrun
    exact (setLocation_keeps _).bind fun _ _ =>
      Maintains.pure' ((PrefixParser.run_textValidity hrun).trans hv)
  · rename_i hrun
    refine (setLocation_keeps _).bind fun _ _ => (ownedPlainFrom_keeps
      ((PrefixParser.run_textValidity hrun).trans hv) _ _).bind fun result ho => ?_
    refine Maintains.ite (finishOwnedRecord_keeps ho _) ?_
    refine (predictQuotes_keeps (fun _ h => h.multi) trivial).bind fun _ (_ : True) => ?_
    refine (resumeOwnedAfterInteriorQuote_keeps ho _).bind fun result' ho' => ?_
    exact Maintains.ite (finishOwnedRecord_keeps ho' _)
      (Maintains.pure' (markOwnedNulls_textValidity ho' header))
  · exact Maintains.pure' hv
  · exact Maintains.throw' _

theorem parseOwnedQuotedPrefix_keeps (recordStart : ℕ) (header : Bool) :
    Maintains (Selects want) (As v) (parseOwnedQuotedPrefix cfg F input recordStart header output) := by
  refine Maintains.get_bind fun s _ => ?_
  split
  · exact runOwnedParser_keeps hv _
  split
  · rename_i hrun
    exact (setLocation_keeps _).bind fun _ _ =>
      Maintains.pure' ((PrefixParser.run_textValidity hrun).trans hv)
  · rename_i hrun
    refine (ownedPlainFrom_keeps ((PrefixParser.run_textValidity hrun).trans hv) _ _).bind
      fun result ho => ?_
    refine Maintains.ite (finishOwnedRecord_keeps ho _) ?_
    refine (predictQuotes_keeps (fun _ h => h.multi) trivial).bind fun _ (_ : True) => ?_
    exact resumeOwnedAfterInteriorQuote_keeps (markOwnedNulls_textValidity ho header) _
  · exact Maintains.pure' hv
  · exact Maintains.throw' _

/-! ## The kernels that certify -/

section certify

omit hv

theorem byteAt_ascii {block : Bytes} (h : ∀ byte ∈ block, byte < 128) (i : ℕ) : byteAt block i < 128 := by
  rw [byteAt, List.getD_eq_getElem?_getD]
  rcases hget : block[i]? with _ | byte
  · exact show (0 : UInt8) < 128 by decide
  · exact h byte (List.mem_of_getElem? hget)

/-- What the packed kernel appends of ASCII blocks is ASCII. -/
theorem plainPackedBlocks_ascii {input : Bytes} (fuel : ℕ) : ∀ {consumed consumed' : ℕ} {ascii : Bool}
    {bytes bytes' : Bytes} {ends ends' : List ℕ},
    plainPackedBlocks input fuel consumed ascii bytes ends = some (consumed', true, bytes', ends') →
    ascii = true ∧ ∃ out, bytes' = bytes ++ out ∧ ∀ byte ∈ out, byte < 128 := by
  induction fuel with
  | zero =>
    intro consumed consumed' ascii bytes bytes' ends ends' h
    cases h
  | succ fuel ih =>
    intro consumed consumed' ascii bytes bytes' ends ends' h
    rw [plainPackedBlocks] at h
    dsimp only at h
    generalize hblock : (input.drop consumed).take 32 = block at h
    have hlen : block.length ≤ 32 := by
      rw [← hblock]
      exact List.length_take_le _ _
    have hkept : asciiBlock block = true → ∀ (commas : List ℕ) (stop : ℕ),
        ∀ byte ∈ ((List.range stop).filter fun i => !commas.contains i).map (byteAt block),
          byte < 128 := by
      intro hascii commas stop byte hbyte
      obtain ⟨i, -, rfl⟩ := List.mem_map.1 hbyte
      exact byteAt_ascii (lt_of_asciiBlock hlen hascii) i
    split at h
    · cases h
    split at h
    · cases h
    split at h
    · -- the end of the record
      obtain ⟨-, hboth, rfl, -⟩ : _ ∧ (ascii && asciiBlock block) = true ∧ _ = bytes' ∧ _ = ends' := by
        simpa using h
      rw [Bool.and_eq_true] at hboth
      exact ⟨hboth.1, _, rfl, hkept hboth.2 _ _⟩
    · obtain ⟨hboth, out, rfl, hout⟩ := ih h
      rw [Bool.and_eq_true] at hboth
      refine ⟨hboth.1, _, List.append_assoc _ _ _, fun byte hbyte => ?_⟩
      rcases List.mem_append.1 hbyte with hfirst | hlater
      · exact hkept hboth.2 _ _ byte hfirst
      · exact hout byte hlater

/-- The packed kernel with certification and without it, on an empty record. -/
theorem tryParseDefaultPlainPacked_agrees (available : Bool) (input : Bytes) :
    (tryParseDefaultPlainPacked available true input OwnedOutput.new.storage = (none, OwnedOutput.new.storage) ∧
      tryParseDefaultPlainPacked available false input OwnedOutput.new.storage =
        (none, OwnedOutput.new.storage)) ∨
    ∃ consumed bytes ends validity,
      tryParseDefaultPlainPacked available true input OwnedOutput.new.storage =
        (some consumed, ⟨bytes, ends, validity⟩) ∧
      tryParseDefaultPlainPacked available false input OwnedOutput.new.storage =
        (some consumed, ⟨bytes, ends, .unknown⟩) ∧
      (validity = .ascii → ∀ byte ∈ bytes, byte < 128) := by
  unfold tryParseDefaultPlainPacked
  cases available with
  | false => exact Or.inl ⟨rfl, rfl⟩
  | true =>
    simp only [if_true]
    rcases hblocks : plainPackedBlocks input maxBatchedBlocks 0 true OwnedOutput.new.storage.bytes
      OwnedOutput.new.storage.ends with _ | ⟨consumed, ascii, bytes, ends⟩
    · exact Or.inl ⟨rfl, rfl⟩
    · refine Or.inr ⟨consumed, bytes, ends, _, rfl, rfl, fun hvalidity => ?_⟩
      cases ascii with
      | false => cases hvalidity
      | true =>
        obtain ⟨-, out, rfl, hout⟩ := plainPackedBlocks_ascii _ hblocks
        exact hout

/-- The pieces of ASCII bytes are ASCII. -/
theorem certified_filled {s : Structural.Output} (h : s.textValidity = .ascii → ∀ byte ∈ s.bytes, byte < 128) :
    (OwnedOutput.new.filled s).Certified := by
  intro hascii field hfield byte hbyte
  have hpieces : ∀ (ends : List ℕ) (start : ℕ), ∀ piece ∈ OwnedOutput.pieces s.bytes start ends,
      ∀ byte ∈ piece, byte ∈ s.bytes := by
    intro ends
    induction ends with
    | nil =>
      intro start piece hpiece
      cases hpiece
    | cons stop ends ih =>
      intro start piece hpiece byte hbyte
      rcases List.mem_cons.1 hpiece with rfl | hpiece
      · exact List.mem_of_mem_take (List.mem_of_mem_drop hbyte)
      · exact ih stop piece hpiece byte hbyte
  simp only [OwnedOutput.filled, OwnedOutput.new, List.take_nil, List.nil_append, List.mem_map] at hfield
  obtain ⟨piece, hpiece, rfl⟩ := hfield
  exact h hascii byte (hpieces _ _ piece hpiece byte hbyte)

/-- What a step of the owned path makes of the validity of the text. -/
def Sound (r : Bool × OwnedOutput) : Prop :=
  r.2.Certified ∧ (r.1 = false → r.2.textValidity = .unknown)

theorem Sound.read {output : OwnedOutput} (h : output.Certified) : Sound (true, output) := by
  refine ⟨h, fun hnot => ?_⟩
  cases hnot

theorem As.sound {r : Bool × OwnedOutput} (h : As .unknown r) : Sound r :=
  ⟨OwnedOutput.certified_of_unknown h, fun _ => h⟩

theorem defaultCsvOwnedPlain_keeps (certifyAscii : Bool) (recordStart : ℕ) :
    Maintains (Selects want) Sound
      (defaultCsvOwnedPlain cfg input certifyAscii recordStart OwnedOutput.new) := by
  refine Maintains.get_bind fun s _ => Maintains.ite ?_ (Maintains.pure' (As.sound rfl))
  have hagrees := tryParseDefaultPlainPacked_agrees cfg.host.packed (input.drop recordStart)
  split
  · rename_i consumed storage hrun
    refine (setLocation_keeps _).bind fun _ _ => Maintains.pure' (Sound.read (certified_filled fun hascii => ?_))
    rcases hagrees with ⟨htrue, hfalse⟩ | ⟨_, _, _, _, htrue, hfalse, hvalid⟩
    · cases certifyAscii with
      | false => rw [hfalse] at hrun; cases hrun
      | true => rw [htrue] at hrun; cases hrun
    · cases certifyAscii with
      | false => rw [hfalse] at hrun; cases hrun; cases hascii
      | true => rw [htrue] at hrun; cases hrun; exact hvalid hascii
  · rename_i storage hrun
    refine Maintains.pure' (As.sound ?_)
    rcases hagrees with ⟨htrue, hfalse⟩ | ⟨_, _, _, _, htrue, hfalse, -⟩
    · cases certifyAscii with
      | false => rw [hfalse] at hrun; cases hrun; rfl
      | true => rw [htrue] at hrun; cases hrun; rfl
    · cases certifyAscii with
      | false => rw [hfalse] at hrun; cases hrun
      | true => rw [htrue] at hrun; cases hrun

theorem ownedPlain_keeps (certifyAscii : Bool) (recordStart : ℕ) :
    Maintains (Selects want) Sound
      (ownedPlain cfg F input certifyAscii recordStart OwnedOutput.new) := by
  have hthen : ∀ r, Sound r → Maintains (Selects want) Sound (if r.1 = true then pure (true, r.2)
      else ownedPlainFrom cfg F input recordStart recordStart r.2) := by
    rintro ⟨parsed, output⟩ ⟨hcertified, hunknown⟩
    cases parsed with
    | true => exact Maintains.pure' (Sound.read hcertified)
    | false => exact (ownedPlainFrom_keeps (hunknown rfl) _ _).mono fun _ => As.sound
  refine Maintains.ite ?_ (hthen (false, OwnedOutput.new) (As.sound rfl))
  exact (defaultCsvOwnedPlain_keeps _ _).bind fun r hr => hthen r hr

theorem markOwnedNulls_certified {output : OwnedOutput} (h : output.Certified) (header : Bool) :
    (markOwnedNulls cfg F header output).Certified := by
  unfold markOwnedNulls
  split
  · exact h
  split_ifs
  · exact h
  · intro hascii field hfield byte hbyte
    obtain ⟨field', hfield', rfl⟩ := List.mem_map.1 hfield
    cases field' with
    | none => cases hbyte
    | some bytes =>
      refine h hascii (some bytes) hfield' byte ?_
      rw [Option.filter_some] at hbyte
      split_ifs at hbyte
      · exact hbyte
      · cases hbyte

theorem finishOwnedRecord_certified {output : OwnedOutput} (h : output.Certified) (header : Bool) :
    Maintains (Selects want) Sound (finishOwnedRecord cfg F input header output) :=
  (validateFieldCount_keeps _).bind fun _ _ =>
    Maintains.pure' (Sound.read (markOwnedNulls_certified h header))

theorem parseOwnedPlainRecord_keeps (certifyAscii : Bool) (recordStart : ℕ) (header : Bool) :
    Maintains (Selects want) Sound
      (parseOwnedPlainRecord cfg F input certifyAscii recordStart header OwnedOutput.new) := by
  refine (ownedPlain_keeps _ _).bind fun r hr => ?_
  obtain ⟨parsed, output⟩ := r
  obtain ⟨hcertified, hunknown⟩ := hr
  cases parsed with
  | true => exact finishOwnedRecord_certified hcertified header
  | false =>
    refine (predictQuotes_keeps (fun _ h => h.handoff) trivial).bind fun _ (_ : True) => ?_
    exact (resumeOwnedAfterInteriorQuote_keeps
      (markOwnedNulls_textValidity (hunknown rfl) header) _).mono fun _ => As.sound

/-- The certifying kernel on an empty record: it accepts an ASCII record, or one that it does not
    certify, or leaves the record empty. -/
theorem tryParseDefaultInteriorAscii_cases (host : Host) (input : Bytes) :
    (∃ fields next storage, tryParseDefaultInteriorAscii host input OwnedOutput.new.storage =
        (.ok (next, true), storage) ∧ next ≤ 64 ∧ Rfc.record input = .record fields next ∧
      OwnedOutput.new.filled storage =
        { OwnedOutput.new.behind fields with textValidity := storage.textValidity } ∧
      (OwnedOutput.new.filled storage).Certified) ∨
    ∃ storage, tryParseDefaultInteriorAscii host input OwnedOutput.new.storage =
        (.error .declined, storage) ∧ OwnedOutput.new.filled storage = OwnedOutput.new := by
  have hreads := tryParseDefaultQuotedRecordStructural_reads host.structural
    (windowNeedsFieldLimit input) false true input OwnedOutput.new.storage input.length
  unfold tryParseDefaultInteriorAscii
  rcases hrun : tryParseDefaultQuotedRecordStructural host.structural (windowNeedsFieldLimit input) false
    true input OwnedOutput.new.storage input.length with ⟨stop | ⟨next, flag⟩, storage⟩ <;>
    rw [hrun] at hreads
  · obtain ⟨rfl, hleft⟩ := hreads
    refine Or.inr ⟨storage, rfl, ?_⟩
    rcases hleft with rfl | ⟨-, rfl⟩
    · rfl
    · rfl
  · obtain ⟨fields, hrecord, hnext, hparts, hvalidity⟩ := hreads
    obtain ⟨rfl, -⟩ := structural_ok hrun
    have hfilled := OwnedOutput.filled_parts hparts
    refine Or.inl ⟨fields, next, storage, rfl, hnext, hrecord, hfilled, fun hascii => ?_⟩
    rw [hfilled]
    intro field hfield byte hbyte
    obtain ⟨bytes, hbytes, rfl⟩ : ∃ bytes ∈ fields, some bytes = field := by
      simpa [OwnedOutput.behind, OwnedOutput.new] using hfield
    rcases hvalidity with hunknown | ⟨-, hfirst, hsecond⟩
    · rw [hfilled] at hascii
      cases hunknown.symm.trans hascii
    · exact record_ascii hrecord hnext hfirst hsecond bytes hbytes byte hbyte

theorem certifyInterior_keeps (recordStart : ℕ) :
    Maintains (Selects want) Sound (certifyInterior cfg input recordStart OwnedOutput.new) := by
  refine Maintains.get_bind fun s hs => Maintains.ite ?_ ?_
  · refine Maintains.bind (Maintains.set' (P := fun _ => True) ?_ trivial) fun _ _ => ?_
    · exact hs.imp fun h => ⟨h.quoted, h.interior, h.handoff, h.multi⟩
    · exact Maintains.pure' (As.sound rfl)
  · rcases tryParseDefaultInteriorAscii_cases cfg.host (input.drop recordStart) with
      ⟨fields, next, storage, hrun, -, -, -, hcertified⟩ | ⟨storage, hrun, hfilled⟩
    · rw [hrun]
      refine Maintains.bind (Maintains.set' (P := fun _ => True) ?_ trivial) fun _ _ => ?_
      · exact hs.imp fun h => ⟨h.quoted, h.interior, h.handoff, h.multi⟩
      · exact Maintains.pure' (Sound.read hcertified)
    · rw [hrun]
      refine Maintains.bind (Maintains.set' (P := fun _ => True) ?_ trivial) fun _ _ => ?_
      · exact hs.imp fun h => ⟨h.quoted, h.interior, h.handoff, h.multi⟩
      · rw [hfilled]
        exact Maintains.pure' (As.sound rfl)

theorem parseOwnedKernels_keeps (certifyAscii : Bool) (recordStart : ℕ) (header : Bool) :
    Maintains (Selects want) Sound
      (parseOwnedKernels cfg F input certifyAscii recordStart header OwnedOutput.new) := by
  refine Maintains.get_bind fun s hs => Maintains.ite ?_ (parseOwnedPlainRecord_keeps _ _ _)
  refine Maintains.bind (Maintains.set' (P := fun _ => True) ?_ trivial) fun _ _ => ?_
  · exact hs.imp fun h => ⟨h.quoted, h.interior, h.handoff, h.multi⟩
  have hthen : ∀ r, Sound r → Maintains (Selects want) Sound (if r.1 = true then pure (true, r.2)
      else if (byteAt input recordStart == (cfg.fmt F).dialect.quote) = true then
        parseOwnedQuotedPrefix cfg F input recordStart header r.2
      else parseOwnedInteriorPrefix cfg F input recordStart header r.2) := by
    rintro ⟨certified, output⟩ ⟨hcertified, hunknown⟩
    cases certified with
    | true => exact Maintains.pure' (Sound.read hcertified)
    | false =>
      simp only [Bool.false_eq_true, if_false]
      refine Maintains.ite ?_ ?_
      · exact (parseOwnedQuotedPrefix_keeps (hunknown rfl) _ _).mono fun _ => As.sound
      · exact (parseOwnedInteriorPrefix_keeps (hunknown rfl) _ _).mono fun _ => As.sound
  refine Maintains.ite ?_ (hthen (false, OwnedOutput.new) (As.sound rfl))
  exact (certifyInterior_keeps _).bind fun r hr => hthen r hr

/-- **A record keeps the kernels selected**, and is ASCII where it is called so. -/
theorem parseOwnedRecordMode_keeps (certifyAscii : Bool) (recordStart : ℕ) (header : Bool) :
    Maintains (Selects want) OwnedOutput.Certified
      (parseOwnedRecordMode cfg F input certifyAscii recordStart header OwnedOutput.new) := by
  have hthen : ∀ r, Sound r → Maintains (Selects want) OwnedOutput.Certified
      (if r.1 = true then pure r.2
        else ownedFieldsLoop cfg F input recordStart header (input.length + 2) r.2) := by
    rintro ⟨parsed, output⟩ ⟨hcertified, hunknown⟩
    cases parsed with
    | true => exact Maintains.pure' hcertified
    | false =>
      exact (ownedFieldsLoop_keeps _ _ _ _ (hunknown rfl)).mono
        fun _ => OwnedOutput.certified_of_unknown
  refine Maintains.ite ?_ (hthen (false, OwnedOutput.new) (As.sound rfl))
  exact (parseOwnedKernels_keeps _ _ _).bind fun r hr => hthen r hr

end certify

end Engine

end Coseva
