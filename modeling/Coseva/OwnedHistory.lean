/-
  Coseva — text reads are byte reads whose fields are validated, behind every history of
  reads (`coseva/src/engine/access.rs`).

  * `readHistory_selects`: the kernels of the default dialect stay selected;
  * `readCurrent_keeps`: a record that is called ASCII is;
  * `TextRead`: what a text read makes of a byte read;
  * `readTextRecordInto_agrees`: text reads do that, where the kernel that certifies does not
    accept the current record, or the parser was configured for it.
-/
import Coseva.OwnedText
import Coseva.BorrowedKeeps
import Coseva.CutRecord

namespace Coseva

open Run

namespace Engine

variable {cfg : ParserSettings} {F : CsvFormat} {input : Bytes} {want : Prop} {e : Engine}

/-! ## What reads keep -/

theorem trimmed_subset (text : Bytes) : ∀ byte ∈ trimmed text, byte ∈ text := by
  intro byte hbyte
  have hfirst := (List.dropWhile_suffix _).mem (List.mem_reverse.1 hbyte)
  exact (List.dropWhile_suffix _).mem (List.mem_reverse.1 hfirst)

theorem trimFieldsAscii_certified {output : OwnedOutput} (h : output.Certified) :
    output.trimFieldsAscii.Certified := by
  intro hascii field hfield byte hbyte
  obtain ⟨field', hfield', rfl⟩ := List.mem_map.1 hfield
  cases field' with
  | none => cases hbyte
  | some bytes => exact h hascii (some bytes) hfield' byte (trimmed_subset bytes byte hbyte)

theorem readPhysicalStorageMode_keeps (certifyAscii header : Bool) :
    Maintains (Selects want) (fun r => ∀ record ∈ r, record.toOwnedOutput.Certified)
      (readPhysicalStorageMode cfg F input certifyAscii header) := by
  refine Maintains.ite ?_ ?_
  · refine (nextPhysicalRecord_keeps header).bind fun record _ => Maintains.pure' ?_
    intro r hr
    obtain ⟨record, -, rfl⟩ := Option.map_eq_some_iff.1 hr
    exact OwnedOutput.certified_of_unknown rfl
  · refine checkFailed_keeps.bind fun _ _ => skips_keeps.bind fun _ _ => Maintains.get_bind fun s _ => ?_
    refine Maintains.ite (Maintains.pure' fun _ hnone => by cases hnone) ?_
    refine (failing_keeps (parseOwnedRecordMode_keeps _ _ _)).bind fun output ho => ?_
    refine Maintains.get_bind fun s hs => Maintains.bind (P := fun _ => True) ?_ fun _ _ => ?_
    · exact keeps_set hs fun h => ⟨h.quoted, h.interior, h.handoff, h.multi⟩
    · refine Maintains.pure' fun r hr => ?_
      obtain rfl := Option.some.inj hr
      show OwnedOutput.Certified (if _ then _ else _)
      split_ifs
      · exact trimFieldsAscii_certified ho
      · exact ho

/-- **A record that is called ASCII is**, and the kernels stay selected. -/
theorem readCurrent_keeps (certifyAscii : Bool) :
    Maintains (Selects want) (fun record => record.toOwnedOutput.Certified)
      (readCurrent cfg F input certifyAscii) := by
  refine Maintains.get_bind fun s _ => ?_
  split
  · exact Maintains.throw' _
  · refine Maintains.bind (P := fun _ => True) (Maintains.get_bind fun _ _ => keeps_pure _) fun record _ => ?_
    exact Maintains.pure' (OwnedOutput.certified_of_unknown rfl)
  · refine rewindToCurrent_keeps.bind fun _ _ =>
      (readPhysicalStorageMode_keeps certifyAscii false).bind fun r hr => ?_
    cases r with
    | none => exact Maintains.throw' _
    | some record => exact Maintains.pure' (hr record rfl)

theorem readTextRecordInto_keeps : Keeps want (readTextRecordInto cfg F input) := by
  refine Maintains.get_bind fun s _ => (readCurrent_keeps true).bind fun record _ => ?_
  refine Maintains.ite (keeps_pure _) ?_
  split
  · exact keeps_pure _
  · exact keeps_pure _

theorem ReadOp.run_keeps (op : ReadOp) : Keeps want (op.run cfg F input) := by
  cases op with
  | nextLine => exact keeps_bind advance_keeps fun _ => keeps_pure ()
  | headers => exact ensureHeaders_keeps
  | record => exact keeps_bind record_keeps fun _ => keeps_pure ()
  | byteRecord => exact (readCurrent_keeps false).bind fun _ _ => keeps_pure ()
  | textRecord => exact keeps_bind readTextRecordInto_keeps fun _ => keeps_pure ()
  | seek b =>
    refine Maintains.ite (keeps_pure ()) (keeps_bind ensureHeaders_keeps fun _ => ?_)
    exact keeps_modify fun _ h => ⟨h.quoted, h.interior, h.handoff, h.multi⟩

/-- The parser of the default dialect, of the default limits. -/
theorem dialect_of_default (h : ownedParserFor cfg true = some (.default true)) :
    cfg.dialect = .csv ∧ cfg.limits = .default ∧ cfg.fieldCount = .flexible ∧
      cfg.blankRecords = .preserve ∧ cfg.syntax' = .strict ∧ cfg.nulls = .none := by
  unfold ownedParserFor at h
  dsimp only at h
  split_ifs at h with heligible hcsv
  · obtain ⟨hlimits, hcount, -, hblank, hsyntax, -, hnulls⟩ := heligible
    exact ⟨hcsv, hlimits, hcount, hblank, hsyntax, hnulls⟩
  all_goals cases h

theorem defaultCsv_of_default (hF : cfg.Follows F) (h : ownedParserFor cfg true = some (.default true)) :
    DefaultCsv cfg F := by
  obtain ⟨hdialect, hlimits, hcount, hblank, hsyntax, hnulls⟩ := dialect_of_default h
  refine ⟨hlimits, hcount, hdialect, hsyntax, hnulls, ?_, hF⟩
  rw [ParserSettings.skipsRecords, hdialect, hblank]
  rfl

theorem fromConfig_selects :
    Selects (ownedParserFor cfg true = some (.default true)) (fromConfig cfg input) := by
  intro h
  have hoffered : ∀ check parser, (prefixParserFor cfg (ownedParserFor cfg check) parser).isSome := by
    intro check parser
    have hsome : (ownedParserFor cfg check).isNone = false := by
      rw [ownedParserFor_isNone cfg check true, h]
      rfl
    unfold prefixParserFor
    rw [if_neg (by rw [hsome]; exact not_or.2 ⟨Bool.false_ne_true, not_not.2 (dialect_of_default h).1⟩)]
    rfl
  exact ⟨hoffered _ _, hoffered _ _, hoffered _ _, hoffered _ _⟩

/-- One call leaves the kernels selected. -/
theorem ReadOp.after_selects (op : ReadOp) (h : Selects want e) :
    Selects want (op.after cfg F input e) := by
  have hkeeps : Keeps want (op.run cfg F input) := ReadOp.run_keeps op
  have hop := hkeeps e h
  unfold ReadOp.after
  rcases hrun : op.run cfg F input e with ⟨_, e'⟩ | ⟨fault, e'⟩ <;> rw [hrun] at hop
  · exact hop.1
  · exact hop

/-- The kernels of the default dialect stay selected. -/
theorem readHistory_selects (history : List ReadOp) :
    Selects (ownedParserFor cfg true = some (.default true)) (readHistory cfg F input history) := by
  have hcalls : ∀ (history : List ReadOp) (e : Engine),
      Selects (ownedParserFor cfg true = some (.default true)) e →
      Selects (ownedParserFor cfg true = some (.default true))
        (history.foldl (ReadOp.after cfg F input) e) := by
    intro history
    induction history with
    | nil =>
      intro e h
      exact h
    | cons op history ih =>
      intro e h
      exact ih _ (ReadOp.after_selects op h)
  exact hcalls history _ fromConfig_selects

/-! ## Text reads -/

/-- What a text read makes of a byte read of the same record: the same failure, or the same record
    where each of its fields is a string, or a failure at the first field that is none; the cursor
    stands alike. -/
def TextRead : EStateM.Result Fault Engine (Except Utf8Failure OwnedRecord) →
    EStateM.Result Fault Engine OwnedRecord → Prop
  | .ok (.ok text) t, .ok bytes s =>
    SameRecord text bytes ∧ (∀ field ∈ bytes.fields, Utf8.Valid (field.getD [])) ∧ SameUnpredicted t s
  | .ok (.error failure) t, .ok bytes s =>
    failure.location.byte = bytes.start ∧ failure.location.record = bytes.index ∧
      (∃ h : failure.location.field < bytes.fields.length,
        ¬ Utf8.Valid (bytes.fields[failure.location.field].getD [])) ∧
      (∀ field ∈ bytes.fields.take failure.location.field, Utf8.Valid (field.getD [])) ∧
      SameUnpredicted t s
  | .error fault t, .error fault' s => fault = fault' ∧ SameUnpredicted t s
  | _, _ => False

/-- A record that is called ASCII has strings only. -/
theorem valid_of_certified {output : OwnedOutput} (h : output.Certified)
    (hascii : output.textValidity = .ascii) : ∀ field ∈ output.fields, Utf8.Valid (field.getD []) :=
  fun field hfield => Utf8.valid_of_ascii (h hascii field hfield)

theorem invalidField_none {fields : Fields} (h : invalidField fields = none) :
    ∀ field ∈ fields, Utf8.Valid (field.getD []) := by
  intro field hfield
  have := List.findIdx?_eq_none_iff.1 h field hfield
  simpa using this

theorem invalidField_some {fields : Fields} {index : ℕ} (h : invalidField fields = some index) :
    (∃ h : index < fields.length, ¬ Utf8.Valid (fields[index].getD [])) ∧
      ∀ field ∈ fields.take index, Utf8.Valid (field.getD []) := by
  obtain ⟨hlt, hinvalid, hvalid⟩ := List.findIdx?_eq_some_iff_getElem.1 h
  refine ⟨⟨hlt, by simpa using hinvalid⟩, fun field hfield => ?_⟩
  obtain ⟨i, hi, rfl⟩ := List.mem_take_iff_getElem.1 hfield
  simpa using hvalid i (by omega)

theorem atCurrent_selected (h : Selected e) : Selected (atCurrent cfg input e) := by
  have hskipped : ∀ e, Selected e →
      Selected (if cfg.skipsRecords = true then skipIgnoredRecords cfg input e else e) := by
    intro e h
    split_ifs
    · exact skipIgnoredRecords_selected h
    · exact h
  unfold atCurrent
  refine hskipped _ ?_
  split
  · split_ifs
    · exact ⟨h.quoted, h.interior, h.handoff, h.multi⟩
    · exact h
  · exact h

/-- A text read, of a parser whose record is read alike both ways. -/
theorem textRead_of_matched (hkeeps : Maintains (Selects want) (fun record => record.toOwnedOutput.Certified)
      (readCurrent cfg F input true)) (hselects : Selects want e)
    (hsame : Matched SameRecord SameUnpredicted (readCurrent cfg F input true e)
      (readCurrent cfg F input false e)) :
    TextRead (readTextRecordInto cfg F input e) (readByteRecordInto cfg F input e) := by
  have hcertified := hkeeps e hselects
  unfold readTextRecordInto readByteRecordInto
  rw [get_bind]
  rcases ht : readCurrent cfg F input true e with ⟨text, t⟩ | ⟨fault, t⟩ <;>
    rcases hb : readCurrent cfg F input false e with ⟨bytes, s⟩ | ⟨fault', s⟩ <;>
    rw [ht, hb] at hsame
  · obtain ⟨hrecord, hstate⟩ := hsame
    rw [ht] at hcertified
    obtain ⟨-, hcertified⟩ := hcertified
    have hfields : text.fields = bytes.fields := by
      obtain ⟨v, hv⟩ := hrecord.output
      calc text.fields = text.toOwnedOutput.fields := rfl
        _ = bytes.fields := by rw [hv]
    rw [bind_ok ht]
    split_ifs with hascii
    · refine ⟨hrecord, ?_, hstate⟩
      rw [← hfields]
      exact valid_of_certified hcertified hascii
    · rcases hinvalid : invalidField text.fields with _ | index
      · refine ⟨hrecord, ?_, hstate⟩
        rw [← hfields]
        exact invalidField_none hinvalid
      · rw [hfields] at hinvalid
        obtain ⟨hat, hbefore⟩ := invalidField_some hinvalid
        exact ⟨hrecord.start, hrecord.index, hat, hbefore, hstate⟩
  · exact hsame.elim
  · exact hsame.elim
  · rw [bind_error ht]
    exact hsame

/-- **Text reads are byte reads whose fields are validated**, behind every history of reads, where
    the kernel that certifies text does not accept the current record, or is of the configuration. -/
theorem readTextRecordInto_agrees (hF : cfg.Follows F) (history : List ReadOp)
    (h : certifiesCurrent cfg F input (readHistory cfg F input history) = false ∨
      ownedParserFor cfg true = some (.default true)) :
    TextRead (readTextRecordInto cfg F input (readHistory cfg F input history))
      (readByteRecordInto cfg F input (readHistory cfg F input history)) := by
  have hselects : Selects _ (readHistory cfg F input history) := readHistory_selects history
  refine textRead_of_matched (readCurrent_keeps true) hselects (readCurrent_agrees (h.imp_right ?_))
  intro hdefault
  exact ⟨defaultCsv_of_default hF hdefault, atCurrent_selected (hselects hdefault)⟩

/-- The settings of a dialect, on a machine with AVX2. -/
def settingsOf (dialect : Dialect) : ParserSettings :=
  { dialect, limits := .default, fieldCount := .flexible, headers := .none, host := ⟨true, true, true⟩ }

/-- A record with quotes, one that only has delimiters of two dialects, and a long one. -/
def quotedLines (delimiter : UInt8) : Bytes :=
  "a;\"b\"\nx,y;z\n\"q\";012345678901234567890123456789012345678901234567890123456789\n".toUTF8.toList.map
    fun byte => if byte = 59 then delimiter else byte

/-- A record of the default dialect is predicted to have quotes. -/
theorem readTextRecordInto_agrees_predicted :
    TextRead
      (readTextRecordInto (settingsOf .csv) none (quotedLines 44)
        (readHistory (settingsOf .csv) none (quotedLines 44) [.nextLine, .byteRecord, .nextLine]))
      (readByteRecordInto (settingsOf .csv) none (quotedLines 44)
        (readHistory (settingsOf .csv) none (quotedLines 44) [.nextLine, .byteRecord, .nextLine])) :=
  readTextRecordInto_agrees ⟨rfl, rfl, rfl, rfl, rfl⟩ [.nextLine, .byteRecord, .nextLine]
    (Or.inr (by decide))

/-- The fields of a record that is read. -/
def fieldsRead : EStateM.Result Fault Engine OwnedRecord → Option Fields
  | .ok record _ => some record.fields
  | .error _ _ => none

/-- The fields of a text record that is read. -/
def textFieldsRead : EStateM.Result Fault Engine (Except Utf8Failure OwnedRecord) → Option Fields
  | .ok (.ok record) _ => some record.fields
  | .ok (.error _) _ => none
  | .error _ _ => none

theorem TextRead.fieldsRead {r : EStateM.Result Fault Engine (Except Utf8Failure OwnedRecord)}
    {b : EStateM.Result Fault Engine OwnedRecord} {fields : Fields} (h : TextRead r b)
    (hr : textFieldsRead r = some fields) : fieldsRead b = some fields := by
  rcases r with ⟨failure | text, t⟩ | ⟨fault, t⟩
  · cases hr
  · rcases b with ⟨bytes, s⟩ | ⟨fault, s⟩
    · obtain ⟨⟨⟨v, hv⟩, -, -, -⟩, -, -⟩ := h
      cases hr
      show some bytes.toOwnedOutput.fields = some text.toOwnedOutput.fields
      rw [hv]
    · exact h.elim
  · cases hr

/-- A record of semicolons is read at its commas: two fields of bytes, and two others of text. -/
theorem readTextRecordInto_semicolon :
    ¬ TextRead
      (readTextRecordInto (settingsOf .semicolon) none (quotedLines 59)
        (readHistory (settingsOf .semicolon) none (quotedLines 59) [.nextLine, .byteRecord, .nextLine]))
      (readByteRecordInto (settingsOf .semicolon) none (quotedLines 59)
        (readHistory (settingsOf .semicolon) none (quotedLines 59)
          [.nextLine, .byteRecord, .nextLine])) := by
  intro h
  have htext : textFieldsRead (readTextRecordInto (settingsOf .semicolon) none (quotedLines 59)
      (readHistory (settingsOf .semicolon) none (quotedLines 59) [.nextLine, .byteRecord, .nextLine])) =
      some [some [120], some [121, 59, 122]] := by decide +kernel
  have hbytes : fieldsRead (readByteRecordInto (settingsOf .semicolon) none (quotedLines 59)
      (readHistory (settingsOf .semicolon) none (quotedLines 59) [.nextLine, .byteRecord, .nextLine])) =
      some [some [120, 44, 121], some [122]] := by decide +kernel
  have hsame := h.fieldsRead htext
  rw [hbytes] at hsame
  cases hsame

end Engine

end Coseva
