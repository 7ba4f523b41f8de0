/-
  Coseva — the parser of a slice reads a spelled document, record by record.

  * `DocumentSpells`: a text spells records, none of which is skipped;
  * `nextRecord_reads`: one record, from between two records;
  * `records_reads`: the whole document.
-/
import Coseva.ReadKernel

namespace Coseva

/-- A text spells records, none of which reads as a comment or a blank line. -/
inductive DocumentSpells (cfg : ParserSettings) : Bytes → List (List Field) → Prop where
  | nil : DocumentSpells cfg [] []
  | cons {text rest : Bytes} {fs : List Field} {records : List (List Field)}
      (hfs : FieldsSpell cfg.toFormatSettings rest text fs) (hkept : Kept cfg (text ++ rest))
      (hrest : DocumentSpells cfg rest records) :
      DocumentSpells cfg (text ++ rest) (fs :: records)

namespace Engine

open Run SpanStorage

variable {cfg : ParserSettings} {F : CsvFormat} {input : Bytes} {e : Engine}

/-! ## Nothing is skipped -/

theorem recordEndingWidthAt_drop (cfg : ParserSettings) (input : Bytes) (pos : ℕ) :
    recordEndingWidthAt cfg input pos = recordEndingWidthAt cfg (input.drop pos) 0 := by
  unfold recordEndingWidthAt
  simp only [List.getElem?_drop, List.drop_drop, Nat.add_zero, Nat.zero_add]

theorem kept_nil (cfg : ParserSettings) : Kept cfg [] := by
  refine ⟨by simp, fun _ => ?_⟩
  simp only [recordEndingWidthAt]
  cases cfg.dialect.recordEnding <;> simp

/-- At a text that is kept the cursor stays where it is. -/
theorem skipToRecord_kept (hresume : e.resume = .new) (h : Kept cfg (input.drop e.location)) :
    skipToRecord cfg input e = e := by
  have hcomments : skipComments cfg input e = e := by
    unfold skipComments
    rcases hc : cfg.dialect.comment with _ | comment
    · rfl
    · have hne := h.1 comment hc
      rw [List.head?_drop] at hne
      simp only [skipCommentsLoop, hresume, ResumeState.new]
      rw [if_pos (by simpa using hne)]
  have hblank : skipBlankLines cfg input e = e := by
    unfold skipBlankLines
    split
    · rename_i hb
      rw [skipBlankLinesLoop, recordEndingWidthAt_drop, h.2 hb]
    · rfl
  have hignored : skipIgnoredRecords cfg input e = e := by
    unfold skipIgnoredRecords
    simp only [skipIgnoredLoop, hcomments, hblank, hresume, ResumeState.new, if_true,
      Bool.false_and, Bool.false_eq_true, if_false]
  unfold skipToRecord
  split
  · cases e
    cases hresume
    exact hignored
  · rfl

/-! ## One record -/

/-- The engine between two records. -/
structure Between (e : Engine) : Prop where
  failed : e.failed = false
  headers : e.headersInitialized = true
  resume : e.resume = .new
  /-- no record has been advanced to without being read -/
  settled : e.cursorStart ≠ some e.location

/-- The engine at a record that it has advanced to. -/
def positioned (e : Engine) : Engine :=
  { e with
    cursorStart := some e.location
    cursorIndex := e.recordIndex
    cursorEnd := none }

theorem advance_between_eq (h : Between e) :
    advance cfg F input e = position cfg input e := by
  have hfailed : checkFailed input e = .ok () e := by
    unfold checkFailed
    rw [if_neg (by simp [h.failed])]
  have hheaders : ensureHeaders cfg input e = .ok () e := by
    unfold ensureHeaders
    rw [get_bind, if_pos h.headers]; rfl
  have hsettle : settle cfg F input e = .ok () e := by
    unfold settle
    rw [get_bind, if_neg (Ne.symm h.settled)]; rfl
  unfold advance
  rw [bind_ok hfailed, bind_ok hheaders, bind_ok hsettle]

/-- The cursor moves to a record that is kept. -/
theorem advance_record (h : Between e) (hkept : Kept cfg (input.drop e.location))
    (hlocation : e.location ≠ input.length) :
    advance cfg F input e = .ok true e.positioned := by
  rw [advance_between_eq h]
  unfold position
  rw [modify_bind, get_bind, skipToRecord_kept h.resume hkept, if_neg hlocation]
  rfl

/-- At the end of the document there is no record. -/
theorem advance_end (h : Between e) (hlocation : e.location = input.length) :
    advance cfg F input e = .ok false { e with cursorStart := none } := by
  have hkept : Kept cfg (input.drop e.location) := by
    rw [hlocation, List.drop_length]; exact kept_nil cfg
  rw [advance_between_eq h]
  unfold position
  rw [modify_bind, get_bind, skipToRecord_kept h.resume hkept, if_pos hlocation]
  rfl

variable {rest text : Bytes} {fs : List Field}

/-- The record at the cursor is read. -/
theorem record_reads (hr : Reads cfg F input)
    (hsingle : F.isSome = true → cfg.dialect.multibyte = false) (htrim : cfg.trim.fields = false)
    (h : FieldsSpell cfg.toFormatSettings rest text fs)
    (hdrop : input.drop e.location = text ++ rest) :
    ∃ e', record cfg F input e.positioned =
        .ok ⟨fs, e.location, e.location + text.length, e.recordIndex⟩ e' ∧
      e'.location = e.location + text.length ∧ e'.cursorStart = some e.location ∧
      e'.failed = e.failed ∧ e'.headersInitialized = e.headersInitialized ∧
      e'.resume = e.resume := by
  have hbegin : beginSpans input e.positioned =
      .ok () (e.positioned.parsed e.location .empty e.terminated) := by
    have := hr.fits.offset
    unfold beginSpans
    rw [if_neg (by omega)]; rfl
  obtain ⟨s, t, l, u, hrun, hs⟩ := parseRecord_reads
    (e := e.positioned.parsed e.location .empty e.terminated) hr hsingle h hdrop rfl
  have hparse : parsePositionedRecord cfg F input false e.positioned =
      .ok (e.location, e.location + text.length, e.recordIndex)
        { (e.positioned.parsed (e.location + text.length) s t).folded l u with
          recordIndex := e.recordIndex + 1 } := by
    have htrim' : ∀ e', trimSpans cfg input false e' = .ok () e' := by
      intro e'
      unfold trimSpans
      rw [if_neg (by simp [Whitespace.appliesToScope, htrim])]; rfl
    have hfail : failing (parseRecord cfg F input e.location false)
        (e.positioned.parsed e.location .empty e.terminated) =
        .ok () ((e.positioned.parsed (e.location + text.length) s t).folded l u) := by
      have hrun' : parseRecord cfg F input e.location false
          (e.positioned.parsed e.location .empty e.terminated) = _ := hrun
      unfold failing
      rw [hrun']; rfl
    unfold parsePositionedRecord
    rw [bind_ok hbegin, get_bind, parsed_location, bind_ok hfail, bind_ok (htrim' _), get_bind, set_bind]
    rfl
  have hrewind : rewindToCurrent e.positioned = .ok () e.positioned := by
    unfold rewindToCurrent
    simp [positioned]
  have hfull : materializeFull cfg F input e.positioned =
      .ok (e.location, e.location + text.length, e.recordIndex)
        { (e.positioned.parsed (e.location + text.length) s t).folded l u with
          recordIndex := e.recordIndex + 1
          cursorEnd := some (e.location + text.length) } := by
    unfold materializeFull
    rw [get_bind]
    exact (bind_ok hrewind).trans ((bind_ok hparse).trans rfl)
  refine ⟨{ (e.positioned.parsed (e.location + text.length) s t).folded l u with
      recordIndex := e.recordIndex + 1
      cursorEnd := some (e.location + text.length) }, ?_, rfl, rfl, rfl, rfl, rfl⟩
  unfold record
  rw [bind_ok hfull]
  unfold currentRecord
  rw [get_bind, ← hs]
  rfl

/-- **One record** is read from between two records. -/
theorem nextRecord_reads (hr : Reads cfg F input)
    (hsingle : F.isSome = true → cfg.dialect.multibyte = false) (htrim : cfg.trim.fields = false)
    (hb : Between e) (h : FieldsSpell cfg.toFormatSettings rest text fs)
    (hkept : Kept cfg (text ++ rest)) (hdrop : input.drop e.location = text ++ rest) :
    ∃ r e', SliceParser.nextRecord cfg F input e = .ok (some r) e' ∧ r.fields = fs ∧
      e'.location = e.location + text.length ∧ Between e' := by
  have hpos := h.length_pos
  have hlocation : e.location ≠ input.length := by
    intro hl
    rw [hl, List.drop_length] at hdrop
    have := congrArg List.length hdrop
    simp only [List.length_nil, List.length_append] at this
    omega
  obtain ⟨e', hrun, hmoved, hcursor, hfailed, hheaders, hresume⟩ :=
    record_reads hr hsingle htrim h hdrop
  refine ⟨⟨fs, e.location, e.location + text.length, e.recordIndex⟩, e', ?_, rfl, hmoved, hfailed.trans hb.failed, hheaders.trans hb.headers,
    hresume.trans hb.resume, ?_⟩
  · unfold SliceParser.nextRecord
    rw [bind_ok (advance_record hb (hdrop ▸ hkept) hlocation), if_pos rfl]
    exact map_ok hrun
  · rw [hcursor, hmoved]
    intro heq
    have := Option.some.inj heq
    omega

end Engine

/-! ## The document -/

namespace SliceParser

open Run Engine

variable {cfg : ParserSettings} {F : CsvFormat} {input : Bytes}

theorem recordsFrom_reads (hr : Reads cfg F input)
    (hsingle : F.isSome = true → cfg.dialect.multibyte = false) (htrim : cfg.trim.fields = false)
    {body : Bytes} {records : List (List Field)} (h : DocumentSpells cfg body records) :
    ∀ (fuel : ℕ) (e : Engine), body.length + 1 ≤ fuel → Between e → e.location ≤ input.length →
      input.drop e.location = body →
      ∃ rs, recordsFrom cfg F input fuel e = .ok rs ∧ rs.map (·.fields) = records := by
  induction h with
  | nil =>
    intro fuel e hfuel hb hle hdrop
    obtain ⟨fuel, rfl⟩ : ∃ n, fuel = n + 1 := ⟨fuel - 1, by simp at hfuel; omega⟩
    have hend : e.location = input.length := by
      have := congrArg List.length hdrop
      simp at this
      omega
    have hnext : nextRecord cfg F input e = .ok none { e with cursorStart := none } := by
      unfold nextRecord
      rw [bind_ok (advance_end hb hend)]; rfl
    exact ⟨[], by rw [recordsFrom, hnext], rfl⟩
  | @cons text rest fs records hfs hkept hrest ih =>
    intro fuel e hfuel hb hle hdrop
    have hpos := hfs.length_pos
    simp only [List.length_append] at hfuel
    obtain ⟨fuel, rfl⟩ : ∃ n, fuel = n + 1 := ⟨fuel - 1, by omega⟩
    obtain ⟨r, e', hrun, hfields, hlocation, hb'⟩ :=
      nextRecord_reads hr hsingle htrim hb hfs hkept hdrop
    have htotal := congrArg List.length hdrop
    simp only [List.length_drop, List.length_append] at htotal
    obtain ⟨rs, hrs, hmap⟩ := ih fuel e' (by omega) hb' (by omega)
      (by rw [hlocation]; exact Window.drop_of_drop hdrop rfl)
    refine ⟨r :: rs, ?_, by rw [List.map_cons, hfields, hmap]⟩
    rw [recordsFrom, hrun]
    simp only [hrs]
    rfl

/-- An empty input has no records. -/
theorem records_nil (hheaders : cfg.headers = .none) :
    SliceParser.records cfg F [] = .ok [] := by
  have hbetween : Between (fromConfig cfg []) := by
    refine ⟨rfl, ?_, rfl, by simp [fromConfig, fromConfigWithOwnedParser]⟩
    simp [fromConfig, fromConfigWithOwnedParser, hheaders]
  have hbuild : build cfg [] = .ok (fromConfig cfg []) := by simp [build, bom]
  have hlocation : (fromConfig cfg []).location = ([] : Bytes).length := by
    simp [fromConfig, fromConfigWithOwnedParser, bom]
  have hnext : nextRecord cfg F [] (fromConfig cfg []) =
      .ok none { fromConfig cfg [] with cursorStart := none } := by
    unfold nextRecord
    rw [bind_ok (advance_end hbetween hlocation)]; rfl
  unfold SliceParser.records
  simp only [hbuild, bind, Except.bind, pure, Except.pure, recordsFrom, hnext, List.map_nil]

/-- **A spelled document is read**: its records come back, whether or not a
    byte-order mark stands in front of them. -/
theorem records_reads (hr : Reads cfg F input)
    (hsingle : F.isSome = true → cfg.dialect.multibyte = false) (htrim : cfg.trim.fields = false)
    (hheaders : cfg.headers = .none) {body : Bytes} {records : List (List Field)}
    (h : DocumentSpells cfg body records)
    (hinput : input = bom ++ body ∧ cfg.readBom = .detect ∨
      input = body ∧ (cfg.readBom = .preserve ∨ bom.isPrefixOf body = false)) :
    SliceParser.records cfg F input = .ok records := by
  have hbetween : Between (fromConfig cfg input) := by
    refine ⟨rfl, ?_, rfl, by simp [fromConfig, fromConfigWithOwnedParser]⟩
    simp [fromConfig, fromConfigWithOwnedParser, hheaders]
  obtain ⟨hbuild, hlocation, hdrop⟩ : build cfg input = .ok (fromConfig cfg input) ∧
      (fromConfig cfg input).location ≤ input.length ∧
      input.drop (fromConfig cfg input).location = body := by
    have hloc : (fromConfig cfg input).location =
      if cfg.readBom = .detect ∧ bom.isPrefixOf input then 3 else 0 := rfl
    rcases hinput with ⟨rfl, hdetect⟩ | ⟨rfl, hpolicy⟩
    · have hprefix : bom.isPrefixOf (bom ++ body) = true := by simp
      rw [hloc, if_pos ⟨hdetect, hprefix⟩]
      refine ⟨by simp [build, hdetect], by simp [bom], rfl⟩
    · rw [hloc, if_neg, build, if_neg]
      · simp
      · rintro ⟨h1, h2⟩
        rcases hpolicy with h | h
        · rw [h1] at h; cases h
        · rw [h] at h2; cases h2
      · rintro ⟨h1, h2⟩
        rcases hpolicy with h | h
        · rw [h1] at h; cases h
        · rw [h] at h2; cases h2
  have hlen : body.length + 1 ≤ input.length + 1 := by
    rw [← hdrop, List.length_drop]; omega
  obtain ⟨rs, hrs, hmap⟩ := recordsFrom_reads hr hsingle htrim h (input.length + 1)
    (fromConfig cfg input) hlen hbetween hlocation hdrop
  unfold SliceParser.records
  simp only [hbuild, bind, Except.bind, hrs, pure, Except.pure, hmap]

end SliceParser

end Coseva
