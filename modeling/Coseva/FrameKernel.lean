/-
  Coseva — the kernels of the default dialect end a record where its frame does.

  * `plainBlocks_stops`, `borrowedRecordLoop_frames`: what the two kernels take;
  * `parseRecord_stops`: every record that ends with an ending.
-/
import Coseva.FrameRead

namespace Coseva

namespace Engine

open Run
open Coseva.Frame

variable {cfg : ParserSettings} {F : CsvFormat} {input : Bytes} {start : ℕ}

section default

variable (hs : cfg.dialect.Sound) (hcsv : Csv cfg.toFormatSettings)

include hs hcsv

/-- A line without quotes. -/
theorem leads_line : ∀ {u v : Bytes} {pos m : ℕ}, input.drop pos = u ++ v →
    (∀ b ∈ u, b ≠ 34 ∧ b ≠ 10) →
    ∃ m', Leads cfg input start ⟨pos, m, false⟩ ⟨pos + u.length, m', false⟩
  | [], _, _, m, _, _ => ⟨m, Leads.refl⟩
  | b :: u, v, pos, m, hdrop, hu => by
    have hd : cfg.dialect = .csv := hcsv.dialect
    have hb : input[pos]? = some b := Window.getElem?_of_drop (u := []) hdrop rfl
    have hrest : input.drop (pos + 1) = u ++ v := Window.drop_of_drop (u := [b]) hdrop rfl
    obtain ⟨hquote, hlf⟩ := hu b List.mem_cons_self
    have hstep : ∃ m', step cfg input start ⟨pos, m, false⟩ = .next ⟨pos + 1, m', false⟩ := by
      by_cases hcomma : b = 44
      · exact ⟨pos + 1, step_delimiter hs (by rw [hd]; rfl) (by rw [hb, hd, hcomma]; rfl)⟩
      · refine ⟨m, step_passed hb ?_ ?_ ?_ ?_ ?_⟩ <;> rw [hd]
        · exact hcomma
        · exact hlf
        · exact fun h => absurd h hquote
        · exact nofun
        · exact nofun
    obtain ⟨m', hstep⟩ := hstep
    obtain ⟨m'', hleads⟩ : ∃ m'', Leads cfg input start ⟨pos + 1, m', false⟩
        ⟨pos + 1 + u.length, m'', false⟩ :=
      leads_line hrest fun x hx => hu x (List.mem_cons_of_mem b hx)
    rw [List.length_cons, Nat.add_comm u.length, ← Nat.add_assoc]
    exact ⟨m'', (Leads.of_step hstep).trans hleads⟩

/-- A line feed outside quotes. -/
theorem step_line {pos m : ℕ} (hb : input[pos]? = some 10) :
    step cfg input start ⟨pos, m, false⟩ = .ends (pos + 1) := by
  have hd : cfg.dialect = .csv := hcsv.dialect
  exact step_ending hs (by rw [hd]; rfl) (by rw [hb, hd]; rfl) (by rw [hd]; exact nofun)

theorem plainBlocks_stops {spans spans' : List Span} {consumed : ℕ}
    (hrun : tryParseDefaultBorrowedPlain cfg input start spans = some (consumed, spans')) :
    Stops cfg input start ⟨start, start, false⟩ (start + consumed) := by
  unfold tryParseDefaultBorrowedPlain at hrun
  split_ifs at hrun
  by_cases hlf : 10 ∈ input.drop start
  swap
  · rw [borrowedPlainBlocks_none maxBatchedBlocks 0 start spans hlf] at hrun
    cases hrun
  obtain ⟨w, v, hdrop, hw⟩ := List.eq_append_cons_of_mem hlf
  rcases borrowedPlainBlocks_reads start maxBatchedBlocks 0 start spans w v hw hdrop with
    hnone | ⟨hquote, hsome⟩
  · rw [hnone] at hrun
    cases hrun
  rw [hsome] at hrun
  obtain rfl : 0 + w.length + 1 = consumed := congrArg Prod.fst (Option.some.inj hrun)
  obtain ⟨m, hleads⟩ : ∃ m, Leads cfg input start ⟨start, start, false⟩
      ⟨start + w.length, m, false⟩ :=
    leads_line hs hcsv hdrop fun b hb => ⟨fun h => hquote (h ▸ hb), fun h => hw (h ▸ hb)⟩
  rw [Nat.zero_add, ← Nat.add_assoc]
  exact hleads _ (.ends (step_line hs hcsv (Window.getElem?_of_drop hdrop rfl)))

omit hs in
/-- Behind the closing quote of the default dialect. -/
theorem closed_csv {pos : ℕ} {next : UInt8} (hnext : input[pos]? = some next) :
    closed cfg input pos =
      if next == 44 then .next ⟨pos + 1, pos + 1, false⟩
      else if next == 10 then .ends (pos + 1)
      else if next == 13 && input[pos + 1]? == some 10 then .ends (pos + 2)
      else .halt := by
  have hd : cfg.dialect = .csv := hcsv.dialect
  have hsyntax : cfg.syntax' = .strict := hcsv.syntax'
  have hskip : skipPostQuoteWhitespace input Syntax.strict.permitsTrailingWhitespace pos = pos := rfl
  unfold closed
  simp only [hd, hsyntax, hskip, hnext, List.head?_drop]
  have hconfirms : ∀ after : Bytes, Dialect.csv.delimiterTail.confirms after = true ∧
      Dialect.csv.endingTail.confirms after = true := fun _ => ⟨rfl, rfl⟩
  rw [(hconfirms _).1, (hconfirms _).2, Bool.and_true, Bool.and_true]
  rfl

omit hs in
/-- A quote in quotes. -/
theorem step_quote {pos m : ℕ} (hb : input[pos]? = some 34) :
    step cfg input start ⟨pos, m, true⟩ =
      if input[pos + 1]? = some 34 then .next ⟨pos + 2, m, true⟩ else closed cfg input (pos + 1) := by
  have hd : cfg.dialect = .csv := hcsv.dialect
  have hspecial : quotedByte Dialect.csv 34 = true := rfl
  unfold step quoted quotedStop
  simp only [hb, if_true, hd, hspecial]
  have hescape : Dialect.csv.escape = .doubleQuote := rfl
  have hquote : Dialect.csv.quote = 34 := rfl
  simp only [hescape, hquote]
  split_ifs <;> rfl

/-! ### The kernel that knows quotes -/

variable {scan rest : Bytes} (hsuffix : input.drop start = scan ++ rest)

include hsuffix

omit hs hcsv in
theorem getElem?_of_scan {i : ℕ} (hi : i < scan.length) : input[start + i]? = scan[i]? := by
  rw [← List.getElem?_drop, hsuffix, List.getElem?_append_left hi]

omit hs in
/-- The kernel's closing quote closes. -/
theorem borrowedClosing_frames {m : ℕ} :
    ∀ (fuel cursor segmentStart : ℕ) (scratch : Bytes) {closing segment : ℕ} {scratch' : Bytes},
      cursor ≤ scan.length →
      borrowedClosing scan fuel cursor segmentStart scratch = some (closing, segment, scratch') →
      closing < scan.length ∧ scan[closing]? = some 34 ∧ scan[closing + 1]? ≠ some 34 ∧
        Leads cfg input start ⟨start + cursor, m, true⟩ ⟨start + closing, m, true⟩
  | 0, _, _, _, _, _, _, _, hrun => by cases hrun
  | fuel + 1, cursor, segmentStart, scratch, closing, segment, scratch', hcursor, hrun => by
    have hd : cfg.dialect = .csv := hcsv.dialect
    rw [borrowedClosing] at hrun
    rcases hfind : find1 34 (scan.drop cursor) with _ | relative
    · rw [hfind] at hrun
      cases hrun
    obtain ⟨u, x, v, hl, hlen, hx, hu⟩ := Window.of_findIdx?_some hfind
    obtain rfl : x = 34 := by simpa using hx
    have hlt : cursor + relative < scan.length := by
      have := congrArg List.length hl
      simp only [List.length_drop, List.length_append, List.length_cons] at this
      omega
    have hquote : scan[cursor + relative]? = some 34 := Window.getElem?_of_drop hl (by omega)
    have hdrop : input.drop (start + cursor) = u ++ (34 :: v ++ rest) := by
      rw [drop_of_scan hsuffix hcursor, hl]; simp
    have hpass : Leads cfg input start ⟨start + cursor, m, true⟩
        ⟨start + cursor + u.length, m, true⟩ := by
      refine leads_quoted hdrop fun b hb => ?_
      have hne : b ≠ 34 := by simpa using hu b hb
      rw [hd]
      simp [quotedByte, Dialect.csv, hne]
    rw [hlen, Nat.add_assoc] at hpass
    rw [hfind] at hrun
    simp only at hrun
    by_cases hnext : scan[cursor + relative + 1]? = some 34
    · rw [if_neg (by simpa using hnext)] at hrun
      have hlt' := (List.getElem?_eq_some_iff.mp hnext).1
      obtain ⟨h1, h2, h3, hleads⟩ := borrowedClosing_frames fuel (cursor + relative + 2) _ _
        (by omega) hrun
      refine ⟨h1, h2, h3, (hpass.trans (Leads.of_step ?_)).trans hleads⟩
      rw [step_quote hcsv (by rw [getElem?_of_scan hsuffix hlt, hquote]), if_pos]
      · rfl
      · have hat := getElem?_of_scan hsuffix hlt'
        rw [hnext] at hat
        exact hat
    · rw [if_pos hnext] at hrun
      simp only [Option.some.injEq, Prod.mk.injEq] at hrun
      obtain ⟨rfl, -, -⟩ := hrun
      exact ⟨hlt, hquote, hnext, hpass⟩

/-- The kernel takes a record to its ending, or to the end of the text. -/
theorem borrowedRecordLoop_frames (limits : Option Limits) {suffix : Bytes}
    (hstart : start ≤ input.length) (hwhole : suffix.length ≤ scan.length → rest = []) :
    ∀ (fuel fieldsAdded fieldStart : ℕ) (storage : SpanStorage) {consumed : ℕ} {terminated : Bool}
      {storage' : SpanStorage}, fieldStart ≤ scan.length →
      borrowedRecordLoop limits suffix scan start fuel fieldsAdded fieldStart storage =
        some (consumed, terminated, storage') →
      if terminated then Stops cfg input start ⟨start + fieldStart, start + fieldStart, false⟩
        (start + consumed)
      else start + consumed = input.length
  | 0, _, _, _, _, _, _, _, hrun => by cases hrun
  | fuel + 1, fieldsAdded, fieldStart, storage, consumed, terminated, storage', hfield, hrun => by
    have hd : cfg.dialect = .csv := hcsv.dialect
    have hlength : start + (scan.length + rest.length) = input.length := by
      have := congrArg List.length hsuffix
      simp only [List.length_drop, List.length_append] at this
      omega
    have hlast : suffix.length ≤ scan.length → start + scan.length = input.length := by
      intro hle
      rw [hwhole hle, List.length_nil] at hlength
      exact hlength
    have hfollow : ∀ {p q : ScanPoint}, Leads cfg input start p q →
        (if terminated then Stops cfg input start q (start + consumed)
          else start + consumed = input.length) →
        if terminated then Stops cfg input start p (start + consumed)
          else start + consumed = input.length := by
      intro p q hleads h
      split_ifs at h ⊢
      · exact hleads _ h
      · exact h
    rw [borrowedRecordLoop] at hrun
    simp only at hrun
    by_cases hfields : limits.any (fun l => fieldsAdded = l.maxFields) = true
    · rw [if_pos hfields] at hrun
      cases hrun
    rw [if_neg hfields] at hrun
    by_cases hend : fieldStart = scan.length
    · -- an empty last field
      rw [if_pos hend] at hrun
      split_ifs at hrun with hdeclines
      simp only [Option.some.injEq, Prod.mk.injEq] at hrun
      obtain ⟨rfl, rfl, -⟩ := hrun
      rw [if_neg Bool.false_ne_true, hend]
      exact hlast (by omega)
    rw [if_neg hend] at hrun
    by_cases hquote : scan[fieldStart]? = some 34
    · -- a quoted field
      rw [if_pos hquote] at hrun
      have hlt := (List.getElem?_eq_some_iff.mp hquote).1
      have hopen : step cfg input start ⟨start + fieldStart, start + fieldStart, false⟩ =
          .next ⟨start + (fieldStart + 1), start + fieldStart, true⟩ := by
        have hsyntax : cfg.syntax' = .strict := hcsv.syntax'
        unfold step unquoted
        simp only [getElem?_of_scan hsuffix hlt, hquote, Bool.false_eq_true, if_false]
        rw [if_pos]
        · rfl
        · rw [hd, hsyntax]
          unfold opens
          rw [beq_self_eq_true]
          rfl
      rcases hclosing : borrowedClosing scan (scan.length + 1) (fieldStart + 1) (fieldStart + 1)
        storage.scratch with _ | ⟨closing, segment, scratch⟩
      · rw [hclosing] at hrun
        cases hrun
      obtain ⟨h1, h2, h3, hleads⟩ := borrowedClosing_frames hcsv hsuffix (scan.length + 1)
        (fieldStart + 1) (fieldStart + 1) storage.scratch (by omega) hclosing
      have hquoted := (Leads.of_step hopen).trans hleads
      rw [hclosing] at hrun
      simp only at hrun
      by_cases hexceeds : limits.any (fun l => closing + 1 - fieldStart > l.maxFieldBytes) = true
      · rw [if_pos hexceeds] at hrun
        cases hrun
      rw [if_neg hexceeds] at hrun
      rcases hnext : scan[closing + 1]? with _ | next
      · rw [hnext] at hrun
        simp only at hrun
        split_ifs at hrun with hall
        simp only [Option.some.injEq, Prod.mk.injEq] at hrun
        obtain ⟨rfl, rfl, -⟩ := hrun
        have hlen := List.getElem?_eq_none_iff.mp hnext
        have := hlast (by omega)
        rw [if_neg Bool.false_ne_true]
        omega
      rw [hnext] at hrun h3
      simp only at hrun
      have hlt' := (List.getElem?_eq_some_iff.mp hnext).1
      have hbyte : input[start + closing + 1]? = some next := by
        rw [← hnext]
        exact getElem?_of_scan hsuffix hlt'
      have hstep : step cfg input start ⟨start + closing, start + fieldStart, true⟩ =
          closed cfg input (start + closing + 1) := by
        rw [step_quote hcsv (by rw [getElem?_of_scan hsuffix h1, h2]), if_neg (by rwa [hbyte])]
      rw [closed_csv hcsv hbyte] at hstep
      by_cases hcomma : next = 44
      · rw [if_pos hcomma] at hrun
        rw [if_pos (beq_iff_eq.mpr hcomma)] at hstep
        exact hfollow (hquoted.trans (Leads.of_step hstep))
          (borrowedRecordLoop_frames limits hstart hwhole fuel _ (closing + 2) _ (by omega) hrun)
      rw [if_neg hcomma] at hrun
      rw [if_neg (by simpa using hcomma)] at hstep
      by_cases hlf : next = 10
      · rw [if_pos hlf] at hrun
        rw [if_pos (beq_iff_eq.mpr hlf)] at hstep
        simp only [Option.some.injEq, Prod.mk.injEq] at hrun
        obtain ⟨rfl, rfl, -⟩ := hrun
        exact hquoted _ (.ends hstep)
      rw [if_neg hlf] at hrun
      rw [if_neg (by simpa using hlf)] at hstep
      by_cases hcr : next = 13 ∧ scan[closing + 2]? = some 10
      · rw [if_pos hcr] at hrun
        have hbehind : input[start + closing + 1 + 1]? = some 10 := by
          rw [← hcr.2]
          exact getElem?_of_scan hsuffix (List.getElem?_eq_some_iff.mp hcr.2).1
        rw [if_pos (by rw [hcr.1, hbehind]; rfl)] at hstep
        simp only [Option.some.injEq, Prod.mk.injEq] at hrun
        obtain ⟨rfl, rfl, -⟩ := hrun
        exact hquoted _ (.ends hstep)
      · rw [if_neg hcr] at hrun
        cases hrun
    · -- an unquoted field
      rw [if_neg hquote] at hrun
      rcases hfind : find3 44 34 10 (scan.drop fieldStart) with _ | relative
      · rw [hfind] at hrun
        simp only at hrun
        split_ifs at hrun with hdeclines
        simp only [Option.some.injEq, Prod.mk.injEq] at hrun
        obtain ⟨rfl, rfl, -⟩ := hrun
        simp only [Bool.or_eq_true, decide_eq_true_eq, not_or, Nat.not_lt] at hdeclines
        rw [if_neg Bool.false_ne_true]
        exact hlast hdeclines.1
      obtain ⟨u, x, v, hl, hlen, hx, hu⟩ := Window.of_findIdx?_some hfind
      have hdrop : input.drop (start + fieldStart) = u ++ (x :: v ++ rest) := by
        rw [drop_of_scan hsuffix hfield, hl]; simp
      have hget : scan[fieldStart + relative]? = some x := Window.getElem?_of_drop hl (by omega)
      have hlt := (List.getElem?_eq_some_iff.mp hget).1
      have hat : byteAt scan (fieldStart + relative) = x := by
        rw [byteAt, List.getD_eq_getElem?_getD, hget]; rfl
      have hbyte : input[start + (fieldStart + relative)]? = some x := by
        rw [← hget]
        exact getElem?_of_scan hsuffix hlt
      obtain ⟨m, hpass⟩ : ∃ m, Leads cfg input start ⟨start + fieldStart, start + fieldStart, false⟩
          ⟨start + fieldStart + u.length, m, false⟩ :=
        leads_line hs hcsv hdrop fun b hb => by
          have := hu b hb
          simp only [Bool.or_eq_false_iff, beq_eq_false_iff_ne] at this
          exact ⟨this.1.2, this.2⟩
      rw [hlen, Nat.add_assoc] at hpass
      rw [hfind] at hrun
      simp only [hat] at hrun
      split_ifs at hrun with hcomma hexceeds hlf hexceeds
      · have hstep : step cfg input start ⟨start + (fieldStart + relative), m, false⟩ = .next
            ⟨start + (fieldStart + relative + 1), start + (fieldStart + relative + 1), false⟩ :=
          step_delimiter hs (by rw [hd]; rfl) (by rw [hbyte, hcomma, hd]; rfl)
        exact hfollow (hpass.trans (Leads.of_step hstep)) (borrowedRecordLoop_frames limits hstart
          hwhole fuel _ (fieldStart + relative + 1) _ (by omega) hrun)
      · simp only [Option.some.injEq, Prod.mk.injEq] at hrun
        obtain ⟨rfl, rfl, -⟩ := hrun
        have hstep := @step_line cfg input start hs hcsv _ m (hlf ▸ hbyte)
        exact hpass _ (.ends hstep)

omit hsuffix in
theorem tryParseDefaultBorrowedRecord_frames (hstart : start ≤ input.length)
    {storage storage' : SpanStorage} {consumed : ℕ} {terminated : Bool}
    (hrun : tryParseDefaultBorrowedRecord cfg input start storage =
      some (consumed, terminated, storage')) :
    if terminated then Stops cfg input start ⟨start, start, false⟩ (start + consumed)
    else start + consumed = input.length := by
  unfold tryParseDefaultBorrowedRecord at hrun
  simp only at hrun
  split_ifs at hrun
  · exact borrowedRecordLoop_frames hs hcsv (List.append_nil (input.drop start)).symm none hstart
      (fun _ => rfl) _ 0 0 storage (Nat.zero_le _) hrun
  · refine borrowedRecordLoop_frames hs hcsv (List.take_append_drop _ _).symm (some cfg.limits)
      hstart (fun hle => ?_) _ 0 0 storage (Nat.zero_le _) hrun
    rw [List.length_take] at hle
    exact List.drop_eq_nil_of_le (by omega)

end default

/-! ## One record -/

/-- `window_settled`: the record that ends at the cursor ends there whatever
    follows the window. -/
def windowSettled (input : Bytes) (e : Engine) : Bool :=
  decide (e.location < input.length) || e.terminated

theorem windowSettled_iff {e : Engine} :
    windowSettled input e = true ↔ e.location < input.length ∨ e.terminated = true := by
  simp [windowSettled]

/-- A record that a kernel of the default dialect takes ends where its frame
    does, if it is settled. -/
theorem tryParseDefaultCsvBorrowed_stops {e : Engine} (hs : cfg.dialect.Sound)
    (hcsv : Csv cfg.toFormatSettings) (hin : e.location ≤ input.length) :
    Ends (fun _ _ => True) (fun taken e' => taken = true → windowSettled input e' = true →
        Stops cfg input e.location ⟨e.location, e.location, false⟩ e'.location)
      (tryParseDefaultCsvBorrowed cfg input e.location e) := by
  unfold tryParseDefaultCsvBorrowed
  rw [get_bind]
  by_cases hprobe : (e.ownedParser.isNone ||
      decide (input.length - e.location < defaultBorrowedProbe)) = true
  · rw [if_pos hprobe]
    exact nofun
  rw [if_neg hprobe]
  rcases hplain : tryParseDefaultBorrowedPlain cfg input e.location e.spans.spans with
    _ | ⟨consumed, spans⟩
  · simp only
    split_ifs
    · exact nofun
    rcases hrecord : tryParseDefaultBorrowedRecord cfg input e.location e.spans with
      _ | ⟨consumed, terminated, spans⟩
    · exact nofun
    · have hframe := tryParseDefaultBorrowedRecord_frames hs hcsv hin hrecord
      rintro - hsettled
      rcases windowSettled_iff.mp hsettled with hlt | hterminated
      · have hlt' : e.location + consumed < input.length := hlt
        split_ifs at hframe
        · exact hframe
        · omega
      · have hterminated' : terminated = true := hterminated
        rw [if_pos hterminated'] at hframe
        exact hframe
  · have hstops := plainBlocks_stops hs hcsv hplain
    simp only
    rw [set_bind]
    obtain ⟨l, u, hfold⟩ := foldPlainRecordTerminator_apply
      (e := e.parsed (e.location + consumed) { e.spans with spans }
        (e.terminated || e.location + consumed == input.length)) e.location true 10
    have hrun := bind_ok (f := fun _ => (pure true : Parse Bool)) hfold
    refine (congrArg (Ends _ _) hrun).mpr ?_
    exact fun _ _ => hstops

section record

variable (hs : cfg.dialect.Sound) (hF : cfg.Follows F) (hspace : cfg.SpacesPlain)
  (hkernel : KernelSound cfg F) {e : Engine} {check : Bool}
  (howned : e.ownedParser = ownedParserFor cfg check)

include hs hF hspace hkernel howned

/-- **A settled record** ends where its frame does. -/
theorem parseRecord_stops (header : Bool) (hin : e.location ≤ input.length) :
    Ends (fun _ _ => True) (fun _ e' => windowSettled input e' = true →
        Stops cfg input e.location ⟨e.location, e.location, false⟩ e'.location)
      (parseRecord cfg F input e.location header e) := by
  rcases htakes : kernelTakes cfg F input e.location e with _ | _
  · rw [parseRecord_general header htakes]
    refine (generalRecord_frames hs hF hspace hkernel header hin).mono (fun _ _ h => h) ?_
    rintro _ e' (⟨-, hstops⟩ | ⟨hopen, hend⟩) hsettled
    · exact hstops
    · unfold windowSettled at hsettled
      rw [hopen, hend, decide_eq_false (Nat.lt_irrefl _)] at hsettled
      cases hsettled
  · have hd : Default cfg F := by
      have h := htakes
      unfold kernelTakes accepts at h
      simp only [Bool.and_eq_true, Bool.not_eq_true', Bool.or_eq_false_iff] at h
      exact default_of_owned hF h.2.1.2 (howned ▸ h.2.2.1.1)
    obtain ⟨e₁, hrun, -, -⟩ := tryParseDefaultCsvBorrowed_accepts cfg input e.location e
    have hstops := tryParseDefaultCsvBorrowed_stops hs hd.csv hin
    unfold kernelTakes at htakes
    simp only [Bool.and_eq_true] at htakes
    obtain ⟨hcandidate, hformat, haccepts⟩ := htakes
    rw [haccepts] at hrun
    rw [hrun] at hstops
    have hplain : tryParseBorrowedPlain cfg F input e.location e = .ok true e₁ := by
      unfold tryParseBorrowedPlain
      rw [if_pos (by rw [hformat.1, hformat.2]; rfl), bind_ok hrun]
      rfl
    unfold parseRecord
    rw [if_pos hcandidate, bind_ok hplain, hd.follows.dialect, hd.follows.nulls, hd.csv.dialect,
      hd.csv.nulls]
    show Ends _ _ (validateFieldCount cfg input e₁.spans.len e₁)
    unfold validateFieldCount
    rw [get_bind, hd.fieldCount]
    exact hstops rfl

end record

end Engine

end Coseva
