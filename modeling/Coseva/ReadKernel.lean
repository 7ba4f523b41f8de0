/-
  Coseva — the kernels of the default dialect, and the dispatch of a record.

  * `borrowedPlainBlocks_reads`: the kernel over blocks of 32 bytes;
  * `borrowedRecordLoop_reads`: the kernel that knows quotes;
  * `parseRecord_reads`: the record as the engine dispatches it.
-/
import Coseva.ReadRecord

namespace Coseva

namespace Engine

open Run SpanStorage

variable {cfg : ParserSettings} {F : CsvFormat} {input : Bytes} {e : Engine}

/-! ## Masks -/

theorem maskOf_append (byte : UInt8) (u v : Bytes) :
    maskOf byte (u ++ v) = maskOf byte u ++ (maskOf byte v).map (· + u.length) := by
  unfold maskOf
  rw [List.length_append, List.range_add, List.filter_append, List.filter_map]
  congr 1
  · refine List.filter_congr fun i hi => ?_
    rw [List.getElem?_append_left (List.mem_range.mp hi)]
  · simp only [Nat.add_comm u.length]
    congr 1
    refine List.filter_congr fun i _ => ?_
    simp [List.getElem?_append_right]

theorem mem_maskOf {byte : UInt8} {block : Bytes} {i : ℕ} :
    i ∈ maskOf byte block ↔ block[i]? = some byte := by
  simp only [maskOf, List.mem_filter, List.mem_range, beq_iff_eq, and_iff_right_iff_imp]
  exact fun h => (List.getElem?_eq_some_iff.mp h).1

theorem maskOf_eq_nil {byte : UInt8} {block : Bytes} : maskOf byte block = [] ↔ byte ∉ block := by
  rw [List.eq_nil_iff_forall_not_mem, List.mem_iff_getElem?]
  simp [mem_maskOf]

theorem maskOf_cons_self (byte : UInt8) (block : Bytes) :
    (maskOf byte (byte :: block)).head? = some 0 := by
  rw [← List.singleton_append, maskOf_append]
  simp [maskOf]

/-- Without a line feed every bit counts. -/
theorem before_none {byte : UInt8} {block : Bytes} (h : 10 ∉ block) :
    (maskOf byte block).before (maskOf 10 block) = maskOf byte block := by
  rw [maskOf_eq_nil.mpr h]
  simp [Mask.before]

/-- Up to the first line feed the bits of the text in front of it count. -/
theorem before_some {byte : UInt8} {u v : Bytes} (h : 10 ∉ u) :
    (maskOf 10 (u ++ 10 :: v)).head? = some u.length ∧
      (maskOf byte (u ++ 10 :: v)).before (maskOf 10 (u ++ 10 :: v)) = maskOf byte u := by
  have hhead : (maskOf 10 (u ++ 10 :: v)).head? = some u.length := by
    rw [maskOf_append, maskOf_eq_nil.mpr h, List.nil_append, List.head?_map, maskOf_cons_self]
    simp
  refine ⟨hhead, ?_⟩
  unfold Mask.before
  rw [hhead, maskOf_append, List.filter_append]
  have h1 : (maskOf byte u).filter (fun i => (some u.length).all fun b => decide (i < b)) =
      maskOf byte u := by
    refine List.filter_eq_self.mpr fun i hi => ?_
    have := (List.getElem?_eq_some_iff.mp (mem_maskOf.mp hi)).1
    simp [this]
  have h2 : ((maskOf byte (10 :: v)).map (· + u.length)).filter
      (fun i => (some u.length).all fun b => decide (i < b)) = [] := by
    rw [List.filter_eq_nil_iff]
    intro i hi
    obtain ⟨j, -, rfl⟩ := List.mem_map.mp hi
    simp
  rw [h1, h2, List.append_nil]

/-! ## The line as the kernels cut it -/

/-- The fields of a line, each in front of a comma, and where the last one
    starts. -/
def cutCommas : (start pos : ℕ) → Bytes → List Span × ℕ
  | start, _, [] => ([], start)
  | start, pos, b :: line =>
    if b = 44 then
      let (spans, last) := cutCommas (pos + 1) (pos + 1) line
      (inputSpan start pos :: spans, last)
    else cutCommas start (pos + 1) line

theorem cutCommas_append (v : Bytes) :
    ∀ (start pos : ℕ) (u : Bytes), cutCommas start pos (u ++ v) =
      ((cutCommas start pos u).1 ++ (cutCommas (cutCommas start pos u).2 (pos + u.length) v).1,
        (cutCommas (cutCommas start pos u).2 (pos + u.length) v).2)
  | _, _, [] => rfl
  | start, pos, b :: u => by
    have hlen : pos + (b :: u).length = pos + 1 + u.length := by simp; omega
    simp only [List.cons_append, cutCommas, hlen]
    split
    · simp [cutCommas_append v (pos + 1) (pos + 1) u]
    · exact cutCommas_append v start (pos + 1) u

theorem cutCommas_bare (start : ℕ) :
    ∀ (pos : ℕ) {u : Bytes}, 44 ∉ u → cutCommas start pos u = ([], start)
  | _, [], _ => rfl
  | pos, b :: u, h => by
    have hb : b ≠ 44 := fun hb => h (hb ▸ List.mem_cons_self)
    rw [cutCommas, if_neg hb]
    exact cutCommas_bare start (pos + 1) fun hm => h (List.mem_cons_of_mem b hm)

/-- One separator of a block that starts at `base`. -/
def cutAt (base : ℕ) (cut : ℕ × List Span) (separator : ℕ) : ℕ × List Span :=
  (base + separator + 1, cut.2 ++ [inputSpan cut.1 (base + separator)])

/-- The separators of a block cut it. -/
theorem separators_foldl : ∀ (u : Bytes) (base start : ℕ) (spans : List Span),
    (maskOf 44 u).foldl (cutAt base) (start, spans) =
      ((cutCommas start base u).2, spans ++ (cutCommas start base u).1)
  | [], base, start, spans => by simp [maskOf, cutCommas]
  | b :: u, base, start, spans => by
    have hshift : (fun cut separator => cutAt base cut (separator + 1)) = cutAt (base + 1) := by
      funext cut separator
      simp only [cutAt, Nat.add_assoc, Nat.add_comm 1]
    rw [← List.singleton_append, maskOf_append, List.foldl_append, List.foldl_map,
      List.length_singleton, hshift, List.singleton_append, cutCommas]
    by_cases hb : b = 44
    · have hm : maskOf 44 [b] = [0] := by simp [maskOf, hb]
      rw [hm, List.foldl_cons, List.foldl_nil, cutAt, separators_foldl u, if_pos hb]
      simp
    · have hm : maskOf 44 [b] = [] := by simp [maskOf, hb]
      rw [hm, List.foldl_nil, separators_foldl u, if_neg hb]

/-- **The block kernel** cuts the line in front of the first line feed, when it
    has no quote. -/
theorem borrowedPlainBlocks_reads (recordStart : ℕ) :
    ∀ (fuel consumed fieldStart : ℕ) (spans : List Span) (w v : Bytes), 10 ∉ w →
      input.drop (recordStart + consumed) = w ++ 10 :: v →
      borrowedPlainBlocks input recordStart fuel consumed fieldStart spans = none ∨
        34 ∉ w ∧ borrowedPlainBlocks input recordStart fuel consumed fieldStart spans =
          some (consumed + w.length + 1,
            spans ++ (cutCommas fieldStart (recordStart + consumed) w).1 ++
              [inputSpan (cutCommas fieldStart (recordStart + consumed) w).2
                (stripCr input (cutCommas fieldStart (recordStart + consumed) w).2
                  (recordStart + consumed + w.length))]) := by
  intro fuel
  induction fuel with
  | zero => intro _ _ _ _ _ _ _; exact Or.inl rfl
  | succ fuel ih =>
    intro consumed fieldStart spans w v hw hdrop
    have hfold : (fun (cut : ℕ × List Span) separator => (recordStart + consumed + separator + 1,
        cut.2 ++ [inputSpan cut.1 (recordStart + consumed + separator)])) =
        cutAt (recordStart + consumed) := rfl
    rw [borrowedPlainBlocks]
    simp only [hdrop, hfold]
    split
    · exact Or.inl rfl
    rename_i hblock
    by_cases hlong : w.length < 32
    · -- the line feed is in this block
      have hb : (w ++ 10 :: v).take 32 = w ++ 10 :: v.take (31 - w.length) := by
        rw [List.take_append, List.take_of_length_le (by omega)]
        congr 1
        obtain ⟨n, hn⟩ : ∃ n, 32 - w.length = n + 1 := ⟨31 - w.length, by omega⟩
        rw [hn, List.take_succ_cons]
        congr 2; omega
      rw [hb]
      obtain ⟨hhead, hquotes⟩ := @before_some 34 w (v.take (31 - w.length)) hw
      obtain ⟨-, hcommas⟩ := @before_some 44 w (v.take (31 - w.length)) hw
      rw [hquotes, hcommas, hhead, separators_foldl]
      split
      · exact Or.inl rfl
      · rename_i hq
        exact Or.inr ⟨maskOf_eq_nil.mp (by simpa using hq), rfl⟩
    · -- the line goes on behind it
      have hb : (w ++ 10 :: v).take 32 = w.take 32 := by
        rw [List.take_append_of_le_length (by omega)]
      have hsplit : w = w.take 32 ++ w.drop 32 := (List.take_append_drop 32 w).symm
      have hno : 10 ∉ w.take 32 := fun h => hw (List.mem_of_mem_take h)
      rw [hb, before_none hno, before_none hno, separators_foldl, maskOf_eq_nil.mpr hno]
      split
      · exact Or.inl rfl
      rename_i hq
      have hd : input.drop (recordStart + (consumed + 32)) = w.drop 32 ++ 10 :: v :=
        Window.drop_of_drop (u := w.take 32) (by rw [hdrop, ← List.append_assoc, ← hsplit])
          (by simp; omega)
      have hlen : (w.take 32).length = 32 := by simp; omega
      have hcut := cutCommas_append (w.drop 32) fieldStart (recordStart + consumed) (w.take 32)
      rw [← hsplit, hlen] at hcut
      simp only [List.head?_nil]
      rcases ih (consumed + 32) (cutCommas fieldStart (recordStart + consumed) (w.take 32)).2
        (spans ++ (cutCommas fieldStart (recordStart + consumed) (w.take 32)).1) (w.drop 32) v
        (fun h => hw (List.mem_of_mem_drop h)) hd with hnone | ⟨hq', hsome⟩
      · exact Or.inl hnone
      · refine Or.inr ⟨fun h => ?_, ?_⟩
        · rw [hsplit] at h
          rcases List.mem_append.mp h with h | h
          · exact maskOf_eq_nil.mp (by simpa using hq) h
          · exact hq' h
        · rw [hsome, hcut]
          have h1 : recordStart + (consumed + 32) = recordStart + consumed + 32 := by omega
          have h2 : consumed + 32 + (w.drop 32).length + 1 = consumed + w.length + 1 := by
            simp; omega
          have h3 : recordStart + consumed + 32 + (w.drop 32).length =
              recordStart + consumed + w.length := by simp; omega
          rw [h2, h1, h3, List.append_assoc spans]

/-! ## A spelled record of the default dialect -/

/-- The settings that the kernels are made for. -/
structure Csv (o : FormatSettings) : Prop where
  dialect : o.dialect = .csv
  syntax' : o.syntax' = .strict
  nulls : o.nulls = .none

namespace Csv

variable {o : FormatSettings} (hcsv : Csv o)

include hcsv

theorem endingText : o.dialect.endingText = [10] := by rw [hcsv.dialect]; rfl

theorem delimiterText : o.dialect.delimiterText = [44] := by rw [hcsv.dialect]; rfl

/-- A field of the default dialect. -/
theorem field_cases {after text : Bytes} {f : Field} (hf : FieldSpells o after text f) :
    (∃ content, text = 34 :: Append.substAll (quotedSpecial .csv) (quotedEscape .csv) content ++ [34]
        ∧ f = ⟨content, false⟩) ∨
      (∀ b ∈ text, b ≠ 44 ∧ b ≠ 10 ∧ b ≠ 34) ∧ f = ⟨text, false⟩ := by
  cases hf with
  | quoted hen htext =>
    rw [hcsv.dialect] at htext
    exact Or.inl ⟨_, (Except.ok.inj htext).symm, rfl⟩
  | unquoted hraw hquote =>
    have hclean := hraw.clean (by rw [hcsv.dialect]; rfl) (List.append_nil text).symm
      (by rw [hcsv.dialect]; simp [Dialect.csv, Escape.unquotedByte])
    refine Or.inr ⟨fun b hb => ?_, ?_⟩
    · obtain ⟨h1, h2, h3, -⟩ := hclean b hb
      rw [hcsv.dialect] at h1 h2 h3
      exact ⟨h1, h2, h3 (by rw [hcsv.syntax']; rfl)⟩
    · unfold unquotedField
      simp [hcsv.nulls, hcsv.dialect, rawFieldIsNull, Dialect.csv, Escape.unquotedByte]

end Csv

/-- A text that begins with a quote has one in its first line. -/
theorem exists_quoted_line {l : Bytes} (hq : l.head? = some 34) (h : 10 ∈ l) :
    ∃ w v, l = w ++ 10 :: v ∧ 10 ∉ w ∧ 34 ∈ w := by
  obtain ⟨w, v, rfl, hw⟩ := List.eq_append_cons_of_mem h
  refine ⟨w, v, rfl, hw, ?_⟩
  cases w with
  | nil => cases hq
  | cons b w =>
    rw [List.cons_append, List.head?_cons, Option.some.injEq] at hq
    exact hq ▸ List.mem_cons_self

/-- A bare field of the input is pushed. -/
theorem Holds.push_bare {s : SpanStorage} {before : List Field} {text after : Bytes} {pos : ℕ}
    (h : Holds .none input s before) (hdrop : input.drop pos = text ++ after) :
    Holds .none input (s.push (inputSpan pos (pos + text.length))) (before ++ [⟨text, false⟩]) := by
  have htext : slice input pos (pos + text.length) = text := Window.drop_take_of_drop hdrop rfl
  refine h.push ⟨h.1.push_input _ _ _ _, _, entries_push_input _ _ _ _ _ _, ?_⟩
  rw [htext, Entry.mark_none]; rfl

/-- The line of a spelled record has a quote, or else its fields are those
    between its commas. -/
theorem csv_line (input : Bytes) {o : FormatSettings} (hcsv : Csv o) {rest text : Bytes} {fs : List Field}
    (h : FieldsSpell o rest text fs) : ∃ w v, text ++ rest = w ++ 10 :: v ∧ 10 ∉ w ∧
      (34 ∈ w ∨ text = w ++ [10] ∧
        ∀ {pos : ℕ} {s : SpanStorage} {before : List Field}, input.drop pos = text ++ rest →
          Holds .none input s before →
          Holds .none input { s with
            spans := s.spans ++ (cutCommas pos pos w).1 ++ [inputSpan (cutCommas pos pos w).2
              (stripCr input (cutCommas pos pos w).2 (pos + w.length))] } (before ++ fs)) := by
  induction h with
  | @last text f hf hcr hend =>
    rw [hcsv.endingText]
    rcases hcsv.field_cases hf with ⟨content, rfl, rfl⟩ | ⟨hclean, rfl⟩
    · obtain ⟨w, v, hsplit, hw, hq⟩ := exists_quoted_line (l := 34 :: Append.substAll
        (quotedSpecial .csv) (quotedEscape .csv) content ++ [34] ++ [10] ++ rest) rfl (by simp)
      exact ⟨w, v, hsplit, hw, Or.inl hq⟩
    · refine ⟨text, rest, by simp, fun h => (hclean 10 h).2.1 rfl, Or.inr ⟨rfl, ?_⟩⟩
      intro pos s before hdrop hold
      rw [List.append_assoc] at hdrop
      have hhead : text.head? ≠ some o.dialect.quote := by
        rw [hcsv.dialect]
        exact fun h => (hclean 34 (List.mem_of_head? h)).2.2 rfl
      have hlast := hcr (by rw [hcsv.dialect]; rfl) fun _ => hhead
      rw [cutCommas_bare pos pos fun h => (hclean 44 h).1 rfl, List.append_nil,
        stripCr_eq hdrop hlast]
      exact hold.push_bare hdrop
  | @more text tail f fs hf hsep hfs ih =>
    rw [hcsv.delimiterText]
    obtain ⟨w, v, hsplit, hw, hline⟩ := ih
    have htext : text ++ [44] ++ tail ++ rest = text ++ 44 :: w ++ 10 :: v := by
      rw [List.append_assoc _ tail, hsplit]; simp
    rcases hcsv.field_cases hf with ⟨content, rfl, rfl⟩ | ⟨hclean, rfl⟩
    · obtain ⟨w', v', hsplit', hw', hq⟩ := exists_quoted_line (l := 34 :: Append.substAll
        (quotedSpecial .csv) (quotedEscape .csv) content ++ [34] ++ [44] ++ tail ++ rest) rfl
        (by rw [htext]; simp)
      exact ⟨w', v', hsplit', hw', Or.inl hq⟩
    · refine ⟨text ++ 44 :: w, v, htext, ?_, ?_⟩
      · simp only [List.mem_append, List.mem_cons, not_or]
        exact ⟨fun h => (hclean 10 h).2.1 rfl, by decide, hw⟩
      rcases hline with hq | ⟨rfl, hline⟩
      · exact Or.inl (by simp [hq])
      refine Or.inr ⟨by simp, ?_⟩
      intro pos s before hdrop hold
      have hdrop' : input.drop pos = text ++ (44 :: (w ++ [10] ++ rest)) := by
        rw [hdrop]; simp
      have hdropw : input.drop (pos + text.length + 1) = w ++ [10] ++ rest :=
        Window.drop_of_drop (u := text ++ [44]) (by rw [hdrop']; simp) (by simp; omega)
      have hnext := hline hdropw (hold.push_bare hdrop')
      have hcut : cutCommas pos pos (text ++ 44 :: w) =
          (inputSpan pos (pos + text.length) ::
            (cutCommas (pos + text.length + 1) (pos + text.length + 1) w).1,
            (cutCommas (pos + text.length + 1) (pos + text.length + 1) w).2) := by
        rw [cutCommas_append, cutCommas_bare pos pos fun h => (hclean 44 h).1 rfl]
        simp [cutCommas]
      have hlen : pos + (text ++ 44 :: w).length = pos + text.length + 1 + w.length := by
        simp; omega
      rw [hcut, hlen]
      simpa [push] using hnext

/-! ### The kernel that knows quotes -/

/-- The content of a quoted field, doubled quotes and all. -/
def doubled (content : Bytes) : Bytes :=
  Append.substAll (quotedSpecial .csv) (quotedEscape .csv) content

theorem doubled_of_not_mem {content : Bytes} (h : ∀ b ∈ content, quotedSpecial .csv b = false) :
    doubled content = content := Append.substAll_of_none h

theorem doubled_split {u v : Bytes} {x : UInt8} (hu : ∀ b ∈ u, quotedSpecial .csv b = false)
    (hx : quotedSpecial .csv x = true) :
    doubled (u ++ x :: v) = u ++ 34 :: 34 :: doubled v := by
  unfold doubled
  rw [Append.substAll_append, Append.substAll_cons, if_pos hx, Append.substAll_of_none hu]
  rfl

/-- The closing quote of a field, where the last segment starts and what was
    copied before it. -/
theorem borrowedClosing_reads {scan v : Bytes} {b : UInt8} (hb : b ≠ 34) :
    ∀ (fuel : ℕ) (content : Bytes) (cursor : ℕ) (scratch : Bytes),
      scan.drop cursor = doubled content ++ 34 :: b :: v →
      borrowedClosing scan fuel cursor cursor scratch = none ∨
        ∃ segment added, borrowedClosing scan fuel cursor cursor scratch =
            some (cursor + (doubled content).length, segment, scratch ++ added) ∧
          segment ≤ cursor + (doubled content).length ∧
          added ++ slice scan segment (cursor + (doubled content).length) = content ∧
          (added = [] → segment = cursor) := by
  intro fuel
  induction fuel with
  | zero => intro _ _ _ _; exact Or.inl rfl
  | succ fuel ih =>
    intro content cursor scratch hdrop
    rw [borrowedClosing]
    have hfind : ∀ {u w : Bytes}, (∀ y ∈ u, quotedSpecial .csv y = false) →
        find1 34 (u ++ 34 :: w) = some u.length := by
      intro u w hu
      exact Window.findIdx?_append_cons (fun y hy => hu y hy) (by simp)
    rcases quotedSplit .csv content with hnone | ⟨u, x, w, rfl, hx, hu⟩
    · rw [doubled_of_not_mem hnone] at hdrop ⊢
      have hnext : scan[cursor + content.length + 1]? = some b :=
        Window.getElem?_of_drop (u := content ++ [34]) (v := v) (by rw [hdrop]; simp)
          (by simp; omega)
      rw [hdrop, hfind hnone]
      simp only [hnext]
      rw [if_pos (by simpa using hb)]
      refine Or.inr ⟨cursor, [], by simp, by omega, ?_, fun _ => rfl⟩
      exact Window.drop_take_of_drop hdrop rfl
    · rw [doubled_split hu hx] at hdrop ⊢
      have hx' : x = 34 := by simpa [quotedSpecial, Dialect.csv] using hx
      have hdrop' : scan.drop cursor = u ++ 34 :: (34 :: doubled w ++ 34 :: b :: v) := by
        rw [hdrop]; simp
      have hd : scan.drop (cursor + u.length + 2) = doubled w ++ 34 :: b :: v :=
        Window.drop_of_drop (u := u ++ [34, 34]) (by rw [hdrop]; simp) (by simp; omega)
      have hnext : scan[cursor + u.length + 1]? = some 34 :=
        Window.getElem?_of_drop (u := u ++ [34]) (v := doubled w ++ 34 :: b :: v)
          (by rw [hdrop']; simp) (by simp; omega)
      have hseg : slice scan cursor (cursor + u.length) = u := Window.drop_take_of_drop hdrop' rfl
      have hlen : cursor + (u ++ 34 :: 34 :: doubled w).length =
          cursor + u.length + 2 + (doubled w).length := by simp; omega
      rw [hdrop', hfind hu, hlen]
      simp only [hnext]
      rw [if_neg (by simp), hseg]
      rcases ih w (cursor + u.length + 2) (scratch ++ u ++ [34]) hd with
        hnone | ⟨segment, added, hrun, hle, hcontent, -⟩
      · exact Or.inl hnone
      · refine Or.inr ⟨segment, u ++ [34] ++ added, by rw [hrun]; simp, hle, ?_, by simp⟩
        rw [List.append_assoc, hcontent, hx']; simp

theorem slice_drop (recordStart a b : ℕ) :
    slice (input.drop recordStart) a b = slice input (recordStart + a) (recordStart + b) := by
  rw [slice, slice, List.take_drop, List.drop_drop]

/-- The field between quotes is pushed. -/
theorem borrowedQuotedSpan_pushes {recordStart fieldStart segment : ℕ} {s : SpanStorage}
    {content added : Bytes} {closing : ℕ}
    (hw : s.Within) (hle : segment ≤ closing) (hclosing : closing ≤ (input.drop recordStart).length)
    (hcontent : added ++ slice (input.drop recordStart) segment closing = content)
    (hsegment : added = [] → segment = fieldStart + 1) :
    Pushes .none input s (borrowedQuotedSpan (input.drop recordStart) recordStart fieldStart closing
      segment (s.scratch ++ added) s) ⟨content, false⟩ := by
  unfold borrowedQuotedSpan
  by_cases hadded : added = []
  · subst hadded
    obtain rfl := hsegment rfl
    rw [if_neg (by simp)]
    refine ⟨hw.push_input _ _ _ _, _, entries_push_input _ _ _ _ _ _, ?_⟩
    rw [slice_drop, List.nil_append] at hcontent
    rw [Entry.mark_none, ← hcontent]; rfl
  · rw [if_pos (by simpa using hadded)]
    have hlen : s.scratch.length + content.length =
        (s.scratch ++ added).length + (closing - segment) := by
      rw [← hcontent]
      simp only [List.length_append, slice, List.length_drop, List.length_take] at hclosing ⊢
      omega
    have hs : (⟨s.spans, s.scratch ++ added ++
        slice (input.drop recordStart) segment closing⟩ : SpanStorage) =
        s.extendScratch content := by
      rw [← hcontent]; simp [SpanStorage.extendScratch]
    rw [hs, ← hlen]
    refine ⟨hw.push_scratch _ _, _, entries_push_scratch hw _ _ _, ?_⟩
    rw [Entry.mark_none]; rfl

/-- One field: the kernel declines, or pushes it and looks at what ends it. -/
theorem borrowedRecordLoop_field {o : FormatSettings} (hcsv : Csv o) {after text v : Bytes}
    {f : Field} {b : UInt8} (hf : FieldSpells o after text f) (hb : b = 44 ∨ b = 10)
    (hcr : b = 10 → CrFree o text) (limits : Option Limits) (recordStart fuel fieldsAdded : ℕ)
    {fieldStart : ℕ} {s : SpanStorage} {before : List Field}
    (hdrop : (input.drop recordStart).drop fieldStart = text ++ b :: v)
    (hold : Holds .none input s before) :
    borrowedRecordLoop limits (input.drop recordStart) (input.drop recordStart) recordStart
        (fuel + 1) fieldsAdded fieldStart s = none ∨
      ∃ s', Holds .none input s' (before ++ [f]) ∧
        borrowedRecordLoop limits (input.drop recordStart) (input.drop recordStart) recordStart
          (fuel + 1) fieldsAdded fieldStart s =
        if b = 44 then
          borrowedRecordLoop limits (input.drop recordStart) (input.drop recordStart) recordStart
            fuel (fieldsAdded + 1) (fieldStart + text.length + 1) s'
        else some (fieldStart + text.length + 1, true, s') := by
  generalize hscan : input.drop recordStart = scan at hdrop ⊢
  have hlt : fieldStart + text.length < scan.length :=
    Window.lt_length_of_drop (Window.drop_of_drop hdrop rfl)
  have hhead : scan[fieldStart]? = (text ++ b :: v).head? := by rw [← hdrop, List.head?_drop]
  rw [borrowedRecordLoop]
  simp only
  split
  · exact Or.inl rfl
  rw [if_neg (by omega), hhead]
  rcases hcsv.field_cases hf with ⟨content, rfl, rfl⟩ | ⟨hclean, rfl⟩
  · -- a quoted field
    rw [if_pos (by simp)]
    have hcontent : scan.drop (fieldStart + 1) = doubled content ++ 34 :: b :: v :=
      Window.drop_of_drop (u := [34]) (by rw [hdrop]; simp [doubled]) rfl
    have hne : b ≠ 34 := by rcases hb with rfl | rfl <;> decide
    rcases borrowedClosing_reads hne (scan.length + 1) content (fieldStart + 1) s.scratch hcontent
      with hnone | ⟨segment, added, hrun, hle, htext, hseg⟩
    · rw [hnone]; exact Or.inl rfl
    rw [hrun]
    simp only
    split
    · exact Or.inl rfl
    have hnext : scan[fieldStart + 1 + (doubled content).length + 1]? = some b :=
      Window.getElem?_of_drop (u := doubled content ++ [34]) (v := v) (by rw [hcontent]; simp)
        (by simp; omega)
    have hlen : (34 :: Append.substAll (quotedSpecial .csv) (quotedEscape .csv) content ++
        [34]).length = (doubled content).length + 2 := by simp [doubled]
    rw [hlen] at hlt ⊢
    have hpush := @borrowedQuotedSpan_pushes input recordStart fieldStart segment s content added
      (fieldStart + 1 + (doubled content).length) hold.1 hle (by rw [hscan]; omega)
      (by rw [hscan]; exact htext) hseg
    rw [hscan] at hpush
    refine Or.inr ⟨_, hold.push hpush, ?_⟩
    rw [hnext]
    rcases hb with rfl | rfl
    · simp only [if_true]
      congr 1; omega
    · simp only [if_true, show ((10 : UInt8) = 44) = False by decide, if_false]
      congr 2; omega
  · -- a bare field
    have hq : (text ++ b :: v).head? ≠ some 34 := by
      cases text with
      | nil => rcases hb with rfl | rfl <;> simp
      | cons c t =>
        simpa using (hclean c List.mem_cons_self).2.2
    have hfind : find3 44 34 10 (text ++ b :: v) = some text.length := by
      refine Window.findIdx?_append_cons (fun y hy => ?_) ?_
      · obtain ⟨h1, h2, h3⟩ := hclean y hy
        simp [h1, h2, h3]
      · rcases hb with rfl | rfl <;> rfl
    have hbyte : byteAt scan (fieldStart + text.length) = b := byteAt_of_drop hdrop rfl
    have hdrop' : input.drop (recordStart + fieldStart) = text ++ b :: v := by
      rw [← List.drop_drop, hscan, hdrop]
    have hpush := hold.push_bare hdrop'
    rw [if_neg hq, hdrop, hfind]
    simp only [hbyte]
    rcases hb with rfl | rfl
    · simp only [if_true]
      split
      · exact Or.inl rfl
      · refine Or.inr ⟨_, hpush, ?_⟩
        rw [Nat.add_assoc recordStart]
    · have hhead' : text.head? ≠ some o.dialect.quote := by
        rw [hcsv.dialect]
        exact fun h => (hclean 34 (List.mem_of_head? h)).2.2 rfl
      have hlast := hcr rfl (by rw [hcsv.dialect]; rfl) fun _ => hhead'
      simp only [show ((10 : UInt8) = 44) = False by decide, if_false, if_true,
        stripCr_eq hdrop hlast]
      split
      · exact Or.inl rfl
      · refine Or.inr ⟨_, hpush, ?_⟩
        rw [Nat.add_assoc recordStart]

/-- **The kernel that knows quotes** declines a spelled record or reads it. -/
theorem borrowedRecordLoop_reads {o : FormatSettings} (hcsv : Csv o) {rest text : Bytes}
    {fs : List Field} (h : FieldsSpell o rest text fs) (limits : Option Limits) (recordStart : ℕ) :
    ∀ (fuel fieldsAdded fieldStart : ℕ) (s : SpanStorage) (before : List Field),
      (input.drop recordStart).drop fieldStart = text ++ rest → Holds .none input s before →
      borrowedRecordLoop limits (input.drop recordStart) (input.drop recordStart) recordStart
          fuel fieldsAdded fieldStart s = none ∨
        ∃ s', borrowedRecordLoop limits (input.drop recordStart) (input.drop recordStart)
            recordStart fuel fieldsAdded fieldStart s =
            some (fieldStart + text.length, true, s') ∧ Holds .none input s' (before ++ fs) := by
  induction h with
  | @last text f hf hcr hend =>
    intro fuel fieldsAdded fieldStart s before hdrop hold
    cases fuel with
    | zero => exact Or.inl rfl
    | succ fuel =>
      rw [hcsv.endingText] at hdrop ⊢
      rcases borrowedRecordLoop_field hcsv hf (Or.inr rfl) (fun _ => hcr) limits recordStart fuel
        fieldsAdded (v := rest) (by rw [hdrop]; simp) hold with hnone | ⟨s', hs', hrun⟩
      · exact Or.inl hnone
      · refine Or.inr ⟨s', ?_, hs'⟩
        rw [hrun, if_neg (by decide), List.length_append]; rfl
  | @more text tail f fs hf hsep hfs ih =>
    intro fuel fieldsAdded fieldStart s before hdrop hold
    cases fuel with
    | zero => exact Or.inl rfl
    | succ fuel =>
      rw [hcsv.delimiterText] at hdrop ⊢
      have hdrop' : (input.drop recordStart).drop fieldStart = text ++ 44 :: (tail ++ rest) := by
        rw [hdrop]; simp
      rcases borrowedRecordLoop_field hcsv hf (Or.inl rfl) (fun h => absurd h (by decide)) limits recordStart fuel
        fieldsAdded hdrop' hold with hnone | ⟨s', hs', hrun⟩
      · exact Or.inl hnone
      rw [if_pos rfl] at hrun
      have htail : (input.drop recordStart).drop (fieldStart + text.length + 1) = tail ++ rest :=
        Window.drop_of_drop (u := text ++ [44]) (by rw [hdrop']; simp) (by simp; omega)
      rcases ih fuel (fieldsAdded + 1) (fieldStart + text.length + 1) s' (before ++ [f]) htail hs'
        with hnone | ⟨s'', hrun', hs''⟩
      · exact Or.inl (by rw [hrun, hnone])
      · refine Or.inr ⟨s'', ?_, by simpa using hs''⟩
        rw [hrun, hrun', List.length_append, List.length_append, List.length_singleton]
        congr 2; omega

/-! ## The dispatch of a record -/

theorem foldPlainRecordTerminator_apply (recordStart : ℕ) (terminated : Bool) (terminator : UInt8) :
    ∃ l u, foldPlainRecordTerminator recordStart terminated terminator e =
      .ok () (e.folded l u) := by
  unfold foldPlainRecordTerminator
  simp only [modify_apply]
  split
  · exact ⟨e.foldedLines, e.foldedUpto, rfl⟩
  · exact ⟨_, _, rfl⟩

section

variable {rest text : Bytes} {fs : List Field} {recordStart : ℕ}

/-- The kernels of the default dialect. -/
theorem tryParseDefaultCsvBorrowed_reads (hfit : cfg.limits.Fits input.length)
    (hcsv : Csv cfg.toFormatSettings) (h : FieldsSpell cfg.toFormatSettings rest text fs)
    (hdrop : input.drop recordStart = text ++ rest) (hspans : e.spans = .empty) :
    tryParseDefaultCsvBorrowed cfg input recordStart e = .ok false e ∨
      ∃ s t l u, tryParseDefaultCsvBorrowed cfg input recordStart e =
          .ok true ((e.parsed (recordStart + text.length) s t).folded l u) ∧
        Holds .none input s fs := by
  have hempty : Holds .none input e.spans [] := by rw [hspans]; exact holds_empty _ _
  have hscan : (input.drop recordStart).take cfg.limits.maxRecordBytes =
      input.drop recordStart := by
    have := hfit.record
    exact List.take_of_length_le (by simp; omega)
  unfold tryParseDefaultCsvBorrowed
  rw [get_bind]
  split
  · exact Or.inl rfl
  -- the kernel over blocks
  have hplain : tryParseDefaultBorrowedPlain cfg input recordStart e.spans.spans = none ∨
      ∃ spans, tryParseDefaultBorrowedPlain cfg input recordStart e.spans.spans =
          some (text.length, spans) ∧ Holds .none input { e.spans with spans } fs := by
    unfold tryParseDefaultBorrowedPlain
    split
    swap
    · exact Or.inl rfl
    obtain ⟨w, v, hsplit, hw, hline⟩ := csv_line input hcsv h
    rcases borrowedPlainBlocks_reads recordStart maxBatchedBlocks 0 recordStart e.spans.spans w v hw
      (by rw [Nat.add_zero, hdrop, hsplit]) with hnone | ⟨hq, hsome⟩
    · exact Or.inl hnone
    rcases hline with hq' | ⟨rfl, hline⟩
    · exact absurd hq' hq
    refine Or.inr ⟨_, ?_, hline hdrop hempty⟩
    rw [hsome]
    simp
  rcases hplain with hnone | ⟨spans, hsome, hs⟩
  · -- the kernel that knows quotes
    rw [hnone]
    simp only
    split
    · exact Or.inl rfl
    have hrecord : tryParseDefaultBorrowedRecord cfg input recordStart e.spans = none ∨
        ∃ s, tryParseDefaultBorrowedRecord cfg input recordStart e.spans =
          some (text.length, true, s) ∧ Holds .none input s fs := by
      have hloop := fun limits => borrowedRecordLoop_reads hcsv h limits recordStart
        ((input.drop recordStart).length + 1) 0 0 e.spans [] (by rw [List.drop_zero, hdrop]) hempty
      simp only [Nat.zero_add, List.nil_append] at hloop
      unfold tryParseDefaultBorrowedRecord
      simp only [hscan]
      split
      · exact hloop none
      · exact hloop (some cfg.limits)
    rcases hrecord with hnone | ⟨s, hsome, hs⟩
    · rw [hnone]; exact Or.inl rfl
    · rw [hsome]
      exact Or.inr ⟨s, true, e.foldedLines, e.foldedUpto, rfl, hs⟩
  · rw [hsome]
    simp only
    obtain ⟨l, u, hfold⟩ := foldPlainRecordTerminator_apply
      (e := e.parsed (recordStart + text.length) { e.spans with spans }
        (e.terminated || recordStart + text.length == input.length)) recordStart true 10
    refine Or.inr ⟨{ e.spans with spans },
      e.terminated || recordStart + text.length == input.length, l, u, ?_, hs⟩
    rw [set_bind]
    exact bind_ok hfold

/-- The plain path declines the record or reads it. -/
theorem tryParseBorrowedPlain_reads (hr : Reads cfg F input)
    (hcsv : cfg.isCsvFormat F = true → Csv cfg.toFormatSettings)
    (hmb : cfg.dialect.multibyte = false) (h : FieldsSpell cfg.toFormatSettings rest text fs)
    (hdrop : input.drop recordStart = text ++ rest) (hspans : e.spans = .empty) :
    tryParseBorrowedPlain cfg F input recordStart e = .ok false e ∨
      ∃ s t l u, tryParseBorrowedPlain cfg F input recordStart e =
          .ok true ((e.parsed (recordStart + text.length) s t).folded l u) ∧
        Holds cfg.nulls input s fs ∧ CrOnce cfg.toFormatSettings text := by
  have hkernel : plainKernel cfg F input recordStart e = .ok false e ∨
      ∃ s t l u, plainKernel cfg F input recordStart e =
          .ok true ((e.parsed (recordStart + text.length) s t).folded l u) ∧
        Holds cfg.nulls input s fs ∧ CrOnce cfg.toFormatSettings text := by
    have hend : min input.length (recordStart + (cfg.limits.maxRecordBytes + 1)) =
        input.length := by have := hr.fits.record; omega
    unfold plainKernel
    simp only [hend, hr.follows.dialect]
    have hwin : slice input recordStart input.length = text ++ rest := by
      rw [slice, List.take_length, hdrop]
    rw [hwin]
    rcases plainLoop_reads hr hmb h (Nat.le_refl _) hdrop
      (by rw [hspans]; exact holds_empty _ _) (by rw [hspans]; exact Nat.zero_le _) with
      hdec | ⟨⟨s, l, u, hrun, hs⟩, honce⟩
    · have hclear : e.spans.clearSpans = e.spans := by rw [hspans]; rfl
      unfold Declined at hdec
      exact Or.inl (by rw [hdec, hclear, parsed_self])
    · exact Or.inr ⟨s, true, l, u, hrun, by simpa using hs, honce⟩
  unfold tryParseBorrowedPlain
  split
  · rename_i hc
    simp only [Bool.and_eq_true] at hc
    have hcsv := hcsv hc.2
    rcases tryParseDefaultCsvBorrowed_reads (e := e) hr.fits hcsv h hdrop hspans with
      hnone | ⟨s, t, l, u, hrun, hs⟩
    · rw [bind_ok hnone]; exact hkernel
    · refine Or.inr ⟨s, t, l, u, ?_, by rw [hcsv.nulls]; exact hs, fun hc => ?_⟩
      · rw [bind_ok hrun]; rfl
      · rw [hcsv.dialect] at hc; cases hc
  · exact hkernel

/-- The pass over a record of a plain kernel. -/
theorem finishPlainRecord_reads (hF : cfg.Follows F) (hmb : cfg.dialect.multibyte = false)
    (hdrop : input.drop recordStart = text ++ rest)
    (hlocation : e.location = recordStart + text.length)
    (honce : CrOnce cfg.toFormatSettings text) (hold : Holds cfg.nulls input e.spans fs) :
    ∃ s, finishPlainRecord cfg F input recordStart false e =
        .ok () (e.parsed e.location s e.terminated) ∧ s.resolved input = fs := by
  unfold finishPlainRecord
  rw [hF.dialect]
  obtain ⟨s, hmark, hs⟩ := markNullSpans_reads (e := e) hF hold
  refine ⟨s, ?_, hs⟩
  by_cases hc : cfg.dialect.recordEnding = .crLf
  · obtain ⟨-, het⟩ := Dialect.tails_of_single hmb
    obtain ⟨body, hbody, hfree⟩ := honce hc
    have htext : text = body ++ [13, 10] := by
      rw [hbody]; simp [Dialect.endingText, hc, het, RecordEnding.byte]
    have hcr : byteAt input (recordStart + body.length) = 13 :=
      byteAt_of_drop (u := body) (v := 10 :: rest) (by rw [hdrop, htext]; simp) rfl
    have hlf : input[recordStart + body.length + 1]? = some 10 :=
      Window.getElem?_of_drop (u := body ++ [13]) (v := rest) (by rw [hdrop, htext]; simp)
        (by simp; omega)
    have hslice : slice input recordStart (recordStart + body.length) = body :=
      Window.drop_take_of_drop (v := [13, 10] ++ rest) (by rw [hdrop, htext]; simp) rfl
    have hloc : e.location = recordStart + body.length + 2 := by
      rw [hlocation, htext]; simp; omega
    have hvalid : validateCrlf input recordStart e = .ok () e := by
      unfold validateCrlf
      have h1 : recordStart + body.length + 2 - 1 = recordStart + body.length + 1 := rfl
      have h2 : decide (recordStart < recordStart + body.length + 2) = true :=
        decide_eq_true (by omega)
      have h3 : decide (recordStart < recordStart + body.length + 1) = true :=
        decide_eq_true (by omega)
      simp only [hloc, h1, hlf, h2, h3, Nat.add_sub_cancel, hcr, beq_self_eq_true, Bool.and_true,
        if_true, hslice]
      have hnone : find1 13 body = none :=
        Window.findIdx?_none fun y hy => by simpa using hfree y hy
      rw [hnone]
      simp
    rw [if_pos hc, bind_ok hvalid]
    exact hmark
  · rw [if_neg hc]
    exact hmark

theorem follows_of_agrees {o : FormatOptions} (h : cfg.agrees o.toFormatSettings = true) :
    cfg.Follows (some o) := by
  simp only [ParserSettings.agrees, Bool.and_eq_true, beq_iff_eq] at h
  obtain ⟨⟨⟨⟨⟨h1, h2⟩, h3⟩, h4⟩, -⟩, h6⟩ := h
  exact ⟨h1, h2, h3, h4, h6⟩

theorem follows_of_eq {o : FormatOptions} (h : cfg.toFormatSettings = o.toFormatSettings) :
    cfg.Follows (some o) := by
  constructor <;> simp only [ParserSettings.fmt, h]

/-- The recognised format has the settings of the parser. -/
theorem follows_of_formatKind :
    (cfg.formatKind = .csv → cfg.Follows (some .csv)) ∧
      (cfg.formatKind = .tsv →
        cfg.Follows (some (.builtIn .tsv { dialect := .tsv } rfl))) := by
  have hcsv : cfg.byComparison = .csv → cfg.Follows (some .csv) := by
    unfold ParserSettings.byComparison
    intro h
    split_ifs at h with h1
    exact follows_of_agrees h1
  have htsv : cfg.byComparison = .tsv →
      cfg.Follows (some (.builtIn .tsv { dialect := .tsv } rfl)) := by
    unfold ParserSettings.byComparison
    intro h
    split_ifs at h with h1 h2
    exact follows_of_agrees h2
  unfold ParserSettings.formatKind
  have htag := cfg.tag_sound
  rcases ht : cfg.tag <;> simp only [reduceCtorEq, false_implies, and_self, forall_const, and_true,
    true_and]
  all_goals first
    | exact follows_of_eq (htag _ (by rw [ht]; rfl))
    | exact ⟨hcsv, htsv⟩

theorem csv_of_isCsvFormat (hF : cfg.Follows F) (h : cfg.isCsvFormat F = true) :
    Csv cfg.toFormatSettings := by
  have hcsv : ∀ {o : FormatOptions}, o.toFormatSettings = { dialect := .csv } →
      cfg.Follows (some o) → Csv cfg.toFormatSettings := by
    intro o ho hf
    have hfmt : cfg.fmt (some o) = { dialect := .csv } := ho
    exact ⟨by rw [← hf.dialect, hfmt], by rw [← hf.syntax', hfmt], by rw [← hf.nulls, hfmt]⟩
  cases F with
  | none =>
    simp only [ParserSettings.isCsvFormat, beq_iff_eq] at h
    exact hcsv rfl (follows_of_formatKind.1 h)
  | some o =>
    simp only [ParserSettings.isCsvFormat, beq_iff_eq] at h
    exact hcsv (o.tag_sound _ (by rw [h]; rfl)) hF

/-- **A spelled record is read**, whichever parser takes it: a static format
    does not keep its kernel from multi-byte separators. -/
theorem parseRecord_reads (hr : Reads cfg F input)
    (hsingle : F.isSome = true → cfg.dialect.multibyte = false)
    (h : FieldsSpell cfg.toFormatSettings rest text fs)
    (hdrop : input.drop e.location = text ++ rest) (hspans : e.spans = .empty) :
    ∃ s t l u, parseRecord cfg F input e.location false e =
        .ok () ((e.parsed (e.location + text.length) s t).folded l u) ∧ s.resolved input = fs := by
  -- the field-by-field parser
  have hfields : ∀ {F'}, cfg.Follows F' → ∃ s t l u,
      parseRecordFields cfg F' input e.location false e =
        .ok () ((e.parsed (e.location + text.length) s t).folded l u) ∧
          s.resolved input = fs := by
    intro F' hF'
    obtain ⟨s, t, hrun, hs⟩ := parseRecordFields_reads ⟨hr.sound, hF', hr.fits,
      hr.skipInitialSpace, hr.escape, hr.fieldCount⟩ e.location h hdrop hspans
    exact ⟨s, t, e.foldedLines, e.foldedUpto, hrun, hs⟩
  have hgeneral : ∃ s t l u, parseRecordFieldsFor cfg F input e.location false e =
      .ok () ((e.parsed (e.location + text.length) s t).folded l u) ∧ s.resolved input = fs := by
    unfold parseRecordFieldsFor
    cases F with
    | some o => exact hfields hr.follows
    | none =>
      rcases hk : cfg.formatKind with _ | _ | _
      · exact hfields (follows_of_formatKind.1 hk)
      · exact hfields (follows_of_formatKind.2 hk)
      · exact hfields hr.follows
  unfold parseRecord
  by_cases hcand : plainRecordCandidate cfg F input[e.location]? = true
  · have hmb : cfg.dialect.multibyte = false := by
      cases F with
      | some o => exact hsingle rfl
      | none =>
        simp only [plainRecordCandidate, ParserSettings.fmtPlainKernel, Bool.and_eq_true,
          Bool.not_eq_true'] at hcand
        exact hcand.1.2
    rw [if_pos hcand]
    rcases tryParseBorrowedPlain_reads hr (csv_of_isCsvFormat hr.follows) hmb h hdrop hspans with
      hnone | ⟨s, t, l, u, hrun, hold, honce⟩
    · rw [bind_ok hnone]
      exact hgeneral
    rw [bind_ok hrun]
    simp only [if_true, hr.follows.dialect, hr.follows.nulls]
    by_cases hpass : ParserSettings.needsRecordPass cfg.dialect cfg.nulls = true
    · obtain ⟨s', hfinish, hs'⟩ := finishPlainRecord_reads
        (e := (e.parsed (e.location + text.length) s t).folded l u) hr.follows hmb hdrop rfl honce
        hold
      refine ⟨s', t, l, u, ?_, hs'⟩
      rw [if_pos hpass, bind_ok hfinish, get_bind, validateFieldCount_flexible hr.fieldCount]
      rfl
    · have hnulls : cfg.nulls = .none := by
        simp only [ParserSettings.needsRecordPass, Bool.or_eq_true, not_or] at hpass
        simpa using hpass.1
      rw [hnulls] at hold
      refine ⟨s, t, l, u, ?_, hold.resolved_none⟩
      rw [if_neg hpass, get_bind, validateFieldCount_flexible hr.fieldCount]
  · rw [if_neg hcand]
    exact hgeneral

end

end Engine

end Coseva
