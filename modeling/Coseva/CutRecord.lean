/-
  Coseva — a record is read alike from two documents that agree up to its end,
  whichever parser takes it from either.

  * `accepts`: a kernel of the default dialect takes the record;
  * `generalRecord_short`: the general parser then takes it as well;
  * `parsePositionedRecord_cut`: the record at the cursor.
-/
import Coseva.KernelAgree

namespace Coseva

/-- The width of a record depends on its bytes alone. -/
theorem Split.recordWidth_of_take {d : Dialect} :
    ∀ (inQuotes : Bool) (l l' : Bytes), recordWidth d inQuotes l < l.length →
      l'.take (recordWidth d inQuotes l) = l.take (recordWidth d inQuotes l) →
      recordWidth d inQuotes l' = recordWidth d inQuotes l
  | inQuotes, [], _, hlt, _ => absurd hlt (Nat.not_lt_zero _)
  | inQuotes, b :: l, l', hlt, hsame => by
    obtain ⟨n, hn⟩ : ∃ n, recordWidth d inQuotes (b :: l) = n + 1 := by
      rw [recordWidth]
      generalize (if b = d.quote then !inQuotes else inQuotes) = inside
      split_ifs
      · exact ⟨0, rfl⟩
      · exact ⟨_, Nat.add_comm _ _⟩
    obtain ⟨rest, rfl⟩ : ∃ rest, l' = b :: rest := by
      rw [hn, List.take_succ_cons] at hsame
      cases l' with
      | nil => cases hsame
      | cons b' rest =>
        rw [List.take_succ_cons] at hsame
        exact ⟨rest, by rw [(List.cons.inj hsame).1]⟩
    rw [recordWidth, recordWidth]
    rw [recordWidth] at hlt hsame
    by_cases hend : b = d.recordEnding.byte ∧ (if b = d.quote then !inQuotes else inQuotes) = false
    · rw [if_pos hend, if_pos hend]
    · rw [if_neg hend] at hlt hsame ⊢
      rw [if_neg hend]
      rw [Nat.add_comm, List.take_succ_cons, List.take_succ_cons] at hsame
      rw [List.length_cons, Nat.add_comm] at hlt
      rw [recordWidth_of_take _ l rest (Nat.lt_of_succ_lt_succ hlt) (List.cons.inj hsame).2]

theorem Open.cut {d : Dialect} {input input' : Bytes} {stop pos : ℕ} {inQuotes : Bool}
    (h : Open d input stop inQuotes pos) (hcut : Cut input input' stop) :
    Open d input' stop inQuotes pos := by
  have hlt := h.lt_stop hcut.lt
  have hstop := h.stop
  have hin := hcut.lt
  refine ⟨Nat.le_trans (Nat.le_of_lt hlt) hcut.le, ?_⟩
  rw [Split.recordWidth_of_take inQuotes (input.drop pos) (input'.drop pos), ← hstop]
  · rw [List.length_drop]; omega
  · rw [List.take_drop, List.take_drop, ← hstop, hcut.same]

namespace Engine

open Run

variable {cfg : ParserSettings} {F : CsvFormat} {input input' : Bytes} {start stop : ℕ}
  {c c' s t e : Engine}

/-! ## The kernels of the default dialect -/

/-- A kernel of the default dialect takes the record. -/
def accepts (cfg : ParserSettings) (input : Bytes) (start : ℕ) (e : Engine) : Bool :=
  !(e.ownedParser.isNone || decide (input.length - start < defaultBorrowedProbe)) &&
    ((tryParseDefaultBorrowedPlain cfg input start e.spans.spans).isSome ||
      ((find1 34 (slice input start (start + defaultBorrowedProbe))).isSome &&
        (tryParseDefaultBorrowedRecord cfg input start e.spans).isSome))

theorem tryParseDefaultCsvBorrowed_accepts (cfg : ParserSettings) (input : Bytes) (start : ℕ)
    (e : Engine) : ∃ e', tryParseDefaultCsvBorrowed cfg input start e =
        .ok (accepts cfg input start e) e' ∧ e'.frame = e.frame ∧
      (accepts cfg input start e = false → e' = e) := by
  unfold tryParseDefaultCsvBorrowed accepts
  rw [get_bind]
  by_cases hprobe : (e.ownedParser.isNone || decide (input.length - start < defaultBorrowedProbe)) =
      true
  · rw [if_pos hprobe, hprobe]
    exact ⟨e, rfl, rfl, fun _ => rfl⟩
  rw [if_neg hprobe, Bool.eq_false_of_not_eq_true hprobe]
  rcases tryParseDefaultBorrowedPlain cfg input start e.spans.spans with _ | ⟨consumed, spans⟩
  · simp only
    rcases find1 34 (slice input start (start + defaultBorrowedProbe)) with _ | i
    · exact ⟨e, rfl, rfl, fun _ => rfl⟩
    · rcases tryParseDefaultBorrowedRecord cfg input start e.spans with
        _ | ⟨consumed, terminated, spans⟩
      · exact ⟨e, rfl, rfl, fun _ => rfl⟩
      · exact ⟨_, rfl, rfl, nofun⟩
  · simp only
    rw [set_bind]
    obtain ⟨l, u, hfold⟩ := foldPlainRecordTerminator_apply
      (e := e.parsed (start + consumed) { e.spans with spans }
        (e.terminated || start + consumed == input.length)) start true 10
    exact ⟨_, bind_ok hfold, rfl, nofun⟩

/-- The block kernel takes lines that are not long. -/
theorem borrowedPlainBlocks_le {recordStart : ℕ} :
    ∀ (fuel consumed fieldStart : ℕ) (spans : List Span) {n : ℕ} {spans' : List Span},
      borrowedPlainBlocks input recordStart fuel consumed fieldStart spans = some (n, spans') →
      n ≤ consumed + 32 * fuel
  | 0, _, _, _, _, _, hrun => by cases hrun
  | fuel + 1, consumed, fieldStart, spans, n, spans', hrun => by
    rw [borrowedPlainBlocks] at hrun
    simp only at hrun
    split_ifs at hrun
    rcases hhead : (maskOf 10 ((input.drop (recordStart + consumed)).take 32)).head? with
      _ | recordEnd
    · rw [hhead] at hrun
      have := borrowedPlainBlocks_le fuel _ _ _ hrun
      omega
    · rw [hhead] at hrun
      obtain rfl : consumed + recordEnd + 1 = n := congrArg Prod.fst (Option.some.inj hrun)
      have hmem := (List.getElem?_eq_some_iff.mp (mem_maskOf.mp (List.mem_of_head? hhead))).1
      rw [List.length_take] at hmem
      omega

section kernels

variable (hcsv : cfg.dialect = .csv) (hlt : stop < input.length)
  (hopen : Open cfg.dialect input stop false start) {doc : Bytes}
  (hsame : doc.take stop = input.take stop)

include hcsv hlt hopen hsame

/-- A record that the block kernel takes has no quote. -/
theorem plain_line {spans : List Span}
    (htaken : (tryParseDefaultBorrowedPlain cfg doc start spans).isSome = true) :
    cfg.dialect.quote ∉ slice input start stop ∧ stop - start ≤ 4096 := by
  have hq : cfg.dialect.quote = 34 := by rw [hcsv]; rfl
  have he : cfg.dialect.recordEnding.byte = 10 := by rw [hcsv]; rfl
  obtain ⟨⟨consumed, spans'⟩, hrun⟩ := Option.isSome_iff_exists.mp htaken
  unfold tryParseDefaultBorrowedPlain at hrun
  split_ifs at hrun
  have hshort := borrowedPlainBlocks_le _ _ _ _ hrun
  by_cases hlf : 10 ∈ doc.drop start
  swap
  · rw [borrowedPlainBlocks_none maxBatchedBlocks 0 start spans hlf] at hrun
    cases hrun
  obtain ⟨w, v, hdrop, hw⟩ := List.eq_append_cons_of_mem hlf
  rcases borrowedPlainBlocks_reads start maxBatchedBlocks 0 start spans w v hw hdrop with
    hnone | ⟨hquote, hsome⟩
  · rw [hnone] at hrun; cases hrun
  rw [hsome] at hrun
  have hconsumed : 0 + w.length + 1 = consumed := congrArg Prod.fst (Option.some.inj hrun)
  have hclean : ∀ b ∈ w, b ≠ 34 ∧ b ≠ 10 :=
    fun b hb => ⟨fun hb' => hquote (hb' ▸ hb), fun hb' => hw (hb' ▸ hb)⟩
  by_cases hle : start + w.length + 1 ≤ stop
  · have hcons : doc.drop start = (w ++ [10]) ++ v := by rw [hdrop, List.append_assoc]; rfl
    have hwidth : start + (w ++ [10]).length ≤ stop := by
      rw [List.length_append, List.length_singleton]; omega
    have hinput := Window.drop_of_take hsame.symm hcons hwidth
    have hline := hinput
    rw [List.append_assoc] at hline
    have hstop := Open.line hcsv hopen hline hclean
    have htext : slice input start stop = w ++ [10] :=
      Window.drop_take_of_drop hinput (by rw [List.length_append, List.length_singleton]; omega)
    have hblocks : maxBatchedBlocks = 128 := rfl
    refine ⟨?_, by omega⟩
    rw [htext, hq, List.mem_append, List.mem_singleton]
    rintro (hmem | hmem)
    · exact hquote hmem
    · cases hmem
  · -- the record would end in the line
    have hopen' := hopen.lt_stop hlt
    have hcons : doc.drop start = w.take (stop - start) ++ (w.drop (stop - start) ++ 10 :: v) := by
      rw [← List.append_assoc, List.take_append_drop, hdrop]
    have hwidth : (w.take (stop - start)).length = stop - start := by rw [List.length_take]; omega
    have hinput := Window.drop_of_take hsame.symm hcons (by omega)
    have hend := hopen.skip hinput fun b hb => by
      rw [hq, he]
      exact ⟨(hclean b (List.mem_of_mem_take hb)).1,
        fun _ => (hclean b (List.mem_of_mem_take hb)).2⟩
    rw [hwidth] at hend
    have := hend.lt_stop hlt
    omega

end kernels

theorem borrowedRecordLoop_le (limits : Option Limits) (suffix scan : Bytes) (recordStart : ℕ) :
    ∀ (fuel fieldsAdded fieldStart : ℕ) (storage : SpanStorage) {taken : ℕ × Bool × SpanStorage},
      fieldStart ≤ scan.length →
      borrowedRecordLoop limits suffix scan recordStart fuel fieldsAdded fieldStart storage =
        some taken → taken.1 ≤ scan.length
  | 0, _, _, _, _, _, hrun => by cases hrun
  | fuel + 1, fieldsAdded, fieldStart, storage, taken, hfield, hrun => by
    rw [borrowedRecordLoop] at hrun
    simp only at hrun
    by_cases hfields : limits.any (fun l => decide (fieldsAdded = l.maxFields)) = true
    · rw [if_pos hfields] at hrun; cases hrun
    rw [if_neg hfields] at hrun
    by_cases hend : fieldStart = scan.length
    · rw [if_pos hend] at hrun
      split_ifs at hrun
      obtain rfl := Option.some.inj hrun
      exact hfield
    rw [if_neg hend] at hrun
    by_cases hquote : scan[fieldStart]? = some 34
    · rw [if_pos hquote] at hrun
      rcases hclosing : borrowedClosing scan (scan.length + 1) (fieldStart + 1) (fieldStart + 1)
        storage.scratch with _ | ⟨closing, segment, scratch⟩
      · rw [hclosing] at hrun; cases hrun
      have hle := (borrowedClosing_le (scan.length + 1) (fieldStart + 1) (fieldStart + 1)
        storage.scratch (by rw [hclosing]; rfl)).2
      rw [hclosing] at hrun
      simp only at hrun
      by_cases hexceeds : limits.any (fun l => decide (closing + 1 - fieldStart > l.maxFieldBytes)) =
          true
      · rw [if_pos hexceeds] at hrun; cases hrun
      rw [if_neg hexceeds] at hrun
      rcases hnext : scan[closing + 1]? with _ | next
      · rw [hnext] at hrun
        simp only at hrun
        split_ifs at hrun
        obtain rfl := Option.some.inj hrun
        exact hle
      · rw [hnext] at hrun
        have hat := (List.getElem?_eq_some_iff.mp hnext).1
        simp only at hrun
        split_ifs at hrun with _ _ hcr
        · exact borrowedRecordLoop_le limits suffix scan recordStart fuel _ _ _ (by omega) hrun
        · obtain rfl := Option.some.inj hrun
          exact hat
        · obtain rfl := Option.some.inj hrun
          exact (List.getElem?_eq_some_iff.mp hcr.2).1
    · rw [if_neg hquote] at hrun
      rcases hfind : find3 44 34 10 (scan.drop fieldStart) with _ | relative
      · rw [hfind] at hrun
        simp only at hrun
        split_ifs at hrun
        obtain rfl := Option.some.inj hrun
        exact Nat.le_refl _
      · obtain ⟨u, x, v, hl, hlen, -⟩ := Window.of_findIdx?_some hfind
        have hat : fieldStart + relative < scan.length := by
          have := congrArg List.length hl
          simp only [List.length_drop, List.length_append, List.length_cons] at this
          omega
        rw [hfind] at hrun
        simp only at hrun
        split_ifs at hrun
        · exact borrowedRecordLoop_le limits suffix scan recordStart fuel _ _ _ (by omega) hrun
        · obtain rfl := Option.some.inj hrun
          exact hat

section kernels

variable (hcsv : cfg.dialect = .csv) (hcut : Cut input input' stop)
  (hopen : Open cfg.dialect input stop false start)

include hcsv hcut hopen

/-- **The kernel that knows quotes** takes a record of both documents, or of
    none. -/
theorem tryParseDefaultBorrowedRecord_cut (storage storage' : SpanStorage) :
    (tryParseDefaultBorrowedRecord cfg input' start storage').isSome =
      (tryParseDefaultBorrowedRecord cfg input start storage).isSome := by
  have hlt := hopen.lt_stop hcut.lt
  have h1 := hcut.lt
  have h2 := hcut.le
  have hdrop : (input'.drop start).take (stop - start) = (input.drop start).take (stop - start) := by
    rw [List.take_drop, List.take_drop, Nat.add_sub_cancel' (Nat.le_of_lt hlt), hcut.same]
  by_cases hroom : stop - start ≤ cfg.limits.maxRecordBytes
  · have hloop : ∀ {limits limits' : Option Limits} {scan scan' rest : Bytes},
        input.drop start = scan ++ rest → stop ≤ start + scan.length → stop ≤ start + scan'.length →
        scan'.take (stop - start) = scan.take (stop - start) →
        LimitsAlike limits limits' (stop - start) →
        (borrowedRecordLoop limits' (input'.drop start) scan' start ((input'.drop start).length + 1)
            0 0 storage').isSome =
          (borrowedRecordLoop limits (input.drop start) scan start ((input.drop start).length + 1)
            0 0 storage).isSome := by
      intro limits limits' scan scan' rest hsuffix hscan hscan' hsame hlimits
      have := borrowedRecordLoop_cut hcsv h1 hsuffix hscan hsame hlimits (input.drop start)
        (input'.drop start) hscan' ((input.drop start).length + 1) ((input'.drop start).length + 1)
        0 0 storage storage' (Nat.le_refl _) hopen (by rw [List.length_drop]; omega)
        (by rw [List.length_drop]; omega)
      simpa using congrArg Option.isSome this
    unfold tryParseDefaultBorrowedRecord
    simp only
    have hsome : ∀ {doc : Bytes}, stop ≤ doc.length →
        ((doc.drop start).take cfg.limits.maxRecordBytes).take (stop - start) =
          (doc.drop start).take (stop - start) ∧
        stop ≤ start + ((doc.drop start).take cfg.limits.maxRecordBytes).length := by
      intro doc hdoc
      refine ⟨by rw [List.take_take, Nat.min_eq_left hroom], ?_⟩
      rw [List.length_take, List.length_drop]
      omega
    have hwhole : ∀ {doc : Bytes}, stop ≤ doc.length → stop ≤ start + (doc.drop start).length := by
      intro doc hdoc
      rw [List.length_drop]
      omega
    have hbites : ∀ {doc : Bytes}, stop ≤ doc.length →
        (decide ((doc.drop start).length ≤ cfg.limits.maxRecordBytes) &&
          decide ((doc.drop start).length ≤ cfg.limits.maxFieldBytes) &&
          decide ((doc.drop start).length < cfg.limits.maxFields)) = true →
        LimitsAlike none (some cfg.limits) (stop - start) := by
      intro doc hdoc hshort
      simp only [Bool.and_eq_true, decide_eq_true_eq, List.length_drop] at hshort
      refine ⟨fun k hk => (decide_eq_false ?_).symm, fun k hk => (decide_eq_false ?_).symm⟩
      · omega
      · omega
    by_cases hshort : (decide ((input.drop start).length ≤ cfg.limits.maxRecordBytes) &&
        decide ((input.drop start).length ≤ cfg.limits.maxFieldBytes) &&
        decide ((input.drop start).length < cfg.limits.maxFields)) = true <;>
      by_cases hshort' : (decide ((input'.drop start).length ≤ cfg.limits.maxRecordBytes) &&
        decide ((input'.drop start).length ≤ cfg.limits.maxFieldBytes) &&
        decide ((input'.drop start).length < cfg.limits.maxFields)) = true
    · rw [if_pos hshort, if_pos hshort']
      exact hloop (List.append_nil _).symm (hwhole (Nat.le_of_lt h1)) (hwhole h2) hdrop
        ⟨fun _ _ => rfl, fun _ _ => rfl⟩
    · rw [if_pos hshort, if_neg hshort']
      exact hloop (List.append_nil _).symm (hwhole (Nat.le_of_lt h1)) (hsome h2).2
        ((hsome h2).1.trans hdrop) (hbites (Nat.le_of_lt h1) hshort)
    · rw [if_neg hshort, if_pos hshort']
      have hlimits := hbites h2 hshort'
      exact hloop (List.take_append_drop _ _).symm (hsome (Nat.le_of_lt h1)).2 (hwhole h2)
        (hdrop.trans (hsome (Nat.le_of_lt h1)).1.symm)
        ⟨fun k hk => (hlimits.fields k hk).symm, fun k hk => (hlimits.bytes k hk).symm⟩
    · rw [if_neg hshort, if_neg hshort']
      exact hloop (List.take_append_drop _ _).symm (hsome (Nat.le_of_lt h1)).2 (hsome h2).2
        (((hsome h2).1.trans hdrop).trans (hsome (Nat.le_of_lt h1)).1.symm)
        ⟨fun _ _ => rfl, fun _ _ => rfl⟩
  · -- a record that is longer than its limit is declined
    have hnone : ∀ {doc : Bytes} (storage : SpanStorage), stop ≤ doc.length →
        Open cfg.dialect doc stop false start →
        (tryParseDefaultBorrowedRecord cfg doc start storage).isSome = false := by
      intro doc storage hdoc hopen
      rcases hrun : tryParseDefaultBorrowedRecord cfg doc start storage with
        _ | ⟨consumed, terminated, storage'⟩
      · rfl
      have hstop := tryParseDefaultBorrowedRecord_lands hcsv hopen hrun
      unfold tryParseDefaultBorrowedRecord at hrun
      simp only at hrun
      split_ifs at hrun with hshort
      · simp only [Bool.and_eq_true, decide_eq_true_eq, List.length_drop] at hshort
        omega
      · have := borrowedRecordLoop_le _ _ _ _ _ _ _ _ (Nat.zero_le _) hrun
        rw [List.length_take] at this
        simp only at this
        omega
    rw [hnone storage' h2 (hopen.cut hcut), hnone storage (Nat.le_of_lt h1) hopen]

end kernels

/-! ## The general parser takes what a kernel takes -/

/-- The parser of a format that the default kernels are made for. -/
theorem default_of_owned (hF : cfg.Follows F) (hcsv : cfg.isCsvFormat F = true) {check : Bool}
    (howned : (ownedParserFor cfg check).isNone = false) : Default cfg F := by
  unfold ownedParserFor at howned
  simp only at howned
  by_cases heligible : cfg.limits = .default ∧ cfg.fieldCount = .flexible ∧ cfg.trim = .none
    ∧ cfg.blankRecords = .preserve ∧ cfg.syntax' = .strict ∧ cfg.skipInitialSpace = false
    ∧ cfg.nulls = .none
  · exact ⟨hF, csv_of_isCsvFormat hF hcsv, heligible.2.2.1, heligible.2.2.2.2.2.1, heligible.2.1,
      heligible.1⟩
  · rw [if_neg heligible] at howned
    cases howned

theorem ownedParserFor_isNone (cfg : ParserSettings) (check check' : Bool) :
    (ownedParserFor cfg check).isNone = (ownedParserFor cfg check').isNone := by
  unfold ownedParserFor
  simp only
  split_ifs <;> rfl

section general

variable (h : Splits cfg F) (hd : Default cfg F) (hlt : stop < input.length)
  (hopen : Open cfg.dialect input stop false start)

include h hd hlt hopen

theorem generalRecord_short (header : Bool) (hlocation : e.location = start)
    (hspans : e.spans.len = 0) (hshort : stop - start ≤ 4096)
    (hcandidate : plainRecordCandidate cfg F input[start]? = true) {storage : SpanStorage}
    (htaken : cfg.dialect.quote ∉ slice input start stop ∨
      (tryParseDefaultBorrowedRecord cfg input start storage).isSome = true) :
    ∃ e', generalRecord cfg F input start header e = .ok () e' := by
  have hin := hopen.lt_stop hlt
  have hfit : cfg.limits.Fits (stop - start) := by
    rw [hd.limits]
    exact ⟨Nat.le_trans hshort (by decide), Nat.le_trans hshort (by decide),
      Nat.le_trans hshort (by decide), Nat.le_trans hshort (by decide)⟩
  have hcount : ∀ e : Engine, ∃ e', validateFieldCount cfg input e.spans.len e = .ok () e' := by
    intro e
    unfold validateFieldCount
    rw [get_bind, hd.fieldCount]
    exact ⟨e, rfl⟩
  have hkernel : ∃ taken e', plainKernel cfg F input start e = .ok taken e' ∧
      (taken = false → cfg.dialect.quote ∈ slice input start stop ∧ e'.spans.len = 0) := by
    unfold plainKernel
    simp only [h.follows.dialect]
    exact plainLoop_short h hfit hlt _ start start e (Nat.le_refl _) (Nat.le_refl _)
      (by unfold plainEnd; omega) rfl hopen (by rw [hspans]; exact Nat.zero_le _)
  obtain ⟨taken, e', hrun, hquote⟩ := hkernel
  have hlands := plainKernel_lands h (e := e) hopen
  rw [hrun] at hlands
  unfold generalRecord
  rw [if_pos hcandidate, bind_ok hrun]
  cases taken with
  | true =>
    show ∃ e'', endTaken cfg F input start header e' = .ok () e''
    unfold endTaken
    rw [hd.follows.dialect, hd.follows.nulls, hd.csv.dialect, hd.csv.nulls]
    exact hcount e'
  | false =>
    obtain ⟨hmem, hempty⟩ := hquote rfl
    have hrecord := htaken.resolve_left fun hnot => hnot hmem
    have hfields : ∀ {F'}, cfg.Follows F' →
        ∃ e'', parseRecordFields cfg F' input start header e' = .ok () e'' := by
      intro F' hF'
      have hd' : Default cfg F' := { hd with follows := hF' }
      have hmoved : e'.location = start := hlands.trans hlocation
      obtain ⟨taken, htaken⟩ := Option.isSome_iff_exists.mp hrecord
      have hbound := hfit.record
      unfold tryParseDefaultBorrowedRecord at htaken
      simp only at htaken
      split_ifs at htaken
      · exact fieldsLoop_short hd' hfit (List.append_nil (input.drop start)).symm hlt
          (by rw [List.length_drop]; omega) _ _ header _ 0 0 _ _ e' (Nat.zero_le _) hopen htaken
          hmoved (Nat.le_of_eq hempty) (by omega)
      · exact fieldsLoop_short hd' hfit (List.take_append_drop _ _).symm hlt
          (by rw [List.length_take, List.length_drop]; omega) _ _ header _ 0 0 _ _ e'
          (Nat.zero_le _) hopen htaken hmoved (Nat.le_of_eq hempty) (by omega)
    show ∃ e'', parseRecordFieldsFor cfg F input start header e' = .ok () e''
    unfold parseRecordFieldsFor
    cases F with
    | some o => exact hfields hd.follows
    | none =>
      rcases hk : cfg.formatKind with _ | _ | _
      · exact hfields (follows_of_formatKind.1 hk)
      · exact hfields (follows_of_formatKind.2 hk)
      · exact hfields hd.follows

end general

/-! ## The dispatch of a record -/

/-- Whether a kernel of the default dialect takes the record that the engine is
    to parse. -/
def kernelTakes (cfg : ParserSettings) (F : CsvFormat) (input : Bytes) (start : ℕ) (e : Engine) :
    Bool :=
  plainRecordCandidate cfg F input[start]? &&
    (cfg.host.x86_64 && cfg.isCsvFormat F && accepts cfg input start e)

theorem parseRecord_general (header : Bool) (htakes : kernelTakes cfg F input start e = false) :
    parseRecord cfg F input start header e = generalRecord cfg F input start header e := by
  obtain ⟨e', hrun, -, hsame⟩ := tryParseDefaultCsvBorrowed_accepts cfg input start e
  unfold kernelTakes at htakes
  unfold parseRecord generalRecord endTaken
  by_cases hcandidate : plainRecordCandidate cfg F input[start]? = true
  swap
  · rw [if_neg hcandidate, if_neg hcandidate]
  rw [hcandidate, Bool.true_and] at htakes
  have hplain : tryParseBorrowedPlain cfg F input start e = plainKernel cfg F input start e := by
    unfold tryParseBorrowedPlain
    by_cases hcsv : (cfg.host.x86_64 && cfg.isCsvFormat F) = true
    · rw [hcsv, Bool.true_and] at htakes
      rw [htakes] at hrun
      rw [if_pos hcsv, bind_ok hrun, hsame htakes]
      rfl
    · rw [if_neg hcsv]
      rfl
  rw [if_pos hcandidate, if_pos hcandidate]
  rcases hkernel : plainKernel cfg F input start e with ⟨taken, e₁⟩ | ⟨fault, e₁⟩
  · rw [bind_ok (hplain.trans hkernel), bind_ok hkernel]
  · rw [bind_error (hplain.trans hkernel), bind_error hkernel]

theorem parseRecord_kernel (hd : Default cfg F) (header : Bool)
    (htakes : kernelTakes cfg F input start e = true) :
    ∃ e', parseRecord cfg F input start header e = .ok () e' ∧ e'.frame = e.frame := by
  obtain ⟨e', hrun, hframe, -⟩ := tryParseDefaultCsvBorrowed_accepts cfg input start e
  unfold kernelTakes at htakes
  simp only [Bool.and_eq_true] at htakes
  obtain ⟨hcandidate, hcsv, haccepts⟩ := htakes
  rw [haccepts] at hrun
  have hplain : tryParseBorrowedPlain cfg F input start e = .ok true e' := by
    unfold tryParseBorrowedPlain
    rw [if_pos (by rw [hcsv.1, hcsv.2]; rfl), bind_ok hrun]
    rfl
  unfold parseRecord
  rw [if_pos hcandidate, bind_ok hplain, hd.follows.dialect, hd.follows.nulls, hd.csv.dialect,
    hd.csv.nulls]
  refine ⟨e', ?_, hframe⟩
  show validateFieldCount cfg input e'.spans.len e' = .ok () e'
  unfold validateFieldCount
  rw [get_bind, hd.fieldCount]
  rfl

/-- Two engines behind one record, whatever fields it left. -/
structure Past (cfg : ParserSettings) (c c' s t : Engine) : Prop where
  location : s.location = t.location
  expectedFields : cfg.fieldCount = .matchFirst → s.expectedFields = t.expectedFields
  left : s.frame = c.frame
  right : t.frame = c'.frame

theorem Level.past (h : Level cfg c c' s t) : Past cfg c c' s t :=
  ⟨h.location, h.expectedFields, h.left, h.right⟩

section records

variable (h : Splits cfg F) (hcut : Cut input input' stop) (hi : c.recordIndex = c'.recordIndex)
  {check check' : Bool} (hs : s.ownedParser = ownedParserFor cfg check)
  (ht : t.ownedParser = ownedParserFor cfg check')

include h hcut hi hs ht

/-- **A record is read alike** from two documents that agree up to its end. -/
theorem parseRecord_cut (header : Bool) (hsame : Same cfg c c' s t) (hspans : s.spans.len = 0)
    (hlocation : s.location = start) (hopen : Open cfg.dialect input stop false start) :
    Related (Past cfg c c') (Likewise (physicalLine input c.lineBase c.lineOrigin)
        (physicalLine input' c'.lineBase c'.lineOrigin))
      (parseRecord cfg F input start header s) (parseRecord cfg F input' start header t) := by
  have hlt := hopen.lt_stop hcut.lt
  have h1 := hcut.lt
  have h2 := hcut.le
  have hgeneral := generalRecord_cut h hcut hi header hsame hlocation hopen
  -- both succeed as soon as each does
  have hboth : ∀ {s' t' : Engine}, parseRecord cfg F input start header s = .ok () s' →
      parseRecord cfg F input' start header t = .ok () t' → s'.frame = c.frame →
      t'.frame = c'.frame → (cfg.fieldCount = .matchFirst → s'.expectedFields = t'.expectedFields) →
      Related (Past cfg c c') (Likewise (physicalLine input c.lineBase c.lineOrigin)
          (physicalLine input' c'.lineBase c'.lineOrigin))
        (parseRecord cfg F input start header s) (parseRecord cfg F input' start header t) := by
    intro s' t' hrun hrun' hframe hframe' hexpected
    have hleft := parseRecord_lands h header hlocation hopen.le
    have hright := parseRecord_lands h header (hsame.location.symm.trans hlocation)
      (Nat.le_trans (Nat.le_of_lt hlt) h2)
    have hstop : Split.recordStop cfg.dialect input' start = Split.recordStop cfg.dialect input start :=
      (hopen.cut hcut).stop.symm.trans hopen.stop
    rw [hrun] at hleft ⊢
    rw [hrun'] at hright ⊢
    exact ⟨rfl, hleft.trans (hstop.symm.trans hright.symm), hexpected, hframe, hframe'⟩
  have hfirst : input'[start]? = input[start]? := hcut.getElem? hlt
  -- a kernel that takes the record of one document only
  have hshort : Default cfg F → kernelTakes cfg F input start s ≠ kernelTakes cfg F input' start t →
      ∃ e', generalRecord cfg F input start header s = .ok () e' := by
    intro hd hdiffer
    have hcsv : cfg.dialect = .csv := hd.csv.dialect
    unfold kernelTakes at hdiffer
    rw [hfirst] at hdiffer
    rcases hcandidate : plainRecordCandidate cfg F input[start]? with _ | _
    · rw [hcandidate] at hdiffer
      exact absurd rfl hdiffer
    have hplain : ∀ {doc : Bytes} {spans : List Span}, doc.take stop = input.take stop →
        (tryParseDefaultBorrowedPlain cfg doc start spans).isSome = true →
        ∃ e', generalRecord cfg F input start header s = .ok () e' := by
      intro doc spans hagree htaken
      obtain ⟨hquote, hwidth⟩ := plain_line hcsv h1 hopen hagree htaken
      exact generalRecord_short h hd h1 hopen header hlocation hspans hwidth hcandidate
        (@Or.inl _ ((tryParseDefaultBorrowedRecord cfg input start s.spans).isSome = true) hquote)
    rcases hp : (tryParseDefaultBorrowedPlain cfg input start s.spans.spans).isSome with _ | _
    swap
    · exact hplain rfl hp
    rcases hp' : (tryParseDefaultBorrowedPlain cfg input' start t.spans.spans).isSome with _ | _
    swap
    · exact hplain hcut.same hp'
    have hrecord := tryParseDefaultBorrowedRecord_cut hcsv hcut hopen s.spans t.spans
    have howned : t.ownedParser.isNone = s.ownedParser.isNone := by
      rw [hs, ht]
      exact ownedParserFor_isNone cfg check' check
    unfold accepts at hdiffer
    rw [hp, hp', hrecord, howned, Bool.false_or, Bool.false_or] at hdiffer
    rcases htaken : (tryParseDefaultBorrowedRecord cfg input start s.spans).isSome with _ | _
    · refine absurd ?_ hdiffer
      simp only [htaken, Bool.and_false]
    have hprobe : defaultBorrowedProbe = 64 := rfl
    by_cases hlong : start + defaultBorrowedProbe ≤ stop
    · -- both kernels see the same probe
      rw [hcut.slice hlong, decide_eq_false (by omega : ¬ input.length - start < _),
        decide_eq_false (by omega : ¬ input'.length - start < _)] at hdiffer
      exact absurd rfl hdiffer
    · exact generalRecord_short h hd h1 hopen header hlocation hspans (by omega) hcandidate
        (Or.inr htaken)
  have hdefault : ∀ {doc : Bytes} {e : Engine} {check : Bool},
      e.ownedParser = ownedParserFor cfg check → kernelTakes cfg F doc start e = true →
      Default cfg F := by
    intro doc e check howned htakes
    unfold kernelTakes accepts at htakes
    simp only [Bool.and_eq_true, Bool.not_eq_true', Bool.or_eq_false_iff] at htakes
    exact default_of_owned h.follows htakes.2.1.2 (howned ▸ htakes.2.2.1.1)
  rcases hleft : kernelTakes cfg F input start s with _ | _ <;>
    rcases hright : kernelTakes cfg F input' start t with _ | _
  · rw [parseRecord_general header hleft, parseRecord_general header hright]
    exact hgeneral.mono fun _ _ hlevel => hlevel.past
  · have hd := hdefault ht hright
    obtain ⟨s', hrun⟩ := hshort hd (by rw [hleft, hright]; exact Bool.false_ne_true)
    obtain ⟨t', hrun', hframe'⟩ := parseRecord_kernel hd header hright
    rcases hrun'' : generalRecord cfg F input' start header t with ⟨_, t''⟩ | ⟨_, t''⟩ <;>
      rw [hrun, hrun''] at hgeneral
    · exact hboth ((parseRecord_general header hleft).trans hrun) hrun' hgeneral.2.left
        (hframe'.trans hsame.right) fun hcount => by rw [hd.fieldCount] at hcount; cases hcount
    · exact hgeneral.elim
  · have hd := hdefault hs hleft
    obtain ⟨e', hrun⟩ := hshort hd (by rw [hleft, hright]; exact Bool.false_ne_true.symm)
    obtain ⟨s', hrun', hframe'⟩ := parseRecord_kernel hd header hleft
    rcases hrun'' : generalRecord cfg F input' start header t with ⟨_, t''⟩ | ⟨_, t''⟩ <;>
      rw [hrun, hrun''] at hgeneral
    · exact hboth hrun' ((parseRecord_general header hright).trans hrun'')
        (hframe'.trans hsame.left) hgeneral.2.right
        fun hcount => by rw [hd.fieldCount] at hcount; cases hcount
    · exact hgeneral.elim
  · have hd := hdefault hs hleft
    obtain ⟨s', hrun, hframe⟩ := parseRecord_kernel hd header hleft
    obtain ⟨t', hrun', hframe'⟩ := parseRecord_kernel hd header hright
    exact hboth hrun hrun' (hframe.trans hsame.left) (hframe'.trans hsame.right)
      fun hcount => by rw [hd.fieldCount] at hcount; cases hcount

end records

/-! ## The record at the cursor -/

/-- Two engines behind one record of two documents. -/
structure Behind (cfg : ParserSettings) (c c' s t : Engine) : Prop where
  location : s.location = t.location
  expectedFields : cfg.fieldCount = .matchFirst → s.expectedFields = t.expectedFields
  left : s.frame = { c.frame with recordIndex := c.recordIndex + 1 }
  right : t.frame = { c'.frame with recordIndex := c'.recordIndex + 1 }

theorem Moved.behind (h : Moved cfg c c' s t) : Behind cfg c c' s t :=
  ⟨h.location, h.expectedFields, h.left, h.right⟩

/-- **The record at the cursor** is read alike from two documents that agree up
    to its end. -/
theorem parsePositionedRecord_cut (h : Splits cfg F) (hcut : Cut input input' stop)
    (hi : c.recordIndex = c'.recordIndex) {check check' : Bool}
    (hs : c.ownedParser = ownedParserFor cfg check)
    (ht : c'.ownedParser = ownedParserFor cfg check') (header : Bool)
    (hlocation : c.location = c'.location)
    (hfields : cfg.fieldCount = .matchFirst → c.expectedFields = c'.expectedFields)
    (hopen : Open cfg.dialect input stop false c.location)
    (hshort : input.length ≤ Span.maxOffset) (hshort' : input'.length ≤ Span.maxOffset) :
    Related (Behind cfg c c') (Likewise (physicalLine input c.lineBase c.lineOrigin)
        (physicalLine input' c'.lineBase c'.lineOrigin))
      (parsePositionedRecord cfg F input header c)
      (parsePositionedRecord cfg F input' header c') := by
  have hbegin : ∀ {doc : Bytes} (e : Engine), doc.length ≤ Span.maxOffset →
      beginSpans doc e = .ok () { e with spans := .empty } := by
    intro doc e hdoc
    unfold beginSpans
    rw [if_neg (Nat.not_lt_of_le hdoc)]
  have hsame : Same cfg c c' { c with spans := .empty } { c' with spans := .empty } :=
    ⟨hlocation, rfl, hfields, rfl, rfl⟩
  have hparse : Related (Past cfg c c') (Likewise (physicalLine input c.lineBase c.lineOrigin)
      (physicalLine input' c'.lineBase c'.lineOrigin))
      (parseRecord cfg F input c.location header { c with spans := .empty })
      (parseRecord cfg F input' c.location header { c' with spans := .empty }) :=
    parseRecord_cut h hcut hi (s := { c with spans := .empty }) (t := { c' with spans := .empty }) hs
      ht header hsame rfl rfl hopen
  have htrim : ∀ {doc : Bytes} (e : Engine), ∃ s, trimSpans cfg doc header e =
      .ok () (e.parsed e.location s e.terminated) := by
    intro doc e
    unfold trimSpans
    split_ifs
    · exact ⟨_, rfl⟩
    · exact ⟨e.spans, rfl⟩
  unfold parsePositionedRecord
  rw [bind_ok (hbegin c hshort), bind_ok (hbegin c' hshort'), get_bind, get_bind]
  simp only [← hlocation] at hparse ⊢
  refine (failing_related hparse).bind fun _ s t _ hpast => ?_
  obtain ⟨spans, htrimmed⟩ := @htrim input s
  obtain ⟨spans', htrimmed'⟩ := @htrim input' t
  rw [bind_ok htrimmed, bind_ok htrimmed', get_bind, get_bind, set_bind, set_bind]
  have hrecord : s.recordIndex = t.recordIndex :=
    (congrArg Engine.recordIndex hpast.left).trans
      (hi.trans (congrArg Engine.recordIndex hpast.right).symm)
  refine ⟨?_, hpast.location, hpast.expectedFields, ?_, ?_⟩
  · exact Prod.ext rfl (Prod.ext hpast.location hrecord)
  · exact congrArg (fun e : Engine => { e with recordIndex := e.recordIndex + 1 }) hpast.left
  · exact congrArg (fun e : Engine => { e with recordIndex := e.recordIndex + 1 }) hpast.right

end Engine

end Coseva
