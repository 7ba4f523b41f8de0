/-
  Coseva — the line tally of a window (`coseva/src/engine/access.rs`, `fold_plain_record`): the
  lines up to where the last fold ended are counted, and a parse counts the lines of its record, or
  none.

  * `Tallied`: what a parse that succeeds leaves of the engine;
  * `Disturbed`: what one that fails leaves;
  * `parseRecord_tallies`, `parsePositionedRecord_tallies`: the parse of a record.
-/
import Coseva.BorrowedFrame
import Coseva.OwnedMoves

namespace Coseva

open Run

namespace Engine

variable {cfg : ParserSettings} {F : CsvFormat} {input : Bytes} {pos : ℕ} {e e₁ e₂ : Engine}

/-! ## What a parse leaves -/

/-- The engine without what the parse of a record writes. -/
def beside (e : Engine) : Engine :=
  { e with location := 0, spans := .empty, terminated := false, expectedFields := none }

/-- Without the line tally, too. -/
def untallied (e : Engine) : Engine := { e.beside with foldedUpto := 0, foldedLines := 0 }

theorem beside_apart (rest : Engine) : Apart fun e => e.beside = rest where
  location _ _ h := h
  spans _ _ h := h
  terminated _ _ h := h
  expectedFields _ _ h := h

/-- The tally is as it was. -/
abbrev SameTally (e e' : Engine) : Prop :=
  e'.foldedUpto = e.foldedUpto ∧ e'.foldedLines = e.foldedLines

/-- Behind a record from `pos`: the rest is as it was, and the tally too, or it counts the lines of
    the record as well. -/
structure Tallied (input : Bytes) (pos : ℕ) (e e' : Engine) : Prop where
  rest : e'.untallied = e.untallied
  tally : SameTally e e' ∨ e.foldedUpto = pos ∧ pos ≤ e'.location ∧ e'.foldedUpto = e'.location ∧
    e'.foldedLines = e.foldedLines + (slice input pos e'.location).count 10

/-- Where a parse from `pos` fails, the tally may be ahead of the record. -/
structure Disturbed (pos : ℕ) (e e' : Engine) : Prop where
  rest : e'.untallied = e.untallied
  tally : SameTally e e' ∨ e.foldedUpto = pos ∧ pos ≤ e'.foldedUpto

theorem sameTally_of_beside (h : e₁.beside = e.beside) : SameTally e e₁ := by
  show e₁.beside.foldedUpto = e.beside.foldedUpto ∧ e₁.beside.foldedLines = e.beside.foldedLines
  rw [h]
  exact ⟨rfl, rfl⟩

theorem untallied_of_beside (h : e₁.beside = e.beside) : e₁.untallied = e.untallied := by
  unfold untallied
  rw [h]

theorem Tallied.of_beside (h : e₁.beside = e.beside) : Tallied input pos e e₁ :=
  ⟨untallied_of_beside h, Or.inl (sameTally_of_beside h)⟩

theorem Disturbed.of_beside (h : e₁.beside = e.beside) : Disturbed pos e e₁ :=
  ⟨untallied_of_beside h, Or.inl (sameTally_of_beside h)⟩

theorem Tallied.beside_right (h : Tallied input pos e e₁) (hbeside : e₂.beside = e₁.beside)
    (hat : e₂.location = e₁.location) : Tallied input pos e e₂ := by
  obtain ⟨hupto, hlines⟩ := sameTally_of_beside hbeside
  refine ⟨(untallied_of_beside hbeside).trans h.rest, ?_⟩
  rw [SameTally, hupto, hlines, hat]
  exact h.tally

theorem Tallied.beside_left (h : Tallied input pos e₁ e₂) (hbeside : e₁.beside = e.beside) :
    Tallied input pos e e₂ := by
  obtain ⟨hupto, hlines⟩ := sameTally_of_beside hbeside
  refine ⟨h.rest.trans (untallied_of_beside hbeside), ?_⟩
  rw [SameTally, ← hupto, ← hlines]
  exact h.tally

theorem Tallied.disturbed (h : Tallied input pos e e₁) (hbeside : e₂.beside = e₁.beside) :
    Disturbed pos e e₂ := by
  obtain ⟨hupto, hlines⟩ := sameTally_of_beside hbeside
  refine ⟨(untallied_of_beside hbeside).trans h.rest, ?_⟩
  rcases h.tally with ⟨hupto', hlines'⟩ | ⟨hat, hle, hupto', -⟩
  · exact Or.inl ⟨hupto.trans hupto', hlines.trans hlines'⟩
  · refine Or.inr ⟨hat, ?_⟩
    rw [hupto, hupto']
    exact hle

/-- A computation that leaves the engine but for what a parse writes. -/
theorem ends_of_leaves {α : Type} {m : Parse α} (h : ∀ rest, Leaves (fun e => e.beside = rest) m)
    (e : Engine) : Ends (fun _ e' => e'.beside = e.beside) (fun _ e' => e'.beside = e.beside) (m e) :=
  (h e.beside e rfl).mono (fun _ _ h => h) fun _ _ h => h.1

/-! ## Counting lines -/

theorem slice_line {w v : Bytes} (hdrop : input.drop pos = w ++ 10 :: v) :
    slice input pos (pos + w.length + 1) = w ++ [10] := by
  unfold slice
  rw [List.drop_take, hdrop, Nat.add_assoc, Nat.add_sub_cancel_left, List.take_append,
    List.take_of_length_le (Nat.le_succ _), Nat.add_sub_cancel_left, List.take_succ_cons, List.take_zero]

/-- The first line from a position has one line feed. -/
theorem count_line {w v : Bytes} (hdrop : input.drop pos = w ++ 10 :: v) (hw : 10 ∉ w) :
    (slice input pos (pos + w.length + 1)).count 10 = 1 := by
  rw [slice_line hdrop, List.count_append, List.count_eq_zero_of_not_mem hw]
  rfl

/-- A record ending among the structural bytes. -/
def isEnding (d : Dialect) (p : ℕ × UInt8) : Bool := p.2 == d.recordEnding.byte

theorem not_mem_of_find {d : Dialect} : ∀ (pos : ℕ) (text : Bytes),
    (structuralMatches d pos text).find? (isEnding d) = none → d.recordEnding.byte ∉ text
  | _, [], _ => List.not_mem_nil
  | pos, byte :: rest, hfind => by
    have hne : byte ≠ d.recordEnding.byte := by
      rintro rfl
      rw [structuralMatches, if_pos (by simp), List.find?_cons_of_pos (by simp [isEnding])] at hfind
      cases hfind
    have hrest : (structuralMatches d (pos + 1) rest).find? (isEnding d) = none := by
      rw [structuralMatches] at hfind
      split_ifs at hfind
      · rwa [List.find?_cons_of_neg (by simp [isEnding, hne])] at hfind
      · exact hfind
    exact List.not_mem_cons_of_ne_of_not_mem (fun h => hne h.symm) (not_mem_of_find (pos + 1) rest hrest)

theorem split_of_find {d : Dialect} {p : ℕ × UInt8} : ∀ (pos : ℕ) (text : Bytes),
    (structuralMatches d pos text).find? (isEnding d) = some p →
    ∃ w v, text = w ++ d.recordEnding.byte :: v ∧ d.recordEnding.byte ∉ w ∧ p.1 = pos + w.length
  | _, [], hfind => by cases hfind
  | pos, byte :: rest, hfind => by
    by_cases hbyte : byte = d.recordEnding.byte
    · subst hbyte
      rw [structuralMatches, if_pos (by simp), List.find?_cons_of_pos (by simp [isEnding])] at hfind
      exact ⟨[], rest, rfl, List.not_mem_nil, congrArg Prod.fst (Option.some.inj hfind).symm⟩
    have hrest : (structuralMatches d (pos + 1) rest).find? (isEnding d) = some p := by
      rw [structuralMatches] at hfind
      split_ifs at hfind
      · rwa [List.find?_cons_of_neg (by simp [isEnding, hbyte])] at hfind
      · exact hfind
    obtain ⟨w, v, hsplit, hw, hp⟩ := split_of_find (pos + 1) rest hrest
    refine ⟨byte :: w, v, congrArg (byte :: ·) hsplit,
      List.not_mem_cons_of_ne_of_not_mem (fun h => hbyte h.symm) hw, ?_⟩
    rw [hp, List.length_cons, Nat.add_assoc, Nat.add_comm 1]

/-! ## The kernels -/

/-- A kernel that takes a record counts its lines, and one that declines counts none. -/
def TalliedIf (input : Bytes) (pos : ℕ) (e : Engine) (taken : Bool) (e' : Engine) : Prop :=
  if taken then Tallied input pos e e' else e'.beside = e.beside

/-- Behind the fold of a record with so many lines. -/
theorem foldPlainRecordTerminator_tallies {terminated : Bool} {terminator : UInt8}
    (hcount : terminator = 10 → pos ≤ e.location ∧
      (slice input pos e.location).count 10 = terminated.toNat) :
    Ends (fun _ _ => False) (fun _ e' => Tallied input pos e e')
      (foldPlainRecordTerminator pos terminated terminator e) := by
  show Tallied input pos e (if _ then e else _)
  split_ifs with hskip
  · exact .of_beside rfl
  · simp only [ne_eq, Bool.or_eq_true, decide_eq_true_eq, not_or, Decidable.not_not] at hskip
    obtain ⟨hupto, hterminator⟩ := hskip
    obtain ⟨hle, hlines⟩ := hcount hterminator
    exact ⟨rfl, Or.inr ⟨hupto, hle, rfl, by rw [hlines]⟩⟩

theorem endPlainRecord_tallies (fieldStart fieldEnd at' : ℕ) {location : ℕ} {terminated : Bool}
    (hcount : (cfg.fmt F).dialect.recordEnding.byte = 10 → pos ≤ location ∧
      (slice input pos location).count 10 = terminated.toNat) :
    Ends (fun _ e' => e'.beside = e.beside) (TalliedIf input pos e)
      (endPlainRecord cfg F input pos fieldStart fieldEnd at' location terminated e) := by
  unfold endPlainRecord
  refine (ends_of_leaves (fun rest => pushSpan_leaves (beside_apart rest) _ _ _ _ _) e).bind fun _ e₁ h₁ => ?_
  rw [bind_ok (setLocation_apply ..), bind_ok (setTerminated_apply ..)]
  have hlook := @checkRecordLimitFor_looks cfg input pos location e₁.spans.len
    { e₁ with location, terminated }
  have hchecked : Ends (fun _ e' => e'.beside = e.beside)
      (fun _ e' => e'.beside = e.beside ∧ e'.location = location)
      (checkRecordLimit cfg input pos location { e₁ with location, terminated }) :=
    hlook.mono (fun _ _ h => h ▸ h₁) fun _ _ h => ⟨h ▸ h₁, h ▸ rfl⟩
  refine hchecked.bind fun _ e₂ h₂ => ?_
  obtain ⟨hsame, hat₂⟩ := h₂
  have hfold := @foldPlainRecordTerminator_tallies input pos e₂ terminated
    (cfg.fmt F).dialect.recordEnding.byte (by rw [hat₂]; exact hcount)
  refine (hfold.mono (fun _ _ h => h.elim) fun _ _ h => h).bind fun _ e₃ h₃ => ?_
  exact h₃.beside_left hsame

/-- The lines up to the record ending that the kernel finds, or to where its window ends. -/
def CountsTo (input : Bytes) (d : Dialect) (pos scanEnd : ℕ) (found : List (ℕ × UInt8)) : Prop :=
  d.recordEnding.byte = 10 →
    (∀ p, found.find? (isEnding d) = some p → pos ≤ p.1 + 1 ∧ (slice input pos (p.1 + 1)).count 10 = 1) ∧
      (found.find? (isEnding d) = none → pos ≤ scanEnd ∧ (slice input pos scanEnd).count 10 = 0)

theorem CountsTo.tail {d : Dialect} {scanEnd cursor : ℕ} {byte : UInt8} {rest : List (ℕ × UInt8)}
    (h : CountsTo input d pos scanEnd ((cursor, byte) :: rest)) (hne : byte ≠ d.recordEnding.byte) :
    CountsTo input d pos scanEnd rest := by
  intro hending
  have hskip : ((cursor, byte) :: rest).find? (isEnding d) = rest.find? (isEnding d) :=
    List.find?_cons_of_neg (by simp [isEnding, hne])
  rw [← hskip]
  exact h hending

theorem CountsTo.structural {d : Dialect} {scanEnd : ℕ} (hscan : pos ≤ scanEnd) :
    CountsTo input d pos scanEnd (structuralMatches d pos (slice input pos scanEnd)) := by
  intro hending
  refine ⟨fun p hp => ?_, fun hnone => ⟨hscan, ?_⟩⟩
  · obtain ⟨w, v, hsplit, hw, hat⟩ := split_of_find pos _ hp
    rw [hending] at hsplit hw
    have hdrop : input.drop pos = w ++ 10 :: (v ++ input.drop scanEnd) := by
      have hparts : input.drop pos = slice input pos scanEnd ++ input.drop scanEnd := by
        unfold slice
        rw [List.drop_take]
        conv_lhs => rw [← List.take_append_drop (scanEnd - pos) (input.drop pos), List.drop_drop,
          Nat.add_sub_cancel' hscan]
      rw [hparts, hsplit, List.append_assoc]
      rfl
    rw [hat]
    exact ⟨by omega, count_line hdrop hw⟩
  · have hnot := not_mem_of_find pos _ hnone
    rw [hending] at hnot
    exact List.count_eq_zero_of_not_mem hnot

theorem plainLoop_tallies {scanEnd : ℕ} (hne : (cfg.fmt F).dialect.recordEnding.byte ≠ (cfg.fmt F).dialect.delimiter)
    (found : List (ℕ × UInt8)) : ∀ (fieldStart : ℕ) (e : Engine),
      CountsTo input (cfg.fmt F).dialect pos scanEnd found →
      Ends (fun _ e' => e'.beside = e.beside) (TalliedIf input pos e)
        (plainLoop cfg F input pos scanEnd fieldStart found e) := by
  have hdecline : ∀ e : Engine, Ends (fun _ e' => e'.beside = e.beside) (TalliedIf input pos e)
      (declinePlain e) := fun _ => rfl
  induction found with
  | nil =>
    intro fieldStart e hcount
    rw [plainLoop]
    split_ifs
    · rfl
    · exact hdecline e
    · exact endPlainRecord_tallies _ _ _ fun hending => (hcount hending).2 rfl
  | cons first rest ih =>
    intro fieldStart e hcount
    obtain ⟨cursor, byte⟩ := first
    have hends : byte = (cfg.fmt F).dialect.recordEnding.byte → ∀ fieldEnd,
        Ends (fun _ e' => e'.beside = e.beside) (TalliedIf input pos e)
          (endPlainRecord cfg F input pos fieldStart fieldEnd cursor (cursor + 1) true e) := by
      intro hbyte fieldEnd
      refine endPlainRecord_tallies _ _ _ fun hending => (hcount hending).1 (cursor, byte) ?_
      exact List.find?_cons_of_pos (by simp [isEnding, hbyte])
    rw [plainLoop]
    dsimp only
    by_cases hdelimiter : byte = (cfg.fmt F).dialect.delimiter
    · rw [if_pos hdelimiter]
      refine (ends_of_leaves (fun rest => pushSpan_leaves (beside_apart rest) _ _ _ _ _) e).bind ?_
      intro _ e₁ h₁
      have hnext := ih (cursor + 1) e₁ (hcount.tail (by rw [hdelimiter]; exact hne.symm))
      refine hnext.mono (fun _ _ h => h.trans h₁) fun taken e₂ h₂ => ?_
      unfold TalliedIf at h₂ ⊢
      split_ifs at h₂ ⊢
      · exact h₂.beside_left h₁
      · exact h₂.trans h₁
    rw [if_neg hdelimiter]
    split_ifs with hquote hbyte hescape
    · exact hdecline e
    · exact hdecline e
    · exact hends hbyte _
    · exact hends hbyte _
    · exact ih fieldStart e (hcount.tail hbyte)

theorem plainKernel_tallies (hne : (cfg.fmt F).dialect.recordEnding.byte ≠ (cfg.fmt F).dialect.delimiter)
    (hin : pos ≤ input.length) (e : Engine) :
    Ends (fun _ e' => e'.beside = e.beside) (TalliedIf input pos e) (plainKernel cfg F input pos e) :=
  plainLoop_tallies hne _ _ e (CountsTo.structural (by omega))

theorem tryParseDefaultCsvBorrowed_tallies (e : Engine) :
    Ends (fun _ e' => e'.beside = e.beside) (TalliedIf input pos e)
      (tryParseDefaultCsvBorrowed cfg input pos e) := by
  unfold tryParseDefaultCsvBorrowed
  rw [get_bind]
  by_cases hprobe : (e.ownedParser.isNone || decide (input.length - pos < defaultBorrowedProbe)) = true
  · rw [if_pos hprobe]
    rfl
  rw [if_neg hprobe]
  rcases hplain : tryParseDefaultBorrowedPlain cfg input pos e.spans.spans with _ | ⟨consumed, spans⟩
  · dsimp only
    split_ifs
    · rfl
    · rcases tryParseDefaultBorrowedRecord cfg input pos e.spans with _ | ⟨consumed, terminated, spans⟩
      · rfl
      · exact Tallied.of_beside rfl
  have hcount : pos ≤ pos + consumed ∧ (slice input pos (pos + consumed)).count 10 = 1 := by
    unfold tryParseDefaultBorrowedPlain at hplain
    split_ifs at hplain
    by_cases hlf : 10 ∈ input.drop pos
    swap
    · rw [borrowedPlainBlocks_none maxBatchedBlocks 0 pos e.spans.spans hlf] at hplain
      cases hplain
    obtain ⟨w, v, hdrop, hw⟩ := List.eq_append_cons_of_mem hlf
    rcases borrowedPlainBlocks_reads pos maxBatchedBlocks 0 pos e.spans.spans w v hw hdrop with
      hnone | ⟨-, hsome⟩
    · rw [hnone] at hplain
      cases hplain
    rw [hsome] at hplain
    obtain rfl : 0 + w.length + 1 = consumed := congrArg Prod.fst (Option.some.inj hplain)
    rw [Nat.zero_add, ← Nat.add_assoc]
    exact ⟨by omega, count_line hdrop hw⟩
  dsimp only
  rw [set_bind]
  have hfold := @foldPlainRecordTerminator_tallies input pos { e with
    location := pos + consumed
    spans := { e.spans with spans }
    terminated := e.terminated || pos + consumed == input.length } true 10 fun _ => hcount
  exact (hfold.mono (fun _ _ h => h.elim) fun _ _ h => h).bind fun _ _ h => h.beside_left rfl

theorem tryParseBorrowedPlain_tallies
    (hne : (cfg.fmt F).dialect.recordEnding.byte ≠ (cfg.fmt F).dialect.delimiter)
    (hin : pos ≤ input.length) (e : Engine) :
    Ends (fun _ e' => e'.beside = e.beside) (TalliedIf input pos e)
      (tryParseBorrowedPlain cfg F input pos e) := by
  have hkernel : ∀ (parsed : Bool) (e₁ : Engine), TalliedIf input pos e parsed e₁ →
      Ends (fun _ e' => e'.beside = e.beside) (TalliedIf input pos e)
        ((if parsed = true then pure true else plainKernel cfg F input pos : Parse Bool) e₁) := by
    rintro (_ | _) e₁ h₁
    · have hsame : e₁.beside = e.beside := h₁
      refine (plainKernel_tallies hne hin e₁).mono (fun _ _ h => h.trans hsame) fun taken e₂ h₂ => ?_
      unfold TalliedIf at h₂ ⊢
      split_ifs at h₂ ⊢
      · exact h₂.beside_left hsame
      · exact h₂.trans hsame
    · exact h₁
  unfold tryParseBorrowedPlain
  split_ifs
  · exact (tryParseDefaultCsvBorrowed_tallies e).bind hkernel
  · exact hkernel false e rfl

/-! ## The parse of a record -/

/-- The passes over a record that a kernel has taken move no cursor. -/
theorem finishRecord_stays (recordStart : ℕ) (header : Bool) : Stays e.location ((do
    if ParserSettings.needsRecordPass (cfg.fmt F).dialect (cfg.fmt F).nulls then
      finishPlainRecord cfg F input recordStart header
    else pure ()
    let e ← get
    validateFieldCount cfg input e.spans.len : Parse Unit) e) := by
  have hcount : ∀ e₁ : Engine, e₁.location = e.location → Stays e.location
      ((do let e ← get; validateFieldCount cfg input e.spans.len : Parse Unit) e₁) := by
    intro e₁ hat
    rw [get_bind, ← hat]
    exact validateFieldCount_stays e₁.spans.len
  split_ifs
  · exact Stays.bind (finishPlainRecord_stays recordStart header) fun _ e₁ h => hcount e₁ h
  · exact hcount e rfl

/-- **The parse of a record** keeps the tally honest, and the rest of the engine as it is. -/
theorem parseRecord_tallies
    (hne : (cfg.fmt F).dialect.recordEnding.byte ≠ (cfg.fmt F).dialect.delimiter)
    (hin : pos ≤ input.length) (header : Bool) (e : Engine) :
    Ends (fun _ e' => Disturbed pos e e') (fun _ e' => Tallied input pos e e')
      (parseRecord cfg F input pos header e) := by
  have hthen : ∀ (plain : Bool) (e₁ : Engine), TalliedIf input pos e plain e₁ →
      Ends (fun _ e' => Disturbed pos e e') (fun _ e' => Tallied input pos e e')
        ((if plain = true then do
          if ParserSettings.needsRecordPass (cfg.fmt F).dialect (cfg.fmt F).nulls then
            finishPlainRecord cfg F input pos header
          else pure ()
          let e ← get
          validateFieldCount cfg input e.spans.len
        else parseRecordFieldsFor cfg F input pos header : Parse Unit) e₁) := by
    rintro (_ | _) e₁ h₁
    · have hsame : e₁.beside = e.beside := h₁
      exact (ends_of_leaves (fun rest => parseRecordFieldsFor_leaves (beside_apart rest) _ _) e₁).mono
        (fun _ _ h => .of_beside (h.trans hsame)) fun _ _ h => .of_beside (h.trans hsame)
    · have htallied : Tallied input pos e e₁ := h₁
      have hbeside := ends_of_leaves (fun rest =>
        @finishRecord_leaves cfg F input _ (beside_apart rest) pos header) e₁
      refine (hbeside.and (finishRecord_stays pos header)).mono (fun _ _ h => htallied.disturbed h.1) ?_
      exact fun _ _ h => htallied.beside_right h.1 h.2
  unfold parseRecord
  by_cases hcandidate : plainRecordCandidate cfg F input[pos]? = true
  · rw [if_pos hcandidate]
    refine Ends.bind ?_ hthen
    exact (tryParseBorrowedPlain_tallies hne hin e).mono (fun _ _ h => .of_beside h) fun _ _ h => h
  · rw [if_neg hcandidate]
    exact hthen false e rfl

/-- The engine as if no parse had failed. -/
def unfailed (e : Engine) : Engine := { e with failed := false }

theorem failing_ends {α : Type} {m : Parse α} {E : Engine → Prop} {Q : α → Engine → Prop}
    (h : Ends (fun _ e' => E e'.unfailed) Q (m e)) : Ends (fun _ e' => E e'.unfailed) Q (failing m e) := by
  unfold failing
  rcases hrun : m e with ⟨a, e'⟩ | ⟨fault, e'⟩
  · rw [hrun] at h
    exact h
  · rw [hrun] at h
    cases fault with
    | error kind location => exact h
    | panic => exact h
    | stuck => exact h

/-- The record at the cursor has its number, and the next one follows it. -/
theorem parsePositionedRecord_tallies
    (hne : (cfg.fmt F).dialect.recordEnding.byte ≠ (cfg.fmt F).dialect.delimiter)
    (hin : e.location ≤ input.length) (header : Bool) :
    Ends (fun _ e' => Disturbed e.location e.unfailed e'.unfailed)
      (fun range e' => range.2.2 = e.recordIndex ∧
        Tallied input e.location { e with recordIndex := e.recordIndex + 1 } e')
      (parsePositionedRecord cfg F input header e) := by
  unfold parsePositionedRecord
  refine Ends.bind (P := fun _ e₁ => e₁ = { e with spans := .empty }) ?_ ?_
  · unfold beginSpans
    split_ifs
    · exact ⟨rfl, Or.inl ⟨rfl, rfl⟩⟩
    · rfl
  rintro _ e₁ rfl
  rw [get_bind]
  have hparse := parseRecord_tallies hne hin header { e with spans := .empty }
  refine Ends.bind (P := fun _ e' => Tallied input e.location e e') (failing_ends ?_) ?_
  · refine hparse.mono (fun _ e' h => ⟨?_, h.tally⟩) fun _ _ h => h.beside_left rfl
    show e'.untallied.unfailed = e.untallied.unfailed
    exact congrArg unfailed h.rest
  intro _ e₂ h₂
  refine Ends.bind (P := fun _ e' => Tallied input e.location e e') ?_ ?_
  · unfold trimSpans
    split_ifs
    · exact h₂.beside_right rfl rfl
    · exact h₂
  intro _ e₃ h₃
  have hindex : e₃.recordIndex = e.recordIndex := by
    show e₃.untallied.recordIndex = e.untallied.recordIndex
    rw [h₃.rest]
  refine ⟨hindex, ?_, h₃.tally⟩
  show ({ e₃.untallied with recordIndex := e₃.recordIndex + 1 } : Engine) =
    { e.untallied with recordIndex := e.recordIndex + 1 }
  rw [h₃.rest, hindex]

end Engine

end Coseva
