/-
  Coseva — the cursor over a window that may grow (`coseva/src/engine/cursor.rs`,
  `engine/framing.rs`): what it keeps from record to record, and what a read that is taken back has
  changed.

  * `Standing`: the cursor is in its window, its line tally counts what it says, and a record that
    was not read yet has the next number;
  * `Undoable`: a restore of the cursor undoes everything that matters of a read, also of one that
    fails;
  * `Went`: a read has passed over some records, each with a number of its own;
  * `parsePositionedRecord_goes`, `fillRecordSpans_goes`, `readPhysicalStorageMode_goes`,
    `position_goes`, `settle_goes`: one lemma for each operation of the engine.
-/
import Coseva.LineTally
import Coseva.Lib.Tiles
import Coseva.WindowCursor

namespace Coseva

open Run

/-- The line feeds in front of an offset. -/
def linesBefore (input : Bytes) (offset : ℕ) : ℕ := (input.take offset).count 10

theorem linesBefore_add (input : Bytes) {i j : ℕ} (h : i ≤ j) :
    linesBefore input j = linesBefore input i + (slice input i j).count 10 := by
  unfold linesBefore slice
  rw [← List.count_append]
  conv_lhs => rw [← List.take_append_drop i (input.take j), List.take_take, Nat.min_eq_left h]

/-- The byte range and the index of a record. -/
def Record.range (r : Record) : ℕ × ℕ × ℕ := (r.start, r.stop, r.index)

def OwnedRecord.range (r : OwnedRecord) : ℕ × ℕ × ℕ := (r.start, r.stop, r.index)

namespace Engine

variable {cfg : ParserSettings} {F : CsvFormat} {input : Bytes} {low : ℕ} {e e₁ e₂ : Engine}

/-! ## The cursor at rest -/

/-- A checkpoint is in a comment only where the dialect has comments, and then behind its first
    byte. -/
structure Resumable (cfg : ParserSettings) (resume : ResumeState) : Prop where
  ahead : resume.ignored = true → ∀ start, resume.recordStart = some start → start ≤ resume.scannedTo
  comment : resume.ignored = true → cfg.dialect.comment.isSome = true

/-- A checkpoint lies in the window. -/
def Inside (input : Bytes) (resume : ResumeState) : Prop :=
  ∀ start, resume.recordStart = some start → start ≤ input.length

/-- A checkpoint that may take the place of another. -/
structure Replaces (cfg : ParserSettings) (input : Bytes) (resume resume' : ResumeState) : Prop where
  resumed : Resumable cfg resume'
  kept : Inside input resume → Inside input resume'

/-- What holds of the cursor between two calls. -/
structure Standing (cfg : ParserSettings) (input : Bytes) (e : Engine) : Prop where
  failed : e.failed = false
  inside : e.location ≤ input.length
  resumed : Resumable cfg e.resume
  lineOrigin : e.lineOrigin = 0
  folded : e.foldedUpto ≤ e.location
  lines : e.foldedLines = linesBefore input e.foldedUpto
  /-- a record that was positioned on and not read has the next number -/
  cursor : ∀ start, e.cursorStart = some start → start ≤ e.location ∧
    (start = e.location → e.cursorIndex = e.recordIndex ∧ start < input.length)

/-- What a restore to `low`, from where `e` stood, cannot undo is as it was. -/
structure Undoable (cfg : ParserSettings) (input : Bytes) (low : ℕ) (e e' : Engine) : Prop where
  lineBase : e'.lineBase = e.lineBase
  lineOrigin : e'.lineOrigin = e.lineOrigin
  resumed : Resumable cfg e'.resume
  kept : Inside input e.resume → Inside input e'.resume
  tally : SameTally e e' ∨ low ≤ e.foldedUpto ∧ low ≤ e'.foldedUpto

/-- The cursor has gone from `e` over some records, behind `low`. -/
structure Went (cfg : ParserSettings) (input : Bytes) (low : ℕ) (e : Engine)
    (pieces : List (ℕ × ℕ)) (e' : Engine) : Prop extends Undoable cfg input low e e' where
  standing : Standing cfg input e'
  tiles : Tiles e.location pieces e'.location
  recordIndex : e'.recordIndex = e.recordIndex + pieces.length
  headers : e.headersInitialized = true → e'.headersInitialized = true

theorem Resumable.new : Resumable cfg .new where
  ahead h := by cases h
  comment h := by cases h

theorem Resumable.fresh {start : ℕ} : Resumable cfg (.fresh start) where
  ahead h := by cases h
  comment h := by cases h

theorem Inside.new : Inside input .new := fun _ h => by cases h

theorem Inside.fresh {start : ℕ} (h : start ≤ input.length) : Inside input (.fresh start) :=
  fun _ hstart => (Option.some.inj hstart) ▸ h

theorem Undoable.trans (h : Undoable cfg input low e e₁) (h' : Undoable cfg input low e₁ e₂) :
    Undoable cfg input low e e₂ := by
  refine ⟨h'.lineBase.trans h.lineBase, h'.lineOrigin.trans h.lineOrigin, h'.resumed,
    fun hinside => h'.kept (h.kept hinside), ?_⟩
  rcases h.tally with ⟨hupto, hlines⟩ | ⟨hlow, hlow'⟩ <;>
    rcases h'.tally with ⟨hupto', hlines'⟩ | ⟨hlow₁, hlow₂⟩
  · exact Or.inl ⟨hupto'.trans hupto, hlines'.trans hlines⟩
  · exact Or.inr ⟨hupto ▸ hlow₁, hlow₂⟩
  · exact Or.inr ⟨hlow, hupto'.symm ▸ hlow'⟩
  · exact Or.inr ⟨hlow, hlow₂⟩

theorem Undoable.refl (h : Resumable cfg e.resume) : Undoable cfg input low e e :=
  ⟨rfl, rfl, h, id, Or.inl ⟨rfl, rfl⟩⟩

theorem Went.refl (h : Standing cfg input e) : Went cfg input low e [] e :=
  ⟨.refl h.resumed, h, Nat.le_refl _, rfl, id⟩

theorem Went.trans {pieces rest : List (ℕ × ℕ)} (h : Went cfg input low e pieces e₁)
    (h' : Went cfg input low e₁ rest e₂) : Went cfg input low e (pieces ++ rest) e₂ := by
  refine ⟨h.toUndoable.trans h'.toUndoable, h'.standing, h.tiles.append h'.tiles, ?_,
    fun he => h'.headers (h.headers he)⟩
  rw [h'.recordIndex, h.recordIndex, List.length_append, Nat.add_assoc]

/-- The marks of a parse do not matter to the cursor. -/
theorem Went.marked {pieces : List (ℕ × ℕ)} (h : Went cfg input low e pieces e₁) (terminated : Bool)
    (cursorEnd : Option ℕ) : Went cfg input low e pieces { e₁ with terminated, cursorEnd } :=
  ⟨⟨h.lineBase, h.lineOrigin, h.resumed, h.kept, h.tally⟩,
    ⟨h.standing.failed, h.standing.inside, h.resumed, h.standing.lineOrigin, h.standing.folded,
      h.standing.lines, h.standing.cursor⟩, h.tiles, h.recordIndex, h.headers⟩

theorem Undoable.remarked {resume : ResumeState} (h : Undoable cfg input low e e₁)
    (hresume : Replaces cfg input e₁.resume resume) : Undoable cfg input low e { e₁ with resume } :=
  ⟨h.lineBase, h.lineOrigin, hresume.resumed, fun hinside => hresume.kept (h.kept hinside), h.tally⟩

theorem Went.remarked {pieces : List (ℕ × ℕ)} {resume : ResumeState}
    (h : Went cfg input low e pieces e₁) (hresume : Replaces cfg input e₁.resume resume) :
    Went cfg input low e pieces { e₁ with resume } :=
  ⟨h.toUndoable.remarked hresume,
    ⟨h.standing.failed, h.standing.inside, hresume.resumed, h.standing.lineOrigin, h.standing.folded,
      h.standing.lines, h.standing.cursor⟩, h.tiles, h.recordIndex, h.headers⟩

theorem Went.le {pieces : List (ℕ × ℕ)} (h : Went cfg input low e pieces e₁) :
    e.location ≤ e₁.location := h.tiles.le

/-! ## Comments and blank lines -/

/-- The cursor has passed over lines that are no records. -/
structure Passes (cfg : ParserSettings) (input : Bytes) (e e' : Engine) : Prop where
  le : e.location ≤ e'.location
  inside : e'.location ≤ input.length
  resumed : Resumable cfg e'.resume
  checkpoint : Inside input e.resume → Inside input e'.resume
  kept : e' = { e with location := e'.location, resume := e'.resume }

theorem Passes.refl (hin : e.location ≤ input.length) (h : Resumable cfg e.resume) :
    Passes cfg input e e := ⟨Nat.le_refl _, hin, h, id, rfl⟩

theorem Passes.trans (h : Passes cfg input e e₁) (h' : Passes cfg input e₁ e₂) :
    Passes cfg input e e₂ := by
  refine ⟨Nat.le_trans h.le h'.le, h'.inside, h'.resumed,
    fun hinside => h'.checkpoint (h.checkpoint hinside), ?_⟩
  rw [h'.kept, h.kept]

theorem Passes.went (hpasses : Passes cfg input e e₁) (h : Standing cfg input e) :
    Went cfg input low e [] e₁ := by
  have hkept := hpasses.kept
  have hle := hpasses.le
  generalize e₁.location = location at hkept hle
  generalize e₁.resume = resume at hkept
  subst hkept
  refine ⟨⟨rfl, rfl, hpasses.resumed, hpasses.checkpoint, Or.inl ⟨rfl, rfl⟩⟩, ?_, hle, rfl, id⟩
  refine ⟨h.failed, hpasses.inside, hpasses.resumed, h.lineOrigin, Nat.le_trans h.folded hle, h.lines, ?_⟩
  intro start hstart
  obtain ⟨hstart', hsame⟩ := h.cursor start hstart
  refine ⟨Nat.le_trans hstart' hle, fun hat => ?_⟩
  exact hsame (Nat.le_antisymm hstart' (hat ▸ hle))

section skipping

variable (hs : cfg.dialect.Sound)

include hs

theorem skipCommentsLoop_passes {comment : UInt8} (hcomment : cfg.dialect.comment = some comment)
    (fuel : ℕ) : ∀ e : Engine, e.location ≤ input.length → Resumable cfg e.resume →
      Passes cfg input e (skipCommentsLoop cfg input comment fuel e) := by
  induction fuel with
  | zero => exact fun e hin h => .refl hin h
  | succ fuel ih =>
    intro e hin h
    -- the comment ends behind where it is scanned from, or goes on to the end of the window
    have hends : ∀ scanStart stop, e.location ≤ scanStart →
        findRecordEnding cfg input scanStart = some stop →
        Passes cfg input e (skipCommentsLoop cfg input comment fuel
          { e with location := stop, resume := .new }) := by
      intro scanStart stop hscan hfind
      obtain ⟨hlt, hle⟩ := findRecordEndingLoop_within hs _ _ _ hfind
      have hpast : e.location ≤ stop := by omega
      have hstep : Passes cfg input e { e with location := stop, resume := .new } :=
        ⟨hpast, hle, .new, fun _ => .new, rfl⟩
      exact hstep.trans (ih _ hle .new)
    have hopen : Passes cfg input e { e with
        location := input.length
        resume := .ofIgnored e.location
          (max (input.length - max cfg.dialect.endingTail.width 2) e.location) } := by
      refine ⟨hin, Nat.le_refl _, ⟨fun _ start hstart => ?_, fun _ => ?_⟩, fun _ start hstart => ?_, rfl⟩
      · exact (Option.some.inj hstart) ▸ Nat.le_max_right _ _
      · rw [hcomment]
        rfl
      · exact (Option.some.inj hstart) ▸ hin
    rw [skipCommentsLoop]
    cases hresuming : (e.resume.ignored && e.resume.recordStart == some e.location
      && decide (e.resume.scannedTo ≤ input.length)) with
    | true =>
      simp only [Bool.not_true, Bool.false_and, Bool.false_eq_true, if_false, if_true]
      simp only [Bool.and_eq_true, beq_iff_eq, decide_eq_true_eq] at hresuming
      have hscan := h.ahead hresuming.1.1 _ hresuming.1.2
      rcases hfind : findRecordEnding cfg input e.resume.scannedTo with _ | stop
      · exact hopen
      · exact hends _ stop hscan hfind
    | false =>
      simp only [Bool.not_false, Bool.true_and, Bool.false_eq_true, if_false]
      split_ifs
      · exact .refl hin h
      rcases hfind : findRecordEnding cfg input e.location with _ | stop
      · exact hopen
      · exact hends _ stop (Nat.le_refl _) hfind

theorem skipBlankLinesLoop_passes (fuel : ℕ) : ∀ e : Engine, e.location ≤ input.length →
    Resumable cfg e.resume → Passes cfg input e (skipBlankLinesLoop cfg input fuel e) := by
  induction fuel with
  | zero => exact fun e hin h => .refl hin h
  | succ fuel ih =>
    intro e hin h
    rw [skipBlankLinesLoop]
    rcases hwidth : recordEndingWidthAt cfg input e.location with _ | width
    · exact .refl hin h
    · obtain ⟨-, hle⟩ := recordEndingWidthAt_within hs hwidth
      have hstep : Passes cfg input e { e with location := e.location + width } :=
        ⟨Nat.le_add_right _ _, hle, h, id, rfl⟩
      exact hstep.trans (ih _ hle h)

theorem skipIgnoredLoop_passes (fuel : ℕ) : ∀ (skipped : Bool) (e : Engine),
    e.location ≤ input.length → Resumable cfg e.resume →
      Passes cfg input e (skipIgnoredLoop cfg input fuel skipped e).2 := by
  induction fuel with
  | zero => exact fun _ e hin h => .refl hin h
  | succ fuel ih =>
    intro skipped e hin h
    have hcomments : Passes cfg input e (skipComments cfg input e) := by
      unfold skipComments
      rcases hcomment : cfg.dialect.comment with _ | comment
      · exact .refl hin h
      · exact skipCommentsLoop_passes hs hcomment _ e hin h
    have hnext : Passes cfg input e (skipBlankLines cfg input (skipComments cfg input e)) := by
      refine hcomments.trans ?_
      unfold skipBlankLines
      split_ifs
      · exact skipBlankLinesLoop_passes hs _ _ hcomments.inside hcomments.resumed
      · exact .refl hcomments.inside hcomments.resumed
    rw [skipIgnoredLoop]
    split_ifs
    · exact hnext
    · exact hnext.trans (ih true _ hnext.inside hnext.resumed)

theorem skipIgnoredRecords_passes (hin : e.location ≤ input.length)
    (h : Resumable cfg e.resume) : Passes cfg input e (skipIgnoredRecords cfg input e) := by
  have hloop := skipIgnoredLoop_passes hs (input.length + 2) e.resume.ignored e hin h
  unfold skipIgnoredRecords
  generalize skipIgnoredLoop cfg input (input.length + 2) e.resume.ignored e = result at hloop ⊢
  dsimp only
  split_ifs
  · exact hloop.trans ⟨Nat.le_refl _, hloop.inside, .fresh, fun _ => .fresh hloop.inside, rfl⟩
  · exact hloop

theorem skippedOn_passes (hin : e.location ≤ input.length) (h : Resumable cfg e.resume) :
    Passes cfg input e (skippedOn cfg input e) := by
  unfold skippedOn
  split_ifs
  · exact skipIgnoredRecords_passes hs hin h
  · exact .refl hin h

theorem skipToRecord_passes (hin : e.location ≤ input.length) (h : Resumable cfg e.resume) :
    Passes cfg input e (skipToRecord cfg input e) := by
  have hresumed : ∀ location, e.location ≤ location → location ≤ input.length →
      Passes cfg input e (skipIgnoredRecords cfg input { e with location }) := by
    intro location hle hin'
    have hstep : Passes cfg input e { e with location } := ⟨hle, hin', h, id, rfl⟩
    exact hstep.trans (skipIgnoredRecords_passes hs hin' h)
  unfold skipToRecord
  split_ifs
  swap
  · exact .refl hin h
  rcases hstart : e.resume.recordStart with _ | start
  · exact hresumed _ (Nat.le_refl _) hin
  · dsimp only
    split_ifs with hstart
    · simp only [Bool.and_eq_true, decide_eq_true_eq] at hstart
      exact hresumed _ (Nat.le_max_left _ _) (Nat.max_le.mpr ⟨hin, hstart.2⟩)
    · exact hresumed _ (Nat.le_refl _) hin

end skipping

/-! ## Records -/

/-- The record that the cursor is on is still the same. -/
abbrev SameCursor (e e' : Engine) : Prop :=
  e'.cursorStart = e.cursorStart ∧ e'.cursorEnd = e.cursorEnd ∧ e'.cursorIndex = e.cursorIndex

/-- What the parse of a record leaves alone. -/
structure Alongside (e e' : Engine) : Prop where
  failed : e'.failed = e.failed
  headers : e'.headersInitialized = e.headersInitialized
  resume : e'.resume = e.resume
  cursor : SameCursor e e'
  lineBase : e'.lineBase = e.lineBase
  lineOrigin : e'.lineOrigin = e.lineOrigin

theorem alongside_of_untallied (h : e₁.untallied = e.untallied) : Alongside e e₁ := by
  unfold untallied beside at h
  refine ⟨?_, ?_, ?_, ⟨?_, ?_, ?_⟩, ?_, ?_⟩
  all_goals injections

theorem alongside_of_aside (h : e₁.aside = e.aside) :
    Alongside e e₁ ∧ SameTally e e₁ ∧ e₁.recordIndex = e.recordIndex := by
  unfold Engine.aside at h
  refine ⟨⟨?_, ?_, ?_, ⟨?_, ?_, ?_⟩, ?_, ?_⟩, ⟨?_, ?_⟩, ?_⟩
  all_goals injections

/-- A parse that fails at the cursor. -/
theorem undoable_record (h : Standing cfg input e) (hlow : low ≤ e.location)
    (halong : Alongside e.unfailed e₁.unfailed)
    (htally : SameTally e e₁ ∨ e.foldedUpto = e.location ∧ e.location ≤ e₁.foldedUpto) :
    Undoable cfg input low e e₁ := by
  have hresume : e₁.resume = e.resume := halong.resume
  refine ⟨halong.lineBase, halong.lineOrigin, hresume ▸ h.resumed, fun hin => hresume ▸ hin, ?_⟩
  rcases htally with hsame | ⟨hat, hle⟩
  · exact Or.inl hsame
  · exact Or.inr ⟨by omega, by omega⟩

/-- One that succeeds. -/
theorem went_record (h : Standing cfg input e) (hlow : low ≤ e.location)
    (hlt : e.location < e₁.location) (hin : e₁.location ≤ input.length) (halong : Alongside e e₁)
    (hindex : e₁.recordIndex = e.recordIndex + 1)
    (htally : SameTally e e₁ ∨ e.foldedUpto = e.location ∧ e₁.foldedUpto = e₁.location ∧
      e₁.foldedLines = e.foldedLines + (slice input e.location e₁.location).count 10) :
    Went cfg input low e [(e.location, e₁.location)] e₁ := by
  have hresumed : Resumable cfg e₁.resume := halong.resume ▸ h.resumed
  have hle := Nat.le_of_lt hlt
  refine ⟨⟨halong.lineBase, halong.lineOrigin, hresumed, fun hin => halong.resume ▸ hin, ?_⟩,
    ⟨halong.failed.trans h.failed, hin, hresumed, halong.lineOrigin.trans h.lineOrigin, ?_, ?_, ?_⟩,
    .single (Nat.le_refl _) hlt (Nat.le_refl _), hindex, halong.headers.trans⟩
  · rcases htally with hsame | ⟨hat, hupto, -⟩
    · exact Or.inl hsame
    · exact Or.inr ⟨by omega, by omega⟩
  · rcases htally with ⟨hupto, -⟩ | ⟨-, hupto, -⟩
    · exact hupto ▸ Nat.le_trans h.folded hle
    · exact Nat.le_of_eq hupto
  · rcases htally with ⟨hupto, hlines⟩ | ⟨hat, hupto, hlines⟩
    · rw [hupto, hlines]
      exact h.lines
    · rw [hlines, hupto, linesBefore_add input hle, h.lines, hat]
  · rw [halong.cursor.1]
    intro start hstart
    obtain ⟨hbefore, -⟩ := h.cursor start hstart
    exact ⟨Nat.le_trans hbefore hle, fun hat => absurd hat (by omega)⟩

/-- What a read finds at the cursor: nothing, or a record under the next number. -/
structure Finds (cfg : ParserSettings) (input : Bytes) (low : ℕ) (e : Engine)
    (range : Option (ℕ × ℕ × ℕ)) (e' : Engine) : Prop where
  went : Went cfg input low e (range.toList.map fun range => (range.1, range.2.1)) e'
  cursor : SameCursor e e'
  record : ∀ r, range = some r → r.2.1 = e'.location ∧ r.2.2 = e.recordIndex

/-- The same, behind comments and blank lines. -/
theorem Finds.of_passes {range : Option (ℕ × ℕ × ℕ)} (h : Standing cfg input e)
    (hpasses : Passes cfg input e e₁) (hfinds : Finds cfg input low e₁ range e₂) :
    Finds cfg input low e range e₂ := by
  have hwent : Went cfg input low e [] e₁ := hpasses.went h
  have hcursor : SameCursor e e₁ := by
    rw [hpasses.kept]
    exact ⟨rfl, rfl, rfl⟩
  refine ⟨hwent.trans hfinds.went, ?_, fun r hr => ?_⟩
  · exact ⟨hfinds.cursor.1.trans hcursor.1, hfinds.cursor.2.1.trans hcursor.2.1,
      hfinds.cursor.2.2.trans hcursor.2.2⟩
  · obtain ⟨hstop, hindex⟩ := hfinds.record r hr
    exact ⟨hstop, hindex.trans hwent.recordIndex⟩

section reading

variable (hs : cfg.dialect.Sound)

include hs

/-- **The record at the cursor** is read under its number, and what fails can be undone. -/
theorem parsePositionedRecord_goes (hF : cfg.Follows F) (header : Bool) (h : Standing cfg input e)
    (hlow : low ≤ e.location) (hlt : e.location < input.length) :
    Ends (fun _ e' => Undoable cfg input low e e')
      (fun range e' => range.1 = e.location ∧ Finds cfg input low e (some range) e')
      (parsePositionedRecord cfg F input header e) := by
  have hne : (cfg.fmt F).dialect.recordEnding.byte ≠ (cfg.fmt F).dialect.delimiter := by
    rw [hF.dialect]
    exact hs.ending_ne_delimiter
  have hmoves := parsePositionedRecord_moves hs hF header h.inside
  have htallies := parsePositionedRecord_tallies hne h.inside header
  refine (hmoves.and htallies).mono ?_ ?_
  · rintro _ e' ⟨-, hrest, htally⟩
    exact undoable_record h hlow (alongside_of_untallied hrest) htally
  · rintro ⟨start, stop, index⟩ e' ⟨⟨hstart, hstop, hpassed, -⟩, hindex, hrest, htally⟩
    obtain rfl : start = e.location := hstart
    obtain rfl : stop = e'.location := hstop
    obtain rfl : index = e.recordIndex := hindex
    have halong := alongside_of_untallied hrest
    refine ⟨rfl, ⟨?_, halong.cursor, ?_⟩⟩
    · refine went_record h hlow (hpassed.lt hlt) hpassed.inside
        ⟨halong.failed, halong.headers, halong.resume, halong.cursor, halong.lineBase, halong.lineOrigin⟩
        hpassed.recordIndex ?_
      exact htally.imp id fun h => ⟨h.1, h.2.2⟩
    · intro r hr
      obtain rfl := Option.some.inj hr
      exact ⟨rfl, rfl⟩

theorem fillRecordSpans_goes (hF : cfg.Follows F) (header : Bool) (h : Standing cfg input e)
    (hlow : low ≤ e.location) :
    Ends (fun _ e' => Undoable cfg input low e e') (fun range e' => Finds cfg input low e range e')
      (fillRecordSpans cfg F input header e) := by
  have hpasses := skippedOn_passes hs h.inside h.resumed
  have hnext : Standing cfg input (skippedOn cfg input e) :=
    (hpasses.went h : Went cfg input low e [] _).standing
  have hcheck : checkFailed input e = .ok () e := if_neg (by simp [h.failed])
  unfold fillRecordSpans
  rw [bind_ok hcheck, modify_bind, get_bind]
  unfold skippedOn at hpasses hnext
  generalize (if cfg.skipsRecords = true then skipIgnoredRecords cfg input e else e) = next
    at hpasses hnext ⊢
  have hlow' := Nat.le_trans hlow hpasses.le
  split_ifs with hend
  · exact ⟨hpasses.went h, by rw [hpasses.kept]; exact ⟨rfl, rfl, rfl⟩, fun _ hr => by cases hr⟩
  · have hlt := Nat.lt_of_le_of_ne hpasses.inside hend
    have hparse := parsePositionedRecord_goes hs hF header hnext hlow' hlt
    refine (hparse.mono (fun _ _ hundoable => ?_) fun _ _ h => h).map fun range e' hfinds => ?_
    · exact (hpasses.went h : Went cfg input low e [] _).toUndoable.trans hundoable
    · exact hfinds.2.of_passes h hpasses

theorem nextPhysicalRecord_goes (header : Bool) (h : Standing cfg input e) (hlow : low ≤ e.location) :
    Ends (fun _ e' => Undoable cfg input low e e')
      (fun r e' => Finds cfg input low e (r.map Record.range) e') (nextPhysicalRecord cfg input header e) := by
  unfold nextPhysicalRecord
  refine (fillRecordSpans_goes hs cfg.follows_none header h hlow).bind fun range e' hfinds => ?_
  rcases range with _ | range
  · exact hfinds
  · exact hfinds

/-- **A record read into storage** of its own, as a borrowed one; its parsers count no lines. -/
theorem readPhysicalStorageMode_goes (certifyAscii header : Bool) (h : Standing cfg input e)
    (hlow : low ≤ e.location) :
    Ends (fun _ e' => Undoable cfg input low e e')
      (fun r e' => Finds cfg input low e (r.map OwnedRecord.range) e' ∧
        (cfg.fmtGeneralParsing F = false → SameTally e e'))
      (readPhysicalStorageMode cfg F input certifyAscii header e) := by
  unfold readPhysicalStorageMode
  by_cases hgeneral : cfg.fmtGeneralParsing F = true
  · rw [if_pos hgeneral]
    unfold readPhysicalStorageGeneral
    refine (nextPhysicalRecord_goes hs header h hlow).bind fun r e' hfinds => ?_
    have hnot : cfg.fmtGeneralParsing F = false → SameTally e e' := fun h => by
      rw [h] at hgeneral
      cases hgeneral
    rcases r with _ | r
    · exact ⟨hfinds, hnot⟩
    · exact ⟨hfinds, hnot⟩
  rw [if_neg hgeneral]
  have hpasses := skippedOn_passes hs h.inside h.resumed
  have hwent : Went cfg input low e [] (skippedOn cfg input e) := hpasses.went h
  have hcheck : checkFailed input e = .ok () e := if_neg (by simp [h.failed])
  rw [bind_ok hcheck, modify_bind, get_bind]
  unfold skippedOn at hpasses hwent
  generalize (if cfg.skipsRecords = true then skipIgnoredRecords cfg input e else e) = next
    at hpasses hwent ⊢
  have hnext := hwent.standing
  have htally : SameTally e next := by
    rw [hpasses.kept]
    exact ⟨rfl, rfl⟩
  have hlow' := Nat.le_trans hlow hpasses.le
  by_cases hend : next.location = input.length
  · rw [if_pos hend]
    refine ⟨⟨hwent, ?_, fun _ hr => by cases hr⟩, fun _ => htally⟩
    rw [hpasses.kept]
    exact ⟨rfl, rfl, rfl⟩
  rw [if_neg hend]
  have hlt := Nat.lt_of_le_of_ne hpasses.inside hend
  have hadvances := @parseOwnedRecordMode_advances cfg F input next.aside next.location
    hpasses.inside certifyAscii header OwnedOutput.new next ⟨Nat.le_refl _, hpasses.inside, rfl⟩
  have hfails : Ends (fun _ e' => Undoable cfg input low next e')
      (fun _ e' => Onward input next.location next.aside e' ∧ PastByte input next.location e')
      (failing (parseOwnedRecordMode cfg F input certifyAscii next.location header OwnedOutput.new) next) := by
    unfold failing
    rcases hrun : parseOwnedRecordMode cfg F input certifyAscii next.location header OwnedOutput.new next with
      ⟨output, e'⟩ | ⟨fault, e'⟩
    · rw [hrun] at hadvances
      exact hadvances
    · rw [hrun] at hadvances
      obtain ⟨halong, hsame, -⟩ := alongside_of_aside hadvances.aside
      have hundoable : Undoable cfg input low next e' :=
        ⟨halong.lineBase, halong.lineOrigin, halong.resume ▸ hnext.resumed,
          fun hin => halong.resume ▸ hin, Or.inl hsame⟩
      cases fault with
      | error kind location =>
        exact ⟨hundoable.lineBase, hundoable.lineOrigin, hundoable.resumed, hundoable.kept, Or.inl hsame⟩
      | panic => exact hundoable
      | stuck => exact hundoable
  refine (hfails.mono (fun _ _ hundoable => hwent.toUndoable.trans hundoable) fun _ _ h => h).bind ?_
  rintro output e' ⟨honward, hpast⟩
  obtain ⟨halong, hsame, hindex⟩ := alongside_of_aside honward.aside
  rw [get_bind, set_bind]
  refine ⟨Finds.of_passes h hpasses ⟨?_, halong.cursor, fun r hr => ?_⟩,
    fun _ => ⟨hsame.1.trans htally.1, hsame.2.trans htally.2⟩⟩
  · exact @went_record _ _ _ _ { e' with recordIndex := e'.recordIndex + 1 } hnext hlow' (hpast hlt)
      honward.inside ⟨halong.failed, halong.headers, halong.resume, halong.cursor, halong.lineBase,
        halong.lineOrigin⟩ (congrArg (· + 1) hindex) (Or.inl hsame)
  · obtain rfl := Option.some.inj hr
    exact ⟨rfl, hindex⟩

/-! ## Moving on -/

omit hs in
/-- What is noted beside the cursor is no matter of it. -/
theorem Standing.of_headers (h : Standing cfg input e) :
    Went cfg input low e [] { e with headersInitialized := true } :=
  ⟨⟨rfl, rfl, h.resumed, id, Or.inl ⟨rfl, rfl⟩⟩,
    ⟨h.failed, h.inside, h.resumed, h.lineOrigin, h.folded, h.lines, h.cursor⟩, Nat.le_refl _, rfl,
    fun _ => rfl⟩

theorem ensureHeaders_goes (h : Standing cfg input e) (hlow : low ≤ e.location) :
    Ends (fun _ e' => Undoable cfg input low e e')
      (fun _ e' => ∃ pieces, Went cfg input low e pieces e' ∧ e'.headersInitialized = true)
      (ensureHeaders cfg input e) := by
  have hwent : Went cfg input low e [] { e with headersInitialized := true } := h.of_headers
  unfold ensureHeaders
  rw [get_bind]
  by_cases hinitialized : e.headersInitialized = true
  · rw [if_pos hinitialized]
    exact ⟨[], .refl h, hinitialized⟩
  rw [if_neg hinitialized, set_bind]
  by_cases hheaders : cfg.headers = .firstRecord
  · rw [if_pos hheaders]
    have hnext := nextPhysicalRecord_goes hs true hwent.standing hlow
    refine Ends.bind (hnext.mono (fun _ _ => hwent.toUndoable.trans) fun _ _ h => h) ?_
    exact fun _ _ hfinds => ⟨_, hwent.trans hfinds.went, hfinds.went.headers rfl⟩
  · rw [if_neg hheaders]
    exact ⟨[], hwent, rfl⟩

variable (hF : cfg.Follows F)

include hF in
theorem settle_goes (h : Standing cfg input e) (hlow : low ≤ e.location) :
    Ends (fun _ e' => Undoable cfg input low e e')
      (fun _ e' => ∃ pieces, Went cfg input low e pieces e') (settle cfg F input e) := by
  unfold settle
  rw [get_bind]
  by_cases hat : some e.location = e.cursorStart
  · obtain ⟨hindex, hlt⟩ := (h.cursor _ hat.symm).2 rfl
    have hsame : { e with recordIndex := e.cursorIndex } = e :=
      congrArg (fun recordIndex => { e with recordIndex }) hindex
    rw [if_pos hat, set_bind, hsame]
    refine (parsePositionedRecord_goes hs hF false h hlow hlt).bind fun _ _ hfinds => ?_
    exact ⟨_, hfinds.2.went⟩
  · rw [if_neg hat]
    exact ⟨[], .refl h⟩

omit hs in
/-- The cursor is on a record that was not read yet. -/
structure Positioned (input : Bytes) (e : Engine) : Prop where
  start : e.cursorStart = some e.location
  fresh : e.cursorEnd = none
  inside : e.location < input.length

theorem position_goes (h : Standing cfg input e) :
    Ends (fun _ _ => False)
      (fun found e' => Went cfg input low e [] e' ∧ (found = true → Positioned input e'))
      (position cfg input e) := by
  have hpasses := skipToRecord_passes hs h.inside h.resumed
  have hwent : Went cfg input low e [] (skipToRecord cfg input e) := hpasses.went h
  unfold position
  rw [modify_bind, get_bind]
  generalize skipToRecord cfg input e = next at hwent
  have hnext := hwent.standing
  have hmoved : ∀ cursorStart cursorIndex cursorEnd, (∀ start, cursorStart = some start →
      start = next.location ∧ cursorIndex = next.recordIndex ∧ start < input.length) →
      Went cfg input low e [] { next with cursorStart, cursorIndex, cursorEnd } := by
    intro cursorStart cursorIndex cursorEnd hcursor
    have hkept : Undoable cfg input low next { next with cursorStart, cursorIndex, cursorEnd } :=
      ⟨rfl, rfl, hnext.resumed, id, Or.inl ⟨rfl, rfl⟩⟩
    refine ⟨hwent.toUndoable.trans hkept, ?_, hwent.tiles, hwent.recordIndex, hwent.headers⟩
    refine ⟨hnext.failed, hnext.inside, hnext.resumed, hnext.lineOrigin, hnext.folded, hnext.lines, ?_⟩
    intro start hstart
    obtain ⟨hat, hindex, hlt⟩ := hcursor start hstart
    exact ⟨Nat.le_of_eq hat, fun _ => ⟨hindex, hlt⟩⟩
  by_cases hend : next.location = input.length
  · rw [if_pos hend]
    refine ⟨hmoved none next.cursorIndex next.cursorEnd fun start hstart => ?_, fun hfound => ?_⟩
    · cases hstart
    · cases hfound
  · rw [if_neg hend]
    have hlt := Nat.lt_of_le_of_ne hnext.inside hend
    refine ⟨hmoved (some next.location) next.recordIndex none ?_, fun _ => ⟨rfl, rfl, hlt⟩⟩
    intro start hstart
    obtain rfl := Option.some.inj hstart
    exact ⟨rfl, rfl, hlt⟩

include hF in
theorem advance_goes (h : Standing cfg input e) (hlow : low ≤ e.location) :
    Ends (fun _ e' => Undoable cfg input low e e')
      (fun found e' => ∃ pieces, Went cfg input low e pieces e' ∧ e'.headersInitialized = true ∧
        (found = true → Positioned input e'))
      (advance cfg F input e) := by
  have hcheck : checkFailed input e = .ok () e := if_neg (by simp [h.failed])
  unfold advance
  rw [bind_ok hcheck]
  refine (ensureHeaders_goes hs h hlow).bind fun _ e₁ h₁ => ?_
  obtain ⟨headers, hwent, hheaders⟩ := h₁
  have hsettle := settle_goes hs hF hwent.standing (Nat.le_trans hlow hwent.le)
  refine Ends.bind (hsettle.mono (fun _ _ => hwent.toUndoable.trans) fun _ _ h => h) ?_
  rintro _ e₂ ⟨settled, hwent'⟩
  have hposition := @position_goes _ _ low _ hs hwent'.standing
  refine hposition.mono (fun _ _ h => h.elim) fun found e₃ h₃ => ?_
  obtain ⟨hwent'', hfound⟩ := h₃
  exact ⟨_, (hwent.trans hwent').trans hwent'', hwent''.headers (hwent'.headers hheaders), hfound⟩

end reading

end Engine

end Coseva
