/-
  Coseva — the calls on a window (`coseva/src/engine/cursor.rs`): what each of them leaves of a
  cursor that stands, whether it finds a record, asks for more input or fails.

  * `Parsed`, `Reached`: the cursor on a record that was parsed, or that a view may parse;
  * `rewindChunk_went`, `rewindTo_went`: a read that is taken back has gone nowhere;
  * `advanceWindow_goes`, `advanceWindowLazily_goes`, `advanceWindowEagerly_goes`,
    `readWindow_goes`, `headersWindow_goes`: the calls;
  * `recordView_goes`, `readByteView_goes`, `readTextView_goes`: the views of a record.
-/
import Coseva.Standing
import Coseva.Windowed

namespace Coseva

open Run Engine

namespace Window

variable {cfg : ParserSettings} {F : CsvFormat} {input : Bytes} {low : ℕ} {e before : Engine}
  {w w' : WindowEngine} {pieces : List (ℕ × ℕ)} {range : ℕ × ℕ × ℕ}

/-! ## On a record -/

/-- The record that the cursor was on `before` has been parsed, and may be staged. -/
structure Parsed (cfg : ParserSettings) (input : Bytes) (low : ℕ) (before : Engine)
    (range : ℕ × ℕ × ℕ) (w : WindowEngine) : Prop where
  went : Went cfg input low before [(range.1, range.2.1)] w.toEngine
  start : w.cursorStart = before.cursorStart
  index : w.cursorIndex = before.cursorIndex
  stop : w.cursorEnd = some range.2.1
  number : range.2.2 = before.cursorIndex
  /-- the owned parsers count no lines, so that a staged record can be parsed again -/
  staged : w.staged = none ∧ range.1 = before.location ∨
    ∃ record, w.staged = some record ∧ record.range = range ∧ SameTally before w.toEngine

/-- Behind `pieces` there is a record for a view. -/
inductive Reached (cfg : ParserSettings) (input : Bytes) (low : ℕ) (e : Engine)
    (pieces : List (ℕ × ℕ)) (w : WindowEngine) : Prop
  | lazily (went : Went cfg input low e pieces w.toEngine) (positioned : Positioned input w.toEngine)
  | parsed (before : Engine) (range : ℕ × ℕ × ℕ) (went : Went cfg input low e pieces before)
    (positioned : Positioned input before) (parsed : Parsed cfg input low before range w)

/-- A record has been read behind `pieces`, under the next number. -/
structure Viewed (cfg : ParserSettings) (input : Bytes) (low : ℕ) (e : Engine)
    (pieces : List (ℕ × ℕ)) (range : ℕ × ℕ × ℕ) (w : WindowEngine) : Prop where
  went : Went cfg input low e (pieces ++ [(range.1, range.2.1)]) w.toEngine
  number : range.2.2 = e.recordIndex + pieces.length

theorem Parsed.remarked {resume : ResumeState} (h : Parsed cfg input low before range w)
    (hresume : Replaces cfg input w.resume resume) : Parsed cfg input low before range { w with resume } :=
  ⟨h.went.remarked hresume, h.start, h.index, h.stop, h.number, h.staged⟩

theorem Reached.went (h : Reached cfg input low e pieces w) :
    ∃ pieces, Went cfg input low e pieces w.toEngine := by
  rcases h with ⟨hwent, -⟩ | ⟨before, range, hwent, -, hparsed⟩
  · exact ⟨_, hwent⟩
  · exact ⟨_, hwent.trans hparsed.went⟩

theorem replaces_scanned {resume : ResumeState} (config : WindowScanConfig)
    (h : Resumable cfg resume) :
    Replaces cfg input resume (config.windowLacksRecordRuntime input resume).2 := by
  unfold WindowScanConfig.windowLacksRecordRuntime
  rcases hstart : resume.recordStart with _ | start
  · exact ⟨h, id⟩
  dsimp only
  rcases config.scanLoop input start (input.length + 1) ⟨resume.scannedTo, resume.fieldStart, resume.inQuotes⟩
    with _ | p
  · exact ⟨h, id⟩
  · refine ⟨⟨fun hfree => ?_, fun hfree => ?_⟩, fun hin _ hat => hin _ (hstart.trans hat)⟩
    · cases hfree
    · cases hfree

theorem replaces_seeded {resume : ResumeState} {start : ℕ} (h : Resumable cfg resume)
    (hin : start ≤ input.length) : Replaces cfg input resume (resume.seedResume start) := by
  unfold ResumeState.seedResume
  split_ifs
  · exact ⟨h, id⟩
  · exact ⟨.fresh, fun _ => .fresh hin⟩

/-- What the engine does of itself leaves the staged record. -/
theorem engine_ends {α : Type} {m : Parse α} {E : Engine → Prop} {Q : α → Engine → Prop}
    (h : Ends (fun _ => E) Q (m w.toEngine)) :
    Ends (fun _ w' => E w'.toEngine) (fun a w' => Q a w'.toEngine ∧ w'.staged = w.staged)
      (engine m w) := by
  unfold engine
  rcases hrun : m w.toEngine with ⟨a, e⟩ | ⟨fault, e⟩
  · rw [hrun] at h
    exact ⟨h, rfl⟩
  · rw [hrun] at h
    exact h

theorem noteEnding_eq : w.noteEnding cfg F input =
    { w with terminated := (w.noteEnding cfg F input).terminated } := by
  unfold WindowEngine.noteEnding
  split_ifs
  · rfl
  · rfl

theorem rewindToCurrent_positioned (h : Positioned input e) : rewindToCurrent e = .ok () e := by
  unfold rewindToCurrent
  rw [h.start]
  exact if_neg fun h => h rfl

section reading

variable (hs : cfg.dialect.Sound)

include hs

theorem readPositioned_goes (certifyAscii : Bool) (h : Standing cfg input e) (hlow : low ≤ e.location) :
    Ends (fun _ e' => Undoable cfg input low e e')
      (fun record e' => Finds cfg input low e (some record.range) e' ∧
        (cfg.fmtGeneralParsing F = false → SameTally e e'))
      (readPositioned cfg F input certifyAscii e) := by
  unfold readPositioned
  refine (readPhysicalStorageMode_goes hs certifyAscii false h hlow).bind fun r e' hfinds => ?_
  rcases r with _ | record
  · exact hfinds.1.went.toUndoable
  · exact hfinds

theorem readOwned_goes (certifyAscii : Bool) (h : Standing cfg input e) (hp : Positioned input e)
    (hlow : low ≤ e.location) :
    Ends (fun _ e' => Undoable cfg input low e e')
      (fun record e' => Finds cfg input low e (some record.range) e' ∧
        (cfg.fmtGeneralParsing F = false → SameTally e e'))
      (readOwned cfg F input certifyAscii e) := by
  unfold readOwned
  rw [bind_ok (rewindToCurrent_positioned hp)]
  exact readPositioned_goes hs certifyAscii h hlow

theorem stageOwned_goes (hgeneral : cfg.fmtGeneralParsing F = false)
    (h : Standing cfg input w.toEngine) (hp : Positioned input w.toEngine) (hlow : low ≤ w.location) :
    Ends (fun _ w' => Undoable cfg input low w.toEngine w'.toEngine)
      (fun _ w' => ∃ range, Parsed cfg input low w.toEngine range w') (stageOwned cfg F input w) := by
  have hbegun : Went cfg input low w.toEngine []
      ({ w with staged := none, terminated := false } : WindowEngine).toEngine :=
    (Went.refl h).marked false w.cursorEnd
  unfold stageOwned beginOwned
  rw [modify_bind]
  have hread := @readOwned_goes cfg F input low _ hs false hbegun.standing
    ⟨hp.start, hp.fresh, hp.inside⟩ hlow
  refine Ends.bind (engine_ends (hread.mono (fun _ _ => hbegun.toUndoable.trans) fun _ _ h => h)) ?_
  rintro record w₁ ⟨⟨hfinds, htally⟩, -⟩
  obtain ⟨hstop, hindex⟩ := hfinds.record _ rfl
  have hstop' : record.stop = w₁.location := hstop
  rw [modify_bind, modify_bind, get_bind, noteEnding_eq]
  generalize (w₁.noteEnding cfg F input).terminated = terminated
  refine ⟨record.range, ?_, hfinds.cursor.1, hfinds.cursor.2.2, ?_, ?_, Or.inr ⟨record, rfl, rfl, ?_⟩⟩
  · have hwent := hbegun.trans hfinds.went
    exact hwent.marked terminated (some w₁.location)
  · exact congrArg some hstop'.symm
  · exact hindex.trans ((h.cursor _ hp.start).2 rfl).1.symm
  · exact htally hgeneral

variable (hF : cfg.Follows F)

include hF

/-- The record that the cursor goes back to is parsed again. -/
theorem parseCurrent_goes (hrewind : rewindToCurrent w.toEngine = .ok () before)
    (h : Standing cfg input before) (hstart : before.cursorStart = some before.location)
    (hlt : before.location < input.length) (hlow : low ≤ before.location) :
    Ends (fun _ w' => Undoable cfg input low before w'.toEngine)
      (fun range w' => Parsed cfg input low before range w') (parseCurrent cfg F input w) := by
  have hrewound : engine rewindToCurrent { w with staged := none, stagedFormOwned := false } =
      .ok () ⟨before, none, false⟩ := by
    unfold engine
    rw [hrewind]
  unfold parseCurrent
  rw [modify_bind, bind_ok hrewound]
  have hparse := parsePositionedRecord_goes hs hF false h hlow hlt
  refine (engine_ends (w := ⟨before, none, false⟩) hparse).bind fun range w₁ h₁ => ?_
  obtain ⟨⟨hat, hfinds⟩, hstaged⟩ := h₁
  obtain ⟨hstop, hindex⟩ := hfinds.record _ rfl
  rw [modify_bind]
  refine ⟨?_, hfinds.cursor.1, hfinds.cursor.2.2, rfl, ?_, Or.inl ⟨hstaged, hat⟩⟩
  · exact hfinds.went.marked w₁.terminated (some range.2.1)
  · exact hindex.trans ((h.cursor _ hstart).2 rfl).1.symm

theorem materializeFull_goes (h : Standing cfg input w.toEngine) (hp : Positioned input w.toEngine)
    (hlow : low ≤ w.location) :
    Ends (fun _ w' => Undoable cfg input low w.toEngine w'.toEngine)
      (fun range w' => Parsed cfg input low w.toEngine range w') (materializeFull cfg F input w) := by
  unfold materializeFull
  rw [get_bind, hp.start, hp.fresh]
  exact parseCurrent_goes hs hF (rewindToCurrent_positioned hp) h hp.start hp.inside hlow

theorem parseStaging_goes (h : Standing cfg input w.toEngine) (hp : Positioned input w.toEngine)
    (hlow : low ≤ w.location) :
    Ends (fun _ w' => Undoable cfg input low w.toEngine w'.toEngine)
      (fun _ w' => ∃ range, Parsed cfg input low w.toEngine range w') (parseStaging cfg F input w) := by
  unfold parseStaging
  rw [get_bind]
  by_cases hstage : (w.stagedFormOwned && canStageOwned cfg) = true
  · rw [if_pos hstage]
    have hgeneral : cfg.fmtGeneralParsing F = false := by
      unfold canStageOwned at hstage
      simp only [Bool.and_eq_true, Bool.not_eq_true'] at hstage
      unfold ParserSettings.fmtGeneralParsing
      rw [hF.dialect, hF.trim]
      exact hstage.2.1.1.1
    exact (stageOwned_goes hs hgeneral h hp hlow).bind fun _ _ h => h
  · rw [if_neg hstage]
    exact (materializeFull_goes hs hF h hp hlow).bind fun range _ h => ⟨range, h⟩

end reading

/-! ## Speculative reads -/

/-- A speculative read has gone on to a record, which it has read as `R` says, or can be taken
    back. -/
def Attempted {β : Type} (cfg : ParserSettings) (input : Bytes) (low : ℕ) (e : Engine)
    (R : Engine → β → WindowEngine → Prop) : Option β → WindowEngine → Prop
  | none, w => Undoable cfg input low e w.toEngine
  | some r, w => ∃ pieces before, Went cfg input low e pieces before ∧ R before r w

theorem Attempted.of_went {β : Type} {R : Engine → β → WindowEngine → Prop} {r : Option β}
    (hwent : Went cfg input low e pieces before) (h : Attempted cfg input low before R r w) :
    Attempted cfg input low e R r w := by
  rcases r with _ | r
  · exact hwent.toUndoable.trans h
  · obtain ⟨rest, before', hwent', hread⟩ := h
    exact ⟨_, before', hwent.trans hwent', hread⟩

section speculating

variable (hvalid : cfg.dialect.invalidity = none) (hF : cfg.Follows F)

theorem lacksRecord_goes (h : Standing cfg input w.toEngine) (hp : Positioned input w.toEngine) (start : ℕ) :
    Ends (fun _ _ => False)
      (fun _ w' => Went cfg input low w.toEngine [] w'.toEngine ∧ Positioned input w'.toEngine)
      (lacksRecord cfg F input hvalid start w) := by
  unfold lacksRecord
  split_ifs
  · refine ⟨(Went.refl h).remarked (replaces_scanned _ h.resumed), ?_⟩
    exact ⟨hp.start, hp.fresh, hp.inside⟩
  · exact ⟨.refl h, hp⟩

/-- A parse that the checkpoint follows. -/
theorem checkpointAfterParse_goes {α : Type} {m : Window (ℕ × α)}
    {R : Engine → ℕ × α → WindowEngine → Prop} {start : ℕ} (hin : start ≤ input.length)
    (hR : ∀ r w' resume, Replaces cfg input w'.resume resume → R e r w' → R e r { w' with resume })
    (hresumed : ∀ r w', R e r w' → Resumable cfg w'.resume)
    (hm : Ends (fun _ w' => Undoable cfg input low e w'.toEngine) (R e) (m w)) :
    Ends (fun _ w' => Undoable cfg input low e w'.toEngine) (R e)
      (checkpointAfterParse cfg input start m w) := by
  unfold checkpointAfterParse
  rcases hrun : m w with ⟨⟨stop, a⟩, w'⟩ | ⟨fault, w'⟩
  · rw [hrun] at hm
    have hread : R e (stop, a) w' := hm
    show R e (stop, a) (if w'.windowSettled input stop = true then w' else _)
    split_ifs
    · exact hread
    · exact hR _ _ _ (replaces_seeded (hresumed _ _ hread) hin) hread
  · rw [hrun] at hm
    have hundoable : Undoable cfg input low e w'.toEngine := hm
    show Undoable cfg input low e (WindowEngine.toEngine (if _ then _ else w'))
    split_ifs
    · exact hundoable.remarked (replaces_seeded hundoable.resumed hin)
    · exact hundoable

include hF

theorem positionAndParse_goes {α : Type} {m : Window (ℕ × α)} {R : Engine → ℕ × α → WindowEngine → Prop}
    (hR : ∀ before r w' resume, Replaces cfg input w'.resume resume → R before r w' →
      R before r { w' with resume })
    (hresumed : ∀ before r w', R before r w' → Resumable cfg w'.resume)
    (hm : ∀ w₁ : WindowEngine, Standing cfg input w₁.toEngine → Positioned input w₁.toEngine →
      low ≤ w₁.location →
      Ends (fun _ w' => Undoable cfg input low w₁.toEngine w'.toEngine) (R w₁.toEngine) (m w₁))
    (h : Standing cfg input w.toEngine) (hlow : low ≤ w.location) :
    Ends (fun _ w' => Undoable cfg input low w.toEngine w'.toEngine)
      (fun r w' => Attempted cfg input low w.toEngine R r w')
      (positionAndParse cfg F input hvalid m w) := by
  have hs := Dialect.sound_of_valid hvalid
  unfold positionAndParse
  refine (engine_ends (settle_goes hs hF h hlow)).bind fun _ w₁ h₁ => ?_
  obtain ⟨⟨settled, hwent⟩, -⟩ := h₁
  have hposition := engine_ends (@position_goes _ _ low _ hs hwent.standing)
  refine Ends.bind (hposition.mono (fun _ _ h => h.elim) fun _ _ h => h) fun found w₂ h₂ => ?_
  obtain ⟨⟨hwent', hfound⟩, -⟩ := h₂
  have hwent₂ := hwent.trans hwent'
  rcases found with _ | _
  · exact hwent₂.toUndoable
  have hlacks := @lacksRecord_goes _ F _ low _ hvalid hwent₂.standing (hfound rfl) w₂.location
  rw [if_pos rfl, get_bind]
  refine Ends.bind (hlacks.mono (fun _ _ h => h.elim) fun _ _ h => h) fun lacks w₃ h₃ => ?_
  have hwent₃ := hwent₂.trans h₃.1
  rcases lacks with _ | _
  swap
  · exact hwent₃.toUndoable
  have hparse := hm w₃ hwent₃.standing h₃.2 (Nat.le_trans hlow hwent₃.le)
  have hparsed := checkpointAfterParse_goes (e := w₃.toEngine) hwent₂.standing.inside
    (hR w₃.toEngine) (hresumed w₃.toEngine) hparse
  rw [if_neg Bool.false_ne_true]
  refine Ends.map (hparsed.mono (fun _ _ => hwent₃.toUndoable.trans) fun _ _ h => h) fun r w₄ h₄ => ?_
  exact ⟨_, w₃.toEngine, hwent₃, h₄⟩

omit hF

theorem ensureHeadersWindow_goes (hs : cfg.dialect.Sound) (h : Standing cfg input e) (hlow : low ≤ e.location) :
    Ends (fun _ e' => Undoable cfg input low e e')
      (fun ready e' => ∃ pieces, Went cfg input low e pieces e' ∧
        (ready = true → e'.headersInitialized = true))
      (ensureHeadersWindow cfg input e) := by
  unfold ensureHeadersWindow
  by_cases hheaders : cfg.headers ≠ .firstRecord
  · rw [if_pos hheaders, modify_bind]
    exact ⟨[], h.of_headers, fun _ => rfl⟩
  rw [if_neg hheaders]
  refine (fillRecordSpans_goes hs cfg.follows_none true h hlow).bind fun range e' hfinds => ?_
  rcases range with _ | range
  · exact ⟨_, hfinds.went, fun hready => by cases hready⟩
  dsimp only
  by_cases hend : range.2.1 = input.length
  · rw [if_pos hend]
    exact ⟨_, hfinds.went, fun hready => by cases hready⟩
  · rw [if_neg hend, modify_bind]
    exact ⟨_, hfinds.went.trans hfinds.went.standing.of_headers, fun _ => rfl⟩

include hF

theorem tryAdvanceWindow_goes (h : Standing cfg input w.toEngine) (hlow : low ≤ w.location) :
    Ends (fun _ w' => Undoable cfg input low w.toEngine w'.toEngine)
      (fun r w' => Attempted cfg input low w.toEngine (fun before _ w' =>
        Positioned input before ∧ ∃ range, Parsed cfg input low before range w') r w')
      (tryAdvanceWindow cfg F input hvalid w) := by
  have hs := Dialect.sound_of_valid hvalid
  have hcheck : engine (checkFailed input) w = .ok () w := by
    unfold engine checkFailed
    rw [h.failed]
    rfl
  have hheaders : Ends (fun _ w' => Undoable cfg input low w.toEngine w'.toEngine)
      (fun _ w' => ∃ pieces, Went cfg input low w.toEngine pieces w'.toEngine)
      (headersReady cfg input w) := by
    unfold headersReady
    rw [get_bind]
    split_ifs
    · exact ⟨[], .refl h⟩
    · refine (engine_ends (ensureHeadersWindow_goes hs h hlow)).mono (fun _ _ h => h) fun _ _ h' => ?_
      obtain ⟨⟨pieces, hwent, -⟩, -⟩ := h'
      exact ⟨pieces, hwent⟩
  unfold tryAdvanceWindow
  rw [bind_ok hcheck]
  refine hheaders.bind fun ready w₁ h₁ => ?_
  obtain ⟨headers, hwent⟩ := h₁
  rcases ready with _ | _
  · exact hwent.toUndoable
  rw [if_pos rfl]
  refine (positionAndParse_goes hvalid hF ?_ ?_ ?_ hwent.standing (Nat.le_trans hlow hwent.le)).mono
    (fun _ _ => hwent.toUndoable.trans) fun _ _ hattempted => hattempted.of_went hwent
  · rintro before r w' resume hresume ⟨hp, range, hparsed⟩
    exact ⟨hp, range, hparsed.remarked hresume⟩
  · rintro before r w' ⟨-, range, hparsed⟩
    exact hparsed.went.resumed
  · intro w₂ h₂ hp₂ hlow₂
    exact (parseStaging_goes hs hF h₂ hp₂ hlow₂).mono (fun _ _ h => h) fun _ _ h => ⟨hp₂, h⟩

omit hF

/-- The validation of a record that was read. -/
theorem readText_ends {m : Window OwnedRecord} {E : WindowEngine → Prop}
    {Q : OwnedRecord → WindowEngine → Prop} (hm : Ends (fun _ => E) Q (m w))
    (hE : ∀ record w', Q record w' → E w') : Ends (fun _ => E) Q (readText input m w) := by
  unfold readText
  rw [get_bind]
  refine hm.bind fun record w' hread => ?_
  unfold validate
  split_ifs
  · exact hread
  · rcases invalidText 0 record.fields with _ | ⟨index, incomplete⟩
    · exact hread
    · exact hE _ _ hread

/-- One record has been read. -/
def ReadOne (cfg : ParserSettings) (input : Bytes) (low : ℕ) (before : Engine) (record : OwnedRecord)
    (w : WindowEngine) : Prop :=
  Went cfg input low before [(record.start, record.stop)] w.toEngine ∧
    record.index = before.recordIndex

theorem readInWindow_goes (hs : cfg.dialect.Sound) (text : Bool) (h : Standing cfg input w.toEngine)
    (hp : Positioned input w.toEngine) (hlow : low ≤ w.location) :
    Ends (fun _ w' => Undoable cfg input low w.toEngine w'.toEngine)
      (fun record w' => ReadOne cfg input low w.toEngine record w')
      (readInWindow cfg F input text w) := by
  have hread : ∀ {m : Parse OwnedRecord}, Ends (fun _ e' => Undoable cfg input low w.toEngine e')
      (fun record e' => Finds cfg input low w.toEngine (some record.range) e' ∧
        (cfg.fmtGeneralParsing F = false → SameTally w.toEngine e')) (m w.toEngine) →
      Ends (fun _ w' => Undoable cfg input low w.toEngine w'.toEngine)
        (fun record w' => ReadOne cfg input low w.toEngine record w') (engine m w) := by
    intro m hm
    refine (engine_ends hm).mono (fun _ _ h => h) fun record w' h' => ?_
    exact ⟨h'.1.1.went, (h'.1.1.record _ rfl).2⟩
  unfold readInWindow
  split_ifs
  · exact readText_ends (hread (readOwned_goes hs true h hp hlow)) fun _ _ h => h.1.toUndoable
  · exact hread (readPositioned_goes hs false h hlow)

theorem parseOwned_goes (hs : cfg.dialect.Sound) (text : Bool) (h : Standing cfg input w.toEngine)
    (hp : Positioned input w.toEngine) (hlow : low ≤ w.location) :
    Ends (fun _ w' => Undoable cfg input low w.toEngine w'.toEngine)
      (fun r w' => ReadOne cfg input low w.toEngine r.2 w') (parseOwned cfg F input text w) := by
  have hbegun : Went cfg input low w.toEngine []
      ({ w with staged := none, terminated := false } : WindowEngine).toEngine :=
    (Went.refl h).marked false w.cursorEnd
  have hread := @readInWindow_goes _ F _ low _ hs text hbegun.standing
    ⟨hp.start, hp.fresh, hp.inside⟩ hlow
  unfold parseOwned beginOwned
  rw [modify_bind]
  unfold notingEnding
  rcases hrun : readInWindow cfg F input text { w with staged := none, terminated := false } with
    ⟨record, w'⟩ | ⟨fault, w'⟩
  · rw [hrun] at hread
    obtain ⟨hwent, hindex⟩ := hread
    show ReadOne cfg input low w.toEngine record (w'.noteEnding cfg F input)
    rw [noteEnding_eq]
    exact ⟨(hbegun.trans hwent).marked _ _, hindex⟩
  · rw [hrun] at hread
    have hundoable := hbegun.toUndoable.trans hread
    show Undoable cfg input low w.toEngine (w'.noteEnding cfg F input).toEngine
    rw [noteEnding_eq]
    exact ⟨hundoable.lineBase, hundoable.lineOrigin, hundoable.resumed, hundoable.kept, hundoable.tally⟩

include hF

theorem tryReadWindow_goes (text : Bool) (h : Standing cfg input w.toEngine) (hlow : low ≤ w.location) :
    Ends (fun _ w' => Undoable cfg input low w.toEngine w'.toEngine)
      (fun r w' => Attempted cfg input low w.toEngine (fun before r w' =>
        ReadOne cfg input low before r.2 w') r w')
      (tryReadWindow cfg F input hvalid text w) := by
  have hs := Dialect.sound_of_valid hvalid
  have hcheck : engine (checkFailed input) w = .ok () w := by
    unfold engine checkFailed
    rw [h.failed]
    rfl
  unfold tryReadWindow
  rw [bind_ok hcheck]
  refine positionAndParse_goes hvalid hF ?_ ?_ ?_ h hlow
  · intro before r w' resume hresume hread
    exact ⟨hread.1.remarked hresume, hread.2⟩
  · exact fun before r w' hread => hread.1.resumed
  · exact fun w₁ h₁ hp₁ hlow₁ => parseOwned_goes hs text h₁ hp₁ hlow₁

end speculating

/-! ## Reads that are taken back -/

/-- The cursor, the numbers and the tally are as they were. -/
structure Untouched (e e' : Engine) : Prop where
  location : e'.location = e.location
  recordIndex : e'.recordIndex = e.recordIndex
  tally : SameTally e e'
  expectedFields : e'.expectedFields = e.expectedFields
  headers : e'.headersInitialized = e.headersInitialized
  failed : e'.failed = e.failed
  lineBase : e'.lineBase = e.lineBase
  lineOrigin : e'.lineOrigin = e.lineOrigin

/-- The restore of a chunk does not know where the tally ended: it had ended at the cursor, if the
    read has counted lines. -/
theorem rewindChunk_went (h : Standing cfg input w.toEngine)
    (hundoable : Undoable cfg input w.location w.toEngine w'.toEngine) :
    Went cfg input w.location w.toEngine [] (rewindChunk w w').toEngine ∧
      Untouched w.toEngine (rewindChunk w w').toEngine := by
  have hfolded := h.folded
  have hupto : min w'.foldedUpto w.location = w.foldedUpto := by
    rcases hundoable.tally with ⟨hsame, -⟩ | ⟨hlow, hlow'⟩
    · rw [hsame]
      exact min_eq_left hfolded
    · rw [min_eq_right hlow']
      exact Nat.le_antisymm hlow hfolded
  refine ⟨⟨⟨hundoable.lineBase, hundoable.lineOrigin, hundoable.resumed, hundoable.kept,
    Or.inl ⟨hupto, rfl⟩⟩, ?_,
    Nat.le_refl _, rfl, id⟩, rfl, rfl, ⟨hupto, rfl⟩, rfl, rfl, h.failed.symm, hundoable.lineBase,
    hundoable.lineOrigin⟩
  refine ⟨rfl, h.inside, hundoable.resumed, hundoable.lineOrigin.trans h.lineOrigin,
    Nat.min_le_right _ _, ?_, fun start hstart => ?_⟩
  · show w.foldedLines = linesBefore input (min w'.foldedUpto w.location)
    rw [hupto]
    exact h.lines
  · cases hstart

theorem rewindTo_went (h : Standing cfg input w.toEngine)
    (hundoable : Undoable cfg input w.location w.toEngine w'.toEngine) :
    Went cfg input w.location w.toEngine [] (rewindTo w w').toEngine ∧
      Untouched w.toEngine (rewindTo w w').toEngine := by
  refine ⟨⟨⟨hundoable.lineBase, hundoable.lineOrigin, hundoable.resumed, hundoable.kept, Or.inl ⟨rfl, rfl⟩⟩, ?_,
    Nat.le_refl _, rfl, id⟩, rfl, rfl, ⟨rfl, rfl⟩, rfl, rfl, rfl, hundoable.lineBase, hundoable.lineOrigin⟩
  exact ⟨h.failed, h.inside, hundoable.resumed, hundoable.lineOrigin.trans h.lineOrigin, h.folded,
    h.lines, h.cursor⟩

/-! ## The calls -/

/-- What a call leaves: a record as `Q` says, the end, or a window that nothing was read of. -/
def Called {α : Type} (cfg : ParserSettings) (input : Bytes) (w : WindowEngine)
    (Q : α → WindowEngine → Prop) : Advance α → WindowEngine → Prop
  | .record a, w' => Q a w'
  | .done, w' => ∃ pieces, Went cfg input w.location w.toEngine pieces w'.toEngine
  | .needMore, w' => Went cfg input w.location w.toEngine [] w'.toEngine ∧
      Untouched w.toEngine w'.toEngine

theorem speculate_goes {α : Type} {keep : WindowEngine → WindowEngine}
    {restore : WindowEngine → WindowEngine → WindowEngine}
    {raise : WindowEngine → WindowFault → Window (Advance α)} {m : Window (Option (ℕ × α))}
    {R : Engine → ℕ × α → WindowEngine → Prop} {Q : α → WindowEngine → Prop}
    (hm : Ends (fun _ w' => Undoable cfg input w.location w.toEngine w'.toEngine)
      (fun r w' => Attempted cfg input w.location w.toEngine R r w') (m w))
    (hundo : ∀ before r w', R before r w' → Undoable cfg input w.location before w'.toEngine)
    (hkeep : ∀ pieces before r w', Went cfg input w.location w.toEngine pieces before →
      R before r w' → Q r.2 (keep w'))
    (hrestore : ∀ w', Undoable cfg input w.location w.toEngine w'.toEngine →
      Went cfg input w.location w.toEngine [] (restore w w').toEngine ∧
        Untouched w.toEngine (restore w w').toEngine)
    (hraise : ∀ fault w', Undoable cfg input w.location w.toEngine w'.toEngine →
      Ends (fun _ _ => True) (fun r w'' => Called cfg input w Q r w'') (raise w fault w')) :
    Ends (fun _ _ => True) (fun r w' => Called cfg input w Q r w')
      (speculate cfg input keep restore raise m w) := by
  unfold speculate
  rcases hrun : m w with ⟨r, w'⟩ | ⟨fault, w'⟩
  · rw [hrun] at hm
    rcases r with _ | ⟨stop, a⟩
    · exact hrestore w' hm
    · obtain ⟨pieces, before, hwent, hread⟩ := hm
      dsimp only
      split_ifs
      · exact hkeep pieces before (stop, a) w' hwent hread
      · exact hrestore w' (hwent.toUndoable.trans (hundo _ _ _ hread))
  · rw [hrun] at hm
    dsimp only
    split_ifs
    · exact hrestore w' hm
    · exact hraise fault w' hm

section calls

variable (hvalid : cfg.dialect.invalidity = none) (hF : cfg.Follows F)

include hvalid hF

theorem positionLazily_goes (h : Standing cfg input w.toEngine) (hlow : low ≤ w.location) :
    Ends (fun _ _ => True)
      (fun r w' => (∃ pieces, Went cfg input low w.toEngine pieces w'.toEngine) ∧
        (r = .record () ∧ Positioned input w'.toEngine ∨ r = .done))
      (positionLazily cfg F input w) := by
  have hs := Dialect.sound_of_valid hvalid
  unfold positionLazily
  have hadvance := engine_ends (advance_goes hs hF h hlow)
  refine Ends.bind (hadvance.mono (fun _ _ _ => trivial) fun _ _ h => h) fun found w' h' => ?_
  obtain ⟨⟨pieces, hwent, -, hfound⟩, -⟩ := h'
  rcases found with _ | _
  · exact ⟨⟨pieces, hwent⟩, Or.inr rfl⟩
  · exact ⟨⟨pieces, hwent⟩, Or.inl ⟨rfl, hfound rfl⟩⟩

/-- A record that was positioned on lazily, or the end. -/
theorem positionLazily_calls (h : Standing cfg input w'.toEngine)
    (hwent : Went cfg input w.location w.toEngine pieces w'.toEngine) :
    Ends (fun _ _ => True) (fun r w'' => Called cfg input w
        (fun _ w'' => ∃ pieces, Reached cfg input w.location w.toEngine pieces w'') r w'')
      (positionLazily cfg F input w') := by
  refine (positionLazily_goes hvalid hF h hwent.le).mono (fun _ _ h => h) ?_
  rintro r w'' ⟨⟨rest, hwent'⟩, ⟨rfl, hpositioned⟩ | rfl⟩
  · exact ⟨_, .lazily (hwent.trans hwent') hpositioned⟩
  · exact ⟨_, hwent.trans hwent'⟩

/-- **`advance_window`** goes to a record, or nowhere. -/
theorem advanceWindow_goes (atEof : Bool) (h : Standing cfg input w.toEngine) :
    Ends (fun _ _ => True) (fun r w' => Called cfg input w
        (fun _ w' => ∃ pieces, Reached cfg input w.location w.toEngine pieces w') r w')
      (advanceWindow cfg F input hvalid atEof w) := by
  unfold advanceWindow
  rcases atEof with _ | _
  swap
  · exact positionLazily_calls hvalid hF h (.refl h)
  rw [if_neg Bool.false_ne_true]
  refine speculate_goes (tryAdvanceWindow_goes hvalid hF h (Nat.le_refl _)) ?_ ?_
    (fun w' => rewindChunk_went h) fun _ _ _ => trivial
  · rintro before r w' ⟨-, range, hparsed⟩
    exact hparsed.went.toUndoable
  · rintro pieces before r w' hwent ⟨hpositioned, range, hparsed⟩
    exact ⟨pieces, .parsed before range hwent hpositioned hparsed⟩

theorem advanceWindowLazily_goes (atEof : Bool) (h : Standing cfg input w.toEngine) :
    Ends (fun _ _ => True) (fun r w' => Called cfg input w
        (fun _ w' => ∃ pieces, Reached cfg input w.location w.toEngine pieces w') r w')
      (advanceWindowLazily cfg F input hvalid atEof w) := by
  unfold advanceWindowLazily
  rcases atEof with _ | _
  swap
  · exact positionLazily_calls hvalid hF h (.refl h)
  rw [if_neg Bool.false_ne_true]
  refine speculate_goes (tryAdvanceWindow_goes hvalid hF h (Nat.le_refl _)) ?_ ?_
    (fun w' => rewindTo_went h) fun _ w' hundoable => ?_
  · rintro before r w' ⟨-, range, hparsed⟩
    exact hparsed.went.toUndoable
  · rintro pieces before r w' hwent ⟨hpositioned, range, hparsed⟩
    exact ⟨pieces, .parsed before range hwent hpositioned hparsed⟩
  · have hrewound := (rewindTo_went h hundoable).1
    exact positionLazily_calls hvalid hF hrewound.standing hrewound

theorem advanceWindowEagerly_goes (atEof : Bool) (h : Standing cfg input w.toEngine) :
    Ends (fun _ _ => True) (fun r w' => Called cfg input w
        (fun _ w' => ∃ pieces, Reached cfg input w.location w.toEngine pieces w') r w')
      (advanceWindowEagerly cfg F input hvalid atEof w) := by
  have hs := Dialect.sound_of_valid hvalid
  unfold advanceWindowEagerly
  rcases atEof with _ | _
  · rw [if_neg Bool.false_ne_true]
    refine speculate_goes (tryAdvanceWindow_goes hvalid hF h (Nat.le_refl _)) ?_ ?_
      (fun w' => rewindTo_went h) fun _ _ _ => trivial
    · rintro before r w' ⟨-, range, hparsed⟩
      exact hparsed.went.toUndoable
    · rintro pieces before r w' hwent ⟨hpositioned, range, hparsed⟩
      exact ⟨pieces, .parsed before range hwent hpositioned hparsed⟩
  · rw [if_pos rfl]
    have hadvance := engine_ends (advance_goes hs hF h (Nat.le_refl w.location))
    refine Ends.bind (hadvance.mono (fun _ _ _ => trivial) fun _ _ h => h) fun found w₁ h₁ => ?_
    obtain ⟨⟨pieces, hwent, -, hfound⟩, -⟩ := h₁
    rcases found with _ | _
    · exact ⟨pieces, hwent⟩
    rw [if_pos rfl]
    have hfull := @materializeFull_goes _ _ _ w.location _ hs hF hwent.standing (hfound rfl) hwent.le
    refine Ends.bind (hfull.mono (fun _ _ _ => trivial) fun _ _ h => h) fun range w₂ h₂ => ?_
    exact ⟨pieces, .parsed w₁.toEngine range hwent (hfound rfl) h₂⟩

/-! ## Views -/

omit hvalid hF

/-- The cursor back in front of a staged record. -/
theorem Parsed.rewound (h : Parsed cfg input low before range w) (hbefore : Standing cfg input before)
    (hp : Positioned input before) (htally : SameTally before w.toEngine) :
    rewindToCurrent w.toEngine =
        .ok () { w.toEngine with location := before.location, recordIndex := w.cursorIndex } ∧
      Went cfg input low before []
        { w.toEngine with location := before.location, recordIndex := w.cursorIndex } := by
  have hlt : before.location < w.location := by
    have htiles := h.went.tiles
    exact Nat.lt_of_le_of_lt htiles.1 (Nat.lt_of_lt_of_le htiles.2.1 htiles.2.2)
  have hindex : w.cursorIndex = before.recordIndex :=
    h.index.trans ((hbefore.cursor _ hp.start).2 rfl).1
  constructor
  · unfold rewindToCurrent
    split
    · rename_i hnone
      rw [h.start, hp.start] at hnone
      cases hnone
    · rename_i start hstart
      obtain rfl : before.location = start :=
        Option.some.inj ((hp.start.symm.trans h.start.symm).trans hstart)
      exact if_pos (Nat.ne_of_gt hlt)
  · refine ⟨⟨h.went.lineBase, h.went.lineOrigin, h.went.resumed, h.went.kept, Or.inl htally⟩, ?_,
      Nat.le_refl _, hindex, h.went.headers⟩
    refine ⟨h.went.standing.failed, hbefore.inside, h.went.resumed, h.went.standing.lineOrigin, ?_, ?_, ?_⟩
    · exact htally.1 ▸ hbefore.folded
    · show w.foldedLines = linesBefore input w.foldedUpto
      rw [htally.1, htally.2]
      exact hbefore.lines
    · intro start hstart
      have hat : start = before.location :=
        Option.some.inj (hstart.symm.trans (h.start.trans hp.start))
      exact ⟨Nat.le_of_eq hat, fun _ => ⟨rfl, hat ▸ hp.inside⟩⟩

/-- A record that was parsed from where the cursor was positioned. -/
theorem Parsed.viewed (h : Parsed cfg input low before range w) (hbefore : Standing cfg input before)
    (hstart : before.cursorStart = some before.location)
    (hwent : Went cfg input low e pieces before) : Viewed cfg input low e pieces range w := by
  refine ⟨hwent.trans h.went, ?_⟩
  rw [h.number, ((hbefore.cursor _ hstart).2 rfl).1]
  exact hwent.recordIndex

include hvalid hF

theorem materializeFull_views (h : Reached cfg input low e pieces w) (hlow : low ≤ e.location) :
    Ends (fun _ _ => True) (fun range w' => Viewed cfg input low e pieces range w')
      (materializeFull cfg F input w) := by
  have hs := Dialect.sound_of_valid hvalid
  rcases h with ⟨hwent, hp⟩ | ⟨before, range, hwent, hp, hparsed⟩
  · have hfull := @materializeFull_goes _ _ _ low _ hs hF hwent.standing hp (Nat.le_trans hlow hwent.le)
    exact hfull.mono (fun _ _ _ => trivial) fun _ _ h => h.viewed hwent.standing hp.start hwent
  unfold materializeFull
  rw [get_bind, hparsed.start, hp.start, hparsed.stop]
  rcases hparsed.staged with ⟨hstaged, hat⟩ | ⟨record, hstaged, -, htally⟩
  · rw [hstaged]
    have hsame : (before.location, range.2.1, w.cursorIndex) = range := by
      rw [← hat, hparsed.index, ← hparsed.number]
    show Viewed cfg input low e pieces (before.location, range.2.1, w.cursorIndex) w
    rw [hsame]
    exact hparsed.viewed hwent.standing hp.start hwent
  · rw [hstaged]
    obtain ⟨hrewind, hback⟩ := hparsed.rewound hwent.standing hp htally
    have hparse := @parseCurrent_goes _ _ _ low _ _ hs hF hrewind hback.standing
      (hparsed.start.trans hp.start) hp.inside (Nat.le_trans hlow hwent.le)
    refine hparse.mono (fun _ _ _ => trivial) fun _ _ h => ?_
    have hback' := hwent.trans hback
    rw [List.append_nil] at hback'
    exact h.viewed hback.standing (hparsed.start.trans hp.start) hback'

/-- **A view of the record** reads it under the next number. -/
theorem recordView_goes (h : Reached cfg input low e pieces w) (hlow : low ≤ e.location) :
    Ends (fun _ _ => True) (fun record w' => Viewed cfg input low e pieces record.range w')
      (recordView cfg F input w) := by
  unfold recordView
  exact (materializeFull_views hvalid hF h hlow).bind fun _ _ h => h

omit hF

theorem readView_goes (certifyAscii : Bool) (h : Reached cfg input low e pieces w)
    (hlow : low ≤ e.location) :
    Ends (fun _ _ => True) (fun record w' => Viewed cfg input low e pieces record.range w')
      (readView cfg F input certifyAscii w) := by
  have hs := Dialect.sound_of_valid hvalid
  unfold readView
  rw [get_bind]
  rcases h with ⟨hwent, hp⟩ | ⟨before, range, hwent, hp, hparsed⟩
  · have hread := engine_ends (@readOwned_goes _ F _ low _ hs certifyAscii hwent.standing hp
      (Nat.le_trans hlow hwent.le))
    rw [hp.start, hp.fresh]
    refine hread.mono (fun _ _ _ => trivial) fun record w' h' => ?_
    exact ⟨hwent.trans h'.1.1.went, (h'.1.1.record _ rfl).2.trans hwent.recordIndex⟩
  have hviewed := hparsed.viewed hwent.standing hp.start hwent
  rw [hparsed.start, hp.start, hparsed.stop]
  rcases hparsed.staged with ⟨hstaged, hat⟩ | ⟨record, hstaged, hrange, -⟩
  · have hsame : (before.location, range.2.1, w.cursorIndex) = range := by
      rw [← hat, hparsed.index, ← hparsed.number]
    rw [hstaged]
    show Viewed cfg input low e pieces (before.location, range.2.1, w.cursorIndex)
      { w with stagedFormOwned := true }
    rw [hsame]
    exact ⟨hviewed.went, hviewed.number⟩
  · rw [hstaged]
    show Viewed cfg input low e pieces record.range { w with cursorEnd := none, staged := none }
    rw [hrange]
    exact ⟨hviewed.went.marked w.terminated none, hviewed.number⟩

theorem readByteView_goes (h : Reached cfg input low e pieces w) (hlow : low ≤ e.location) :
    Ends (fun _ _ => True) (fun record w' => Viewed cfg input low e pieces record.range w')
      (readByteView cfg F input w) := readView_goes hvalid false h hlow

theorem readTextView_goes (h : Reached cfg input low e pieces w) (hlow : low ≤ e.location) :
    Ends (fun _ _ => True) (fun record w' => Viewed cfg input low e pieces record.range w')
      (readTextView cfg F input w) :=
  readText_ends (readView_goes hvalid true h hlow) fun _ _ _ => trivial

/-- **`read_window_owned` and `read_window_text`** read a record, or nothing. -/
theorem readWindow_goes (hF : cfg.Follows F) (text atEof : Bool) (h : Standing cfg input w.toEngine) :
    Ends (fun _ _ => True) (fun r w' => Called cfg input w (fun record w' => ∃ pieces,
        Viewed cfg input w.location w.toEngine pieces record.range w') r w')
      (readWindow cfg F input hvalid text atEof w) := by
  have hs := Dialect.sound_of_valid hvalid
  have hrelease : ∀ {pieces range} {w' : WindowEngine},
      Viewed cfg input w.location w.toEngine pieces range w' →
      Viewed cfg input w.location w.toEngine pieces range w'.release := by
    rintro pieces range w' ⟨hwent, hnumber⟩
    refine ⟨⟨⟨hwent.lineBase, hwent.lineOrigin, hwent.resumed, hwent.kept, hwent.tally⟩, ?_, hwent.tiles,
      hwent.recordIndex, hwent.headers⟩, hnumber⟩
    refine ⟨hwent.standing.failed, hwent.standing.inside, hwent.resumed, hwent.standing.lineOrigin,
      hwent.standing.folded, hwent.standing.lines, fun start hstart => ?_⟩
    cases hstart
  unfold readWindow
  rcases atEof with _ | _
  · rw [if_neg Bool.false_ne_true]
    refine speculate_goes (tryReadWindow_goes hvalid hF text h (Nat.le_refl _)) ?_ ?_
      (fun w' => rewindChunk_went h) fun _ _ _ => trivial
    · exact fun before r w' hread => hread.1.toUndoable
    · intro pieces before r w' hwent hread
      exact ⟨pieces, hrelease ⟨hwent.trans hread.1, hread.2.trans hwent.recordIndex⟩⟩
  rw [if_pos rfl]
  have hadvance := engine_ends (advance_goes hs hF h (Nat.le_refl w.location))
  refine Ends.bind (hadvance.mono (fun _ _ _ => trivial) fun _ _ h => h) fun found w₁ h₁ => ?_
  obtain ⟨⟨pieces, hwent, -, hfound⟩, -⟩ := h₁
  rcases found with _ | _
  · exact ⟨pieces, hwent⟩
  rw [if_pos rfl]
  have hreached : Reached cfg input w.location w.toEngine pieces w₁ := .lazily hwent (hfound rfl)
  rcases text with _ | _
  · rw [if_neg Bool.false_ne_true]
    have hread := engine_ends (@readOwned_goes _ F _ w.location _ hs false hwent.standing
      (hfound rfl) hwent.le)
    refine Ends.bind (hread.mono (fun _ _ _ => trivial) fun _ _ h => h) fun record w₂ h₂ => ?_
    refine ⟨pieces, hrelease ⟨hwent.trans h₂.1.1.went, ?_⟩⟩
    exact (h₂.1.1.record _ rfl).2.trans hwent.recordIndex
  · rw [if_pos rfl]
    refine (readTextView_goes hvalid hreached (Nat.le_refl _)).bind fun record w₂ h₂ => ?_
    exact ⟨pieces, hrelease h₂⟩

omit hvalid

/-- **`headers_window`** settles the headers, or reads nothing. -/
theorem headersWindow_goes (hs : cfg.dialect.Sound) (atEof : Bool) (h : Standing cfg input w.toEngine) :
    Ends (fun _ _ => True)
      (fun settled w' => (settled = true ∧
          ∃ pieces, Went cfg input w.location w.toEngine pieces w'.toEngine) ∨
        (settled = false ∧ atEof = false ∧ Went cfg input w.location w.toEngine [] w'.toEngine ∧
          Untouched w.toEngine w'.toEngine))
      (headersWindow cfg input atEof w) := by
  have hensure : ∀ w' : WindowEngine, Went cfg input w.location w.toEngine [] w'.toEngine →
      Ends (fun _ _ => True)
        (fun settled w'' => settled = true ∧
          ∃ pieces, Went cfg input w.location w.toEngine pieces w''.toEngine)
        ((do
          engine (ensureHeaders cfg input)
          let w ← get
          pure w.headersInitialized : Window Bool) w') := by
    intro w' hwent
    have hheaders := engine_ends (ensureHeaders_goes hs hwent.standing hwent.le)
    refine Ends.bind (hheaders.mono (fun _ _ _ => trivial) fun _ _ h => h) fun _ w'' h'' => ?_
    obtain ⟨⟨pieces, hwent', hinitialized⟩, -⟩ := h''
    exact ⟨hinitialized, _, hwent.trans hwent'⟩
  unfold headersWindow
  by_cases hinitialized : w.headersInitialized = true
  · rw [if_pos hinitialized]
    exact Or.inl ⟨rfl, [], .refl h⟩
  rw [if_neg hinitialized]
  rcases atEof with _ | _
  swap
  · exact (hensure w (.refl h)).mono (fun _ _ h => h) fun _ _ => Or.inl
  rw [if_neg Bool.false_ne_true]
  have hwindow := engine_ends (ensureHeadersWindow_goes hs h (Nat.le_refl w.location))
  rcases hrun : engine (ensureHeadersWindow cfg input) w with ⟨ready, w'⟩ | ⟨fault, w'⟩
  · rw [hrun] at hwindow
    obtain ⟨⟨pieces, hwent, hsettled⟩, -⟩ := hwindow
    rcases ready with _ | _
    · exact Or.inr ⟨rfl, rfl, rewindTo_went h hwent.toUndoable⟩
    · exact Or.inl ⟨hsettled rfl, pieces, hwent⟩
  · rw [hrun] at hwindow
    dsimp only
    split_ifs
    · exact Or.inr ⟨rfl, rfl, rewindTo_went h hwindow⟩
    · exact (hensure _ (rewindTo_went h hwindow).1).mono (fun _ _ h => h) fun _ _ => Or.inl

end calls

end Window

end Coseva
