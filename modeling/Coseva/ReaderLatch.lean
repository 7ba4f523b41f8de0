/-
  Coseva — what the engine does about its failure, below the calls of a parser (`coseva/src/engine/`,
  `line.rs`).

  * `_sets`: an error of the input sets the failure;
  * `_barred`, `_refused`: the calls that look at the failure fail where it is set;
  * `LineView.Guarded`: the views that look at it;
  * `LineView.Legible`: the views of a line that are of strings, where they want strings.
-/
import Coseva.Lib.Latch
import Coseva.Reader

namespace Coseva

open Run

/-- Every state. -/
def Anyhow {σ : Type} : σ → Prop := fun _ => True

/-! ## The engine -/

namespace Engine

variable {cfg : ParserSettings} {F : CsvFormat} {input : Bytes}

/-- An error has set the failure of the engine. -/
def Failing (fault : Fault) (e : Engine) : Prop :=
  ∀ kind location, fault = .error kind location → e.failed = true

theorem failing_sets {α : Type} (m : Parse α) : Latches Anyhow Failing (failing m) := by
  intro e _
  unfold failing
  rcases m e with ⟨a, e'⟩ | ⟨_ | _ | _, e'⟩
  · trivial
  · exact ⟨trivial, fun _ _ _ => rfl⟩
  · exact ⟨trivial, fun _ _ h => by cases h⟩
  · exact ⟨trivial, fun _ _ h => by cases h⟩

theorem beginSpans_sets : Latches Anyhow Failing (beginSpans input) := by
  intro e _
  unfold beginSpans
  split_ifs
  · exact ⟨trivial, fun _ _ _ => rfl⟩
  · trivial

theorem checkFailed_sets : Latches Anyhow Failing (checkFailed input) := by
  intro e _
  unfold checkFailed
  split_ifs with hfailed
  · exact ⟨trivial, fun _ _ _ => hfailed⟩
  · trivial

/-- A call that finds the failure set, and says so. -/
def Refused {α : Type} : EStateM.Result Fault Engine α → Prop :=
  Ends (fun fault e => e.failed = true ∧ ∃ kind location, fault = .error kind location)
    (fun _ _ => False)

theorem checkFailed_refused {e : Engine} (hfailed : e.failed = true) :
    Refused (checkFailed input e) := by
  unfold checkFailed
  rw [if_pos hfailed]
  exact ⟨hfailed, _, _, rfl⟩

theorem nextPhysicalRecord_refused {header : Bool} {e : Engine} (hfailed : e.failed = true) :
    Refused (nextPhysicalRecord cfg input header e) := by
  have hfill : Refused (fillRecordSpans cfg none input header e) := (checkFailed_refused hfailed).fails
  exact hfill.fails

/-- The headers are asked of an engine that has failed, which stays so. -/
theorem ensureHeaders_stays {e : Engine} (hfailed : e.failed = true) :
    Ends (fun fault e' => e'.failed = true ∧ ∃ kind location, fault = .error kind location)
      (fun _ e' => e'.failed = true) (ensureHeaders cfg input e) := by
  unfold ensureHeaders
  rw [get_bind]
  split_ifs with hinitialized hfirst
  · exact hfailed
  · rw [set_bind]
    have hread : Refused (nextPhysicalRecord cfg input true { e with headersInitialized := true }) :=
      nextPhysicalRecord_refused hfailed
    exact hread.fails
  · exact hfailed

/-- A record that no view has parsed is asked of an engine that has failed. -/
theorem readPhysicalStorageMode_refused (certifyAscii header : Bool) {e : Engine}
    (hfailed : e.failed = true) :
    Refused (readPhysicalStorageMode cfg F input certifyAscii header e) := by
  unfold readPhysicalStorageMode readPhysicalStorageGeneral
  by_cases hgeneral : cfg.fmtGeneralParsing F = true
  · rw [if_pos hgeneral]
    exact (nextPhysicalRecord_refused hfailed).fails
  · rw [if_neg hgeneral]
    exact (checkFailed_refused hfailed).fails

theorem rewindToCurrent_stays {e : Engine} (hfailed : e.failed = true) (hstart : e.cursorStart ≠ none) :
    Ends (fun _ _ => False) (fun _ e' => e'.failed = true) (rewindToCurrent e) := by
  unfold rewindToCurrent
  rcases hcursor : e.cursorStart with _ | start
  · exact absurd hcursor hstart
  · exact Ends.ite hfailed hfailed

theorem panic_sets {α : Type} : Latches Anyhow Failing (panic : Parse α) :=
  .throw' fun _ _ _ _ h => by cases h

theorem parsePositionedRecord_sets (header : Bool) :
    Latches Anyhow Failing (parsePositionedRecord cfg F input header) := by
  unfold parsePositionedRecord trimSpans
  refine beginSpans_sets.bind fun _ => .get_bind fun e _ => (failing_sets _).bind fun _ => ?_
  refine Latches.bind (.ite (.modify' fun _ h => h) (.pure' _)) fun _ => .get_bind fun e' _ => ?_
  exact Latches.bind (fun _ h => h) fun _ => .pure' _

theorem skipping_sets : Latches Anyhow Failing
    (modify fun e => if cfg.skipsRecords then skipIgnoredRecords cfg input e else e) :=
  .modify' fun _ h => h

theorem fillRecordSpans_sets (header : Bool) :
    Latches Anyhow Failing (fillRecordSpans cfg F input header) := by
  unfold fillRecordSpans
  refine checkFailed_sets.bind fun _ => skipping_sets.bind fun _ => .get_bind fun e _ => ?_
  exact .ite (.pure' _) (parsePositionedRecord_sets header).map

theorem currentRecord_sets (range : ℕ × ℕ × ℕ) :
    Latches Anyhow Failing (currentRecord input range) := .get_bind fun _ _ => .pure' _

theorem nextPhysicalRecord_sets (header : Bool) :
    Latches Anyhow Failing (nextPhysicalRecord cfg input header) := by
  unfold nextPhysicalRecord
  refine (fillRecordSpans_sets header).bind fun range => ?_
  cases range with
  | none => exact .pure' _
  | some range => exact (currentRecord_sets range).map

theorem ensureHeaders_sets : Latches Anyhow Failing (ensureHeaders cfg input) := by
  unfold ensureHeaders
  refine .get_bind fun e _ => .ite (.pure' _) (Latches.bind (fun _ h => h) fun _ => ?_)
  exact .ite ((nextPhysicalRecord_sets true).bind fun _ => .pure' _) (.pure' _)

theorem settle_sets : Latches Anyhow Failing (settle cfg F input) := by
  unfold settle
  refine .get_bind fun e _ => .ite (Latches.bind (fun _ h => h) fun _ => ?_) (.pure' _)
  exact (parsePositionedRecord_sets false).bind fun _ => .pure' _

theorem position_sets : Latches Anyhow Failing (position cfg input) := by
  unfold position
  refine Latches.bind (.modify' fun _ h => h) fun _ => .get_bind fun e _ => ?_
  exact .ite (Latches.bind (fun _ h => h) fun _ => .pure' _)
    (Latches.bind (fun _ h => h) fun _ => .pure' _)

theorem advance_sets : Latches Anyhow Failing (advance cfg F input) := by
  unfold advance
  exact checkFailed_sets.bind fun _ => ensureHeaders_sets.bind fun _ => settle_sets.bind fun _ =>
    position_sets

theorem rewindToCurrent_sets : Latches Anyhow Failing rewindToCurrent := by
  intro e _
  unfold rewindToCurrent
  rcases e.cursorStart with _ | start
  · exact ⟨trivial, fun _ _ h => by cases h⟩
  · exact Ends.ite trivial trivial

theorem readPhysicalStorageMode_sets (certifyAscii header : Bool) :
    Latches Anyhow Failing (readPhysicalStorageMode cfg F input certifyAscii header) := by
  unfold readPhysicalStorageMode readPhysicalStorageGeneral
  refine .ite ((nextPhysicalRecord_sets header).bind fun _ => .pure' _) ?_
  refine checkFailed_sets.bind fun _ => skipping_sets.bind fun _ => .get_bind fun e _ => ?_
  refine .ite (.pure' _) ((failing_sets _).bind fun output => .get_bind fun e' _ => ?_)
  exact Latches.bind (fun _ h => h) fun _ => .pure' _

end Engine

/-! ## The calls on a window -/

namespace Window

variable {cfg : ParserSettings} {F : CsvFormat} {input : Bytes}

/-- A fault that is no panic has set the failure of the engine. -/
def Failing (fault : WindowFault) (w : WindowEngine) : Prop := fault.panics = false → w.failed = true

theorem engine_sets {α : Type} {m : Parse α} (h : Latches Anyhow Engine.Failing m) :
    Latches Anyhow Failing (engine m) := by
  intro w _
  have hm := h w.toEngine trivial
  unfold engine
  rcases hrun : m w.toEngine with ⟨a, e⟩ | ⟨fault, e⟩ <;> rw [hrun] at hm
  · trivial
  · refine ⟨trivial, fun hpanics => ?_⟩
    cases fault with
    | error kind location => exact hm.2 kind location rfl
    | panic => cases hpanics
    | stuck => cases hpanics

theorem panic_sets {α : Type} : Latches Anyhow Failing (throw (.fault .panic) : Window α) :=
  .throw' fun _ _ h => by cases h

theorem parseCurrent_sets : Latches Anyhow Failing (parseCurrent cfg F input) := by
  unfold parseCurrent
  refine Latches.bind (.modify' fun _ h => h) fun _ =>
    (engine_sets Engine.rewindToCurrent_sets).bind fun _ => ?_
  exact (engine_sets (Engine.parsePositionedRecord_sets false)).bind fun _ =>
    Latches.bind (.modify' fun _ h => h) fun _ => .pure' _

theorem materializeFull_sets : Latches Anyhow Failing (materializeFull cfg F input) := by
  unfold materializeFull
  refine .get_bind fun w _ => ?_
  split
  · exact panic_sets
  · exact .pure' _
  · exact parseCurrent_sets

theorem recordView_sets : Latches Anyhow Failing (recordView cfg F input) :=
  materializeFull_sets.bind fun _ => engine_sets (Engine.currentRecord_sets _)

theorem readPositioned_sets (certifyAscii : Bool) :
    Latches Anyhow Engine.Failing (readPositioned cfg F input certifyAscii) := by
  unfold readPositioned
  refine (Engine.readPhysicalStorageMode_sets certifyAscii false).bind fun record => ?_
  cases record with
  | some record => exact .pure' _
  | none => exact Engine.panic_sets

theorem readView_sets (certifyAscii : Bool) :
    Latches Anyhow Failing (readView cfg F input certifyAscii) := by
  unfold readView
  refine .get_bind fun w _ => ?_
  unfold readStored
  split
  · exact panic_sets
  · exact Latches.bind (.modify' fun _ h => h) fun _ => .pure' _
  · exact Latches.bind (.modify' fun _ h => h) fun _ => .get_bind fun _ _ =>
      (engine_sets (Engine.currentRecord_sets _)).bind fun _ => .pure' _
  · exact engine_sets (Engine.rewindToCurrent_sets.bind fun _ => readPositioned_sets certifyAscii)

/-- A call that finds the failure of the engine set, and says so. -/
def Barred {α : Type} : EStateM.Result WindowFault WindowEngine α → Prop :=
  Ends (fun fault w => w.failed = true ∧ fault.panics = false) (fun _ _ => False)

theorem engine_barred {α : Type} {m : Parse α} {w : WindowEngine}
    (h : Engine.Refused (m w.toEngine)) : Barred (engine m w) := by
  unfold Engine.Refused at h
  unfold engine
  rcases hrun : m w.toEngine with ⟨a, e⟩ | ⟨fault, e⟩ <;> rw [hrun] at h
  · exact h.elim
  · obtain ⟨hfailed, kind, location, rfl⟩ := h
    exact ⟨hfailed, rfl⟩

/-- A record that no view has parsed. -/
theorem readView_barred (certifyAscii : Bool) {w : WindowEngine} (hfailed : w.failed = true)
    (hstart : w.cursorStart ≠ none) (hend : w.cursorEnd = none) :
    Barred (readView cfg F input certifyAscii w) := by
  have hread : Engine.Refused (readOwned cfg F input certifyAscii w.toEngine) := by
    refine ((Engine.rewindToCurrent_stays hfailed hstart).mono (fun _ _ h => h.elim)
      fun _ _ h => h).bind fun _ e h => ?_
    exact (Engine.readPhysicalStorageMode_refused certifyAscii false h).fails
  unfold readView
  rw [get_bind, hend]
  rcases hcursor : w.cursorStart with _ | start
  · exact absurd hcursor hstart
  · exact engine_barred hread

/-- The read of a window, but near its end, where it is taken for one that more input may settle. -/
theorem readWindow_barred (hvalid : cfg.dialect.invalidity = none) (text atEof : Bool)
    {w : WindowEngine} (hfailed : w.failed = true)
    (hfar : atEof = true ∨ w.location + WindowEngine.separatorLookahead cfg < input.length) :
    Barred (readWindow cfg F input hvalid text atEof w) := by
  have hcheck : Engine.Refused (Engine.checkFailed input w.toEngine) :=
    Engine.checkFailed_refused hfailed
  cases atEof with
  | true =>
    have hadvance : Engine.Refused (Engine.advance cfg F input w.toEngine) := hcheck.fails
    exact (engine_barred hadvance).fails
  | false =>
    have hlocation : w.location + WindowEngine.separatorLookahead cfg < input.length :=
      hfar.resolve_left Bool.false_ne_true
    have htry : tryReadWindow cfg F input hvalid text w = .error (.fault (.error .parserFailed
        ⟨w.location, physicalLine input w.lineBase w.lineOrigin w.location, w.recordIndex,
          w.spans.len⟩)) w := by
      refine bind_error ?_
      unfold engine Engine.checkFailed
      rw [if_pos hfailed]
      rfl
    -- the error is at the cursor, so that no more input could settle it
    have hsettled : ¬input.length ≤ w.location + WindowEngine.separatorLookahead cfg :=
      Nat.not_le.mpr hlocation
    simp only [readWindow, Bool.false_eq_true, if_false, speculate, htry]
    rw [if_neg (by simp [WindowFault.truncatedByWindow, hsettled])]
    exact ⟨hfailed, rfl⟩

end Window

/-! ## Views -/

section views

variable {cfg : ParserSettings} {F : CsvFormat} {buffer : Bytes}

theorem ReadFault.reported_of_panics {fault : ReadFault} (h : fault.panics = false) :
    fault.reported = true := by
  unfold reported
  rw [h]
  rfl

theorem WindowFault.rebase_panics (consumed : ℕ) (fault : WindowFault) :
    (fault.rebase consumed).panics = fault.panics := by
  rcases fault with (_ | _ | _) | _
  · rfl
  · rfl
  · rfl
  · rfl

theorem ReadFault.rebase_panics (consumed : ℕ) (fault : ReadFault) :
    (fault.rebase consumed).panics = fault.panics := by
  cases fault with
  | window fault => exact fault.rebase_panics consumed
  | io answer location => rfl
  | typed error location => rfl

/-- A syntax, limit, width, byte-order-mark or UTF-8 error has set the failure of the engine. -/
def Failing (fault : ReadFault) (w : WindowEngine) : Prop := fault.malformed = true → w.failed = true

theorem onWindow_sets {α : Type} {m : Window α} (h : Latches Anyhow Window.Failing m) :
    Latches Anyhow Failing (onWindow m) := by
  refine .zoom fun w _ => (h w trivial).mono (fun fault w' h' => ⟨trivial, fun hmalformed => ?_⟩)
    fun _ _ h' => h'
  have hpanics : fault.panics = false := by
    have hnot : (!fault.panics) = true := hmalformed
    rwa [Bool.not_eq_true'] at hnot
  exact h'.2 hpanics

theorem conversion_sets {α : Type} (location : Location) :
    Latches Anyhow Failing (throw (.typed .conversion location) : EStateM ReadFault WindowEngine α) :=
  .throw' fun _ _ h => by cases h

theorem prepare_sets (target : Target) (decoding : Decoding) :
    Latches Anyhow Failing (decoding.prepare cfg buffer false target) := by
  have hcheck : Latches Anyhow Failing (onWindow (Window.engine (Engine.checkFailed buffer))) :=
    onWindow_sets (Window.engine_sets Engine.checkFailed_sets)
  have hheaders : Latches Anyhow Failing (onWindow (Window.engine (Engine.ensureHeaders cfg buffer))) :=
    onWindow_sets (Window.engine_sets Engine.ensureHeaders_sets)
  cases decoding with
  | decoded fused =>
    exact hheaders.bind fun _ => .get_bind fun w _ =>
      .ite (conversion_sets _) (.ite (.pure' _) hcheck)
  | mapped => exact hcheck
  | deserialized ready =>
    exact hcheck.bind fun _ => .ite (.pure' _) (hheaders.bind fun _ => hcheck)

/-- A call that finds the failure of the engine set, and says so. -/
def Barred {α : Type} : EStateM.Result ReadFault WindowEngine α → Prop :=
  Ends (fun fault w => w.failed = true ∧ fault.panics = false) (fun _ _ => False)

theorem onWindow_barred {α : Type} {m : Window α} {w : WindowEngine} (h : Window.Barred (m w)) :
    Barred (onWindow m w) := Ends.zoom h

theorem check_barred {w : WindowEngine} (hfailed : w.failed = true) :
    Barred (onWindow (Window.engine (Engine.checkFailed buffer)) w) :=
  onWindow_barred (Window.engine_barred (Engine.checkFailed_refused hfailed))

/-- The headers are asked of a parser that has failed, which stays so. -/
theorem headers_stay {w : WindowEngine} (hfailed : w.failed = true) :
    Ends (fun fault w' => w'.failed = true ∧ fault.panics = false) (fun _ w' => w'.failed = true)
      (onWindow (Window.engine (Engine.ensureHeaders cfg buffer)) w) := by
  have hstays : Ends (fun fault e => e.failed = true ∧ ∃ kind location, fault = .error kind location)
      (fun _ e => e.failed = true) (Engine.ensureHeaders cfg buffer w.toEngine) :=
    Engine.ensureHeaders_stays hfailed
  refine Ends.zoom ?_
  show Ends _ _ (Window.engine (Engine.ensureHeaders cfg buffer) w)
  unfold Window.engine
  rcases hrun : Engine.ensureHeaders cfg buffer w.toEngine with ⟨_, e⟩ | ⟨fault, e⟩ <;>
    rw [hrun] at hstays
  · exact hstays
  · obtain ⟨hfailed', kind, location, rfl⟩ := hstays
    exact ⟨hfailed', rfl⟩

/-- A mapping is asked of a parser that has failed, which stays so. -/
theorem prepare_stays (target : Target) {w : WindowEngine} (hfailed : w.failed = true) :
    Ends (fun _ w' => w'.failed = true) (fun _ w' => w'.failed = true)
      ((Decoding.decoded true).prepare cfg buffer false target w) := by
  refine ((headers_stay hfailed).mono (fun _ _ h => h.1) fun _ _ h => h).bind fun _ w' h => ?_
  rw [get_bind]
  split_ifs
  · exact h
  · exact h
  · rename_i hfused
    exact absurd rfl hfused

theorem prepare_barred (bomRejected : Bool) (target : Target) {decoding : Decoding}
    (hguarded : decoding ≠ .decoded true) {w : WindowEngine} (hfailed : w.failed = true) :
    Barred (decoding.prepare cfg buffer bomRejected target w) := by
  cases decoding with
  | decoded fused =>
    refine (headers_stay hfailed).bind fun _ w' h => ?_
    rw [get_bind]
    split_ifs with hunmapped hfused
    · exact ⟨h, rfl⟩
    · rw [hfused] at hguarded
      exact absurd rfl hguarded
    · exact check_barred h
  | mapped => exact check_barred hfailed
  | deserialized ready => exact (check_barred hfailed).fails

/-- The view looks at the failure of the engine, and finds it: an owned view of a record that no view
    has parsed, or a decoding that does not go straight to the fields. -/
def LineView.Guarded (w : WindowEngine) : LineView → Prop
  | stored view =>
    view ≠ .record ∧ w.failed = true ∧ w.cursorStart ≠ none ∧ w.cursorEnd = none
  | typed decoding _ => decoding ≠ .decoded true ∧ w.failed = true

instance (w : WindowEngine) : (view : LineView) → Decidable (view.Guarded w)
  | .stored _ => inferInstanceAs (Decidable (_ ∧ _))
  | .typed _ _ => inferInstanceAs (Decidable (_ ∧ _))

theorem LineView.read_barred (bomRejected : Bool) (view : LineView) {w : WindowEngine}
    (hguarded : view.Guarded w) : Barred (view.read cfg F buffer bomRejected w) := by
  cases view with
  | stored view =>
    refine Ends.map (onWindow_barred ?_) fun _ _ h => h
    obtain ⟨hview, hfailed, hstart, hend⟩ := hguarded
    cases view with
    | record => exact absurd rfl hview
    | byteRecord =>
      exact (Window.readView_barred false hfailed hstart hend).map fun _ _ h => h.elim
    | textRecord =>
      exact Ends.map (Window.readView_barred true hfailed hstart hend).fails fun _ _ h => h
  | typed decoding target => exact (prepare_barred bomRejected target hguarded.1 hguarded.2).fails

/-- The views that report a rejected mark, some of them behind a look at the failure. -/
def LineView.meetsBom : LineView → Bool
  | stored _ | typed (.decoded _) _ => true
  | typed .mapped _ => false
  | typed (.deserialized ready) _ => !ready

theorem LineView.read_meetsBom (view : LineView) (hchecks : view.checksBom = false)
    (hmeets : view.meetsBom = true) (w : WindowEngine) :
    Ends (fun fault _ => fault.panics = false) (fun _ _ => False) (view.read cfg F buffer true w) := by
  cases view with
  | stored view => cases hchecks
  | typed decoding target =>
    cases decoding with
    | decoded fused => cases hchecks
    | mapped => cases hmeets
    | deserialized ready =>
      cases ready with
      | true => cases hmeets
      | false =>
        have hprepare : Ends (fun fault _ => fault.panics = false) (fun _ _ => False)
            ((Decoding.deserialized false).prepare cfg buffer true target w) := by
          -- the failure is reported in front of the mark
          by_cases hfailed : w.failed = true
          · exact Ends.fails ((check_barred hfailed).mono (fun _ _ h => h.2) fun _ _ h => h)
          · have hengine : Engine.checkFailed buffer w.toEngine = .ok () w.toEngine := if_neg hfailed
            have hcheck : onWindow (Window.engine (Engine.checkFailed buffer)) w = .ok () w := by
              simp only [onWindow, zoom, Window.engine, id, hengine]
            show Ends _ _ ((onWindow (Window.engine (Engine.checkFailed buffer)) >>= _) w)
            rw [bind_ok hcheck]
            exact rfl
        exact hprepare.fails

/-- The fields that the view looks at are strings where it looks for strings. -/
def LineView.Legible (cfg : ParserSettings) (F : CsvFormat) (buffer : Bytes) (w : WindowEngine) :
    LineView → Prop
  | stored .textRecord => ∀ record w', Window.readView cfg F buffer true w = .ok record w' →
      record.textValidity = .ascii ∨ Window.invalidText 0 record.fields = none
  | stored _ => True
  | typed decoding target => ∀ w₁ range w₂, decoding.prepare cfg buffer false target w = .ok () w₁ →
      Window.materializeFull cfg F buffer w₁ = .ok range w₂ →
        target.absorb (w₂.spans.resolved buffer) ≠ some .invalidUtf8

/-- A text view of strings fails with an error of the engine only. -/
theorem readTextView_sets {w : WindowEngine}
    (h : (LineView.stored .textRecord).Legible cfg F buffer w) :
    Ends (fun fault w' => Anyhow w' ∧ Window.Failing fault w') (fun _ w' => Anyhow w')
      (Window.readTextView cfg F buffer w) := by
  unfold Window.readTextView Window.readText
  rw [get_bind]
  have hread : Ends (fun fault w' => Anyhow w' ∧ Window.Failing fault w') (fun _ w' => Anyhow w')
      (Window.readView cfg F buffer true w) := Window.readView_sets true w trivial
  rcases hrun : Window.readView cfg F buffer true w with ⟨record, w'⟩ | ⟨fault, w'⟩
  · rw [bind_ok hrun]
    unfold Window.validate
    rcases h record w' hrun with hascii | hvalid
    · rw [if_pos hascii]
      trivial
    · rw [hvalid]
      split_ifs
      · trivial
      · trivial
  · rw [hrun] at hread
    rw [bind_error hrun]
    exact hread

theorem materializedFields_sets (w : WindowEngine) :
    Ends (fun fault w' => Anyhow w' ∧ Failing fault w')
      (fun shown w' => ∃ range, Window.materializeFull cfg F buffer w = .ok range w' ∧
        shown.1 = w'.spans.resolved buffer) (materializedFields cfg F buffer w) := by
  have hlatches : Latches Anyhow Failing (onWindow (Window.materializeFull cfg F buffer)) :=
    onWindow_sets Window.materializeFull_sets
  unfold materializedFields
  refine (((hlatches w trivial).and (Ends.itself _)).mono (fun _ _ h => h.1) fun _ _ h => h.2).bind
    fun range w' hrun => ?_
  obtain ⟨_, hmaterialized, rfl⟩ := ok_of_zoom hrun
  exact ⟨range, hmaterialized, rfl⟩

/-- **A view** of fields that are legible fails with an error of the engine only. -/
theorem LineView.read_sets {w : WindowEngine} (view : LineView) (h : view.Legible cfg F buffer w) :
    Ends (fun fault w' => Anyhow w' ∧ Failing fault w') (fun _ w' => Anyhow w')
      (view.read cfg F buffer false w) := by
  cases view with
  | stored view =>
    refine Ends.map ?_ fun _ _ h' => h'
    cases view with
    | record => exact (onWindow_sets Window.recordView_sets.map) w trivial
    | byteRecord => exact (onWindow_sets (Window.readView_sets false).map) w trivial
    | textRecord =>
      refine Ends.zoom (Ends.map ((readTextView_sets h).mono (fun fault w' h' => ?_) fun _ _ h' => h')
        fun _ _ h' => h')
      refine ⟨trivial, fun hmalformed => h'.2 ?_⟩
      have hnot : (!fault.panics) = true := hmalformed
      rwa [Bool.not_eq_true'] at hnot
  | typed decoding target =>
    have hprepare : Ends (fun fault w' => Anyhow w' ∧ Failing fault w') (fun _ w' => Anyhow w')
        (decoding.prepare cfg buffer false target w) := prepare_sets target decoding w trivial
    refine ((hprepare.and (Ends.itself _)).mono (fun _ _ h' => h'.1) fun _ _ h' => h'.2).bind
      fun _ w₁ hrun => (materializedFields_sets w₁).bind fun shown w₂ hshown => ?_
    obtain ⟨range, hmaterialized, hfields⟩ := hshown
    have hlegible := h w₁ range w₂ hrun hmaterialized
    rw [← hfields] at hlegible
    dsimp only
    rcases habsorb : target.absorb shown.1 with _ | _ | _
    · trivial
    · exact ⟨trivial, fun h' => by cases h'⟩
    · exact absurd habsorb hlegible

end views

end Coseva
