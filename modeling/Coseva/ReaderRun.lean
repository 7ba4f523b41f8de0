/-
  Coseva — a parser that has failed, over whole runs (`coseva/src/slice_parser.rs`, `io_parser.rs`,
  `push.rs`): behind an error of the input no record is delivered.

  * `Allowed`: where a call may be made behind a failure;
  * `apply_sets`: an error sets the failure of the parser;
  * `latch`: and a call that is allowed does not read on behind it;
  * `failed_delivers_nothing`: runs.
-/
import Coseva.ReaderLatch
import Coseva.IoRun
import Coseva.PushRun

namespace Coseva

open Run

/-! ## A slice -/

namespace SliceReader

variable {lanes : Search.Lanes} {cfg : ParserSettings} {F : CsvFormat} {input : Bytes}

/-- An error of the input has set the failure of the parser. -/
def Failing (fault : ReadFault) (s : SliceReader) : Prop := fault.malformed = true → s.failed = true

theorem core_sets {α : Type} {m : EStateM ReadFault WindowEngine α}
    (h : Latches Anyhow Coseva.Failing m) : Latches Anyhow Failing (core m) :=
  .zoom fun s _ => h s.toWindowEngine trivial

theorem candidateMatches_sets (predicate : Predicate) (column : ℕ) :
    Latches Anyhow Window.Failing (candidateMatches lanes cfg F input predicate column) := by
  unfold candidateMatches
  refine (Window.engine_sets (Engine.parsePositionedRecord_sets false)).bind fun range =>
    .get_bind fun w _ => .ite (Latches.bind (fun _ h => h) fun _ => .pure' _) (.pure' _)

theorem stuck_sets {α : Type} :
    Latches Anyhow Failing (throw (.window (.fault .stuck)) : EStateM ReadFault SliceReader α) :=
  .throw' fun _ _ h => by cases h

theorem literalFilterLoop_sets (predicate : Predicate) (column : ℕ) (literal : Bytes) (fuel : ℕ) :
    ∀ pending, Latches Anyhow Failing
      (literalFilterLoop lanes cfg F input predicate column literal fuel pending) := by
  induction fuel with
  | zero => exact fun _ => stuck_sets
  | succ fuel ih =>
    intro pending
    unfold literalFilterLoop
    refine .get_bind fun s _ => Latches.bind (fun _ h => h) fun _ => .ite (.pure' _) ?_
    refine (core_sets (onWindow_sets (candidateMatches_sets predicate column))).bind fun found => ?_
    exact .ite (.pure' _) (ih _)

theorem scanningFilterLoop_sets (predicate : Predicate) (column fuel : ℕ) :
    Latches Anyhow Failing (scanningFilterLoop lanes cfg F input predicate column fuel) := by
  induction fuel with
  | zero => exact stuck_sets
  | succ fuel ih =>
    unfold scanningFilterLoop
    refine Latches.bind (.modify' fun _ h => h) fun _ => .get_bind fun s _ => .ite (.pure' _) ?_
    refine (core_sets (onWindow_sets (candidateMatches_sets predicate column))).bind fun found => ?_
    exact .ite (.pure' _) ih

theorem advanceLine_sets (filter : Option Filter) :
    Latches Anyhow Failing (advanceLine lanes cfg F input filter) := by
  cases filter with
  | none => exact core_sets (onWindow_sets (Window.engine_sets Engine.advance_sets))
  | some filter =>
    have hprepare : Latches Anyhow Engine.Failing (prepareAdvance cfg F input) :=
      Engine.checkFailed_sets.bind fun _ => Engine.ensureHeaders_sets.bind fun _ =>
        Engine.settle_sets
    refine (core_sets (onWindow_sets (Window.engine_sets hprepare))).bind fun _ =>
      Latches.bind (.modify' fun _ h => h) fun _ => ?_
    rcases filter.column with _ | column
    · exact .pure' _
    rcases filter.predicate.skipLiteral (cfg.fmt F) with _ | literal
    · exact scanningFilterLoop_sets _ column _
    · exact literalFilterLoop_sets _ column literal _ none

/-- Behind a failure a view looks at it; and a text view, and a decoding that wants strings, is of
    fields that are strings. -/
def Allowed (cfg : ParserSettings) (F : CsvFormat) (input : Bytes) : Op → SliceReader → Prop
  | .view view, s =>
    (s.failed = false ∨ view.Guarded s.toWindowEngine) ∧ view.Legible cfg F input s.toWindowEngine
  | _, _ => True

theorem apply_sets (op : Op) (s : SliceReader) (hallowed : Allowed cfg F input op s) :
    Ends (fun fault s' => Anyhow s' ∧ Failing fault s') (fun _ s' => Anyhow s')
      (apply lanes cfg F input op s) := by
  cases op with
  | nextLine filter =>
    exact (advanceLine_sets filter).map s trivial
  | view view =>
    show Ends _ _ (core (view.read cfg F input false) s)
    exact Ends.zoom (view.read_sets hallowed.2)
  | typedMapping unmapped => exact (core_sets (prepare_sets _ _)).bind (fun _ => .pure' _) s trivial

/-- A call that finds the failure set, and says so. -/
def Refused {α : Type} : EStateM.Result ReadFault SliceReader α → Prop :=
  Ends (fun fault s' => s'.failed = true ∧ fault.panics = false) (fun _ _ => False)

theorem core_refused {α : Type} {m : EStateM ReadFault WindowEngine α} {s : SliceReader}
    (h : Barred (m s.toWindowEngine)) : Refused (core m s) := Ends.zoom h

theorem engine_refused {α : Type} {m : Parse α} {s : SliceReader} (h : Engine.Refused (m s.toEngine)) :
    Refused (core (onWindow (Window.engine m)) s) :=
  core_refused (onWindow_barred (Window.engine_barred h))

theorem advanceLine_refused (filter : Option Filter) {s : SliceReader} (hfailed : s.failed = true) :
    Refused (advanceLine lanes cfg F input filter s) := by
  have hcheck : Engine.Refused (Engine.checkFailed input s.toEngine) :=
    Engine.checkFailed_refused hfailed
  cases filter with
  | none => exact engine_refused hcheck.fails
  | some filter =>
    have hprepare : Refused (core (onWindow (Window.engine (prepareAdvance cfg F input))) s) :=
      engine_refused hcheck.fails
    exact hprepare.fails

/-- **An error of the input** sets the failure of the engine, and behind it no line is found. -/
theorem latch : Latch (apply lanes cfg F input) (Allowed cfg F input) Op.reads ReadFault.malformed
    ReadFault.reported Anyhow fun s => s.failed = true where
  sets op s hallowed _ := apply_sets op s hallowed
  stays op s hallowed _ hfailed := by
    cases op with
    | nextLine filter =>
      exact Ends.stays ((advanceLine_refused filter hfailed).map fun _ _ h => h.elim)
        fun _ => ReadFault.reported_of_panics
    | view view =>
      rcases hallowed.1 with hcalm | hguarded
      · rw [hcalm] at hfailed
        cases hfailed
      · exact (core_refused (view.read_barred false hguarded)).stays
          fun _ => ReadFault.reported_of_panics
    | typedMapping unmapped =>
      -- headers that are settled are mapped to without a look at the failure
      have hmapping : Ends (fun _ s' => s'.failed = true) (fun _ s' => s'.failed = true)
          (core (Decoding.prepare cfg input false ⟨unmapped, fun _ => none⟩ (.decoded true)) s) :=
        Ends.zoom (prepare_stays _ hfailed)
      exact (hmapping.mono (fun _ _ h => ⟨h, fun hreads => by cases hreads⟩) fun _ _ h => h).bind
        fun _ _ h => ⟨h, rfl⟩

end SliceReader

/-! ## A stream -/

namespace IoParser

variable {cfg : ParserSettings} {F : CsvFormat}

theorem checkFailed_sets : Latches Anyhow Poisoned checkFailed := fun p _ =>
  (checkFailed_ends (p := p)).mono (fun _ _ h => ⟨trivial, h⟩) fun _ _ _ => trivial

theorem fail_sets {α : Type} (fault : IoFault) : Latches Anyhow Poisoned (fail fault : Stream α) :=
  fun _ _ => ⟨trivial, Or.inl rfl⟩

theorem stuck_sets {α : Type} :
    Latches Anyhow Poisoned (throw (.window (.fault .stuck)) : Stream α) :=
  .throw' fun _ _ => Or.inr rfl

theorem calling_sets {α : Type} (m : Window α) : Latches Anyhow Poisoned (calling m) := fun p _ =>
  (calling_ends (p := p) (Ends.somehow (m p.core))).mono (fun _ _ h => ⟨trivial, h⟩) fun _ _ _ => trivial

theorem readLoop_sets (input : List Answer) : Latches Anyhow Poisoned (readLoop input) := by
  induction input with
  | nil => exact fun _ _ => trivial
  | cons answer input ih =>
    intro p _
    cases answer with
    | bytes given =>
      unfold readLoop
      exact Ends.ite trivial trivial
    | interrupted => exact ih p trivial
    | overrun => exact ⟨trivial, Or.inl rfl⟩
    | failed => exact ⟨trivial, Or.inl rfl⟩

theorem refill_sets : Latches Anyhow Poisoned refill := by
  unfold refill
  exact .get_bind fun p _ => .ite (.pure' _) (Latches.bind (fun _ h => h) fun _ => readLoop_sets _)

theorem resolveBom_sets : Latches Anyhow Poisoned (resolveBom cfg) := by
  have hrefill : ∀ fuel, Latches Anyhow Poisoned (refillForBom fuel) := by
    intro fuel
    induction fuel with
    | zero => exact stuck_sets
    | succ fuel ih =>
      exact .get_bind fun p _ => .ite (refill_sets.bind fun _ => ih) (.pure' _)
  unfold resolveBom
  refine .get_bind fun p _ => .ite (.pure' _) ((hrefill _).bind fun _ => .get_bind fun p' _ => ?_)
  refine Latches.bind (fun _ h => h) fun _ => .ite (.pure' _) (.ite ?_ ?_)
  · exact .modify' fun _ h => h
  · exact .modify' fun _ h => h

theorem refilling_sets {α : Type} (call : Bytes → Bool → Window (Advance α)) (fuel : ℕ) :
    Latches Anyhow Poisoned (refilling call fuel) := by
  induction fuel with
  | zero => exact stuck_sets
  | succ fuel ih =>
    unfold refilling
    refine .get_bind fun p _ => (calling_sets _).bind fun outcome => ?_
    cases outcome with
    | record read => exact .pure' _
    | done => exact .pure' _
    | needMore => exact refill_sets.bind fun _ => ih

theorem ensureHeaders_sets : Latches Anyhow Poisoned (ensureHeaders cfg) := by
  unfold ensureHeaders
  refine checkFailed_sets.bind fun _ => resolveBom_sets.bind fun _ => .get_bind fun p _ =>
    .ite (.pure' _) (.ite (fail_sets _) ((refilling_sets _ _).bind fun _ => ?_))
  exact .modify' fun _ h => h

theorem settleHeaders_sets : Latches Anyhow Poisoned (settleHeaders cfg) := by
  unfold settleHeaders
  exact .get_bind fun p _ => .ite ensureHeaders_sets (.pure' _)

theorem notingEnd_sets {α : Type} (read : Option α) : Latches Anyhow Poisoned (notingEnd read) := by
  cases read with
  | some read => exact .pure' _
  | none => exact Latches.bind (.modify' fun _ h => h) fun _ => .pure' _

variable (hvalid : cfg.dialect.invalidity = none)

theorem advance_sets : Latches Anyhow Poisoned (advance cfg F hvalid) := by
  unfold advance
  exact settleHeaders_sets.bind fun _ => .get_bind fun p _ => (refilling_sets _ _).bind fun found =>
    (notingEnd_sets found).bind fun _ => .pure' _

theorem readRecord_sets (text : Bool) : Latches Anyhow Poisoned (readRecord cfg F hvalid text) := by
  unfold readRecord
  exact .get_bind fun p _ => .ite (fail_sets _) ((refilling_sets _ _).bind fun read =>
    (notingEnd_sets read).bind fun _ => .get_bind fun _ _ => .pure' _)

/-- A call that finds the failure set, and says so. -/
def Refused {α : Type} : EStateM.Result IoFault IoParser α → Prop :=
  Ends (fun fault p => p.failed = true ∧ fault.panics = false) (fun _ _ => False)

theorem checkFailed_refused {p : IoParser} (hfailed : p.failed = true) : Refused (checkFailed p) := by
  unfold checkFailed
  rw [if_pos hfailed]
  exact ⟨hfailed, rfl⟩

theorem ensureHeaders_refused {p : IoParser} (hfailed : p.failed = true) :
    Refused (ensureHeaders cfg p) := (checkFailed_refused hfailed).fails

theorem settleHeaders_refused {p : IoParser} (hfailed : p.failed = true) :
    Refused (settleHeaders cfg p) := by
  unfold settleHeaders
  rw [get_bind, hfailed, Bool.or_true, if_pos rfl]
  exact ensureHeaders_refused hfailed

end IoParser

namespace IoReader

variable {lanes : Search.Lanes} {cfg : ParserSettings} {F : CsvFormat}

/-- An error of the input has set the failure of the parser. -/
def Failing (fault : ReadFault) (s : IoReader) : Prop := fault.malformed = true → s.failed = true

theorem parser_sets {α : Type} {m : Stream α} (h : Latches Anyhow IoParser.Poisoned m) :
    Latches Anyhow Failing (parser m) := by
  refine .zoom fun s _ => (h s.toIoParser trivial).mono
    (fun fault p h' => ⟨trivial, fun hmalformed => ?_⟩) fun _ _ h' => h'
  rcases h'.2 with hfailed | hpanics
  · exact hfailed
  · cases fault with
    | window fault =>
      have hcalm : (!fault.panics) = true := hmalformed
      rw [show fault.panics = true from hpanics] at hcalm
      cases hcalm
    | io answer location => cases hmalformed

theorem failing_sets {α : Type} (m : EStateM ReadFault WindowEngine α) :
    Latches Anyhow Failing (failing m) := by
  intro s _
  unfold failing
  rcases m s.core with ⟨a, core⟩ | ⟨fault, core⟩
  · trivial
  · exact ⟨trivial, fun _ => rfl⟩

variable (hvalid : cfg.dialect.invalidity = none)

theorem filterLoop_sets (predicate : Predicate) (column : ℕ) (literal : Option Bytes) (fuel : ℕ) :
    Latches Anyhow Failing (filterLoop lanes cfg F hvalid predicate column literal fuel) := by
  induction fuel with
  | zero => exact .throw' fun _ _ h => by cases h
  | succ fuel ih =>
    unfold filterLoop
    refine Latches.bind (.modify' fun _ h => h) fun _ =>
      (parser_sets (IoParser.advance_sets hvalid)).bind fun found => .ite ?_ (.pure' _)
    exact .get_bind fun s _ => (parser_sets (IoParser.calling_sets _)).bind fun field =>
      .ite (.pure' _) ih

theorem advanceLine_sets (filter : Option Filter) :
    Latches Anyhow Failing (advanceLine lanes cfg F hvalid filter) := by
  cases filter with
  | none => exact parser_sets (IoParser.advance_sets hvalid)
  | some filter =>
    refine (parser_sets IoParser.checkFailed_sets).bind fun _ =>
      (parser_sets IoParser.ensureHeaders_sets).bind fun _ => ?_
    rcases filter.column with _ | column
    · exact .pure' _
    · exact filterLoop_sets hvalid _ column _ _

/-- Behind a failure a view looks at it, or reports the mark of the stream. -/
def Allowed : Op → IoReader → Prop
  | .view view, s =>
    s.failed = false ∨ (s.bomRejected = true ∧ view.meetsBom = true) ∨ view.Guarded s.core
  | _, _ => True

theorem apply_sets (op : Op) : Latches Anyhow Failing (apply lanes cfg F hvalid op) := by
  cases op with
  | nextLine filter => exact (advanceLine_sets hvalid filter).map
  | view view => exact .get_bind fun s _ => .ite (failing_sets _) (failing_sets _).map
  | readByteRecord =>
    exact Latches.map (parser_sets
      (IoParser.ensureHeaders_sets.bind fun _ => IoParser.readRecord_sets hvalid false))
  | readTextRecord =>
    exact Latches.map (parser_sets
      (IoParser.settleHeaders_sets.bind fun _ => IoParser.readRecord_sets hvalid true))
  | typedMapping unmapped =>
    exact (parser_sets IoParser.ensureHeaders_sets).bind fun _ => (failing_sets _).bind fun _ =>
      .pure' _

/-- A call that finds the failure set, and says so. -/
def Refused {α : Type} : EStateM.Result ReadFault IoReader α → Prop :=
  Ends (fun fault s => s.failed = true ∧ fault.panics = false) (fun _ _ => False)

theorem parser_refused {α : Type} {m : Stream α} {s : IoReader} (h : IoParser.Refused (m s.toIoParser)) :
    Refused (parser m s) := by
  refine Ends.zoom (h.mono (fun fault p h' => ⟨h'.1, ?_⟩) fun _ _ h' => h')
  cases fault with
  | window fault => exact h'.2
  | io answer location => exact rfl

theorem failing_refused {α : Type} {m : EStateM ReadFault WindowEngine α} {s : IoReader}
    (h : Ends (fun fault _ => fault.panics = false) (fun _ _ => False) (m s.core)) :
    Refused (failing m s) := by
  unfold failing
  rcases hrun : m s.core with ⟨a, core⟩ | ⟨fault, core⟩ <;> rw [hrun] at h
  · exact h.elim
  · exact ⟨rfl, (fault.rebase_panics _).trans h⟩

theorem advanceLine_refused (filter : Option Filter) {s : IoReader} (hfailed : s.failed = true) :
    Refused (advanceLine lanes cfg F hvalid filter s) := by
  cases filter with
  | none =>
    have hadvance : IoParser.Refused (IoParser.advance cfg F hvalid s.toIoParser) :=
      (IoParser.settleHeaders_refused hfailed).fails
    exact parser_refused hadvance
  | some filter => exact (parser_refused (IoParser.checkFailed_refused hfailed)).fails

theorem view_refused (view : LineView) {s : IoReader}
    (h : (s.bomRejected = true ∧ view.meetsBom = true) ∨ view.Guarded s.core) :
    Refused (apply lanes cfg F hvalid (.view view) s) := by
  rw [apply, get_bind]
  -- most views report the mark in front of anything else (`check_bom`)
  split_ifs with hbom
  · exact failing_refused rfl
  · refine Ends.map (failing_refused ?_) fun _ _ h' => h'
    rcases h with ⟨hrejected, hmeets⟩ | hguarded
    · have hchecks : view.checksBom = false := by
        rw [hrejected, Bool.and_true] at hbom
        exact Bool.not_eq_true _ ▸ hbom
      rw [hrejected]
      exact view.read_meetsBom hchecks hmeets _
    · exact (view.read_barred _ hguarded).mono (fun _ _ h' => h'.2) fun _ _ h' => h'

theorem apply_refused (op : Op) {s : IoReader} (hallowed : Allowed op s) (hfailed : s.failed = true) :
    Refused (apply lanes cfg F hvalid op s) := by
  cases op with
  | nextLine filter => exact (advanceLine_refused hvalid filter hfailed).map fun _ _ h => h.elim
  | view view =>
    rcases hallowed with hcalm | hview
    · rw [hcalm] at hfailed
      cases hfailed
    · exact view_refused hvalid view hview
  | readByteRecord =>
    have hread : IoParser.Refused (IoParser.readByteRecordInto cfg F hvalid s.toIoParser) :=
      (IoParser.ensureHeaders_refused hfailed).fails
    exact (parser_refused hread).map fun _ _ h => h.elim
  | readTextRecord =>
    have hread : IoParser.Refused (IoParser.readTextRecordInto cfg F hvalid s.toIoParser) :=
      (IoParser.settleHeaders_refused hfailed).fails
    exact (parser_refused hread).map fun _ _ h => h.elim
  | typedMapping unmapped =>
    have hheaders : IoParser.Refused (IoParser.ensureHeaders cfg s.toIoParser) :=
      IoParser.ensureHeaders_refused hfailed
    exact (parser_refused hheaders).fails

/-- **An error of the input** sets the failure of the parser, and behind it every call fails. -/
theorem latch : Latch (apply lanes cfg F hvalid) Allowed Op.reads ReadFault.malformed
    ReadFault.reported Anyhow fun s => s.failed = true where
  sets op s _ hs := apply_sets hvalid op s hs
  stays op _ hallowed _ hfailed :=
    (apply_refused hvalid op hallowed hfailed).stays fun _ => ReadFault.reported_of_panics

end IoReader

/-! ## Chunks -/

namespace PushParser

variable {cfg : ParserSettings} {F : CsvFormat}

/-- What is reported later is no panic. -/
def Calm (p : PushParser) : Prop := ∀ fault, p.deferred = some fault → fault.panics = false

/-- A call that fails has poisoned the parser, unless it panics. -/
def Poisoned (fault : WindowFault) (p : PushParser) : Prop := p.failed = true ∨ fault.panics = true

theorem failing_sets {α : Type} (rebase : WindowFault → WindowFault) (m : Window α) :
    Latches Calm Poisoned (failing rebase m) := by
  intro p h
  unfold failing
  rcases m p.core with ⟨a, core⟩ | ⟨fault, core⟩
  · exact h
  · exact ⟨h, Or.inl rfl⟩

theorem fail_sets {α : Type} (fault : WindowFault) : Latches Calm Poisoned (fail fault : Push α) :=
  fun _ h => ⟨h, Or.inl rfl⟩

theorem checkFailedIn_sets (buffer : Bytes) : Latches Calm Poisoned (checkFailedIn buffer) := by
  intro p h
  unfold checkFailedIn
  split_ifs with hfailed
  · rcases hdeferred : p.deferred with _ | fault
    · exact ⟨h, Or.inl hfailed⟩
    · exact ⟨fun _ hnone => (by cases hnone), Or.inl hfailed⟩
  · exact h

theorem resolveBomIn_sets (buffer : Bytes) (atEof : Bool) :
    Latches Calm Poisoned (resolveBomIn cfg buffer atEof) := by
  intro p h
  unfold resolveBomIn
  rw [get_bind]
  split_ifs
  · exact h
  · exact h
  · exact h
  · exact h
  · exact ⟨h, Or.inl rfl⟩
  · exact h

theorem noteAdvance_sets {α : Type} (m : Window (Advance α)) :
    Latches Calm Poisoned (noteAdvance m) := by
  unfold noteAdvance
  refine .get_bind fun p _ => (failing_sets _ m).bind fun outcome => ?_
  cases outcome with
  | record a => exact Latches.bind (.modify' fun _ h => h) fun _ => .pure' _
  | done => exact Latches.bind (.modify' fun _ h => h) fun _ => .pure' _
  | needMore => exact .pure' _

variable (hvalid : cfg.dialect.invalidity = none)

theorem windowAdvance_sets (atEof : Bool) :
    Latches Calm Poisoned (windowAdvance cfg F hvalid atEof) := by
  unfold windowAdvance
  refine .get_bind fun p _ => (noteAdvance_sets _).bind fun outcome => ?_
  cases outcome with
  | record a => exact .pure' _
  | done => exact .pure' _
  | needMore =>
    dsimp only
    exact .ite (.pure' _) (Latches.bind (.modify' fun _ h => h) fun _ => .pure' _)

theorem oversizedRecordError_sets {α : Type} :
    Latches Calm Poisoned (oversizedRecordError cfg F hvalid : Push α) := by
  unfold oversizedRecordError
  exact .get_bind fun p _ => (failing_sets _ _).bind fun _ => .get_bind fun p' _ => fail_sets _

/-- A parser that has failed says so. -/
theorem checkFailedIn_refused {buffer : Bytes} {p : PushParser} (hcalm : p.Calm)
    (hfailed : p.failed = true) :
    Ends (fun fault p' => p'.failed = true ∧ fault.panics = false) (fun _ _ => False)
      (checkFailedIn buffer p) := by
  unfold checkFailedIn
  rw [if_pos hfailed]
  rcases hdeferred : p.deferred with _ | fault
  · exact ⟨hfailed, rfl⟩
  · exact ⟨hfailed, hcalm fault hdeferred⟩

end PushParser

namespace Chunk

variable {cfg : ParserSettings} {F : CsvFormat}

/-- What is reported later is no panic. -/
def Calm (c : Chunk) : Prop := c.toPushParser.Calm

theorem lend_sets {α : Type} {m : Push α} (h : Latches PushParser.Calm PushParser.Poisoned m) :
    Latches Calm Poisoned (lend m) := by
  intro c hcalm
  exact lend_ends ((h c.toPushParser hcalm).mono (fun _ _ h' => h') fun _ _ h' => h')

variable (hvalid : cfg.dialect.invalidity = none)

theorem absorb_sets : Latches Calm Poisoned (absorb cfg F hvalid) := by
  intro c hcalm
  unfold absorb
  rw [get_bind]
  dsimp only
  split_ifs with hempty hroom
  · exact hcalm
  · exact (lend_sets (PushParser.oversizedRecordError_sets hvalid)) c hcalm
  · exact hcalm
  · exact hcalm

theorem advanceBorrowed_sets : Latches Calm Poisoned (advanceBorrowed cfg F hvalid) := by
  unfold advanceBorrowed
  exact .get_bind fun c _ => (lend_sets (PushParser.checkFailedIn_sets _)).bind fun _ =>
    (lend_sets (PushParser.resolveBomIn_sets _ _)).bind fun _ =>
      (lend_sets (PushParser.noteAdvance_sets _)).bind fun _ => .pure' _

theorem windowRound_sets (atEof : Bool) : Latches Calm Poisoned (windowRound cfg F hvalid atEof) := by
  unfold windowRound
  exact .get_bind fun c _ => .ite (.pure' _)
    ((lend_sets (PushParser.windowAdvance_sets hvalid atEof)).bind fun _ => .pure' _)

theorem advanceAbsorbing_sets (fuel : ℕ) :
    Latches Calm Poisoned (advanceAbsorbing cfg F hvalid fuel) := by
  induction fuel with
  | zero => exact .throw' fun _ _ => Or.inr rfl
  | succ fuel ih =>
    unfold advanceAbsorbing
    refine .get_bind fun c _ => (lend_sets (PushParser.checkFailedIn_sets _)).bind fun _ =>
      (lend_sets (PushParser.resolveBomIn_sets _ _)).bind fun _ => (windowRound_sets hvalid _).bind
        fun found => .ite (.pure' _) (.get_bind fun c' hcalm => .ite ?_ ?_)
    · exact Latches.bind (fun _ _ => hcalm) fun _ => advanceBorrowed_sets hvalid
    refine (absorb_sets hvalid).bind fun absorbed => ?_
    cases absorbed with
    | drained => exact .pure' _
    | boundary => exact ih
    | interior => exact .ite ih (Latches.bind (.modify' fun _ h => h) fun _ => .pure' _)

theorem advance_sets : Latches Calm Poisoned (advance cfg F hvalid) := by
  unfold advance
  exact .get_bind fun c _ => .ite (advanceBorrowed_sets hvalid) (advanceAbsorbing_sets hvalid _)

theorem readAdvanced_sets (text : Bool) : Latches Calm Poisoned (readAdvanced cfg F hvalid text) := by
  unfold readAdvanced
  refine (advance_sets hvalid).bind fun found => .ite (.get_bind fun c _ => ?_) (.pure' _)
  refine (lend_sets (PushParser.failing_sets _ _)).bind fun seen => Latches.bind ?_ fun _ => .pure' _
  refine .modify' fun c' h => ?_
  split_ifs
  · exact h
  · exact h

theorem readBorrowed_sets (text : Bool) : Latches Calm Poisoned (readBorrowed cfg F hvalid text) := by
  unfold readBorrowed
  refine .get_bind fun c _ => (lend_sets (PushParser.checkFailedIn_sets _)).bind fun _ =>
    (lend_sets (PushParser.resolveBomIn_sets _ _)).bind fun _ =>
      (lend_sets (PushParser.noteAdvance_sets _)).bind fun outcome => Latches.bind ?_ fun _ => .pure' _
  refine .modify' fun c' h => ?_
  split_ifs
  · exact h
  · exact h

theorem readByteRecordInto_sets : Latches Calm Poisoned (readByteRecordInto cfg F hvalid) := by
  unfold readByteRecordInto
  exact .get_bind fun c _ => .ite (readBorrowed_sets hvalid false) (readAdvanced_sets hvalid false)

theorem readTextRecordInto_sets : Latches Calm Poisoned (readTextRecordInto cfg F hvalid) := by
  unfold readTextRecordInto
  refine .get_bind fun c _ => .ite ?_
    (.ite (readBorrowed_sets hvalid true) (readAdvanced_sets hvalid true))
  exact (lend_sets (PushParser.failing_sets _ _)).bind fun _ => .pure' _

/-- A call that finds the failure set, and says so. -/
def Refused {α : Type} : EStateM.Result WindowFault Chunk α → Prop :=
  Ends (fun fault c => c.failed = true ∧ fault.panics = false) (fun _ _ => False)

theorem lend_refused (buffer : Bytes) {c : Chunk} (hcalm : c.Calm) (hfailed : c.failed = true) :
    Refused (lend (PushParser.checkFailedIn buffer) c) :=
  lend_ends (PushParser.checkFailedIn_refused hcalm hfailed)

theorem advance_refused {c : Chunk} (hcalm : c.Calm) (hfailed : c.failed = true) :
    Refused (advance cfg F hvalid c) := by
  unfold advance
  rw [get_bind]
  split_ifs
  · unfold advanceBorrowed
    rw [get_bind]
    exact (lend_refused c.region hcalm hfailed).fails
  · rw [advanceAbsorbing, get_bind]
    exact (lend_refused c.window hcalm hfailed).fails

/-- The reads look at the failure, but for the one that goes straight to the region. -/
theorem read_refused (text : Bool) {c : Chunk} (hcalm : c.Calm) (hfailed : c.failed = true) :
    Refused (readBorrowed cfg F hvalid text c) ∧ Refused (readAdvanced cfg F hvalid text c) := by
  refine ⟨?_, (advance_refused hvalid hcalm hfailed).fails⟩
  unfold readBorrowed
  rw [get_bind]
  exact (lend_refused c.region hcalm hfailed).fails

/-- The read that goes straight to the region, of an engine that has failed. -/
theorem direct_refused (text : Bool) {c : Chunk} (hfailed : c.core.failed = true)
    (hfar : c.finished = true ∨
      c.core.location + WindowEngine.separatorLookahead cfg < c.region.length) :
    Refused (lend (PushParser.failing (.rebase c.consumed)
      (Window.readWindow cfg F c.region hvalid text c.finished)) c) := by
  have hread : Window.Barred (Window.readWindow cfg F c.region hvalid text c.finished c.core) :=
    Window.readWindow_barred hvalid text c.finished hfailed hfar
  unfold Window.Barred at hread
  refine lend_ends ?_
  unfold PushParser.failing
  rcases hrun : Window.readWindow cfg F c.region hvalid text c.finished c.core with
    ⟨a, core⟩ | ⟨fault, core⟩ <;> rw [hrun] at hread
  · exact hread.elim
  · exact ⟨rfl, (fault.rebase_panics _).trans hread.2⟩

end Chunk

namespace ChunkReader

variable {lanes : Search.Lanes} {cfg : ParserSettings} {F : CsvFormat}

/-- An error of the input has set the failure of the parser. -/
def Failing (fault : ReadFault) (s : ChunkReader) : Prop := fault.malformed = true → s.failed = true

/-- What is reported later is no panic. -/
def Calm (s : ChunkReader) : Prop := s.toChunk.Calm

theorem chunk_sets {α : Type} {m : Lend α} (h : Latches Chunk.Calm Chunk.Poisoned m) :
    Latches Calm Failing (chunk m) := by
  refine .zoom fun s hcalm => (h s.toChunk hcalm).mono
    (fun fault c h' => ⟨h'.1, fun hmalformed => ?_⟩) fun _ _ h' => h'
  rcases h'.2 with hfailed | hpanics
  · exact hfailed
  · have hno : (!fault.panics) = true := hmalformed
    rw [hpanics] at hno
    cases hno

theorem failing_sets {α : Type} (m : EStateM ReadFault WindowEngine α) :
    Latches Calm Failing (failing m) := by
  intro s hcalm
  unfold failing
  rcases m s.core with ⟨a, core⟩ | ⟨fault, core⟩
  · exact hcalm
  · exact ⟨hcalm, fun _ => rfl⟩

theorem dropping_sets {α : Type} (m : Window (Option α)) :
    Latches Chunk.Calm Chunk.Poisoned (dropping m) := by
  intro c hcalm
  unfold dropping
  rcases m c.core with ⟨a, core⟩ | ⟨fault, core⟩
  · exact hcalm
  · dsimp only
    split_ifs with hpanics
    · exact ⟨hcalm, Or.inr hpanics⟩
    · exact hcalm

/-- The skip leaves the flags alone. -/
theorem skip_ends (literal : Option Bytes) (pending : Option ℕ) (s : ChunkReader) :
    Ends (fun _ _ => False)
      (fun _ s' => s'.failed = s.failed ∧ s'.deferred = s.deferred)
      (skip lanes cfg literal pending s) := by
  unfold skip
  rw [get_bind]
  rcases s.borrowed with _ | _
  · exact ⟨rfl, rfl⟩
  · rcases literal with _ | literal
    · exact ⟨rfl, rfl⟩
    · exact ⟨rfl, rfl⟩

theorem skip_sets (literal : Option Bytes) (pending : Option ℕ) :
    Latches Calm Failing (skip lanes cfg literal pending) := fun s hcalm =>
  (skip_ends literal pending s).mono (fun _ _ h => h.elim) fun _ _ h fault hfault =>
    hcalm fault (h.2 ▸ hfault)

variable (hvalid : cfg.dialect.invalidity = none)

theorem filterLoop_sets (filter : Filter) (literal : Option Bytes) (fuel : ℕ) :
    ∀ pending, Latches Calm Failing (filterLoop lanes cfg F hvalid filter literal fuel pending) := by
  induction fuel with
  | zero => exact fun _ => .throw' fun _ _ h => by cases h
  | succ fuel ih =>
    intro pending
    unfold filterLoop
    refine (skip_sets literal pending).bind fun pending => (chunk_sets (Chunk.advance_sets hvalid)).bind
      fun found => .ite ?_ (.pure' _)
    rcases filter.column with _ | column
    · exact .pure' _
    · exact .get_bind fun s _ => (chunk_sets (dropping_sets _)).bind fun field =>
        .ite (.pure' _) (ih pending)

theorem advanceLine_sets (filter : Option Filter) :
    Latches Calm Failing (advanceLine lanes cfg F hvalid filter) := by
  cases filter with
  | none => exact chunk_sets (Chunk.advance_sets hvalid)
  | some filter => exact filterLoop_sets hvalid filter _ _ none

/-- A parser that has failed stays so behind the next chunk, and its report is no panic. -/
theorem offerNext_ends (finish : Bool) (bytes : Bytes) (s : ChunkReader) :
    Ends (fun fault s' => Failing fault s' ∧ s'.Calm ∧ (s.failed = true → s'.failed = true))
      (fun _ s' => s'.Calm ∧ (s.failed = true → s'.failed = true))
      (offerNext cfg F hvalid finish bytes s) := by
  have hparser : s.failed = true → (if finish then (Chunk.settle cfg F hvalid s.toChunk).finish
      else (Chunk.settle cfg F hvalid s.toChunk).toPushParser).failed = true := by
    intro hfailed
    have hsettled : (Chunk.settle cfg F hvalid s.toChunk).failed = true :=
      Chunk.settle_failed hvalid hfailed
    cases finish with
    | false => exact hsettled
    | true => exact hsettled
  unfold offerNext
  rw [get_bind]
  dsimp only
  generalize (if finish = true then (Chunk.settle cfg F hvalid s.toChunk).finish
    else (Chunk.settle cfg F hvalid s.toChunk).toPushParser) = p at hparser ⊢
  rcases hdeferred : p.deferred with _ | fault
  · refine ⟨fun fault hfault => ?_, hparser⟩
    rw [show p.deferred = some fault from hfault] at hdeferred
    cases hdeferred
  · dsimp only
    split_ifs with hpanics
    · refine ⟨fun hmalformed => ?_, fun _ hnone => (by cases hnone), hparser⟩
      have hcalm : (!fault.panics) = true := hmalformed
      rw [hpanics] at hcalm
      cases hcalm
    · refine ⟨fun fault' hfault => ?_, hparser⟩
      rw [show p.deferred = some fault' from hfault] at hdeferred
      cases hdeferred
      exact Bool.not_eq_true _ ▸ hpanics

theorem offerNext_sets (finish : Bool) (bytes : Bytes) :
    Latches Calm Failing (offerNext cfg F hvalid finish bytes) := fun s _ =>
  (offerNext_ends hvalid finish bytes s).mono
    (fun _ _ h => ⟨h.2.1, h.1⟩) fun _ _ h => h.1

/-- Behind a failure a view looks at it, and a text read does not go straight to the region, or finds
    the failure of the engine there. -/
def Allowed (cfg : ParserSettings) : Op → ChunkReader → Prop
  | .view view, s => s.failed = false ∨ view.Guarded s.core
  | .readTextRecord, s =>
    s.directText = false ∨ s.failed = false ∨
      (s.core.failed = true ∧ (s.finished = true ∨
        s.core.location + WindowEngine.separatorLookahead cfg < s.region.length))
  | _, _ => True

instance : (op : Op) → (s : ChunkReader) → Decidable (Allowed cfg op s)
  | .view _, _ => inferInstanceAs (Decidable (_ ∨ _))
  | .readTextRecord, _ => inferInstanceAs (Decidable (_ ∨ _))
  | .nextLine _, _ => .isTrue trivial
  | .readByteRecord, _ => .isTrue trivial
  | .offer _ _, _ => .isTrue trivial

theorem apply_sets (op : Op) : Latches Calm Failing (apply lanes cfg F hvalid op) := by
  cases op with
  | nextLine filter => exact (advanceLine_sets hvalid filter).map
  | view view => exact .get_bind fun s _ => (failing_sets _).map
  | readByteRecord => exact (chunk_sets (Chunk.readByteRecordInto_sets hvalid)).map
  | readTextRecord => exact (chunk_sets (Chunk.readTextRecordInto_sets hvalid)).map
  | offer finish bytes => exact (offerNext_sets hvalid finish bytes).bind fun _ => .pure' _

/-- A call that finds the failure set, and says so. -/
def Refused {α : Type} : EStateM.Result ReadFault ChunkReader α → Prop :=
  Ends (fun fault s => s.failed = true ∧ fault.panics = false) (fun _ _ => False)

theorem chunk_refused {α : Type} {m : Lend α} {s : ChunkReader} (h : Chunk.Refused (m s.toChunk)) :
    Refused (chunk m s) := Ends.zoom h

theorem advanceLine_refused (filter : Option Filter) {s : ChunkReader} (hcalm : s.Calm)
    (hfailed : s.failed = true) : Refused (advanceLine lanes cfg F hvalid filter s) := by
  cases filter with
  | none => exact chunk_refused (Chunk.advance_refused hvalid hcalm hfailed)
  | some filter =>
    show Refused (filterLoop lanes cfg F hvalid filter _ (filter.fuel + 1) none s)
    unfold filterLoop
    refine ((skip_ends _ none s).mono (fun _ _ h => h.elim) fun _ _ h => h).bind fun pending s' h => ?_
    have hcalm' : s'.Calm := fun fault hfault => hcalm fault (h.2 ▸ hfault)
    exact (chunk_refused (Chunk.advance_refused hvalid hcalm' (h.1.trans hfailed))).fails

theorem failing_refused {α : Type} {m : EStateM ReadFault WindowEngine α} {s : ChunkReader}
    (h : Barred (m s.core)) : Refused (failing m s) := by
  unfold Barred at h
  unfold failing
  rcases hrun : m s.core with ⟨a, core⟩ | ⟨fault, core⟩ <;> rw [hrun] at h
  · exact h.elim
  · exact ⟨rfl, (fault.rebase_panics _).trans h.2⟩

theorem readTextRecord_refused {s : ChunkReader} (hallowed : Allowed cfg .readTextRecord s)
    (hcalm : s.Calm) (hfailed : s.failed = true) :
    Chunk.Refused (Chunk.readTextRecordInto cfg F hvalid s.toChunk) := by
  obtain ⟨hborrowed, hadvanced⟩ := Chunk.read_refused hvalid true hcalm hfailed
  unfold Chunk.readTextRecordInto
  rw [get_bind]
  split_ifs with hdirect
  -- the direct read does not look at the failure of the parser, but at that of the engine
  · rcases hallowed with hno | hcalm' | ⟨hcore, hfar⟩
    · rw [hdirect] at hno
      cases hno
    · rw [hfailed] at hcalm'
      cases hcalm'
    · exact (Chunk.direct_refused hvalid true hcore hfar).fails
  · exact hborrowed
  · exact hadvanced

theorem readByteRecord_refused {s : ChunkReader} (hcalm : s.Calm) (hfailed : s.failed = true) :
    Chunk.Refused (Chunk.readByteRecordInto cfg F hvalid s.toChunk) := by
  obtain ⟨hborrowed, hadvanced⟩ := Chunk.read_refused hvalid false hcalm hfailed
  unfold Chunk.readByteRecordInto
  rw [get_bind]
  split_ifs
  · exact hborrowed
  · exact hadvanced

theorem stays (op : Op) {s : ChunkReader} (hallowed : Allowed cfg op s) (hcalm : s.Calm)
    (hfailed : s.failed = true) :
    Ends (fun fault s' => s'.failed = true ∧ (op.reads = true → fault.reported = true))
      (fun _ s' => s'.failed = true ∧ op.reads = false) (apply lanes cfg F hvalid op s) := by
  cases op with
  | nextLine filter =>
    exact Ends.stays ((advanceLine_refused hvalid filter hcalm hfailed).map fun _ _ h => h.elim)
      fun _ => ReadFault.reported_of_panics
  | view view =>
    rcases hallowed with hno | hguarded
    · rw [hno] at hfailed
      cases hfailed
    · have hview : Barred (view.read cfg F s.buffer false s.core) := view.read_barred false hguarded
      exact Ends.stays ((failing_refused hview).map fun _ _ h => h.elim)
        fun _ => ReadFault.reported_of_panics
  | readByteRecord =>
    exact Ends.stays
      ((chunk_refused (readByteRecord_refused hvalid hcalm hfailed)).map fun _ _ h => h.elim)
      fun _ => ReadFault.reported_of_panics
  | readTextRecord =>
    exact Ends.stays
      ((chunk_refused (readTextRecord_refused hvalid hallowed hcalm hfailed)).map fun _ _ h => h.elim)
      fun _ => ReadFault.reported_of_panics
  | offer finish bytes =>
    exact ((offerNext_ends hvalid finish bytes s).mono
      (fun _ _ h => ⟨h.2.2 hfailed, fun hreads => by cases hreads⟩) fun _ _ h => h.2 hfailed).bind
        fun _ _ h => ⟨h, rfl⟩

/-- **An error of the input** sets the failure of the parser, and behind it every call fails. -/
theorem latch : Latch (apply lanes cfg F hvalid) (Allowed cfg) Op.reads ReadFault.malformed
    ReadFault.reported Calm fun s => s.failed = true where
  sets op s _ hs := apply_sets hvalid op s hs
  stays op _ hallowed hs hfailed := stays hvalid op hallowed hs hfailed

theorem calm_fromSettings (bytes : Bytes) : (fromSettings cfg bytes).Calm :=
  fun _ hdeferred => by cases hdeferred

end ChunkReader

/-- **A parser that has failed** delivers nothing more: in a run of the calls that look at the failure,
    each call that reads records fails behind an error of the input. -/
theorem failed_delivers_nothing (lanes : Search.Lanes) (cfg : ParserSettings) (F : CsvFormat)
    (hvalid : cfg.dialect.invalidity = none) :
    (∀ input ops s,
      Meets (SliceReader.apply lanes cfg F input) (SliceReader.Allowed cfg F input) ops s →
      Silent (SliceReader.apply lanes cfg F input) SliceReader.Op.reads ReadFault.malformed
        ReadFault.reported ops s) ∧
    (∀ ops s, Meets (IoReader.apply lanes cfg F hvalid) IoReader.Allowed ops s →
      Silent (IoReader.apply lanes cfg F hvalid) IoReader.Op.reads ReadFault.malformed
        ReadFault.reported ops s) ∧
    ∀ ops s, s.Calm → Meets (ChunkReader.apply lanes cfg F hvalid) (ChunkReader.Allowed cfg) ops s →
      Silent (ChunkReader.apply lanes cfg F hvalid) ChunkReader.Op.reads ReadFault.malformed
        ReadFault.reported ops s :=
  ⟨fun _ ops s hmeets => SliceReader.latch.silent ops s hmeets trivial,
    fun ops s hmeets => (IoReader.latch hvalid).silent ops s hmeets trivial,
    fun ops s hcalm hmeets => (ChunkReader.latch hvalid).silent ops s hmeets hcalm⟩

/-- A field that is no string fails the second text read of a chunk, and behind it the byte read and
    the line. -/
theorem failed_delivers_nothing_invalidUtf8 :
    (answers (ChunkReader.apply .scalar .plain none ParserSettings.plain_valid)
        [.readTextRecord, .readTextRecord, .readByteRecord, .nextLine none]
        (.fromSettings .plain [97, 10, 0xFF, 10, 98, 10, 99, 10])).map
      (fun answer => answer.toOption.isSome) = [true, false, false, false] ∧
    Silent (ChunkReader.apply .scalar .plain none ParserSettings.plain_valid)
      ChunkReader.Op.reads ReadFault.malformed ReadFault.reported
      [.readTextRecord, .readTextRecord, .readByteRecord, .nextLine none]
      (.fromSettings .plain [97, 10, 0xFF, 10, 98, 10, 99, 10]) :=
  ⟨by decide +kernel,
    (failed_delivers_nothing .scalar .plain none ParserSettings.plain_valid).2.2 _ _
      (ChunkReader.calm_fromSettings _) (by decide +kernel)⟩

/-- The third text read of the chunk goes straight to its region, and delivers a record. -/
theorem direct_text_delivers :
    ¬Silent (ChunkReader.apply .scalar .plain none ParserSettings.plain_valid)
      ChunkReader.Op.reads ReadFault.malformed ReadFault.reported
      [.readTextRecord, .readTextRecord, .readTextRecord]
      (.fromSettings .plain [97, 10, 0xFF, 10, 98, 10, 99, 10]) := by
  intro h
  have hanswers : answers (ChunkReader.apply .scalar .plain none ParserSettings.plain_valid)
      [.readTextRecord, .readTextRecord, .readTextRecord]
      (.fromSettings .plain [97, 10, 0xFF, 10, 98, 10, 99, 10]) =
      [.ok (.record (.owned ⟨⟨[some [97]], false, .unknown⟩, 0, 2, 0⟩)),
        .error (.window (.invalidUtf8 ⟨2, 2, 1, 0⟩ false)),
        .ok (.record (.owned ⟨⟨[some [98]], false, .unknown⟩, 4, 6, 2⟩))] := by
    decide +kernel
  unfold Silent at h
  rw [hanswers] at h
  have hlater := List.rel_of_pairwise_cons (List.Pairwise.of_cons h) List.mem_cons_self
  obtain ⟨_, hfault, -⟩ := hlater ⟨_, rfl, rfl⟩ rfl
  cases hfault

end Coseva
