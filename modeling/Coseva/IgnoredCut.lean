/-
  Coseva — ignored lines over the windows of a stream: however an input is cut into
  windows, `skip_ignored_records` passes the lines that a scan of the whole input
  passes.

  * `SkipSession`, `SkipEvent`: an engine over the windows of an input, which grow,
    lose their front and are refused;
  * `Inv`: what a session keeps between the attempts;
  * `skip_cut`: where every attempt of a session stops.
-/
import Coseva.IgnoredSkip
import Coseva.WindowCursor

namespace Coseva

open Engine Ignored

/-! ## Sessions -/

/-- Where the records of an input end.  A record that begins with a record ending ends no
    earlier. -/
structure RecordEnds (cfg : ParserSettings) (data : Bytes) where
  stop : ℕ → ℕ
  after : ∀ start, start < stop start
  blank : ∀ start width, recordEndingWidthAt cfg data start = some width → start + width ≤ stop start

/-- Records that are lines. -/
def RecordEnds.lines {cfg : ParserSettings} (hs : cfg.dialect.Sound) (data : Bytes) :
    RecordEnds cfg data where
  stop start := (findRecordEnding cfg data start).getD (max data.length (start + 1))
  after start := by
    rcases hfind : findRecordEnding cfg data start with _ | next
    · exact lt_of_lt_of_le (Nat.lt_succ_self start) (le_max_right _ _)
    · exact (findRecordEnding_within hs hfind).1
  blank start width hwidth := by rw [findRecordEnding_blank hs hwidth, Option.getD_some]

/-- The front ends that read windows of a stream. -/
inductive FrontEnd
  | io
  | push
  deriving DecidableEq, Repr

/-- An engine over a window of an input. -/
structure SkipSession where
  /-- the bytes of the input in front of the window -/
  off : ℕ
  /-- the bytes of the input up to the window's end -/
  stop : ℕ
  engine : Engine
  /-- behind the last record, in the input -/
  boundary : ℕ

/-- Where an attempt to skip ignored lines has stopped, in the input. -/
structure SkipStop where
  start : ℕ
  reached : ℕ
  windowEnd : ℕ
  /-- another round of the loop would not move -/
  ended : Bool
  deriving DecidableEq, Repr

/-- What happens to a session. -/
inductive SkipEvent
  /-- more of the stream -/
  | grow (count : ℕ)
  /-- bytes that are no longer needed are dropped -/
  | compact (count : ℕ)
  /-- `enter_borrowed`: all that has been parsed is dropped -/
  | enterBorrowed
  /-- `headers_window`; `settled` when the window settles the record -/
  | headers (settled : Bool)
  /-- `advance_window`; `settled` when the window settles the records -/
  | advance (settledHeader settled : Bool)
  deriving DecidableEq, Repr

namespace SkipSession

variable (cfg : ParserSettings) (data : Bytes) (records : RecordEnds cfg data)
  (config : WindowScanConfig) (frontEnd : FrontEnd) (s : SkipSession)

/-- The window. -/
def window : Bytes := slice data s.off s.stop

/-- Another round of the loop of `skip_ignored_records` does not move. -/
def ended (e : Engine) : Bool :=
  (skipBlankLines cfg (s.window data) (skipComments cfg (s.window data) e)).location == e.location

/-- `ensure_headers_window`, up to the record it reads. -/
def attemptHeader (settled : Bool) : SkipStop × Bool × SkipSession :=
  let e := if cfg.skipsRecords then skipIgnoredRecords cfg (s.window data) s.engine else s.engine
  let start := s.off + e.location
  let stopped : SkipStop := ⟨s.boundary, start, s.stop, s.ended cfg data e⟩
  if e.location = (s.window data).length then (stopped, false, { s with engine := e })
  else if settled && decide (records.stop start < s.stop) then
    (stopped, true,
      { s with
        engine := { e with location := records.stop start - s.off, headersInitialized := true }
        boundary := records.stop start })
  else (stopped, false, { s with engine := e })

/-- `try_advance_window`, behind the headers. -/
def attemptRecord (settled : Bool) : SkipStop × Bool × SkipSession :=
  let e := skipToRecord cfg (s.window data) s.engine
  let start := s.off + e.location
  let stopped : SkipStop := ⟨s.boundary, start, s.stop, s.ended cfg data e⟩
  if e.location = (s.window data).length then (stopped, false, { s with engine := e })
  else
    let (lacks, resume) :=
      if e.resume.recordStart = some e.location then
        config.windowLacksRecordRuntime (s.window data) e.resume
      else (false, e.resume)
    if lacks then (stopped, false, { s with engine := { e with resume } })
    else if settled && decide (records.stop start ≤ s.stop) then
      (stopped, true,
        { s with
          engine := { e with
            resume
            location := records.stop start - s.off
            cursorStart := some e.location }
          boundary := records.stop start })
    else (stopped, false, { s with engine := { e with resume := resume.seedResume e.location } })

/-- A refused window.  The lazy variants put the cursor of the last record back too, which keeps
    more of the window. -/
def refuse (refused : SkipSession) : SkipSession :=
  { s with engine := refused.engine.restoreChunkCursor s.engine.chunkCursorState }

/-- The window loses `count` bytes of its front. -/
def shift (count : ℕ) : SkipSession :=
  { s with off := s.off + count, engine := s.engine.shiftWindow (s.window data) count }

/-- `enter_borrowed`: a push parser drops all that it has parsed. -/
def enterBorrowed : SkipSession :=
  shift data { s with engine := s.engine.releasePositionedRecord } s.engine.location

/-- The checkpoint is not of a comment that has been passed. -/
def CommentAhead (e : Engine) : Prop :=
  e.resume.ignored = true → ∀ start ∈ e.resume.recordStart, e.location ≤ start

instance (e : Engine) : Decidable (CommentAhead e) := inferInstanceAs (Decidable (_ → _))

/-- One event: where its attempts stop, and the session behind it. -/
def step : SkipEvent → List SkipStop × SkipSession
  | .grow count => ([], { s with stop := min (s.stop + count) data.length })
  | .compact count =>
    if count ≤ s.engine.windowAnchor ∨ (frontEnd = .io ∧ count = s.engine.ioWindowAnchor) then
      ([], s.shift data count)
    else ([], s)
  | .enterBorrowed =>
    if frontEnd = .push then ([], s.enterBorrowed data) else ([], s)
  | .headers settled =>
    if s.engine.headersInitialized then ([], s)
    else
      let (stopped, read, s') := s.attemptHeader cfg data records settled
      ([stopped], if read then s' else s.refuse s')
  | .advance settledHeader settled =>
    if s.engine.headersInitialized then
      let (stopped, read, s') := s.attemptRecord cfg data records config settled
      ([stopped], if read then s' else s.refuse s')
    else if frontEnd = .io then ([], s)
    else
      let (stopped, read, s₁) := s.attemptHeader cfg data records settledHeader
      if read then
        let (stopped', read, s₂) := s₁.attemptRecord cfg data records config settled
        ([stopped, stopped'], if read then s₂ else s.refuse s₂)
      else ([stopped], s.refuse s₁)

/-- No event of a run drops bytes from under the checkpoint of a passed comment. -/
def Clear : SkipSession → List SkipEvent → Prop
  | _, [] => True
  | s, event :: events =>
    (frontEnd = .push → event = .enterBorrowed → CommentAhead s.engine) ∧
      Clear (s.step cfg data records config frontEnd event).2 events

/-- Where the attempts of a run stop. -/
def stops : SkipSession → List SkipEvent → List SkipStop
  | _, [] => []
  | s, event :: events =>
    (s.step cfg data records config frontEnd event).1 ++
      stops (s.step cfg data records config frontEnd event).2 events

end SkipSession

/-- Where a scan of the whole input from `start` stops. -/
def wholeScan (cfg : ParserSettings) (data : Bytes) (start : ℕ) : ℕ :=
  (skipIgnoredRecords cfg data { Engine.fromConfig cfg data with location := start }).location

namespace SkipSession

section

variable {cfg : ParserSettings} {data : Bytes} (hs : cfg.dialect.Sound)

/-! ## The whole input -/

theorem slice_whole : slice data 0 data.length = data := by
  rw [slice, List.take_length, List.drop_zero]

include hs in
/-- No ignored line begins where the input shows none. -/
theorem rests_no_line {S next : ℕ} (h : Rests cfg data data.length S) :
    ¬ IgnoredLine cfg data S next := by
  intro hline
  have h1 := h.lt_line hs hline
  have h2 := (findRecordEnding_within hs hline.2).2
  omega

include hs in
/-- A scan of the whole input stops where no line begins, or at its end, inside a comment. -/
theorem wholeScan_rests {start : ℕ} (hstart : start ≤ data.length) :
    ∃ S, Path cfg data start S ∧ S ≤ data.length ∧
      (∀ p, Path cfg data start p → p ≤ S) ∧
      ((wholeScan cfg data start = data.length ∧ CommentAt cfg data S ∧
          findRecordEnding cfg data S = none) ∨
        (wholeScan cfg data start = S ∧ Rests cfg data data.length S)) := by
  have hat : At cfg data 0 data.length start (fun _ => False)
      { Engine.fromConfig cfg data with location := start } start :=
    ⟨Nat.zero_add _, hstart, .refl, .new _⟩
  obtain ⟨S, hskipped⟩ := skipIgnoredRecords_at hs le_rfl hat
  rw [slice_whole] at hskipped
  -- nothing is ahead of a point where no line begins
  have hlast : (∀ next, ¬ IgnoredLine cfg data S next) → ∀ p, Path cfg data start p → p ≤ S := by
    intro hno p hp
    refine Nat.le_of_not_lt fun hlt => ?_
    rcases (Path.ahead hs hskipped.path hp hlt.le).cases_head with heq | ⟨next, hline, -⟩
    · omega
    · exact hno next hline
  refine ⟨S, hskipped.path, ?_⟩
  rcases hskipped.outcome with hun | ⟨hat, hrest, -⟩
  · have h1 := hun.point
    have h2 := hun.resume.lt
    rw [Nat.zero_add] at h1
    have hnone : findRecordEnding cfg data S = none := by
      rcases hfind : findRecordEnding cfg data S with _ | next
      · rfl
      · have h3 := (findRecordEnding_within hs hfind).2
        have h4 := hun.open' next hfind
        omega
    refine ⟨by omega, hlast fun next hline => ?_, Or.inl ⟨h1, ?_, hnone⟩⟩
    · have := hline.2
      rw [hnone] at this
      cases this
    · have hcomment := hun.resume.comment
      rwa [Nat.zero_add, Nat.sub_zero] at hcomment
  · have h1 := hat.point
    rw [Nat.zero_add] at h1
    exact ⟨hat.le, hlast fun next => rests_no_line hs hrest, Or.inr ⟨h1, hrest⟩⟩

include hs in
theorem path_le_wholeScan {start p : ℕ} (hstart : start ≤ data.length) (h : Path cfg data start p) :
    p ≤ wholeScan cfg data start := by
  obtain ⟨S, -, hle, hlast, houtcome⟩ := wholeScan_rests hs hstart
  have := hlast p h
  rcases houtcome with ⟨heq, -⟩ | ⟨heq, -⟩
  · omega
  · omega

include hs in
theorem wholeScan_le {start : ℕ} (hstart : start ≤ data.length) :
    wholeScan cfg data start ≤ data.length := by
  obtain ⟨S, -, hle, -, ⟨heq, -⟩ | ⟨heq, -⟩⟩ := wholeScan_rests hs hstart
  · omega
  · omega

include hs in
/-- Where a window shows no line, the whole scan stops, unless the window ends inside the
    ending of a blank line. -/
theorem wholeScan_of_rests {start p stop : ℕ} (hstart : start ≤ data.length)
    (h : Path cfg data start p) (hrest : Rests cfg data stop p) (hlt : p < stop) :
    p = wholeScan cfg data start ∨
      cfg.blankRecords = .skip ∧ ∃ width, recordEndingWidthAt cfg data p = some width ∧
        stop < p + width := by
  obtain ⟨S, hpath, hle, hlast, houtcome⟩ := wholeScan_rests hs hstart
  rcases (Path.ahead hs h hpath (hlast p h)).cases_head with rfl | ⟨next, hline, -⟩
  · rcases houtcome with ⟨-, hcomment, -⟩ | ⟨heq, -⟩
    · have := hrest.comment hcomment
      omega
    · exact Or.inl heq.symm
  · rcases hline.1 with hcomment | ⟨hskip, width, hwidth⟩
    · have := hrest.comment hcomment
      omega
    · exact Or.inr ⟨hskip, width, hwidth, hrest.blank hskip width hwidth⟩

include hs in
/-- A comment that a window does not end is one that the whole scan passes, to behind the
    window. -/
theorem stop_le_wholeScan {start p stop : ℕ} (hstart : start ≤ data.length)
    (h : Path cfg data start p) (hcomment : CommentAt cfg data p) (hlt : p < stop)
    (hstop : stop ≤ data.length)
    (hopen : ∀ next, findRecordEnding cfg data p = some next → stop < next) :
    stop ≤ wholeScan cfg data start := by
  obtain ⟨S, hpath, hle, hlast, houtcome⟩ := wholeScan_rests hs hstart
  rcases (Path.ahead hs h hpath (hlast p h)).cases_head with rfl | ⟨next, hline, hrest⟩
  · rcases houtcome with ⟨heq, -⟩ | ⟨-, hrest⟩
    · omega
    · have := hrest.comment hcomment
      omega
  · have h1 := hopen next hline.2
    have h2 := Path.le hs hrest
    rcases houtcome with ⟨heq, -⟩ | ⟨heq, -⟩
    · omega
    · omega

/-! ## Where an attempt stops -/

variable (cfg data) in
/-- An attempt stops where the whole scan stops, or in front of it: at the end of its window, or
    at a blank line whose ending the window cuts. -/
structure Good (t : SkipStop) : Prop where
  le : t.reached ≤ wholeScan cfg data t.start
  inside : t.reached < t.windowEnd → Path cfg data t.start t.reached ∧
    ¬ CommentAt cfg data t.reached ∧
    (t.reached = wholeScan cfg data t.start ∨ cfg.blankRecords = .skip ∧
      ∃ width, recordEndingWidthAt cfg data t.reached = some width ∧ t.windowEnd < t.reached + width)
  last : t.windowEnd = data.length → t.reached = wholeScan cfg data t.start
  ended : t.ended = true

variable {s : SkipSession} {off stop b : ℕ} {late : ℕ → Prop} {e e' : Engine} {p S : ℕ}

include hs in
/-- Where the skipping has stopped, another round of it does not move. -/
theorem ended_of_skipped (hstop : s.stop ≤ data.length)
    (h : Skipped cfg data s.off s.stop b late e e' p S) : s.ended cfg data e' = true := by
  rw [SkipSession.ended, window, beq_iff_eq]
  rcases h.outcome with hun | ⟨hat, hrest, -⟩
  · rw [skipComments_unfinished hstop hun, skipBlankLines_unfinished hs hstop hun]
  · obtain ⟨S', hround, -⟩ := round_at hs hstop hat
    have hpoint := hat.point
    have hlast : S' = S := by
      rcases hround.path.cases_head with heq | ⟨next, hline, hahead⟩
      · exact heq.symm
      have hbehind := hrest.lt_line hs hline
      have hle := Path.le hs hahead
      rcases hround.outcome with hun | ⟨hat', -⟩
      · have := hun.resume.lt
        omega
      · have := hat'.le
        omega
    subst hlast
    rcases hround.outcome with hun | ⟨hat', -⟩
    · have hcomment := hun.resume.comment
      have hlt := hun.resume.lt
      rw [Nat.add_sub_cancel' hun.above] at hcomment
      have := hrest.comment hcomment
      omega
    · have := hat'.point
      omega

include hs in
theorem good_of_skipped (hstop : stop ≤ data.length) (hb : b ≤ data.length)
    (hp : Path cfg data b p) (h : Skipped cfg data off stop b late e e' p S) {ended : Bool}
    (hended : ended = true) :
    Good cfg data ⟨b, off + e'.location, stop, ended⟩ := by
  have hpath : Path cfg data b S := hp.trans h.path
  have hle := path_le_wholeScan hs hb hpath
  have hwhole := wholeScan_le hs hb
  rcases h.outcome with hun | ⟨hat, hrest, -⟩
  · have hpoint := hun.point
    have habove := hun.above
    have hlt := hun.resume.lt
    have hcomment : CommentAt cfg data S := by
      have := hun.resume.comment
      rwa [Nat.add_sub_cancel' habove] at this
    have hpast := stop_le_wholeScan hs hb hpath hcomment (by omega) hstop hun.open'
    refine ⟨by simp only; omega, fun hin => ?_, fun hlast => ?_, hended⟩
    · simp only at hin
      omega
    · simp only at hlast ⊢
      omega
  · rw [hat.point]
    refine ⟨hle, fun hin => ⟨hpath, fun hcomment => ?_, ?_⟩, fun hlast => ?_, hended⟩
    · have := hrest.comment hcomment
      simp only at hin
      omega
    · exact wholeScan_of_rests hs hb hpath hrest hin
    · simp only at hlast ⊢
      rcases Nat.lt_or_ge S stop with hlt | hge
      · rcases wholeScan_of_rests hs hb hpath hrest hlt with heq | ⟨-, width, hwidth, hcut⟩
        · exact heq
        · have := recordEndingWidthAt_within hs hwidth
          omega
      · have := hat.le
        omega

/-- Where nothing is skipped, no line begins. -/
theorem skipped_none (hskips : cfg.skipsRecords = false) (h : At cfg data off stop b late e p) :
    Skipped cfg data off stop b late e e p p := by
  rw [ParserSettings.skipsRecords, Bool.or_eq_false_iff] at hskips
  refine ⟨rfl, .refl, Or.inr ⟨h, ⟨fun ⟨comment, hsome, _⟩ => ?_, fun hskip => ?_⟩, Or.inl rfl⟩⟩
  · rw [hsome] at hskips
    exact Bool.noConfusion hskips.1
  · rw [hskip] at hskips
    exact Bool.noConfusion hskips.2

/-! ## Checkpoints of an attempt -/

variable (cfg data off stop) in
/-- A checkpoint of an attempt from `p`: of a point of the path, or of a comment ahead. -/
structure Marks (b p : ℕ) (resume : ResumeState) : Prop where
  ofData : resume.ignored = false → ∀ start, resume.recordStart = some start →
    off + start ≤ stop ∧ Path cfg data b (off + start)
  ofComment : resume.ignored = true → ∃ start, InComment cfg data off stop resume start ∧
    p ≤ off + start ∧ Path cfg data b (off + start)

theorem Marks.fit {resume : ResumeState} (h : Marks cfg data off stop b p resume) :
    Fit cfg data off stop b late p resume := by
  refine ⟨fun hdata start hstart => ?_, fun hignored => ?_⟩
  · obtain ⟨hle, hpath⟩ := h.ofData hdata start hstart
    exact ⟨hle, Or.inr (Or.inl hpath)⟩
  · obtain ⟨start, hin, hle, hpath⟩ := h.ofComment hignored
    exact ⟨start, hin.record, Or.inl ⟨hin, Or.inl ⟨hle, hpath⟩⟩⟩

theorem Marks.fit_late {resume : ResumeState} {b' p' : ℕ}
    (h : Marks cfg data off stop b' p' resume) (hlate : ∀ x, Path cfg data b' x → late x) :
    Fit cfg data off stop b late p resume := by
  refine ⟨fun hdata start hstart => ?_, fun hignored => ?_⟩
  · obtain ⟨hle, hpath⟩ := h.ofData hdata start hstart
    exact ⟨hle, Or.inr (Or.inr (hlate _ hpath))⟩
  · obtain ⟨start, hin, -, hpath⟩ := h.ofComment hignored
    exact ⟨start, hin.record, Or.inl ⟨hin, Or.inr (hlate _ hpath)⟩⟩

include hs in
theorem marks_of_skipped (hp : Path cfg data b p)
    (h : Skipped cfg data off stop b late e e' p S) :
    e'.resume = e.resume ∨ Marks cfg data off stop b p e'.resume := by
  have hpath : Path cfg data b S := hp.trans h.path
  rcases h.outcome with hun | ⟨hat, -, hsame | hfresh⟩
  · refine Or.inr ⟨fun hdata => ?_, fun _ => ⟨_, hun.resume, ?_⟩⟩
    · exact Bool.noConfusion (hun.ignored.symm.trans hdata)
    · rw [Nat.add_sub_cancel' hun.above]
      exact ⟨Path.le hs h.path, hpath⟩
  · exact Or.inl hsame
  · refine Or.inr ⟨fun _ start hstart => ?_, fun hignored => ?_⟩
    · rw [hfresh] at hstart
      obtain rfl : e'.location = start := Option.some.inj hstart
      rw [hat.point]
      exact ⟨hat.le, hpath⟩
    · rw [hfresh] at hignored
      exact Bool.noConfusion hignored

theorem Marks.mono {resume : ResumeState} {p' : ℕ} (h : Marks cfg data off stop b p' resume)
    (hle : p ≤ p') : Marks cfg data off stop b p resume := by
  refine ⟨h.ofData, fun hignored => ?_⟩
  obtain ⟨start, hin, hle', hpath⟩ := h.ofComment hignored
  exact ⟨start, hin, hle.trans hle', hpath⟩

/-! ## Attempts -/

variable (hstop : stop ≤ data.length)

include hs hstop in
theorem skipped_of_header (h : At cfg data off stop b late e p) :
    ∃ S, Skipped cfg data off stop b late e
      (if cfg.skipsRecords then skipIgnoredRecords cfg (slice data off stop) e else e) p S := by
  cases hskips : cfg.skipsRecords with
  | false => exact ⟨p, skipped_none hskips h⟩
  | true => exact skipIgnoredRecords_at hs hstop h

include hs hstop in
/-- `position` goes on from a checkpoint ahead. -/
theorem skipped_of_position (h : At cfg data off stop b (fun _ => False) e p) :
    ∃ location S, p ≤ off + location ∧ Path cfg data b (off + location) ∧
      Skipped cfg data off stop b (fun _ => False) { e with location }
        (skipToRecord cfg (slice data off stop) e) (off + location) S := by
  unfold skipToRecord
  have hpoint := h.point
  have hstay : At cfg data off stop b (fun _ => False) { e with location := e.location }
      (off + e.location) := ⟨rfl, hpoint ▸ h.le, hpoint ▸ h.path, hpoint ▸ h.fit⟩
  cases hskips : cfg.skipsRecords with
  | false =>
    exact ⟨e.location, off + e.location, by omega, hstay.path, skipped_none hskips hstay⟩
  | true =>
    simp only [if_true]
    have hgo : ∀ location, p ≤ off + location →
        At cfg data off stop b (fun _ => False) { e with location } (off + location) →
        ∃ location' S, p ≤ off + location' ∧ Path cfg data b (off + location') ∧
          Skipped cfg data off stop b (fun _ => False) { e with location := location' }
            (skipIgnoredRecords cfg (slice data off stop) { e with location }) (off + location') S := by
      intro location hle hat
      obtain ⟨S, hskipped⟩ := skipIgnoredRecords_at hs hstop hat
      exact ⟨location, S, hle, hat.path, hskipped⟩
    refine hgo _ ?_ ?_
    · split
      · split_ifs
        · omega
        · omega
      · omega
    · split
      · rename_i start hstart
        split_ifs with hdata
        · rw [Bool.and_eq_true, Bool.not_eq_true'] at hdata
          rcases Nat.le_total start e.location with hle | hge
          · rw [Nat.max_eq_left hle]
            exact hstay
          · rw [Nat.max_eq_right hge]
            obtain ⟨hle, hahead⟩ := h.fit.ofData hdata.1 start hstart
            have hpath : Path cfg data b (off + start) := by
              rcases hahead with hpassed | hpath | hfalse
              · rw [show off + start = p by omega]
                exact h.path
              · exact hpath
              · exact hfalse.elim
            refine ⟨rfl, hle, hpath, fun _ start' hstart' => ?_, fun hignored => ?_⟩
            · obtain rfl : start = start' := Option.some.inj (hstart.symm.trans hstart')
              exact ⟨hle, Or.inl le_rfl⟩
            · exact Bool.noConfusion (hignored.symm.trans hdata.1)
        · exact hstay
      · exact hstay

variable {records : RecordEnds cfg data} {config : WindowScanConfig}

variable (cfg data records) in
/-- Behind the record at which the lines from a boundary end. -/
def nextBoundary (b : ℕ) : ℕ := records.stop (wholeScan cfg data b)

include hs in
/-- A record that the window holds begins where the whole scan stops. -/
theorem start_of_settled (hb : b ≤ data.length) (hp : Path cfg data b S)
    (hrest : Rests cfg data stop S) (hlt : S < stop) (hsettled : records.stop S ≤ stop) :
    S = wholeScan cfg data b := by
  rcases wholeScan_of_rests hs hb hp hrest hlt with heq | ⟨-, width, hwidth, hcut⟩
  · exact heq
  · have := records.blank S width hwidth
    omega

include hs in
/-- Behind a record, what a checkpoint marks has been passed or is ahead. -/
theorem fit_behind (hb : b ≤ data.length) (h : At cfg data off stop b late e S)
    (hrest : Rests cfg data stop S) (hS : S = wholeScan cfg data b) {T : ℕ} (hT : S < T)
    (hlate : ∀ x, late x → Path cfg data T x) :
    Fit cfg data off stop T (fun _ => False) T e.resume := by
  refine ⟨fun hdata start hstart => ?_, fun hignored => ?_⟩
  · obtain ⟨hle, hpassed | hpath | hahead⟩ := h.fit.ofData hdata start hstart
    · exact ⟨hle, Or.inl (by omega)⟩
    · have := path_le_wholeScan hs hb hpath
      exact ⟨hle, Or.inl (by omega)⟩
    · exact ⟨hle, Or.inr (Or.inl (hlate _ hahead))⟩
  · obtain ⟨start, hstart, ⟨hin, hahead⟩ | ⟨hmixed, hpassed, hscanned⟩⟩ :=
      h.late_of_rests hs hrest hignored
    · have hpath := hlate _ hahead
      exact ⟨start, hstart, Or.inl ⟨hin, Or.inl ⟨Path.le hs hpath, hpath⟩⟩⟩
    · exact ⟨start, hstart, Or.inr ⟨hmixed, by omega, by omega⟩⟩

/-- What an attempt comes to. -/
structure Attempted (cfg : ParserSettings) (data : Bytes) (s : SkipSession) (p : ℕ)
    (r : SkipStop × Bool × SkipSession) : Prop where
  good : Good cfg data r.1
  off : r.2.2.off = s.off
  stop : r.2.2.stop = s.stop
  resume : r.2.1 = false ∨ r.2.2.engine.headersInitialized ≠ s.engine.headersInitialized →
    r.2.2.engine.resume = s.engine.resume ∨
      Marks cfg data s.off s.stop s.boundary p r.2.2.engine.resume
  read : r.2.1 = true → At cfg data s.off s.stop r.2.2.boundary (fun _ => False) r.2.2.engine
    r.2.2.boundary ∧ r.2.2.boundary ≤ data.length

include hs in
theorem attemptHeader_attempted (settled : Bool) (hstop : s.stop ≤ data.length)
    (hb : s.boundary ≤ data.length) (h : At cfg data s.off s.stop s.boundary late s.engine p)
    (hlate : ∀ x, late x → Path cfg data (nextBoundary cfg data records s.boundary) x) :
    let r := s.attemptHeader cfg data records settled
    Attempted cfg data s p r ∧ (r.2.1 = true →
      r.2.2.boundary = nextBoundary cfg data records s.boundary ∧
        r.2.2.engine.headersInitialized = true) := by
  obtain ⟨S, hskipped⟩ := skipped_of_header hs hstop h
  have hgood := good_of_skipped hs hstop hb h.path hskipped
    (ended_of_skipped hs hstop hskipped)
  have hmarks := marks_of_skipped hs h.path hskipped
  unfold attemptHeader window
  simp only
  generalize (if cfg.skipsRecords then skipIgnoredRecords cfg (slice data s.off s.stop) s.engine
    else s.engine) = e' at hskipped hgood hmarks ⊢
  split_ifs with hend hsettled
  · exact ⟨⟨hgood, rfl, rfl, fun _ => hmarks, nofun⟩, nofun⟩
  · rw [Bool.and_eq_true, decide_eq_true_eq] at hsettled
    rcases hskipped.outcome with hun | ⟨hat, hrest, -⟩
    · exact absurd (hun.at_end hstop) hend
    have hpoint := hat.point
    rw [hpoint] at hsettled ⊢
    rw [length_window hstop] at hend
    have hle := hat.le
    have hafter := records.after S
    have hS := start_of_settled hs hb hat.path hrest (by omega) hsettled.2.le
    have hfit := fit_behind hs hb hat hrest hS hafter
      (by rw [hS]; exact hlate)
    refine ⟨⟨?_, rfl, rfl, fun _ => hmarks, fun _ => ⟨⟨?_, hsettled.2.le, .refl, hfit⟩, ?_⟩⟩,
      fun _ => ⟨?_, rfl⟩⟩
    · rw [← hpoint]
      exact hgood
    · simp only
      omega
    · simp only
      omega
    · rw [nextBoundary, ← hS]
  · exact ⟨⟨hgood, rfl, rfl, fun _ => hmarks, nofun⟩, nofun⟩

/-- The prescan keeps its checkpoint, or moves it on in the same record. -/
theorem windowLacks_resume (w : Bytes) (resume : ResumeState) :
    (config.windowLacksRecordRuntime w resume).2 = resume ∨
      (config.windowLacksRecordRuntime w resume).1 = true ∧
        (config.windowLacksRecordRuntime w resume).2.ignored = false ∧
        (config.windowLacksRecordRuntime w resume).2.recordStart = resume.recordStart := by
  unfold WindowScanConfig.windowLacksRecordRuntime
  rcases hstart : resume.recordStart with _ | start
  · exact Or.inl rfl
  · simp only
    split
    · exact Or.inr ⟨rfl, rfl, rfl⟩
    · exact Or.inl rfl

/-- The checkpoint of a record on the path. -/
theorem marks_record {resume : ResumeState} {start : ℕ} (hdata : resume.ignored = false)
    (hstart : resume.recordStart = some start) (hle : off + start ≤ stop)
    (hpath : Path cfg data b (off + start)) : Marks cfg data off stop b p resume := by
  refine ⟨fun _ start' hstart' => ?_, fun hignored => ?_⟩
  · obtain rfl : start = start' := Option.some.inj (hstart.symm.trans hstart')
    exact ⟨hle, hpath⟩
  · exact Bool.noConfusion (hignored.symm.trans hdata)

variable (config) in
include hs in
theorem attemptRecord_attempted (settled : Bool) (hstop : s.stop ≤ data.length)
    (hb : s.boundary ≤ data.length)
    (h : At cfg data s.off s.stop s.boundary (fun _ => False) s.engine p) :
    let r := s.attemptRecord cfg data records config settled
    Attempted cfg data s p r ∧
      r.2.2.engine.headersInitialized = s.engine.headersInitialized := by
  obtain ⟨location, S, hle, hpath, hskipped⟩ := skipped_of_position hs hstop h
  have hgood := good_of_skipped hs hstop hb hpath hskipped
    (ended_of_skipped hs hstop hskipped)
  have hmarks := (marks_of_skipped hs hpath hskipped).imp_right fun hmarks => hmarks.mono hle
  unfold attemptRecord window
  simp only
  have hheaders : (skipToRecord cfg (slice data s.off s.stop) s.engine).headersInitialized =
      s.engine.headersInitialized := by rw [hskipped.kept]
  generalize skipToRecord cfg (slice data s.off s.stop) s.engine = e' at hskipped hgood hmarks hheaders ⊢
  by_cases hend : e'.location = (slice data s.off s.stop).length
  · rw [if_pos hend]
    exact ⟨⟨hgood, rfl, rfl, fun _ => hmarks, nofun⟩, hheaders⟩
  rw [if_neg hend]
  rcases hskipped.outcome with hun | ⟨hat, hrest, -⟩
  · exact absurd (hun.at_end hstop) hend
  have hpoint := hat.point
  have hle' := hat.le
  have hresume : ∀ r, r = (if e'.resume.recordStart = some e'.location then
      config.windowLacksRecordRuntime (slice data s.off s.stop) e'.resume else (false, e'.resume)) →
      r.2 = e'.resume ∨ r.1 = true ∧ Marks cfg data s.off s.stop s.boundary p r.2 := by
    rintro r rfl
    split_ifs with hstart
    · refine (windowLacks_resume _ _).imp_right fun ⟨hlacks, hdata, hsame⟩ => ⟨hlacks, ?_⟩
      exact marks_record hdata (hsame.trans hstart) (by omega) (by rw [hpoint]; exact hat.path)
    · exact Or.inl rfl
  generalize hr : (if e'.resume.recordStart = some e'.location then
    config.windowLacksRecordRuntime (slice data s.off s.stop) e'.resume else (false, e'.resume)) = r
  obtain ⟨lacks, resume⟩ := r
  have hresume := hresume _ hr.symm
  simp only at hresume ⊢
  cases lacks with
  | true =>
    rw [if_pos rfl]
    refine ⟨⟨hgood, rfl, rfl, fun _ => ?_, nofun⟩, hheaders⟩
    rcases hresume with rfl | ⟨-, hmarks⟩
    · exact hmarks
    · exact Or.inr hmarks
  | false =>
    obtain rfl : resume = e'.resume := hresume.resolve_right fun h => Bool.noConfusion h.1
    rw [if_neg Bool.false_ne_true]
    split_ifs with hsettled
    · rw [Bool.and_eq_true, decide_eq_true_eq, hpoint] at hsettled
      rw [hpoint]
      rw [length_window hstop] at hend
      have hafter := records.after S
      have hS := start_of_settled hs hb hat.path hrest (by omega) hsettled.2
      have hfit := fit_behind hs hb hat hrest hS hafter (fun _ h => h.elim)
      refine ⟨⟨?_, rfl, rfl, fun hread => ?_, fun _ => ⟨⟨?_, hsettled.2, .refl, hfit⟩, ?_⟩⟩, hheaders⟩
      · rw [← hpoint]
        exact hgood
      · rcases hread with hread | hread
        · exact Bool.noConfusion hread
        · exact absurd hheaders hread
      · simp only
        omega
      · simp only
        omega
    · refine ⟨⟨hgood, rfl, rfl, fun _ => ?_, nofun⟩, hheaders⟩
      simp only [ResumeState.seedResume]
      split_ifs with hstart
      · exact hmarks
      · exact Or.inr (marks_record rfl rfl (by omega) (by rw [hpoint]; exact hat.path))

/-! ## Sessions keep their point -/

variable (cfg data records) in
/-- What a push parser may have marked behind a header record that it has to read again. -/
def Late (frontEnd : FrontEnd) (s : SkipSession) (x : ℕ) : Prop :=
  s.engine.headersInitialized = false ∧ frontEnd = .push ∧
    Path cfg data (nextBoundary cfg data records s.boundary) x

variable (cfg data records) in
/-- Between the attempts, a session is at a point of the path from its last record. -/
structure Inv (frontEnd : FrontEnd) (s : SkipSession) : Prop where
  stop_le : s.stop ≤ data.length
  boundary_le : s.boundary ≤ data.length
  at' : At cfg data s.off s.stop s.boundary (Late cfg data records frontEnd s) s.engine
    (s.off + s.engine.location)

variable {frontEnd : FrontEnd}

include hs in
theorem Inv.lt_late (h : Inv cfg data records frontEnd s) {x : ℕ}
    (hx : Late cfg data records frontEnd s x) : s.off + s.engine.location < x := by
  have h1 := path_le_wholeScan hs h.boundary_le h.at'.path
  have h2 := records.after (wholeScan cfg data s.boundary)
  have h3 := Path.le hs hx.2.2
  rw [nextBoundary] at h3
  omega

theorem Fit.imp {resume : ResumeState} {late' : ℕ → Prop}
    (h : Fit cfg data off stop b late p resume) (hlate : ∀ x, late x → late' x) :
    Fit cfg data off stop b late' p resume := by
  refine ⟨fun hdata start hstart => ?_, fun hignored => ?_⟩
  · obtain ⟨hle, hahead⟩ := h.ofData hdata start hstart
    exact ⟨hle, hahead.imp_right fun h => h.imp_right (hlate _)⟩
  · obtain ⟨start, hstart, hfit⟩ := h.ofComment hignored
    exact ⟨start, hstart, hfit.imp_left fun ⟨hin, hahead⟩ => ⟨hin, hahead.imp_right (hlate _)⟩⟩

/-- A window that grows. -/
theorem Fit.grow {resume : ResumeState} {stop' : ℕ} (h : Fit cfg data off stop b late p resume)
    (hle : stop ≤ stop') : Fit cfg data off stop' b late p resume := by
  refine ⟨fun hdata start hstart => ?_, fun hignored => ?_⟩
  · obtain ⟨hin, hahead⟩ := h.ofData hdata start hstart
    exact ⟨hin.trans hle, hahead⟩
  · obtain ⟨start, hstart, hfit⟩ := h.ofComment hignored
    refine ⟨start, hstart, hfit.imp_left fun ⟨hin, hahead⟩ => ⟨?_, hahead⟩⟩
    exact ⟨hin.record, hin.comment, hin.le, hin.inside.trans hle, lt_of_lt_of_le hin.lt hle, hin.same⟩

/-- A window that loses bytes in front of what is marked. -/
theorem Fit.shift {resume : ResumeState} (h : Fit cfg data off stop b late p resume) {count : ℕ}
    (hcount : off + count ≤ p) (hlate : ∀ x, late x → p ≤ x)
    (hstale : resume.ignored = true → count ≤ resume.scannedTo ∨
      ∀ start, resume.recordStart = some start → p ≤ off + start) :
    Fit cfg data (off + count) stop b late p (resume.shiftResume count) := by
  unfold ResumeState.shiftResume
  rcases hstart : resume.recordStart with _ | start
  · refine ⟨fun _ start h => (by rw [hstart] at h; cases h), fun hignored => ?_⟩
    obtain ⟨start, hsome, -⟩ := h.ofComment hignored
    rw [hsome] at hstart
    cases hstart
  simp only
  cases hignored : resume.ignored with
  | true =>
    obtain ⟨start', hsome, hfit⟩ := h.ofComment hignored
    obtain rfl : start = start' := Option.some.inj (hstart.symm.trans hsome)
    rcases hfit with ⟨hin, hahead⟩ | ⟨hmixed, hpassed, hscanned⟩
    · have hle : count ≤ start := by
        rcases hahead with ⟨hle, -⟩ | hx
        · omega
        · have := hlate _ hx
          omega
      have hscanned := hin.le
      have hback : off + count + (start - count) = off + start := by omega
      have hback' : off + count + (resume.scannedTo - count) = off + resume.scannedTo := by omega
      rw [if_neg (by simp; omega)]
      split_ifs
      · refine ⟨fun hdata => Bool.noConfusion hdata, fun _ => ⟨start - count, rfl, Or.inl ⟨?_, ?_⟩⟩⟩
        · refine ⟨rfl, hback ▸ hin.comment, by simp only; omega, ?_, by have := hin.lt; omega, ?_⟩
          · simp only [hback']
            exact hin.inside
          · simp only [hback, hback']
            exact hin.same
        · rw [hback]
          exact hahead
      · exact .new p
    · -- the checkpoint stays behind the point
      have hle : count ≤ resume.scannedTo := by
        rcases hstale hignored with hle | hahead
        · exact hle
        · have := hahead start hstart
          omega
      split_ifs
      · exact ⟨fun hdata => Bool.noConfusion hdata,
          fun _ => ⟨0, rfl, Or.inr ⟨hmixed, by omega, by simp only; omega⟩⟩⟩
      · exact ⟨fun hdata => Bool.noConfusion hdata,
          fun _ => ⟨start - count, rfl, Or.inr ⟨hmixed, by omega, by simp only; omega⟩⟩⟩
      · exact .new p
  | false =>
    obtain ⟨hle, hahead⟩ := h.ofData hignored start hstart
    rw [if_neg (by simp)]
    split_ifs with hkept
    · have hge : count ≤ start := by
        simp only [Bool.and_eq_true, decide_eq_true_eq] at hkept
        exact hkept.1.1
      have hback : off + count + (start - count) = off + start := by omega
      refine ⟨fun _ start' hstart' => ?_, fun h => Bool.noConfusion h⟩
      obtain rfl : start - count = start' := Option.some.inj hstart'
      rw [hback]
      exact ⟨hle, hahead⟩
    · exact .new p

include hs in
theorem Inv.shift (h : Inv cfg data records frontEnd s) {count : ℕ}
    (hcount : count ≤ s.engine.location)
    (hstale : s.engine.resume.ignored = true → count ≤ s.engine.resume.scannedTo ∨
      ∀ start, s.engine.resume.recordStart = some start → s.engine.location ≤ start) :
    Inv cfg data records frontEnd (s.shift data count) := by
  have hpoint : s.off + count + (s.engine.location - count) = s.off + s.engine.location := by omega
  have hsame : Late cfg data records frontEnd (s.shift data count) =
      Late cfg data records frontEnd s := by
    funext x
    rw [Late, Late, SkipSession.shift, shiftWindow_headers]
  refine ⟨h.stop_le, h.boundary_le, ?_⟩
  rw [hsame]
  simp only [SkipSession.shift, shiftWindow_location]
  refine ⟨by rw [shiftWindow_location], hpoint ▸ h.at'.le, hpoint ▸ h.at'.path, ?_⟩
  rw [hpoint, shiftWindow_resume]
  refine Fit.shift h.at'.fit (by omega) (fun x hx => (h.lt_late hs hx).le) fun hignored => ?_
  refine (hstale hignored).imp_right fun hahead start hstart => ?_
  have := hahead start hstart
  omega

include hs in
/-- A stream's window may lose all in front of the record that its checkpoint marks. -/
theorem Inv.shift_io (h : Inv cfg data records .io s) :
    Inv cfg data records .io (s.shift data s.engine.ioWindowAnchor) := by
  rcases Nat.lt_or_ge s.engine.location s.engine.ioWindowAnchor with hlt | hle
  swap
  · refine h.shift hs hle fun hignored => Or.inl ?_
    rw [s.engine.ioWindowAnchor_of_ignored hignored]
    exact s.engine.windowAnchor_le_scanned hignored
  -- the checkpoint is of a record, and ahead
  obtain ⟨start, hstart, hdata, hanchor⟩ : ∃ start, s.engine.resume.recordStart = some start ∧
      s.engine.resume.ignored = false ∧ s.engine.ioWindowAnchor = start := by
    have hwindow := s.engine.windowAnchor_le
    unfold ioWindowAnchor at hlt ⊢
    split at hlt
    · rename_i start _ hstart
      split_ifs at hlt with hdata
      · rw [Bool.not_eq_true'] at hdata
        refine ⟨start, hstart, hdata, ?_⟩
        simp only [hdata, Bool.not_false, if_true]
        omega
      · omega
    · omega
  rw [hanchor] at hlt ⊢
  obtain ⟨hle, hahead⟩ := h.at'.fit.ofData hdata start hstart
  have hpath : Path cfg data s.boundary (s.off + start) := by
    rcases hahead with hpassed | hpath | hlate
    · omega
    · exact hpath
    · cases hlate.2.1
  have hlocation : s.engine.location - start = 0 := by omega
  refine ⟨h.stop_le, h.boundary_le, ?_⟩
  simp only [SkipSession.shift, shiftWindow_location, hlocation, Nat.add_zero]
  refine ⟨by rw [shiftWindow_location, hlocation, Nat.add_zero], hle, hpath, ?_⟩
  rw [shiftWindow_resume]
  have hfit : Fit cfg data s.off s.stop s.boundary (fun _ => False) (s.off + start)
      s.engine.resume := by
    refine ⟨fun _ start' hstart' => ?_, fun hignored => ?_⟩
    · obtain rfl : start = start' := Option.some.inj (hstart.symm.trans hstart')
      exact ⟨hle, Or.inl le_rfl⟩
    · exact Bool.noConfusion (hignored.symm.trans hdata)
  refine Fit.imp (Fit.shift hfit le_rfl (fun _ hx => hx.elim) fun hignored => ?_) fun _ hx => hx.elim
  exact Bool.noConfusion (hignored.symm.trans hdata)

/-- **A refused window**: the session is where it was, whatever the attempt has marked. -/
theorem Inv.refuse (h : Inv cfg data records frontEnd s) {s' : SkipSession}
    (hfit : Fit cfg data s.off s.stop s.boundary (Late cfg data records frontEnd s)
      (s.off + s.engine.location) s'.engine.resume) :
    Inv cfg data records frontEnd (s.refuse s') :=
  ⟨h.stop_le, h.boundary_le, rfl, h.at'.le, h.at'.path, hfit⟩

/-- Behind the headers, nothing is late. -/
theorem Inv.at_settled (h : Inv cfg data records frontEnd s)
    (hheaders : s.engine.headersInitialized = true) :
    At cfg data s.off s.stop s.boundary (fun _ => False) s.engine (s.off + s.engine.location) := by
  exact ⟨rfl, h.at'.le, h.at'.path,
    Fit.imp h.at'.fit fun _ hx => Bool.noConfusion (hheaders.symm.trans hx.1)⟩

theorem inv_of_at (hstop : s.stop ≤ data.length) (hb : s.boundary ≤ data.length)
    (h : At cfg data s.off s.stop s.boundary (fun _ => False) s.engine s.boundary) :
    Inv cfg data records frontEnd s := by
  refine ⟨hstop, hb, ?_⟩
  rw [h.point]
  exact ⟨h.point, h.le, h.path, Fit.imp h.fit fun _ hx => hx.elim⟩

theorem Inv.fit_of_attempt (h : Inv cfg data records frontEnd s) {resume : ResumeState}
    (hresume : resume = s.engine.resume ∨
      Marks cfg data s.off s.stop s.boundary (s.off + s.engine.location) resume) :
    Fit cfg data s.off s.stop s.boundary (Late cfg data records frontEnd s)
      (s.off + s.engine.location) resume := by
  rcases hresume with rfl | hmarks
  · exact h.at'.fit
  · exact hmarks.fit

/-- A record that an attempt has read. -/
theorem Attempted.inv {r : SkipStop × Bool × SkipSession} (h : Attempted cfg data s p r)
    (hstop : s.stop ≤ data.length) (hread : r.2.1 = true) :
    Inv cfg data records frontEnd r.2.2 := by
  obtain ⟨hat, hb⟩ := h.read hread
  rw [← h.off, ← h.stop] at hat
  exact inv_of_at (h.stop ▸ hstop) hb hat

include hs in
/-- **One event** keeps a session at its point, and its attempts stop where they should. -/
theorem Inv.step (h : Inv cfg data records frontEnd s) (event : SkipEvent)
    (hahead : frontEnd = .push → event = .enterBorrowed → CommentAhead s.engine) :
    (∀ t ∈ (s.step cfg data records config frontEnd event).1, Good cfg data t) ∧
      Inv cfg data records frontEnd (s.step cfg data records config frontEnd event).2 := by
  cases event with
  | grow count =>
    refine ⟨nofun, min_le_right _ _, h.boundary_le, ?_⟩
    have hle : s.stop ≤ min (s.stop + count) data.length := le_min (by omega) h.stop_le
    exact ⟨rfl, h.at'.le.trans hle, h.at'.path, Fit.grow h.at'.fit hle⟩
  | compact count =>
    rw [SkipSession.step]
    split_ifs with hcount
    · refine ⟨nofun, ?_⟩
      rcases hcount with hle | ⟨rfl, rfl⟩
      · exact h.shift hs (hle.trans s.engine.windowAnchor_le) fun hignored =>
          Or.inl (hle.trans (s.engine.windowAnchor_le_scanned hignored))
      · exact h.shift_io hs
    · exact ⟨nofun, h⟩
  | enterBorrowed =>
    rw [SkipSession.step]
    split_ifs with hpush
    · have hreleased : Inv cfg data records frontEnd
          { s with engine := s.engine.releasePositionedRecord } :=
        ⟨h.stop_le, h.boundary_le, rfl, h.at'.le, h.at'.path, h.at'.fit⟩
      exact ⟨nofun, hreleased.shift hs le_rfl fun hignored => Or.inr (hahead hpush rfl hignored)⟩
    · exact ⟨nofun, h⟩
  | headers settled =>
    rw [SkipSession.step]
    cases hheaders : s.engine.headersInitialized with
    | true => exact ⟨nofun, h⟩
    | false =>
      obtain ⟨hattempt, -⟩ := attemptHeader_attempted hs settled h.stop_le h.boundary_le h.at'
        fun _ hx => hx.2.2
      simp only [Bool.false_eq_true, if_false]
      generalize s.attemptHeader cfg data records settled = r at hattempt
      obtain ⟨t, read, s'⟩ := r
      refine ⟨List.forall_mem_singleton.2 hattempt.good, ?_⟩
      cases read with
      | true => exact hattempt.inv h.stop_le rfl
      | false => exact h.refuse (h.fit_of_attempt (hattempt.resume (Or.inl rfl)))
  | advance settledHeader settled =>
    rw [SkipSession.step]
    cases hheaders : s.engine.headersInitialized with
    | true =>
      obtain ⟨hattempt, -⟩ := attemptRecord_attempted hs config settled h.stop_le
        h.boundary_le (h.at_settled hheaders)
      simp only [if_true]
      generalize s.attemptRecord cfg data records config settled = r at hattempt
      obtain ⟨t, read, s'⟩ := r
      refine ⟨List.forall_mem_singleton.2 hattempt.good, ?_⟩
      cases read with
      | true => exact hattempt.inv h.stop_le rfl
      | false => exact h.refuse (h.fit_of_attempt (hattempt.resume (Or.inl rfl)))
    | false =>
      rw [if_neg Bool.false_ne_true]
      by_cases hio : frontEnd = .io
      · rw [if_pos hio]
        exact ⟨nofun, h⟩
      rw [if_neg hio]
      obtain ⟨hattempt, hread⟩ := attemptHeader_attempted hs settledHeader h.stop_le
        h.boundary_le h.at' fun _ hx => hx.2.2
      generalize s.attemptHeader cfg data records settledHeader = r at hattempt hread
      obtain ⟨t, read, s₁⟩ := r
      cases read with
      | false =>
        exact ⟨List.forall_mem_singleton.2 hattempt.good,
          h.refuse (h.fit_of_attempt (hattempt.resume (Or.inl rfl)))⟩
      | true =>
        -- the window settles the headers, and the record behind them or not
        obtain ⟨hboundary, hsettled⟩ := hread rfl
        obtain ⟨hat, hb⟩ := hattempt.read rfl
        have hoff : s₁.off = s.off := hattempt.off
        have hstop : s₁.stop = s.stop := hattempt.stop
        simp only at hboundary hsettled hat hb
        rw [← hoff, ← hstop] at hat
        obtain ⟨hattempt', -⟩ := attemptRecord_attempted hs config settled
          (hstop ▸ h.stop_le) hb hat
        simp only [if_true]
        generalize s₁.attemptRecord cfg data records config settled = r' at hattempt'
        obtain ⟨t', read', s₂⟩ := r'
        refine ⟨List.forall_mem_cons.2
          ⟨hattempt.good, List.forall_mem_singleton.2 hattempt'.good⟩, ?_⟩
        cases read' with
        | true => exact hattempt'.inv (hstop ▸ h.stop_le) rfl
        | false =>
          refine h.refuse ?_
          rcases hattempt'.resume (Or.inl rfl) with hsame | hmarks
          · refine h.fit_of_attempt (hsame ▸ hattempt.resume (Or.inr ?_))
            rw [hsettled, hheaders]
            exact Bool.true_eq_false.mp
          · simp only [hoff, hstop] at hmarks
            refine Marks.fit_late hmarks fun x hx => ⟨hheaders, ?_, hboundary ▸ hx⟩
            cases frontEnd with
            | io => exact absurd rfl hio
            | push => rfl

include hs in
/-- Every attempt of a run stops where it should. -/
theorem Inv.stops (h : Inv cfg data records frontEnd s) (events : List SkipEvent)
    (hclear : s.Clear cfg data records config frontEnd events) :
    ∀ t ∈ s.stops cfg data records config frontEnd events, Good cfg data t := by
  induction events generalizing s with
  | nil => exact nofun
  | cons event events ih =>
    obtain ⟨hahead, hclear⟩ := hclear
    obtain ⟨hgood, hnext⟩ := h.step hs event hahead
    intro t ht
    rcases List.mem_append.1 ht with ht | ht
    · exact hgood t ht
    · exact ih hnext hclear t ht

include hs in
/-- Where comments and blank lines begin apart, no comment is passed with its checkpoint. -/
theorem Inv.commentAhead (h : Inv cfg data records frontEnd s) (hapart : cfg.CommentsApart) :
    CommentAhead s.engine := by
  intro hignored start hstart
  obtain ⟨start', hstart', hfit⟩ := h.at'.fit.ofComment hignored
  obtain rfl : start' = start := Option.some.inj (hstart'.symm.trans hstart)
  rcases hfit with ⟨-, ⟨hle, -⟩ | hlate⟩ | ⟨hmixed, -⟩
  · omega
  · have := h.lt_late hs hlate
    omega
  · exact absurd hapart hmixed

include hs in
theorem Inv.clear (h : Inv cfg data records frontEnd s) (events : List SkipEvent)
    (hapart : cfg.CommentsApart ∨ frontEnd = .io) :
    s.Clear cfg data records config frontEnd events := by
  induction events generalizing s with
  | nil => trivial
  | cons event events ih =>
    have hahead : frontEnd = .push → event = .enterBorrowed → CommentAhead s.engine := by
      rintro rfl -
      exact h.commentAhead hs (hapart.resolve_right nofun)
    exact ⟨hahead, ih (h.step hs event hahead).2⟩

end

/-- A session at the first byte behind an input's byte order mark. -/
def opened (cfg : ParserSettings) (first : ℕ) : SkipSession where
  off := 0
  stop := first
  engine := { Engine.fromConfig cfg [] with location := first }
  boundary := first

end SkipSession

open SkipSession

/-- **However an input is cut**, every attempt to skip its ignored lines stops where a scan of the
    whole input stops, or in front of it at the end of the window, so long as no chunk is entered
    while the checkpoint of a comment lies behind the cursor. -/
theorem skip_cut {cfg : ParserSettings} (hvalid : cfg.dialect.invalidity = none) (data : Bytes)
    (records : RecordEnds cfg data) (config : WindowScanConfig) (frontEnd : FrontEnd) {first : ℕ}
    (hfirst : first ≤ data.length) (events : List SkipEvent) :
    ((opened cfg first).Clear cfg data records config frontEnd events →
        ∀ t ∈ (opened cfg first).stops cfg data records config frontEnd events, Good cfg data t) ∧
      (cfg.CommentsApart ∨ frontEnd = .io →
        (opened cfg first).Clear cfg data records config frontEnd events) := by
  have hs := Dialect.sound_of_valid hvalid
  have hinv : Inv cfg data records frontEnd (opened cfg first) :=
    ⟨hfirst, hfirst, rfl, by simp [opened], by simp only [opened, Nat.zero_add]; exact .refl, .new _⟩
  exact ⟨hinv.stops hs events, hinv.clear hs events⟩

/-- A comment cut in two. -/
theorem skip_cut_comment :
    let cfg : ParserSettings :=
      { dialect := { Dialect.csv with comment := some 35 }, limits := .default,
        fieldCount := .flexible, headers := .none, host := ⟨false, false, false⟩ }
    let data : Bytes := [35, 99, 10, 97, 10]
    ∃ (hvalid : cfg.dialect.invalidity = none),
      let records := RecordEnds.lines (Dialect.sound_of_valid hvalid) data
      let config := cfg.windowScanConfig none hvalid
      let events : List SkipEvent :=
        [.grow 2, .advance true true, .grow 3, .advance true true]
      ∀ t ∈ (opened cfg 0).stops cfg data records config .push events, Good cfg data t := by
  intro cfg data
  have hvalid : cfg.dialect.invalidity = none := rfl
  refine ⟨hvalid, ?_⟩
  intro records config events
  obtain ⟨hgood, hclear⟩ := skip_cut hvalid data records config .push (Nat.zero_le _) events
  exact hgood (hclear (Or.inl (by decide)))

/-- A comment marked by the carriage return that a blank line may begin with: the second window
    passes it as a blank line, and its checkpoint is taken for the record at the cursor of the
    third, which is skipped. -/
theorem skip_cut_carriageReturn :
    let cfg : ParserSettings :=
      { dialect := { Dialect.csv with comment := some 13, recordEnding := .newline },
        limits := .default, fieldCount := .flexible, headers := .none, blankRecords := .skip,
        host := ⟨false, false, false⟩ }
    let data : Bytes := [10, 13, 10, 10, 97, 10, 98, 10, 99, 10]
    ∃ (hvalid : cfg.dialect.invalidity = none),
      let records := RecordEnds.lines (Dialect.sound_of_valid hvalid) data
      let config := cfg.windowScanConfig none hvalid
      let events : List SkipEvent :=
        [.grow 2, .advance true true, .grow 4, .advance true true, .advance true true,
          .enterBorrowed, .grow 4, .advance true true]
      ¬ ∀ t ∈ (opened cfg 0).stops cfg data records config .push events, Good cfg data t := by
  intro cfg data
  refine ⟨rfl, ?_⟩
  intro records config events hgood
  have hskips : (⟨6, 8, 10, true⟩ : SkipStop) ∈
      (opened cfg 0).stops cfg data records config .push events := by decide
  have hwhole : wholeScan cfg data 6 = 6 := by decide
  have hle : 8 ≤ wholeScan cfg data 6 := (hgood _ hskips).le
  omega

end Coseva
