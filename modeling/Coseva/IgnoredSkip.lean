/-
  Coseva — `skip_ignored_records` over one window of an input, from any checkpoint
  that stands for a comment of the input.

  * `Path`: ignored lines one after another;
  * `Fit`: a checkpoint that stands for what is ahead of a point;
  * `At`, `Unfinished`: an engine at a point of the path, or at the end of a window
    inside a comment;
  * `skipIgnoredRecords_at`: where the skipping stops.
-/
import Coseva.IgnoredLines
import Mathlib.Logic.Relation

namespace Coseva

/-- No comment begins with what a blank line may begin with. -/
def ParserSettings.CommentsApart (cfg : ParserSettings) : Prop :=
  cfg.dialect.recordEnding = .newline → cfg.blankRecords = .skip → cfg.dialect.comment ≠ some 13

instance (cfg : ParserSettings) : Decidable cfg.CommentsApart :=
  inferInstanceAs (Decidable (_ → _ → _))

namespace Ignored

open Engine

/-! ## Paths -/

section path

variable (cfg : ParserSettings) (data : Bytes)

/-- Ignored lines, one after another. -/
abbrev Path : ℕ → ℕ → Prop := Relation.ReflTransGen (IgnoredLine cfg data)

variable {cfg data} (hs : cfg.dialect.Sound)

include hs in
theorem Path.le {p q : ℕ} (h : Path cfg data p q) : p ≤ q := by
  induction h with
  | refl => exact le_rfl
  | tail _ hline ih => exact ih.trans (findRecordEnding_within hs hline.2).1.le

theorem ignoredLine_unique {p q q' : ℕ} (h : IgnoredLine cfg data p q) (h' : IgnoredLine cfg data p q') :
    q = q' := Option.some.inj (h.2.symm.trans h'.2)

include hs in
/-- Of two points of a path, the later one is ahead of the earlier one. -/
theorem Path.ahead {b p q : ℕ} (hp : Path cfg data b p) (hq : Path cfg data b q) (hle : p ≤ q) :
    Path cfg data p q := by
  rcases Relation.ReflTransGen.total_of_right_unique (r := IgnoredLine cfg data)
    (fun _ _ _ => ignoredLine_unique) hp hq with h | h
  · exact h
  · obtain rfl := Nat.le_antisymm hle (Path.le hs h)
    exact .refl

include hs in
/-- A line of a path ends before every point ahead of it. -/
theorem Path.line_le {p next q : ℕ} (hline : IgnoredLine cfg data p next) (h : Path cfg data p q)
    (hne : p ≠ q) : next ≤ q := by
  rcases h.cases_head with rfl | ⟨next', hline', h⟩
  · exact absurd rfl hne
  · rw [ignoredLine_unique hline hline']
    exact Path.le hs h

include hs in
theorem comment_not_blank (hapart : cfg.CommentsApart) {p : ℕ} (hcomment : CommentAt cfg data p) :
    ¬ BlankAt cfg data p := by
  obtain ⟨comment, hmark, hbyte⟩ := hcomment
  rintro ⟨hskip, width, hwidth⟩
  obtain ⟨-, -, hne, -, hcr⟩ := hs.comment comment hmark
  unfold recordEndingWidthAt at hwidth
  simp only [hbyte, Option.some.injEq] at hwidth
  rcases hending : cfg.dialect.recordEnding with _ | _ | byte <;>
    rw [hending] at hne hcr <;> simp only [hending, RecordEnding.byte] at hwidth hne
  · have := hapart hending hskip
    rw [hmark, ne_eq, Option.some.injEq] at this
    rw [if_neg hne, if_neg fun h => this h.1] at hwidth
    cases hwidth
  · rw [if_neg fun h => hcr rfl h.1] at hwidth
    cases hwidth
  · rw [if_neg fun h => hne h.1] at hwidth
    cases hwidth

/-- No ending of a comment is in front of the bytes that are looked at again. -/
theorem findRecordEnding_overlap {p scanned stop : ℕ} (hle : p ≤ scanned)
    (hoverlap : scanned = p ∨ scanned + cfg.dialect.endingTail.width ≤ stop)
    (hnone : ∀ next, findRecordEnding cfg data p = some next → stop < next) :
    findRecordEnding cfg data scanned = findRecordEnding cfg data p := by
  rcases hoverlap with rfl | hoverlap
  · rfl
  have hsame : ∀ pos, LineEnd cfg data scanned pos ↔ LineEnd cfg data p pos := by
    intro pos
    refine ⟨fun h => h.mono hle, fun h => ?_⟩
    have hlt : scanned < pos := by
      rcases hfirst : findRecordEnding cfg data p with _ | next
      · exact absurd h (findRecordEnding_eq_none.1 hfirst pos)
      · have := hnone next hfirst
        obtain ⟨first, -, hmin, rfl⟩ := findRecordEnding_eq_some.1 hfirst
        have := hmin pos h
        omega
    obtain ⟨-, hbyte, hconfirmed⟩ := h
    refine ⟨hlt.le, hbyte, ?_⟩
    split at hconfirmed
    · trivial
    · exact ⟨hlt, hconfirmed.2⟩
    · exact hconfirmed
  rcases hfind : findRecordEnding cfg data p with _ | next
  · rw [findRecordEnding_eq_none] at hfind ⊢
    exact fun pos h => hfind pos ((hsame pos).1 h)
  · rw [findRecordEnding_eq_some] at hfind ⊢
    obtain ⟨pos, hends, hmin, rfl⟩ := hfind
    exact ⟨pos, (hsame pos).2 hends, fun j hj => hmin j ((hsame j).1 hj), rfl⟩

end path

/-! ## Checkpoints -/

section skip

variable (cfg : ParserSettings) (data : Bytes) (off stop : ℕ) (b : ℕ) (late : ℕ → Prop)

/-- The checkpoint stands for the comment at `off + start` of the input. -/
structure InComment (resume : ResumeState) (start : ℕ) : Prop where
  record : resume.recordStart = some start
  comment : CommentAt cfg data (off + start)
  le : start ≤ resume.scannedTo
  inside : off + resume.scannedTo ≤ stop
  lt : off + start < stop
  same : findRecordEnding cfg data (off + resume.scannedTo) = findRecordEnding cfg data (off + start)

/-- A checkpoint of a comment that has been passed as a blank line. -/
def Stale (p start : ℕ) (resume : ResumeState) : Prop :=
  ¬ cfg.CommentsApart ∧ off + start < p ∧ off + resume.scannedTo < p

/-- A checkpoint that stands for a point of the path ahead of `p`, or for one of those that are
    `late`; a checkpoint of a record may also be passed. -/
structure Fit (p : ℕ) (resume : ResumeState) : Prop where
  ofData : resume.ignored = false → ∀ start, resume.recordStart = some start → off + start ≤ stop ∧
    (off + start ≤ p ∨ Path cfg data b (off + start) ∨ late (off + start))
  ofComment : resume.ignored = true → ∃ start, resume.recordStart = some start ∧
    (InComment cfg data off stop resume start ∧
        ((p ≤ off + start ∧ Path cfg data b (off + start)) ∨ late (off + start)) ∨
      Stale cfg off p start resume)

/-- The engine is at a point of the path. -/
structure At (e : Engine) (p : ℕ) : Prop where
  point : off + e.location = p
  le : p ≤ stop
  path : Path cfg data b p
  fit : Fit cfg data off stop b late p e.resume

/-- The engine is at the end of the window, inside the comment at `p`. -/
structure Unfinished (e : Engine) (p : ℕ) : Prop where
  point : off + e.location = stop
  path : Path cfg data b p
  above : off ≤ p
  open' : ∀ next, findRecordEnding cfg data p = some next → stop < next
  ignored : e.resume.ignored = true
  resume : InComment cfg data off stop e.resume (p - off)

/-- No line begins at `p` that the window shows. -/
structure Rests (p : ℕ) : Prop where
  comment : CommentAt cfg data p → stop ≤ p
  blank : cfg.blankRecords = .skip → ∀ width, recordEndingWidthAt cfg data p = some width →
    stop < p + width

variable {cfg data off stop b late}

/-- A line that begins at a point of rest ends behind the window. -/
theorem Rests.lt_line (hs : cfg.dialect.Sound) {p next : ℕ} (h : Rests cfg data stop p)
    (hline : IgnoredLine cfg data p next) : stop < next := by
  have hlt := (findRecordEnding_within hs hline.2).1
  rcases hline.1 with hcomment | ⟨hskip, width, hwidth⟩
  · have := h.comment hcomment
    omega
  · have hsame := (findRecordEnding_blank hs hwidth).symm.trans hline.2
    have := h.blank hskip width hwidth
    have := Option.some.inj hsame
    omega

theorem Fit.new (p : ℕ) : Fit cfg data off stop b late p .new := ⟨fun _ _ h => (by cases h), nofun⟩

variable (hs : cfg.dialect.Sound)

include hs in
/-- Past a blank line. -/
theorem Fit.blank {p next : ℕ} {resume : ResumeState} (h : Fit cfg data off stop b late p resume)
    (hp : Path cfg data b p) (hblank : BlankAt cfg data p)
    (hline : IgnoredLine cfg data p next) : Fit cfg data off stop b late next resume := by
  have hlt := (findRecordEnding_within hs hline.2).1
  refine ⟨fun hdata start hstart => ?_, fun hignored => ?_⟩
  · obtain ⟨hle, h | h⟩ := h.ofData hdata start hstart
    · exact ⟨hle, Or.inl (h.trans hlt.le)⟩
    · exact ⟨hle, Or.inr h⟩
  · obtain ⟨start, hstart, ⟨hin, ⟨hle, hpath⟩ | hlate⟩ | ⟨hmixed, hpassed, hscanned⟩⟩ :=
      h.ofComment hignored
    · by_cases hat : p = off + start
      · subst hat
        have hsame := hin.same.trans hline.2
        exact ⟨start, hstart, Or.inr ⟨fun hapart => comment_not_blank hs hapart hin.comment hblank,
          hlt, (findRecordEnding_within hs hsame).1⟩⟩
      · exact ⟨start, hstart, Or.inl
          ⟨hin, Or.inl ⟨Path.line_le hs hline (Path.ahead hs hp hpath hle) hat, hpath⟩⟩⟩
    · exact ⟨start, hstart, Or.inl ⟨hin, Or.inr hlate⟩⟩
    · exact ⟨start, hstart, Or.inr ⟨hmixed, by omega, by omega⟩⟩

/-! ## The loops -/

variable (hstop : stop ≤ data.length) (hlate : ∀ x, late x → ∀ y, Path cfg data b y → y < x)
  {e : Engine} {p : ℕ}

include hstop in
theorem length_window : (slice data off stop).length = stop - off := by
  rw [slice, List.length_drop, List.length_take, Nat.min_eq_left hstop]

/-- The checkpoint of an engine at a comment that it goes on with. -/
def Resuming (w : Bytes) (e : Engine) : Prop :=
  (e.resume.ignored && e.resume.recordStart == some e.location
    && decide (e.resume.scannedTo ≤ w.length)) = true

theorem At.resuming (h : At cfg data off stop b late e p)
    (hresuming : Resuming (slice data off stop) e) :
    InComment cfg data off stop e.resume e.location := by
  simp only [Resuming, Bool.and_eq_true, beq_iff_eq, decide_eq_true_eq] at hresuming
  obtain ⟨start, hstart, hfit⟩ := h.fit.ofComment hresuming.1.1
  obtain rfl : start = e.location := Option.some.inj (hstart.symm.trans hresuming.1.2)
  rcases hfit with ⟨hin, -⟩ | ⟨-, hpassed, -⟩
  · exact hin
  · have := h.point
    omega

/-- Behind a comment. -/
theorem At.past (h : At cfg data off stop b late e p) (hcomment : CommentAt cfg data p) {next : ℕ}
    (hnext : findRecordEnding cfg data p = some (off + next)) (hle : off + next ≤ stop) :
    IgnoredLine cfg data p (off + next) ∧
      At cfg data off stop b late { e with location := next, resume := .new } (off + next) := by
  have hline : IgnoredLine cfg data p (off + next) := ⟨Or.inl hcomment, hnext⟩
  exact ⟨hline, rfl, hle, h.path.tail hline, .new _⟩

include hstop in
/-- At the end of the window, inside a comment. -/
theorem At.unfinished (h : At cfg data off stop b late e p) (hcomment : CommentAt cfg data p)
    (hlt : p < stop) (hopen : ∀ next, findRecordEnding cfg data p = some next → stop < next) :
    Unfinished cfg data off stop b
      { e with
        location := (slice data off stop).length
        resume := .ofIgnored e.location
          (max ((slice data off stop).length - max cfg.dialect.endingTail.width 2) e.location) } p := by
  have hpoint := h.point
  rw [length_window hstop]
  generalize hwidth : cfg.dialect.endingTail.width = width
  have hscanned : findRecordEnding cfg data (off + max (stop - off - max width 2) e.location) =
      findRecordEnding cfg data p :=
    findRecordEnding_overlap (by omega) (by omega) hopen
  refine ⟨by simp only; omega, h.path, by omega, hopen, rfl, ?_⟩
  have hat : p - off = e.location := by omega
  rw [hat]
  exact ⟨rfl, by rwa [hpoint], Nat.le_max_right _ _, by simp only [ResumeState.ofIgnored]; omega,
    by omega, by rw [hpoint]; exact hscanned⟩

theorem Unfinished.not_at (h : Unfinished cfg data off stop b e p) :
    ¬ At cfg data off stop b late e p := by
  intro hat
  have h1 := h.point
  have h2 := hat.point
  have h3 := h.resume.lt
  omega

variable (cfg data off stop b late) in
/-- What skipping from a point comes to. -/
structure Passed (e e' : Engine) (p S : ℕ) : Prop where
  kept : e' = { e with location := e'.location, resume := e'.resume }
  path : Path cfg data p S
  outcome : Unfinished cfg data off stop b e' S ∨ At cfg data off stop b late e' S ∧
    (e'.resume = e.resume ∨ e'.resume = .new ∧ p < S)

theorem Passed.refl (h : At cfg data off stop b late e p) : Passed cfg data off stop b late e e p p :=
  ⟨rfl, .refl, Or.inr ⟨h, Or.inl rfl⟩⟩

/-- A line, and what skipping from behind it comes to. -/
theorem Passed.line {e₁ e' : Engine} {next S : ℕ} (hline : IgnoredLine cfg data p next)
    (hlt : p < next) (hkept : e₁ = { e with location := e₁.location, resume := e₁.resume })
    (hresume : e₁.resume = e.resume ∨ e₁.resume = .new)
    (h : Passed cfg data off stop b late e₁ e' next S) (hle : next ≤ S) :
    Passed cfg data off stop b late e e' p S := by
  refine ⟨?_, .head hline h.path, ?_⟩
  · rw [h.kept, hkept]
  · rcases h.outcome with h | ⟨h, hsame | hnew⟩
    · exact Or.inl h
    · rcases hresume with heq | heq
      · exact Or.inr ⟨h, Or.inl (hsame.trans heq)⟩
      · exact Or.inr ⟨h, Or.inr ⟨hsame.trans heq, by omega⟩⟩
    · exact Or.inr ⟨h, Or.inr ⟨hnew.1, by omega⟩⟩

include hs hstop in
/-- **The loop of `skip_comments`** passes comments. -/
theorem skipCommentsLoop_at {comment : UInt8} (hmark : cfg.dialect.comment = some comment)
    (fuel : ℕ) (h : At cfg data off stop b late e p) (hfuel : stop < p + fuel) :
    ∃ S, let e' := skipCommentsLoop cfg (slice data off stop) comment fuel e
      Passed cfg data off stop b late e e' p S ∧
        (At cfg data off stop b late e' S → CommentAt cfg data S → stop ≤ S) := by
  induction fuel generalizing e p with
  | zero => exact absurd h.le (by omega)
  | succ fuel ih =>
    have hpoint := h.point
    -- from a comment, wherever its ending is looked for
    have hgo : ∀ scanned e', CommentAt cfg data p → p < stop →
        findRecordEnding cfg data (off + scanned) = findRecordEnding cfg data p →
        (∀ next, findRecordEnding cfg (slice data off stop) scanned = some next →
          e' = skipCommentsLoop cfg (slice data off stop) comment fuel
            { e with location := next, resume := .new }) →
        (findRecordEnding cfg (slice data off stop) scanned = none →
          e' = { e with
            location := (slice data off stop).length
            resume := .ofIgnored e.location (max ((slice data off stop).length -
              max cfg.dialect.endingTail.width 2) e.location) }) →
        ∃ S, Passed cfg data off stop b late e e' p S ∧
          (At cfg data off stop b late e' S → CommentAt cfg data S → stop ≤ S) := by
      intro scanned e' hcomment hlt hsame hsome hnone
      rcases hfind : findRecordEnding cfg (slice data off stop) scanned with _ | next
      · have hopen : ∀ next, findRecordEnding cfg data p = some next → stop < next := by
          intro next hnext
          refine Nat.lt_of_not_le fun hle => ?_
          have habove := (findRecordEnding_within hs hnext).1
          obtain ⟨i, rfl⟩ : ∃ i, next = off + i := ⟨next - off, by omega⟩
          have := (findRecordEnding_window hs).2 ⟨hsame.trans hnext, hle⟩
          rw [hfind] at this
          cases this
        have hunfinished := h.unfinished hstop hcomment hlt hopen
        rw [hnone hfind]
        exact ⟨p, ⟨rfl, .refl, Or.inl hunfinished⟩, fun hat => (hunfinished.not_at hat).elim⟩
      · obtain ⟨hnext, hle⟩ := (findRecordEnding_window hs).1 hfind
        rw [hsame] at hnext
        have hlt' := (findRecordEnding_within hs hnext).1
        obtain ⟨hline, hat⟩ := h.past hcomment hnext hle
        obtain ⟨S, hpassed, hrest⟩ := ih hat (by omega)
        rw [hsome next hfind]
        exact ⟨S, hpassed.line hline hlt' rfl (Or.inr rfl) (Path.le hs hpassed.path), hrest⟩
    rw [skipCommentsLoop]
    simp only
    by_cases hresuming : Resuming (slice data off stop) e
    · have hin := h.resuming hresuming
      rw [Resuming] at hresuming
      simp only [hresuming, Bool.not_true, Bool.false_and, Bool.false_eq_true, if_false, if_true]
      exact hgo _ _ (hpoint ▸ hin.comment) (hpoint ▸ hin.lt) (hpoint ▸ hin.same)
        (fun _ hfind => by rw [hfind]) (fun hfind => by rw [hfind])
    · rw [Resuming, Bool.not_eq_true] at hresuming
      simp only [hresuming, Bool.not_false, Bool.true_and, Bool.false_eq_true, if_false]
      by_cases hbyte : (slice data off stop)[e.location]? = some comment
      · rw [if_neg (by simp [hbyte])]
        obtain ⟨hcomment, hlt⟩ := commentAt_window.1 ⟨comment, hmark, hbyte⟩
        rw [hpoint] at hcomment hlt
        exact hgo _ _ hcomment hlt (by rw [hpoint]) (fun _ hfind => by rw [hfind])
          (fun hfind => by rw [hfind])
      · rw [if_pos (by simpa using hbyte)]
        refine ⟨p, .refl h, fun _ hcomment => Nat.le_of_not_lt fun hlt => hbyte ?_⟩
        obtain ⟨comment', hmark', hbyte'⟩ :=
          commentAt_window.2 ⟨(hpoint ▸ hcomment : CommentAt cfg data (off + e.location)), hpoint ▸ hlt⟩
        rw [hbyte', ← hmark', hmark]

include hs hstop in
/-- **`skip_comments`** passes comments. -/
theorem skipComments_at (h : At cfg data off stop b late e p) :
    ∃ S, let e' := skipComments cfg (slice data off stop) e
      Passed cfg data off stop b late e e' p S ∧
        (At cfg data off stop b late e' S → CommentAt cfg data S → stop ≤ S) := by
  unfold skipComments
  rcases hmark : cfg.dialect.comment with _ | comment
  · refine ⟨p, .refl h, fun _ ⟨comment, hsome, _⟩ => ?_⟩
    rw [hmark] at hsome
    cases hsome
  · refine skipCommentsLoop_at hs hstop hmark _ h ?_
    have := h.point
    rw [length_window hstop]
    omega

include hs in
/-- **The loop of `skip_blank_lines`** passes blank lines. -/
theorem skipBlankLinesLoop_at (hskip : cfg.blankRecords = .skip)
    (fuel : ℕ) (h : At cfg data off stop b late e p) (hfuel : stop < p + fuel) :
    ∃ S, let e' := skipBlankLinesLoop cfg (slice data off stop) fuel e
      Path cfg data p S ∧ e' = { e with location := e'.location } ∧
        At cfg data off stop b late e' S ∧
        ∀ width, recordEndingWidthAt cfg data S = some width → stop < S + width := by
  induction fuel generalizing e p with
  | zero => exact absurd h.le (by omega)
  | succ fuel ih =>
    have hpoint := h.point
    rw [skipBlankLinesLoop]
    rcases hwidth : recordEndingWidthAt cfg (slice data off stop) e.location with _ | width
    · refine ⟨p, .refl, rfl, h, fun width hends => Nat.lt_of_not_le fun hle => ?_⟩
      rw [← hpoint] at hends hle
      have := (recordEndingWidthAt_window hs).2 ⟨hends, hle⟩
      rw [hwidth] at this
      cases this
    · obtain ⟨hends, hle⟩ := (recordEndingWidthAt_window hs).1 hwidth
      rw [hpoint] at hends hle
      have hblank : BlankAt cfg data p := ⟨hskip, width, hends⟩
      have hline : IgnoredLine cfg data p (p + width) :=
        ⟨Or.inr hblank, findRecordEnding_blank hs hends⟩
      have hlt := (findRecordEnding_within hs hline.2).1
      have hat : At cfg data off stop b late { e with location := e.location + width } (p + width) :=
        ⟨by simp only; omega, hle, h.path.tail hline, h.fit.blank hs h.path hblank hline⟩
      obtain ⟨S, hpath, hkept, hat', hrest⟩ := ih hat (by omega)
      exact ⟨S, .head hline hpath, hkept, hat', hrest⟩

include hstop in
theorem Unfinished.at_end (h : Unfinished cfg data off stop b e p) :
    e.location = (slice data off stop).length := by
  have := h.point
  rw [length_window hstop]
  omega

include hstop in
/-- Inside a comment, nothing more is skipped. -/
theorem skipComments_unfinished (h : Unfinished cfg data off stop b e p) :
    skipComments cfg (slice data off stop) e = e := by
  have hlocation := h.at_end hstop
  unfold skipComments
  rcases cfg.dialect.comment with _ | comment
  · rfl
  have hresuming : (e.resume.ignored && e.resume.recordStart == some e.location
      && decide (e.resume.scannedTo ≤ (slice data off stop).length)) = false := by
    have h1 := h.point
    have h2 := h.resume.lt
    rw [h.resume.record, beq_eq_false_iff_ne.2, Bool.and_false, Bool.false_and]
    intro heq
    have := Option.some.inj heq
    omega
  simp only [skipCommentsLoop, hresuming, Bool.not_false, Bool.true_and]
  rw [if_pos]
  rw [hlocation, List.getElem?_eq_none le_rfl]
  rfl

include hs hstop in
theorem skipBlankLines_unfinished (h : Unfinished cfg data off stop b e p) :
    skipBlankLines cfg (slice data off stop) e = e := by
  have hlocation := h.at_end hstop
  unfold skipBlankLines
  split_ifs
  · rw [skipBlankLinesLoop]
    rcases hwidth : recordEndingWidthAt cfg (slice data off stop) e.location with _ | width
    · rfl
    · have := (recordEndingWidthAt_within hs hwidth).1
      omega
  · rfl

theorem Passed.trans {e₁ e₂ : Engine} {S₁ S₂ : ℕ} (h : Passed cfg data off stop b late e e₁ p S₁)
    (hat : At cfg data off stop b late e₁ S₁) (h' : Passed cfg data off stop b late e₁ e₂ S₁ S₂)
    (hp : p ≤ S₁) (hle : S₁ ≤ S₂) : Passed cfg data off stop b late e e₂ p S₂ := by
  refine ⟨by rw [h'.kept, h.kept], h.path.trans h'.path, ?_⟩
  have hresume : e₁.resume = e.resume ∨ e₁.resume = .new ∧ p < S₁ := by
    rcases h.outcome with h | h
    · exact (h.not_at hat).elim
    · exact h.2
  rcases h'.outcome with h' | ⟨h', hsame | ⟨hnew, hlt⟩⟩
  · exact Or.inl h'
  · rcases hresume with heq | ⟨heq, hlt⟩
    · exact Or.inr ⟨h', Or.inl (hsame.trans heq)⟩
    · exact Or.inr ⟨h', Or.inr ⟨hsame.trans heq, by omega⟩⟩
  · exact Or.inr ⟨h', Or.inr ⟨hnew, by omega⟩⟩

include hs hstop in
/-- **One round** of `skip_ignored_records`. -/
theorem round_at (h : At cfg data off stop b late e p) :
    ∃ S, let e' := skipBlankLines cfg (slice data off stop) (skipComments cfg (slice data off stop) e)
      Passed cfg data off stop b late e e' p S ∧
        (At cfg data off stop b late e' S → S = p → Rests cfg data stop S) := by
  obtain ⟨S₁, hcomments, hrest₁⟩ := skipComments_at hs hstop h
  simp only at hcomments hrest₁ ⊢
  generalize skipComments cfg (slice data off stop) e = e₁ at hcomments hrest₁ ⊢
  have hle₁ := Path.le hs hcomments.path
  rcases hcomments.outcome with hun | ⟨hat, -⟩
  · rw [skipBlankLines_unfinished hs hstop hun]
    exact ⟨S₁, hcomments, fun hat => (hun.not_at hat).elim⟩
  unfold skipBlankLines
  by_cases hskip : cfg.blankRecords = .skip
  · rw [if_pos hskip]
    obtain ⟨S₂, hpath, hkept, hat₂, hrest₂⟩ := skipBlankLinesLoop_at hs hskip
      ((slice data off stop).length + 1) hat (by have := hat.point; rw [length_window hstop]; omega)
    have hle₂ := Path.le hs hpath
    refine ⟨S₂, hcomments.trans hat ⟨?_, hpath, Or.inr ⟨hat₂, Or.inl ?_⟩⟩ hle₁ hle₂, ?_⟩
    · rw [hkept]
    · rw [hkept]
    · rintro - rfl
      obtain rfl : S₁ = S₂ := Nat.le_antisymm hle₂ hle₁
      exact ⟨hrest₁ hat, fun _ => hrest₂⟩
  · rw [if_neg hskip]
    exact ⟨S₁, hcomments, fun hat hS => ⟨hrest₁ hat, fun h => absurd h hskip⟩⟩

include hs hstop in
theorem skipIgnoredLoop_unfinished (h : Unfinished cfg data off stop b e p) (fuel : ℕ)
    (skipped : Bool) :
    skipIgnoredLoop cfg (slice data off stop) fuel skipped e = (skipped, e) := by
  cases fuel with
  | zero => rfl
  | succ fuel =>
    rw [skipIgnoredLoop]
    simp only [skipComments_unfinished hstop h, skipBlankLines_unfinished hs hstop h, if_true]

include hs hstop in
/-- **The loop of `skip_ignored_records`** stops where no line begins that the window shows, or
    inside a comment at its end. -/
theorem skipIgnoredLoop_at (fuel : ℕ) (skipped : Bool) (h : At cfg data off stop b late e p)
    (hfuel : stop < p + fuel) :
    ∃ S, let r := skipIgnoredLoop cfg (slice data off stop) fuel skipped e
      Passed cfg data off stop b late e r.2 p S ∧
        (At cfg data off stop b late r.2 S → Rests cfg data stop S) ∧
        (skipped = true ∨ p < S → r.1 = true) := by
  induction fuel generalizing e p skipped with
  | zero => exact absurd h.le (by omega)
  | succ fuel ih =>
    rw [skipIgnoredLoop]
    obtain ⟨S, hround, hrest⟩ := round_at hs hstop h
    simp only at hround hrest ⊢
    generalize skipBlankLines cfg (slice data off stop) (skipComments cfg (slice data off stop) e) =
      next at hround hrest ⊢
    have hle := Path.le hs hround.path
    have hpoint := h.point
    by_cases hsame : next.location = e.location
    · rw [if_pos hsame]
      refine ⟨S, hround, fun (hat : At cfg data off stop b late next S) => hrest hat ?_, ?_⟩
      · have := hat.point
        omega
      · rintro (hskipped | hlt)
        · exact hskipped
        · rcases hround.outcome with hun | ⟨hat, -⟩
          · have h1 := hun.point
            have h2 := hun.resume.lt
            omega
          · have := hat.point
            omega
    · rw [if_neg hsame]
      rcases hround.outcome with hun | ⟨hat, -⟩
      · rw [skipIgnoredLoop_unfinished hs hstop hun]
        exact ⟨S, hround, fun hat => (hun.not_at hat).elim, fun _ => rfl⟩
      · have hlt : p < S := by
          have := hat.point
          omega
        obtain ⟨S', hpassed, hrest', hflag⟩ := ih true hat (by omega)
        exact ⟨S', hround.trans hat hpassed hle (Path.le hs hpassed.path), hrest',
          fun _ => hflag (Or.inl rfl)⟩

include hs in
/-- Where the skipping rests, a checkpoint in a comment is a late one, or a stale one. -/
theorem At.late_of_rests (h : At cfg data off stop b late e p) (hrest : Rests cfg data stop p)
    (hignored : e.resume.ignored = true) :
    ∃ start, e.resume.recordStart = some start ∧
      (InComment cfg data off stop e.resume start ∧ late (off + start) ∨
        Stale cfg off p start e.resume) := by
  obtain ⟨start, hstart, ⟨hin, ⟨hle, hpath⟩ | hlate⟩ | hstale⟩ := h.fit.ofComment hignored
  · exfalso
    have hlt := hin.lt
    by_cases hne : p = off + start
    · have := hrest.comment (hne ▸ hin.comment)
      omega
    have hahead := Path.ahead hs h.path hpath hle
    rcases hahead.cases_head with heq | ⟨next, hline, hrestpath⟩
    · exact hne heq
    have hnext := Path.le hs hrestpath
    have hbehind := hrest.lt_line hs hline
    omega
  · exact ⟨start, hstart, Or.inl ⟨hin, hlate⟩⟩
  · exact ⟨start, hstart, Or.inr hstale⟩

variable (cfg data off stop b late) in
/-- What skipping comes to, with its checkpoint. -/
structure Skipped (e e' : Engine) (p S : ℕ) : Prop where
  kept : e' = { e with location := e'.location, resume := e'.resume }
  path : Path cfg data p S
  outcome : Unfinished cfg data off stop b e' S ∨
    At cfg data off stop b late e' S ∧ Rests cfg data stop S ∧
      (e'.resume = e.resume ∨ e'.resume = .fresh e'.location)

include hs hstop in
/-- **`skip_ignored_records`** stops where no line begins that the window shows, or inside a
    comment at its end. -/
theorem skipIgnoredRecords_at (h : At cfg data off stop b late e p) :
    ∃ S, Skipped cfg data off stop b late e (skipIgnoredRecords cfg (slice data off stop) e) p S := by
  have hpoint := h.point
  obtain ⟨S, hpassed, hrest, hflag⟩ := skipIgnoredLoop_at hs hstop
    ((slice data off stop).length + 2) e.resume.ignored h (by rw [length_window hstop]; omega)
  unfold skipIgnoredRecords
  simp only at hpassed hrest hflag ⊢
  generalize skipIgnoredLoop cfg (slice data off stop) ((slice data off stop).length + 2)
    e.resume.ignored e = r at hpassed hrest hflag ⊢
  obtain ⟨skipped, next⟩ := r
  simp only at hpassed hrest hflag ⊢
  refine ⟨S, ?_⟩
  by_cases hfresh : (skipped && !next.resume.ignored) = true
  · rw [if_pos hfresh]
    rw [Bool.and_eq_true, Bool.not_eq_true'] at hfresh
    refine ⟨?_, hpassed.path, ?_⟩
    · rw [hpassed.kept]
    · rcases hpassed.outcome with hun | ⟨hat, -⟩
      · exact absurd hun.ignored (by rw [hfresh.2]; exact Bool.false_ne_true)
      · refine Or.inr ⟨⟨hat.point, hat.le, hat.path, ?_⟩, hrest hat, Or.inr rfl⟩
        refine ⟨fun _ start hstart => ?_, nofun⟩
        obtain rfl : next.location = start := Option.some.inj hstart
        rw [hat.point]
        exact ⟨hat.le, Or.inl le_rfl⟩
  · rw [if_neg hfresh]
    refine ⟨hpassed.kept, hpassed.path, ?_⟩
    rcases hpassed.outcome with hun | ⟨hat, hsame | ⟨hnew, hlt⟩⟩
    · exact Or.inl hun
    · exact Or.inr ⟨hat, hrest hat, Or.inl hsame⟩
    · refine absurd ?_ hfresh
      rw [hnew, hflag (Or.inr hlt)]
      rfl

end skip

end Ignored

end Coseva
