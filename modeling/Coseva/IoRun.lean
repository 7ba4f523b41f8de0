/-
  Coseva — the parser that reads its stream, over whole runs (`coseva/src/io_parser.rs`): however the
  reader cuts the stream, whatever it interrupts and whatever is asked of the parser, no byte is lost
  or taken twice.

  * `Open`: the window in what was read of the stream;
  * `refill_goes`, `refilling_goes`: the window moves on;
  * `Op.run_goes`: the calls;
  * `run_streams`, `run_failed`: runs.
-/
import Coseva.IoParser
import Coseva.StreamWindow

namespace Coseva

open Run Engine

namespace IoParser

variable {cfg : ParserSettings} {F : CsvFormat} {answers : List Answer} {log : List (ℕ × ℕ)}
  {p p' : IoParser}

/-- The bytes that were read, of a reader that answers `answers` in all. -/
def taken (answers : List Answer) (p : IoParser) : Bytes :=
  (answers.take (answers.length - p.input.length)).flatMap Answer.given

/-- The window is the rest of what was read. -/
structure Open (cfg : ParserSettings) (answers : List Answer) (log : List (ℕ × ℕ)) (p : IoParser) :
    Prop where
  input : p.input <:+ answers
  streamed : Streamed cfg (p.taken answers) p.window p.consumed log p.core.toEngine
  inside : Inside p.window p.core.resume

/-- A call that fails has poisoned the parser, unless it panics. -/
def Poisoned (fault : IoFault) (p : IoParser) : Prop := p.failed = true ∨ fault.panics = true

/-- The stream has been read on, over further records. -/
def GoesOn (cfg : ParserSettings) (answers : List Answer) (log : List (ℕ × ℕ)) (p : IoParser) : Prop :=
  ∃ more, Open cfg answers (log ++ more) p

/-- A call that may have returned a record, which is new. -/
def Returns (cfg : ParserSettings) (answers : List Answer) (log : List (ℕ × ℕ)) (seen : Option StreamRecord)
    (p : IoParser) : Prop :=
  ∃ more, Open cfg answers (log ++ more) p ∧ Returned log more seen

theorem Open.goesOn (h : Open cfg answers log p) : GoesOn cfg answers log p :=
  ⟨[], by rwa [List.append_nil]⟩

theorem GoesOn.returns (h : GoesOn cfg answers log p) : Returns cfg answers log none p := by
  obtain ⟨more, hopen⟩ := h
  exact ⟨more, hopen, .none⟩

theorem Returns.trans {more : List (ℕ × ℕ)} {seen : Option StreamRecord}
    (h : Returns cfg answers (log ++ more) seen p) : Returns cfg answers log seen p := by
  obtain ⟨rest, hopen, hseen⟩ := h
  exact ⟨more ++ rest, by rwa [← List.append_assoc], hseen.trans⟩

/-- The engine has gone on in the window. -/
theorem Open.went {low : ℕ} {pieces : List (ℕ × ℕ)} {core : WindowEngine} (h : Open cfg answers log p)
    (hwent : Went cfg p.window low p.core.toEngine pieces core.toEngine) :
    Open cfg answers (log ++ Tiles.moved p.consumed pieces) { p with core } :=
  ⟨h.input, h.streamed.went hwent, hwent.kept h.inside⟩

theorem Open.viewed {low : ℕ} {pieces : List (ℕ × ℕ)} {seen : StreamRecord} {core : WindowEngine}
    (h : Open cfg answers log p)
    (hviewed : Window.Viewed cfg p.window low p.core.toEngine pieces seen.range core) :
    Returns cfg answers log (some (seen.rebase p.consumed)) { p with core } :=
  ⟨_, h.went hviewed.went, h.streamed.viewed hviewed⟩

/-! ## The window moves on -/

theorem ioWindowAnchor_le (h : Open cfg answers log p) : p.core.ioWindowAnchor ≤ p.window.length := by
  have hanchor := p.core.windowAnchor_le
  have hlocation := h.streamed.standing.inside
  have hwithin : p.core.windowAnchor ≤ p.window.length := Nat.le_trans hanchor hlocation
  unfold ioWindowAnchor
  split
  · rename_i start _ hstart
    split_ifs
    · exact Nat.max_le.mpr ⟨hwithin, h.inside start hstart⟩
    · exact hwithin
  · exact hwithin

/-- **`compact`** gives up what is in front of the cursor. -/
theorem Open.compact (h : Open cfg answers log p) : Open cfg answers log p.compact := by
  have hle := ioWindowAnchor_le h
  have hcursor : ∀ start, p.core.cursorStart = some start → p.core.ioWindowAnchor ≤ start := by
    intro start hstart
    have hanchor : p.core.ioWindowAnchor = p.core.windowAnchor := by
      unfold ioWindowAnchor
      rw [hstart]
    rw [hanchor]
    unfold windowAnchor
    rw [hstart]
    dsimp only [Option.getD_some]
    split_ifs
    · exact Nat.le_trans (Nat.min_le_left _ _) (Nat.min_le_left _ _)
    · exact Nat.min_le_left _ _
  refine ⟨h.input, h.streamed.shift hle hcursor, ?_⟩
  show Inside (p.window.drop _) (p.core.toEngine.shiftWindow p.window _).resume
  rw [shiftWindow_resume]
  exact h.inside.shift

/-- An answer of the reader is in the window. -/
theorem Open.answered {answer : Answer} {input : List Answer}
    (h : Open cfg answers log { p with input := answer :: input }) :
    Open cfg answers log { p with input, window := p.window ++ answer.given } := by
  obtain ⟨⟨before, hbefore⟩, hstreamed, hinside⟩ := h
  obtain rfl : before ++ answer :: input = answers := hbefore
  have htaken : taken (before ++ answer :: input) { p with input := answer :: input } =
      before.flatMap Answer.given := by
    unfold taken
    rw [List.length_append, Nat.add_sub_cancel, List.take_left]
  have htaken' : taken (before ++ answer :: input)
      { p with input, window := p.window ++ answer.given } =
      before.flatMap Answer.given ++ answer.given := by
    unfold taken
    have hlength : (before ++ answer :: input).length - input.length = before.length + 1 := by
      rw [List.length_append, List.length_cons]
      omega
    show (List.take ((before ++ answer :: input).length - input.length) _).flatMap _ = _
    rw [hlength, List.take_length_add_append, List.take_succ_cons, List.take_zero,
      List.flatMap_append, List.flatMap_singleton]
  rw [htaken] at hstreamed
  refine ⟨⟨before ++ [answer], by rw [List.append_assoc]; rfl⟩, ?_, fun start hstart => ?_⟩
  · rw [htaken']
    exact hstreamed.grow answer.given
  · show start ≤ (p.window ++ answer.given).length
    rw [List.length_append]
    exact Nat.le_add_right_of_le (hinside start hstart)

theorem readLoop_goes (input : List Answer) : ∀ p : IoParser,
    Open cfg answers log { p with input } →
    Ends (fun _ p' => p'.failed = true) (fun _ p' => Open cfg answers log p') (readLoop input p) := by
  induction input with
  | nil => exact fun p h => ⟨h.input, h.streamed, h.inside⟩
  | cons answer input ih =>
    intro p h
    have hnext := h.answered
    cases answer with
    | bytes given =>
      rw [readLoop]
      split_ifs with hempty
      · obtain rfl := List.isEmpty_iff.mp hempty
        have hsame : p.window ++ (Answer.bytes []).given = p.window := List.append_nil _
        rw [hsame] at hnext
        exact ⟨hnext.input, hnext.streamed, hnext.inside⟩
      · exact hnext
    | interrupted =>
      have hsame : p.window ++ Answer.interrupted.given = p.window := List.append_nil _
      rw [hsame] at hnext
      exact ih p hnext
    | overrun => exact rfl
    | failed => exact rfl

/-- **`refill`** loses nothing of the stream. -/
theorem refill_goes (h : Open cfg answers log p) :
    Ends Poisoned (fun _ p' => Open cfg answers log p') (refill p) := by
  unfold refill
  rw [get_bind]
  split_ifs
  · exact h
  · rw [set_bind]
    exact (readLoop_goes p.input p.compact h.compact).mono (fun _ _ => Or.inl) fun _ _ h => h

/-! ## Calls on the engine -/

theorem checkFailed_ends : Ends Poisoned (fun _ p' => p' = p) (checkFailed p) := by
  unfold checkFailed
  split_ifs with hfailed
  · exact Or.inl hfailed
  · exact rfl

theorem calling_ends {α : Type} {m : Window α} {Q : α → WindowEngine → Prop}
    (h : Ends (fun _ _ => True) Q (m p.core)) :
    Ends Poisoned (fun a p' => ∃ core, p' = { p with core } ∧ Q a core) (calling m p) := by
  unfold calling
  rcases hrun : m p.core with ⟨a, core⟩ | ⟨fault, core⟩
  · rw [hrun] at h
    exact ⟨core, rfl, h⟩
  · exact Or.inl rfl

/-- What `refilling` returns, of a call that finds a record as `Q` says. -/
def Refilled {α : Type} (cfg : ParserSettings) (answers : List Answer) (log : List (ℕ × ℕ))
    (Q : Bytes → WindowEngine → α → WindowEngine → Prop) : Option α → IoParser → Prop
  | some read, p => ∃ core, Open cfg answers log { p with core } ∧ Q p.window core read p.core
  | none, p => GoesOn cfg answers log p

/-- A call that is made again behind every refill goes on from where the first began. -/
theorem refilling_goes {α : Type} {call : Bytes → Bool → Window (Advance α)}
    {Q : Bytes → WindowEngine → α → WindowEngine → Prop}
    (hcall : ∀ window eof (w : WindowEngine), Standing cfg window w.toEngine →
      Ends (fun _ _ => True) (fun r w' => Window.Called cfg window w (Q window w) r w')
        (call window eof w))
    (fuel : ℕ) : ∀ p, Open cfg answers log p →
      Ends Poisoned (fun read p' => Refilled cfg answers log Q read p') (refilling call fuel p) := by
  induction fuel with
  | zero => exact fun _ _ => Or.inr rfl
  | succ fuel ih =>
    intro p h
    rw [refilling, get_bind]
    refine (calling_ends (hcall p.window p.eof p.core h.streamed.standing)).bind ?_
    rintro r _ ⟨core, rfl, hcalled⟩
    cases r with
    | record read => exact ⟨p.core, h, hcalled⟩
    | done =>
      obtain ⟨pieces, hwent⟩ := hcalled
      exact ⟨_, h.went hwent⟩
    | needMore =>
      have hopen := h.went hcalled.1
      have hnil : log ++ Tiles.moved p.consumed [] = log := List.append_nil log
      rw [hnil] at hopen
      exact (refill_goes hopen).bind fun _ p' h' => ih p' h'

/-- A mark at the start of the stream is passed over, once the window shows it. -/
theorem resolveBom_goes (h : Open cfg answers log p) :
    Ends Poisoned (fun _ p' => Open cfg answers log p') (resolveBom cfg p) := by
  have hrefill : ∀ fuel p, Open cfg answers log p →
      Ends Poisoned (fun _ p' => Open cfg answers log p') (refillForBom fuel p) := by
    intro fuel
    induction fuel with
    | zero => exact fun _ _ => Or.inr rfl
    | succ fuel ih =>
      intro p h
      rw [refillForBom, get_bind]
      split_ifs
      · exact (refill_goes h).bind fun _ p' h' => ih p' h'
      · exact h
  unfold resolveBom
  rw [get_bind]
  by_cases hresolved : p.bomResolved = true
  · rw [if_pos hresolved]
    exact h
  rw [if_neg hresolved]
  refine (hrefill _ p h).bind fun _ p' h' => ?_
  rw [get_bind, set_bind]
  split_ifs
  · exact ⟨h'.input, h'.streamed, h'.inside⟩
  · exact ⟨h'.input, h'.streamed, h'.inside⟩
  · have hskipped := h'.went (skipDetectedBom_went h'.streamed.standing)
    have hnil : log ++ Tiles.moved p'.consumed [] = log := List.append_nil log
    rw [hnil] at hskipped
    exact ⟨hskipped.input, hskipped.streamed, hskipped.inside⟩

section calls

variable (hvalid : cfg.dialect.invalidity = none) (hF : cfg.Follows F)

theorem headersOutcome_calls (hs : cfg.dialect.Sound) {window : Bytes} (eof : Bool) {w : WindowEngine}
    (h : Standing cfg window w.toEngine) :
    Ends (fun _ _ => True) (fun r w' => Window.Called cfg window w
        (fun _ w' => ∃ pieces, Went cfg window w.location w.toEngine pieces w'.toEngine) r w')
      (headersOutcome cfg window eof w) := by
  refine (Window.headersWindow_goes hs eof h).map fun settled w' h' => ?_
  rcases h' with ⟨rfl, hwent⟩ | ⟨rfl, -, hwent⟩
  · exact hwent
  · exact hwent

include hvalid

theorem ensureHeaders_goes (h : Open cfg answers log p) :
    Ends Poisoned (fun _ p' => GoesOn cfg answers log p') (ensureHeaders cfg p) := by
  have hs := Dialect.sound_of_valid hvalid
  unfold IoParser.ensureHeaders
  refine checkFailed_ends.bind fun _ p₀ h₀ => ?_
  rw [h₀]
  refine (resolveBom_goes h).bind fun _ p₁ h₁ => ?_
  rw [get_bind]
  split_ifs
  · exact h₁.goesOn
  · exact Or.inl rfl
  refine (refilling_goes (fun _ eof _ hstanding => headersOutcome_calls hs eof hstanding) _ p₁ h₁).bind
    fun read p₂ h₂ => ?_
  have hgone : GoesOn cfg answers log p₂ := by
    cases read with
    | none => exact h₂
    | some settled =>
      obtain ⟨core, hopen, pieces, hwent⟩ := h₂
      exact ⟨_, hopen.went hwent⟩
  obtain ⟨more, hopen⟩ := hgone
  exact ⟨more, hopen.input, hopen.streamed, hopen.inside⟩

theorem settleHeaders_goes (h : Open cfg answers log p) :
    Ends Poisoned (fun _ p' => GoesOn cfg answers log p') (settleHeaders cfg p) := by
  unfold settleHeaders
  rw [get_bind]
  split_ifs
  · exact ensureHeaders_goes hvalid h
  · exact h.goesOn

omit hvalid

/-- The parser is on a record that was not looked at yet. -/
def OnRecord (cfg : ParserSettings) (answers : List Answer) (log : List (ℕ × ℕ)) (p : IoParser) : Prop :=
  ∃ more core low pieces, Open cfg answers (log ++ more) { p with core } ∧ low ≤ core.location ∧
    Window.Reached cfg p.window low core.toEngine pieces p.core

/-- A record that is not looked at is settled by the next call. -/
theorem OnRecord.goesOn (h : OnRecord cfg answers log p) : GoesOn cfg answers log p := by
  obtain ⟨more, core, low, pieces, hopen, -, hreached⟩ := h
  obtain ⟨pieces', hwent⟩ := hreached.went
  have hgone : Open cfg answers _ p := @Open.went _ _ _ { p with core } _ _ p.core hopen hwent
  exact ⟨more ++ Tiles.moved p.consumed pieces', by rw [← List.append_assoc]; exact hgone⟩

include hvalid hF

theorem scan_calls (eager : Bool) {window : Bytes} (eof : Bool) {w : WindowEngine}
    (h : Standing cfg window w.toEngine) :
    Ends (fun _ _ => True) (fun r w' => Window.Called cfg window w
        (fun _ w' => ∃ pieces, Window.Reached cfg window w.location w.toEngine pieces w') r w')
      (scan cfg F hvalid eager window eof w) := by
  unfold scan
  split_ifs
  · exact Window.advanceWindowEagerly_goes hvalid hF eof h
  · exact Window.advanceWindowLazily_goes hvalid hF eof h

/-- **`advance`** goes on to a record of the stream, or to its end. -/
theorem advance_goes (h : Open cfg answers log p) :
    Ends Poisoned
      (fun found p' => if found then OnRecord cfg answers log p' else GoesOn cfg answers log p')
      (advance cfg F hvalid p) := by
  unfold IoParser.advance
  refine (settleHeaders_goes hvalid h).bind fun _ p₁ h₁ => ?_
  obtain ⟨more, hopen⟩ := h₁
  rw [get_bind]
  refine (refilling_goes (fun _ eof _ hstanding => scan_calls hvalid hF _ eof hstanding) _ p₁ hopen).bind
    fun read p₂ h₂ => ?_
  cases read with
  | some read =>
    obtain ⟨core, hopen', pieces, hreached⟩ := h₂
    exact ⟨more, core, core.location, pieces, hopen', Nat.le_refl _, hreached⟩
  | none =>
    obtain ⟨rest, hopen'⟩ := h₂
    rw [List.append_assoc] at hopen'
    exact ⟨more ++ rest, hopen'.input, hopen'.streamed, hopen'.inside⟩

theorem readRecord_goes (text : Bool) (h : Open cfg answers log p) :
    Ends Poisoned (fun seen p' => Returns cfg answers log seen p') (readRecord cfg F hvalid text p) := by
  unfold readRecord
  rw [get_bind]
  split_ifs
  · exact Or.inl rfl
  refine (refilling_goes
    (fun _ eof _ hstanding => Window.readWindow_goes hvalid hF text eof hstanding) _ p h).bind
    fun read p₁ h₁ => ?_
  cases read with
  | some record =>
    obtain ⟨core, hopen, pieces, hviewed⟩ := h₁
    exact @Open.viewed _ _ _ { p₁ with core } _ _ (.owned record) p₁.core hopen hviewed
  | none =>
    obtain ⟨more, hopen⟩ := h₁
    exact ⟨more, ⟨hopen.input, hopen.streamed, hopen.inside⟩, .none⟩

theorem viewLine_goes (view : Line.View) (h : OnRecord cfg answers log p) :
    Ends Poisoned (fun seen p' => Returns cfg answers log (some seen) p') (viewLine cfg F view p) := by
  obtain ⟨more, core, low, pieces, hopen, hlow, hreached⟩ := h
  unfold viewLine
  rw [get_bind]
  split_ifs
  · exact Or.inl rfl
  refine (calling_ends (view.read_goes hvalid hF hreached hlow)).bind ?_
  rintro seen _ ⟨core', rfl, hviewed⟩
  have hreturns := @Open.viewed _ _ _ { p with core } _ _ seen core' hopen hviewed
  exact hreturns.trans

/-- **A call** returns a record of the stream under its number, if it returns one. -/
theorem Op.run_goes (op : Op) (h : Open cfg answers log p) :
    Ends Poisoned (fun seen p' => Returns cfg answers log seen p') (op.run cfg F hvalid p) := by
  cases op with
  | nextLine view =>
    refine (advance_goes hvalid hF h).bind fun found p₁ h₁ => ?_
    cases found with
    | false => exact h₁.returns
    | true =>
      have honRecord : OnRecord cfg answers log p₁ := h₁
      rw [if_pos rfl]
      rcases view with _ | view
      · exact honRecord.goesOn.returns
      · exact (viewLine_goes hvalid hF view honRecord).map fun _ _ h => h
  | readByteRecord =>
    refine (ensureHeaders_goes hvalid h).bind fun _ p₁ h₁ => ?_
    obtain ⟨more, hopen⟩ := h₁
    exact (readRecord_goes hvalid hF false hopen).mono (fun _ _ h => h) fun _ _ h => h.trans
  | readTextRecord =>
    refine (settleHeaders_goes hvalid h).bind fun _ p₁ h₁ => ?_
    obtain ⟨more, hopen⟩ := h₁
    exact (readRecord_goes hvalid hF true hopen).mono (fun _ _ h => h) fun _ _ h => h.trans

omit hvalid hF

/-! ## The loops end -/

/-- A call that asks for no more input at the end of the stream. -/
def Closing {α : Type} (cfg : ParserSettings) (call : Bytes → Bool → Window (Advance α)) : Prop :=
  ∀ window (w : WindowEngine), Standing cfg window w.toEngine →
    Ends (fun _ _ => True) (fun r _ => r ≠ .needMore) (call window true w)

/-- How often a parser may ask for more input: once for every answer, and once for the end. -/
def asks (p : IoParser) : ℕ := if p.eof then 0 else p.input.length + 1

theorem refill_asks (heof : p.eof = false) :
    Ends (fun _ _ => True) (fun _ p' => p'.asks < p.asks) (refill p) := by
  have hloop : ∀ (input : List Answer) (p : IoParser), p.eof = false →
      Ends (fun _ _ => True) (fun _ p' => p'.asks < input.length + 1) (readLoop input p) := by
    intro input
    induction input with
    | nil => exact fun _ _ => Nat.zero_lt_one
    | cons answer input ih =>
      intro p heof
      cases answer with
      | bytes given =>
        rw [readLoop]
        split_ifs
        · exact Nat.succ_pos _
        · show (if p.eof then 0 else input.length + 1) < input.length + 1 + 1
          rw [heof, if_neg Bool.false_ne_true]
          exact Nat.lt_succ_self _
      | interrupted => exact (ih p heof).mono (fun _ _ h => h) fun _ _ h => Nat.lt_succ_of_lt h
      | overrun => exact trivial
      | failed => exact trivial
  unfold refill
  rw [get_bind, heof, if_neg Bool.false_ne_true, set_bind]
  have hasks : p.asks = p.input.length + 1 := by
    unfold asks
    rw [heof, if_neg Bool.false_ne_true]
  rw [hasks]
  exact hloop p.input p.compact heof

/-- **Each turn of a loop uses up an answer**, so that more turns than answers change nothing. -/
theorem refilling_fuel {α : Type} {call : Bytes → Bool → Window (Advance α)}
    {Q : Bytes → WindowEngine → α → WindowEngine → Prop}
    (hcall : ∀ window eof (w : WindowEngine), Standing cfg window w.toEngine →
      Ends (fun _ _ => True) (fun r w' => Window.Called cfg window w (Q window w) r w')
        (call window eof w))
    (hclosing : Closing cfg call) (fuel : ℕ) : ∀ p, Open cfg answers log p → p.asks < fuel →
      refilling call (fuel + 1) p = refilling call fuel p := by
  induction fuel with
  | zero => exact fun _ _ h => absurd h (Nat.not_lt_zero _)
  | succ fuel ih =>
    intro p h hfuel
    rw [refilling, refilling, get_bind, get_bind]
    have hcalled := hcall p.window p.eof p.core h.streamed.standing
    have hopen : Ends (fun _ _ => True) (fun r w' => r = .needMore → p.eof = false ∧
        Open cfg answers log { p with core := w' }) (call p.window p.eof p.core) := by
      by_cases heof : p.eof = true
      · rw [heof]
        exact (hclosing p.window p.core h.streamed.standing).mono (fun _ _ h => h)
          fun r w' hr hmore => absurd hmore hr
      · refine hcalled.mono (fun _ _ h => h) fun r w' h' hr => ⟨Bool.not_eq_true _ ▸ heof, ?_⟩
        subst hr
        have hgone := h.went h'.1
        have hnil : log ++ Tiles.moved p.consumed [] = log := List.append_nil log
        rwa [hnil] at hgone
    refine (calling_ends hopen).bind_eq ?_
    rintro r _ ⟨core, rfl, hmore⟩
    cases r with
    | record read => rfl
    | done => rfl
    | needMore =>
      obtain ⟨heof, hopen'⟩ := hmore rfl
      have hrefill := (refill_goes hopen').and (@refill_asks { p with core } heof)
      refine hrefill.bind_eq fun _ p' h' => ih p' h'.1 ?_
      have hless : p'.asks < p.asks := h'.2
      omega

include hvalid

theorem headersOutcome_closing : Closing cfg (headersOutcome cfg) := by
  intro window w h
  refine (Window.headersWindow_goes (Dialect.sound_of_valid hvalid) true h).map fun settled w' h' => ?_
  rcases h' with ⟨rfl, -⟩ | ⟨-, hfalse, -⟩
  · exact fun hmore => by cases hmore
  · cases hfalse

omit hvalid

theorem positionLazily_closing : Closing cfg fun window _ => Window.positionLazily cfg F window := by
  intro window w _
  refine (Ends.somehow _).bind fun found _ _ => ?_
  cases found with
  | true => exact fun hmore => by cases hmore
  | false => exact fun hmore => by cases hmore

include hvalid

theorem scan_closing (eager : Bool) : Closing cfg (scan cfg F hvalid eager) := by
  intro window w h
  cases eager with
  | false => exact positionLazily_closing window w h
  | true =>
    refine (Ends.somehow _).bind fun found w' _ => ?_
    cases found with
    | true => exact (Ends.somehow _).bind fun _ _ _ => fun hmore => by cases hmore
    | false => exact fun hmore => by cases hmore

theorem readWindow_closing (text : Bool) :
    Closing cfg fun window eof => Window.readWindow cfg F window hvalid text eof := by
  intro window w _
  refine (Ends.somehow _).bind fun found w' _ => ?_
  cases found with
  | true =>
    cases text with
    | true => exact (Ends.somehow _).bind fun _ _ _ => fun hmore => by cases hmore
    | false => exact (Ends.somehow _).bind fun _ _ _ => fun hmore => by cases hmore
  | false => exact fun hmore => by cases hmore

include hF

/-- The loops of the calls have fuel enough: more of it changes nothing. -/
theorem loops_end (eager text : Bool) (n : ℕ) (h : Open cfg answers log p) :
    refilling (headersOutcome cfg) (p.input.length + 2 + n) p =
        refilling (headersOutcome cfg) (p.input.length + 2) p ∧
      refilling (scan cfg F hvalid eager) (p.input.length + 2 + n) p =
        refilling (scan cfg F hvalid eager) (p.input.length + 2) p ∧
      refilling (fun window eof => Window.readWindow cfg F window hvalid text eof)
          (p.input.length + 2 + n) p =
        refilling (fun window eof => Window.readWindow cfg F window hvalid text eof)
          (p.input.length + 2) p := by
  have hs := Dialect.sound_of_valid hvalid
  have hasks : p.asks < p.input.length + 2 := by
    unfold asks
    split_ifs
    · exact Nat.succ_pos _
    · exact Nat.lt_succ_self _
  induction n with
  | zero => exact ⟨rfl, rfl, rfl⟩
  | succ n ih =>
    have hfuel : p.asks < p.input.length + 2 + n := Nat.lt_add_right n hasks
    refine ⟨Eq.trans ?_ ih.1, Eq.trans ?_ ih.2.1, Eq.trans ?_ ih.2.2⟩
    · exact refilling_fuel (fun _ eof _ hstanding => headersOutcome_calls hs eof hstanding)
        (headersOutcome_closing hvalid) _ p h hfuel
    · exact refilling_fuel (fun _ eof _ hstanding => scan_calls hvalid hF eager eof hstanding)
        (scan_closing hvalid eager) _ p h hfuel
    · exact refilling_fuel (fun _ eof _ hstanding => Window.readWindow_goes hvalid hF text eof hstanding)
        (readWindow_closing hvalid text) _ p h hfuel

/-! ## Runs -/

omit hF

/-- A parser that has failed stays where it is. -/
theorem Op.run_failed (op : Op) (hfailed : p.failed = true) :
    op.run cfg F hvalid p = .error (.window (.fault (.error .parserFailed p.location))) p := by
  have hcheck : checkFailed p = .error (.window (.fault (.error .parserFailed p.location))) p := if_pos hfailed
  have hensure : ensureHeaders cfg p = .error (.window (.fault (.error .parserFailed p.location))) p :=
    bind_error hcheck
  have hsettle : settleHeaders cfg p = .error (.window (.fault (.error .parserFailed p.location))) p := by
    unfold settleHeaders
    rw [get_bind, hfailed, Bool.or_true, if_pos rfl]
    exact hensure
  cases op with
  | nextLine view => exact bind_error (bind_error hsettle)
  | readByteRecord => exact bind_error hensure
  | readTextRecord => exact bind_error hsettle

omit hvalid

/-- A run up to here: the records of the log were passed, and unless the parser has failed its window
    is the rest of what it has read. -/
structure Kept (cfg : ParserSettings) (answers : List Answer) (log : List (ℕ × ℕ)) (p : IoParser) :
    Prop where
  opened : p.failed = false → Open cfg answers log p
  tiles : ∃ hi, Tiles 0 log hi ∧ hi ≤ (answers.flatMap Answer.given).length

theorem Open.kept (h : Open cfg answers log p) : Kept cfg answers log p := by
  refine ⟨fun _ => h, _, h.streamed.tiles, ?_⟩
  have hlength := h.streamed.length_window
  have hinside := h.streamed.standing.inside
  have htaken : (p.taken answers).length ≤ (answers.flatMap Answer.given).length := by
    have hsplit : p.taken answers ++ (answers.drop (answers.length - p.input.length)).flatMap Answer.given =
        answers.flatMap Answer.given := by
      unfold taken
      rw [← List.flatMap_append, List.take_append_drop]
    rw [← hsplit, List.length_append]
    exact Nat.le_add_right _ _
  omega

theorem fromConfig_kept : Kept cfg answers [] (fromConfig cfg answers) := by
  obtain ⟨hstanding, hbase, hlocation, hindex, hresume⟩ := @fromConfigWindowed_stands cfg
  have htaken : taken answers (fromConfig cfg answers) = [] := by
    unfold taken
    show (answers.take (answers.length - answers.length)).flatMap Answer.given = []
    rw [Nat.sub_self, List.take_zero, List.flatMap_nil]
  refine Open.kept ⟨List.suffix_refl _, ⟨?_, Nat.zero_le _, hstanding, hbase, ?_, hindex⟩, ?_⟩
  · rw [htaken]
    rfl
  · exact Nat.zero_le _
  · show Inside [] (WindowEngine.fromConfigWindowed cfg).resume
    rw [hresume]
    exact .new

include hvalid hF

/-- One call keeps what holds of a run. -/
theorem Op.run_keeps (op : Op) (h : Kept cfg answers log p) :
    Ends (fun fault p' => fault.panics = false → p'.failed = true ∧ Kept cfg answers log p')
      (fun seen p' => ∃ more, Kept cfg answers (log ++ more) p' ∧ Returned log more seen)
      (op.run cfg F hvalid p) := by
  rcases hfailed : p.failed with _ | _
  · refine (Op.run_goes hvalid hF op (h.opened hfailed)).mono (fun fault p' h' hcalm => ?_) ?_
    · have hstopped : p'.failed = true := h'.resolve_right fun hpanics => by
        rw [hcalm] at hpanics
        cases hpanics
      exact ⟨hstopped, fun hnot => absurd hstopped (by rw [hnot]; exact Bool.false_ne_true), h.tiles⟩
    · rintro seen p' ⟨more, hopen, hseen⟩
      exact ⟨more, hopen.kept, hseen⟩
  · rw [Op.run_failed hvalid op hfailed]
    exact fun _ => ⟨hfailed, h⟩

theorem run_keeps (ops : List Op) : ∀ {log : List (ℕ × ℕ)} {p p' : IoParser}
    {outcomes : List (Except IoFault (Option StreamRecord))}, Kept cfg answers log p →
      run cfg F hvalid ops p = some (outcomes, p') →
        ∃ more, Kept cfg answers (log ++ more) p' ∧ New log more (returned outcomes) := by
  induction ops with
  | nil =>
    intro log p p' outcomes h hrun
    obtain ⟨rfl, rfl⟩ := Prod.mk.inj (Option.some.inj hrun)
    exact ⟨[], by rwa [List.append_nil], .nil⟩
  | cons op ops ih =>
    intro log p p' outcomes h hrun
    have hop := Op.run_keeps hvalid hF op h
    rw [run] at hrun
    rcases hresult : op.run cfg F hvalid p with ⟨first, p₁⟩ | ⟨fault, p₁⟩
    · rw [hresult] at hop hrun
      obtain ⟨more, hkept, hfirst⟩ := hop
      dsimp only at hrun
      rw [Option.bind_eq_bind, Option.bind_eq_some_iff] at hrun
      obtain ⟨⟨rest, p₂⟩, hrest, hrun⟩ := hrun
      obtain ⟨rfl, rfl⟩ := Prod.mk.inj (Option.some.inj hrun)
      obtain ⟨more', hkept', hseen⟩ := ih hkept hrest
      exact ⟨more ++ more', by rwa [← List.append_assoc], hfirst.new.append hseen⟩
    · rw [hresult] at hop hrun
      dsimp only at hrun
      split_ifs at hrun with hpanics
      rw [Option.bind_eq_bind, Option.bind_eq_some_iff] at hrun
      obtain ⟨⟨rest, p₂⟩, hrest, hrun⟩ := hrun
      obtain ⟨rfl, rfl⟩ := Prod.mk.inj (Option.some.inj hrun)
      exact @ih _ _ _ rest (hop (Bool.eq_false_of_not_eq_true hpanics)).2 hrest

/-- **A stream that is read**, however the reader cuts it, whatever it interrupts, and whatever is
    asked of the parser, with one view of a line at most: the records that are returned are pieces of the stream, one behind the
    other, each under the number of the records in front of it; and until the parser fails its
    window is the rest of what was read, and its location has the byte, the line and the record
    that the stream has there. -/
theorem run_reads (ops : List Op) {outcomes : List (Except IoFault (Option StreamRecord))}
    (hrun : run cfg F hvalid ops (fromConfig cfg answers) = some (outcomes, p)) : ∃ log,
      (∃ hi, Tiles 0 log hi ∧ hi ≤ (answers.flatMap Answer.given).length) ∧
      (∀ r ∈ returned outcomes, log[r.range.2.2]? = some (r.range.1, r.range.2.1)) ∧
      ((returned outcomes).Pairwise fun r r' =>
        r.range.2.2 < r'.range.2.2 ∧ r.range.2.1 ≤ r'.range.1) ∧
      (p.failed = false →
        p.input <:+ answers ∧
        p.window = (p.taken answers).drop p.consumed ∧
        p.location.byte ≤ (p.taken answers).length ∧
        Tiles 0 log p.location.byte ∧
        p.location.line = 1 + linesBefore (p.taken answers) p.location.byte ∧
        p.location.record = log.length) := by
  obtain ⟨log, hkept, hseen⟩ := run_keeps hvalid hF ops fromConfig_kept hrun
  obtain ⟨hi, htiles, hle⟩ := hkept.tiles
  refine ⟨log, ⟨hi, htiles, hle⟩, hseen.listed, hseen.before htiles, fun hcalm => ?_⟩
  obtain ⟨hinput, hstreamed, -⟩ := hkept.opened hcalm
  have hinside := hstreamed.standing.inside
  have hlength := hstreamed.length_window
  refine ⟨hinput, hstreamed.rest, ?_, hstreamed.tiles, hstreamed.location, hstreamed.records⟩
  show p.consumed + p.core.location ≤ (p.taken answers).length
  omega

omit hF

/-- What the calls on a parser that has failed return. -/
def stopped (p : IoParser) : Except IoFault (Option StreamRecord) :=
  .error (.window (.fault (.error .parserFailed p.location)))

theorem run_of_failed (hfailed : p.failed = true) (ops : List Op) :
    run cfg F hvalid ops p = some (List.replicate ops.length p.stopped, p) := by
  induction ops with
  | nil => rfl
  | cons op ops ih =>
    rw [run, Op.run_failed hvalid op hfailed]
    show (run cfg F hvalid ops p).bind _ = _
    rw [ih]
    rfl

include hF

theorem Kept.stops (ops : List Op) : ∀ {log : List (ℕ × ℕ)} {p p' : IoParser}
    {outcomes : List (Except IoFault (Option StreamRecord))}, Kept cfg answers log p →
      run cfg F hvalid ops p = some (outcomes, p') → ∃ seen : List (Option StreamRecord),
        outcomes = seen.map .ok ∨ p'.isDone = true ∧
          ∃ fault count, outcomes = seen.map .ok ++ .error fault :: List.replicate count p'.stopped := by
  induction ops with
  | nil =>
    intro log p p' outcomes h hrun
    obtain ⟨rfl, rfl⟩ := Prod.mk.inj (Option.some.inj hrun)
    exact ⟨[], Or.inl rfl⟩
  | cons op ops ih =>
    intro log p p' outcomes h hrun
    have hop := Op.run_keeps hvalid hF op h
    rw [run] at hrun
    rcases hresult : op.run cfg F hvalid p with ⟨first, p₁⟩ | ⟨fault, p₁⟩
    · rw [hresult] at hop hrun
      obtain ⟨more, hkept, -⟩ := hop
      dsimp only at hrun
      rw [Option.bind_eq_bind, Option.bind_eq_some_iff] at hrun
      obtain ⟨⟨rest, p₂⟩, hrest, hrun⟩ := hrun
      obtain ⟨rfl, rfl⟩ := Prod.mk.inj (Option.some.inj hrun)
      obtain ⟨seen, rfl | ⟨hdone, fault, count, rfl⟩⟩ := ih hkept hrest
      · exact ⟨first :: seen, Or.inl rfl⟩
      · exact ⟨first :: seen, Or.inr ⟨hdone, fault, count, rfl⟩⟩
    · rw [hresult] at hop hrun
      dsimp only at hrun
      split_ifs at hrun with hpanics
      have hfailed : p₁.failed = true := (hop (Bool.eq_false_of_not_eq_true hpanics)).1
      rw [run_of_failed hvalid hfailed] at hrun
      obtain ⟨rfl, rfl⟩ := Prod.mk.inj (Option.some.inj hrun)
      refine ⟨[], Or.inr ⟨?_, fault, ops.length, rfl⟩⟩
      unfold isDone
      rw [hfailed]
      rfl

/-- **A parser that has failed yields nothing more**: the calls of a run, with one view of a line at
    most, succeed up to the first that fails, and all behind it fail, with the location where the
    parser has stopped. -/
theorem run_stops (ops : List Op) {outcomes : List (Except IoFault (Option StreamRecord))}
    (hrun : run cfg F hvalid ops (fromConfig cfg answers) = some (outcomes, p)) :
    ∃ seen : List (Option StreamRecord), outcomes = seen.map .ok ∨ p.isDone = true ∧
      ∃ fault count, outcomes = seen.map .ok ++ .error fault :: List.replicate count p.stopped :=
  Kept.stops hvalid hF ops fromConfig_kept hrun

end calls

/-- `a` and `bc`, cut within the last record, behind a read that was interrupted. -/
def cutReads : List Answer := [.bytes [97, 10, 98], .interrupted, .bytes [99]]

/-- A record that is cut in two is read once, behind the one in front of it. -/
theorem run_reads_cut : ∃ outcomes p log,
    run .plain none ParserSettings.plain_valid [.readTextRecord, .nextLine (some .record)]
      (fromConfig .plain cutReads) = some (outcomes, p) ∧
    (returned outcomes).map (·.range) = [(0, 2, 0), (2, 4, 1)] ∧
    log[1]? = some (2, 4) ∧ Tiles 0 log 4 := by
  have hresult : (run .plain none ParserSettings.plain_valid [.readTextRecord, .nextLine (some .record)]
      (fromConfig .plain cutReads)).map (fun r =>
        ((returned r.1).map (·.range), r.2.failed, r.2.location.byte)) =
      some ([(0, 2, 0), (2, 4, 1)], false, 4) := by decide +kernel
  obtain ⟨⟨outcomes, p⟩, hrun, hs⟩ := Option.map_eq_some_iff.mp hresult
  obtain ⟨hranges, hcalm, hbyte⟩ : _ ∧ _ ∧ _ := by simpa only [Prod.mk.injEq] using hs
  obtain ⟨log, -, hlisted, -, hstands⟩ :=
    run_reads ParserSettings.plain_valid (ParserSettings.follows_none _) _ hrun
  obtain ⟨-, -, -, htiles, -⟩ := hstands hcalm
  refine ⟨outcomes, p, log, hrun, hranges, ?_, hbyte ▸ htiles⟩
  obtain ⟨r, hr, hrange⟩ : ∃ r ∈ returned outcomes, r.range = (2, 4, 1) := by
    rw [← List.mem_map, hranges]
    decide
  have hat := hlisted r hr
  rwa [hrange] at hat

/-- A read that fails in the second record. -/
def failedReads : List Answer := [.bytes [97, 10, 98], .failed, .bytes [99]]

/-- The record in front of the failed read stays, and the rest of the stream is not read. -/
theorem run_stops_failed : ∃ outcomes p fault count,
    run .plain none ParserSettings.plain_valid [.readByteRecord, .readTextRecord, .readByteRecord]
      (fromConfig .plain failedReads) = some (outcomes, p) ∧
    (returned outcomes).map (·.range) = [(0, 2, 0)] ∧ p.isDone = true ∧
    ∃ seen : List (Option StreamRecord),
      outcomes = seen.map .ok ++ .error fault :: List.replicate count p.stopped := by
  have hresult : (run .plain none ParserSettings.plain_valid
      [.readByteRecord, .readTextRecord, .readByteRecord] (fromConfig .plain failedReads)).map
      (fun r => ((returned r.1).map (·.range), r.1.map (·.isOk))) =
      some ([(0, 2, 0)], [true, false, false]) := by decide +kernel
  obtain ⟨⟨outcomes, p⟩, hrun, hs⟩ := Option.map_eq_some_iff.mp hresult
  obtain ⟨hranges, hoks⟩ : _ ∧ _ := by simpa only [Prod.mk.injEq] using hs
  obtain ⟨seen, hall | ⟨hdone, fault, count, hfailed⟩⟩ :=
    run_stops ParserSettings.plain_valid (ParserSettings.follows_none _) _ hrun
  · have hmem : false ∈ outcomes.map (·.isOk) := by
      rw [hoks]
      decide
    rw [hall, List.map_map, List.mem_map] at hmem
    obtain ⟨s, -, hs⟩ := hmem
    cases hs
  · exact ⟨outcomes, p, fault, count, hrun, hranges, hdone, seen, hfailed⟩

end IoParser

end Coseva
