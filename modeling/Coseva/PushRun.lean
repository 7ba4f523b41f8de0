/-
  Coseva — the parser of a stream over whole runs (`coseva/src/push.rs`): however the stream is cut
  into chunks and whatever is read of each, no byte is lost or taken twice.

  * `Lent`: the chunk in its stream, absorbed or read in place;
  * `advance_goes`, `Op.run_goes`: the calls on a chunk;
  * `settle_goes`: what a chunk leaves behind;
  * `run_streams`: a run of loans.
-/
import Coseva.Lib.Blind
import Coseva.PushParser
import Coseva.StreamWindow

namespace Coseva

open Run Engine

namespace Chunk

variable {cfg : ParserSettings} {F : CsvFormat} {before : Bytes} {log : List (ℕ × ℕ)} {c c' : Chunk}

/-- The bytes of a chunk that are in the stream: what was absorbed, or all of them. -/
def lentBytes (c : Chunk) : Bytes := if c.borrowed then c.input else c.input.take c.absorbed

/-- A chunk behind the bytes that were lent before it. -/
structure Lent (cfg : ParserSettings) (before : Bytes) (log : List (ℕ × ℕ)) (c : Chunk) : Prop where
  streamed : Streamed cfg (before ++ c.lentBytes) c.buffer c.consumed log c.core.toEngine
  absorbed : c.absorbed ≤ c.input.length
  region : c.borrowed = true →
    c.region = c.input.drop c.absorbed ∧ c.consumed = before.length + c.absorbed
  direct : c.directText = true → c.borrowed = true

/-- A call that fails has poisoned the parser, unless it panics. -/
def Poisoned (fault : WindowFault) (c : Chunk) : Prop :=
  c.failed = true ∨ fault.panics = true

/-- The chunk has been read on, over further records. -/
def GoesOn (cfg : ParserSettings) (before : Bytes) (log : List (ℕ × ℕ)) (c : Chunk) : Prop :=
  ∃ more, Lent cfg before (log ++ more) c

/-- A call that may have returned a record, which is new. -/
def Returns (cfg : ParserSettings) (before : Bytes) (log : List (ℕ × ℕ)) (seen : Option StreamRecord)
    (c : Chunk) : Prop :=
  ∃ more, Lent cfg before (log ++ more) c ∧ Returned log more seen

theorem Lent.goesOn (h : Lent cfg before log c) : GoesOn cfg before log c :=
  ⟨[], by rwa [List.append_nil]⟩

theorem GoesOn.trans {more : List (ℕ × ℕ)} (h : GoesOn cfg before (log ++ more) c) :
    GoesOn cfg before log c := by
  obtain ⟨rest, hlent⟩ := h
  exact ⟨more ++ rest, by rwa [← List.append_assoc]⟩

theorem Returns.trans {more : List (ℕ × ℕ)} {seen : Option StreamRecord}
    (h : Returns cfg before (log ++ more) seen c) : Returns cfg before log seen c := by
  obtain ⟨rest, hlent, hseen⟩ := h
  exact ⟨more ++ rest, by rwa [← List.append_assoc], hseen.trans⟩

/-- The engine has gone on in the buffer. -/
theorem Lent.went {low : ℕ} {pieces : List (ℕ × ℕ)} {core : WindowEngine} (h : Lent cfg before log c)
    (hwent : Went cfg c.buffer low c.core.toEngine pieces core.toEngine) :
    Lent cfg before (log ++ Tiles.moved c.consumed pieces) { c with core } :=
  ⟨h.streamed.went hwent, h.absorbed, h.region, h.direct⟩

/-- Behind a record that was read. -/
theorem Lent.viewed {low : ℕ} {pieces : List (ℕ × ℕ)} {seen : StreamRecord} {core : WindowEngine}
    (h : Lent cfg before log c)
    (hviewed : Window.Viewed cfg c.buffer low c.core.toEngine pieces seen.range core) :
    Returns cfg before log (some (seen.rebase c.consumed)) { c with core } :=
  ⟨_, h.went hviewed.went, h.streamed.viewed hviewed⟩

/-! ## Calls on the engine -/

/-- All but the engine and the flags. -/
structure SameLoan (c c' : Chunk) : Prop where
  window : c'.window = c.window
  consumed : c'.consumed = c.consumed
  finished : c'.finished = c.finished
  input : c'.input = c.input
  absorbed : c'.absorbed = c.absorbed
  borrowed : c'.borrowed = c.borrowed
  region : c'.region = c.region
  directText : c'.directText = c.directText

theorem SameLoan.buffer (h : SameLoan c c') : c'.buffer = c.buffer := by
  unfold Chunk.buffer
  rw [h.borrowed, h.region, h.window]

theorem Lent.same (h : Lent cfg before log c) (hsame : SameLoan c c')
    (hcore : c'.core.toEngine = c.core.toEngine) : Lent cfg before log c' := by
  have hlent : c'.lentBytes = c.lentBytes := by
    unfold lentBytes
    rw [hsame.borrowed, hsame.input, hsame.absorbed]
  refine ⟨?_, ?_, fun hborrowed => ?_, fun hdirect => ?_⟩
  · rw [hlent, hsame.buffer, hsame.consumed, hcore]
    exact h.streamed
  · rw [hsame.absorbed, hsame.input]
    exact h.absorbed
  · rw [hsame.region, hsame.input, hsame.absorbed, hsame.consumed]
    exact h.region (hsame.borrowed ▸ hborrowed)
  · rw [hsame.borrowed]
    exact h.direct (hsame.directText ▸ hdirect)

theorem lend_ends {α : Type} {m : Push α} {E : WindowFault → Chunk → Prop} {Q : α → Chunk → Prop}
    (h : Ends (fun fault p => E fault { c with toPushParser := p })
      (fun a p => Q a { c with toPushParser := p }) (m c.toPushParser)) : Ends E Q (lend m c) := by
  unfold lend
  rcases hrun : m c.toPushParser with ⟨a, p⟩ | ⟨fault, p⟩
  · rw [hrun] at h
    exact h
  · rw [hrun] at h
    exact h

/-- A call on the engine, whose errors poison the parser. -/
theorem failing_ends {α : Type} {rebase : WindowFault → WindowFault} {m : Window α}
    {Q : α → WindowEngine → Prop} {p : PushParser} (h : Ends (fun _ _ => True) Q (m p.core)) :
    Ends (fun _ p' => p'.failed = true) (fun a p' => ∃ core, p' = { p with core } ∧ Q a core)
      (PushParser.failing rebase m p) := by
  unfold PushParser.failing
  rcases hrun : m p.core with ⟨a, core⟩ | ⟨fault, core⟩
  · rw [hrun] at h
    exact ⟨core, rfl, h⟩
  · exact rfl

theorem lend_failing {α : Type} {rebase : WindowFault → WindowFault} {m : Window α}
    {Q : α → WindowEngine → Prop} (h : Ends (fun _ _ => True) Q (m c.core)) :
    Ends Poisoned (fun a c' => SameLoan c c' ∧ Q a c'.core)
      (lend (PushParser.failing rebase m) c) := by
  refine lend_ends ((failing_ends h).mono (fun _ _ hfailed => Or.inl hfailed) ?_)
  rintro a _ ⟨core, rfl, hread⟩
  exact ⟨⟨rfl, rfl, rfl, rfl, rfl, rfl, rfl, rfl⟩, hread⟩

theorem noteAdvance_ends {α : Type} {m : Window (Advance α)} {Q : Advance α → WindowEngine → Prop}
    {p : PushParser} (h : Ends (fun _ _ => True) Q (m p.core)) :
    Ends (fun _ p' => p'.failed = true)
      (fun r p' => ∃ core headersResolved, p' = { p with core, headersResolved } ∧ Q r core)
      (PushParser.noteAdvance m p) := by
  unfold PushParser.noteAdvance
  rw [get_bind]
  refine (failing_ends h).bind ?_
  rintro r _ ⟨core, rfl, hread⟩
  cases r with
  | record a => exact ⟨core, true, rfl, hread⟩
  | done => exact ⟨core, true, rfl, hread⟩
  | needMore => exact ⟨core, p.headersResolved, rfl, hread⟩

theorem lend_noteAdvance {α : Type} {m : Window (Advance α)} {Q : Advance α → WindowEngine → Prop}
    (h : Ends (fun _ _ => True) Q (m c.core)) :
    Ends Poisoned (fun r c' => SameLoan c c' ∧ Q r c'.core) (lend (PushParser.noteAdvance m) c) := by
  refine lend_ends ((noteAdvance_ends h).mono (fun _ _ hfailed => Or.inl hfailed) ?_)
  rintro r _ ⟨core, headersResolved, rfl, hread⟩
  exact ⟨⟨rfl, rfl, rfl, rfl, rfl, rfl, rfl, rfl⟩, hread⟩

theorem lend_checkFailedIn (buffer : Bytes) : Ends Poisoned (fun _ c' => c' = c)
    (lend (PushParser.checkFailedIn buffer) c) := by
  refine lend_ends ?_
  unfold PushParser.checkFailedIn
  by_cases hfailed : c.failed = true
  · rw [if_pos hfailed]
    rcases c.deferred with _ | fault
    · exact Or.inl hfailed
    · exact Or.inl hfailed
  · rw [if_neg hfailed]
    exact rfl

theorem lend_resolveBomIn (atEof : Bool) (h : Lent cfg before log c) :
    Ends Poisoned (fun _ c' => SameLoan c c' ∧ Lent cfg before log c')
      (lend (PushParser.resolveBomIn cfg c.buffer atEof) c) := by
  refine lend_ends ?_
  have hkept : ∀ bomResolved, SameLoan c { c with bomResolved } ∧ Lent cfg before log { c with bomResolved } :=
    fun _ => ⟨⟨rfl, rfl, rfl, rfl, rfl, rfl, rfl, rfl⟩, h.streamed, h.absorbed, h.region, h.direct⟩
  unfold PushParser.resolveBomIn
  rw [get_bind]
  split_ifs
  · exact hkept c.bomResolved
  · exact hkept c.bomResolved
  · exact hkept true
  · exact hkept true
  · exact Or.inl rfl
  · have hlent := h.went (skipDetectedBom_went h.streamed.standing)
    have hnil : log ++ Tiles.moved c.consumed [] = log := List.append_nil log
    rw [hnil] at hlent
    exact ⟨⟨rfl, rfl, rfl, rfl, rfl, rfl, rfl, rfl⟩, hlent.streamed, hlent.absorbed, hlent.region, hlent.direct⟩

/-! ## Moving to a record -/

/-- The chunk is on a record that was not looked at yet. -/
def OnRecord (cfg : ParserSettings) (before : Bytes) (log : List (ℕ × ℕ)) (c : Chunk) : Prop :=
  ∃ more core low pieces, Lent cfg before (log ++ more) { c with core } ∧ low ≤ core.location ∧
    Window.Reached cfg c.buffer low core.toEngine pieces c.core

/-- Behind a call of `advance`. -/
def Advanced (cfg : ParserSettings) (before : Bytes) (log : List (ℕ × ℕ)) : Bool → Chunk → Prop
  | true, c => OnRecord cfg before log c
  | false, c => GoesOn cfg before log c

theorem Advanced.trans {more : List (ℕ × ℕ)} {found : Bool}
    (h : Advanced cfg before (log ++ more) found c) : Advanced cfg before log found c := by
  cases found with
  | true =>
    obtain ⟨rest, core, low, pieces, hlent, hlow, hreached⟩ := h
    rw [List.append_assoc] at hlent
    exact ⟨more ++ rest, core, low, pieces, hlent, hlow, hreached⟩
  | false => exact GoesOn.trans h

/-- The engine has gone on, and the rest of the chunk is the same. -/
theorem Lent.gone {low : ℕ} {pieces : List (ℕ × ℕ)} (h : Lent cfg before log c) (hsame : SameLoan c c')
    (hwent : Went cfg c.buffer low c.core.toEngine pieces c'.core.toEngine) :
    GoesOn cfg before log c' := by
  have hlent : Lent cfg before _ { c with core := c'.core } := h.went hwent
  refine ⟨_, @Lent.same _ _ _ _ c' hlent ?_ rfl⟩
  exact ⟨hsame.window, hsame.consumed, hsame.finished, hsame.input, hsame.absorbed, hsame.borrowed,
    hsame.region, hsame.directText⟩

/-- What `advance_window` leaves of a chunk. -/
theorem Lent.advanced {r : Advance Unit} (h : Lent cfg before log c) (hsame : SameLoan c c')
    (hcalled : Window.Called cfg c.buffer c.core (fun _ w' => ∃ pieces,
      Window.Reached cfg c.buffer c.core.location c.core.toEngine pieces w') r c'.core) :
    Advanced cfg before log (r == .record ()) c' := by
  cases r with
  | record a =>
    obtain ⟨pieces, hreached⟩ := hcalled
    refine ⟨[], c.core, c.core.location, pieces, ?_, Nat.le_refl _, hsame.buffer.symm ▸ hreached⟩
    rw [List.append_nil]
    exact @Lent.same _ _ _ _ { c' with core := c.core } h ⟨hsame.window, hsame.consumed, hsame.finished,
      hsame.input, hsame.absorbed, hsame.borrowed, hsame.region, hsame.directText⟩ rfl
  | done =>
    obtain ⟨pieces, hwent⟩ := hcalled
    exact h.gone hsame hwent
  | needMore => exact h.gone hsame hcalled.1

section advancing

variable (hvalid : cfg.dialect.invalidity = none) (hF : cfg.Follows F)

include hF

theorem advanceBorrowed_goes (h : Lent cfg before log c) (hborrowed : c.borrowed = true) :
    Ends Poisoned (fun found c' => Advanced cfg before log found c')
      (advanceBorrowed cfg F hvalid c) := by
  have hregion : c.region = c.buffer := (if_pos hborrowed).symm
  unfold advanceBorrowed
  rw [get_bind, hregion]
  refine (lend_checkFailedIn c.buffer).bind fun _ c₀ h₀ => ?_
  rw [h₀]
  refine (lend_resolveBomIn c.finished h).bind fun _ c₁ h₁ => ?_
  obtain ⟨hsame, hlent⟩ := h₁
  have hcalled := @Window.advanceWindow_goes _ _ c₁.buffer _ hvalid hF c.finished hlent.streamed.standing
  rw [← hsame.buffer]
  refine (lend_noteAdvance hcalled).bind fun r c₂ h₂ => ?_
  exact hlent.advanced h₂.1 h₂.2

theorem windowRound_goes (atEof : Bool) (h : Lent cfg before log c) (hborrowed : c.borrowed = false) :
    Ends Poisoned (fun found c' => SameLoan c c' ∧ Advanced cfg before log found c')
      (windowRound cfg F hvalid atEof c) := by
  have hwindow : c.window = c.buffer := (if_neg (by rw [hborrowed]; exact Bool.false_ne_true)).symm
  unfold windowRound
  rw [get_bind]
  split_ifs
  · exact ⟨⟨rfl, rfl, rfl, rfl, rfl, rfl, rfl, rfl⟩, h.goesOn⟩
  have hcalled := @Window.advanceWindow_goes _ _ c.buffer _ hvalid hF atEof h.streamed.standing
  have hadvance : Ends Poisoned (fun r c' => SameLoan c c' ∧ Advanced cfg before log (r == .record ()) c')
      (lend (PushParser.windowAdvance cfg F hvalid atEof) c) := by
    refine lend_ends ?_
    unfold PushParser.windowAdvance
    rw [get_bind, hwindow]
    refine Ends.bind ((noteAdvance_ends hcalled).mono (fun _ _ hfailed => Or.inl hfailed) fun _ _ h => h) ?_
    rintro r _ ⟨core, headersResolved, rfl, hread⟩
    have hsame : ∀ needMoreLen, SameLoan c { c with core, headersResolved, needMoreLen } :=
      fun _ => ⟨rfl, rfl, rfl, rfl, rfl, rfl, rfl, rfl⟩
    cases r with
    | record a => exact ⟨hsame c.needMoreLen, h.advanced (hsame c.needMoreLen) hread⟩
    | done => exact ⟨hsame c.needMoreLen, h.advanced (hsame c.needMoreLen) hread⟩
    | needMore =>
      dsimp only
      split_ifs
      · exact ⟨hsame c.needMoreLen, h.advanced (hsame c.needMoreLen) hread⟩
      · exact ⟨hsame _, h.advanced (hsame _) hread⟩
  exact hadvance.bind fun _ _ h => h

omit hF

/-- Where the next absorption ends: within the chunk. -/
theorem absorption_le (room : ℕ) : (c.absorption cfg room).1 ≤ (c.input.drop c.absorbed).length := by
  unfold absorption
  dsimp only
  refine Nat.le_trans (Nat.min_le_left _ _) ?_
  split
  · exact Nat.min_le_right _ _
  · exact Nat.le_refl _

/-- More of the chunk is copied into the window. -/
theorem Lent.absorb {count : ℕ} (h : Lent cfg before log c) (hborrowed : c.borrowed = false)
    (hcount : count ≤ (c.input.drop c.absorbed).length) (stride : ℕ) :
    Lent cfg before log { c with
      stride
      window := c.window ++ (c.input.drop c.absorbed).take count
      absorbed := c.absorbed + count } := by
  obtain ⟨hstreamed, habsorbed, -, hdirect⟩ := h
  have hnot : ¬c.borrowed = true := by
    rw [hborrowed]
    exact Bool.false_ne_true
  unfold lentBytes Chunk.buffer at hstreamed
  rw [if_neg hnot, if_neg hnot] at hstreamed
  rw [List.length_drop] at hcount
  refine ⟨?_, ?_, fun hborrowed' => absurd hborrowed' hnot, hdirect⟩
  · unfold lentBytes Chunk.buffer
    rw [if_neg hnot, if_neg hnot]
    show Streamed cfg (before ++ c.input.take (c.absorbed + count)) _ c.consumed log c.core.toEngine
    rw [List.take_add, ← List.append_assoc]
    exact hstreamed.grow _
  · show c.absorbed + count ≤ c.input.length
    omega

theorem oversizedRecordError_ends {α : Type} : Ends (fun _ c' => c'.failed = true) (fun _ _ => False)
    (lend (PushParser.oversizedRecordError (α := α) cfg F hvalid) c) := by
  refine lend_ends ?_
  unfold PushParser.oversizedRecordError
  rw [get_bind]
  exact (failing_ends (Ends.somehow _)).bind fun _ _ _ => rfl

theorem absorb_goes (h : Lent cfg before log c) (hborrowed : c.borrowed = false) :
    Ends (fun _ c' => c'.failed = true) (fun _ c' => Lent cfg before log c' ∧ c'.borrowed = false)
      (absorb cfg F hvalid c) := by
  unfold absorb
  rw [get_bind]
  dsimp only
  split_ifs with hdrained hroom
  · exact ⟨h, hborrowed⟩
  · exact (oversizedRecordError_ends hvalid).mono (fun _ _ h => h) fun _ _ h => h.elim
  · exact ⟨h.absorb hborrowed (absorption_le _) _, hborrowed⟩
  · exact ⟨h.absorb hborrowed (absorption_le _) _, hborrowed⟩

/-- **The window is given up** for the chunk, when all of its tail is in the chunk. -/
theorem Lent.enterBorrowed (h : Lent cfg before log c) (hborrowed : c.borrowed = false)
    (hpending : c.pendingWindowBytes ≤ c.absorbed) : Lent cfg before log c.enterBorrowed := by
  obtain ⟨hstreamed, habsorbed, -, hdirect⟩ := h
  have hnot : ¬c.borrowed = true := by
    rw [hborrowed]
    exact Bool.false_ne_true
  unfold lentBytes Chunk.buffer at hstreamed
  rw [if_neg hnot, if_neg hnot] at hstreamed
  have hinside : c.core.location ≤ c.window.length := hstreamed.standing.inside
  have hlength := hstreamed.length_window
  rw [List.length_append, List.length_take, Nat.min_eq_left habsorbed] at hlength
  unfold pendingWindowBytes at hpending
  have hparsed : c.window.length - (c.window.length - c.core.location) = c.core.location := by omega
  have hconsumed : c.consumed + c.core.location =
      before.length + (c.absorbed - (c.window.length - c.core.location)) := by omega
  have hshifted := (hstreamed.release.shift hinside fun _ hstart => by cases hstart).grow
    (c.input.drop c.absorbed)
  rw [List.append_assoc, List.take_append_drop] at hshifted
  -- what is behind the cursor in the stream is what the chunk has behind it
  have hrest := hshifted.rest
  rw [hconsumed, List.drop_length_add_append] at hrest
  rw [hrest] at hshifted
  unfold Chunk.enterBorrowed pendingWindowBytes
  dsimp only
  rw [hparsed]
  refine ⟨hshifted, ?_, fun _ => ⟨rfl, hconsumed⟩, fun _ => rfl⟩
  show c.absorbed - (c.window.length - c.core.location) ≤ c.input.length
  omega

include hF

theorem advanceAbsorbing_goes (fuel : ℕ) : ∀ (c : Chunk) (log : List (ℕ × ℕ)), Lent cfg before log c →
    c.borrowed = false →
    Ends Poisoned (fun found c' => Advanced cfg before log found c')
      (advanceAbsorbing cfg F hvalid fuel c) := by
  induction fuel with
  | zero => exact fun _ _ _ _ => Or.inr rfl
  | succ fuel ih =>
    intro c log h hborrowed
    have hwindow : c.window = c.buffer :=
      (if_neg (by rw [hborrowed]; exact Bool.false_ne_true)).symm
    rw [advanceAbsorbing, get_bind]
    refine (lend_checkFailedIn c.window).bind fun _ c₀ h₀ => ?_
    rw [h₀, hwindow]
    refine (lend_resolveBomIn _ h).bind fun _ c₁ h₁ => ?_
    have hborrowed₁ : c₁.borrowed = false := h₁.1.borrowed.trans hborrowed
    refine (windowRound_goes hvalid hF _ h₁.2 hborrowed₁).bind fun found c₂ h₂ => ?_
    obtain ⟨hsame, hadvanced⟩ := h₂
    have hborrowed₂ : c₂.borrowed = false := hsame.borrowed.trans hborrowed₁
    cases found with
    | true => exact hadvanced
    | false =>
      obtain ⟨more, hlent⟩ := hadvanced
      rw [if_neg Bool.false_ne_true, get_bind]
      by_cases hpending : c₂.pendingWindowBytes ≤ c₂.absorbed
      · rw [if_pos hpending, set_bind]
        exact (advanceBorrowed_goes hvalid hF (hlent.enterBorrowed hborrowed₂ hpending) rfl).mono
          (fun _ _ h => h) fun _ _ h => h.trans
      rw [if_neg hpending]
      have habsorb : Ends Poisoned _ (absorb cfg F hvalid c₂) :=
        (absorb_goes hvalid hlent hborrowed₂).mono (fun _ _ hfailed => Or.inl hfailed) fun _ _ h => h
      refine habsorb.bind fun r c₃ h₃ => ?_
      obtain ⟨hlent₃, hborrowed₃⟩ := h₃
      have hagain := (ih c₃ _ hlent₃ hborrowed₃).mono (fun _ _ h => h) fun _ _ h => h.trans
      cases r with
      | drained => exact hlent₃.goesOn.trans
      | boundary => exact hagain
      | interior =>
        dsimp only
        split_ifs
        · exact hagain
        · exact ⟨more, hlent₃.streamed, hlent₃.absorbed, hlent₃.region, hlent₃.direct⟩

/-- **`advance`** goes on to a record of the chunk, or to its end. -/
theorem advance_goes (h : Lent cfg before log c) :
    Ends Poisoned (fun found c' => Advanced cfg before log found c') (advance cfg F hvalid c) := by
  unfold advance
  rw [get_bind]
  rcases hborrowed : c.borrowed with _ | _
  · exact advanceAbsorbing_goes hvalid hF _ c log h hborrowed
  · exact advanceBorrowed_goes hvalid hF h hborrowed

/-! ## Reading -/

omit hF

theorem Returns.same {seen : Option StreamRecord} (h : Returns cfg before log seen c) (hsame : SameLoan c c')
    (hcore : c'.core.toEngine = c.core.toEngine) : Returns cfg before log seen c' := by
  obtain ⟨more, hlent, hseen⟩ := h
  exact ⟨more, hlent.same hsame hcore, hseen⟩

/-- The direct path of text reads is no matter of the stream. -/
theorem Returns.directed {seen : Option StreamRecord} (h : Returns cfg before log seen c) (direct : Bool)
    {directText : Bool} (hdirect : directText = true → c.borrowed = true) :
    Returns cfg before log seen (if direct = true then { c with directText } else c) := by
  split_ifs
  · obtain ⟨more, hlent, hseen⟩ := h
    exact ⟨more, ⟨hlent.streamed, hlent.absorbed, hlent.region, hdirect⟩, hseen⟩
  · exact h

theorem GoesOn.returns (h : GoesOn cfg before log c) : Returns cfg before log none c := by
  obtain ⟨more, hlent⟩ := h
  exact ⟨more, hlent, .none⟩

/-- A record that is not looked at is settled by the next call. -/
theorem OnRecord.goesOn (h : OnRecord cfg before log c) : GoesOn cfg before log c := by
  obtain ⟨more, core, low, pieces, hlent, -, hreached⟩ := h
  obtain ⟨pieces', hwent⟩ := hreached.went
  have hgone : Lent cfg before _ c := @Lent.went _ _ _ { c with core } _ _ c.core hlent hwent
  exact ⟨more ++ Tiles.moved c.consumed pieces', by rw [← List.append_assoc]; exact hgone⟩

include hvalid hF

theorem read_goes (rebaseError : WindowFault → WindowFault) (view : Line.View)
    (h : OnRecord cfg before log c) :
    Ends Poisoned (fun seen c' => SameLoan c c' ∧ Returns cfg before log (some (seen.rebase c.consumed)) c')
      (lend (PushParser.failing rebaseError (view.read cfg F c.buffer)) c) := by
  obtain ⟨more, core, low, pieces, hlent, hlow, hreached⟩ := h
  have hread := view.read_goes hvalid hF hreached hlow
  refine (lend_failing hread).mono (fun _ _ h => h) fun seen c' h' => ?_
  obtain ⟨hsame, hviewed⟩ := h'
  have hreturns : Returns cfg before (log ++ more) _ { c with core := c'.core } := hlent.viewed hviewed
  refine ⟨hsame, hreturns.trans.same ?_ rfl⟩
  exact ⟨hsame.window, hsame.consumed, hsame.finished, hsame.input, hsame.absorbed, hsame.borrowed,
    hsame.region, hsame.directText⟩

theorem nextLine_goes (view : Option Line.View) (h : Lent cfg before log c) :
    Ends Poisoned (fun seen c' => Returns cfg before log seen c') (nextLine cfg F hvalid view c) := by
  unfold nextLine
  refine (advance_goes hvalid hF h).bind fun found c₁ hadvanced => ?_
  cases found with
  | false => exact hadvanced.returns
  | true =>
    have honRecord : OnRecord cfg before log c₁ := hadvanced
    rw [if_pos rfl, get_bind]
    rcases view with _ | view
    · exact honRecord.goesOn.returns
    · exact (read_goes hvalid hF _ view honRecord).bind fun _ _ h => h.2

theorem readAdvanced_goes (text : Bool) (h : Lent cfg before log c) :
    Ends Poisoned (fun seen c' => Returns cfg before log seen c')
      (readAdvanced cfg F hvalid text c) := by
  unfold readAdvanced
  refine (advance_goes hvalid hF h).bind fun found c₁ hadvanced => ?_
  cases found with
  | false => exact hadvanced.returns
  | true =>
    have honRecord : OnRecord cfg before log c₁ := hadvanced
    rw [if_pos rfl, get_bind]
    refine (read_goes hvalid hF id _ honRecord).bind fun seen c₂ h₂ => ?_
    rw [modify_bind]
    refine h₂.2.directed text fun hdirect => ?_
    simp only [Bool.and_eq_true] at hdirect
    exact hdirect.1.1.1

omit hvalid hF

/-- What `read_window_owned` and `read_window_text` leave of a chunk. -/
theorem Lent.read {r : Advance OwnedRecord} (h : Lent cfg before log c) (hsame : SameLoan c c')
    (hcalled : Window.Called cfg c.buffer c.core (fun record w' => ∃ pieces, Window.Viewed cfg c.buffer
      c.core.location c.core.toEngine pieces record.range w') r c'.core) :
    Returns cfg before log (readOutcome c.consumed r) c' := by
  cases r with
  | record record =>
    obtain ⟨pieces, hviewed⟩ := hcalled
    have hreturns : Returns cfg before log (some (StreamRecord.rebase c.consumed (.owned record)))
      { c with core := c'.core } := @Lent.viewed _ _ _ _ _ _ (.owned record) _ h hviewed
    exact hreturns.same ⟨hsame.window, hsame.consumed, hsame.finished, hsame.input, hsame.absorbed,
      hsame.borrowed, hsame.region, hsame.directText⟩ rfl
  | done =>
    obtain ⟨pieces, hwent⟩ := hcalled
    exact (h.gone hsame hwent).returns
  | needMore => exact (h.gone hsame hcalled.1).returns

include hvalid hF

theorem readBorrowed_goes (text : Bool) (h : Lent cfg before log c) (hborrowed : c.borrowed = true) :
    Ends Poisoned (fun seen c' => Returns cfg before log seen c')
      (readBorrowed cfg F hvalid text c) := by
  have hregion : c.region = c.buffer := (if_pos hborrowed).symm
  unfold readBorrowed
  rw [get_bind, hregion]
  refine (lend_checkFailedIn c.buffer).bind fun _ c₀ h₀ => ?_
  rw [h₀]
  refine (lend_resolveBomIn c.finished h).bind fun _ c₁ h₁ => ?_
  obtain ⟨hsame, hlent⟩ := h₁
  have hcalled := @Window.readWindow_goes _ _ c₁.buffer _ hvalid hF text c.finished
    hlent.streamed.standing
  rw [← hsame.buffer]
  refine (lend_noteAdvance hcalled).bind fun r c₂ h₂ => ?_
  have hreturns := hlent.read h₂.1 h₂.2
  rw [hsame.consumed] at hreturns
  rw [modify_bind]
  exact hreturns.directed _ fun _ => h₂.1.borrowed.trans (hsame.borrowed.trans hborrowed)

theorem readByteRecordInto_goes (h : Lent cfg before log c) :
    Ends Poisoned (fun seen c' => Returns cfg before log seen c')
      (readByteRecordInto cfg F hvalid c) := by
  unfold readByteRecordInto
  rw [get_bind]
  split_ifs with hborrowed
  · rw [Bool.and_eq_true] at hborrowed
    exact readBorrowed_goes hvalid hF false h hborrowed.1
  · exact readAdvanced_goes hvalid hF false h

theorem readTextRecordInto_goes (h : Lent cfg before log c) :
    Ends Poisoned (fun seen c' => Returns cfg before log seen c')
      (readTextRecordInto cfg F hvalid c) := by
  unfold readTextRecordInto
  rw [get_bind]
  split_ifs with hdirect hborrowed
  · have hregion : c.region = c.buffer := (if_pos (h.direct hdirect)).symm
    have hcalled := @Window.readWindow_goes _ _ c.buffer _ hvalid hF true c.finished
      h.streamed.standing
    rw [hregion]
    exact (lend_failing hcalled).bind fun r c₁ h₁ => h.read h₁.1 h₁.2
  · rw [Bool.and_eq_true] at hborrowed
    exact readBorrowed_goes hvalid hF true h hborrowed.1
  · exact readAdvanced_goes hvalid hF true h

/-- **A call on a chunk** returns a record of the stream under its number, if it returns one. -/
theorem Op.run_goes (op : Op) (h : Lent cfg before log c) :
    Ends Poisoned (fun seen c' => Returns cfg before log seen c') (op.run cfg F hvalid c) := by
  cases op with
  | nextLine view => exact nextLine_goes hvalid hF view h
  | readByteRecord => exact readByteRecordInto_goes hvalid hF h
  | readTextRecord => exact readTextRecordInto_goes hvalid hF h

/-! ## The bytes of a chunk -/

omit hvalid hF

/-- The calls do not change what a chunk was lent of. -/
abbrev KeepsInput (input : Bytes) {α : Type} (m : Lend α) : Prop :=
  Maintains (fun c => c.input = input) (fun _ => True) m

theorem lend_input (input : Bytes) {α : Type} (m : Push α) : KeepsInput input (lend m) := by
  intro c hinput
  unfold lend
  rcases m c.toPushParser with ⟨a, p⟩ | ⟨fault, p⟩
  · exact ⟨hinput, trivial⟩
  · exact hinput

theorem absorb_input (input : Bytes) (hvalid : cfg.dialect.invalidity = none) :
    KeepsInput input (absorb cfg F hvalid) := by
  refine .get_bind fun c hinput => ?_
  dsimp only
  refine .ite (.pure' trivial) (.ite (lend_input input _) ?_)
  exact .bind (.set' (P := fun _ => True) hinput trivial) fun _ _ => .pure' trivial

theorem advanceBorrowed_input (input : Bytes) (hvalid : cfg.dialect.invalidity = none) :
    KeepsInput input (advanceBorrowed cfg F hvalid) := by
  refine .get_bind fun c _ => .bind (lend_input input _) fun _ _ => ?_
  refine .bind (lend_input input _) fun _ _ => .bind (lend_input input _) fun _ _ => ?_
  exact .pure' trivial

theorem windowRound_input (input : Bytes) (hvalid : cfg.dialect.invalidity = none) (atEof : Bool) :
    KeepsInput input (windowRound cfg F hvalid atEof) := by
  refine .get_bind fun c _ => .ite (.pure' trivial) ?_
  exact .bind (lend_input input _) fun _ _ => .pure' trivial

theorem advanceAbsorbing_input (input : Bytes) (hvalid : cfg.dialect.invalidity = none) (fuel : ℕ) :
    KeepsInput input (advanceAbsorbing cfg F hvalid fuel) := by
  induction fuel with
  | zero => exact .throw' _
  | succ fuel ih =>
    refine .get_bind fun c _ => .bind (lend_input input _) fun _ _ => ?_
    refine .bind (lend_input input _) fun _ _ => ?_
    refine .bind (windowRound_input input hvalid _) fun found _ => .ite (.pure' trivial) ?_
    refine .get_bind fun c hinput => .ite ?_ ?_
    · exact .bind (.set' (P := fun _ => True) hinput trivial) fun _ _ =>
        advanceBorrowed_input input hvalid
    · refine .bind (absorb_input input hvalid) fun r _ => ?_
      cases r with
      | drained => exact .pure' trivial
      | boundary => exact ih
      | interior =>
        refine .ite ih (.bind (.modify' (P := fun _ => True) (fun _ h => h) trivial) fun _ _ => ?_)
        exact .pure' trivial

theorem advance_input (input : Bytes) (hvalid : cfg.dialect.invalidity = none) :
    KeepsInput input (advance cfg F hvalid) :=
  .get_bind fun _ _ =>
    .ite (advanceBorrowed_input input hvalid) (advanceAbsorbing_input input hvalid _)

theorem readBorrowed_input (input : Bytes) (hvalid : cfg.dialect.invalidity = none) (text : Bool) :
    KeepsInput input (readBorrowed cfg F hvalid text) := by
  refine .get_bind fun c _ => .bind (lend_input input _) fun _ _ => ?_
  refine .bind (lend_input input _) fun _ _ => .bind (lend_input input _) fun outcome _ => ?_
  refine .bind (.modify' (P := fun _ => True) (fun c h => ?_) trivial) fun _ _ => .pure' trivial
  split_ifs
  · exact h
  · exact h

theorem readAdvanced_input (input : Bytes) (hvalid : cfg.dialect.invalidity = none) (text : Bool) :
    KeepsInput input (readAdvanced cfg F hvalid text) := by
  refine .bind (advance_input input hvalid) fun found _ => .ite ?_ (.pure' trivial)
  refine .get_bind fun c _ => .bind (lend_input input _) fun seen _ => ?_
  refine .bind (.modify' (P := fun _ => True) (fun c h => ?_) trivial) fun _ _ => .pure' trivial
  split_ifs
  · exact h
  · exact h

theorem Op.run_input (input : Bytes) (hvalid : cfg.dialect.invalidity = none) (op : Op) :
    KeepsInput input (op.run cfg F hvalid) := by
  cases op with
  | nextLine view =>
    refine .bind (advance_input input hvalid) fun found _ => .ite ?_ (.pure' trivial)
    refine .get_bind fun c _ => ?_
    rcases view with _ | view
    · exact .pure' trivial
    · exact .bind (lend_input input _) fun _ _ => .pure' trivial
  | readByteRecord =>
    exact .get_bind fun _ _ =>
      .ite (readBorrowed_input input hvalid false) (readAdvanced_input input hvalid false)
  | readTextRecord =>
    refine .get_bind fun _ _ => .ite ?_ ?_
    · exact .bind (lend_input input _) fun _ _ => .pure' trivial
    · exact .ite (readBorrowed_input input hvalid true) (readAdvanced_input input hvalid true)

/-! ## The end of a loan -/

/-- The cursor is in what was taken before, or in the chunk. -/
theorem Lent.le_whole (h : Lent cfg before log c) :
    c.consumed + c.core.location ≤ before.length + c.input.length := by
  have hinside := h.streamed.standing.inside
  have hlength := h.streamed.length_window
  rw [List.length_append] at hlength
  have hlent : c.lentBytes.length ≤ c.input.length := by
    unfold lentBytes
    split_ifs
    · exact Nat.le_refl _
    · exact List.length_take_le' _ _
  omega

include hvalid hF

/-- Up to the first call that fails, the records that are returned are those of the log, which are
    in what was taken before and in the chunk. -/
theorem runOps_goes (ops : List Op) : ∀ (c : Chunk) (log : List (ℕ × ℕ)), Lent cfg before log c →
    ∀ seen c', runOps cfg F hvalid ops c = some (seen, c') →
      ∃ more, (c'.failed = false → Lent cfg before (log ++ more) c') ∧
        (∃ hi, Tiles 0 (log ++ more) hi ∧ hi ≤ before.length + c.input.length) ∧
        New log more seen := by
  induction ops with
  | nil =>
    intro c log h seen c' hrun
    obtain ⟨rfl, rfl⟩ := Prod.mk.inj (Option.some.inj hrun)
    refine ⟨[], fun _ => ?_, ?_, .nil⟩
    · rwa [List.append_nil]
    · rw [List.append_nil]
      exact ⟨_, h.streamed.tiles, h.le_whole⟩
  | cons op ops ih =>
    intro c log h seen c' hrun
    have hop := Op.run_goes hvalid hF op h
    rw [runOps] at hrun
    rcases hresult : op.run cfg F hvalid c with ⟨first, c₁⟩ | ⟨fault, c₁⟩
    · rw [hresult] at hop hrun
      obtain ⟨more, hlent, hfirst⟩ := hop
      dsimp only at hrun
      rw [Option.bind_eq_bind, Option.bind_eq_some_iff] at hrun
      obtain ⟨⟨rest, c₂⟩, hrest, hrun⟩ := hrun
      obtain ⟨rfl, rfl⟩ := Prod.mk.inj (Option.some.inj hrun)
      obtain ⟨more', hlent', htiles, hseen⟩ := ih c₁ _ hlent rest c₂ hrest
      have hinput := Op.run_input (F := F) c.input hvalid op c rfl
      rw [hresult] at hinput
      rw [List.append_assoc] at hlent' htiles
      rw [show c₁.input = c.input from hinput.1] at htiles
      exact ⟨more ++ more', hlent', htiles, New.append hfirst.new hseen⟩
    · rw [hresult] at hop hrun
      dsimp only at hrun
      split_ifs at hrun with hpanics
      obtain ⟨rfl, rfl⟩ := Prod.mk.inj (Option.some.inj hrun)
      have hfailed : c₁.failed = true := hop.resolve_right hpanics
      refine ⟨[], fun hnot => ?_, ?_, .nil⟩
      · rw [hfailed] at hnot
        cases hnot
      · rw [List.append_nil]
        exact ⟨_, h.streamed.tiles, h.le_whole⟩

omit hF

theorem drain_goes (fuel : ℕ) : ∀ c : Chunk, Lent cfg before log c → c.borrowed = false →
    (drain cfg F hvalid fuel c).failed = false →
    Lent cfg before log (drain cfg F hvalid fuel c) ∧ (drain cfg F hvalid fuel c).borrowed = false := by
  induction fuel with
  | zero => exact fun c h hborrowed _ => ⟨h, hborrowed⟩
  | succ fuel ih =>
    intro c h hborrowed hcalm
    have habsorb := absorb_goes (F := F) hvalid h hborrowed
    rw [drain] at hcalm ⊢
    rcases hrun : absorb cfg F hvalid c with ⟨r, c₁⟩ | ⟨fault, c₁⟩
    · rw [hrun] at habsorb hcalm
      cases r with
      | drained => exact habsorb
      | boundary => exact ih c₁ habsorb.1 habsorb.2 hcalm
      | interior => exact ih c₁ habsorb.1 habsorb.2 hcalm
    · rw [hrun] at habsorb hcalm
      have hfailed : c₁.failed = true := habsorb
      have hcalm' : c₁.failed = false := hcalm
      rw [hfailed] at hcalm'
      cases hcalm'

/-- **What a chunk leaves behind** is the rest of what was taken of the stream. -/
theorem settle_goes (hcomment : cfg.dialect.comment = none) (h : Lent cfg before log c)
    (hcalm : (settle cfg F hvalid c).failed = false) :
    Streamed cfg (before ++ (settle cfg F hvalid c).input.take (settle cfg F hvalid c).absorbed)
      (settle cfg F hvalid c).window (settle cfg F hvalid c).consumed log
      (settle cfg F hvalid c).core.toEngine := by
  have habsorbing : ∀ {c : Chunk}, Lent cfg before log c → c.borrowed = false →
      Streamed cfg (before ++ c.input.take c.absorbed) c.window c.consumed log c.core.toEngine := by
    intro c h hborrowed
    have hstreamed := h.streamed
    unfold lentBytes Chunk.buffer at hstreamed
    rw [hborrowed] at hstreamed
    exact hstreamed
  unfold settle at hcalm ⊢
  rcases hborrowed : c.borrowed with _ | _
  · rw [hborrowed] at hcalm
    rw [if_neg Bool.false_ne_true] at hcalm ⊢
    split_ifs at hcalm ⊢ with hdrain
    · obtain ⟨hlent, hborrowed'⟩ := drain_goes hvalid _ c h hborrowed hcalm
      exact habsorbing hlent hborrowed'
    · exact habsorbing h hborrowed
  rw [if_pos rfl]
  obtain ⟨hregion, hconsumed⟩ := h.region hborrowed
  have hstreamed := h.streamed.release
  have hbuffer : c.buffer = c.region := if_pos hborrowed
  have hlent : c.lentBytes = c.input := if_pos hborrowed
  rw [hbuffer, hlent] at hstreamed
  -- no comment is open, so that the window begins at the cursor
  have hanchor : c.core.release.windowAnchor = c.core.location := by
    have hfree : c.core.resume.ignored = false := by
      rcases hignored : c.core.resume.ignored with _ | _
      · rfl
      · have hsome := h.streamed.standing.resumed.comment hignored
        rw [hcomment] at hsome
        cases hsome
    show (if c.core.resume.ignored then _ else min c.core.location c.core.location) = c.core.location
    rw [hfree, if_neg Bool.false_ne_true, Nat.min_self]
  have hinside : c.core.location ≤ c.region.length := hstreamed.standing.inside
  have hshifted := @Streamed.shift _ _ _ _ _ _ c.core.location hstreamed hinside fun _ hstart => by cases hstart
  have hcut := @Streamed.cut _ _ _ _ _ _ (cfg.limits.maxRecordBytes + 1) hshifted ?_ ?_
  · dsimp only
    rw [hanchor]
    have htaken : (before ++ c.input).take (c.consumed + c.core.location + (cfg.limits.maxRecordBytes + 1)) =
        before ++ c.input.take (c.absorbed + c.core.location +
          ((c.region.drop c.core.location).take (cfg.limits.maxRecordBytes + 1)).length) := by
      rw [hconsumed, Nat.add_assoc, Nat.add_assoc, List.take_length_add_append, ← Nat.add_assoc]
      congr 1
      rw [List.take_eq_take_iff, List.length_take, List.length_drop, hregion, List.length_drop]
      omega
    rw [htaken] at hcut
    exact hcut
  · unfold shiftWindow
    split_ifs
    · rfl
    · rfl
  · rw [shiftWindow_location]
    show c.core.location - c.core.location ≤ _
    omega

/-- A parser that has failed stays so. -/
theorem settle_failed (hfailed : c.failed = true) : (settle cfg F hvalid c).failed = true := by
  unfold settle
  split_ifs with hborrowed hdrain
  · exact hfailed
  · rw [hfailed] at hdrain
    cases hdrain
  · exact hfailed

omit hvalid

/-- A chunk is lent behind what was taken before. -/
theorem offer_lent {p : PushParser} (h : Streamed cfg before p.window p.consumed log p.core.toEngine)
    (input : Bytes) : Lent cfg before log (offer p input) := by
  refine ⟨?_, Nat.zero_le _, fun hborrowed => ⟨rfl, ?_⟩, fun hdirect => ?_⟩
  · unfold lentBytes Chunk.buffer offer
    rcases hempty : p.window.isEmpty with _ | _
    · show Streamed cfg (before ++ []) p.window p.consumed log p.core.toEngine
      rw [List.append_nil]
      exact h
    · have hgrown := h.grow input
      rw [List.isEmpty_iff.mp hempty, List.nil_append] at hgrown
      exact hgrown
  · have hempty : p.window = [] := List.isEmpty_iff.mp hborrowed
    have hlength := h.length_window
    rw [hempty, List.length_nil] at hlength
    exact hlength
  · have hdirect' : (p.window.isEmpty && p.headersResolved && p.bomResolved && !p.failed) = true := hdirect
    simp only [Bool.and_eq_true] at hdirect'
    exact hdirect'.1.1.1

end advancing

/-! ## The loops end -/

/-- How much of the chunk was not absorbed yet. -/
def left (c : Chunk) : ℕ := c.input.length - c.absorbed

/-- The parser has no hold on the bytes of the chunk. -/
theorem lend_left {α : Type} {m : Push α} : Ends (fun _ _ => True) (fun _ c' => c'.left = c.left) (lend m c) := by
  unfold lend
  rcases m c.toPushParser with ⟨a, p⟩ | ⟨fault, p⟩
  · exact rfl
  · trivial

variable (hvalid : cfg.dialect.invalidity = none)

theorem windowRound_left (atEof : Bool) :
    Ends (fun _ _ => True) (fun _ c' => c'.left = c.left) (windowRound cfg F hvalid atEof c) := by
  unfold windowRound
  rw [get_bind]
  split_ifs
  · exact rfl
  · exact lend_left.bind fun _ _ h => h

/-- An absorption takes a byte at least. -/
theorem absorption_pos {room : ℕ} (hroom : room ≠ 0) (hrest : (c.input.drop c.absorbed).isEmpty = false) :
    0 < (c.absorption cfg room).1 := by
  have hlength : 0 < (c.input.drop c.absorbed).length :=
    List.length_pos_iff.mpr fun hnil => by rw [hnil] at hrest; cases hrest
  unfold absorption
  dsimp only
  refine Nat.lt_min.mpr ⟨?_, Nat.pos_of_ne_zero hroom⟩
  split
  · exact Nat.lt_min.mpr ⟨Nat.succ_pos _, hlength⟩
  · exact hlength

theorem absorb_left : Ends (fun _ c' => c'.failed = true)
    (fun r c' => r = .drained ∧ c'.left = 0 ∨ r ≠ .drained ∧ c'.left < c.left)
    (absorb cfg F hvalid c) := by
  unfold absorb
  rw [get_bind]
  rcases hrest : (c.input.drop c.absorbed).isEmpty with _ | _
  swap
  · refine Or.inl ⟨rfl, ?_⟩
    have hlength := congrArg List.length (List.isEmpty_iff.mp hrest)
    rwa [List.length_drop] at hlength
  rw [if_neg Bool.false_ne_true]
  dsimp only
  by_cases hroom : cfg.limits.maxRecordBytes + 1 - c.pendingWindowBytes = 0
  · rw [if_pos hroom]
    exact (oversizedRecordError_ends hvalid).mono (fun _ _ hfailed => hfailed) fun _ _ h => h.elim
  rw [if_neg hroom]
  have hlength : 0 < (c.input.drop c.absorbed).length :=
    List.length_pos_iff.mpr fun hnil => by rw [hnil] at hrest; cases hrest
  have htaken := @absorption_pos cfg _ _ hroom hrest
  rw [List.length_drop] at hlength
  refine Or.inr ⟨?_, ?_⟩
  · split_ifs
    · exact Absorbed.noConfusion
    · exact Absorbed.noConfusion
  · show c.input.length - (c.absorbed + _) < c.input.length - c.absorbed
    omega

/-- **Each turn of the loop absorbs a byte**, so that more turns than bytes change nothing. -/
theorem advanceAbsorbing_fuel (fuel : ℕ) : ∀ c : Chunk, c.left < fuel →
    advanceAbsorbing cfg F hvalid (fuel + 1) c = advanceAbsorbing cfg F hvalid fuel c := by
  induction fuel with
  | zero => exact fun _ h => absurd h (Nat.not_lt_zero _)
  | succ fuel ih =>
    intro c h
    rw [advanceAbsorbing, advanceAbsorbing, get_bind, get_bind]
    refine lend_left.bind_eq fun _ c₀ h₀ => lend_left.bind_eq fun _ c₁ h₁ => ?_
    refine (windowRound_left hvalid _).bind_eq fun found c₂ h₂ => ?_
    cases found with
    | true => rfl
    | false =>
      rw [if_neg Bool.false_ne_true, if_neg Bool.false_ne_true, get_bind, get_bind]
      by_cases hpending : c₂.pendingWindowBytes ≤ c₂.absorbed
      · rw [if_pos hpending, if_pos hpending]
      rw [if_neg hpending, if_neg hpending]
      refine (absorb_left hvalid).bind_eq fun r c₃ h₃ => ?_
      have hagain : r ≠ .drained → advanceAbsorbing cfg F hvalid (fuel + 1) c₃ =
          advanceAbsorbing cfg F hvalid fuel c₃ := fun hr => by
        have hless := (h₃.resolve_left fun hdrained => hr hdrained.1).2
        exact ih c₃ (by omega)
      cases r with
      | drained => rfl
      | boundary => exact hagain (by decide)
      | interior =>
        dsimp only
        split_ifs
        · exact hagain (by decide)
        · rfl

/-- What is absorbed at the end of a loan is all of the chunk, unless the parser fails. -/
theorem drain_ends (fuel : ℕ) : ∀ c : Chunk, c.left < fuel →
    (drain cfg F hvalid fuel c).failed = false → (drain cfg F hvalid fuel c).left = 0 := by
  induction fuel with
  | zero => exact fun _ h => absurd h (Nat.not_lt_zero _)
  | succ fuel ih =>
    intro c h hcalm
    have habsorb := absorb_left (F := F) (c := c) hvalid
    rw [drain] at hcalm ⊢
    rcases hrun : absorb cfg F hvalid c with ⟨r, c₁⟩ | ⟨fault, c₁⟩
    · rw [hrun] at habsorb hcalm
      have hagain : r ≠ .drained → c₁.left < fuel := fun hr => by
        have hless := (habsorb.resolve_left fun hdrained => hr hdrained.1).2
        omega
      cases r with
      | drained => exact (habsorb.resolve_right fun hless => hless.1 rfl).2
      | boundary => exact ih c₁ (hagain Absorbed.noConfusion) hcalm
      | interior => exact ih c₁ (hagain Absorbed.noConfusion) hcalm
    · rw [hrun] at habsorb hcalm
      have hfailed : c₁.failed = true := habsorb
      have hcalm' : c₁.failed = false := hcalm
      rw [hfailed] at hcalm'
      cases hcalm'

end Chunk

namespace PushParser

open Chunk

variable {cfg : ParserSettings} {F : CsvFormat} {log : List (ℕ × ℕ)}

/-- A run up to here: the records of the log were passed, those returned are among them, and unless
    the parser has failed its window is the rest of what it has taken. -/
structure Kept (cfg : ParserSettings) (log : List (ℕ × ℕ)) (s : Session) : Prop where
  streamed : s.parser.failed = false →
    Streamed cfg s.stream s.parser.window s.parser.consumed log s.parser.core.toEngine
  tiles : ∃ hi, Tiles 0 log hi ∧ hi ≤ s.offered.length
  seen : New [] log s.seen

theorem start_kept : Kept cfg [] (start cfg) := by
  obtain ⟨hstanding, hbase, hlocation, hindex, -⟩ := @fromConfigWindowed_stands cfg
  refine ⟨fun _ => ⟨rfl, Nat.le_refl _, hstanding, hbase, ?_, hindex⟩,
    ⟨0, Nat.le_refl _, Nat.le_refl _⟩, .nil⟩
  exact Nat.zero_le _

section runs

variable (hvalid : cfg.dialect.invalidity = none) (hF : cfg.Follows F)

include hF

/-- One loan keeps what holds of a run. -/
theorem lendChunk_keeps (hcomment : cfg.dialect.comment = none) {s s' : Session} {loan : Loan}
    (h : Kept cfg log s) (hcalm : s.parser.failed = false)
    (hrun : lendChunk cfg F hvalid s loan = some s') : ∃ more, Kept cfg (log ++ more) s' := by
  have hstreamed := h.streamed hcalm
  have hlent : Lent cfg s.stream log
      (offer (if loan.finish then s.parser.finish else s.parser) loan.bytes) := by
    refine offer_lent ?_ loan.bytes
    split_ifs
    · exact hstreamed
    · exact hstreamed
  unfold lendChunk at hrun
  dsimp only at hrun
  rw [Option.bind_eq_bind, Option.bind_eq_some_iff] at hrun
  obtain ⟨⟨seen, c⟩, hops, hrun⟩ := hrun
  obtain rfl := Option.some.inj hrun
  obtain ⟨more, hlent', htiles, hnew⟩ := runOps_goes hvalid hF loan.ops _ log hlent seen c hops
  rw [← List.length_append] at htiles
  refine ⟨more, fun hcalm' => ?_, htiles, h.seen.append hnew⟩
  have hfree : c.failed = false := by
    rcases hfailed : c.failed with _ | _
    · rfl
    · have hsettled := settle_failed (F := F) hvalid hfailed
      have hcalm'' : (settle cfg F hvalid c).failed = false := hcalm'
      rw [hsettled] at hcalm''
      cases hcalm''
  exact settle_goes hvalid hcomment (hlent' hfree) hcalm'

theorem run_keeps (hcomment : cfg.dialect.comment = none) (loans : List Loan) :
    ∀ {log : List (ℕ × ℕ)} {s s' : Session}, Kept cfg log s → s.parser.failed = false →
      run cfg F hvalid loans s = some s' → ∃ log, Kept cfg log s' := by
  induction loans with
  | nil =>
    intro log s s' h _ hrun
    obtain rfl := Option.some.inj hrun
    exact ⟨log, h⟩
  | cons loan loans ih =>
    intro log s s' h hcalm hrun
    rw [run, Option.bind_eq_bind, Option.bind_eq_some_iff] at hrun
    obtain ⟨s₁, hloan, hrun⟩ := hrun
    obtain ⟨more, hkept⟩ := lendChunk_keeps hvalid hF hcomment h hcalm hloan
    rcases hfailed : s₁.parser.failed with _ | _
    · rw [hfailed, if_neg Bool.false_ne_true] at hrun
      exact ih hkept hfailed hrun
    · rw [hfailed, if_pos rfl] at hrun
      obtain rfl := Option.some.inj hrun
      exact ⟨_, hkept⟩

/-- **A stream that is lent in chunks**, however it is cut, whatever is read of each chunk and
    however much of it, up to the first call that fails: the records that are returned are pieces
    of the stream, one behind the other, each under the number of the records in front of it; and
    until the parser fails its window is the rest of what it has taken, and its location has the
    byte, the line and the record that the stream has there.  Behind a failed call the direct path
    of text reads may still return records, of which nothing is said. -/
theorem run_streams (hcomment : cfg.dialect.comment = none) (loans : List Loan) {s : Session}
    (hrun : run cfg F hvalid loans (start cfg) = some s) : ∃ log,
      (∃ hi, Tiles 0 log hi ∧ hi ≤ s.offered.length) ∧
      (∀ r ∈ s.seen, log[r.range.2.2]? = some (r.range.1, r.range.2.1)) ∧
      (s.seen.Pairwise fun r r' => r.range.2.2 < r'.range.2.2 ∧ r.range.2.1 ≤ r'.range.1) ∧
      (s.parser.failed = false →
        s.parser.window = s.stream.drop s.parser.consumed ∧
        s.parser.location.byte ≤ s.stream.length ∧
        Tiles 0 log s.parser.location.byte ∧
        s.parser.location.line = 1 + linesBefore s.stream s.parser.location.byte ∧
        s.parser.location.record = log.length) := by
  obtain ⟨log, hkept⟩ := run_keeps hvalid hF hcomment loans start_kept rfl hrun
  obtain ⟨hi, htiles, hle⟩ := hkept.tiles
  have hlisted : ∀ r ∈ s.seen, Listed log r := hkept.seen.listed
  refine ⟨log, ⟨hi, htiles, hle⟩, hlisted, ?_, fun hcalm => ?_⟩
  · exact hkept.seen.before htiles
  · have hstreamed := hkept.streamed hcalm
    have hinside := hstreamed.standing.inside
    have hlength := hstreamed.length_window
    refine ⟨hstreamed.rest, ?_, hstreamed.tiles, hstreamed.location, hstreamed.records⟩
    show s.parser.consumed + s.parser.core.location ≤ s.stream.length
    omega

end runs

/-- `a` and `bc`, cut within the last record. -/
def pieces : List Loan :=
  [⟨false, [97, 10, 98], [.nextLine (some .record), .readTextRecord]⟩, ⟨true, [99], [.readByteRecord]⟩]

/-- A record that is cut in two is read once, behind the one in front of it. -/
theorem run_streams_cut : ∃ s log, run .plain none ParserSettings.plain_valid pieces (start .plain) = some s ∧
    s.seen.map (·.range) = [(0, 2, 0), (2, 4, 1)] ∧ log[1]? = some (2, 4) ∧ Tiles 0 log 4 := by
  have hresult : (run .plain none ParserSettings.plain_valid pieces (start .plain)).map (fun s =>
      (s.seen.map (·.range), s.parser.failed, s.parser.location.byte)) =
      some ([(0, 2, 0), (2, 4, 1)], false, 4) := by decide +kernel
  obtain ⟨s, hrun, hs⟩ := Option.map_eq_some_iff.mp hresult
  obtain ⟨hranges, hcalm, hbyte⟩ : _ ∧ _ ∧ _ := by simpa only [Prod.mk.injEq] using hs
  obtain ⟨log, -, hlisted, -, hstands⟩ :=
    run_streams ParserSettings.plain_valid (ParserSettings.follows_none _) rfl pieces hrun
  obtain ⟨-, -, htiles, -, -⟩ := hstands hcalm
  refine ⟨s, log, hrun, hranges, ?_, hbyte ▸ htiles⟩
  obtain ⟨r, hr, hrange⟩ : ∃ r ∈ s.seen, r.range = (2, 4, 1) := by
    rw [← List.mem_map, hranges]
    decide
  have hat := hlisted r hr
  rwa [hrange] at hat

end PushParser

end Coseva
