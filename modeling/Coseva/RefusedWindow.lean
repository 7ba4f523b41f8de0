/-
  Coseva — windows that are refused (`coseva/src/engine/cursor.rs`): however often a call asks for
  more input, and however the window grows meanwhile, the cursor is where it was.

  * `Call`: the calls on a window, of which any may be refused;
  * `Refused`: refused calls on a window that grows;
  * `Refused.leaves_cursor`: what they leave of the cursor;
  * `advanceWindow_of_failed`: what becomes of a failure.
-/
import Coseva.StreamWindow

namespace Coseva

open Run Engine

namespace Window

/-- A call on a window. -/
inductive Call where
  | advance
  | advanceLazily
  | advanceEagerly
  | read (text : Bool)
  | headers
  deriving DecidableEq, Repr

section calls

variable (cfg : ParserSettings) (F : CsvFormat) (hvalid : cfg.dialect.invalidity = none)

/-- Whether a call asks for more input than the window. -/
def Call.asksMore (input : Bytes) : Call → Window Bool
  | advance => (fun r => r == .needMore) <$> advanceWindow cfg F input hvalid false
  | advanceLazily => (fun r => r == .needMore) <$> advanceWindowLazily cfg F input hvalid false
  | advanceEagerly => (fun r => r == .needMore) <$> advanceWindowEagerly cfg F input hvalid false
  | read text => (fun r => r == .needMore) <$> readWindow cfg F input hvalid text false
  | headers => (fun settled => !settled) <$> headersWindow cfg input false

/-- Refused calls on a window that grows, from one state to another. -/
inductive Refused (input : Bytes) (w : WindowEngine) : Bytes → WindowEngine → Prop
  | start : Refused input w input w
  | grow {input' : Bytes} {w' : WindowEngine} (more : Bytes) (h : Refused input w input' w') :
    Refused input w (input' ++ more) w'
  | call {input' : Bytes} {w' w'' : WindowEngine} (call : Call) (h : Refused input w input' w')
    (hmore : call.asksMore cfg F hvalid input' w' = .ok true w'') : Refused input w input' w''

end calls

variable {cfg : ParserSettings} {F : CsvFormat} {input input' : Bytes} {w w' : WindowEngine}

theorem untouched_of_called {α : Type} [DecidableEq α] {m : Window (Advance α)}
    {Q : α → WindowEngine → Prop}
    (h : Ends (fun _ _ => True) (fun r w' => Called cfg input w Q r w') (m w)) :
    Ends (fun _ _ => True) (fun more w' => more = true →
        Standing cfg input w'.toEngine ∧ Untouched w.toEngine w'.toEngine)
      (((fun r => r == .needMore) <$> m) w) := by
  refine h.map fun r w' hcalled => ?_
  cases r with
  | record read => exact fun hmore => by cases hmore
  | done => exact fun hmore => by cases hmore
  | needMore => exact fun _ => ⟨hcalled.1.standing, hcalled.2⟩

theorem Untouched.trans {e e' e'' : Engine} (h : Untouched e e') (h' : Untouched e' e'') :
    Untouched e e'' :=
  ⟨h'.location.trans h.location, h'.recordIndex.trans h.recordIndex,
    ⟨h'.tally.1.trans h.tally.1, h'.tally.2.trans h.tally.2⟩, h'.expectedFields.trans h.expectedFields,
    h'.headers.trans h.headers, h'.failed.trans h.failed, h'.lineBase.trans h.lineBase,
    h'.lineOrigin.trans h.lineOrigin⟩

section refusing

variable (hvalid : cfg.dialect.invalidity = none) (hF : cfg.Follows F)

include hF

/-- A call that is refused leaves the cursor where it was. -/
theorem Call.asksMore_untouched (call : Call) (h : Standing cfg input w.toEngine) :
    Ends (fun _ _ => True) (fun more w' => more = true →
        Standing cfg input w'.toEngine ∧ Untouched w.toEngine w'.toEngine)
      (call.asksMore cfg F hvalid input w) := by
  cases call with
  | advance => exact untouched_of_called (advanceWindow_goes hvalid hF false h)
  | advanceLazily => exact untouched_of_called (advanceWindowLazily_goes hvalid hF false h)
  | advanceEagerly => exact untouched_of_called (advanceWindowEagerly_goes hvalid hF false h)
  | read text => exact untouched_of_called (readWindow_goes hvalid hF text false h)
  | headers =>
    refine (headersWindow_goes (Dialect.sound_of_valid hvalid) false h).map fun settled w' hsettled => ?_
    rcases hsettled with ⟨rfl, -⟩ | ⟨rfl, -, hwent, huntouched⟩
    · exact fun hmore => by cases hmore
    · exact fun _ => ⟨hwent.standing, huntouched⟩

/-- **Refused windows leave no trace on a cursor that stands**, so that it has not failed and its lines
    are counted from the front of the window: behind any calls that were refused, on a window that
    has grown by any pieces meanwhile, its place, the physical line there, the number of the next
    record, the width of the records, whether the headers are settled, and the failure are those
    before the first.  Of a cursor that has failed see `advanceWindow_of_failed`. -/
theorem Refused.leaves_cursor (h : Standing cfg input w.toEngine)
    (hrefused : Refused cfg F hvalid input w input' w') :
    (w'.location = w.location ∧
      physicalLine input' w'.lineBase w'.lineOrigin w'.location =
        physicalLine input w.lineBase w.lineOrigin w.location ∧
      w'.recordIndex = w.recordIndex ∧ w'.expectedFields = w.expectedFields ∧
      w'.headersInitialized = w.headersInitialized ∧ w'.failed = w.failed) ∧
    Standing cfg input' w'.toEngine := by
  have hinside := h.inside
  have huntouched : Standing cfg input' w'.toEngine ∧ Untouched w.toEngine w'.toEngine ∧
      input <+: input' := by
    induction hrefused with
    | start => exact ⟨h, ⟨rfl, rfl, ⟨rfl, rfl⟩, rfl, rfl, rfl, rfl, rfl⟩, List.prefix_refl _⟩
    | grow more _ ih => exact ⟨ih.1.grow more, ih.2.1, ih.2.2.trans (List.prefix_append _ _)⟩
    | call call _ hmore ih =>
      have hcall := Call.asksMore_untouched hvalid hF call ih.1
      rw [hmore] at hcall
      obtain ⟨hstanding, hsame⟩ := hcall rfl
      exact ⟨hstanding, ih.2.1.trans hsame, ih.2.2⟩
  obtain ⟨hstanding, huntouched, hprefix⟩ := huntouched
  refine ⟨⟨huntouched.location, ?_, huntouched.recordIndex, huntouched.expectedFields, huntouched.headers,
    huntouched.failed⟩, hstanding⟩
  obtain ⟨more, rfl⟩ := hprefix
  rw [huntouched.location, huntouched.lineBase, huntouched.lineOrigin]
  have hwithin : w.location ≤ (input ++ more).length := huntouched.location ▸ hstanding.inside
  unfold physicalLine slice
  dsimp only
  rw [Nat.min_eq_left hinside, Nat.min_eq_left hwithin, List.take_append_of_le_length hinside]

omit hF

/-- **A failure is forgotten near the end of a window**: there the error of an engine that has failed is
    taken for one that more input may settle, and `restore_chunk_cursor` makes of the engine one that
    has not failed. -/
theorem advanceWindow_of_failed (hfailed : w.failed = true) :
    advanceWindow cfg F input hvalid false w =
      if input.length ≤ w.location + WindowEngine.separatorLookahead cfg then
        .ok .needMore (rewindChunk w w)
      else .error (.fault (.error .parserFailed ⟨w.location,
        physicalLine input w.lineBase w.lineOrigin w.location, w.recordIndex, w.spans.len⟩)) w := by
  have hcheck : engine (Engine.checkFailed input) w = .error (.fault (.error .parserFailed ⟨w.location,
      physicalLine input w.lineBase w.lineOrigin w.location, w.recordIndex, w.spans.len⟩)) w := by
    unfold engine Engine.checkFailed
    rw [if_pos hfailed]
    rfl
  have htry : tryAdvanceWindow cfg F input hvalid w = _ := bind_error hcheck
  simp only [advanceWindow, Bool.false_eq_true, if_false, speculate, htry]
  by_cases hnear : input.length ≤ w.location + WindowEngine.separatorLookahead cfg
  · rw [if_pos hnear, if_pos (by simp [WindowFault.truncatedByWindow, hnear])]
  · rw [if_neg hnear, if_neg (by simp [WindowFault.truncatedByWindow, hnear])]
    rfl

end refusing

/-- What a run returns, if it does not fail. -/
theorem ok_of_run' {ε σ α : Type} {x : EStateM ε σ α} {s : σ} {a : α} (h : x.run' s = some a) :
    ∃ s', x s = .ok a s' := by
  unfold EStateM.run' EStateM.run at h
  rcases hrun : x s with ⟨b, s'⟩ | ⟨e, s'⟩
  · rw [hrun] at h
    exact ⟨s', by rw [Option.some.inj h]⟩
  · rw [hrun] at h
    cases h

/-- A window of one byte is refused, and again when it has grown to two. -/
theorem Refused.leaves_cursor_twice : ∃ w', Refused .plain none ParserSettings.plain_valid []
      (.fromConfigWindowed .plain) [97, 98] w' ∧ w'.location = 0 ∧ w'.recordIndex = 0 := by
  obtain ⟨w₁, h₁⟩ := ok_of_run' (show (Call.advance.asksMore .plain none ParserSettings.plain_valid
    [97]).run' (.fromConfigWindowed .plain) = some true by decide)
  obtain ⟨w₂, h₂⟩ := ok_of_run' (show (Call.advance.asksMore .plain none ParserSettings.plain_valid [97] >>=
      fun _ => (Call.read true).asksMore .plain none ParserSettings.plain_valid [97, 98]).run'
    (.fromConfigWindowed .plain) = some true by decide)
  rw [bind_ok h₁] at h₂
  have hgrown : Refused .plain none ParserSettings.plain_valid [] (.fromConfigWindowed .plain) [97]
      (.fromConfigWindowed .plain) := Refused.start.grow [97]
  have hagain : Refused .plain none ParserSettings.plain_valid [] (.fromConfigWindowed .plain) [97, 98] w₁ :=
    (hgrown.call .advance h₁).grow [98]
  have hrefused := hagain.call (.read true) h₂
  obtain ⟨hstanding, -, hlocation, hindex, -⟩ := @fromConfigWindowed_stands .plain
  obtain ⟨⟨hstays, -, hnumber, -⟩, -⟩ := hrefused.leaves_cursor ParserSettings.plain_valid
    (ParserSettings.follows_none _) hstanding
  exact ⟨w₂, hrefused, hstays.trans hlocation, hnumber.trans hindex⟩

end Window

end Coseva
