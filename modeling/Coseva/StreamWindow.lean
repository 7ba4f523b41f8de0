/-
  Coseva — a window of a stream (`coseva/src/engine/cursor.rs`, `shift_window`): where it lies, and
  what was read of the stream so far.

  * `Standing.shift`: a window that has lost its front, and its cursor;
  * `Streamed`: the window, the place of its cursor in the stream, and the records read so far;
  * `Streamed.went`, `Streamed.shift`, `Streamed.grow`, `Streamed.cut`: what moves a window on;
  * `Streamed.location`: the location that the cursor has in the stream;
  * `New`: records that were returned, each under its own number;
  * `Streamed.viewed`: the record that a view of a line returns.
-/
import Coseva.Line
import Coseva.WindowCalls

namespace Coseva

theorem linesBefore_drop (input : Bytes) (count offset : ℕ) :
    linesBefore (input.drop count) (offset - count) = (slice input count offset).count 10 := by
  unfold linesBefore slice
  rw [List.drop_take]

theorem linesBefore_append (input more : Bytes) {offset : ℕ} (h : offset ≤ input.length) :
    linesBefore (input ++ more) offset = linesBefore input offset := by
  unfold linesBefore
  rw [List.take_append_of_le_length h]

theorem linesBefore_take (input : Bytes) {offset count : ℕ} (h : offset ≤ count) :
    linesBefore (input.take count) offset = linesBefore input offset := by
  unfold linesBefore
  rw [List.take_take, Nat.min_eq_left h]

namespace Engine

variable {cfg : ParserSettings} {window : Bytes} {count : ℕ} {e : Engine}

/-! ## A window that loses its front -/

theorem Resumable.shift {resume : ResumeState} (h : Resumable cfg resume) :
    Resumable cfg (resume.shiftResume count) := by
  unfold ResumeState.shiftResume
  rcases hstart : resume.recordStart with _ | start
  · exact h
  dsimp only
  split_ifs with hignored hbehind
  · refine ⟨fun _ start' hstart' => ?_, h.comment⟩
    exact (Option.some.inj hstart') ▸ Nat.zero_le _
  · refine ⟨fun hignored start' hstart' => ?_, h.comment⟩
    have hahead := h.ahead hignored start hstart
    obtain rfl : start - count = start' := Option.some.inj hstart'
    exact Nat.sub_le_sub_right hahead count
  · exact .new

theorem Inside.shift {resume : ResumeState} (h : Inside window resume) :
    Inside (window.drop count) (resume.shiftResume count) := by
  unfold ResumeState.shiftResume
  rcases hstart : resume.recordStart with _ | start
  · intro start' hstart'
    rw [hstart] at hstart'
    cases hstart'
  dsimp only
  split_ifs with hignored hbehind
  · intro start' hstart'
    exact (Option.some.inj hstart') ▸ Nat.zero_le _
  · intro start' hstart'
    obtain rfl : start - count = start' := Option.some.inj hstart'
    rw [List.length_drop]
    exact Nat.sub_le_sub_right (h start hstart) count
  · exact .new

/-- **A window that has lost its front** is counted on: the lines that it lost are behind its base. -/
theorem Standing.shift (h : Standing cfg window e) (hcount : count ≤ window.length)
    (hcursor : ∀ start, e.cursorStart = some start → count ≤ start) :
    Standing cfg (window.drop count) (e.shiftWindow window count) ∧
      (e.shiftWindow window count).lineBase = e.lineBase + linesBefore window count := by
  have hfolded := h.folded
  have hinside := h.inside
  by_cases hzero : count = 0
  · subst hzero
    have hkept : e.shiftWindow window 0 = e := if_pos rfl
    rw [hkept]
    exact ⟨h, rfl⟩
  -- what the tally counts behind the front, and the lines in front of it
  have hlines : (e.shiftLines window count).1 = linesBefore window count ∧
      (if (e.shiftLines window count).2.isSome then e.foldedUpto - count else 0) ≤ e.location - count ∧
      (e.shiftLines window count).2.getD 0 = linesBefore (window.drop count)
        (if (e.shiftLines window count).2.isSome then e.foldedUpto - count else 0) := by
    unfold shiftLines
    rw [h.lineOrigin]
    by_cases hcarried : count ≤ e.foldedUpto ∧ e.foldedUpto ≤ window.length
    · rw [if_pos hcarried, if_pos (Nat.zero_le _)]
      have hsplit := linesBefore_add window hcarried.1
      refine ⟨?_, Nat.sub_le_sub_right hfolded count, (linesBefore_drop window count e.foldedUpto).symm⟩
      show e.foldedLines - (slice window count e.foldedUpto).count 10 = linesBefore window count
      rw [h.lines, hsplit, Nat.add_sub_cancel]
    · rw [if_neg hcarried]
      exact ⟨by rw [Nat.zero_min]; rfl, Nat.zero_le _, rfl⟩
  have hshifted : e.shiftWindow window count = { e with
      lineBase := e.lineBase + (e.shiftLines window count).1
      lineOrigin := 0
      location := e.location - count
      cursorStart := e.cursorStart.map (· - count)
      cursorEnd := e.cursorEnd.map (· - count)
      resume := e.resume.shiftResume count
      foldedUpto := if (e.shiftLines window count).2.isSome then e.foldedUpto - count else 0
      foldedLines := (e.shiftLines window count).2.getD 0 } := by
    unfold shiftWindow
    rw [if_neg hzero, h.lineOrigin, Nat.zero_sub]
  rw [hshifted]
  obtain ⟨hbase, hupto, hcounted⟩ := hlines
  refine ⟨⟨h.failed, ?_, h.resumed.shift, rfl, hupto, hcounted, ?_⟩, congrArg (e.lineBase + ·) hbase⟩
  · show e.location - count ≤ (window.drop count).length
    rw [List.length_drop]
    exact Nat.sub_le_sub_right hinside count
  · intro start hstart
    obtain ⟨start', hstart', rfl⟩ := Option.map_eq_some_iff.mp hstart
    obtain ⟨hle, hsame⟩ := h.cursor start' hstart'
    have hback := hcursor start' hstart'
    refine ⟨Nat.sub_le_sub_right hle count, fun hat => ?_⟩
    have hat' : start' - count = e.location - count := hat
    obtain ⟨hindex, hlt⟩ := hsame (by omega)
    refine ⟨hindex, ?_⟩
    rw [List.length_drop]
    omega

/-- A window that has grown. -/
theorem Standing.grow (h : Standing cfg window e) (more : Bytes) : Standing cfg (window ++ more) e := by
  have hin := h.inside
  have hlength : (window ++ more).length = window.length + more.length := List.length_append
  refine ⟨h.failed, by omega, h.resumed, h.lineOrigin, h.folded, ?_, fun start hstart => ?_⟩
  · rw [linesBefore_append window more (Nat.le_trans h.folded hin)]
    exact h.lines
  · obtain ⟨hle, hsame⟩ := h.cursor start hstart
    refine ⟨hle, fun hat => ⟨(hsame hat).1, ?_⟩⟩
    exact hlength ▸ Nat.lt_add_right _ (hsame hat).2

/-- A mark at the start of a stream is passed over. -/
theorem skipDetectedBom_went {window : Bytes} {w : WindowEngine} (h : Standing cfg window w.toEngine) :
    Went cfg window 0 w.toEngine [] (w.skipDetectedBom window).toEngine := by
  unfold WindowEngine.skipDetectedBom
  split_ifs with hmark
  swap
  · exact .refl h
  obtain ⟨hstart, hmark⟩ := hmark
  have hlength := (List.isPrefixOf_iff_prefix.mp hmark).length_le
  have hfolded := h.folded
  refine ⟨⟨rfl, rfl, h.resumed, id, Or.inl ⟨rfl, rfl⟩⟩, ⟨h.failed, hlength, h.resumed, h.lineOrigin, ?_,
    h.lines, fun start hat => ?_⟩, ?_, rfl, id⟩
  · show w.foldedUpto ≤ 3
    omega
  · have hle := (h.cursor start hat).1
    exact ⟨show start ≤ 3 by omega, fun hthree => absurd (show start = 3 from hthree) (by omega)⟩
  · show w.location ≤ 3
    omega

/-- An engine over no bytes stands at their start. -/
theorem fromConfigWindowed_stands : Standing cfg [] (WindowEngine.fromConfigWindowed cfg).toEngine ∧
    (WindowEngine.fromConfigWindowed cfg).lineBase = 1 ∧
    (WindowEngine.fromConfigWindowed cfg).location = 0 ∧
    (WindowEngine.fromConfigWindowed cfg).recordIndex = 0 ∧
    (WindowEngine.fromConfigWindowed cfg).resume = .new := by
  have hlocation : (if cfg.readBom = .detect ∧ bom.isPrefixOf [] then 3 else 0) = 0 :=
    if_neg fun h => by cases h.2
  unfold WindowEngine.fromConfigWindowed
  dsimp only
  split_ifs
  · refine ⟨⟨rfl, Nat.le_of_eq hlocation, .new, rfl, Nat.zero_le _, rfl, fun _ hstart => ?_⟩, ?_⟩
    · cases hstart
    · exact ⟨rfl, hlocation, rfl, rfl⟩
  · refine ⟨⟨rfl, Nat.le_of_eq hlocation, .new, rfl, Nat.zero_le _, rfl, fun _ hstart => ?_⟩, ?_⟩
    · cases hstart
    · exact ⟨rfl, hlocation, rfl, rfl⟩

end Engine

/-! ## The window in its stream -/

open Run Engine

/-- The window of a stream from `consumed` on, and the records that were read so far. -/
structure Streamed (cfg : ParserSettings) (stream window : Bytes) (consumed : ℕ)
    (log : List (ℕ × ℕ)) (e : Engine) : Prop where
  rest : window = stream.drop consumed
  within : consumed ≤ stream.length
  standing : Standing cfg window e
  lines : e.lineBase = 1 + linesBefore stream consumed
  tiles : Tiles 0 log (consumed + e.location)
  records : e.recordIndex = log.length

namespace Streamed

variable {cfg : ParserSettings} {stream window : Bytes} {consumed : ℕ} {log : List (ℕ × ℕ)}
  {e e' : Engine}

theorem length_window (h : Streamed cfg stream window consumed log e) :
    consumed + window.length = stream.length := by
  rw [h.rest, List.length_drop]
  exact Nat.add_sub_cancel' h.within

/-- The records that a call has read follow those before. -/
theorem went {low : ℕ} {pieces : List (ℕ × ℕ)} (h : Streamed cfg stream window consumed log e)
    (hwent : Went cfg window low e pieces e') :
    Streamed cfg stream window consumed (log ++ Tiles.moved consumed pieces) e' := by
  refine ⟨h.rest, h.within, hwent.standing, hwent.lineBase.trans h.lines,
    h.tiles.append (hwent.tiles.shift consumed), ?_⟩
  rw [hwent.recordIndex, h.records, List.length_append, Tiles.length_moved]

/-- The window loses its front. -/
theorem shift {count : ℕ} (h : Streamed cfg stream window consumed log e) (hcount : count ≤ window.length)
    (hcursor : ∀ start, e.cursorStart = some start → count ≤ start) :
    Streamed cfg stream (window.drop count) (consumed + count) log (e.shiftWindow window count) := by
  have hlength := h.length_window
  obtain ⟨hstanding, hbase⟩ := h.standing.shift hcount hcursor
  refine ⟨?_, by omega, hstanding, ?_, ?_, ?_⟩
  · rw [h.rest, List.drop_drop]
  · rw [hbase, h.lines, linesBefore_add stream (Nat.le_add_right consumed count), h.rest, Nat.add_assoc]
    congr 2
    unfold linesBefore slice
    rw [List.drop_take, Nat.add_sub_cancel_left]
  · refine h.tiles.mono_right ?_
    rw [shiftWindow_location]
    omega
  · refine Eq.trans ?_ h.records
    unfold shiftWindow
    split_ifs
    · rfl
    · rfl

/-- The record that the cursor is on is given up. -/
theorem release (h : Streamed cfg stream window consumed log e) :
    Streamed cfg stream window consumed log e.releasePositionedRecord :=
  ⟨h.rest, h.within, ⟨h.standing.failed, h.standing.inside, h.standing.resumed, h.standing.lineOrigin,
    h.standing.folded, h.standing.lines, fun _ hstart => by cases hstart⟩, h.lines, h.tiles, h.records⟩

/-- The stream goes on. -/
theorem grow (h : Streamed cfg stream window consumed log e) (more : Bytes) :
    Streamed cfg (stream ++ more) (window ++ more) consumed log e := by
  refine ⟨?_, ?_, h.standing.grow more, ?_, h.tiles, h.records⟩
  · rw [h.rest, List.drop_append_of_le_length h.within]
  · rw [List.length_append]
    exact Nat.le_add_right_of_le h.within
  · rw [linesBefore_append stream more h.within]
    exact h.lines

/-- The stream is cut short behind the cursor. -/
theorem cut {count : ℕ} (h : Streamed cfg stream window consumed log e) (hfree : e.cursorStart = none)
    (hcount : e.location ≤ count) :
    Streamed cfg (stream.take (consumed + count)) (window.take count) consumed log e := by
  have hin := h.standing.inside
  refine ⟨?_, ?_, ⟨h.standing.failed, ?_, h.standing.resumed, h.standing.lineOrigin,
    h.standing.folded, ?_, fun start hstart => ?_⟩, ?_, h.tiles, h.records⟩
  · rw [h.rest, List.drop_take, Nat.add_sub_cancel_left]
  · rw [List.length_take]
    exact Nat.le_min.mpr ⟨Nat.le_add_right _ _, h.within⟩
  · rw [List.length_take]
    exact Nat.le_min.mpr ⟨hcount, hin⟩
  · rw [linesBefore_take window (Nat.le_trans h.standing.folded hcount)]
    exact h.standing.lines
  · rw [hfree] at hstart
    cases hstart
  · rw [linesBefore_take stream (Nat.le_add_right _ _)]
    exact h.lines

/-- **The location of the cursor** is where the stream has it. -/
theorem location (h : Streamed cfg stream window consumed log e) :
    physicalLine window e.lineBase e.lineOrigin e.location =
      1 + linesBefore stream (consumed + e.location) := by
  unfold physicalLine
  dsimp only
  rw [h.standing.lineOrigin, Nat.zero_min, Nat.min_eq_left h.standing.inside, h.lines,
    linesBefore_add stream (Nat.le_add_right consumed e.location), h.rest, Nat.add_assoc]
  congr 3
  unfold slice
  rw [List.drop_zero, List.drop_take, Nat.add_sub_cancel_left]

end Streamed

/-! ## Records of the stream -/

/-- What is returned is in the log, under its number. -/
def Listed (log : List (ℕ × ℕ)) (seen : StreamRecord) : Prop :=
  log[seen.range.2.2]? = some (seen.range.1, seen.range.2.1)

/-- A record that may have been returned behind a log, of what follows. -/
def Returned (log more : List (ℕ × ℕ)) (seen : Option StreamRecord) : Prop :=
  ∀ s, seen = some s → log.length ≤ s.range.2.2 ∧ Listed (log ++ more) s

/-- Records that were returned behind a log, each under its own number of what follows. -/
structure New (log more : List (ℕ × ℕ)) (seen : List StreamRecord) : Prop where
  fresh : ∀ s ∈ seen, log.length ≤ s.range.2.2
  listed : ∀ s ∈ seen, Listed (log ++ more) s
  ascending : seen.Pairwise fun s s' => s.range.2.2 < s'.range.2.2

theorem Listed.append {log : List (ℕ × ℕ)} {seen : StreamRecord} (h : Listed log seen) (more : List (ℕ × ℕ)) :
    Listed (log ++ more) seen := by
  have hlt := (List.getElem?_eq_some_iff.mp h).1
  exact (List.getElem?_append_left hlt).trans h

theorem Returned.none {log more : List (ℕ × ℕ)} : Returned log more none := fun _ hs => by cases hs

theorem Returned.trans {log more rest : List (ℕ × ℕ)} {seen : Option StreamRecord}
    (h : Returned (log ++ more) rest seen) : Returned log (more ++ rest) seen := by
  intro s hs
  obtain ⟨hnew, hlisted⟩ := h s hs
  rw [List.length_append] at hnew
  rw [List.append_assoc] at hlisted
  exact ⟨by omega, hlisted⟩

theorem New.nil {log more : List (ℕ × ℕ)} : New log more [] :=
  ⟨fun _ hs => (by cases hs), fun _ hs => (by cases hs), List.Pairwise.nil⟩

theorem Returned.new {log more : List (ℕ × ℕ)} {seen : Option StreamRecord} (h : Returned log more seen) :
    New log more seen.toList := by
  refine ⟨fun s hs => (h s (Option.mem_toList.mp hs)).1, fun s hs => (h s (Option.mem_toList.mp hs)).2, ?_⟩
  cases seen with
  | none => exact List.Pairwise.nil
  | some s => exact List.pairwise_singleton _ _

theorem New.append {log more more' : List (ℕ × ℕ)} {seen seen' : List StreamRecord} (h : New log more seen)
    (h' : New (log ++ more) more' seen') : New log (more ++ more') (seen ++ seen') := by
  refine ⟨fun s hs => ?_, fun s hs => ?_, List.pairwise_append.mpr ⟨h.ascending, h'.ascending, ?_⟩⟩
  · rcases List.mem_append.mp hs with hs | hs
    · exact h.fresh s hs
    · have hfresh := h'.fresh s hs
      rw [List.length_append] at hfresh
      omega
  · rw [← List.append_assoc]
    rcases List.mem_append.mp hs with hs | hs
    · exact (h.listed s hs).append more'
    · exact h'.listed s hs
  · intro s hs s' hs'
    exact Nat.lt_of_lt_of_le (List.getElem?_eq_some_iff.mp (h.listed s hs)).1 (h'.fresh s' hs')

/-- Records that were returned from the start on lie one behind the other. -/
theorem New.before {log : List (ℕ × ℕ)} {hi : ℕ} {seen : List StreamRecord} (h : New [] log seen)
    (htiles : Tiles 0 log hi) :
    seen.Pairwise fun r r' => r.range.2.2 < r'.range.2.2 ∧ r.range.2.1 ≤ r'.range.1 :=
  h.ascending.imp_of_mem fun {r r'} hr hr' hlt =>
    ⟨hlt, htiles.before hlt (h.listed r hr) (h.listed r' hr')⟩

/-- A record of the window is the next one of the stream, behind those that were passed. -/
theorem Streamed.viewed {cfg : ParserSettings} {stream window : Bytes} {consumed low : ℕ}
    {log pieces : List (ℕ × ℕ)} {e : Engine} {w : WindowEngine} {seen : StreamRecord}
    (h : Streamed cfg stream window consumed log e)
    (hviewed : Window.Viewed cfg window low e pieces seen.range w) :
    Returned log (Tiles.moved consumed (pieces ++ [(seen.range.1, seen.range.2.1)]))
      (some (seen.rebase consumed)) := by
  intro s hs
  obtain rfl := Option.some.inj hs
  have hrange : (seen.rebase consumed).range =
      (consumed + seen.range.1, consumed + seen.range.2.1, seen.range.2.2) := by
    cases seen with
    | borrowed record => rfl
    | owned record => rfl
  unfold Listed
  rw [hrange, hviewed.number, h.records]
  refine ⟨Nat.le_add_right _ _, ?_⟩
  unfold Tiles.moved
  rw [List.map_append, ← List.append_assoc]
  refine List.getElem?_eq_some_iff.mpr ⟨?_, ?_⟩
  · rw [List.length_append, List.length_append, List.length_map, List.length_map, List.length_singleton]
    exact Nat.lt_succ_self _
  · rw [List.getElem_append_right (by rw [List.length_append, List.length_map])]
    simp

/-- **A view of the line** reads the record that the cursor has reached. -/
theorem Line.View.read_goes {cfg : ParserSettings} {F : CsvFormat} {buffer : Bytes} {low : ℕ} {e : Engine}
    {pieces : List (ℕ × ℕ)} {w : WindowEngine} (hvalid : cfg.dialect.invalidity = none)
    (hF : cfg.Follows F) (view : View) (h : Window.Reached cfg buffer low e pieces w)
    (hlow : low ≤ e.location) :
    Ends (fun _ _ => True) (fun seen w' => Window.Viewed cfg buffer low e pieces seen.range w')
      (view.read cfg F buffer w) := by
  cases view with
  | record => exact (Window.recordView_goes hvalid hF h hlow).map fun _ _ h => h
  | byteRecord => exact (Window.readByteView_goes hvalid h hlow).map fun _ _ h => h
  | textRecord => exact (Window.readTextView_goes hvalid h hlow).map fun _ _ h => h

/-- CSV without headers. -/
def ParserSettings.plain : ParserSettings where
  toFormatOptions := .custom { dialect := .csv }
  limits := .default
  headers := .none
  fieldCount := .flexible
  host := ⟨false, false, false⟩

theorem ParserSettings.plain_valid : plain.dialect.invalidity = none := by decide

end Coseva
