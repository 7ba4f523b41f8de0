/-
  Coseva — the cursor over a window of a stream (`coseva/src/engine/cursor.rs`): what
  a refused window is taken back to, and what a window loses from its front.

  * `ChunkCursorState`, `restoreChunkCursor`: what a retry on a wider window forgets;
  * `windowAnchor`, `ioWindowAnchor`: the first byte that is still needed;
  * `shiftWindow`: the cursor of a window that has lost its front.
-/
import Coseva.Cursor
import Coseva.Prescan

namespace Coseva

namespace Engine

/-- `ChunkCursorState`. -/
structure ChunkCursorState where
  location : ℕ
  recordIndex : ℕ
  foldedLines : ℕ
  expectedFields : Option ℕ
  headersInitialized : Bool
  deriving DecidableEq, Repr

variable (e : Engine)

/-- `chunk_cursor_state`. -/
def chunkCursorState : ChunkCursorState :=
  ⟨e.location, e.recordIndex, e.foldedLines, e.expectedFields, e.headersInitialized⟩

/-- `restore_chunk_cursor`. -/
def restoreChunkCursor (saved : ChunkCursorState) : Engine :=
  { e with
    recordIndex := saved.recordIndex
    foldedUpto := min e.foldedUpto saved.location
    foldedLines := saved.foldedLines
    location := saved.location
    expectedFields := saved.expectedFields
    headersInitialized := saved.headersInitialized
    cursorStart := none
    cursorEnd := none
    failed := false }

/-- `window_anchor`. -/
def windowAnchor : ℕ :=
  let cursor := min (e.cursorStart.getD e.location) e.location
  if e.resume.ignored then min cursor e.resume.scannedTo else cursor

/-- `io_window_anchor`. -/
def ioWindowAnchor : ℕ :=
  match e.cursorStart, e.resume.recordStart with
  | none, some recordStart =>
    if !e.resume.ignored then max e.windowAnchor recordStart else e.windowAnchor
  | _, _ => e.windowAnchor

/-- `release_positioned_record`. -/
def releasePositionedRecord : Engine := { e with cursorStart := none, cursorEnd := none }

/-- The lines that a window loses with its front, and those that its tally keeps. -/
def shiftLines (window : Bytes) (count : ℕ) : ℕ × Option ℕ :=
  if count ≤ e.foldedUpto ∧ e.foldedUpto ≤ window.length then
    if e.lineOrigin ≤ count then
      let overshot := (slice window count e.foldedUpto).count 10
      (e.foldedLines - overshot, some overshot)
    else (0, some e.foldedLines)
  else ((slice window (min e.lineOrigin count) count).count 10, none)

/-- `shift_window`. -/
def shiftWindow (window : Bytes) (count : ℕ) : Engine :=
  if count = 0 then e
  else
    let (dropped, carried) := e.shiftLines window count
    let lineOrigin := e.lineOrigin - count
    { e with
      lineBase := e.lineBase + dropped
      lineOrigin
      location := e.location - count
      cursorStart := e.cursorStart.map (· - count)
      cursorEnd := e.cursorEnd.map (· - count)
      resume := e.resume.shiftResume count
      foldedUpto := if carried.isSome then e.foldedUpto - count else lineOrigin
      foldedLines := carried.getD 0 }

theorem windowAnchor_le : e.windowAnchor ≤ e.location := by
  unfold windowAnchor
  simp only
  split_ifs
  · exact (min_le_left _ _).trans (min_le_right _ _)
  · exact min_le_right _ _

/-- What is behind the lines that have been looked through stays. -/
theorem windowAnchor_le_scanned (h : e.resume.ignored = true) :
    e.windowAnchor ≤ e.resume.scannedTo := by
  rw [windowAnchor, if_pos h]
  exact min_le_right _ _

theorem ioWindowAnchor_of_ignored (h : e.resume.ignored = true) :
    e.ioWindowAnchor = e.windowAnchor := by
  unfold ioWindowAnchor
  split
  · rw [h]
    rfl
  · rfl

theorem shiftResume_zero (resume : ResumeState) : resume.shiftResume 0 = resume := by
  unfold ResumeState.shiftResume
  rcases hstart : resume.recordStart with _ | start
  · rfl
  · simp only [Nat.not_lt_zero, decide_false, Bool.and_false, Bool.false_eq_true, if_false,
      ge_iff_le, Nat.zero_le, decide_true, Bool.and_self, if_true, Nat.sub_zero, ← hstart]

@[simp] theorem shiftWindow_location (window : Bytes) (count : ℕ) :
    (e.shiftWindow window count).location = e.location - count := by
  unfold shiftWindow
  split_ifs with h
  · rw [h, Nat.sub_zero]
  · rfl

@[simp] theorem shiftWindow_resume (window : Bytes) (count : ℕ) :
    (e.shiftWindow window count).resume = e.resume.shiftResume count := by
  unfold shiftWindow
  split_ifs with h
  · rw [h, shiftResume_zero]
  · rfl

@[simp] theorem shiftWindow_headers (window : Bytes) (count : ℕ) :
    (e.shiftWindow window count).headersInitialized = e.headersInitialized := by
  unfold shiftWindow
  split_ifs
  · rfl
  · rfl

end Engine

end Coseva
