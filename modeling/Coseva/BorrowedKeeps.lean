/-
  Coseva — the borrowed parse path selects no kernel (`coseva/src/engine/borrowed_parser.rs`):
  it leaves those of the owned path as they are, also where it fails.

  * `parseRecord_keeps`: the parse of a record;
  * `skips_keeps`: comments and blank lines;
  * `advance_keeps`, `record_keeps`: the cursor and the view of a record.
-/
import Coseva.BorrowedFrame
import Coseva.OwnedKeeps

namespace Coseva

open Run

namespace Engine

/-- The kernels stay selected, wherever the computation ends. -/
abbrev Keeps (want : Prop) {α : Type} (m : Parse α) : Prop := Maintains (Selects want) (fun _ => True) m

variable {cfg : ParserSettings} {F : CsvFormat} {input : Bytes} {want : Prop} {α : Type}

theorem keeps_pure (a : α) : Keeps want (pure a : Parse α) := Maintains.pure' trivial

theorem keeps_bind {β : Type} {m : Parse α} {f : α → Parse β} (hm : Keeps want m)
    (hf : ∀ a, Keeps want (f a)) : Keeps want (m >>= f) := Maintains.bind hm fun a _ => hf a

/-- A change of the engine that leaves the kernels. -/
theorem keeps_modify {g : Engine → Engine} (h : ∀ e, Selected e → Selected (g e)) :
    Keeps want (modify g : Parse PUnit) := Maintains.modify' (fun _ hs => hs.imp (h _)) trivial

theorem keeps_set {e e' : Engine} (he : Selects want e) (h : Selected e → Selected e') :
    Keeps want (set e' : Parse PUnit) := Maintains.set' (he.imp h) trivial

theorem Selects.apartFolds : ApartFolds (Selects want) where
  location _ _ hs := hs.imp fun h => ⟨h.quoted, h.interior, h.handoff, h.multi⟩
  spans _ _ hs := hs.imp fun h => ⟨h.quoted, h.interior, h.handoff, h.multi⟩
  terminated _ _ hs := hs.imp fun h => ⟨h.quoted, h.interior, h.handoff, h.multi⟩
  expectedFields _ _ hs := hs.imp fun h => ⟨h.quoted, h.interior, h.handoff, h.multi⟩
  folds _ _ _ hs := hs.imp fun h => ⟨h.quoted, h.interior, h.handoff, h.multi⟩

theorem parseRecord_keeps (recordStart : ℕ) (header : Bool) :
    Keeps want (parseRecord cfg F input recordStart header) := parseRecord_leaves Selects.apartFolds _ _

/-! ## The cursor -/

/-- A parse that fails poisons the engine, and leaves its kernels. -/
theorem failing_keeps {P : α → Prop} {m : Parse α} (h : Maintains (Selects want) P m) :
    Maintains (Selects want) P (failing m) := by
  intro s hs
  have hm := h s hs
  unfold failing
  split
  · rename_i hrun
    rwa [hrun] at hm
  · rename_i hrun
    rw [hrun] at hm
    exact hm.imp fun h => ⟨h.quoted, h.interior, h.handoff, h.multi⟩
  · rename_i hrun
    rwa [hrun] at hm

theorem checkFailed_keeps : Keeps want (checkFailed input) := by
  intro s hs
  unfold checkFailed
  split_ifs
  · exact hs
  · exact ⟨hs, trivial⟩

theorem parsePositionedRecord_keeps (header : Bool) :
    Keeps want (parsePositionedRecord cfg F input header) := by
  have hbegin : Keeps want (beginSpans input) := by
    intro s hs
    unfold beginSpans
    split_ifs
    · exact hs.imp fun h => ⟨h.quoted, h.interior, h.handoff, h.multi⟩
    · exact ⟨hs.imp fun h => ⟨h.quoted, h.interior, h.handoff, h.multi⟩, trivial⟩
  have htrim : Keeps want (trimSpans cfg input header) :=
    Maintains.ite (keeps_modify fun _ h => ⟨h.quoted, h.interior, h.handoff, h.multi⟩) (keeps_pure ())
  refine keeps_bind hbegin fun _ => Maintains.get_bind fun s _ => ?_
  refine keeps_bind (failing_keeps (parseRecord_keeps _ _)) fun _ => keeps_bind htrim fun _ => ?_
  refine Maintains.get_bind fun s hs => keeps_bind (keeps_set hs fun h => ?_) fun _ => keeps_pure _
  exact ⟨h.quoted, h.interior, h.handoff, h.multi⟩

theorem skipCommentsLoop_selected (comment : UInt8) (fuel : ℕ) :
    ∀ e, Selected e → Selected (skipCommentsLoop cfg input comment fuel e) := by
  induction fuel with
  | zero => exact fun _ h => h
  | succ fuel ih =>
    intro e h
    rw [skipCommentsLoop]
    dsimp only
    split
    · exact h
    · split
      · exact ih _ ⟨h.quoted, h.interior, h.handoff, h.multi⟩
      · exact ⟨h.quoted, h.interior, h.handoff, h.multi⟩

theorem skipBlankLinesLoop_selected (fuel : ℕ) :
    ∀ e, Selected e → Selected (skipBlankLinesLoop cfg input fuel e) := by
  induction fuel with
  | zero => exact fun _ h => h
  | succ fuel ih =>
    intro e h
    rw [skipBlankLinesLoop]
    split
    · exact ih _ ⟨h.quoted, h.interior, h.handoff, h.multi⟩
    · exact h

theorem skipIgnoredLoop_selected (fuel : ℕ) : ∀ (skipped : Bool) (e : Engine), Selected e →
    Selected (skipIgnoredLoop cfg input fuel skipped e).2 := by
  induction fuel with
  | zero => exact fun _ _ h => h
  | succ fuel ih =>
    intro skipped e h
    have hcomments : Selected (skipComments cfg input e) := by
      unfold skipComments
      split
      · exact h
      · exact skipCommentsLoop_selected _ _ _ h
    have hnext : Selected (skipBlankLines cfg input (skipComments cfg input e)) := by
      unfold skipBlankLines
      split_ifs
      · exact skipBlankLinesLoop_selected _ _ hcomments
      · exact hcomments
    rw [skipIgnoredLoop]
    split_ifs
    · exact hnext
    · exact ih _ _ hnext

theorem skipIgnoredRecords_selected {e : Engine} (h : Selected e) :
    Selected (skipIgnoredRecords cfg input e) := by
  have hloop : Selected (skipIgnoredLoop cfg input (input.length + 2) e.resume.ignored e).2 :=
    skipIgnoredLoop_selected _ _ _ h
  unfold skipIgnoredRecords
  dsimp only
  split_ifs
  · exact ⟨hloop.quoted, hloop.interior, hloop.handoff, hloop.multi⟩
  · exact hloop

theorem skips_keeps : Keeps want
    (modify fun e => if cfg.skipsRecords then skipIgnoredRecords cfg input e else e : Parse PUnit) := by
  refine keeps_modify fun e h => ?_
  split_ifs
  · exact skipIgnoredRecords_selected h
  · exact h

theorem nextPhysicalRecord_keeps (header : Bool) :
    Keeps want (nextPhysicalRecord cfg input header) := by
  have hfill : Keeps want (fillRecordSpans cfg none input header) := by
    refine keeps_bind checkFailed_keeps fun _ => keeps_bind skips_keeps fun _ => ?_
    refine Maintains.get_bind fun s _ => Maintains.ite (keeps_pure none) ?_
    exact (parsePositionedRecord_keeps header).map fun _ _ => trivial
  refine keeps_bind hfill fun range => ?_
  split
  · exact keeps_pure none
  · exact Maintains.map (Maintains.get_bind fun _ _ => keeps_pure _) fun _ _ => trivial

theorem ensureHeaders_keeps : Keeps want (ensureHeaders cfg input) := by
  refine Maintains.get_bind fun s hs => Maintains.ite (keeps_pure ()) ?_
  refine keeps_bind (keeps_set hs fun h => ⟨h.quoted, h.interior, h.handoff, h.multi⟩) fun _ => ?_
  exact Maintains.ite (keeps_bind (nextPhysicalRecord_keeps true) fun _ => keeps_pure ()) (keeps_pure ())

theorem advance_keeps : Keeps want (advance cfg F input) := by
  have hsettle : Keeps want (settle cfg F input) := by
    refine Maintains.get_bind fun s hs => Maintains.ite ?_ (keeps_pure ())
    refine keeps_bind (keeps_set hs fun h => ⟨h.quoted, h.interior, h.handoff, h.multi⟩) fun _ => ?_
    exact keeps_bind (parsePositionedRecord_keeps false) fun _ => keeps_pure ()
  have hskip : Keeps want (modify (skipToRecord cfg input) : Parse PUnit) := by
    refine keeps_modify fun e h => ?_
    unfold skipToRecord
    split_ifs
    · exact skipIgnoredRecords_selected ⟨h.quoted, h.interior, h.handoff, h.multi⟩
    · exact h
  have hposition : Keeps want (position cfg input) := by
    refine keeps_bind hskip fun _ => Maintains.get_bind fun s hs => Maintains.ite ?_ ?_
    · refine keeps_bind (keeps_set hs fun h => ?_) fun _ => keeps_pure false
      exact ⟨h.quoted, h.interior, h.handoff, h.multi⟩
    · refine keeps_bind (keeps_set hs fun h => ?_) fun _ => keeps_pure true
      exact ⟨h.quoted, h.interior, h.handoff, h.multi⟩
  exact keeps_bind checkFailed_keeps fun _ => keeps_bind ensureHeaders_keeps fun _ =>
    keeps_bind hsettle fun _ => hposition

theorem rewindToCurrent_keeps : Keeps want rewindToCurrent := by
  intro s hs
  unfold rewindToCurrent
  split
  · exact hs
  · split_ifs
    · exact ⟨hs.imp fun h => ⟨h.quoted, h.interior, h.handoff, h.multi⟩, trivial⟩
    · exact ⟨hs, trivial⟩

theorem record_keeps : Keeps want (record cfg F input) := by
  refine keeps_bind (Maintains.get_bind fun s _ => ?_) fun _ => Maintains.get_bind fun _ _ => keeps_pure _
  split
  · exact Maintains.throw' _
  · exact keeps_pure _
  · refine keeps_bind rewindToCurrent_keeps fun _ =>
      keeps_bind (parsePositionedRecord_keeps false) fun _ => keeps_bind ?_ fun _ => keeps_pure _
    exact keeps_modify fun _ h => ⟨h.quoted, h.interior, h.handoff, h.multi⟩

end Engine

end Coseva
