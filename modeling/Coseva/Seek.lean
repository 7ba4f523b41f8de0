/-
  Coseva — a parser that is moved to a record boundary reads on as the serial
  parse does (`seek` of `slice_parser.rs`, `seek_to` of `engine/cursor.rs`).

  * `Engine.seekTo`, `SliceParser.seek`: the movement;
  * `At`: a parser stands at a record of the document;
  * `readAt`: what a parser reads that was just moved there;
  * `record_at`: every parser that stands there reads the same.
-/
import Coseva.ReadDocument
import Coseva.RecordEnd
import Coseva.Replay

namespace Coseva

/-- Why a call fails: in a parse, or for its configuration. -/
inductive Failure where
  | parse (fault : Fault)
  | configuration (detail : String)
  deriving DecidableEq, Repr

/-- `seek_to`: the cursor moves to a boundary, with its counters. -/
def Engine.seekTo (b : Boundary) (e : Engine) : Engine :=
  { e with
    location := b.byte
    lineBase := max b.line 1
    lineOrigin := b.byte
    foldedUpto := b.byte
    foldedLines := 0
    recordIndex := b.record
    cursorStart := none
    cursorIndex := 0
    cursorEnd := none
    resume := .new
    failed := false
    terminated := false }

namespace SliceParser

variable (cfg : ParserSettings) (F : CsvFormat) (input : Bytes)

/-- `seek`: a boundary is a location of which the field is zero. -/
def seek (b : Boundary) (e : Engine) : Except Failure Engine :=
  if b.byte > input.length then
    .error (.configuration "CSV seek positions must lie within the input")
  else
    match Engine.ensureHeaders cfg input e with
    | .error fault _ => .error (.parse fault)
    | .ok _ e => .ok (e.seekTo b)

/-- `location`. -/
def location (e : Engine) : Boundary :=
  ⟨e.location, physicalLine input e.lineBase e.lineOrigin e.location, e.recordIndex⟩

/-- `headers`, of a parser that has read nothing: the configured header record
    or the one that is discovered. -/
def headers : Parse (Option (List Bytes)) := do
  match cfg.headers with
  | .none => do
    Engine.ensureHeaders cfg input
    pure none
  | .provided record => do
    Engine.ensureHeaders cfg input
    pure (some record)
  | .firstRecord => do
    modify fun e => { e with headersInitialized := true }
    let record ← Engine.nextPhysicalRecord cfg input true
    pure (record.map fun record => record.fields.map (·.bytes))

end SliceParser

namespace Engine

open Run

variable (cfg : ParserSettings) (F : CsvFormat) (input : Bytes) (start : Boundary)

/-! ## Parsers at a record -/

/-- The parser stands at the `m`-th record behind `start`: it is between two
    records and counts lines and records as from `start`. -/
structure At (m : ℕ) (e : Engine) : Prop extends Between e where
  location : e.location = Split.recordStart cfg.dialect input start.byte m
  recordIndex : e.recordIndex = start.record + m
  lines : ∀ byte, e.location ≤ byte →
    physicalLine input e.lineBase e.lineOrigin byte = physicalLine input start.line start.byte byte
  ownedParser : e.ownedParser = (fromConfig cfg input).ownedParser
  /-- a document that spans cannot address is never read -/
  spans : input.length ≤ Span.maxOffset ∨ e.spans.len = 0

/-- A parser that may be moved: it was built of the same settings. -/
structure Ready (e : Engine) : Prop where
  headers : e.headersInitialized = true
  ownedParser : e.ownedParser = (fromConfig cfg input).ownedParser
  spans : input.length ≤ Span.maxOffset ∨ e.spans.len = 0

variable {cfg F input start} {m : ℕ} {e : Engine}

theorem At.ready (h : At cfg input start m e) : Ready cfg input e :=
  ⟨h.headers, h.ownedParser, h.spans⟩

theorem ready_fromConfig (input : Bytes) (h : cfg.headers ≠ .firstRecord) :
    Ready cfg input (fromConfig cfg input) :=
  ⟨by simp [fromConfig, fromConfigWithOwnedParser, h], rfl, Or.inr rfl⟩

theorem slice_append (input : Bytes) {i j k : ℕ} (hij : i ≤ j) (hjk : j ≤ k) :
    slice input i k = slice input i j ++ slice input j k := by
  have htake : (input.take j).drop i = ((input.take k).drop i).take (j - i) := by
    rw [← List.drop_take, List.take_take, Nat.min_eq_left hjk]
  have hdrop : (input.take k).drop j = ((input.take k).drop i).drop (j - i) := by
    rw [List.drop_drop]
    congr 1; omega
  unfold slice
  rw [htake, hdrop, List.take_append_drop]

/-- Lines are counted alike from a boundary and from `start`. -/
theorem physicalLine_after (hstart : start.byte ≤ input.length) (hline : 1 ≤ start.line)
    (m : ℕ) {byte : ℕ} (h : Split.recordStart cfg.dialect input start.byte m ≤ byte) :
    physicalLine input (max (Split.after cfg.dialect input start m).line 1)
        (Split.after cfg.dialect input start m).byte byte =
      physicalLine input start.line start.byte byte := by
  have hle := Split.recordStart_le (d := cfg.dialect) hstart m
  have hmono := Split.recordStart_mono (d := cfg.dialect) hstart (Nat.zero_le m)
  simp only [Split.recordStart] at hmono
  unfold physicalLine Split.after
  simp only
  generalize Split.recordStart cfg.dialect input start.byte m = pos at h hle hmono ⊢
  have h1 : min start.byte (min byte input.length) = start.byte := by omega
  have h2 : min pos (min byte input.length) = pos := by omega
  have hsplit := slice_append input hmono (Nat.le_min.mpr ⟨h, hle⟩)
  rw [h1, h2, hsplit, List.count_append]
  omega

/-- Moved to a boundary, a parser stands at its record. -/
theorem seekTo_at (hready : Ready cfg input e) (hstart : start.byte ≤ input.length)
    (hline : 1 ≤ start.line) (m : ℕ) :
    At cfg input start m (e.seekTo (Split.after cfg.dialect input start m)) where
  failed := rfl
  headers := hready.headers
  resume := rfl
  settled := nofun
  location := rfl
  recordIndex := rfl
  lines := fun _ h => physicalLine_after hstart hline m h
  ownedParser := hready.ownedParser
  spans := hready.spans

theorem seek_at (hready : Ready cfg input e) (hstart : start.byte ≤ input.length)
    (hline : 1 ≤ start.line) (m : ℕ) :
    ∃ e', SliceParser.seek cfg input (Split.after cfg.dialect input start m) e = .ok e' ∧
      At cfg input start m e' := by
  have hle := Split.recordStart_le (d := cfg.dialect) hstart m
  have hheaders : ensureHeaders cfg input e = .ok () e := by
    unfold ensureHeaders
    rw [get_bind, if_pos hready.headers]; rfl
  refine ⟨_, ?_, seekTo_at hready hstart hline m⟩
  unfold SliceParser.seek
  rw [if_neg (by simpa [Split.after] using hle), hheaders]

/-! ## The next record -/

/-- Where nothing is skipped the cursor moves to the record it stands at. -/
theorem advance_between (hskips : cfg.skipsRecords = false) (h : Between e) :
    advance cfg F input e =
      if e.location = input.length then .ok false { e with cursorStart := none }
      else .ok true e.positioned := by
  have hskip : skipToRecord cfg input e = e := by
    unfold skipToRecord
    rw [if_neg (by simp [hskips])]
  rw [advance_between_eq h]
  unfold position
  rw [modify_bind, get_bind, hskip]
  split_ifs <;> rfl

/-- A record that is advanced to is parsed from its first byte. -/
theorem record_positioned (e : Engine) : record cfg F input e.positioned =
    match parsePositionedRecord cfg F input false e.positioned with
    | .ok range e' => .ok ⟨e'.spans.resolved input, range.1, range.2.1, range.2.2⟩
        { e' with cursorEnd := some range.2.1 }
    | .error fault e' => .error fault e' := by
  have hrewind : rewindToCurrent e.positioned = .ok () e.positioned := by
    unfold rewindToCurrent
    simp [positioned]
  have hfull : materializeFull cfg F input e.positioned =
      (do
        let range ← parsePositionedRecord cfg F input false
        modify fun e => { e with cursorEnd := some range.2.1 }
        pure range : Parse (ℕ × ℕ × ℕ)) e.positioned := by
    unfold materializeFull
    rw [get_bind]
    exact bind_ok hrewind
  unfold record
  rcases h : parsePositionedRecord cfg F input false e.positioned with ⟨range, e'⟩ | ⟨fault, e'⟩
  · rw [bind_ok h] at hfull
    rw [bind_ok hfull]; rfl
  · rw [bind_error h] at hfull
    rw [bind_error hfull]

/-- What the parse of a record reports. -/
theorem parsePositionedRecord_range {header : Bool} {range : ℕ × ℕ × ℕ} {e' : Engine}
    (h : parsePositionedRecord cfg F input header e = .ok range e') :
    input.length ≤ Span.maxOffset ∧ range.1 = e.location ∧ range.2.1 = e'.location := by
  unfold parsePositionedRecord at h
  obtain ⟨_, e₁, hbegin, h⟩ := ok_of_bind h
  unfold beginSpans at hbegin
  split_ifs at hbegin with hlong
  · cases hbegin
  cases hbegin
  rw [get_bind] at h
  obtain ⟨_, e₂, -, h⟩ := ok_of_bind h
  obtain ⟨_, e₃, -, h⟩ := ok_of_bind h
  rw [get_bind, set_bind] at h
  cases h
  exact ⟨Nat.le_of_not_lt hlong, rfl, rfl⟩

/-! ## The records of the document -/

variable (cfg F input start)

/-- What a parser reads that was moved to the `m`-th record. -/
def readAt (m : ℕ) : Except Fault Record :=
  match record cfg F input
      ((fromConfig cfg input).seekTo (Split.after cfg.dialect input start m)).positioned with
  | .ok r _ => .ok r
  | .error fault _ => .error fault

/-- A record that begins at `start` is read up to `stop`, or an error of it is
    reported. -/
def EndsAt (start stop : ℕ) : Except Fault Record → Prop
  | .ok r => r.stop = stop
  | .error (.error _ location) => start ≤ location.byte ∧ location.byte ≤ stop
  | .error .panic | .error .stuck => False

instance (start stop : ℕ) : ∀ r, Decidable (EndsAt start stop r)
  | .ok r => inferInstanceAs (Decidable (r.stop = stop))
  | .error (.error _ location) =>
    inferInstanceAs (Decidable (start ≤ location.byte ∧ location.byte ≤ stop))
  | .error .panic | .error .stuck => inferInstanceAs (Decidable False)

/-- The `m`-th record ends where counting quotes says. -/
def Counted (m : ℕ) : Prop :=
  EndsAt (Split.recordStart cfg.dialect input start.byte m)
    (Split.recordStart cfg.dialect input start.byte (m + 1)) (readAt cfg F input start m)

instance (m : ℕ) : Decidable (Counted cfg F input start m) :=
  inferInstanceAs (Decidable (EndsAt _ _ _))

/-- A read of the `m`-th record: the record and a parser behind it, or the
    error. -/
def ReadsAt (m : ℕ) (r : EStateM.Result Fault Engine Record) : Except Fault Record → Prop
  | .ok record => ∃ e, r = .ok record e ∧ At cfg input start (m + 1) e ∧
      record.start = Split.recordStart cfg.dialect input start.byte m
  | .error fault => ∃ e, r = .error fault e

variable {cfg F input start}

/-- **A record is read alike** by every parser that stands at it. -/
theorem record_at (hheaders : cfg.headers ≠ .firstRecord) (hfields : cfg.fieldCount ≠ .matchFirst)
    (hstart : start.byte ≤ input.length) (hline : 1 ≤ start.line) (h : At cfg input start m e)
    (hm : Split.recordStart cfg.dialect input start.byte m < input.length)
    (hcounted : Counted cfg F input start m) :
    ReadsAt cfg input start m (record cfg F input e.positioned) (readAt cfg F input start m) := by
  have h₀ := seekTo_at (ready_fromConfig input hheaders) hstart hline m
  unfold Counted readAt at hcounted
  unfold readAt
  generalize (fromConfig cfg input).seekTo (Split.after cfg.dialect input start m) = e₀
    at h₀ hcounted ⊢
  have hspans : input.length ≤ Span.maxOffset ∨
      e.positioned.spans.len = e₀.positioned.spans.len := by
    rcases h.spans with hs | hs
    · exact Or.inl hs
    · exact h₀.spans.imp_right fun hs₀ => hs.trans hs₀.symm
  have hr := @parsePositionedRecord_replays cfg F input e.positioned e₀.positioned
    ⟨h.recordIndex.trans h₀.recordIndex.symm, h.ownedParser.trans h₀.ownedParser.symm⟩ false
    (h.location.trans h₀.location.symm) (fun hc => absurd hc hfields) hspans
  rw [record_positioned] at hcounted ⊢
  rw [record_positioned]
  rcases hs : parsePositionedRecord cfg F input false e.positioned with ⟨range, s⟩ | ⟨fault, s⟩ <;>
    rcases ht : parsePositionedRecord cfg F input false e₀.positioned with
      ⟨range', t⟩ | ⟨fault', t⟩ <;>
    rw [hs, ht] at hr <;> rw [ht] at hcounted
  · obtain ⟨rfl, hmoved⟩ := hr
    obtain ⟨hlong, hfirst, hlast⟩ := parsePositionedRecord_range hs
    have hlocation : s.location = Split.recordStart cfg.dialect input start.byte (m + 1) :=
      hlast.symm.trans hcounted
    have hlt := Split.lt_recordStop (d := cfg.dialect) hm
    obtain ⟨⟨hfailed, hinit, hresume, hcursor⟩, hrecord, hbase, horigin, howned⟩ := hmoved.kept
    refine ⟨{ s with cursorEnd := some range.2.1 }, by simp only [hmoved.spans], ?_,
      hfirst.trans h.location⟩
    constructor
    · refine ⟨hfailed.trans h.failed, hinit.trans h.headers, hresume.trans h.resume, ?_⟩
      rw [show s.cursorStart = some e.location from hcursor, h.location]
      simp only [hlocation, Split.recordStart]
      exact fun heq => absurd (Option.some.inj heq) (Nat.ne_of_lt hlt)
    · exact hlocation
    · rw [show s.recordIndex = e.recordIndex + 1 from hrecord, h.recordIndex, Nat.add_assoc]
    · intro byte hbyte
      rw [show s.lineBase = e.lineBase from hbase, show s.lineOrigin = e.lineOrigin from horigin]
      refine h.lines byte ?_
      rw [h.location]
      simp only [hlocation, Split.recordStart] at hbyte
      omega
    · exact howned.trans h.ownedParser
    · exact Or.inl hlong
  · exact hr.elim
  · exact hr.elim
  · -- the lines of the error agree behind the start of the record
    refine ⟨s, ?_⟩
    cases hr with
    | panic => rfl
    | stuck => rfl
    | error kind byte record field =>
      have hbyte : Split.recordStart cfg.dialect input start.byte m ≤ byte := hcounted.1
      have hline : physicalLine input e.positioned.lineBase e.positioned.lineOrigin byte =
          physicalLine input e₀.positioned.lineBase e₀.positioned.lineOrigin byte :=
        (h.lines byte (h.location.symm ▸ hbyte)).trans
          (h₀.lines byte (h₀.location.symm ▸ hbyte)).symm
      rw [hline]

/-- In a format that can be split every record ends where counting quotes says,
    unless its parse panics. -/
theorem counted_of_splits (h : Splits cfg F) (hstart : start.byte ≤ input.length) (m : ℕ)
    (hpanic : readAt cfg F input start m ≠ .error .panic) : Counted cfg F input start m := by
  have hle := Split.recordStart_le (d := cfg.dialect) hstart m
  have hrun : Lands (Split.recordStart cfg.dialect input start.byte m)
      (Split.recordStart cfg.dialect input start.byte (m + 1))
      (fun range _ => range.2.1 = Split.recordStart cfg.dialect input start.byte (m + 1))
      (parsePositionedRecord cfg F input false
        ((fromConfig cfg input).seekTo (Split.after cfg.dialect input start m)).positioned) :=
    parsePositionedRecord_lands h false rfl hle
  unfold Counted
  unfold readAt at hpanic ⊢
  rw [record_positioned] at hpanic ⊢
  rcases hr : parsePositionedRecord cfg F input false
    ((fromConfig cfg input).seekTo (Split.after cfg.dialect input start m)).positioned with
    ⟨range, e'⟩ | ⟨fault, e'⟩ <;> rw [hr] at hrun hpanic
  · exact hrun
  · cases fault with
    | error kind location => exact hrun
    | panic => exact absurd rfl hpanic
    | stuck => exact hrun.elim

end Engine

end Coseva
