/-
  Coseva — a record reads alike from two documents that agree up to its end.

  * `Cut`: two documents that agree up to `stop`, the first of which goes on;
  * `search_cut`: a scan of a record stops at the same byte of both;
  * `plainKernel_cut`, `generalRecord_cut`: the plain kernel, and the record it
    takes or leaves to the field-by-field parser.
-/
import Coseva.RecordEnd
import Coseva.Replay

namespace Coseva

/-- Two documents agree up to `stop`, and the first goes on there. -/
structure Cut (input input' : Bytes) (stop : ℕ) : Prop where
  same : input'.take stop = input.take stop
  lt : stop < input.length
  le : stop ≤ input'.length

namespace Cut

variable {input input' : Bytes} {stop : ℕ} (hcut : Cut input input' stop)

include hcut

theorem getElem? {i : ℕ} (hi : i < stop) : input'[i]? = input[i]? :=
  Window.getElem?_of_take hcut.same hi

theorem byteAt {i : ℕ} (hi : i < stop) : byteAt input' i = byteAt input i := by
  unfold Coseva.byteAt
  rw [List.getD_eq_getElem?_getD, List.getD_eq_getElem?_getD, hcut.getElem? hi]

theorem slice {i j : ℕ} (hj : j ≤ stop) : slice input' i j = slice input i j := by
  have := congrArg (fun l => (l.take j).drop i) hcut.same
  simpa [Coseva.slice, List.take_take, Nat.min_eq_left hj] using this

/-- A text before `stop` stands in both. -/
theorem drop {u v : Bytes} {i : ℕ} (h : input.drop i = u ++ v) (hu : i + u.length ≤ stop) :
    input'.drop i = u ++ input'.drop (i + u.length) := Window.drop_of_take hcut.same h hu

end Cut

namespace Open

/-- A record of a document that goes on behind it has a byte left. -/
theorem lt_stop {d : Dialect} {input : Bytes} {stop pos : ℕ} {inQuotes : Bool}
    (h : Open d input stop inQuotes pos) (hlt : stop < input.length) : pos < stop := by
  have hle := h.le_stop
  rcases Nat.lt_or_eq_of_le hle with hpos | rfl
  · exact hpos
  · have hstop := h.stop
    obtain ⟨b, v, hv⟩ : ∃ b v, input.drop pos = b :: v := ⟨_, _, List.drop_eq_getElem_cons hlt⟩
    rw [hv, Split.recordWidth] at hstop
    generalize (if b = d.quote then !inQuotes else inQuotes) = inside at hstop
    split_ifs at hstop <;> omega

end Open

namespace Engine

open Run

variable {cfg : ParserSettings} {F : CsvFormat} {input input' : Bytes} {start stop : ℕ}
  {c c' s t : Engine}

/-! ## Scans -/

section scans

variable (cfg : ParserSettings) (hcut : Cut input input' stop)

include hcut

theorem scanEnd_lt_cut {pos : ℕ} (recordStart fieldStart : ℕ) (hpos : pos ≤ stop) :
    scanEnd cfg input' recordStart fieldStart < pos ↔
      scanEnd cfg input recordStart fieldStart < pos := by
  have h1 := hcut.lt
  have h2 := hcut.le
  unfold scanEnd
  omega

/-- A scan that looks for quotes and, outside quotes, for record endings, stops
    at the same byte of both documents, or at the limit. -/
theorem search_cut {d : Dialect} {inQuotes : Bool} {pos : ℕ} (hopen : Open d input stop inQuotes pos)
    {p : UInt8 → Bool}
    (hp : ∀ b, p b = false → b ≠ d.quote ∧ (inQuotes = false → b ≠ d.recordEnding.byte))
    (recordStart fieldStart : ℕ) :
    (slice input' pos (scanEnd cfg input' recordStart fieldStart)).findIdx? p =
        (slice input pos (scanEnd cfg input recordStart fieldStart)).findIdx? p ∧
      ((slice input pos (scanEnd cfg input recordStart fieldStart)).findIdx? p = none →
        scanEnd cfg input' recordStart fieldStart = scanEnd cfg input recordStart fieldStart ∧
          scanEnd cfg input recordStart fieldStart < stop) := by
  have hlt := hcut.lt
  have hle := hcut.le
  have hpos := hopen.lt_stop hlt
  rcases hfind : (slice input pos (scanEnd cfg input recordStart fieldStart)).findIdx? p with _ | i
  · have hend : scanEnd cfg input recordStart fieldStart < stop := by
      by_cases hbehind : pos ≤ scanEnd cfg input recordStart fieldStart
      · obtain ⟨u, hdrop, hlen, hu⟩ :=
          Window.of_window_none hbehind (Nat.min_le_left _ _) hfind
        have hscan := hopen.skip hdrop fun b hb => hp b (hu b hb)
        rw [← hlen] at hscan
        exact hscan.lt_stop hlt
      · omega
    have hsame : scanEnd cfg input' recordStart fieldStart =
        scanEnd cfg input recordStart fieldStart := by
      unfold scanEnd at hend ⊢
      omega
    refine ⟨?_, fun _ => ⟨hsame, hend⟩⟩
    rw [hsame, hcut.slice (Nat.le_of_lt hend), hfind]
  · obtain ⟨u, x, v, hdrop, hlen, hx, hu, hbound⟩ := Window.of_window_some hfind
    have hscan := hopen.skip hdrop fun b hb => hp b (hu b hb)
    have hin := hscan.lt_stop hlt
    have hdrop' : input'.drop pos = u ++ x :: input'.drop (pos + u.length + 1) := by
      have hcons : input.drop pos = (u ++ [x]) ++ v := by rw [hdrop]; simp
      have := hcut.drop hcons (by simp; omega)
      rw [this]
      simp [Nat.add_assoc]
    have hbound' : pos + i < scanEnd cfg input' recordStart fieldStart := by
      unfold scanEnd at hbound ⊢
      omega
    refine ⟨?_, nofun⟩
    have hslice : slice input' pos (scanEnd cfg input' recordStart fieldStart) = u ++ x ::
        (input'.drop (pos + u.length + 1)).take
          (scanEnd cfg input' recordStart fieldStart - (pos + u.length + 1)) := by
      unfold slice
      rw [List.drop_take, hdrop', List.take_append, List.take_of_length_le (by omega)]
      congr 1
      obtain ⟨n, hn⟩ : ∃ n, scanEnd cfg input' recordStart fieldStart - pos - u.length = n + 1 :=
        ⟨scanEnd cfg input' recordStart fieldStart - pos - u.length - 1, by omega⟩
      rw [hn, List.take_succ_cons]
      congr 2
      omega
    rw [hslice, Window.findIdx?_append_cons hu hx, hlen]

variable {cfg} in
theorem scanEnd_cut {recordStart fieldStart : ℕ}
    (hlt : scanEnd cfg input recordStart fieldStart < stop) :
    scanEnd cfg input' recordStart fieldStart = scanEnd cfg input recordStart fieldStart := by
  have h1 := hcut.lt
  have h2 := hcut.le
  unfold scanEnd at hlt ⊢
  omega

end scans

/-! ## Fields -/

/-- Two runs of one record, of two documents, end alike. -/
abbrev Matches (cfg : ParserSettings) (input input' : Bytes) (c c' : Engine) {α : Type} :
    EStateM.Result Fault Engine α → EStateM.Result Fault Engine α → Prop :=
  Related (Same cfg c c') (Likewise (physicalLine input c.lineBase c.lineOrigin)
    (physicalLine input' c'.lineBase c'.lineOrigin))

/-- What `parse_record` does behind a record that a kernel has taken. -/
def endTaken (cfg : ParserSettings) (F : CsvFormat) (input : Bytes) (recordStart : ℕ)
    (header : Bool) : Parse Unit := do
  if ParserSettings.needsRecordPass (cfg.fmt F).dialect (cfg.fmt F).nulls then
    finishPlainRecord cfg F input recordStart header
  else pure ()
  let e ← get
  validateFieldCount cfg input e.spans.len

/-- `parse_record` without the kernels of the default dialect. -/
def generalRecord (cfg : ParserSettings) (F : CsvFormat) (input : Bytes) (recordStart : ℕ)
    (header : Bool) : Parse Unit := do
  let plain ←
    if plainRecordCandidate cfg F input[recordStart]? then plainKernel cfg F input recordStart
    else pure false
  if plain then endTaken cfg F input recordStart header
  else parseRecordFieldsFor cfg F input recordStart header

/-- Two engines behind one record, whatever null marks its fields have. -/
structure Level (cfg : ParserSettings) (c c' s t : Engine) : Prop where
  location : s.location = t.location
  len : s.spans.len = t.spans.len
  expectedFields : cfg.fieldCount = .matchFirst → s.expectedFields = t.expectedFields
  left : s.frame = c.frame
  right : t.frame = c'.frame

section level

variable (hi : c.recordIndex = c'.recordIndex)

include hi

theorem error_level {α : Type} (kind : ErrorKind) (byte : ℕ) (hlevel : Level cfg c c' s t) :
    Related (Level cfg c c') (Likewise (physicalLine input c.lineBase c.lineOrigin)
        (physicalLine input' c'.lineBase c'.lineOrigin))
      ((error input kind byte : Parse α) s) ((error input' kind byte : Parse α) t) := by
  have hindex : s.recordIndex = t.recordIndex :=
    (congrArg Engine.recordIndex hlevel.left).trans
      (hi.trans (congrArg Engine.recordIndex hlevel.right).symm)
  have hlines : ∀ {e d : Engine}, e.frame = d.frame →
      e.lineBase = d.lineBase ∧ e.lineOrigin = d.lineOrigin := by
    intro e d hed
    have hbase := congrArg Engine.lineBase hed
    have horigin := congrArg Engine.lineOrigin hed
    exact ⟨hbase, horigin⟩
  unfold error errorFor
  rw [hlevel.len, hindex, (hlines hlevel.left).1, (hlines hlevel.left).2, (hlines hlevel.right).1,
    (hlines hlevel.right).2]
  exact .error kind byte t.recordIndex t.spans.len

theorem validateFieldCount_level (actual : ℕ) (hlevel : Level cfg c c' s t) :
    Related (Level cfg c c') (Likewise (physicalLine input c.lineBase c.lineOrigin)
        (physicalLine input' c'.lineBase c'.lineOrigin))
      (validateFieldCount cfg input actual s) (validateFieldCount cfg input' actual t) := by
  have hcheck : ∀ expected : ℕ, Related (Level cfg c c')
      (Likewise (physicalLine input c.lineBase c.lineOrigin)
        (physicalLine input' c'.lineBase c'.lineOrigin))
      ((if actual = expected then pure ()
        else error input (.fieldCountMismatch expected actual) s.location : Parse Unit) s)
      ((if actual = expected then pure ()
        else error input' (.fieldCountMismatch expected actual) t.location : Parse Unit) t) := by
    intro expected
    rw [hlevel.location]
    split_ifs
    · exact ⟨rfl, hlevel⟩
    · exact error_level hi _ _ hlevel
  unfold validateFieldCount
  rw [get_bind, get_bind]
  rcases hcount : cfg.fieldCount with _ | _ | expected
  · exact ⟨rfl, hlevel⟩
  · rw [hlevel.expectedFields hcount]
    rcases t.expectedFields with _ | expected
    · exact ⟨rfl, hlevel.location, hlevel.len, fun _ => rfl, hlevel.left, hlevel.right⟩
    · exact hcheck expected
  · exact hcheck expected

/-- The field count that a record ends with. -/
theorem countFields_level (hlevel : Level cfg c c' s t) :
    Related (Level cfg c c') (Likewise (physicalLine input c.lineBase c.lineOrigin)
        (physicalLine input' c'.lineBase c'.lineOrigin))
      ((do
        let e ← get
        validateFieldCount cfg input e.spans.len : Parse Unit) s)
      ((do
        let e ← get
        validateFieldCount cfg input' e.spans.len : Parse Unit) t) := by
  rw [get_bind, get_bind, hlevel.len]
  exact validateFieldCount_level hi _ hlevel

omit hi in
theorem Same.level (hsame : Same cfg c c' s t) : Level cfg c c' s t :=
  ⟨hsame.location, congrArg SpanStorage.len hsame.spans, hsame.expectedFields, hsame.left,
    hsame.right⟩

omit hi in
theorem markNullSpans_level (header : Bool) (hsame : Same cfg c c' s t) :
    Related (Level cfg c c') (Likewise (physicalLine input c.lineBase c.lineOrigin)
        (physicalLine input' c'.lineBase c'.lineOrigin))
      (markNullSpans cfg F input header s) (markNullSpans cfg F input' header t) := by
  unfold markNullSpans
  split_ifs
  · exact ⟨rfl, hsame.level⟩
  · refine ⟨rfl, hsame.location, ?_, hsame.expectedFields, hsame.left, hsame.right⟩
    simp only [SpanStorage.len, SpanStorage.markInputNulls, List.length_map, hsame.spans]

end level

section fields

variable (h : Splits cfg F) (hcut : Cut input input' stop) (hi : c.recordIndex = c'.recordIndex)

include hcut hi

theorem skipSpaces_cut (hspace : cfg.dialect.quote ≠ 32 ∧ cfg.dialect.recordEnding.byte ≠ 32)
    (recordStart field : ℕ) :
    ∀ (fuel fuel' : ℕ) (s t : Engine), Same cfg c c' s t →
      Open cfg.dialect input stop false s.location → input.length < s.location + fuel →
      input'.length < s.location + fuel' →
      Matches cfg input input' c c' (skipSpaces cfg input recordStart field fuel s)
        (skipSpaces cfg input' recordStart field fuel' t)
  | 0, _, _, _, _, hopen, hfuel, _ => absurd hopen.le (by omega)
  | _ + 1, 0, _, _, _, hopen, _, hfuel => by
    have := hopen.lt_stop hcut.lt
    have := hcut.le
    omega
  | fuel + 1, fuel' + 1, s, t, hsame, hopen, hfuel, hfuel' => by
    rw [skipSpaces, skipSpaces, get_bind, get_bind, ← hsame.location,
      hcut.getElem? (hopen.lt_stop hcut.lt)]
    split_ifs with hb
    · have hlt := (List.getElem?_eq_some_iff.mp hb).1
      have hdrop : input.drop s.location = 32 :: input.drop (s.location + 1) := by
        rw [List.drop_eq_getElem_cons hlt, (List.getElem?_eq_some_iff.mp hb).2]
      have hnext := hopen.other hdrop hspace.1.symm hspace.2.symm
      have hmoved : Same cfg c c' { s with location := s.location + 1 }
          { t with location := s.location + 1 } :=
        ⟨rfl, hsame.spans, hsame.expectedFields, hsame.left, hsame.right⟩
      rw [set_bind, set_bind]
      refine (checkRecordLimitFor_replays hi recordStart (s.location + 1) field _ _
        hmoved).bind_ends (checkRecordLimitFor_lands recordStart field (Nat.zero_le _)
          hnext.le_stop) ?_
      rintro _ s' t' ⟨rfl, -⟩ hsame'
      refine skipSpaces_cut hspace recordStart field fuel fuel' _ t' hsame' hnext ?_ ?_
      · show input.length < s.location + 1 + fuel
        omega
      · show input'.length < s.location + 1 + fuel'
        omega
    · exact ⟨rfl, hsame⟩

include h

theorem skipDelimiterSpaces_cut (recordStart : ℕ) (hsame : Same cfg c c' s t)
    (hopen : Open cfg.dialect input stop false s.location) :
    Matches cfg input input' c c' (skipDelimiterSpaces cfg input F recordStart s)
      (skipDelimiterSpaces cfg input' F recordStart t) := by
  unfold skipDelimiterSpaces
  rw [get_bind, get_bind, h.follows.skipInitialSpace, ← hsame.location, ← hsame.spans]
  split_ifs with hskip
  · exact ⟨rfl, hsame⟩
  · simp only [Bool.or_eq_true, Bool.not_eq_true', not_or, Bool.not_eq_false] at hskip
    exact skipSpaces_cut hcut hi (h.initialSpace hskip.1) recordStart _ _ _ s t hsame hopen
      (by omega) (by omega)

/-! ### Unquoted fields -/

/-- `parse_unquoted_field_runtime`. -/
theorem parseUnquotedFieldRuntime_cut (hsame : Same cfg c c' s t)
    (hopen : Open cfg.dialect input stop false s.location) :
    Matches cfg input input' c c' (parseUnquotedFieldRuntime cfg F input start s)
      (parseUnquotedFieldRuntime cfg F input' start t) := by
  unfold parseUnquotedFieldRuntime
  rw [get_bind, get_bind]
  simp only [h.follows.dialect, h.follows.syntax', h.seeks, if_true, ← hsame.location, gt_iff_lt,
    scanEnd_lt_cut cfg hcut _ _ hopen.le_stop]
  by_cases hpanic : scanEnd cfg input start s.location < s.location
  · rw [if_pos hpanic, if_pos hpanic]
    exact .panic
  rw [if_neg hpanic, if_neg hpanic]
  obtain ⟨hfind, hnone⟩ := search_cut cfg hcut hopen
    (p := fun b => b == cfg.dialect.delimiter || b == cfg.dialect.quote ||
      b == cfg.dialect.recordEnding.byte) (fun b hb => by
        simp only [Bool.or_eq_false_iff, beq_eq_false_iff_ne] at hb
        exact ⟨hb.1.2, fun _ => hb.2⟩) start s.location
  have hfind3 : ∀ l, find3 cfg.dialect.delimiter cfg.dialect.quote cfg.dialect.recordEnding.byte l =
      l.findIdx? (fun b => b == cfg.dialect.delimiter || b == cfg.dialect.quote ||
        b == cfg.dialect.recordEnding.byte) := fun _ => rfl
  simp only [hfind3, hfind]
  rcases hs : (slice input s.location (scanEnd cfg input start s.location)).findIdx?
    (fun b => b == cfg.dialect.delimiter || b == cfg.dialect.quote ||
      b == cfg.dialect.recordEnding.byte) with _ | relative
  · rw [(hnone hs).1]
    exact (checkScanEnd_replays hi _ _ _).bind (fun _ => (pushSpan_replays hi _ _ _ _ _).bind
      fun _ => (setLocation_replays _).bind fun _ => (setTerminated_replays _).bind
      fun _ => Alike.pure' true) s t hsame
  · obtain ⟨u, x, v, hdrop, hlen, -, hu, -⟩ := Window.of_window_some hs
    have hpos := hopen.skip hdrop fun b hb => by
      have := hu b hb
      simp only [Bool.or_eq_false_iff, beq_eq_false_iff_ne] at this
      exact ⟨this.1.2, fun _ => this.2⟩
    rw [hlen] at hpos
    have hlt := hpos.lt_stop hcut.lt
    have hprev : s.location + relative - 1 < stop := by omega
    simp only [hcut.byteAt hlt, hcut.byteAt hprev]
    by_cases hquote : byteAt input (s.location + relative) = cfg.dialect.quote
    · rw [if_pos hquote, if_pos hquote]
      exact error_replays hi _ _ s t hsame
    · rw [if_neg hquote, if_neg hquote]
      exact (pushSpan_replays hi _ _ _ _ _).bind (fun _ => (setLocation_replays _).bind
        fun _ => (noteTerminatedIf_replays _).bind fun _ => (checkRecordLimit_replays hi _ _).bind
        fun _ => Alike.pure' _) s t hsame

omit hi in
theorem unquotedStop_cut (fieldStart : ℕ) {pos : ℕ}
    (hpos : Open cfg.dialect input stop false pos) :
    unquotedStop cfg input' fieldStart pos = unquotedStop cfg input fieldStart pos := by
  have hlt := hpos.lt_stop hcut.lt
  have hprev : pos - 1 < stop := by omega
  have hdrop : input.drop pos = byteAt input pos :: input.drop (pos + 1) := by
    have hin : pos < input.length := Nat.lt_trans hlt hcut.lt
    rw [List.drop_eq_getElem_cons hin]
    unfold byteAt
    rw [List.getD_eq_getElem _ _ hin]
  have hnext : byteAt input pos ≠ cfg.dialect.quote →
      byteAt input pos ≠ cfg.dialect.recordEnding.byte →
      (input'.drop (pos + 1)).head? = (input.drop (pos + 1)).head? := by
    intro hq he
    rw [List.head?_drop, List.head?_drop, hcut.getElem? ((hpos.other hdrop hq he).lt_stop hcut.lt)]
  unfold unquotedStop
  simp only [hcut.byteAt hlt, hcut.byteAt hprev, h.unquotedByte, reduceCtorEq, if_false, h.seeks,
    Bool.true_and, h.confirms, if_true]
  by_cases hquote : (byteAt input pos == cfg.dialect.quote) = true
  · rw [if_pos hquote, if_pos hquote]
  rw [if_neg hquote, if_neg hquote]
  rw [beq_iff_eq] at hquote
  by_cases hcr : (cfg.dialect.recordEnding == .crLf && byteAt input pos == 13) = true
  · have hne : byteAt input pos ≠ cfg.dialect.recordEnding.byte := by
      simp only [Bool.and_eq_true, beq_iff_eq] at hcr
      rw [hcr.1, hcr.2]
      decide
    rw [if_pos hcr, if_pos hcr, hnext hquote hne]
  · rw [if_neg hcr, if_neg hcr]

theorem pushGeneralUnquotedSpan_cut {fieldStart fieldEnd pos : ℕ} (header : Bool)
    (hend : fieldEnd ≤ stop) : Mirrors cfg input input' c c'
      (pushGeneralUnquotedSpan cfg input fieldStart fieldEnd pos header)
      (pushGeneralUnquotedSpan cfg input' fieldStart fieldEnd pos header) := by
  unfold pushGeneralUnquotedSpan
  simp only [hcut.slice hend, h.unquotedByte]
  split_ifs
  · exact pushNullSpan_replays hi _
  · exact pushSpan_replays hi _ _ _ _ _

omit h hcut hi in
theorem unquotedStop_fieldEnd {fieldStart pos fieldEnd location : ℕ} {terminated : Bool}
    (hs : unquotedStop cfg input fieldStart pos = .ends fieldEnd location terminated) :
    fieldEnd ≤ pos := by
  unfold unquotedStop at hs
  simp only at hs
  split_ifs at hs <;> cases hs <;> omega

theorem generalUnquotedLoop_cut {fieldStart : ℕ} (header : Bool) (hsame : Same cfg c c' s t) :
    ∀ (fuel fuel' cursor : ℕ), fieldStart ≤ cursor → Open cfg.dialect input stop false cursor →
      (if cursor ≥ scanEnd cfg input start fieldStart then 1 else 2) ≤ fuel →
      (if cursor ≥ scanEnd cfg input start fieldStart then 1 else 2) ≤ fuel' →
      Matches cfg input input' c c'
        (generalUnquotedLoop cfg input (cfg.dialect.recordEnding == .crLf
          || cfg.dialect.escape.escapesUnquoted) start fieldStart header fuel cursor s)
        (generalUnquotedLoop cfg input' (cfg.dialect.recordEnding == .crLf
          || cfg.dialect.escape.escapesUnquoted) start fieldStart header fuel' cursor t)
  | 0, _, _, _, _, hfuel, _ => by split_ifs at hfuel <;> omega
  | _ + 1, 0, _, _, _, _, hfuel => by split_ifs at hfuel <;> omega
  | fuel + 1, fuel' + 1, cursor, hcursor, hopen, hfuel, hfuel' => by
    have hlt := hopen.lt_stop hcut.lt
    have hcond : cursor ≥ scanEnd cfg input' start fieldStart ↔
        cursor ≥ scanEnd cfg input start fieldStart := by
      have := scanEnd_lt_cut cfg hcut start fieldStart (Nat.succ_le_of_lt hlt)
      omega
    rw [generalUnquotedLoop, generalUnquotedLoop]
    simp only [findStopByte_eq, hcond]
    by_cases hend : cursor ≥ scanEnd cfg input start fieldStart
    · rw [if_pos hend, if_pos hend]
      have hscan : scanEnd cfg input start fieldStart < stop := by omega
      unfold endGeneralWindow
      simp only [scanEnd_cut hcut hscan]
      exact (checkScanEnd_replays hi _ _ _).bind
        (fun _ => (pushGeneralUnquotedSpan_cut h hcut hi header (Nat.le_of_lt hscan)).bind
        fun _ => (setLocation_replays _).bind fun _ => (setTerminated_replays _).bind
        fun _ => Alike.pure' true) s t hsame
    rw [if_neg hend, if_neg hend]
    rw [if_neg hend] at hfuel hfuel'
    obtain ⟨hfind, hnone⟩ := search_cut cfg hcut hopen
      (p := searchByte cfg.toFormatSettings) (fun b hb => by
        have hseek : cfg.syntax'.seeksQuotes = true := h.seeks
        simp only [searchByte, hseek, Bool.true_and, Bool.or_eq_false_iff,
          beq_eq_false_iff_ne] at hb
        exact ⟨hb.1.1.2, fun _ => hb.1.1.1.2⟩) start fieldStart
    rw [hfind]
    rcases hs : (slice input cursor (scanEnd cfg input start fieldStart)).findIdx?
      (searchByte cfg.toFormatSettings) with _ | relative
    · obtain ⟨hscan, hin⟩ := hnone hs
      obtain ⟨u, hdrop, hlen, hu⟩ := Window.of_window_none (Nat.le_of_not_le hend)
        (scanEnd_le cfg input start fieldStart) hs
      have hnext := Open.pass (o := cfg.toFormatSettings) h.seeks hopen hdrop hu
      rw [← hlen] at hnext
      simp only [hscan]
      exact generalUnquotedLoop_cut header hsame fuel fuel' _ (by omega) hnext
        (by rw [if_pos (Nat.le_refl _)]; omega) (by rw [if_pos (Nat.le_refl _)]; omega)
    · obtain ⟨u, x, v, hdrop, hlen, hx, hu, -⟩ := Window.of_window_some hs
      have hpos := Open.pass (o := cfg.toFormatSettings) h.seeks hopen hdrop hu
      rw [hlen] at hpos
      simp only [unquotedStop_cut h hcut fieldStart hpos]
      rcases hstop : unquotedStop cfg input fieldStart (cursor + relative) with
        next | kind | ⟨fieldEnd, location, terminated⟩
      · have hdrop' : input.drop (cursor + relative) = x :: v :=
          Window.drop_of_drop hdrop (by rw [hlen])
        have hnever := unquotedStop_lands h fieldStart hpos hdrop'
        rw [hstop] at hnever
        exact hnever.elim
      · exact error_replays hi _ _ s t hsame
      · have hle := unquotedStop_fieldEnd hstop
        have hin := hpos.le_stop
        exact (pushGeneralUnquotedSpan_cut h hcut hi header (by omega)).bind
          (fun _ => (setLocation_replays _).bind fun _ => (noteTerminatedIf_replays _).bind
          fun _ => (checkRecordLimit_replays hi _ _).bind fun _ => Alike.pure' _) s t hsame

/-- `parse_unquoted_field`. -/
theorem parseUnquotedField_cut (header : Bool) (hsame : Same cfg c c' s t)
    (hopen : Open cfg.dialect input stop false s.location) :
    Matches cfg input input' c c' (parseUnquotedField cfg F input start header s)
      (parseUnquotedField cfg F input' start header t) := by
  unfold parseUnquotedField
  split_ifs
  · unfold parseGeneralUnquotedField
    rw [get_bind, get_bind, ← hsame.location]
    refine generalUnquotedLoop_cut h hcut hi header hsame _ _ _ (Nat.le_refl _) hopen ?_ ?_
    · split_ifs <;> omega
    · split_ifs <;> omega
  · exact parseUnquotedFieldRuntime_cut h hcut hi hsame hopen

/-! ### Quoted fields -/

omit hi in
theorem skipPostQuoteWhitespace_cut {afterQuote : ℕ}
    (hopen : Open cfg.dialect input stop false afterQuote) :
    skipPostQuoteWhitespace input' cfg.syntax'.permitsTrailingWhitespace afterQuote =
      skipPostQuoteWhitespace input cfg.syntax'.permitsTrailingWhitespace afterQuote := by
  have hlands := (skipPostQuoteWhitespace_lands h hopen).1
  unfold skipPostQuoteWhitespace at hlands ⊢
  split_ifs at hlands ⊢ with hpermits
  swap
  · rfl
  have hlt := hlands.lt_stop hcut.lt
  congr 2
  have hsplit : input.drop afterQuote = (input.drop afterQuote).takeWhile (fun b => b == 32 || b == 9)
      ++ (input.drop afterQuote).dropWhile (fun b => b == 32 || b == 9) :=
    List.takeWhile_append_dropWhile.symm
  have hspaces : ∀ b ∈ (input.drop afterQuote).takeWhile (fun b => b == 32 || b == 9),
      (b == 32 || b == 9) = true := fun b hb =>
    List.mem_takeWhile_imp (p := fun b => b == 32 || b == 9) hb
  have hbehind := List.head?_dropWhile_not (fun b : UInt8 => b == 32 || b == 9)
    (input.drop afterQuote)
  generalize (input.drop afterQuote).takeWhile (fun b => b == 32 || b == 9) = u
    at hlt hsplit hspaces ⊢
  rw [hcut.drop hsplit (Nat.le_of_lt hlt)]
  refine Window.takeWhile_append hspaces fun b hb => ?_
  rw [List.head?_drop, hcut.getElem? hlt, ← List.head?_drop, Window.drop_of_drop hsplit rfl] at hb
  rwa [hb] at hbehind

/-- `finish_quoted_field_runtime`. -/
theorem finishQuotedField_cut {afterQuote : ℕ} (hsame : Same cfg c c' s t)
    (hopen : Open cfg.dialect input stop false afterQuote)
    (hquote : input[afterQuote]? ≠ some cfg.dialect.quote) :
    Matches cfg input input' c c' (finishQuotedField cfg F input start afterQuote s)
      (finishQuotedField cfg F input' start afterQuote t) := by
  have hafter := (skipPostQuoteWhitespace_lands h hopen).1
  have hspaces := skipPostQuoteWhitespace_cut h hcut hopen
  have hreturn := return_ne_quote h hquote
  unfold finishQuotedField
  simp only [h.follows.dialect, h.follows.syntax', h.confirms, h.widths, Bool.and_true, hspaces]
  generalize skipPostQuoteWhitespace input cfg.syntax'.permitsTrailingWhitespace afterQuote = pos
    at hafter hreturn ⊢
  have hlt := hafter.lt_stop hcut.lt
  rw [hcut.getElem? hlt]
  rcases hnext : input[pos]? with _ | next
  · exact endQuotedRecord_replays hi _ _ _ s t hsame
  simp only
  by_cases hdelimiter : (next == cfg.dialect.delimiter) = true
  · rw [if_pos hdelimiter, if_pos hdelimiter]
    exact (setLocation_replays _).bind (fun _ => Alike.pure' false) s t hsame
  rw [if_neg hdelimiter, if_neg hdelimiter]
  by_cases hending : (!(cfg.dialect.recordEnding == .crLf) &&
      next == cfg.dialect.recordEnding.byte) = true
  · rw [if_pos hending, if_pos hending]
    exact endQuotedRecord_replays hi _ _ _ s t hsame
  rw [if_neg hending, if_neg hending]
  have hhead : (cfg.dialect.recordEnding.stripsCr && next == 13 &&
      (input'.drop (pos + 1)).head? == some 10) = (cfg.dialect.recordEnding.stripsCr && next == 13 &&
        (input.drop (pos + 1)).head? == some 10) := by
    rcases hcr : cfg.dialect.recordEnding.stripsCr && next == 13 with _ | _
    · rfl
    simp only [Bool.and_eq_true, beq_iff_eq] at hcr
    have hbyte : cfg.dialect.recordEnding.byte ≠ 13 := by
      rcases hr : cfg.dialect.recordEnding with _ | _ | b
      · decide
      · decide
      · rw [hr] at hcr; cases hcr.1
    have hdrop : input.drop pos = 13 :: input.drop (pos + 1) := by
      have hin := (List.getElem?_eq_some_iff.mp hnext).1
      rw [List.drop_eq_getElem_cons hin, (List.getElem?_eq_some_iff.mp hnext).2, hcr.2]
    have hopen' := hafter.other hdrop (hreturn (by rw [hnext, hcr.2]) hcr.1).symm hbyte.symm
    rw [List.head?_drop, List.head?_drop, hcut.getElem? (hopen'.lt_stop hcut.lt)]
  rw [hhead]
  split_ifs
  · exact endQuotedRecord_replays hi _ _ _ s t hsame
  · exact error_replays hi _ _ s t hsame

theorem closeQuotedField_cut {contentStart scratchStart segmentStart pos : ℕ} (copied : Bool)
    (hsame : Same cfg c c' s t) (hopen : Open cfg.dialect input stop false (pos + 1))
    (hquote : input[pos + 1]? ≠ some cfg.dialect.quote) :
    Matches cfg input input' c c'
      (closeQuotedField cfg F input start contentStart scratchStart segmentStart pos copied s)
      (closeQuotedField cfg F input' start contentStart scratchStart segmentStart pos copied t) := by
  have hpush : ∀ (source : Source) (i j : ℕ), Mirrors cfg input input' c c'
      (do
        pushSpan cfg input source i j pos true
        finishQuotedField cfg F input start (pos + 1))
      (do
        pushSpan cfg input' source i j pos true
        finishQuotedField cfg F input' start (pos + 1)) := fun source i j =>
    (pushSpan_replays hi _ _ _ _ _).bind fun _ _ _ hsame =>
      finishQuotedField_cut h hcut hi hsame hopen hquote
  have hslice : slice input' segmentStart pos = slice input segmentStart pos :=
    hcut.slice (by have := hopen.le_stop; omega)
  unfold closeQuotedField
  rw [hslice]
  cases copied with
  | true =>
    refine (extendScratch_replays _).bind (fun _ => Alike.get_bind fun s t hsame => ?_) s t hsame
    rw [hsame.spans]
    exact hpush _ _ _ s t hsame
  | false => exact hpush _ _ _ s t hsame

/-- The loop of `parse_quoted_field_runtime`. -/
theorem quotedLoop_cut {contentStart scratchStart : ℕ} :
    ∀ (fuel fuel' segmentStart cursor : ℕ) (copied : Bool) (s t : Engine), contentStart ≤ cursor →
      segmentStart ≤ cursor →
      Same cfg c c' s t → Open cfg.dialect input stop true cursor →
      input.length + 2 ≤ fuel + cursor → input'.length + 2 ≤ fuel' + cursor →
      Matches cfg input input' c c'
        (quotedLoop cfg F input start contentStart scratchStart fuel segmentStart cursor copied s)
        (quotedLoop cfg F input' start contentStart scratchStart fuel' segmentStart cursor copied t) := by
  intro fuel
  induction fuel with
  | zero =>
    intro _ _ cursor _ _ _ _ _ _ hopen hfuel _
    exact absurd hopen.le (by omega)
  | succ fuel ih =>
    intro fuel' segmentStart cursor copied s t hcontent hsegment hsame hopen hfuel hfuel'
    rcases fuel' with _ | fuel'
    · have := hopen.lt_stop hcut.lt
      have := hcut.le
      omega
    rw [quotedLoop, quotedLoop]
    simp only [h.follows.dialect, gt_iff_lt, scanEnd_lt_cut cfg hcut _ _ hopen.le_stop]
    by_cases hend : scanEnd cfg input start contentStart < cursor
    · have hscan : scanEnd cfg input start contentStart < stop :=
        Nat.lt_of_lt_of_le hend hopen.le_stop
      rw [if_pos hend, if_pos hend, scanEnd_cut hcut hscan]
      exact (checkRecordLimit_replays hi _ _).bind (fun _ => Alike.throw' .panic) s t hsame
    rw [if_neg hend, if_neg hend]
    have hsearch : ∀ l, findQuoted cfg.dialect l = l.findIdx? (· == cfg.dialect.quote) := by
      intro l
      unfold findQuoted
      rw [h.escape]; rfl
    obtain ⟨hfind, hnone⟩ := search_cut cfg hcut hopen (p := (· == cfg.dialect.quote))
      (fun b hb => ⟨by simpa using hb, fun h => (by cases h)⟩) start contentStart
    rw [hsearch, hsearch, hfind]
    rcases hs : (slice input cursor (scanEnd cfg input start contentStart)).findIdx?
      (· == cfg.dialect.quote) with _ | relative
    · rw [(hnone hs).1]
      exact (checkScanEnd_replays hi _ _ _).bind (fun _ => error_replays hi _ _) s t hsame
    · obtain ⟨u, x, v, hdrop, hlen, hx, hu, -⟩ := Window.of_window_some hs
      obtain rfl : x = cfg.dialect.quote := by simpa using hx
      have hpos := hopen.skip hdrop fun b hb => ⟨by simpa using hu b hb, fun h => (by cases h)⟩
      have hrest : input.drop (cursor + relative) = cfg.dialect.quote :: v :=
        Window.drop_of_drop hdrop (by rw [hlen])
      rw [hlen] at hpos
      have hclosed := hpos.quote hrest h.sound.ending_ne_quote
      have hlt := hclosed.lt_stop hcut.lt
      have hstopEq : ∀ (input : Bytes) (scanEnd : ℕ),
          quotedStop input (cfg.fmt F) scanEnd (cursor + relative) =
            if input[cursor + relative + 1]? = some cfg.dialect.quote then
              .escaped cfg.dialect.quote else .closing := by
        intro input scanEnd
        simp only [quotedStop, h.follows.dialect, h.escape]
      simp only [hstopEq, hcut.getElem? hlt]
      by_cases hnext : input[cursor + relative + 1]? = some cfg.dialect.quote
      · rw [if_pos hnext]
        have hagain : input.drop (cursor + relative + 1) =
            cfg.dialect.quote :: input.drop (cursor + relative + 2) := by
          rw [List.drop_eq_getElem_cons (List.getElem?_eq_some_iff.mp hnext).1,
            (List.getElem?_eq_some_iff.mp hnext).2]
        have hopened := hclosed.quote hagain h.sound.ending_ne_quote
        unfold copySegment
        rw [hcut.slice (by omega : segmentStart ≤ stop),
          hcut.slice (by omega : cursor + relative ≤ stop)]
        refine (extendScratch_replays _).bind (fun _ => (extendScratch_replays _).bind
          fun _ => (checkScratchLimit_replays hi _ _).bind fun _ s t hsame => ?_) s t hsame
        exact ih fuel' _ _ true s t (by omega) (Nat.le_refl _) hsame hopened
          (by omega) (by omega)
      · rw [if_neg hnext]
        exact closeQuotedField_cut h hcut hi copied hsame hclosed hnext

theorem parseQuotedField_cut (hsame : Same cfg c c' s t)
    (hopen : Open cfg.dialect input stop false s.location)
    (hquote : input[s.location]? = some cfg.dialect.quote) :
    Matches cfg input input' c c' (parseQuotedField cfg F input start s)
      (parseQuotedField cfg F input' start t) := by
  unfold parseQuotedField
  rw [get_bind, get_bind, ← hsame.location, ← hsame.spans]
  have hdrop : input.drop s.location = cfg.dialect.quote :: input.drop (s.location + 1) := by
    rw [List.drop_eq_getElem_cons (List.getElem?_eq_some_iff.mp hquote).1,
      (List.getElem?_eq_some_iff.mp hquote).2]
  exact quotedLoop_cut h hcut hi _ _ _ _ _ s t (Nat.le_refl _) (Nat.le_refl _) hsame
    (hopen.quote hdrop h.sound.ending_ne_quote) (by omega) (by omega)

/-! ## The field-by-field parser -/

/-- One field. -/
theorem parseField_cut (header : Bool) (hsame : Same cfg c c' s t) (hstart : start ≤ s.location)
    (hopen : Open cfg.dialect input stop false s.location) :
    Matches cfg input input' c c' (parseField cfg F input start header s)
      (parseField cfg F input' start header t) := by
  unfold parseField
  refine (skipDelimiterSpaces_cut h hcut hi start hsame hopen).bind_ends
    (skipDelimiterSpaces_lands h start hstart hopen) ?_
  rintro _ s' t' ⟨-, hopen'⟩ hsame'
  rw [get_bind, get_bind, ← hsame'.location, hcut.getElem? (hopen'.lt_stop hcut.lt),
    h.follows.dialect, h.follows.syntax', h.quoting]
  split_ifs with hquote
  · exact parseQuotedField_cut h hcut hi hsame' hopen' hquote.1
  · exact parseUnquotedField_cut h hcut hi header hsame' hopen'

/-- The loop over the fields of a record. -/
theorem fieldsLoop_cut (header : Bool) :
    ∀ (fuel fuel' : ℕ) (s t : Engine), Same cfg c c' s t → start ≤ s.location →
      Open cfg.dialect input stop false s.location → input.length + 1 ≤ fuel + s.location →
      input'.length + 1 ≤ fuel' + s.location →
      Related (Level cfg c c') (Likewise (physicalLine input c.lineBase c.lineOrigin)
          (physicalLine input' c'.lineBase c'.lineOrigin))
        (fieldsLoop cfg F input start header fuel s) (fieldsLoop cfg F input' start header fuel' t)
  | 0, _, _, _, _, _, hopen, hfuel, _ => absurd hopen.le (by omega)
  | _ + 1, 0, _, _, _, _, hopen, _, hfuel => by
    have := hopen.lt_stop hcut.lt
    have := hcut.le
    omega
  | fuel + 1, fuel' + 1, s, t, hsame, hstart, hopen, hfuel, hfuel' => by
    rw [fieldsLoop, fieldsLoop]
    refine (parseField_cut h hcut hi header hsame hstart hopen).bind_ends
      (parseField_lands h header hstart hopen) ?_
    rintro (_ | _) s' t' hend hsame'
    · have hnext := hend.2
      rw [if_neg (by simp)]
      exact fieldsLoop_cut header fuel fuel' s' t' hsame' (by omega) hend.1 (by omega) (by omega)
    · rw [if_pos rfl]
      exact (markNullSpans_level header hsame').bind fun _ _ _ _ hlevel =>
        countFields_level hi hlevel

theorem parseRecordFields_cut (header : Bool) (hsame : Same cfg c c' s t)
    (hstart : start ≤ s.location) (hopen : Open cfg.dialect input stop false s.location) :
    Related (Level cfg c c') (Likewise (physicalLine input c.lineBase c.lineOrigin)
        (physicalLine input' c'.lineBase c'.lineOrigin))
      (parseRecordFields cfg F input start header s)
      (parseRecordFields cfg F input' start header t) :=
  fieldsLoop_cut h hcut hi header _ _ s t hsame hstart hopen (by omega) (by omega)

/-! ## The plain kernel -/

omit h hcut hi in
theorem slice_cons {pos last : ℕ} (hlt : pos < last) (hin : pos < input.length) :
    slice input pos last = byteAt input pos :: slice input (pos + 1) last := by
  have hlen : pos < (input.take last).length := by rw [List.length_take]; omega
  unfold slice byteAt
  rw [List.drop_eq_getElem_cons hlen, List.getElem_take, List.getD_eq_getElem _ _ hin]

/-- The end of the window of the plain kernel. -/
def plainEnd (cfg : ParserSettings) (input : Bytes) (start : ℕ) : ℕ :=
  min input.length (start + (cfg.limits.maxRecordBytes + 1))

theorem plainLoop_cut :
    ∀ (text : Bytes) (pos fieldStart : ℕ) (s t : Engine), Same cfg c c' s t → start ≤ pos →
      pos ≤ plainEnd cfg input start → slice input pos (plainEnd cfg input start) = text →
      Open cfg.dialect input stop false pos →
      Matches cfg input input' c c'
        (plainLoop cfg F input start (plainEnd cfg input start) fieldStart
          (structuralMatches cfg.dialect pos text) s)
        (plainLoop cfg F input' start (plainEnd cfg input' start) fieldStart
          (structuralMatches cfg.dialect pos
            (slice input' pos (plainEnd cfg input' start))) t)
  | [], pos, fieldStart, s, t, hsame, hstart, hle, htext, hopen => by
    have hlt := hopen.lt_stop hcut.lt
    have h1 := hcut.lt
    have h2 := hcut.le
    have hpos : pos = plainEnd cfg input start := by
      have := congrArg List.length htext
      simp only [slice, List.length_drop, List.length_take, List.length_nil] at this
      unfold plainEnd at this hle ⊢
      omega
    have hend : plainEnd cfg input' start = pos := by
      unfold plainEnd at hpos ⊢
      omega
    have htext' : slice input' pos pos = [] := by simp [slice]
    rw [hend, htext', structuralMatches, plainLoop, plainLoop, ← hpos]
    rw [if_pos (by omega), if_pos (by omega)]
    exact error_replays hi _ _ s t hsame
  | b :: text, pos, fieldStart, s, t, hsame, hstart, hle, htext, hopen => by
    have hlt := hopen.lt_stop hcut.lt
    have h1 := hcut.lt
    have h2 := hcut.le
    have hpos : pos < plainEnd cfg input start := by
      have := congrArg List.length htext
      simp only [slice, List.length_drop, List.length_take, List.length_cons] at this
      omega
    have hpos' : pos < plainEnd cfg input' start := by
      unfold plainEnd at hpos ⊢
      omega
    rw [slice_cons hpos (by omega)] at htext
    obtain ⟨hb, hrest⟩ := List.cons.inj htext
    rw [slice_cons hpos' (by omega), hcut.byteAt hlt, hb]
    have hdrop : input.drop pos = b :: input.drop (pos + 1) := by
      rw [List.drop_eq_getElem_cons (by omega), ← hb]
      unfold byteAt
      rw [List.getD_eq_getElem _ _ (by omega)]
    have hnext : b ≠ cfg.dialect.quote → b ≠ cfg.dialect.recordEnding.byte →
        ∀ (fieldStart : ℕ) (s t : Engine), Same cfg c c' s t → Matches cfg input input' c c'
          (plainLoop cfg F input start (plainEnd cfg input start) fieldStart
            (structuralMatches cfg.dialect (pos + 1) text) s)
          (plainLoop cfg F input' start (plainEnd cfg input' start) fieldStart
            (structuralMatches cfg.dialect (pos + 1)
              (slice input' (pos + 1) (plainEnd cfg input' start))) t) :=
      fun hq he fieldStart s t hsame => plainLoop_cut text (pos + 1) fieldStart s t hsame (by omega)
        hpos hrest (hopen.other hdrop hq he)
    rw [structuralMatches, structuralMatches]
    split_ifs with hmatch
    · rw [plainLoop, plainLoop]
      simp only [h.follows.dialect, h.follows.syntax', hasEscape_false h, h.quoting,
        h.unquotedQuotes, or_true, and_true, Bool.false_eq_true, if_false]
      by_cases hdelimiter : b = cfg.dialect.delimiter
      · rw [if_pos hdelimiter, if_pos hdelimiter]
        exact (pushSpan_replays hi _ _ _ _ _).bind
          (fun _ => hnext (hdelimiter ▸ h.sound.delimiter_ne_quote)
            (hdelimiter ▸ h.sound.ending_ne_delimiter.symm) _) s t hsame
      rw [if_neg hdelimiter, if_neg hdelimiter]
      by_cases hquote : b = cfg.dialect.quote
      · rw [if_pos hquote, if_pos hquote]
        exact declinePlain_replays s t hsame
      rw [if_neg hquote, if_neg hquote]
      by_cases hending : b = cfg.dialect.recordEnding.byte
      · rw [if_pos hending, if_pos hending]
        have hstrip : stripCr input' fieldStart pos = stripCr input fieldStart pos := by
          unfold stripCr
          rw [hcut.byteAt (by omega : pos - 1 < stop)]
        rw [hstrip]
        exact endPlainRecord_replays hi _ _ _ _ _ _ s t hsame
      · rw [if_neg hending, if_neg hending]
        exact hnext hquote hending _ s t hsame
    · simp only [Bool.or_eq_true, beq_iff_eq, not_or] at hmatch
      exact hnext hmatch.1.2 hmatch.2 _ s t hsame

theorem plainKernel_cut (hsame : Same cfg c c' s t)
    (hopen : Open cfg.dialect input stop false start) :
    Matches cfg input input' c c' (plainKernel cfg F input start s)
      (plainKernel cfg F input' start t) := by
  have hin := hopen.le
  unfold plainKernel
  simp only [h.follows.dialect]
  exact plainLoop_cut h hcut hi _ start start s t hsame (Nat.le_refl _)
    (by unfold plainEnd; omega) rfl hopen

omit h in
/-- The check of carriage returns. -/
theorem validateCrlf_cut (hsame : Same cfg c c' s t) (hlocation : s.location = stop)
    (hstart : start < stop) :
    Matches cfg input input' c c' (validateCrlf input start s) (validateCrlf input' start t) := by
  have hprev : stop - 1 < stop := by omega
  have hprev' : stop - 1 - 1 < stop := by omega
  unfold validateCrlf
  simp only [← hsame.location, hlocation, hcut.getElem? hprev, hcut.byteAt hprev', ← hsame.spans]
  have hend : (if (decide (start < stop) && input[stop - 1]? == some 10) = true then
      if (decide (start < stop - 1) && byteAt input (stop - 1 - 1) == 13) = true then
        stop - 1 - 1 else stop - 1
      else stop) ≤ stop := by
    split_ifs <;> omega
  generalize (if (decide (start < stop) && input[stop - 1]? == some 10) = true then
      if (decide (start < stop - 1) && byteAt input (stop - 1 - 1) == 13) = true then
        stop - 1 - 1 else stop - 1
      else stop) = searchEnd at hend ⊢
  rw [hcut.slice hend]
  rcases find1 13 (slice input start searchEnd) with _ | offset
  · simp only
    split_ifs
    · exact errorFor_replays hi _ _ _ s t hsame
    · exact ⟨rfl, hsame⟩
  · exact errorFor_replays hi _ _ _ s t hsame

omit h in
/-- What follows a record that a kernel has taken. -/
theorem endTaken_cut (header : Bool) (hsame : Same cfg c c' s t) (hlocation : s.location = stop)
    (hstart : start < stop) :
    Related (Level cfg c c') (Likewise (physicalLine input c.lineBase c.lineOrigin)
        (physicalLine input' c'.lineBase c'.lineOrigin))
      (endTaken cfg F input start header s) (endTaken cfg F input' start header t) := by
  have hfinish : Related (Level cfg c c') (Likewise (physicalLine input c.lineBase c.lineOrigin)
      (physicalLine input' c'.lineBase c'.lineOrigin))
      (finishPlainRecord cfg F input start header s)
      (finishPlainRecord cfg F input' start header t) := by
    unfold finishPlainRecord
    split_ifs
    · exact (validateCrlf_cut hcut hi hsame hlocation hstart).bind fun _ _ _ _ hsame' =>
        markNullSpans_level header hsame'
    · exact markNullSpans_level header hsame
  unfold endTaken
  split_ifs
  · exact hfinish.bind fun _ _ _ _ hlevel => countFields_level hi hlevel
  · exact countFields_level hi hsame.level

theorem parseRecordFieldsFor_cut (header : Bool) (hsame : Same cfg c c' s t)
    (hlocation : s.location = start) (hopen : Open cfg.dialect input stop false start) :
    Related (Level cfg c c') (Likewise (physicalLine input c.lineBase c.lineOrigin)
        (physicalLine input' c'.lineBase c'.lineOrigin))
      (parseRecordFieldsFor cfg F input start header s)
      (parseRecordFieldsFor cfg F input' start header t) := by
  have hrun : ∀ {F'}, cfg.Follows F' → Related (Level cfg c c')
      (Likewise (physicalLine input c.lineBase c.lineOrigin)
        (physicalLine input' c'.lineBase c'.lineOrigin))
      (parseRecordFields cfg F' input start header s)
      (parseRecordFields cfg F' input' start header t) := fun hF' =>
    parseRecordFields_cut { h with follows := hF' } hcut hi header hsame
      (Nat.le_of_eq hlocation.symm) (by rw [hlocation]; exact hopen)
  unfold parseRecordFieldsFor
  cases F with
  | some o => exact hrun h.follows
  | none =>
    rcases hk : cfg.formatKind with _ | _ | _
    · exact hrun (follows_of_formatKind.1 hk)
    · exact hrun (follows_of_formatKind.2 hk)
    · exact hrun h.follows

/-- **A record is read alike** by the plain kernel and the field-by-field parser
    from two documents that agree up to its end. -/
theorem generalRecord_cut (header : Bool) (hsame : Same cfg c c' s t)
    (hlocation : s.location = start) (hopen : Open cfg.dialect input stop false start) :
    Related (Level cfg c c') (Likewise (physicalLine input c.lineBase c.lineOrigin)
        (physicalLine input' c'.lineBase c'.lineOrigin))
      (generalRecord cfg F input start header s) (generalRecord cfg F input' start header t) := by
  have hlt := hopen.lt_stop hcut.lt
  unfold generalRecord
  rw [hcut.getElem? hlt]
  split_ifs
  · refine (plainKernel_cut h hcut hi hsame hopen).bind_ends (plainKernel_lands h hopen) ?_
    rintro (_ | _) s' t' htaken hsame'
    · exact parseRecordFieldsFor_cut h hcut hi header hsame' (htaken.trans hlocation) hopen
    · exact endTaken_cut hcut hi header hsame' htaken hlt
  · exact parseRecordFieldsFor_cut h hcut hi header hsame hlocation hopen

end fields

end Engine

end Coseva
